import DualPackage.Proofs.Path.Names
import Mathlib.Data.List.Induction
/-!
# The place a path leads to

A path may go back up by `..`, and may begin at the working directory.
Where there are no links, it still leads to one location that is told from
its text (`Path.place`): each name goes down and each `..` back up. For a
plain path this is the location it spells. The paths that a walk gives to
what it finds lead on by names, and so do their components, which is what
paths are compared by.
-/

namespace DualPackage

/-- Where one step of a path leads. -/
def Location.go (loc : Location) (step : String) : Location :=
  if step = "." then loc else if step = ".." then loc.dropLast else loc ++ [step]

namespace Path

variable {p q : Path} {cwd : Location} {names : List String} {n : String}

/-- The location a path leads to from a working directory, with every `..`
resolved. -/
def place (cwd : Location) (p : Path) : Location :=
  (Disk.steps p).foldl Location.go (if p.isAbsolute then [] else cwd)

theorem foldl_go_of_up_free (loc : Location) {way : List String} (h : ".." ∉ way) :
    way.foldl Location.go loc = loc ++ way.filter (· != ".") := by
  induction way generalizing loc with
  | nil => simp
  | cons step way ih =>
    simp only [List.mem_cons, not_or] at h
    rw [List.foldl_cons, ih _ h.2, Location.go]
    by_cases hhere : step = "."
    · simp [hhere]
    · simp [hhere, Ne.symm h.1]

/-- **The place of a plain path** is the location it spells. -/
theorem IsPlain.place_eq (h : p.IsPlain) (cwd : Location) : p.place cwd = p.location := by
  rw [place, if_pos h.isAbsolute, foldl_go_of_up_free _ fun hmem => h.up_free (up_mem_steps.1 hmem),
    List.nil_append, location]

theorem place_join (hq : q.isAbsolute = false) (hup : ".." ∉ q.segments) :
    (p.join q).place cwd = p.place cwd ++ q.location := by
  rw [place, isAbsolute_join hq, steps_join hq, List.foldl_append,
    foldl_go_of_up_free _ fun hmem => hup (up_mem_steps.1 hmem)]
  rfl

/-- Names lead down from where the path leads. -/
theorem place_join_names (h : ∀ n ∈ names, IsName n) :
    (p.join ⟨"/".intercalate names⟩).place cwd = p.place cwd ++ names := by
  rw [place_join (isAbsolute_intercalate h) (up_free_intercalate h), location_intercalate h]

theorem place_under (h : ∀ n ∈ names, IsName n) :
    (p.under names).place cwd = p.place cwd ++ names := by
  induction names generalizing p with
  | nil => simp
  | cons n names ih =>
    obtain ⟨hn, hnames⟩ := List.forall_mem_cons.1 h
    rw [under_cons, ih hnames, place_join hn.isAbsolute hn.up_free, hn.location, List.append_assoc,
      List.singleton_append]

/-! ## Components -/

/-- A name adds one component. -/
theorem components_join_name (hn : IsName n) :
    (p.join ⟨n⟩).components = p.components ++ [.name n] := by
  have habs := hn.isAbsolute
  have hsegments := hn.segments
  have hsegment : Component.ofSegment? n = some (.name n) := by
    simp [Component.ofSegment?, hn.ne_empty, hn.ne_here, hn.ne_up]
  cases hp : p.text.isEmpty with
  | true =>
    obtain rfl : p = ⟨""⟩ := by
      rw [String.isEmpty_iff] at hp
      rw [← hp]
    have hempty : (⟨""⟩ : Path).components = [] := by decide
    rw [join_of_isEmpty habs hp, hempty]
    simp [components, habs, hsegments, hsegment, hn.ne_here]
  | false =>
    obtain ⟨front, hne, hjoined, hfront⟩ := segments_join habs hp
    -- the first segment, which may be a leading `.`, stays the first
    obtain ⟨s, rest, rfl⟩ := List.exists_cons_of_ne_nil hne
    have hfirst : p.segments.head? = some s := by rcases hfront with h | h <;> simp [h]
    have hnamed : p.segments.filterMap Component.ofSegment? =
        (s :: rest).filterMap Component.ofSegment? := by
      rcases hfront with h | h
      · rw [h]
      · rw [h, List.filterMap_append]
        exact List.append_nil _
    have hfirst' : (p.join ⟨n⟩).segments.head? = some s := by simp [hjoined]
    have hnamed' : (p.join ⟨n⟩).segments.filterMap Component.ofSegment? =
        p.segments.filterMap Component.ofSegment? ++ [.name n] := by
      rw [hjoined, hsegments, List.filterMap_append, hnamed]
      simp [hsegment]
    simp only [components, isAbsolute_join habs, hfirst, hfirst', hnamed']
    split
    · rfl
    · split <;> rfl

/-- **Going down by names** adds them to the components. -/
theorem components_under (h : ∀ n ∈ names, IsName n) :
    (p.under names).components = p.components ++ names.map .name := by
  induction names generalizing p with
  | nil => simp
  | cons n names ih =>
    obtain ⟨hn, hnames⟩ := List.forall_mem_cons.1 h
    rw [under_cons, ih hnames, components_join_name hn]
    simp

theorem below?_under (h : ∀ n ∈ names, IsName n) :
    (p.under names).below? p = some ⟨"/".intercalate names⟩ :=
  below?_of_components (components_under h)

/-- The file name of what is found below a path is the last name. -/
theorem fileName?_under (h : ∀ m ∈ names ++ [n], IsName m) :
    (p.under (names ++ [n])).fileName? = some n := by
  rw [fileName?, components_under h]
  simp

/-- Going along segments of which the last that adds a component is a name
ends under that name. -/
theorem exists_foldl_go {segments : List String} (loc : Location)
    (h : (segments.filterMap Component.ofSegment?).getLast? = some (.name n)) :
    ∃ above, (segments.filter (· != "")).foldl Location.go loc = above ++ [n] := by
  induction segments using List.reverseRecOn with
  | nil => simp at h
  | append_singleton segments s ih =>
    rw [List.filterMap_append] at h
    rw [List.filter_append, List.foldl_append]
    by_cases hempty : s = ""
    · simpa [hempty, Component.ofSegment?] using ih (by simpa [hempty, Component.ofSegment?] using h)
    · by_cases hhere : s = "."
      · simpa [hhere, Component.ofSegment?, Location.go] using
          ih (by simpa [hhere, Component.ofSegment?] using h)
      · by_cases hup : s = ".."
        · simp [hup, Component.ofSegment?] at h
        · obtain rfl : s = n := by simpa [Component.ofSegment?, hempty, hhere, hup] using h
          refine ⟨(segments.filter (· != "")).foldl Location.go loc, ?_⟩
          simp [hempty, Location.go, hhere, hup]

/-- **The file name** of a path is the name of its place. -/
theorem place_of_fileName? (h : p.fileName? = some n) : ∃ above, p.place cwd = above ++ [n] := by
  have hlast : p.components.getLast? = some (.name n) := by
    unfold fileName? at h
    split at h
    · rename_i hlast
      rw [hlast, Option.some.inj h]
    · cases h
  refine exists_foldl_go _ ?_
  -- the root and a leading `.` are no names
  unfold components at hlast
  cases hnamed : p.segments.filterMap Component.ofSegment? with
  | nil =>
    simp only [hnamed] at hlast
    split at hlast
    · simp at hlast
    · split at hlast <;> simp at hlast
  | cons c named =>
    simp only [hnamed] at hlast
    split at hlast
    · simpa using hlast
    · split at hlast
      · simpa using hlast
      · exact hlast

end Path

end DualPackage
