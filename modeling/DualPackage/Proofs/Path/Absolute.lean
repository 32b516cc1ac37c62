import DualPackage.Proofs.Path.Tidy
/-!
# Paths read from a directory

What a path means that does not begin at the root depends on the directory it is
read from: the components of the directory come first, and then its own, every
`..` among them (`readFrom`). A path is read so when it is joined to the
directory, and when it is made absolute there; the texts that these write may
differ in their slashes and dots (`components_join_eq_readFrom`,
`components_absolute`). Joined to a directory or not, a path asks for a
directory itself or does not (`asksDir_join`).
-/

namespace DualPackage

namespace Path

variable {p q dir : Path} {n : String}

/-- The components of the path as it is read from a directory. -/
def readFrom (p dir : Path) : List Component :=
  if p.isAbsolute then p.components else dir.components ++ p.components.filter (· ≠ .here)

/-- What is left of the components without the root and a leading dot is told
from the location. -/
theorem filter_components {keep : Component → Bool} (hroot : p.isAbsolute → keep .root = false)
    (hhere : keep .here = false) (hkeep : ∀ c, c ≠ .here → c ≠ .root → keep c) :
    p.components.filter keep = p.location.filterMap Component.ofSegment? := by
  have hnamed : (p.segments.filterMap Component.ofSegment?).filter keep =
      p.segments.filterMap Component.ofSegment? := by
    refine List.filter_eq_self.2 fun c hc => ?_
    obtain ⟨s, -, hs⟩ := List.mem_filterMap.1 hc
    exact hkeep c (ofSegment?_eq_some hs).1 (ofSegment?_eq_some hs).2
  rw [filterMap_location_eq, components]
  split
  · rename_i habs
    rw [List.filter_cons_of_neg (by simp [hroot habs]), hnamed]
  · split
    · rw [List.filter_cons_of_neg (by simp [hhere]), hnamed]
    · exact hnamed

theorem readFrom_of_not_isAbsolute (hp : p.isAbsolute = false) (dir : Path) :
    p.readFrom dir = dir.components ++ p.location.filterMap Component.ofSegment? := by
  have hnamed : p.components.filter (· ≠ .here) = p.location.filterMap Component.ofSegment? :=
    filter_components (fun habs => by simp [hp] at habs) (by decide)
      (fun c hhere _ => decide_eq_true hhere)
  rw [readFrom, hp, if_neg Bool.false_ne_true, hnamed]

/-! ## Joined to the directory -/

theorem components_join_eq_readFrom (hdir : dir.isAbsolute) (q : Path) :
    (dir.join q).components = q.readFrom dir := by
  cases hq : q.isAbsolute with
  | true => rw [join, if_pos hq, readFrom, if_pos hq]
  | false => rw [components_join hdir hq, readFrom_of_not_isAbsolute hq]

/-- A path that does not begin at the root begins with a step. -/
theorem steps_ne_nil (hq : q.isAbsolute = false) (hne : q.text ≠ "") : Disk.steps q ≠ [] := by
  obtain ⟨c, x, hx⟩ : ∃ c x, q.text.toList = c :: x :=
    List.exists_cons_of_ne_nil fun hnil => hne (String.toList_eq_nil_iff.1 hnil)
  have hc : c ≠ '/' := by
    rintro rfl
    simp [isAbsolute, hx] at hq
  obtain ⟨segment, more, hsplit⟩ : ∃ segment more, splitSlash (c :: x) = (c :: segment) :: more := by
    rw [splitSlash, if_neg hc]
    split
    · exact ⟨_, _, rfl⟩
    · exact ⟨_, _, rfl⟩
  simp [Disk.steps, segments, hx, hsplit]

/-- What a path asks for does not depend on where it is read from. -/
theorem asksDir_join (dir : Path) (hne : q.text ≠ "") : (dir.join q).AsksDir ↔ q.AsksDir := by
  cases hq : q.isAbsolute with
  | true => rw [join, if_pos hq]
  | false =>
    have hchars : q.text.toList ≠ [] := fun hnil => hne (String.toList_eq_nil_iff.1 hnil)
    have hslash : (dir.join q).endsInSlash = q.endsInSlash := by
      rw [endsInSlash, toList_join hq]
      split
      · rw [List.getLast?_append_of_ne_nil _ hchars]
        rfl
      · rw [List.append_cons, List.getLast?_append_of_ne_nil _ hchars]
        rfl
    have hsteps : (Disk.steps (dir.join q)).getLast? = (Disk.steps q).getLast? := by
      rw [steps_join hq, List.getLast?_append_of_ne_nil _ (steps_ne_nil hq hne)]
    rw [AsksDir, AsksDir, hslash, hsteps]

/-! ## Made absolute -/

/-- A segment that the location keeps is a path of its own. -/
theorem location_mk (h : n ∈ p.location) :
    (⟨n⟩ : Path).isAbsolute = false ∧ (⟨n⟩ : Path).location = [n] := by
  have hn := List.forall_mem_singleton.2 (isSegment_of_mem_location h)
  have habs := isAbsolute_joined hn
  have hsteps := steps_joined hn
  rw [String.intercalate_singleton] at habs hsteps
  have hdot : n ≠ "." := by
    rintro rfl
    simp [location] at h
  refine ⟨habs, ?_⟩
  rw [location, hsteps]
  simp [hdot]

theorem location_foldl_join {start : Path} {named : List Component} (hstart : start.isAbsolute)
    (hnamed : ∀ c ∈ named, c.text ∈ p.location) :
    (named.foldl (fun q c => q.join ⟨c.text⟩) start).isAbsolute ∧
      (named.foldl (fun q c => q.join ⟨c.text⟩) start).location =
        start.location ++ named.map Component.text := by
  induction named generalizing start with
  | nil => exact ⟨hstart, (List.append_nil _).symm⟩
  | cons c named ih =>
    obtain ⟨hc, hrest⟩ := List.forall_mem_cons.1 hnamed
    obtain ⟨hrelative, hlocation⟩ := location_mk hc
    obtain ⟨habs, hgone⟩ := ih (isAbsolute_join_of hstart ⟨c.text⟩) hrest
    refine ⟨habs, ?_⟩
    rw [List.foldl_cons, hgone, location_join hrelative, hlocation, List.append_assoc]
    rfl

/-- **Going on by the components of a path** from a directory adds them to those
of the directory. -/
theorem components_foldl_join (hdir : dir.isAbsolute) (p : Path) :
    ((p.location.filterMap Component.ofSegment?).foldl (fun q c => q.join ⟨c.text⟩)
        dir).isAbsolute ∧
      ((p.location.filterMap Component.ofSegment?).foldl (fun q c => q.join ⟨c.text⟩)
        dir).components = dir.components ++ p.location.filterMap Component.ofSegment? := by
  have hmap : (p.location.filterMap Component.ofSegment?).map Component.text = p.location := by
    rw [filterMap_location_eq, map_text_filterMap]
    rfl
  have hnamed : ∀ c ∈ p.location.filterMap Component.ofSegment?, c.text ∈ p.location :=
    fun c hc => hmap ▸ List.mem_map_of_mem hc
  obtain ⟨habs, hlocation⟩ := location_foldl_join hdir hnamed
  rw [hmap] at hlocation
  refine ⟨habs, ?_⟩
  rw [components_of_isAbsolute habs, hlocation, List.filterMap_append,
    components_of_isAbsolute hdir, List.cons_append]

/-- A slash at the end is no component. -/
theorem components_join_empty (hp : p.isAbsolute) :
    (p.join ⟨""⟩).isAbsolute ∧ (p.join ⟨""⟩).components = p.components := by
  have hempty : (⟨""⟩ : Path).isAbsolute = false ∧ (⟨""⟩ : Path).location = [] := by decide
  refine ⟨isAbsolute_join_of hp ⟨""⟩, ?_⟩
  rw [components_join hp hempty.1, hempty.2]
  exact List.append_nil _

/-- **A path made absolute** is read from the working directory. -/
theorem components_absolute (hcwd : dir.isAbsolute) (p : Path) :
    (p.absolute dir).isAbsolute ∧ (p.absolute dir).components = p.readFrom dir := by
  have hnamed : p.components.filter (fun c => c != .root && c != .here) =
      p.location.filterMap Component.ofSegment? :=
    filter_components (fun _ => rfl) rfl fun c hhere hroot => by simp [hhere, hroot]
  -- where the components are written behind, and what comes of it
  obtain ⟨start, hstart, hread, hwhole⟩ : ∃ start : Path, start.isAbsolute ∧
      p.readFrom dir = start.components ++ p.location.filterMap Component.ofSegment? ∧
      (if !p.isAbsolute then dir else if p.hasTwoSlashes then ⟨"//"⟩ else ⟨"/"⟩) = start := by
    cases hp : p.isAbsolute with
    | false => exact ⟨dir, hcwd, readFrom_of_not_isAbsolute hp dir, rfl⟩
    | true =>
      have hread : p.readFrom dir = .root :: p.location.filterMap Component.ofSegment? := by
        rw [readFrom, if_pos hp, components_of_isAbsolute hp]
      cases p.hasTwoSlashes with
      | false => exact ⟨⟨"/"⟩, by decide, hread, rfl⟩
      | true => exact ⟨⟨"//"⟩, by decide, hread, rfl⟩
  obtain ⟨habs, hcomponents⟩ := components_foldl_join hstart p
  rw [absolute, hnamed, hread, ← hcomponents, hwhole]
  split
  · exact components_join_empty habs
  · exact ⟨habs, rfl⟩

end Path

end DualPackage
