import DualPackage.Proofs.Path.Names
/-!
# Paths without their dots

`Path.normalized` writes a path anew from its components, those apart that
stand for the directory itself. The steps that are left are its `location`
(`steps_normalized`), and it begins at the root, or holds a character other than
a slash, if the path does. Two things about a text get lost: that it asks for a
directory, by a slash or a dot at its end (`AsksDir`), and that it is a path at
all if it is made of dots only (`OnlyDots`).
-/

namespace DualPackage

namespace Path

variable {p : Path} {n : String}

/-- The path asks for a directory: its text ends in a slash, or its last step
is a dot. -/
def AsksDir (p : Path) : Prop :=
  p.endsInSlash ∨ (Disk.steps p).getLast? = some "."

/-- The path names nothing, and does not begin at the root either. -/
def OnlyDots (p : Path) : Prop :=
  p.isAbsolute = false ∧ p.location = []

instance (p : Path) : Decidable p.AsksDir :=
  inferInstanceAs (Decidable (_ ∨ _))

instance (p : Path) : Decidable p.OnlyDots :=
  inferInstanceAs (Decidable (_ ∧ _))

theorem isSegment_of_mem_location (h : n ∈ p.location) : IsSegment n :=
  isSegment_of_mem_steps (List.mem_filter.1 h).1

/-- The components of a path are written as its steps, its dots apart. -/
theorem map_text_filterMap (segments : List String) :
    (segments.filterMap Component.ofSegment?).map Component.text =
      (segments.filter (· != "")).filter (· != ".") := by
  induction segments with
  | nil => rfl
  | cons s segments ih =>
    by_cases hempty : s = ""
    · simpa [Component.ofSegment?, hempty] using ih
    · by_cases hdot : s = "."
      · simpa [Component.ofSegment?, hdot] using ih
      · by_cases hup : s = ".."
        · simpa [Component.ofSegment?, hup, Component.text] using ih
        · simpa [Component.ofSegment?, hempty, hdot, hup, Component.text] using ih

theorem ofSegment?_eq_some {c : Component} (h : Component.ofSegment? n = some c) :
    c ≠ .here ∧ c ≠ .root := by
  unfold Component.ofSegment? at h
  split_ifs at h <;> cases h <;> simp

theorem ofComponents_of_root_free {components : List Component} (h : ∀ c ∈ components, c ≠ .root) :
    ofComponents components = ⟨"/".intercalate (components.map Component.text)⟩ := by
  cases components with
  | nil => rfl
  | cons c components =>
    cases c with
    | root => exact absurd rfl (h .root List.mem_cons_self)
    | here | up | name n => rfl

/-- **A path written anew**: its location, from the root or not. -/
theorem normalized_eq (p : Path) :
    p.normalized = ⟨(if p.isAbsolute then "/" else "") ++ "/".intercalate p.location⟩ := by
  have hnamed : ∀ c ∈ p.segments.filterMap Component.ofSegment?, c ≠ .here ∧ c ≠ .root := by
    intro c hc
    obtain ⟨s, -, hs⟩ := List.mem_filterMap.1 hc
    exact ofSegment?_eq_some hs
  have hkept : (p.segments.filterMap Component.ofSegment?).filter (· != .here) =
      p.segments.filterMap Component.ofSegment? :=
    List.filter_eq_self.2 fun c hc => by simpa using (hnamed c hc).1
  have htexts : (p.segments.filterMap Component.ofSegment?).map Component.text = p.location :=
    map_text_filterMap p.segments
  unfold normalized components
  cases p.isAbsolute with
  | true =>
    rw [if_pos rfl, if_pos rfl, List.filter_cons_of_pos (by decide), hkept, ofComponents, htexts]
  | false =>
    have hwritten : ofComponents (p.segments.filterMap Component.ofSegment?) =
        ⟨"/".intercalate p.location⟩ := by
      rw [ofComponents_of_root_free fun c hc => (hnamed c hc).2, htexts]
    simp only [Bool.false_eq_true, if_false, String.empty_append, ← hwritten]
    split
    · rw [List.filter_cons_of_neg (by decide), hkept]
    · rw [hkept]

theorem steps_normalized (p : Path) : Disk.steps p.normalized = p.location := by
  have hjoined := steps_joined fun n (hn : n ∈ p.location) => isSegment_of_mem_location hn
  rw [normalized_eq]
  cases p.isAbsolute with
  | true => rw [if_pos rfl, steps_rooted_eq, hjoined]
  | false => rw [if_neg (by decide), String.empty_append, hjoined]

theorem isAbsolute_normalized (p : Path) : p.normalized.isAbsolute = p.isAbsolute := by
  rw [normalized_eq]
  cases p.isAbsolute with
  | true => simp [isAbsolute]
  | false =>
    rw [if_neg (by decide), String.empty_append]
    exact isAbsolute_joined fun n hn => isSegment_of_mem_location hn

/-- **Only of a path of dots** nothing is left. -/
theorem isEmpty_normalized (p : Path) : p.normalized.text.isEmpty ↔ p.OnlyDots := by
  rw [String.isEmpty_iff]
  constructor
  · intro hempty
    have hsteps := steps_normalized p
    have habs := isAbsolute_normalized p
    rw [show p.normalized = ⟨""⟩ from congrArg Path.mk hempty] at hsteps habs
    exact ⟨habs.symm, hsteps.symm⟩
  · rintro ⟨habs, hloc⟩
    rw [normalized_eq, habs, hloc]
    rfl

/-- A text that ends in a slash has nothing behind it. -/
theorem getLast?_segments (h : p.endsInSlash) : p.segments.getLast? = some "" := by
  obtain ⟨x, hx⟩ : ∃ x, p.text.toList = x ++ ['/'] := by
    rw [endsInSlash, beq_iff_eq] at h
    exact ⟨_, (List.dropLast_append_getLast? _ h).symm⟩
  rw [segments, hx, splitSlash_append]
  simp [splitSlash]

theorem endsInSlash_normalized (h : p.location ≠ []) : p.normalized.endsInSlash = false := by
  rw [← Bool.not_eq_true]
  intro hslash
  have hlast := getLast?_segments hslash
  have hsegments : (⟨"/".intercalate p.location⟩ : Path).segments = p.location :=
    segments_joined h fun n hn => isSegment_of_mem_location hn
  have hends : p.location.getLast? = some "" := by
    rw [normalized_eq] at hlast
    cases habs : p.isAbsolute with
    | true =>
      rw [habs, if_pos rfl, segments_rooted, hsegments, List.getLast?_cons] at hlast
      cases hloc : p.location.getLast? with
      | none => exact absurd (List.getLast?_eq_none_iff.1 hloc) h
      | some n => simpa [hloc] using hlast
    | false => rwa [habs, if_neg (by decide), String.empty_append, hsegments] at hlast
  exact (isSegment_of_mem_location (List.mem_of_getLast? hends)).ne_empty rfl

/-! ## Names at the end -/

theorem location_join_name_ne_nil (hn : IsName n) : (p.join ⟨n⟩).location ≠ [] := by
  rw [location_join hn.isAbsolute, hn.location]
  exact List.append_ne_nil_of_right_ne_nil _ (List.cons_ne_nil n [])

theorem isEmpty_join_name (hn : IsName n) : (p.join ⟨n⟩).text.isEmpty = false := by
  rw [← Bool.not_eq_true, String.isEmpty_iff]
  intro hempty
  refine location_join_name_ne_nil (p := p) hn ?_
  rw [show p.join ⟨n⟩ = ⟨""⟩ from congrArg Path.mk hempty]
  rfl

theorem not_onlyDots_join_name (hn : IsName n) : ¬ (p.join ⟨n⟩).OnlyDots :=
  fun hdots => location_join_name_ne_nil hn hdots.2

/-- A path that ends in a name does not ask for a directory. -/
theorem not_asksDir_join_name (hn : IsName n) : ¬ (p.join ⟨n⟩).AsksDir := by
  rintro (hslash | hdot)
  · obtain ⟨c, hc⟩ : ∃ c, n.toList.getLast? = some c :=
      Option.ne_none_iff_exists'.1 fun hnone =>
        hn.ne_empty (String.toList_eq_nil_iff.1 (List.getLast?_eq_none_iff.1 hnone))
    have hlast : (p.join ⟨n⟩).text.toList.getLast? = some c := by
      rw [toList_join hn.isAbsolute]
      split <;> simp [List.getLast?_cons, List.getLast?_append, hc]
    rw [endsInSlash, hlast, beq_iff_eq, Option.some.injEq] at hslash
    exact hn.slash_free c (List.mem_of_getLast? hc) hslash
  · rw [steps_join hn.isAbsolute, hn.steps, List.getLast?_concat, Option.some.injEq] at hdot
    exact hn.ne_here hdot

/-! ## Characters -/

theorem mem_splitSlash {c : Char} (hc : c ≠ '/') (x : List Char) :
    c ∈ x ↔ ∃ segment ∈ splitSlash x, c ∈ segment := by
  induction x with
  | nil => simp [splitSlash]
  | cons d x ih =>
    by_cases hd : d = '/'
    · simp [splitSlash, hd, hc, ih]
    · obtain ⟨segment, more, hx⟩ := List.exists_cons_of_ne_nil (splitSlash_ne_nil x)
      simp only [splitSlash, hd, if_false, hx, List.mem_cons, ih, exists_eq_or_imp]
      tauto

/-- A character other than a slash stands in one of the steps. -/
theorem mem_text_iff {c : Char} (hc : c ≠ '/') (p : Path) :
    c ∈ p.text.toList ↔ ∃ step ∈ Disk.steps p, c ∈ step.toList := by
  rw [mem_splitSlash hc]
  constructor
  · rintro ⟨segment, hsegment, hmem⟩
    refine ⟨String.ofList segment, ?_, by simpa using hmem⟩
    refine List.mem_filter.2 ⟨List.mem_map_of_mem hsegment, ?_⟩
    have hne : segment ≠ [] := List.ne_nil_of_mem hmem
    simpa [← String.toList_eq_nil_iff] using hne
  · rintro ⟨step, hstep, hmem⟩
    obtain ⟨segment, hsegment, rfl⟩ := List.mem_map.1 (List.mem_filter.1 hstep).1
    exact ⟨segment, hsegment, by simpa using hmem⟩

theorem mem_normalized {c : Char} (hslash : c ≠ '/') (hdot : c ≠ '.') (p : Path) :
    c ∈ p.normalized.text.toList ↔ c ∈ p.text.toList := by
  rw [mem_text_iff hslash, mem_text_iff hslash, steps_normalized]
  constructor
  · rintro ⟨step, hstep, hmem⟩
    exact ⟨step, (List.mem_filter.1 hstep).1, hmem⟩
  · rintro ⟨step, hstep, hmem⟩
    refine ⟨step, List.mem_filter.2 ⟨hstep, ?_⟩, hmem⟩
    rw [bne_iff_ne]
    rintro rfl
    exact hdot (List.mem_singleton.1 hmem)

/-- No zero byte stands in the path. -/
def ZeroFree (p : Path) : Prop :=
  '\x00' ∉ p.text.toList

/-- What goes on from a path has a zero byte if the path has one. -/
theorem ZeroFree.of_join (hn : IsName n) (h : (p.join ⟨n⟩).ZeroFree) : p.ZeroFree := by
  intro hmem
  refine h ((mem_text_iff (by decide) _).2 ?_)
  obtain ⟨step, hstep, hzero⟩ := (mem_text_iff (by decide) _).1 hmem
  exact ⟨step, by rw [steps_join hn.isAbsolute]; exact List.mem_append_left _ hstep, hzero⟩

end Path

end DualPackage
