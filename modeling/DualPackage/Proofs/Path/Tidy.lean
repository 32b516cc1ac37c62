import DualPackage.Proofs.Path.Normalized
/-!
# Paths from the root, written anew

A path that begins at the root keeps its components when it is written
anew, every `..` among them, and loses what stands for none: the dots,
repeated slashes, and a slash at the end. `Tidies` lists what this comes
to, and `tidies_normalized` says it of every such path. Reading the new
text once more, from whatever directory, gives it back.
-/

namespace DualPackage

namespace Path

variable {p q : Path}

/-- The segments that the location leaves out are no components. -/
theorem filterMap_location_eq (p : Path) :
    p.location.filterMap Component.ofSegment? = p.segments.filterMap Component.ofSegment? := by
  rw [location, Disk.steps, List.filterMap_filter, List.filterMap_filter]
  congr 1
  funext s
  by_cases hempty : s = ""
  · simp [hempty, Component.ofSegment?]
  · by_cases hdot : s = "." <;> simp [hempty, hdot, Component.ofSegment?]

theorem filterMap_location (h : ".." ∉ p.segments) :
    p.location.filterMap Component.ofSegment? = p.location.map .name := by
  rw [filterMap_location_eq, filterMap_ofSegment? _ h]
  rfl

/-- The components of a path from the root are those of its location. -/
theorem components_of_isAbsolute (h : p.isAbsolute) :
    p.components = .root :: p.location.filterMap Component.ofSegment? := by
  rw [components, if_pos h, filterMap_location_eq]

theorem location_normalized (p : Path) : p.normalized.location = p.location := by
  rw [location, steps_normalized, location, List.filter_filter]
  simp

theorem normalized_normalized (p : Path) : p.normalized.normalized = p.normalized := by
  rw [normalized_eq p.normalized, isAbsolute_normalized, location_normalized, ← normalized_eq]

theorem components_normalized (h : p.isAbsolute) : p.normalized.components = p.components := by
  rw [components_of_isAbsolute h, components_of_isAbsolute (isAbsolute_normalized p ▸ h),
    location_normalized]

/-- Whatever is read from the root, or joined to such a path, begins there. -/
theorem isAbsolute_join_of (hp : p.isAbsolute) (q : Path) : (p.join q).isAbsolute := by
  cases hq : q.isAbsolute with
  | true => rwa [join, if_pos hq]
  | false => rwa [isAbsolute_join hq]

theorem components_join (hp : p.isAbsolute) (hq : q.isAbsolute = false) :
    (p.join q).components = p.components ++ q.location.filterMap Component.ofSegment? := by
  rw [components_of_isAbsolute hp, components_of_isAbsolute (isAbsolute_join_of hp q),
    location_join hq, List.filterMap_append, List.cons_append]

/-- The segments of a path from the root that was written anew: an empty one,
and the location. -/
theorem segments_normalized (h : p.isAbsolute) (hne : p.location ≠ []) :
    p.normalized.segments = "" :: p.location := by
  rw [normalized_eq, if_pos h, segments_rooted,
    segments_joined hne fun n hn => isSegment_of_mem_location hn]

theorem normalized_of_location_nil (h : p.isAbsolute) (hnil : p.location = []) :
    p.normalized = ⟨"/"⟩ := by
  rw [normalized_eq, if_pos h, hnil]
  rfl

/-- Two slashes side by side have an empty segment between them. -/
theorem exists_segments_of_infix (h : ['/', '/'] <:+: p.text.toList) :
    ∃ front back, front ≠ [] ∧ p.segments = front ++ "" :: back := by
  obtain ⟨x, y, hxy⟩ := h
  have htext : p.text.toList = x ++ '/' :: ('/' :: y) := by
    rw [← hxy]
    simp
  refine ⟨(splitSlash x).map String.ofList, (splitSlash y).map String.ofList,
    by simpa using splitSlash_ne_nil x, ?_⟩
  rw [segments, htext, splitSlash_append]
  simp [splitSlash]

/-- The path `q` has the components of `p`, every `..` among them, and nothing
in its text besides: it begins at the root, and has no dots, no repeated
slashes, and no slash at its end unless it is one. Read from any directory, it
comes out the same. -/
structure Tidies (p q : Path) : Prop where
  isAbsolute : q.isAbsolute
  same : q.same p
  here_free : "." ∉ q.segments
  one_slash : ¬ ['/', '/'] <:+: q.text.toList
  slash_free_end : q.endsInSlash → q.text = "/"
  ups : q.segments.count ".." = p.segments.count ".."
  fixed : ∀ root : Path, (root.join q).normalized = q

/-- **A path from the root, written anew.** -/
theorem tidies_normalized (h : p.isAbsolute) : Tidies p p.normalized := by
  have habs : p.normalized.isAbsolute := by rwa [isAbsolute_normalized]
  have hcount : p.location.count ".." = p.segments.count ".." := by
    rw [location, Disk.steps, List.count_filter (by decide), List.count_filter (by decide)]
  have hdot : "." ∉ p.location := fun hmem => by simp [location] at hmem
  have hfixed : ∀ root : Path, (root.join p.normalized).normalized = p.normalized := by
    intro root
    rw [join, if_pos habs, normalized_normalized]
  have hsame : p.normalized.same p := by rw [same, components_normalized h, beq_self_eq_true]
  by_cases hnil : p.location = []
  · have hroot := normalized_of_location_nil h hnil
    rw [hnil] at hcount
    refine ⟨habs, hsame, ?_, ?_, fun _ => by rw [hroot], ?_, hfixed⟩
    · rw [hroot]
      decide
    · rw [hroot]
      decide
    · rw [hroot, ← hcount]
      decide
  · have hsegments := segments_normalized h hnil
    have hempty : "" ∉ p.location := fun hmem => (isSegment_of_mem_location hmem).ne_empty rfl
    refine ⟨habs, hsame, ?_, fun hinfix => ?_, fun hslash => ?_, ?_, hfixed⟩
    · rw [hsegments]
      simpa using hdot
    · -- the first segment is the only empty one
      obtain ⟨front, back, hfront, heq⟩ := exists_segments_of_infix hinfix
      obtain ⟨first, front, rfl⟩ := List.exists_cons_of_ne_nil hfront
      rw [hsegments, List.cons_append, List.cons.injEq] at heq
      exact hempty (heq.2 ▸ List.mem_append_right front List.mem_cons_self)
    · rw [endsInSlash_normalized hnil] at hslash
      cases hslash
    · rw [hsegments, List.count_cons_of_ne (by decide), hcount]

end Path

end DualPackage
