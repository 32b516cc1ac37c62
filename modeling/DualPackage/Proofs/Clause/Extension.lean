import DualPackage.Clause.Revision
import Mathlib.Data.List.TakeWhile
/-!
# The extension of a specifier

A specifier that has been given its extension needs none, so giving
extensions twice is giving them once (`Specifier.extended_extended`). The
extension is made of characters that a specifier may hold, and it leaves a
specifier on the side of the package boundary on which it was.
-/

namespace DualPackage

namespace Specifier

/-- The specifier with the extension it needs, and else as it is. -/
def extended (s : Specifier) : Specifier :=
  s.withScriptExtension?.getD s

theorem extended_of_needsExtension {s : Specifier} (h : s.needsExtension) :
    s.extended = s ++ scriptExtension := by
  simp [extended, withScriptExtension?, h]

theorem extended_of_not_needsExtension {s : Specifier} (h : s.needsExtension = false) :
    s.extended = s := by
  simp [extended, withScriptExtension?, h]

/-- An end without a slash belongs to the last segment. -/
theorem lastSegment_append (s : Specifier) {ending : List Char} (h : '/' ∉ ending) :
    lastSegment (s ++ ending) = lastSegment s ++ ending := by
  have hrun : ∀ c ∈ ending.reverse, (c != '/') = true := by
    intro c hc
    simp only [List.mem_reverse] at hc
    simp only [bne_iff_ne, ne_eq]
    rintro rfl
    exact h hc
  rw [lastSegment, List.reverse_append, List.takeWhile_append_of_pos hrun, List.reverse_append,
    List.reverse_reverse, lastSegment]

theorem lacksExtension_append_scriptExtension (s : Specifier) :
    lacksExtension (s ++ scriptExtension) = false := by
  -- the dot of the extension stands in the last segment
  have hslash : '/' ∉ scriptExtension := by decide
  have hdot : '.' ∈ lastSegment s ++ scriptExtension :=
    List.mem_append_right _ (by decide)
  simp only [lacksExtension, lastSegment_append s hslash, Bool.and_eq_false_iff,
    Bool.not_eq_false', List.contains_iff_mem]
  exact .inr hdot

@[simp] theorem needsExtension_extended (s : Specifier) : s.extended.needsExtension = false := by
  by_cases h : s.needsExtension
  · rw [extended_of_needsExtension h, needsExtension, lacksExtension_append_scriptExtension,
      Bool.and_false]
  · rw [Bool.not_eq_true] at h
    rwa [extended_of_not_needsExtension h]

/-- **An extension is given once.** -/
@[simp] theorem extended_extended (s : Specifier) : s.extended.extended = s.extended :=
  extended_of_not_needsExtension (needsExtension_extended s)

/-- The extension is made of characters that a specifier may hold. -/
@[simp] theorem all_inSpecifier_extended (s : Specifier) :
    s.extended.all inSpecifier = s.all inSpecifier := by
  by_cases hs : s.needsExtension
  · have hext : scriptExtension.all inSpecifier := by decide
    rw [extended_of_needsExtension hs, List.all_append, hext, Bool.and_true]
  · rw [Bool.not_eq_true] at hs
    rw [extended_of_not_needsExtension hs]

end Specifier

end DualPackage
