import DualPackage.Text.Scan
import Mathlib.Data.List.Basic
/-!
# The first match of a scan

A scan passes over the characters at which no match begins, takes the
first match it comes to, and goes on behind it. The lemmas say this of
`Finder.scan` for a text split at that place: `scan_append_of_none` for
what is passed over, `scan_of_find?` for the match, and `exists_first`
that a text with a match has a first one. A text without matches is not
changed (`replace_of_found_nil`).
-/

namespace DualPackage

namespace Text

/-- The character in front of what follows `x`, where `before` is the one in
front of `x` itself. -/
def charBefore : Option Char → List Char → Option Char
  | before, [] => before
  | _, c :: x => charBefore (some c) x

@[simp] theorem charBefore_nil (before : Option Char) : charBefore before [] = before := rfl

@[simp] theorem charBefore_cons (before : Option Char) (c : Char) (x : List Char) :
    charBefore before (c :: x) = charBefore (some c) x := rfl

theorem charBefore_append (before : Option Char) (x y : List Char) :
    charBefore before (x ++ y) = charBefore (charBefore before x) y := by
  induction x generalizing before with
  | nil => rfl
  | cons c x ih => exact ih (some c)

@[simp] theorem charBefore_concat (before : Option Char) (x : List Char) (c : Char) :
    charBefore before (x ++ [c]) = some c := by
  rw [charBefore_append]
  rfl

namespace Finder

variable {α : Type} {F : Finder α}

/-- No match of the text `x ++ rest` begins inside `x`. -/
def NoneWithin (F : Finder α) (before : Option Char) (x rest : List Char) : Prop :=
  ∀ y c z, x = y ++ c :: z → F.find? (charBefore before y) (c :: z ++ rest) = none

theorem NoneWithin.tail {before : Option Char} {c : Char} {x rest : List Char}
    (h : F.NoneWithin before (c :: x) rest) : F.NoneWithin (some c) x rest := by
  rintro y d z rfl
  exact h (c :: y) d z rfl

/-- The scan passes over characters at which no match begins. -/
theorem scan_append_of_none {before : Option Char} {x rest : List Char}
    (h : F.NoneWithin before x rest) :
    F.scan before 0 (x ++ rest) = x.map .plain ++ F.scan (charBefore before x) 0 rest := by
  induction x generalizing before with
  | nil => rfl
  | cons c x ih =>
    have hc : F.find? before (c :: (x ++ rest)) = none := h [] c x rfl
    simp [scan, hc, ih h.tail]

/-- Characters that a match covers are left out of the pieces. -/
theorem scan_covered (before : Option Char) (x rest : List Char) :
    F.scan before x.length (x ++ rest) = F.scan (charBefore before x) 0 rest := by
  induction x generalizing before with
  | nil => rfl
  | cons c x ih => simpa [scan] using ih (some c)

/-- The scan takes the match at its place and goes on behind it. -/
theorem scan_of_find? {before : Option Char} {m : α} {rest : List Char}
    (hne : F.span m ≠ []) (h : F.find? before (F.span m ++ rest) = some m) :
    F.scan before 0 (F.span m ++ rest) =
      .found m :: F.scan (charBefore before (F.span m)) 0 rest := by
  obtain ⟨c, x, hspan⟩ := List.exists_cons_of_ne_nil hne
  rw [hspan] at h ⊢
  have hcovered := scan_covered (F := F) (some c) x rest
  simp only [List.cons_append] at h ⊢
  simp [scan, h, hspan, hcovered]

/-- Either no match begins in a text, or there is a first one. -/
theorem exists_first (F : Finder α) (before : Option Char) (text : List Char) :
    F.NoneWithin before text [] ∨
      ∃ x c z m, text = x ++ c :: z ∧ F.find? (charBefore before x) (c :: z) = some m ∧
        F.NoneWithin before x (c :: z) := by
  induction text generalizing before with
  | nil =>
    refine .inl fun y c z h => ?_
    simp at h
  | cons c rest ih =>
    rcases hm : F.find? before (c :: rest) with - | m
    · rcases ih (some c) with hnone | ⟨x, d, z, m, rfl, hfind, hnone⟩
      · refine .inl fun y d z h => ?_
        rcases y with - | ⟨e, y⟩
        · obtain ⟨rfl, rfl⟩ : c = d ∧ rest = z := by simpa using h
          simpa using hm
        · obtain ⟨rfl, rfl⟩ : c = e ∧ rest = y ++ d :: z := by simpa using h
          exact hnone y d z rfl
      · refine .inr ⟨c :: x, d, z, m, rfl, hfind, fun y e w h => ?_⟩
        rcases y with - | ⟨f, y⟩
        · obtain ⟨rfl, rfl⟩ : c = e ∧ x = w := by simpa using h
          simpa using hm
        · obtain ⟨rfl, rfl⟩ : c = f ∧ x = y ++ e :: w := by simpa using h
          exact hnone y e w rfl
    · refine .inr ⟨[], c, rest, m, rfl, hm, fun y d z h => ?_⟩
      simp at h

/-- A text without matches is not changed. -/
theorem replace_of_found_nil {write : α → List Char} {text : List Char}
    (h : F.found text = []) : F.replace write text = text := by
  rw [found, pieces_eq_scan] at h
  rw [replace, pieces_eq_scan]
  generalize (none : Option Char) = before at h ⊢
  induction text generalizing before with
  | nil => rfl
  | cons c text ih =>
    rw [scan] at h ⊢
    cases hfind : F.find? before (c :: text) with
    | some m => simp [hfind, Piece.match?] at h
    | none =>
      rw [hfind] at h
      have hrest := ih (some c) (by simpa [Piece.match?] using h)
      simp [Piece.render, hrest]

end Finder

end Text

end DualPackage
