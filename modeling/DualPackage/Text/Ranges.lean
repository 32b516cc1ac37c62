/-!
# Tables of code points

A character class of the Unicode standard is given as a list of blocks of
consecutive code points in ascending order. Membership reads the list
from the left and stops at the first block that lies beyond the code
point, so a question about a low code point is answered at once. Two
tables whose blocks do not overlap have no code point in common, which
`Ranges.Apart` checks block by block.
-/

namespace DualPackage

namespace Text

/-- A set of code points, as blocks `(first, last)` in ascending order. -/
structure Ranges where
  blocks : List (Nat × Nat)

namespace Ranges

/-- Whether `n` lies in one of the blocks. -/
def holdsIn (n : Nat) : List (Nat × Nat) → Bool
  | [] => false
  | (first, last) :: rest => if n < first then false else n ≤ last || holdsIn n rest

/-- Whether the code point `n` belongs to the set. -/
def contains (r : Ranges) (n : Nat) : Bool :=
  holdsIn n r.blocks

theorem exists_block_of_holdsIn {n : Nat} {blocks : List (Nat × Nat)} (h : holdsIn n blocks) :
    ∃ b ∈ blocks, b.1 ≤ n ∧ n ≤ b.2 := by
  induction blocks with
  | nil => simp [holdsIn] at h
  | cons b rest ih =>
    obtain ⟨first, last⟩ := b
    by_cases hf : n < first
    · simp [holdsIn, hf] at h
    · by_cases hl : n ≤ last
      · exact ⟨(first, last), by simp, by omega, hl⟩
      · obtain ⟨b, hb, hn⟩ := ih (by simpa [holdsIn, hf, hl] using h)
        exact ⟨b, List.mem_cons_of_mem _ hb, hn⟩

/-- Two sets no blocks of which overlap. -/
def Apart (r s : Ranges) : Prop :=
  ∀ a ∈ r.blocks, ∀ b ∈ s.blocks, a.2 < b.1 ∨ b.2 < a.1

instance (r s : Ranges) : Decidable (Apart r s) :=
  inferInstanceAs (Decidable (∀ a ∈ r.blocks, ∀ b ∈ s.blocks, a.2 < b.1 ∨ b.2 < a.1))

/-- Sets that lie apart have no code point in common. -/
theorem Apart.not_contains {r s : Ranges} (h : Apart r s) {n : Nat} (hr : r.contains n) :
    s.contains n = false := by
  by_cases hs : s.contains n
  · obtain ⟨a, ha, ha'⟩ := exists_block_of_holdsIn hr
    obtain ⟨b, hb, hb'⟩ := exists_block_of_holdsIn hs
    have := h a ha b hb
    omega
  · simpa using hs

end Ranges

end Text

end DualPackage
