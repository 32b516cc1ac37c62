import DualPackage.Proofs.Text.Edits
import DualPackage.Proofs.Text.FirstMatch
/-!
# The leftmost choice of occurrences

Where occurrences of something may overlap, a pass chooses among them from
left to right: the first one, then the first that begins behind it, and
so on. `Leftmost` says this of any notion of occurrence, with no scan in
sight. There is one such choice (`Leftmost.unique`), and an occurrence left
out overlaps a chosen one that begins before it (`Leftmost.mem_or_overlaps`).
`Finder.exists_leftmost` is the agreement: the matches that a scan finds
are the leftmost choice, and replacing them edits the text at their places.
-/

namespace DualPackage

namespace Text

variable {α : Type}

/-- The occurrences chosen from the place `k` on, each with the place where
it begins. -/
inductive Leftmost (occurs : ℕ → α → Prop) (size : α → ℕ) : ℕ → List (ℕ × α) → Prop
  /-- Nothing occurs any more. -/
  | done {k : ℕ} (none : ∀ i a, k ≤ i → ¬ occurs i a) : Leftmost occurs size k []
  /-- The first occurrence, and the choice behind it. -/
  | next {k i : ℕ} {a : α} {rest : List (ℕ × α)} (ahead : k ≤ i) (here : occurs i a)
      (first : ∀ j b, k ≤ j → j < i → ¬ occurs j b)
      (behind : Leftmost occurs size (i + size a) rest) :
      Leftmost occurs size k ((i, a) :: rest)

namespace Leftmost

variable {occurs : ℕ → α → Prop} {size : α → ℕ} {k : ℕ} {as bs : List (ℕ × α)}

section Determined

variable (hdet : ∀ i a b, occurs i a → occurs i b → a = b)

include hdet

/-- **There is one leftmost choice.** -/
theorem unique (h : Leftmost occurs size k as) (h' : Leftmost occurs size k bs) : as = bs := by
  induction h generalizing bs with
  | done none =>
    cases h' with
    | done => rfl
    | next ahead here => exact absurd here (none _ _ ahead)
  | @next k i a rest ahead here first behind ih =>
    cases h' with
    | done none => exact absurd here (none _ _ ahead)
    | @next _ j b rest' ahead' here' first' behind' =>
      -- neither begins before the other
      have hij : i = j := by
        by_contra hne
        rcases Nat.lt_or_gt_of_ne hne with hlt | hlt
        · exact first' _ _ ahead hlt here
        · exact first _ _ ahead' hlt here'
      subst hij
      obtain rfl := hdet _ _ _ here here'
      rw [ih behind']

/-- **What is left out overlaps an earlier choice.** -/
theorem mem_or_overlaps (h : Leftmost occurs size k as) {j : ℕ} {b : α} (hk : k ≤ j)
    (hb : occurs j b) : (j, b) ∈ as ∨ ∃ i a, (i, a) ∈ as ∧ i < j ∧ j < i + size a := by
  induction h with
  | done none => exact absurd hb (none _ _ hk)
  | @next k i a rest ahead here first behind ih =>
    rcases Nat.lt_trichotomy j i with hlt | rfl | hlt
    · exact absurd hb (first _ _ hk hlt)
    · obtain rfl := hdet _ _ _ hb here
      exact .inl (by simp)
    · rcases Nat.lt_or_ge j (i + size a) with hover | hbehind
      · exact .inr ⟨i, a, by simp, hlt, hover⟩
      · rcases ih hbehind with hmem | ⟨i', a', hmem, hlt', hover⟩
        · exact .inl (by simp [hmem])
        · exact .inr ⟨i', a', by simp [hmem], hlt', hover⟩

end Determined

end Leftmost

namespace Finder

variable {F : Finder α}

/-- A match of the finder begins at the place `i` of a text. -/
def OccursAt (F : Finder α) (text : List Char) (i : ℕ) (m : α) : Prop :=
  ∃ x rest, text = x ++ rest ∧ x.length = i ∧ F.find? (charBefore none x) rest = some m

theorem occursAt_unique {text : List Char} {i : ℕ} {m m' : α} (h : F.OccursAt text i m)
    (h' : F.OccursAt text i m') : m = m' := by
  obtain ⟨x, rest, rfl, rfl, hm⟩ := h
  obtain ⟨x', rest', htext, hlen, hm'⟩ := h'
  obtain ⟨rfl, rfl⟩ := List.append_inj htext hlen.symm
  exact Option.some.inj (hm.symm.trans hm')

/-- No match begins in what is left if none does within it. -/
theorem not_occursAt_of_noneWithin (hF : F.Faithful) {x y rest : List Char}
    (h : F.NoneWithin (charBefore none x) y rest) {j : ℕ} {m : α} (hle : x.length ≤ j)
    (hlt : j < x.length + y.length ∨ rest = []) : ¬ F.OccursAt (x ++ (y ++ rest)) j m := by
  rintro ⟨x', rest', htext, rfl, hm⟩
  obtain ⟨w, rfl, hw⟩ : ∃ w, x' = x ++ w ∧ y ++ rest = w ++ rest' := by
    rcases List.append_eq_append_iff.1 htext with ⟨w, hx, hrest⟩ | ⟨w, hx, hrest⟩
    · exact ⟨w, hx, hrest⟩
    · have hlen := congrArg List.length hx
      rw [List.length_append] at hlen
      obtain rfl : w = [] := List.eq_nil_of_length_eq_zero (by omega)
      exact ⟨[], by simpa using hx.symm, by simpa using hrest.symm⟩
  -- the match covers a character, and that one stands in `y`
  obtain ⟨hne, hspan⟩ := hF _ _ _ hm
  obtain ⟨c, z, rfl⟩ : ∃ c z, rest' = c :: z := by
    cases rest' with
    | nil => exact absurd (List.prefix_nil.1 hspan) hne
    | cons c z => exact ⟨c, z, rfl⟩
  have hinside : w.length < y.length := by
    rcases hlt with hlt | rfl
    · rw [List.length_append] at hlt
      omega
    · have hlen := congrArg List.length hw
      simp only [List.append_nil, List.length_append, List.length_cons] at hlen
      omega
  obtain ⟨z', rfl, rfl⟩ : ∃ z', y = w ++ c :: z' ∧ z = z' ++ rest := by
    rcases List.append_eq_append_iff.1 hw with ⟨v, hv, -⟩ | ⟨v, hv, hrest⟩
    · rw [hv, List.length_append] at hinside
      omega
    · cases v with
      | nil => simp [hv] at hinside
      | cons d v =>
        obtain ⟨rfl, hz⟩ : c = d ∧ z = v ++ rest := by simpa using hrest
        exact ⟨v, hv, hz⟩
  have hnone := h w c z' rfl
  rw [← charBefore_append] at hnone
  exact absurd (hm.symm.trans hnone) (by simp)

section Replace

variable {front core back : α → List Char}

/-- The matches of a scan that starts behind `x` are the leftmost choice from
there, and what replaces the core of each is an edit of the text. -/
theorem exists_leftmost_from (hF : F.Faithful)
    (hspan : ∀ m, F.span m = front m ++ (core m ++ back m)) :
    ∀ (n : ℕ) (x text : List Char), text.length < n →
      ∃ chosen, Leftmost (F.OccursAt (x ++ text)) (fun m => (F.span m).length) x.length chosen ∧
        (F.scan (charBefore none x) 0 text).filterMap Piece.match? = chosen.map Prod.snd ∧
        ∀ write : α → List Char,
          (F.scan (charBefore none x) 0 text).flatMap
              (Piece.render fun m => front m ++ (write m ++ back m)) =
            edited x.length (chosen.map fun im =>
              ⟨im.1 + (front im.2).length, (core im.2).length, write im.2⟩) text := by
  intro n
  induction n with
  | zero => intro x text hn; omega
  | succ n ih =>
    intro x text hn
    rcases F.exists_first (charBefore none x) text with hnone | ⟨y, c, z, m, rfl, hfind, hnone⟩
    · -- no match is left, and the text is written back as it is
      have hscan := scan_append_of_none hnone
      simp only [List.append_nil] at hscan
      refine ⟨[], .done fun i m hi => ?_, ?_, fun write => ?_⟩
      · have hnot := not_occursAt_of_noneWithin hF hnone (m := m) hi (.inr rfl)
        rwa [List.append_nil] at hnot
      · simp [hscan, scan, List.filterMap_map, Piece.match?, Function.comp_def]
      · simp [hscan, scan, List.flatMap_map, Piece.render]
    · -- the first match, and the scan behind it
      obtain ⟨hne, after, hafter⟩ := hF _ _ _ hfind
      rw [← hafter] at hfind hnone hn ⊢
      have hlast : charBefore (charBefore (charBefore none x) y) (F.span m) =
          charBefore none (x ++ (y ++ F.span m)) := by
        simp only [charBefore_append]
      have hscan : F.scan (charBefore none x) 0 (y ++ (F.span m ++ after)) =
          y.map .plain ++ .found m ::
            F.scan (charBefore none (x ++ (y ++ F.span m))) 0 after := by
        rw [scan_append_of_none hnone, scan_of_find? hne hfind, hlast]
      have hpos : 0 < (F.span m).length := List.length_pos_iff.2 hne
      obtain ⟨chosen, hleft, hfound, hwritten⟩ := ih (x ++ (y ++ F.span m)) after (by
        simp only [List.length_append] at hn
        omega)
      have hplace : (x ++ (y ++ F.span m)).length = x.length + y.length + (F.span m).length := by
        simp only [List.length_append]
        omega
      have hwhole : x ++ (y ++ F.span m) ++ after = x ++ (y ++ (F.span m ++ after)) := by
        simp only [List.append_assoc]
      rw [hwhole, hplace] at hleft
      refine ⟨(x.length + y.length, m) :: chosen, .next (Nat.le_add_right _ _) ?_ ?_ hleft, ?_,
        fun write => ?_⟩
      · exact ⟨x ++ y, F.span m ++ after, by simp, by simp, by rwa [charBefore_append]⟩
      · exact fun j b hj hlt => not_occursAt_of_noneWithin hF hnone hj (.inl hlt)
      · rw [hscan, List.filterMap_append, List.filterMap_map]
        simp [Piece.match?, Function.comp_def, hfound]
      · -- the edits behind begin no earlier than the back of the match
        have hback : ∀ e ∈ (chosen.map fun im : ℕ × α => (⟨im.1 + (front im.2).length,
            (core im.2).length, write im.2⟩ : Edit)).head?,
            x.length + y.length + (front m).length + (core m).length + (back m).length ≤
              e.place := by
          cases hleft with
          | done => simp
          | next ahead =>
            rw [hspan, List.length_append, List.length_append] at ahead
            simp only [List.map_cons, List.head?_cons, Option.mem_def, Option.some.injEq,
              forall_eq']
            omega
        have hedit := edited_cons (k := x.length)
          ⟨x.length + y.length + (front m).length, (core m).length, write m⟩
          (chosen.map fun im => ⟨im.1 + (front im.2).length, (core im.2).length, write im.2⟩)
          (y ++ front m) (core m) (back m ++ after) (by simp only [List.length_append]; omega) rfl
        have hlen : (F.span m).length = (front m).length + (core m).length + (back m).length := by
          rw [hspan, List.length_append, List.length_append, Nat.add_assoc]
        rw [hscan, List.flatMap_append, List.flatMap_cons, hwritten write, hplace, List.map_cons,
          hlen]
        rw [edited_append _ _ hback] at hedit
        simp only [List.flatMap_map, Piece.render, List.flatMap_singleton', hspan,
          List.append_assoc, Nat.add_assoc] at hedit ⊢
        rw [hedit]

/-- **A scan makes the leftmost choice.** It finds the matches of that choice
and no others, and a replacement that keeps the front and the back of each
match edits the text at the places of their cores. -/
theorem exists_leftmost (hF : F.Faithful)
    (hspan : ∀ m, F.span m = front m ++ (core m ++ back m)) (text : List Char) :
    ∃ chosen, Leftmost (F.OccursAt text) (fun m => (F.span m).length) 0 chosen ∧
      F.found text = chosen.map Prod.snd ∧
      ∀ write : α → List Char,
        F.replace (fun m => front m ++ (write m ++ back m)) text =
          edited 0 (chosen.map fun im =>
            ⟨im.1 + (front im.2).length, (core im.2).length, write im.2⟩) text := by
  obtain ⟨chosen, hleft, hfound, hwritten⟩ :=
    exists_leftmost_from hF hspan (text.length + 1) [] text (by omega)
  refine ⟨chosen, hleft, ?_, fun write => ?_⟩
  · rw [found, pieces_eq_scan]
    exact hfound
  · rw [replace, pieces_eq_scan]
    exact hwritten write

end Replace

/-- A scan that finds nothing has nothing to find. -/
theorem found_eq_nil_iff (hF : F.Faithful) {text : List Char} :
    F.found text = [] ↔ ∀ i m, ¬ F.OccursAt text i m := by
  have hspan : ∀ m, F.span m = F.span m ++ ([] ++ []) := fun m => by simp
  obtain ⟨chosen, hleft, hfound, -⟩ := exists_leftmost hF hspan text
  rw [hfound, List.map_eq_nil_iff]
  constructor
  · rintro rfl
    cases hleft with
    | done none => exact fun i m => none i m (Nat.zero_le i)
  · intro hnone
    cases hleft with
    | done => rfl
    | next _ here => exact absurd here (hnone _ _)

end Finder

end Text

end DualPackage
