import Mathlib.Data.List.Basic
/-!
# Edits of a text

An edit removes some characters at a place of a text and writes others in
their stead. `edited` carries out a list of edits, whose places are those
of the text before any of them. An edit that removes nothing is an
insertion, and taking the inserted characters out again gives the text
(`edited_deletions_insertions`).
-/

namespace DualPackage

namespace Text

/-- A change at one place of a text. -/
structure Edit where
  /-- How many characters stand in front of it. -/
  place : ℕ
  /-- How many characters it removes. -/
  removed : ℕ
  /-- What it writes. -/
  written : List Char
  deriving DecidableEq, Repr

/-- A text after some edits, given from the place `k` on. The places of the
edits ascend. -/
def edited : ℕ → List Edit → List Char → List Char
  | _, [], text => text
  | k, e :: es, text =>
    text.take (e.place - k) ++ e.written ++
      edited (e.place + e.removed) es (text.drop (e.place - k + e.removed))

variable {k n : ℕ} {e : Edit} {es : List Edit} {ending : List Char} {places : List ℕ}

@[simp] theorem edited_nil (k : ℕ) (text : List Char) : edited k [] text = text := rfl

/-- What stands in front of all edits is kept. -/
theorem edited_append (x y : List Char) (h : ∀ e ∈ es.head?, k + x.length ≤ e.place) :
    edited k es (x ++ y) = x ++ edited (k + x.length) es y := by
  cases es with
  | nil => rfl
  | cons e es =>
    have he : k + x.length ≤ e.place := h e rfl
    have hsplit : e.place - k = x.length + (e.place - (k + x.length)) := by omega
    rw [edited, edited, hsplit, List.take_length_add_append, Nat.add_assoc,
      List.drop_length_add_append]
    simp

/-- The first edit, taken apart from the others. -/
theorem edited_cons (e : Edit) (es : List Edit) (x r y : List Char) (hplace : e.place = k + x.length)
    (hremoved : e.removed = r.length) :
    edited k (e :: es) (x ++ (r ++ y)) =
      x ++ (e.written ++ edited (e.place + e.removed) es y) := by
  have hx : e.place - k = x.length := by omega
  rw [edited, hx, hremoved, List.take_left, ← List.append_assoc x r y, ← List.length_append,
    List.drop_left, List.append_assoc]

/-- The edits that insert `ending` at each of the given places. -/
def insertions (ending : List Char) (places : List ℕ) : List Edit :=
  places.map fun p => ⟨p, 0, ending⟩

/-- The edits that take `n` characters out behind each of the given places,
where as many have been inserted. The places have shifted by what was
inserted before them. -/
def deletions (n : ℕ) : ℕ → List ℕ → List Edit
  | _, [] => []
  | shift, p :: places => ⟨p + shift, n, []⟩ :: deletions n (shift + n) places

theorem le_place_of_mem_head?_insertions (h : ∀ p ∈ places, k ≤ p) :
    ∀ e ∈ (insertions ending places).head?, k ≤ e.place := by
  cases places with
  | nil => simp [insertions]
  | cons p places => simpa [insertions] using h p (by simp)

/-- Deleting what was inserted, from the place `k` on. -/
theorem edited_deletions_insertions_from (ending : List Char) (shift : ℕ) {text : List Char}
    (hsorted : places.Pairwise (· ≤ ·)) (hplaces : ∀ p ∈ places, k ≤ p ∧ p ≤ k + text.length) :
    edited (k + shift) (deletions ending.length shift places)
      (edited k (insertions ending places) text) = text := by
  induction places generalizing k shift text with
  | nil => rfl
  | cons p places ih =>
    obtain ⟨hk, hp⟩ := hplaces p (by simp)
    obtain ⟨hle, hsorted⟩ := List.pairwise_cons.1 hsorted
    obtain ⟨x, y, rfl, hx⟩ : ∃ x y, text = x ++ y ∧ x.length = p - k :=
      ⟨text.take (p - k), text.drop (p - k), (List.take_append_drop _ _).symm,
        List.length_take_of_le (by omega)⟩
    have hrest : ∀ q ∈ places, p ≤ q ∧ q ≤ p + y.length := by
      intro q hq
      have := (hplaces q (by simp [hq])).2
      rw [List.length_append] at this
      exact ⟨hle q hq, by omega⟩
    have hinserted : edited k (insertions ending (p :: places)) (x ++ y) =
        x ++ (ending ++ edited p (insertions ending places) y) :=
      edited_cons ⟨p, 0, ending⟩ _ x [] y (by simp only; omega) rfl
    rw [hinserted, deletions, edited_cons ⟨p + shift, ending.length, []⟩ _ x ending _
      (by simp only; omega) rfl, List.nil_append, Nat.add_assoc, ih _ hsorted hrest]

/-- **What was inserted can be deleted again.** -/
theorem edited_deletions_insertions (ending : List Char) {text : List Char}
    (hsorted : places.Pairwise (· ≤ ·)) (hplaces : ∀ p ∈ places, p ≤ text.length) :
    edited 0 (deletions ending.length 0 places) (edited 0 (insertions ending places) text) =
      text := by
  have hbounds : ∀ p ∈ places, 0 ≤ p ∧ p ≤ 0 + text.length := by simpa using hplaces
  simpa using edited_deletions_insertions_from ending 0 hsorted hbounds

/-- Both insertions are undone, though the second has been shifted by the
first. -/
example :
    edited 0 (insertions ['.', 'j', 's'] [1, 3]) ['a', ';', 'b', ';'] =
        ['a', '.', 'j', 's', ';', 'b', '.', 'j', 's', ';'] ∧
      edited 0 (deletions 3 0 [1, 3]) ['a', '.', 'j', 's', ';', 'b', '.', 'j', 's', ';'] =
        ['a', ';', 'b', ';'] := by
  decide

end Text

end DualPackage
