import Mathlib.Data.List.Basic
import Mathlib.Tactic.Tauto
/-!
# Lists with marks

A scan decides once for each part of a text whether to take it, and so a
pass is a list of marks beside the list of parts: the parts that are
marked are replaced, all others stay. `selected` lists the marked parts and
`replaced` is the list after the pass. The lemmas tell what a second pass
with the same marks, with others, or with another function makes of it.
-/

namespace DualPackage

namespace Text

variable {α : Type}

/-- The elements that are marked. -/
def selected : List Bool → List α → List α
  | mark :: marks, a :: as => if mark then a :: selected marks as else selected marks as
  | _, _ => []

/-- The list with the elements that are marked replaced. -/
def replaced (f : α → α) : List Bool → List α → List α :=
  List.zipWith fun mark a => if mark then f a else a

variable {f g : α → α} {marks marks' : List Bool} {as : List α} {a : α}

@[simp] theorem replaced_nil (f : α → α) (marks : List Bool) : replaced f marks [] = [] := by
  simp [replaced]

@[simp] theorem replaced_nil_left (f : α → α) (as : List α) : replaced f [] as = [] := by
  simp [replaced]

@[simp] theorem replaced_cons (f : α → α) (mark : Bool) (marks : List Bool) (a : α) (as : List α) :
    replaced f (mark :: marks) (a :: as) = (if mark then f a else a) :: replaced f marks as := rfl

theorem mem_of_mem_selected (h : a ∈ selected marks as) : a ∈ as := by
  induction as generalizing marks with
  | nil => cases marks <;> simp [selected] at h
  | cons b as ih =>
    cases marks with
    | nil => simp [selected] at h
    | cons mark marks =>
      cases mark with
      | false => exact List.mem_cons_of_mem b (ih (by simpa [selected] using h))
      | true =>
        rcases List.mem_cons.1 (show a ∈ b :: selected marks as by simpa [selected] using h)
          with rfl | h
        · exact List.mem_cons_self
        · exact List.mem_cons_of_mem b (ih h)

theorem selected_sublist (marks : List Bool) (as : List α) : (selected marks as).Sublist as := by
  induction as generalizing marks with
  | nil => cases marks <;> simp [selected]
  | cons a as ih =>
    cases marks with
    | nil => simp [selected]
    | cons mark marks =>
      cases mark with
      | false => simpa [selected] using (ih marks).cons a
      | true => simpa [selected] using ih marks

/-- What is selected stands beside a mark. -/
theorem exists_of_mem_selected (h : a ∈ selected marks as) :
    ∃ n : ℕ, marks[n]? = some true ∧ as[n]? = some a := by
  induction as generalizing marks with
  | nil => cases marks <;> simp [selected] at h
  | cons b as ih =>
    cases marks with
    | nil => simp [selected] at h
    | cons mark marks =>
      have hrest : a ∈ selected marks as →
          ∃ n : ℕ, (mark :: marks)[n]? = some true ∧ (b :: as)[n]? = some a := fun h => by
        obtain ⟨n, hmark, ha⟩ := ih h
        exact ⟨n + 1, hmark, ha⟩
      cases mark with
      | false => exact hrest (by simpa [selected] using h)
      | true =>
        rcases List.mem_cons.1 (show a ∈ b :: selected marks as by simpa [selected] using h)
          with rfl | h
        · exact ⟨0, rfl, rfl⟩
        · exact hrest h

/-- What the union of two choices marks, one of them marks. -/
theorem getElem?_zipWith_or {n : ℕ} (h : (List.zipWith (· || ·) marks marks')[n]? = some true) :
    marks[n]? = some true ∨ marks'[n]? = some true := by
  rw [List.getElem?_zipWith] at h
  cases hmark : marks[n]? with
  | none =>
    rw [hmark] at h
    cases h
  | some mark =>
    cases hmark' : marks'[n]? with
    | none =>
      rw [hmark, hmark'] at h
      cases h
    | some mark' => simpa [hmark, hmark'] using h

/-- How many are selected depends on the marks alone. -/
theorem length_selected_congr {β : Type} {as : List α} {bs : List β} (hlen : as.length = bs.length)
    (marks : List Bool) : (selected marks as).length = (selected marks bs).length := by
  induction as generalizing bs marks with
  | nil =>
    obtain rfl : bs = [] := List.eq_nil_of_length_eq_zero hlen.symm
    cases marks <;> rfl
  | cons a as ih =>
    obtain ⟨b, bs, rfl⟩ := List.exists_cons_of_length_eq_add_one hlen.symm
    cases marks with
    | nil => rfl
    | cons mark marks =>
      have hrest := ih (by simpa using hlen) marks
      cases mark <;> simp [selected, hrest]

/-- What one of two choices marks, their union marks. -/
theorem mem_selected_or (hlen : marks.length = as.length) (hlen' : marks'.length = as.length)
    (h : a ∈ selected marks as ∨ a ∈ selected marks' as) :
    a ∈ selected (List.zipWith (· || ·) marks marks') as := by
  induction as generalizing marks marks' with
  | nil => cases marks <;> cases marks' <;> simp [selected] at h
  | cons b as ih =>
    obtain ⟨mark, marks, rfl⟩ := List.exists_cons_of_length_eq_add_one hlen
    obtain ⟨mark', marks', rfl⟩ := List.exists_cons_of_length_eq_add_one hlen'
    have hrest : a ∈ selected marks as ∨ a ∈ selected marks' as →
        a ∈ selected (List.zipWith (· || ·) marks marks') as :=
      ih (by simpa using hlen) (by simpa using hlen')
    cases mark <;> cases mark' <;> simp only [selected, List.zipWith_cons_cons, Bool.or_false,
      Bool.or_true, Bool.or_self, Bool.false_eq_true, if_false, if_true, List.mem_cons] at h ⊢ <;>
      tauto

/-- What was marked is found replaced. -/
theorem selected_replaced (f : α → α) (marks : List Bool) (as : List α) :
    selected marks (replaced f marks as) = (selected marks as).map f := by
  induction as generalizing marks with
  | nil => cases marks <;> simp [selected]
  | cons a as ih =>
    cases marks with
    | nil => simp [selected]
    | cons mark marks => cases mark <;> simp [selected, ih]

/-- Nothing changes if what is marked is answered by itself. -/
theorem replaced_eq_self (hlen : marks.length = as.length) (hf : ∀ a ∈ selected marks as, f a = a) :
    replaced f marks as = as := by
  induction as generalizing marks with
  | nil => simp
  | cons a as ih =>
    obtain ⟨mark, marks, rfl⟩ := List.exists_cons_of_length_eq_add_one hlen
    cases mark with
    | false => simpa using ih (by simpa using hlen) (by simpa [selected] using hf)
    | true =>
      simp only [selected, if_true, List.forall_mem_cons] at hf
      have hrest := ih (by simpa using hlen) hf.2
      simp [hrest, hf.1]

/-- Replacing twice is replacing once what either marks, if an answer is
answered by itself. -/
theorem replaced_replaced (hf : ∀ a, f (f a) = f a) (hlen : marks.length = as.length)
    (hlen' : marks'.length = as.length) :
    replaced f marks' (replaced f marks as) = replaced f (List.zipWith (· || ·) marks marks') as := by
  induction as generalizing marks marks' with
  | nil => simp
  | cons a as ih =>
    obtain ⟨mark, marks, rfl⟩ := List.exists_cons_of_length_eq_add_one hlen
    obtain ⟨mark', marks', rfl⟩ := List.exists_cons_of_length_eq_add_one hlen'
    have hrest := ih (by simpa using hlen) (by simpa using hlen')
    cases mark <;> cases mark' <;> simp [hrest, hf]

/-- Functions that commute may replace in either order. -/
theorem replaced_comm (hfg : ∀ a, g (f a) = f (g a)) (marks marks' : List Bool) (as : List α) :
    replaced g marks' (replaced f marks as) = replaced f marks (replaced g marks' as) := by
  induction as generalizing marks marks' with
  | nil => simp
  | cons a as ih =>
    rcases marks with - | ⟨mark, marks⟩
    · simp
    · rcases marks' with - | ⟨mark', marks'⟩
      · simp
      · have hrest := ih marks marks'
        cases mark <;> cases mark' <;> simp [hrest, hfg]

end Text

end DualPackage
