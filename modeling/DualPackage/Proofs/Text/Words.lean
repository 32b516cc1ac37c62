import DualPackage.Text.Word
import DualPackage.Proofs.Text.FirstMatch
/-!
# The words of a text

A run of word characters is a word where no other word character adjoins
it. The characters that belong to no word separate the words from one
another, and a text is gone through word by word (`words_induction`). It
ends in one word, possibly an empty one (`exists_last_word`), and in no
other (`append_word_inj`).
-/

namespace DualPackage

namespace Text

variable {c : Char} {x x' y w w' : List Char}

/-- A word may begin at the start of a text and behind a separator. -/
theorem opensWord_charBefore_iff :
    opensWord (charBefore none x) ↔ x = [] ∨ ∃ y c, x = y ++ [c] ∧ isWord c = false := by
  rcases List.eq_nil_or_concat x with rfl | ⟨y, c, rfl⟩
  · simp
  · simp [List.concat_eq_append]

/-- **Induction on the words of a text**, each with the separator behind it. -/
theorem words_induction {P : List Char → Prop} (word : ∀ w, (∀ c ∈ w, isWord c) → P w)
    (separated : ∀ w c y, (∀ d ∈ w, isWord d) → isWord c = false → P y → P (w ++ c :: y))
    (text : List Char) : P text := by
  -- the word characters read so far stand in front of the rest
  suffices h : ∀ w, (∀ c ∈ w, isWord c) → P (w ++ text) from h [] (by simp)
  induction text with
  | nil =>
    intro w hw
    simpa using word w hw
  | cons c text ih =>
    intro w hw
    by_cases hc : isWord c
    · rw [← List.singleton_append, ← List.append_assoc]
      refine ih _ fun d hd => ?_
      rcases List.mem_append.1 hd with hd | hd
      · exact hw d hd
      · rwa [List.mem_singleton.1 hd]
    · exact separated w c text hw (by simpa using hc) (ih [] (by simp))

/-- A text ends in a word. -/
theorem exists_last_word (text : List Char) :
    ∃ x w, text = x ++ w ∧ (∀ c ∈ w, isWord c) ∧ opensWord (charBefore none x) := by
  induction text using words_induction with
  | word w hw => exact ⟨[], w, rfl, hw, rfl⟩
  | separated w c y _ hc ih =>
    obtain ⟨x, w', rfl, hw', hx⟩ := ih
    refine ⟨w ++ c :: x, w', by simp, hw', ?_⟩
    rcases opensWord_charBefore_iff.1 hx with rfl | ⟨z, d, rfl, hd⟩
    · rw [charBefore_concat]
      simpa using hc
    · rw [← List.cons_append, ← List.append_assoc, charBefore_concat]
      simpa using hd

/-- A word in front of which none may begin adds nothing to the text. -/
theorem eq_nil_of_append_word (hw : ∀ c ∈ w, isWord c) (h : opensWord (charBefore none (x ++ w))) :
    w = [] := by
  rcases List.eq_nil_or_concat w with rfl | ⟨v, c, rfl⟩
  · rfl
  · rw [List.concat_eq_append, ← List.append_assoc, charBefore_concat] at h
    have hc := hw c (by simp)
    simp [hc] at h

/-- **The last word of a text is determined.** -/
theorem append_word_inj (hw : ∀ c ∈ w, isWord c) (hw' : ∀ c ∈ w', isWord c)
    (hx : opensWord (charBefore none x)) (hx' : opensWord (charBefore none x'))
    (h : x ++ w = x' ++ w') : x = x' ∧ w = w' := by
  rcases List.append_eq_append_iff.1 h with ⟨v, rfl, rfl⟩ | ⟨v, rfl, rfl⟩
  · obtain rfl := eq_nil_of_append_word (fun c hc => hw c (by simp [hc])) hx'
    simp
  · obtain rfl := eq_nil_of_append_word (fun c hc => hw' c (by simp [hc])) hx
    simp

/-- And so is its first. -/
theorem word_append_inj (hw : ∀ c ∈ w, isWord c) (hw' : ∀ c ∈ w', isWord c) (hx : closesWord x)
    (hx' : closesWord x') (h : w ++ x = w' ++ x') : w = w' ∧ x = x' := by
  have hnil : ∀ {v y : List Char}, (∀ c ∈ v, isWord c) → closesWord (v ++ y) → v = [] := by
    intro v y hv hy
    cases v with
    | nil => rfl
    | cons c v => simp [hv c (by simp)] at hy
  rcases List.append_eq_append_iff.1 h with ⟨v, rfl, rfl⟩ | ⟨v, rfl, rfl⟩
  · obtain rfl := hnil (fun c hc => hw' c (by simp [hc])) hx
    simp
  · obtain rfl := hnil (fun c hc => hw c (by simp [hc])) hx'
    simp

end Text

end DualPackage
