import DualPackage.Json.Printer
import DualPackage.Json.Reader
import Mathlib.Algebra.Order.Ring.Nat
/-!
# Numbers and strings read back

What is written of an integer that 64 bits hold, and of any string, is read
back as it was, whatever text comes behind (`readNumber_integerText`,
`readString_escaped`). An integer must not be gone on with, by a digit or by
what makes a fraction of it (`Ends`); a string ends by its quote. The places
where the two sides have to meet are the digits, gathered under a limit, and
the escapes, of which there are three kinds: by a letter, by a code, and none.
-/

namespace DualPackage

namespace Json

/-- A text that does not go on with a number in front of it. -/
def Ends (rest : List Char) : Prop :=
  ∀ c ∈ rest.head?, c.isDigit = false ∧ c ≠ '.' ∧ c ≠ 'e' ∧ c ≠ 'E'

variable {rest digits : List Char} {n limit acc bound : ℕ} {c : Char}

theorem ends_cons : Ends (c :: rest) ↔ c.isDigit = false ∧ c ≠ '.' ∧ c ≠ 'e' ∧ c ≠ 'E' := by
  simp [Ends]

theorem Ends.startsWithDigit_eq (h : Ends rest) : startsWithDigit rest = false := by
  cases rest with
  | nil => rfl
  | cons c rest => exact (ends_cons.1 h).1

/-! ## Digits -/

theorem le_ofDigitChars (digits : List Char) (acc : ℕ) : acc ≤ Nat.ofDigitChars 10 digits acc := by
  rw [Nat.ofDigitChars_eq_ofDigitChars_zero]
  have hpos : 0 < 10 ^ digits.length := Nat.pow_pos (by decide)
  have hscaled : acc ≤ 10 ^ digits.length * acc := Nat.le_mul_of_pos_left acc hpos
  omega

/-- **Digits are gathered** up to the end of them, as long as their number
stays below the limit. -/
theorem gatherDigits_append (hdigits : ∀ c ∈ digits, c.isDigit)
    (hlimit : Nat.ofDigitChars 10 digits acc < limit) (hrest : startsWithDigit rest = false) :
    gatherDigits limit acc (digits ++ rest) = (Nat.ofDigitChars 10 digits acc, rest) := by
  induction digits generalizing acc with
  | nil =>
    cases rest with
    | nil => rfl
    | cons c rest =>
      have hc : c.isDigit = false := hrest
      simp [gatherDigits, hc]
  | cons c digits ih =>
    obtain ⟨hc, hdigits⟩ := List.forall_mem_cons.1 hdigits
    rw [Nat.ofDigitChars_cons] at hlimit ⊢
    -- what is gathered by then is at most what it comes to
    have hfirst : 10 * acc + digitValue c < limit := (le_ofDigitChars digits _).trans_lt hlimit
    rw [List.cons_append, gatherDigits, hc, Bool.true_and, if_pos (by simpa using hfirst)]
    exact ih hdigits hlimit

theorem isDigit_of_mem_toDigits (h : c ∈ Nat.toDigits 10 n) : c.isDigit :=
  Nat.isDigit_of_mem_toDigits (by decide) le_rfl h

/-- A number above zero is not written with a zero in front. -/
theorem head?_toDigits_ne (h : 0 < n) : (Nat.toDigits 10 n).head? ≠ some '0' := by
  induction n using Nat.strong_induction_on with
  | _ n ih =>
    by_cases hn : n < 10
    · have hdigit : ∀ m < 10, 0 < m → [m.digitChar].head? ≠ some '0' := by decide
      rw [Nat.toDigits_of_lt_base hn]
      exact hdigit n hn h
    · rw [Nat.toDigits_of_base_le (by decide) (by omega), List.head?_append]
      have hfront := ih (n / 10) (by omega) (by omega)
      cases hdigits : (Nat.toDigits 10 (n / 10)).head? with
      | none => exact absurd (List.head?_eq_none_iff.1 hdigits) Nat.toDigits_ne_nil
      | some d => simpa [hdigits] using hfront

/-! ## Integers -/

theorem readAfterDigits_of_ends {negative : Bool} (h : Ends rest) :
    readAfterDigits negative n rest = .ok (wholeNumber negative n, rest) := by
  cases rest with
  | nil => rfl
  | cons c rest =>
    obtain ⟨hdigit, hpoint, he, hE⟩ := ends_cons.1 h
    unfold readAfterDigits
    simp only [List.takeWhile_cons, hdigit, Bool.false_eq_true, if_false, List.length_nil,
      List.drop_zero]
    split
    · rename_i heq
      exact absurd (List.cons.inj heq).1 hpoint
    · simp [he, hE]

/-- **The digits of a number** are read as that number. -/
theorem readNumber_toDigits {negative : Bool} (hn : n < significandLimit) (h : Ends rest) :
    readNumber negative (Nat.toDigits 10 n ++ rest) = .ok (wholeNumber negative n, rest) := by
  rcases Nat.eq_zero_or_pos n with rfl | hpos
  · simp only [Nat.toDigits_zero, List.cons_append, List.nil_append, readNumber,
      h.startsWithDigit_eq, Bool.false_eq_true, if_false]
    exact readAfterDigits_of_ends h
  · have hdigits : ∀ c ∈ Nat.toDigits 10 n, c.isDigit := fun _ => isDigit_of_mem_toDigits
    have hvalue : Nat.ofDigitChars 10 (Nat.toDigits 10 n) 0 = n := Nat.ofDigitChars_ten_toDigits
    have hgather : gatherDigits significandLimit 0 (Nat.toDigits 10 n ++ rest) = (n, rest) := by
      rw [gatherDigits_append hdigits (by rwa [hvalue]) h.startsWithDigit_eq, hvalue]
    have hzero := head?_toDigits_ne hpos
    cases htext : Nat.toDigits 10 n with
    | nil => exact absurd htext Nat.toDigits_ne_nil
    | cons c digits =>
      rw [htext] at hdigits hgather hzero
      have hc : c ≠ '0' := by simpa using hzero
      unfold readNumber
      split
      · rename_i heq
        cases heq
      · rename_i heq
        exact absurd (List.cons.inj heq).1 hc
      · rename_i heq
        obtain ⟨rfl, -⟩ := List.cons.inj heq
        rw [if_pos (hdigits c List.mem_cons_self), hgather]
        exact readAfterDigits_of_ends h

/-- The integers that 64 bits hold, signed or not. -/
def InWord (i : ℤ) : Prop := -2 ^ 63 ≤ i ∧ i < 2 ^ 64

theorem wholeNumber_negative (hpos : 0 < n) (hn : n ≤ 2 ^ 63) :
    wholeNumber true n = .integer (-n) := by
  have hbound : ¬ Nat.pow 2 63 < n := not_lt.2 hn
  simp [wholeNumber, hpos.ne', hbound]

/-- The sign of an integer as it is written, and its digits. -/
theorem integerText_eq (i : ℤ) :
    integerText i = (if i < 0 then ['-'] else []) ++ Nat.toDigits 10 i.natAbs := by
  cases i with
  | ofNat n => simp [integerText]
  | negSucc n => simp [integerText, Int.negSucc_lt_zero]

/-! ## Strings -/

theorem hexValue?_hexDigit : ∀ n < 16, hexValue? (hexDigit n) = some n := by
  decide

/-- The code of a character below the space is read as that character. -/
theorem readUnicode_code (h : c.toNat < 0x20) :
    readUnicode ('0' :: '0' :: hexDigit (c.toNat / 16) :: hexDigit (c.toNat % 16) :: rest) =
      .ok (c, rest) := by
  have hzero : hexValue? '0' = some 0 := by decide
  have hhigh := hexValue?_hexDigit (c.toNat / 16) (by omega)
  have hlow := hexValue?_hexDigit (c.toNat % 16) (by omega)
  have hcode : c.toNat / 16 * 16 + c.toNat % 16 = c.toNat := Nat.div_add_mod' c.toNat 16
  have hfour : readHexFour ('0' :: '0' :: hexDigit (c.toNat / 16) :: hexDigit (c.toNat % 16) ::
      rest) = .ok (c.toNat, rest) := by
    simp [readHexFour, hexFour?, hzero, hhigh, hlow, hcode]
  have hnoLow : ¬ (0xDC00 ≤ c.toNat && c.toNat ≤ 0xDFFF) = true := by simp; omega
  have hnoHigh : ¬ (0xD800 ≤ c.toNat && c.toNat ≤ 0xDBFF) = true := by simp; omega
  unfold readUnicode
  rw [hfour]
  show (if _ then _ else _) = _
  rw [if_neg hnoLow, if_neg hnoHigh, Char.ofNat_toNat]

/-- **An escape is read as its character**, and a character that needs none as
itself. -/
theorem readChars_escapeChar (c : Char) (text : List Char) :
    readChars (bound + 1) (escapeChar c ++ text) =
      (readChars bound text).map fun read => (c :: read.1, read.2) := by
  have hbind : ∀ x : Except Fault (List Char × List Char),
      (x >>= fun read => .ok (c :: read.1, read.2)) = x.map fun read => (c :: read.1, read.2) := by
    intro x
    cases x <;> rfl
  rw [← hbind]
  unfold escapeChar
  split_ifs with hquote hbackslash hline hreturn htab hback hfeed hcontrol
  case pos => subst hquote; rfl
  case pos => subst hbackslash; rfl
  case pos => subst hline; rfl
  case pos => subst hreturn; rfl
  case pos => subst htab; rfl
  case pos => subst hback; rfl
  case pos => subst hfeed; rfl
  case pos =>
    have hescape : readEscape ('u' :: '0' :: '0' :: hexDigit (c.toNat / 16) ::
        hexDigit (c.toNat % 16) :: text) = .ok (c, text) := readUnicode_code hcontrol
    show (readEscape ('u' :: '0' :: '0' :: hexDigit (c.toNat / 16) :: hexDigit (c.toNat % 16) ::
      text) >>= _) = _
    rw [hescape]
    rfl
  case neg =>
    rw [List.singleton_append, readChars, if_neg hquote, if_neg hbackslash, if_neg hcontrol]

theorem readChars_escaped {chars : List Char} (h : chars.length < bound) :
    readChars bound (chars.flatMap escapeChar ++ '"' :: rest) = .ok (chars, rest) := by
  induction chars generalizing bound with
  | nil =>
    obtain ⟨bound, rfl⟩ := Nat.exists_eq_succ_of_ne_zero (by omega : bound ≠ 0)
    rfl
  | cons c chars ih =>
    obtain ⟨bound, rfl⟩ := Nat.exists_eq_succ_of_ne_zero (by omega : bound ≠ 0)
    rw [List.flatMap_cons, List.append_assoc, readChars_escapeChar,
      ih (by simpa using h)]
    rfl

theorem escapeChar_ne_nil (c : Char) : escapeChar c ≠ [] := by
  unfold escapeChar
  split_ifs <;> simp

theorem length_le_escaped (chars : List Char) :
    chars.length ≤ (chars.flatMap escapeChar).length := by
  induction chars with
  | nil => simp
  | cons c chars ih =>
    have hpos := List.length_pos_iff.2 (escapeChar_ne_nil c)
    simp only [List.flatMap_cons, List.length_append, List.length_cons]
    omega

/-- **A string is read back**, whatever characters it holds. -/
theorem readString_escaped (s : String) (rest : List Char) :
    readString (s.toList.flatMap escapeChar ++ '"' :: rest) = .ok (s, rest) := by
  have hbound : s.toList.length < (s.toList.flatMap escapeChar ++ '"' :: rest).length := by
    have := length_le_escaped s.toList
    simp only [List.length_append, List.length_cons]
    omega
  rw [readString, readChars_escaped hbound]
  show Except.ok (String.ofList s.toList, rest) = _
  rw [String.ofList_toList]

end Json

end DualPackage
