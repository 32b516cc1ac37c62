import Mathlib.Data.List.Lex
import Mathlib.Data.String.Basic
/-!
# The order of names

Names are compared character by character here, and byte by byte where a
directory is read. It is the same order (`bytes_lt_bytes`): of two
characters the lesser one has the lesser bytes, and neither encoding goes
on where the other ends.
-/

namespace DualPackage

namespace Text

/-- The bytes of a text. -/
def bytes (s : String) : List UInt8 :=
  s.toUTF8.data.toList

theorem bytes_eq_flatMap (s : String) : bytes s = s.toList.flatMap String.utf8EncodeChar := by
  have h : s.toUTF8 = s.toList.utf8Encode := String.utf8Encode_toList.symm
  rw [bytes, h, List.utf8Encode, List.data_toByteArray]

/-- The lists part at some place, and the first has the lesser byte there. -/
inductive PartsBelow : List UInt8 → List UInt8 → Prop
  | here {a b : UInt8} {x y : List UInt8} : a < b → PartsBelow (a :: x) (b :: y)
  | later {a : UInt8} {x y : List UInt8} : PartsBelow x y → PartsBelow (a :: x) (a :: y)

/-- Whatever follows, the order is settled where the lists part. -/
theorem PartsBelow.append_lt {x y : List UInt8} (h : PartsBelow x y) (u v : List UInt8) :
    x ++ u < y ++ v := by
  induction h with
  | here hlt => exact List.cons_lt_cons_iff.2 (.inl hlt)
  | later _ ih => exact List.cons_lt_cons_iff.2 (.inr ⟨rfl, ih⟩)

/-- A byte that is not greater, and where it is the same, what follows. -/
theorem PartsBelow.cons {a b : ℕ} {x y : List UInt8} (ha : a ≤ b) (hb : b < 256)
    (h : a = b → PartsBelow x y) : PartsBelow (UInt8.ofNat a :: x) (UInt8.ofNat b :: y) := by
  rcases Nat.eq_or_lt_of_le ha with heq | hlt
  · exact heq ▸ .later (h heq)
  · refine .here (UInt8.lt_iff_toNat_lt.2 ?_)
    rwa [UInt8.toNat_ofNat_of_lt' (hlt.trans hb), UInt8.toNat_ofNat_of_lt' hb]

/-- **The encoding keeps the order of characters.** The leading byte tells the
length, so a shorter encoding has the lesser one; of equally long
encodings the bytes are the digits of the code point. -/
theorem partsBelow_of_lt {c d : Char} (h : c < d) :
    PartsBelow (String.utf8EncodeChar c) (String.utf8EncodeChar d) := by
  have hlt : c.val.toNat < d.val.toNat := h
  have hmax : d.val.toNat < 0x110000 := by
    rcases d.valid with hlow | hhigh
    · exact lt_trans hlow (by decide)
    · exact hhigh.2
  unfold String.utf8EncodeChar
  dsimp only
  split
  case isTrue hone =>
    split
    · exact .cons hlt.le (by omega) fun heq => absurd heq hlt.ne
    · split
      · exact .cons (by omega) (by omega) fun heq => by omega
      · split <;> exact .cons (by omega) (by omega) fun heq => by omega
  case isFalse hone =>
    rw [if_neg (show ¬ d.val.toNat ≤ 127 by omega)]
    split
    case isTrue htwo =>
      split
      · refine .cons (by omega) (by omega) fun hfirst => ?_
        exact .cons (by omega) (by omega) fun hsecond => by omega
      · split <;> exact .cons (by omega) (by omega) fun heq => by omega
    case isFalse htwo =>
      rw [if_neg (show ¬ d.val.toNat ≤ 2047 by omega)]
      split
      case isTrue hthree =>
        split
        · refine .cons (by omega) (by omega) fun hfirst => ?_
          refine .cons (by omega) (by omega) fun hsecond => ?_
          exact .cons (by omega) (by omega) fun hthird => by omega
        · exact .cons (by omega) (by omega) fun heq => by omega
      case isFalse hthree =>
        rw [if_neg (show ¬ d.val.toNat ≤ 65535 by omega)]
        refine .cons (by omega) (by omega) fun hfirst => ?_
        refine .cons (by omega) (by omega) fun hsecond => ?_
        refine .cons (by omega) (by omega) fun hthird => ?_
        exact .cons (by omega) (by omega) fun hfourth => by omega

/-- **Ascending by characters is ascending by bytes.** -/
theorem bytes_lt_bytes {s t : String} (h : s < t) : bytes s < bytes t := by
  rw [String.lt_iff] at h
  rw [bytes_eq_flatMap, bytes_eq_flatMap]
  generalize s.toList = x at h
  generalize t.toList = y at h
  induction x generalizing y with
  | nil =>
    cases y with
    | nil => exact absurd h (List.not_lt_nil [])
    | cons d y =>
      obtain ⟨b, more, hbytes⟩ := List.exists_cons_of_ne_nil (String.utf8EncodeChar_ne_nil (c := d))
      rw [List.flatMap_nil, List.flatMap_cons, hbytes]
      exact List.nil_lt_cons _ _
  | cons c x ih =>
    cases y with
    | nil => exact absurd h (List.not_lt_nil _)
    | cons d y =>
      rw [List.flatMap_cons, List.flatMap_cons]
      rcases List.cons_lt_cons_iff.1 h with hhead | ⟨rfl, hrest⟩
      · exact (partsBelow_of_lt hhead).append_lt _ _
      · exact List.append_left_lt (ih y hrest)

end Text

end DualPackage
