import DualPackage.Alias.Resolve
import Mathlib.Data.List.Basic
import Mathlib.Data.List.TakeWhile
/-!
# What a glob covers

The rows of the decision are kept so that each is its predecessor's tail
(`tail_row`), which gives `covers` the recursion one would write down first,
and with it the agreement with `Matches` (`covers_iff_matches`). Cut at its
wildcards, a glob covers the texts that have its pieces in order, with gaps
of one line between them (`matches_iff_exists_gaps`). Such a text begins
with the literal part of the alias (`exists_eq_literalOf_append`).
-/

namespace DualPackage

namespace Glob

variable {c x : Char} {glob text p : List Char} {ps : List (List Char)}

/-! ## The decision -/

theorem tail_row (glob : List Char) (x : Char) (text : List Char) :
    (row glob (x :: text)).tail = row glob text := by
  induction glob with
  | nil => rfl
  | cons c glob ih =>
    by_cases hc : c = wildcard
    · simp [row, hc, gapRow, ih]
    · simp [row, hc, charRow, ih]

theorem covers_char_cons (hc : c ≠ wildcard) (glob : List Char) (x : Char) (text : List Char) :
    covers (c :: glob) (x :: text) = (x == c && covers glob text) := by
  simp [covers, row, hc, charRow, tail_row]

theorem covers_char_nil (hc : c ≠ wildcard) (glob : List Char) :
    covers (c :: glob) [] = false := by
  simp [covers, row, hc, charRow]

theorem covers_gap_nil (glob : List Char) : covers (wildcard :: glob) [] = covers glob [] := by
  simp [covers, row, gapRow]

theorem covers_gap_cons (glob : List Char) (x : Char) (text : List Char) :
    covers (wildcard :: glob) (x :: text) =
      (covers glob (x :: text) || inGap x && covers (wildcard :: glob) text) := by
  simp [covers, row, gapRow, tail_row]

/-! ## The meaning -/

theorem matches_nil_iff : Matches [] text ↔ text = [] := by
  constructor
  · intro h
    cases h
    rfl
  · rintro rfl
    exact .nil

theorem matches_char_iff (hc : c ≠ wildcard) :
    Matches (c :: glob) text ↔ ∃ rest, text = c :: rest ∧ Matches glob rest := by
  constructor
  · intro h
    cases h with
    | char _ h => exact ⟨_, rfl, h⟩
    | gap => exact absurd rfl hc
  · rintro ⟨rest, rfl, h⟩
    exact .char hc h

theorem matches_gap_iff :
    Matches (wildcard :: glob) text ↔
      ∃ gap rest, text = gap ++ rest ∧ (∀ c ∈ gap, inGap c) ∧ Matches glob rest := by
  constructor
  · intro h
    cases h with
    | char hc => exact absurd rfl hc
    | gap hgap h => exact ⟨_, _, rfl, hgap, h⟩
  · rintro ⟨gap, rest, rfl, hgap, h⟩
    exact .gap hgap h

theorem matches_gap_cons_iff :
    Matches (wildcard :: glob) (x :: text) ↔
      Matches glob (x :: text) ∨ inGap x ∧ Matches (wildcard :: glob) text := by
  simp only [matches_gap_iff]
  constructor
  · rintro ⟨gap, rest, htext, hgap, h⟩
    rcases gap with - | ⟨d, gap⟩
    · exact .inl (by rwa [htext])
    · obtain ⟨rfl, rfl⟩ : x = d ∧ text = gap ++ rest := by simpa using htext
      exact .inr ⟨hgap x (by simp), gap, rest, rfl, fun c hc => hgap c (by simp [hc]), h⟩
  · rintro (h | ⟨hx, gap, rest, rfl, hgap, h⟩)
    · exact ⟨[], x :: text, rfl, by simp, h⟩
    · exact ⟨x :: gap, rest, rfl, by simpa [hx] using hgap, h⟩

/-- **The decision agrees with the meaning.** -/
theorem covers_iff_matches : covers glob text ↔ Matches glob text := by
  induction glob generalizing text with
  | nil =>
    rw [matches_nil_iff]
    cases text <;> simp [covers, row, endRow]
  | cons c glob ih =>
    by_cases hc : c = wildcard
    · subst hc
      induction text with
      | nil =>
        rw [covers_gap_nil, ih, matches_gap_iff]
        simp
      | cons x text iht =>
        rw [covers_gap_cons, matches_gap_cons_iff, ← ih, ← iht, Bool.or_eq_true, Bool.and_eq_true]
    · rw [matches_char_iff hc]
      cases text with
      | nil => simp [covers_char_nil hc]
      | cons x text =>
        rw [covers_char_cons hc, Bool.and_eq_true, beq_iff_eq, ih]
        constructor
        · rintro ⟨rfl, h⟩
          exact ⟨text, rfl, h⟩
        · rintro ⟨rest, heq, h⟩
          obtain ⟨rfl, rfl⟩ := List.cons.inj heq
          exact ⟨rfl, h⟩

/-! ## The pieces -/

theorem exists_splitOn (glob : List Char) : ∃ p ps, glob.splitOn wildcard = p :: ps :=
  List.exists_cons_of_ne_nil (List.splitOnP_ne_nil _ _)

theorem splitOn_gap_cons (glob : List Char) :
    (wildcard :: glob).splitOn wildcard = [] :: glob.splitOn wildcard := by
  simp [List.splitOn, List.splitOnP_cons_eq_if_modifyHead]

theorem splitOn_char_cons (hc : c ≠ wildcard) (h : glob.splitOn wildcard = p :: ps) :
    (c :: glob).splitOn wildcard = (c :: p) :: ps := by
  rw [List.splitOn] at h ⊢
  simp [List.splitOnP_cons_eq_if_modifyHead, hc, h]

theorem forall_inGap_iff {gap : List Char} : (∀ c ∈ gap, inGap c) ↔ '\n' ∉ gap := by
  simp only [inGap, bne_iff_ne, ne_eq]
  constructor
  · exact fun h hmem => h _ hmem rfl
  · rintro h c hc rfl
    exact h hc

/-- **A glob covers its pieces with gaps between them.** -/
theorem matches_iff_exists_gaps (h : glob.splitOn wildcard = p :: ps) :
    Matches glob text ↔ ∃ gaps : List (List Char), gaps.length = ps.length ∧
      (∀ gap ∈ gaps, '\n' ∉ gap) ∧ text = p ++ (List.zipWith (· ++ ·) gaps ps).flatten := by
  induction glob generalizing p ps text with
  | nil =>
    obtain ⟨rfl, rfl⟩ : p = [] ∧ ps = [] := by simpa [eq_comm] using h
    rw [matches_nil_iff]
    constructor
    · rintro rfl
      exact ⟨[], rfl, by simp, rfl⟩
    · rintro ⟨gaps, -, -, rfl⟩
      simp
  | cons c glob ih =>
    obtain ⟨q, qs, hrest⟩ := exists_splitOn glob
    by_cases hc : c = wildcard
    · subst hc
      obtain ⟨rfl, rfl⟩ : p = [] ∧ ps = q :: qs := by
        simpa [splitOn_gap_cons, hrest, eq_comm] using h
      simp only [matches_gap_iff, ih hrest, forall_inGap_iff]
      -- the first gap stands before what is left of the glob
      constructor
      · rintro ⟨gap, rest, rfl, hgap, gaps, hlen, hgaps, rfl⟩
        exact ⟨gap :: gaps, by simp [hlen], by simpa [hgap] using hgaps, by simp⟩
      · rintro ⟨gaps, hlen, hgaps, rfl⟩
        obtain ⟨gap, gaps, rfl⟩ := List.exists_cons_of_length_eq_add_one hlen
        exact ⟨gap, _, by simp, hgaps gap (by simp), gaps, by simpa using hlen,
          fun g hg => hgaps g (by simp [hg]), rfl⟩
    · obtain ⟨rfl, rfl⟩ : p = c :: q ∧ ps = qs := by
        simpa [splitOn_char_cons hc hrest, eq_comm] using h
      rw [matches_char_iff hc]
      simp only [ih hrest, List.cons_append]
      constructor
      · rintro ⟨rest, rfl, gaps, hlen, hgaps, rfl⟩
        exact ⟨gaps, hlen, hgaps, rfl⟩
      · rintro ⟨gaps, hlen, hgaps, rfl⟩
        exact ⟨_, rfl, gaps, hlen, hgaps, rfl⟩

end Glob

/-! ## The literal part -/

namespace Alias

open Glob

variable {name s p : List Char} {ps : List (List Char)}

theorem takeWhile_eq_piece (h : name.splitOn wildcard = p :: ps) :
    name.takeWhile (· != wildcard) = p ∧ (name.contains wildcard ↔ ps ≠ []) := by
  induction name generalizing p ps with
  | nil =>
    obtain ⟨rfl, rfl⟩ : p = [] ∧ ps = [] := by simpa [eq_comm] using h
    simp
  | cons c name ih =>
    obtain ⟨q, qs, hrest⟩ := exists_splitOn name
    by_cases hc : c = wildcard
    · subst hc
      obtain ⟨rfl, rfl⟩ : p = [] ∧ ps = q :: qs := by
        simpa [splitOn_gap_cons, hrest, eq_comm] using h
      simp
    · obtain ⟨rfl, rfl⟩ : p = c :: q ∧ ps = qs := by
        simpa [splitOn_char_cons hc hrest, eq_comm] using h
      obtain ⟨htake, hcontains⟩ := ih hrest
      exact ⟨by simp [hc, htake], by simpa [Ne.symm hc] using hcontains⟩

/-- The literal part is the first piece, less the slash in front of a
wildcard; an alias without one is all literal. -/
theorem literalOf_eq (h : name.splitOn wildcard = p :: ps) :
    literalOf name =
      if ps = [] then name else if p.getLast? = some '/' then p.dropLast else p := by
  obtain ⟨htake, hcontains⟩ := takeWhile_eq_piece h
  rw [literalOf, htake]
  by_cases hps : ps = []
  · have hwild : name.contains wildcard = false := by
      rw [← Bool.not_eq_true, hcontains]
      simpa using hps
    have hall : name.takeWhile (· != wildcard) = name := by
      rw [List.takeWhile_eq_self_iff]
      intro c hc
      rw [bne_iff_ne]
      rintro rfl
      simp [hc] at hwild
    rw [if_pos hps, hwild, ← htake, hall]
    simp
  · rw [if_neg hps, hcontains.2 hps]
    simp

/-- **What an alias catches begins with its literal part.** -/
theorem exists_eq_literalOf_append (h : Glob.Matches name s) :
    ∃ rest, s = literalOf name ++ rest := by
  obtain ⟨p, ps, hsplit⟩ := exists_splitOn name
  obtain ⟨gaps, -, -, rfl⟩ := (matches_iff_exists_gaps hsplit).1 h
  have hprefix : literalOf name <+: p := by
    rw [← (takeWhile_eq_piece hsplit).1, literalOf]
    split
    · exact List.dropLast_prefix _
    · exact List.prefix_rfl
  obtain ⟨rest, hrest⟩ := hprefix
  exact ⟨rest ++ _, by rw [← List.append_assoc, hrest]⟩

end Alias

end DualPackage
