import DualPackage.Alias.Source
import DualPackage.Proofs.Alias.Expression
import DualPackage.Proofs.Alias.Glob
import Mathlib.Data.Bool.AllAny
import Mathlib.Data.List.DropRight
/-!
# Aliases on an engine

An alias can be compiled to two expressions, one for the specifiers it
catches and one for its literal part, and resolved by asking an engine for
their matches (`Pattern`). The first expression is the glob, element by
element (`matchesAt_globExpression_iff`), and the second matches where the
specifier begins, if it is caught at all. So on every engine that does
what is documented the two ways agree, and an alias means its glob
(`Pattern.compile_means_glob`).
-/

namespace DualPackage

open Expression

namespace Alias

variable {c : Char} {name rest x m y s : List Char} {e : Expression}

/-! ## The sources -/

/-- The element that a character of an alias is written as. -/
def globItem (c : Char) : Item :=
  if c = Glob.wildcard then .run else .char c

/-- The text that it is written as. -/
def globSource (c : Char) : List Char :=
  if c = Glob.wildcard then ['.', '*'] else escape [c]

/-- The expression of the specifiers an alias catches. -/
def globExpression (name : List Char) : Expression :=
  .start :: (name.map globItem ++ [.stop])

/-- The expression of a literal text at the start of the subject. -/
def literalExpression (literal : List Char) : Expression :=
  .start :: literal.map .char

theorem isEscapable_of_needsEscape (h : needsEscape c) : isEscapable c := by
  have hall : ∀ c ∈ ['\\', '.', '+', '*', '?', '(', ')', '|', '[', ']', '{', '}', '^', '$', '#',
      '&', '-', '~'], isEscapable c := List.all_iff_forall_prop.1 (by decide)
  exact hall c (by simpa [needsEscape] using h)

theorem isOperator_of_not_needsEscape (h : needsEscape c = false) : isOperator c = false := by
  simp only [needsEscape, List.contains_eq_mem, List.mem_cons, List.not_mem_nil, or_false,
    decide_eq_false_iff_not, not_or] at h
  simp [isOperator, h]

/-- An escaped character is read as itself, whatever follows it. -/
theorem read?_escape_append (c : Char) (rest : List Char) :
    read? (escape [c] ++ rest) = (read? rest).map (.char c :: ·) := by
  by_cases hc : needsEscape c
  · simp [escape, hc, read?, isEscapable_of_needsEscape hc]
  · have hplain : isOperator c = false := isOperator_of_not_needsEscape (by simpa using hc)
    simpa [escape, hc] using read?_cons_of_not_isOperator hplain rest

theorem read?_globSource_append (c : Char) (rest : List Char) :
    read? (globSource c ++ rest) = (read? rest).map (globItem c :: ·) := by
  by_cases hc : c = Glob.wildcard
  · simp [globSource, globItem, hc, read?]
  · simp only [globSource, globItem, if_neg hc, read?_escape_append]

theorem pieces_ne_nil (name : List Char) : pieces name ≠ [] := by
  cases name with
  | nil => simp [pieces]
  | cons c name =>
    rw [pieces]
    split
    · simp
    · split <;> simp

/-- **The pieces, escaped and joined, are written character by character.** -/
theorem intercalate_pieces (name : List Char) :
    List.intercalate ['.', '*'] ((pieces name).map escape) = name.flatMap globSource := by
  induction name with
  | nil => simp [pieces, escape]
  | cons c name ih =>
    obtain ⟨piece, more, hpieces⟩ := List.exists_cons_of_ne_nil (pieces_ne_nil name)
    rw [hpieces, List.map_cons] at ih
    by_cases hc : c = Glob.wildcard
    · rw [pieces, if_pos hc, hpieces, List.flatMap_cons, ← ih]
      simp [globSource, hc, escape, List.intercalate]
    · have hescape : escape (c :: piece) = escape [c] ++ escape piece := by simp [escape]
      rw [pieces, if_neg hc, hpieces, List.flatMap_cons, ← ih, globSource, if_neg hc]
      simp only [List.map_cons, hescape]
      cases more <;> simp [List.intercalate]

theorem read?_catchSource (name : List Char) :
    read? (catchSource name) = some (globExpression name) := by
  have hitems : ∀ name : List Char, read? (name.flatMap globSource ++ ['$']) =
      some (name.map globItem ++ [.stop]) := by
    intro name
    induction name with
    | nil => rfl
    | cons c name ih => simp [read?_globSource_append, ih]
  rw [catchSource, intercalate_pieces, List.cons_append, read?, hitems]
  rfl

theorem read?_literalSource (name : List Char) :
    read? (literalSource name) = some (literalExpression (literalOf name)) := by
  have hitems : ∀ text : List Char, read? (escape text) = some (text.map .char) := by
    intro text
    induction text with
    | nil => rfl
    | cons c text ih =>
      have hescape : escape (c :: text) = escape [c] ++ escape text := by simp [escape]
      rw [hescape, read?_escape_append, ih]
      rfl
  rw [literalSource, read?, hitems]
  rfl

/-! ## What they match -/

/-- **The first expression is the glob.** -/
theorem matchesAt_globItems_iff :
    MatchesAt (name.map globItem ++ [.stop]) x m y ↔ Glob.Matches name m ∧ y = [] := by
  induction name generalizing x m with
  | nil => simp [matchesAt_stop_iff, matchesAt_nil_iff, Glob.matches_nil_iff]
  | cons c name ih =>
    rw [List.map_cons, List.cons_append]
    by_cases hc : c = Glob.wildcard
    · subst hc
      simp only [globItem, if_true, matchesAt_run_iff, ih, Glob.matches_gap_iff,
        Glob.forall_inGap_iff]
      constructor
      · rintro ⟨gap, m', rfl, hgap, h, hy⟩
        exact ⟨⟨gap, m', rfl, hgap, h⟩, hy⟩
      · rintro ⟨⟨gap, m', rfl, hgap, h⟩, hy⟩
        exact ⟨gap, m', rfl, hgap, h, hy⟩
    · simp only [globItem, if_neg hc, matchesAt_char_iff, ih, Glob.matches_char_iff hc]
      constructor
      · rintro ⟨m', rfl, h, hy⟩
        exact ⟨⟨m', rfl, h⟩, hy⟩
      · rintro ⟨⟨m', rfl, h⟩, hy⟩
        exact ⟨m', rfl, h, hy⟩

theorem occursIn_globExpression_iff : (globExpression name).OccursIn s ↔ Glob.Matches name s := by
  constructor
  · rintro ⟨x, m, y, rfl, hmatch⟩
    obtain ⟨rfl, hitems⟩ := matchesAt_start_iff.1 hmatch
    obtain ⟨h, rfl⟩ := matchesAt_globItems_iff.1 hitems
    simpa using h
  · intro h
    exact ⟨[], s, [], by simp, matchesAt_start_iff.2 ⟨rfl, matchesAt_globItems_iff.2 ⟨h, rfl⟩⟩⟩

/-- **The second is the literal text where the subject begins.** -/
theorem matchesAt_literalExpression_iff {literal : List Char} :
    (literalExpression literal).MatchesAt x m y ↔ x = [] ∧ m = literal := by
  have hitems : ∀ {literal x m : List Char}, MatchesAt (literal.map .char) x m y ↔ m = literal := by
    intro literal
    induction literal with
    | nil => exact matchesAt_nil_iff
    | cons c literal ih =>
      intro x m
      simp [matchesAt_char_iff, ih]
  rw [literalExpression, matchesAt_start_iff, hitems]

end Alias

/-! ## Patterns -/

/-- An alias compiled for an engine. -/
structure Pattern (E : Engine) where
  /-- The alias as it is written. -/
  source : Alias
  /-- Matches the specifiers that the alias catches. -/
  catching : E.Compiled
  /-- Matches the part that is replaced. -/
  literal : E.Compiled

namespace Pattern

variable {E : Engine}

/-- Compiles an alias, if the engine takes both expressions. -/
def compile (E : Engine) (a : Alias) : Option (Pattern E) := do
  let catching ← E.compile (Alias.catchSource a.name.toList)
  let literal ← E.compile (Alias.literalSource a.name.toList)
  some ⟨a, catching, literal⟩

/-- Whether the alias catches the specifier. -/
def catches (pattern : Pattern E) (s : Specifier) : Bool :=
  E.isMatch pattern.catching s

/-- The specifier with the match of the literal part replaced, if the alias
catches it. -/
def resolve? (pattern : Pattern E) (s : Specifier) : Option Specifier :=
  if pattern.catches s then do
    let place ← E.find pattern.literal s
    some (Alias.joinRemainder pattern.source.resolved.toList (s.drop place.2))
  else none

/-- The place of the literal part is found in every specifier that begins
with it. -/
theorem find_literal {r : E.Compiled} {literal rest : List Char}
    (h : E.Runs r (Alias.literalExpression literal)) :
    E.find r (literal ++ rest) = some (0, literal.length) := by
  cases hfind : E.find r (literal ++ rest) with
  | none =>
    refine absurd ⟨[], literal, rest, rfl, ?_⟩ ((h.find_eq_none_iff _).1 hfind)
    exact Alias.matchesAt_literalExpression_iff.2 ⟨rfl, rfl⟩
  | some place =>
    obtain ⟨x, m, y, -, hmatch, hi, hj, -⟩ := h.find_eq_some (i := place.1) (j := place.2) hfind
    obtain ⟨rfl, rfl⟩ := Alias.matchesAt_literalExpression_iff.1 hmatch
    obtain ⟨i, j⟩ := place
    simp only [List.length_nil, Nat.zero_add] at hi hj
    rw [hi, hj]

/-- On an engine that does what is documented, an alias is compiled, and it
resolves what it would without one. -/
theorem exists_compile (hE : E.Documented) (a : Alias) :
    ∃ pattern, compile E a = some pattern ∧ ∀ s : Specifier,
      pattern.catches s = a.catches s ∧ pattern.resolve? s = a.resolve? s := by
  obtain ⟨catching, hcatching, hcatches⟩ := hE _ _ (Alias.read?_catchSource a.name.toList)
  obtain ⟨literal, hliteral, hfinds⟩ := hE _ _ (Alias.read?_literalSource a.name.toList)
  refine ⟨⟨a, catching, literal⟩, by simp [compile, hcatching, hliteral], fun s => ?_⟩
  have hcaught : (⟨a, catching, literal⟩ : Pattern E).catches s = a.catches s := by
    rw [Bool.eq_iff_iff, catches, hcatches.isMatch_iff, Alias.occursIn_globExpression_iff,
      Alias.catches, Glob.covers_iff_matches]
  refine ⟨hcaught, ?_⟩
  rw [resolve?, hcaught, Alias.resolve?]
  by_cases h : a.catches s
  · -- what is caught begins with the literal part, so that is found
    obtain ⟨rest, rfl⟩ := Alias.exists_eq_literalOf_append (Glob.covers_iff_matches.1 h)
    rw [if_pos h, if_pos h, find_literal hfinds]
    rfl
  · rw [if_neg h, if_neg h]

/-- **An alias means its glob.** Let `p` and `ps` be the pieces of an alias
between its wildcards, and `literal` the whole alias if it has none, and
else its first piece less a `/` at the end. An engine that does what is
documented compiles the alias. It catches a specifier, with or without the
engine, if the specifier consists of the pieces and gaps of one line
between them, and it resolves what it catches and nothing else. A
specifier that is caught begins with `literal`; what is left of it behind
that follows the resolved path, whose slashes at the end give way to one
that it begins with. -/
theorem compile_means_glob (hE : E.Documented) (a : Alias) :
    ∃ (pattern : Pattern E) (p : List Char) (ps : List (List Char)) (literal : List Char),
      compile E a = some pattern ∧ a.name.toList.splitOn '*' = p :: ps ∧
      literal = (if ps = [] then a.name.toList
        else if p.getLast? = some '/' then p.dropLast else p) ∧
      ∀ s : Specifier,
        pattern.catches s = a.catches s ∧ pattern.resolve? s = a.resolve? s ∧
        ((pattern.resolve? s).isSome ↔ pattern.catches s) ∧
        (pattern.catches s ↔ ∃ gaps : List (List Char), gaps.length = ps.length ∧
          (∀ gap ∈ gaps, '\n' ∉ gap) ∧ s = p ++ (List.zipWith (· ++ ·) gaps ps).flatten) ∧
        (pattern.catches s → ∃ rest, s = literal ++ rest ∧
          pattern.resolve? s = some (if rest.head? = some '/' then
            a.resolved.toList.rdropWhile (· == '/') ++ rest else a.resolved.toList ++ rest)) := by
  obtain ⟨pattern, hcompile, hagree⟩ := exists_compile hE a
  obtain ⟨p, ps, hsplit⟩ := Glob.exists_splitOn a.name.toList
  refine ⟨pattern, p, ps, Alias.literalOf a.name.toList, hcompile, hsplit,
    Alias.literalOf_eq hsplit, fun s => ?_⟩
  obtain ⟨hcatches, hresolve⟩ := hagree s
  refine ⟨hcatches, hresolve, ?_, ?_, fun h => ?_⟩
  · rw [hresolve, hcatches, Alias.resolve?]
    split <;> simp [*]
  · rw [hcatches, Alias.catches, Glob.covers_iff_matches, Glob.matches_iff_exists_gaps hsplit]
  · rw [hcatches] at h
    obtain ⟨rest, rfl⟩ := Alias.exists_eq_literalOf_append (Glob.covers_iff_matches.1 h)
    refine ⟨rest, rfl, ?_⟩
    rw [hresolve, Alias.resolve?, if_pos h, Alias.literal, List.drop_left]
    simp [Alias.joinRemainder, Alias.trimSlashes, List.rdropWhile]

/-- An alias whose wildcard has text behind it, on the engine that searches
by backtracking: the dot stands for itself, and the slashes at the end of
the resolved path give way. -/
theorem compile_backtracking :
    Engine.backtracking.Documented ∧
      ∃ pattern : Pattern Engine.backtracking,
        compile Engine.backtracking ⟨"@lib/*/i.x", "./lib//"⟩ = some pattern ∧
        pattern.resolve? "@lib/a/b/i.x".toList = some "./lib/a/b/i.x".toList ∧
        pattern.resolve? "@lib/a/b/ix".toList = none := by
  obtain ⟨pattern, _, _, _, hcompile, _, _, hmeans⟩ :=
    compile_means_glob Engine.documented_backtracking ⟨"@lib/*/i.x", "./lib//"⟩
  refine ⟨Engine.documented_backtracking, pattern, hcompile, ?_, ?_⟩
  · rw [(hmeans _).2.1]
    decide
  · rw [(hmeans _).2.1]
    decide

end Pattern

end DualPackage
