import DualPackage.Proofs.Alias.Pattern
/-!
# An alias read back from its expression

The expression of what an alias catches can be read from left to right: a
backslash and the character behind it stand for that character, `.*` for a
wildcard, and every other character for itself (`tokens?`). Of a text of
some other origin this may get stuck, or read an operator as a character.
Of the expression of an alias it yields the tokens of its characters, one
after the other (`tokens?_globSources`), so the alias can be told from it
(`catchSource_reads_back`).
-/

namespace DualPackage

open Expression

namespace Alias

/-- What stands for one character of an alias. -/
inductive Token where
  /-- A backslash and the character. -/
  | escaped (c : Char)
  /-- `.*`, for a wildcard. -/
  | gap
  /-- The character itself. -/
  | plain (c : Char)
  deriving DecidableEq, Repr

namespace Token

/-- The character that a token stands for. -/
def stands : Token → Char
  | escaped c | plain c => c
  | gap => Glob.wildcard

/-- What a token is to the syntax of expressions. -/
def item : Token → Item
  | escaped c | plain c => .char c
  | gap => .run

/-- The token that a character of an alias is written as. -/
def of (c : Char) : Token :=
  if c = Glob.wildcard then gap else if needsEscape c then escaped c else plain c

end Token

/-- Reads tokens from left to right. It gets stuck at a backslash with
nothing behind it. -/
def tokens? : List Char → Option (List Token)
  | [] => some []
  | '\\' :: c :: rest => (tokens? rest).map (.escaped c :: ·)
  | ['\\'] => none
  | '.' :: '*' :: rest => (tokens? rest).map (.gap :: ·)
  | c :: rest => (tokens? rest).map (.plain c :: ·)

variable {c : Char}

/-- A character that opens no other token stands for itself. -/
theorem tokens?_cons (hescape : c ≠ '\\') (hgap : c ≠ '.') (rest : List Char) :
    tokens? (c :: rest) = (tokens? rest).map (.plain c :: ·) := by
  rw [tokens?] <;> simp_all

/-! ## Character by character -/

theorem of_needsEscape (hc : c ≠ Glob.wildcard) (h : needsEscape c) :
    Token.of c = .escaped c := by
  rw [Token.of, if_neg hc, if_pos h]

theorem of_not_needsEscape (hc : c ≠ Glob.wildcard) (h : needsEscape c = false) :
    Token.of c = .plain c := by
  rw [Token.of, if_neg hc, if_neg (by simp [h])]

/-- **A token stands for the character it is written for.** -/
theorem stands_of (c : Char) : (Token.of c).stands = c := by
  rw [Token.of]
  split
  · exact Eq.symm ‹_›
  · split <;> rfl

theorem item_of (c : Char) : (Token.of c).item = globItem c := by
  rw [Token.of, globItem]
  split
  · rfl
  · split <;> rfl

/-- No operator is written as itself. -/
theorem isOperator_of_plain {d : Char} (h : Token.of d = .plain c) : isOperator c = false := by
  rw [Token.of] at h
  split at h
  · cases h
  · split at h
    · cases h
    · rename_i hescape
      obtain rfl : d = c := by simpa using h
      exact isOperator_of_not_needsEscape (by simpa using hescape)

/-- **One character is read back**, whatever follows it. -/
theorem tokens?_globSource_append (c : Char) (rest : List Char) :
    tokens? (globSource c ++ rest) = (tokens? rest).map (Token.of c :: ·) := by
  by_cases hc : c = Glob.wildcard
  · subst hc
    rfl
  · rw [globSource, if_neg hc]
    cases hescape : needsEscape c with
    | true =>
      rw [of_needsEscape hc hescape]
      simp [escape, hescape, tokens?]
    | false =>
      -- neither the backslash nor the dot goes unescaped
      have hne : c ≠ '\\' ∧ c ≠ '.' := by
        constructor <;> rintro rfl <;> exact absurd hescape (by decide)
      rw [of_not_needsEscape hc hescape, ← tokens?_cons hne.1 hne.2 rest]
      simp [escape, hescape]

theorem tokens?_globSources (name : List Char) :
    tokens? (name.flatMap globSource) = some (name.map Token.of) := by
  induction name with
  | nil => rfl
  | cons c name ih => rw [List.flatMap_cons, tokens?_globSource_append, ih]; rfl

theorem map_stands (name : List Char) : (name.map Token.of).map Token.stands = name := by
  rw [List.map_map]
  exact List.map_id'' stands_of name

/-! ## The whole expression -/

theorem catchSource_eq (name : List Char) :
    catchSource name = '^' :: (name.flatMap globSource ++ ['$']) := by
  rw [catchSource, intercalate_pieces]
  rfl

/-- Different aliases have different expressions. -/
theorem catchSource_injective : Function.Injective catchSource := by
  intro name other h
  rw [catchSource_eq, catchSource_eq, List.cons.injEq] at h
  have hbodies := List.append_cancel_right h.2
  have htokens := congrArg tokens? hbodies
  rw [tokens?_globSources, tokens?_globSources, Option.some.injEq] at htokens
  rw [← map_stands name, htokens, map_stands]

/-- **The expression of an alias can be read back.** Between its anchors it is
read to the end, and the tokens stand for the characters of the alias, one
for each. Each token is of the kind that its character asks for; those that
are one character are no operators, and the syntax of expressions takes the
tokens for what they are read as: characters, and gaps for the wildcards.
So no other alias has the same expression. -/
theorem catchSource_reads_back (name : List Char) :
    ∃ body tokens, catchSource name = '^' :: (body ++ ['$']) ∧ tokens? body = some tokens ∧
      tokens.map Token.stands = name ∧
      (∀ t ∈ tokens, t = Token.of t.stands) ∧
      (∀ c, .plain c ∈ tokens → isOperator c = false) ∧
      read? (catchSource name) = some (.start :: (tokens.map Token.item ++ [.stop])) ∧
      ∀ other, catchSource other = catchSource name → other = name := by
  refine ⟨name.flatMap globSource, name.map Token.of, catchSource_eq name,
    tokens?_globSources name, map_stands name, fun t ht => ?_, fun c hc => ?_, ?_,
    fun other h => catchSource_injective h⟩
  · obtain ⟨c, -, rfl⟩ := List.mem_map.1 ht
    rw [stands_of]
  · obtain ⟨d, -, hd⟩ := List.mem_map.1 hc
    exact isOperator_of_plain hd
  · have hitems : (name.map Token.of).map Token.item = name.map globItem := by
      rw [List.map_map]
      exact List.map_congr_left fun c _ => item_of c
    rw [read?_catchSource, hitems, globExpression]

/-- A dot in front of a wildcard, and a backslash in front of another. -/
example : tokens? "~a\\..*\\\\.*".toList =
    some [.plain '~', .plain 'a', .escaped '.', .gap, .escaped '\\', .gap] := by decide

end Alias

end DualPackage
