import Mathlib.Data.List.Basic
/-!
# Regular expressions and engines

The expressions an alias is compiled to need little of the documented
syntax: the two anchors, single characters, and `.` with or without a star.
`Expression.read?` reads that part of the syntax and refuses the rest, and
`Expression.MatchesAt` is its documented meaning.

An engine compiles a text to something that can be asked whether it
matches and where. It is `Documented` if it does what the documentation
says with every text that `read?` reads; of the match found only its place
is asked for, that no other begins earlier. `Engine.backtracking` is such
an engine (`documented_backtracking`).
-/

namespace DualPackage

namespace Expression

/-- An element of an expression. -/
inductive Item where
  /-- `^`, the start of the subject. -/
  | start
  /-- `$`, the end of the subject. -/
  | stop
  /-- A character that stands for itself, escaped or not. -/
  | char (c : Char)
  /-- `.`, any character but the line feed. -/
  | any
  /-- `.*`, any number of these. -/
  | run
  deriving DecidableEq, Repr

end Expression

/-- An expression is a sequence of elements. -/
abbrev Expression := List Expression.Item

namespace Expression

/-- The characters that are operators of the syntax. -/
def isOperator (c : Char) : Bool :=
  ['\\', '.', '+', '*', '?', '(', ')', '|', '[', ']', '{', '}', '^', '$'].contains c

/-- The characters that a backslash makes literal: all of ASCII but
letters, digits, `<` and `>`. -/
def isEscapable (c : Char) : Bool :=
  c.toNat < 128 && !c.isAlphanum && c != '<' && c != '>'

/-- The expression a text denotes, if it needs no more of the syntax than
there is here. -/
def read? : List Char → Option Expression
  | [] => some []
  | '^' :: rest => (read? rest).map (.start :: ·)
  | '$' :: rest => (read? rest).map (.stop :: ·)
  | '.' :: '*' :: rest => (read? rest).map (.run :: ·)
  | '.' :: rest => (read? rest).map (.any :: ·)
  | '\\' :: c :: rest => if isEscapable c then (read? rest).map (.char c :: ·) else none
  | c :: rest => if isOperator c then none else (read? rest).map (.char c :: ·)

/-- A character that is no operator stands for itself. -/
theorem read?_cons_of_not_isOperator {c : Char} (h : isOperator c = false) (rest : List Char) :
    read? (c :: rest) = (read? rest).map (.char c :: ·) := by
  have hne : c ≠ '^' ∧ c ≠ '$' ∧ c ≠ '.' ∧ c ≠ '\\' := by
    refine ⟨?_, ?_, ?_, ?_⟩ <;> rintro rfl <;> exact absurd h (by decide)
  obtain ⟨hstart, hstop, hany, hescape⟩ := hne
  rw [read?]
  · simp [h]
  all_goals simp_all

/-- The expression matches the text `m` where it stands in a subject, behind
`x` and before `y`. -/
inductive MatchesAt : Expression → List Char → List Char → List Char → Prop
  | nil {x y : List Char} : MatchesAt [] x [] y
  | start {e : Expression} {m y : List Char} (h : MatchesAt e [] m y) :
      MatchesAt (.start :: e) [] m y
  | stop {e : Expression} {x : List Char} (h : MatchesAt e x [] []) :
      MatchesAt (.stop :: e) x [] []
  | char {e : Expression} {c : Char} {x m y : List Char} (h : MatchesAt e (x ++ [c]) m y) :
      MatchesAt (.char c :: e) x (c :: m) y
  | any {e : Expression} {c : Char} {x m y : List Char} (hc : c ≠ '\n')
      (h : MatchesAt e (x ++ [c]) m y) : MatchesAt (.any :: e) x (c :: m) y
  | run {e : Expression} {gap x m y : List Char} (hgap : '\n' ∉ gap)
      (h : MatchesAt e (x ++ gap) m y) : MatchesAt (.run :: e) x (gap ++ m) y

/-- The expression matches somewhere in the subject. -/
def OccursIn (e : Expression) (s : List Char) : Prop :=
  ∃ x m y, s = x ++ (m ++ y) ∧ e.MatchesAt x m y

variable {e : Expression} {c : Char} {x m y t s : List Char}

/-! ## The meaning, element by element -/

theorem matchesAt_nil_iff : MatchesAt [] x m y ↔ m = [] := by
  constructor
  · intro h
    cases h
    rfl
  · rintro rfl
    exact .nil

theorem matchesAt_start_iff :
    MatchesAt (.start :: e) x m y ↔ x = [] ∧ MatchesAt e [] m y := by
  constructor
  · intro h
    cases h with
    | start h => exact ⟨rfl, h⟩
  · rintro ⟨rfl, h⟩
    exact .start h

theorem matchesAt_stop_iff :
    MatchesAt (.stop :: e) x m y ↔ m = [] ∧ y = [] ∧ MatchesAt e x [] [] := by
  constructor
  · intro h
    cases h with
    | stop h => exact ⟨rfl, rfl, h⟩
  · rintro ⟨rfl, rfl, h⟩
    exact .stop h

theorem matchesAt_char_iff :
    MatchesAt (.char c :: e) x m y ↔ ∃ m', m = c :: m' ∧ MatchesAt e (x ++ [c]) m' y := by
  constructor
  · intro h
    cases h with
    | char h => exact ⟨_, rfl, h⟩
  · rintro ⟨m', rfl, h⟩
    exact .char h

theorem matchesAt_any_iff :
    MatchesAt (.any :: e) x m y ↔
      ∃ c m', m = c :: m' ∧ c ≠ '\n' ∧ MatchesAt e (x ++ [c]) m' y := by
  constructor
  · intro h
    cases h with
    | any hc h => exact ⟨_, _, rfl, hc, h⟩
  · rintro ⟨c, m', rfl, hc, h⟩
    exact .any hc h

theorem matchesAt_run_iff :
    MatchesAt (.run :: e) x m y ↔
      ∃ gap m', m = gap ++ m' ∧ '\n' ∉ gap ∧ MatchesAt e (x ++ gap) m' y := by
  constructor
  · intro h
    cases h with
    | run hgap h => exact ⟨_, _, rfl, hgap, h⟩
  · rintro ⟨gap, m', rfl, hgap, h⟩
    exact .run hgap h

/-! ## Backtracking -/

/-- What may be left of a text behind a run of `.*`, by what may be left
behind the rest of the expression; the longest run comes first. -/
def endsOfRun (next : List Char → List Char → List (List Char)) :
    List Char → List Char → List (List Char)
  | x, [] => next x []
  | x, c :: t =>
    (if c = '\n' then [] else endsOfRun next (x ++ [c]) t) ++ next x (c :: t)

/-- What may be left of the text `t` behind a match of the expression that
begins with it, where `x` stands in front. -/
def ends : Expression → List Char → List Char → List (List Char)
  | [], _, t => [t]
  | .start :: e, x, t => if x = [] then ends e x t else []
  | .stop :: e, x, t => if t = [] then ends e x t else []
  | .char c :: e, x, d :: t => if d = c then ends e (x ++ [d]) t else []
  | .char _ :: _, _, [] => []
  | .any :: e, x, d :: t => if d = '\n' then [] else ends e (x ++ [d]) t
  | .any :: _, _, [] => []
  | .run :: e, x, t => endsOfRun (ends e) x t

/-- Where the first match begins and ends, counted in characters; the
subject is looked through from `t` on. -/
def search (e : Expression) : List Char → List Char → Option (ℕ × ℕ)
  | x, [] => (e.ends x []).head?.map fun y => (x.length, x.length - y.length)
  | x, c :: t =>
    match (e.ends x (c :: t)).head? with
    | some y => some (x.length, (x ++ c :: t).length - y.length)
    | none => e.search (x ++ [c]) t

theorem mem_endsOfRun_iff {next : List Char → List Char → List (List Char)} :
    y ∈ endsOfRun next x t ↔
      ∃ gap rest, t = gap ++ rest ∧ '\n' ∉ gap ∧ y ∈ next (x ++ gap) rest := by
  induction t generalizing x with
  | nil => simp [endsOfRun]
  | cons c t ih =>
    rw [endsOfRun, List.mem_append]
    constructor
    · rintro (h | h)
      · split at h
        · cases h
        · obtain ⟨gap, rest, rfl, hgap, h⟩ := ih.1 h
          exact ⟨c :: gap, rest, rfl, by simp [hgap, Ne.symm ‹_›], by simpa using h⟩
      · exact ⟨[], c :: t, rfl, by simp, by simpa using h⟩
    · rintro ⟨gap, rest, heq, hgap, h⟩
      rcases gap with - | ⟨d, gap⟩
      · obtain rfl : c :: t = rest := heq
        exact .inr (by simpa using h)
      · obtain ⟨rfl, rfl⟩ : c = d ∧ t = gap ++ rest := by simpa using heq
        have hc : c ≠ '\n' := by
          rintro rfl
          simp at hgap
        rw [if_neg hc]
        exact .inl (ih.2 ⟨gap, rest, rfl, fun hmem => hgap (List.mem_cons_of_mem _ hmem),
          by simpa using h⟩)

/-- **Backtracking finds the matches.** -/
theorem mem_ends_iff : y ∈ e.ends x t ↔ ∃ m, t = m ++ y ∧ e.MatchesAt x m y := by
  induction e generalizing x t with
  | nil => simp [ends, matchesAt_nil_iff, eq_comm]
  | cons item e ih =>
    cases item with
    | start =>
      simp only [ends, matchesAt_start_iff]
      split
      · rename_i hx
        simp [ih, hx]
      · rename_i hx
        simp [hx]
    | stop =>
      simp only [ends, matchesAt_stop_iff]
      split
      · rename_i ht
        subst ht
        rw [ih]
        constructor
        · rintro ⟨m, hm, h⟩
          obtain ⟨rfl, rfl⟩ := List.append_eq_nil_iff.1 hm.symm
          exact ⟨[], rfl, rfl, rfl, h⟩
        · rintro ⟨m, hm, rfl, rfl, h⟩
          exact ⟨[], rfl, h⟩
      · rename_i ht
        simp only [List.not_mem_nil, false_iff]
        rintro ⟨m, rfl, rfl, rfl, -⟩
        exact ht rfl
    | char c =>
      simp only [matchesAt_char_iff]
      cases t with
      | nil => simp [ends]
      | cons d t =>
        rw [ends]
        split
        · rename_i hd
          subst hd
          rw [ih]
          constructor
          · rintro ⟨m, rfl, h⟩
            exact ⟨d :: m, rfl, m, rfl, h⟩
          · rintro ⟨m, hm, m', rfl, h⟩
            exact ⟨m', by simpa using hm, h⟩
        · rename_i hd
          simp only [List.not_mem_nil, false_iff]
          rintro ⟨m, hm, m', rfl, -⟩
          exact hd (List.cons.inj hm).1
    | any =>
      simp only [matchesAt_any_iff]
      cases t with
      | nil => simp [ends]
      | cons d t =>
        rw [ends]
        split
        · rename_i hd
          simp only [List.not_mem_nil, false_iff]
          rintro ⟨m, hm, c, m', rfl, hc, -⟩
          exact hc ((List.cons.inj hm).1 ▸ hd)
        · rename_i hd
          rw [ih]
          constructor
          · rintro ⟨m, rfl, h⟩
            exact ⟨d :: m, rfl, d, m, rfl, hd, h⟩
          · rintro ⟨m, hm, c, m', rfl, hc, h⟩
            obtain ⟨rfl, rfl⟩ : d = c ∧ t = m' ++ y := by simpa using hm
            exact ⟨m', rfl, h⟩
    | run =>
      simp only [ends, mem_endsOfRun_iff, ih, matchesAt_run_iff]
      constructor
      · rintro ⟨gap, rest, rfl, hgap, m, rfl, h⟩
        exact ⟨gap ++ m, by simp, gap, m, rfl, hgap, h⟩
      · rintro ⟨m, rfl, gap, m', rfl, hgap, h⟩
        exact ⟨gap, m' ++ y, by simp, hgap, m', rfl, h⟩

/-- A search finds a match if there is one, and none begins earlier. -/
theorem search_spec (e : Expression) (x t : List Char) :
    (e.search x t = none ∧ ∀ u v w, t = u ++ (v ++ w) → ¬ e.MatchesAt (x ++ u) v w) ∨
      ∃ u v w, e.search x t = some ((x ++ u).length, (x ++ u).length + v.length) ∧
        t = u ++ (v ++ w) ∧ e.MatchesAt (x ++ u) v w ∧
        ∀ u' v' w', t = u' ++ (v' ++ w') → e.MatchesAt (x ++ u') v' w' → u.length ≤ u'.length := by
  have hnone : ∀ {x t : List Char}, (e.ends x t).head? = none →
      ∀ v w, t = v ++ w → ¬ e.MatchesAt x v w := by
    intro x t hends v w ht hmatch
    have := mem_ends_iff.2 ⟨v, ht, hmatch⟩
    rw [List.head?_eq_none_iff.1 hends] at this
    cases this
  have hsome : ∀ {x t y : List Char}, (e.ends x t).head? = some y →
      ∃ v, t = v ++ y ∧ e.MatchesAt x v y := fun hends =>
    mem_ends_iff.1 (List.mem_of_head? hends)
  induction t generalizing x with
  | nil =>
    cases hends : (e.ends x []).head? with
    | none =>
      refine .inl ⟨by simp [search, hends], fun u v w ht => ?_⟩
      obtain ⟨rfl, hvw⟩ := List.append_eq_nil_iff.1 ht.symm
      rw [List.append_nil]
      exact hnone hends v w hvw.symm
    | some y =>
      obtain ⟨v, hv, hmatch⟩ := hsome hends
      obtain ⟨rfl, rfl⟩ := List.append_eq_nil_iff.1 hv.symm
      exact .inr ⟨[], [], [], by simp [search, hends], rfl, by simpa using hmatch, by simp⟩
  | cons c t ih =>
    cases hends : (e.ends x (c :: t)).head? with
    | some y =>
      obtain ⟨v, hv, hmatch⟩ := hsome hends
      have hstep : e.search x (c :: t) = some (x.length, (x ++ c :: t).length - y.length) := by
        simp [search, hends]
      have hlen : (x ++ c :: t).length - y.length = x.length + v.length := by
        rw [hv]
        simp only [List.length_append]
        omega
      exact .inr ⟨[], v, y, by rw [hstep, hlen, List.append_nil], hv, by simpa using hmatch,
        by simp⟩
    | none =>
      -- nothing matches here, so a match begins behind the next character
      have hlater : ∀ {u v w : List Char}, c :: t = u ++ (v ++ w) → e.MatchesAt (x ++ u) v w →
          ∃ u', u = c :: u' ∧ t = u' ++ (v ++ w) := by
        intro u v w ht hmatch
        rcases u with - | ⟨d, u⟩
        · rw [List.append_nil] at hmatch
          exact absurd hmatch (hnone hends v w ht)
        · obtain ⟨rfl, hrest⟩ := List.cons.inj ht
          exact ⟨u, rfl, hrest⟩
      have hstep : e.search x (c :: t) = e.search (x ++ [c]) t := by simp [search, hends]
      rcases ih (x ++ [c]) with ⟨hsearch, hno⟩ | ⟨u, v, w, hsearch, rfl, hmatch, hfirst⟩
      · refine .inl ⟨hstep.trans hsearch, fun u v w ht hmatch => ?_⟩
        obtain ⟨u, rfl, hrest⟩ := hlater ht hmatch
        exact hno u v w hrest (by simpa using hmatch)
      · refine .inr ⟨c :: u, v, w, ?_, rfl, by simpa using hmatch, fun u' v' w' ht hmatch' => ?_⟩
        · rw [hstep, hsearch]
          simp
        · obtain ⟨u', rfl, hrest⟩ := hlater ht hmatch'
          have := hfirst u' v' w' hrest (by simpa using hmatch')
          simpa using this

end Expression

/-! ## Engines -/

/-- An engine for regular expressions. The place of a match is where it
begins and where it ends, counted in characters. -/
structure Engine where
  /-- What an expression is compiled to. -/
  Compiled : Type
  /-- Compiles the text of an expression, if it is one. -/
  compile : List Char → Option Compiled
  /-- Whether the expression matches somewhere in a subject. -/
  isMatch : Compiled → List Char → Bool
  /-- The place of the first match in a subject. -/
  find : Compiled → List Char → Option (ℕ × ℕ)

namespace Engine

/-- What an expression is compiled to answers for that expression. -/
structure Runs (E : Engine) (r : E.Compiled) (e : Expression) : Prop where
  isMatch_iff : ∀ s, E.isMatch r s ↔ e.OccursIn s
  find_eq_none_iff : ∀ s, E.find r s = none ↔ ¬ e.OccursIn s
  find_eq_some : ∀ {s i j}, E.find r s = some (i, j) → ∃ x m y, s = x ++ (m ++ y) ∧
    e.MatchesAt x m y ∧ i = x.length ∧ j = x.length + m.length ∧
    ∀ x' m' y', s = x' ++ (m' ++ y') → e.MatchesAt x' m' y' → x.length ≤ x'.length

/-- **The engine does what is documented:** it compiles every text of the
syntax above, and what it makes of it answers for the expression. -/
def Documented (E : Engine) : Prop :=
  ∀ source e, Expression.read? source = some e → ∃ r, E.compile source = some r ∧ E.Runs r e

/-- The engine that reads the syntax above and searches by backtracking. -/
def backtracking : Engine where
  Compiled := Expression
  compile := Expression.read?
  isMatch e s := (e.search [] s).isSome
  find e s := e.search [] s

theorem documented_backtracking : backtracking.Documented := by
  intro source e hread
  have hnone : ∀ s, e.search [] s = none ↔ ¬ e.OccursIn s := by
    intro s
    rcases e.search_spec [] s with ⟨hsearch, hno⟩ | ⟨u, v, w, hsearch, hs, hmatch, -⟩
    · refine iff_of_true hsearch ?_
      rintro ⟨u, v, w, hs, hmatch⟩
      exact hno u v w hs hmatch
    · rw [hsearch]
      exact iff_of_false (by simp) fun hno => hno ⟨u, v, w, hs, hmatch⟩
  refine ⟨e, hread, fun s => ?_, hnone, ?_⟩
  · show (e.search [] s).isSome ↔ _
    rw [← Option.ne_none_iff_isSome, ne_eq, hnone, not_not]
  · intro s i j hfind
    rcases e.search_spec [] s with ⟨hsearch, -⟩ | ⟨u, v, w, hsearch, hs, hmatch, hfirst⟩
    · cases hsearch.symm.trans hfind
    · obtain ⟨rfl, rfl⟩ : u.length = i ∧ u.length + v.length = j := by
        simpa using hsearch.symm.trans hfind
      exact ⟨u, v, w, hs, hmatch, rfl, rfl, hfirst⟩

end Engine

end DualPackage
