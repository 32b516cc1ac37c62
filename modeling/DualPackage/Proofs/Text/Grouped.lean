import DualPackage.Proofs.Alias.Expression
import DualPackage.Proofs.Text.FirstMatch
import DualPackage.Text.Blank
import Mathlib.Data.List.Infix
import Mathlib.Data.List.TakeWhile
/-!
# Expressions in groups

The expressions that clauses are looked for with are groups, one behind the
other, and a match captures what each of them stands for. `Grouped.read?`
reads that part of the documented syntax and refuses the rest.
`Grouped.MatchesAt` is its documented meaning: what may be captured where a
text begins, by the text alone. Captures follow one another, so they tell
where each group begins and ends.

A text may be captured in several ways, and whether a repetition is greedy
says which of them is preferred. `Grouped.ways` lists all of them in this
order (`mem_ways_iff`). Of a `Matcher` only this is asked, that it answers one
of them if there is any; `Matcher.backtracking` answers the first.
-/

namespace DualPackage

open Text

/-- A set of characters, or all the others. -/
structure Charset where
  negated : Bool
  blank : Bool
  chars : List Char
  deriving DecidableEq, Repr

namespace Charset

def has (k : Charset) (c : Char) : Bool :=
  (k.blank && isBlank c || k.chars.contains c) != k.negated

/-- `\s` -/
def white : Charset := ⟨false, true, []⟩

/-- A character that stands for itself. -/
def only (c : Char) : Charset := ⟨false, false, [c]⟩

@[simp] theorem has_white (c : Char) : white.has c = isBlank c := by
  simp [has, white]

@[simp] theorem has_only (c d : Char) : (only c).has d ↔ d = c := by
  simp [has, only]

end Charset

namespace Grouped

/-- An element of a group. -/
inductive Item where
  /-- `\b`, the place between a word character and one that is none. -/
  | boundary
  /-- One character of a set. -/
  | one (k : Charset)
  /-- Any number of them, or any but zero. -/
  | run (k : Charset) (nonempty greedy : Bool)
  deriving DecidableEq, Repr

end Grouped

/-- An expression that consists of groups. -/
abbrev Grouped := List (List Grouped.Item)

namespace Grouped

/-! ## The syntax -/

/-- What the text of an expression is made of. -/
inductive Token where
  | opens
  | closes
  | boundary
  | set (k : Charset)
  | star
  | plus
  | question

/-- The characters that may be operators between brackets. -/
def isSetOperator (c : Char) : Bool :=
  ['[', ']', '\\', '^', '-', '&', '~'].contains c

/-- The tokens of a text, where `inside` is the set that is being read. -/
def tokens? : (inside : Option Charset) → List Char → Option (List Token)
  | none, [] => some []
  | none, '(' :: rest => (tokens? none rest).map (.opens :: ·)
  | none, ')' :: rest => (tokens? none rest).map (.closes :: ·)
  | none, '*' :: rest => (tokens? none rest).map (.star :: ·)
  | none, '+' :: rest => (tokens? none rest).map (.plus :: ·)
  | none, '?' :: rest => (tokens? none rest).map (.question :: ·)
  | none, '[' :: '^' :: rest => tokens? (some ⟨true, false, []⟩) rest
  | none, '[' :: rest => tokens? (some ⟨false, false, []⟩) rest
  | none, '\\' :: 'b' :: rest => (tokens? none rest).map (.boundary :: ·)
  | none, '\\' :: 's' :: rest => (tokens? none rest).map (.set .white :: ·)
  | none, '\\' :: c :: rest =>
    if Expression.isEscapable c then (tokens? none rest).map (.set (.only c) :: ·) else none
  | none, c :: rest =>
    if Expression.isOperator c then none else (tokens? none rest).map (.set (.only c) :: ·)
  | some _, [] => none
  | some k, ']' :: rest =>
    -- a bracket right behind the opening one would stand for itself
    if k.blank || !k.chars.isEmpty then (tokens? none rest).map (.set k :: ·) else none
  | some k, '\\' :: 's' :: rest => tokens? (some { k with blank := true }) rest
  | some k, '\\' :: 'r' :: rest => tokens? (some { k with chars := k.chars ++ ['\r'] }) rest
  | some k, '\\' :: 'n' :: rest => tokens? (some { k with chars := k.chars ++ ['\n'] }) rest
  | some k, c :: rest =>
    if isSetOperator c then none else tokens? (some { k with chars := k.chars ++ [c] }) rest

/-- The first group with an item in front. -/
def withItem (i : Item) : Grouped → Grouped
  | [] => []
  | g :: e => (i :: g) :: e

/-- The groups that tokens make up. Outside of them nothing may stand, and
inside of one no other. -/
def groups? : (inside : Bool) → List Token → Option Grouped
  | false, [] => some []
  | false, .opens :: rest => groups? true rest
  | true, .closes :: rest => (groups? false rest).map ([] :: ·)
  | true, .boundary :: rest => (groups? true rest).map (withItem .boundary)
  | true, .set k :: .star :: .question :: rest =>
    (groups? true rest).map (withItem (.run k false false))
  | true, .set k :: .star :: rest => (groups? true rest).map (withItem (.run k false true))
  | true, .set k :: .plus :: .question :: rest =>
    (groups? true rest).map (withItem (.run k true false))
  | true, .set k :: .plus :: rest => (groups? true rest).map (withItem (.run k true true))
  | true, .set k :: rest => (groups? true rest).map (withItem (.one k))
  | _, _ => none

/-- The expression a text denotes, if it needs no more of the syntax than
there is here. -/
def read? (source : List Char) : Option Grouped :=
  (tokens? none source).bind (groups? false)

/-! ## The meaning -/

/-- The item stands for `m` between the character `before` and the text
`after`. -/
def Item.At : Item → Option Char → List Char → List Char → Prop
  | .boundary, before, m, after => m = [] ∧ before.any isWord ≠ after.head?.any isWord
  | .one k, _, m, _ => ∃ c, m = [c] ∧ k.has c
  | .run k nonempty _, _, m, _ => (∀ c ∈ m, k.has c) ∧ (nonempty → m ≠ [])

/-- One behind the other, `as` stand for `ms`. -/
def Along {α : Type} (At : α → Option Char → List Char → List Char → Prop) :
    List α → Option Char → List (List Char) → List Char → Prop
  | [], _, [], _ => True
  | a :: as, before, m :: ms, after =>
    At a before m (ms.flatten ++ after) ∧ Along At as (charBefore before m) ms after
  | _, _, _, _ => False

/-- The group stands for `m`, whatever part of it each item stands for. -/
def GroupAt (g : List Item) (before : Option Char) (m after : List Char) : Prop :=
  ∃ pieces, m = pieces.flatten ∧ Along Item.At g before pieces after

/-- The expression matches at the head of a text that follows the character
`before`, and captures `parts`. -/
def MatchesAt (e : Grouped) (before : Option Char) (text : List Char)
    (parts : List (List Char)) : Prop :=
  ∃ after, text = parts.flatten ++ after ∧ Along GroupAt e before parts after

/-- What a group stands for in a match, counted from 1; the whole match is
group 0. -/
def capture (parts : List (List Char)) : ℕ → List Char
  | 0 => parts.flatten
  | k + 1 => parts.getD k []

variable {α : Type} {At : α → Option Char → List Char → List Char → Prop} {a : α} {as : List α}
  {before : Option Char} {c : Char} {m after text : List Char} {ms parts : List (List Char)}
  {i : Item} {g : List Item} {e : Grouped} {k : Charset} {nonempty greedy : Bool}

theorem along_nil_iff : Along At [] before ms after ↔ ms = [] := by
  cases ms <;> simp [Along]

theorem along_cons_iff : Along At (a :: as) before ms after ↔
    ∃ m ms', ms = m :: ms' ∧ At a before m (ms'.flatten ++ after) ∧
      Along At as (charBefore before m) ms' after := by
  cases ms with
  | nil => simp [Along]
  | cons m ms =>
    constructor
    · rintro ⟨hm, hms⟩
      exact ⟨m, ms, rfl, hm, hms⟩
    · rintro ⟨m', ms', heq, hm, hms⟩
      obtain ⟨rfl, rfl⟩ := List.cons.inj heq
      exact ⟨hm, hms⟩

@[simp] theorem groupAt_nil_iff : GroupAt [] before m after ↔ m = [] := by
  simp [GroupAt, along_nil_iff]

theorem groupAt_cons_iff : GroupAt (i :: g) before m after ↔
    ∃ p m', m = p ++ m' ∧ i.At before p (m' ++ after) ∧
      GroupAt g (charBefore before p) m' after := by
  simp only [GroupAt, along_cons_iff]
  constructor
  · rintro ⟨pieces, rfl, p, ps, rfl, hp, hps⟩
    exact ⟨p, ps.flatten, rfl, hp, ps, rfl, hps⟩
  · rintro ⟨p, m', rfl, hp, ps, rfl, hps⟩
    exact ⟨p :: ps, rfl, p, ps, rfl, hp, hps⟩

theorem groupAt_boundary_iff : GroupAt (.boundary :: g) before m after ↔
    before.any isWord ≠ (m ++ after).head?.any isWord ∧ GroupAt g before m after := by
  rw [groupAt_cons_iff]
  constructor
  · rintro ⟨p, m', rfl, ⟨rfl, hb⟩, hg⟩
    exact ⟨hb, hg⟩
  · rintro ⟨hb, hg⟩
    exact ⟨[], m, rfl, ⟨rfl, hb⟩, hg⟩

theorem groupAt_one_iff : GroupAt (.one k :: g) before m after ↔
    ∃ c m', m = c :: m' ∧ k.has c ∧ GroupAt g (some c) m' after := by
  rw [groupAt_cons_iff]
  constructor
  · rintro ⟨p, m', rfl, ⟨c, rfl, hc⟩, hg⟩
    exact ⟨c, m', rfl, hc, hg⟩
  · rintro ⟨c, m', rfl, hc, hg⟩
    exact ⟨[c], m', rfl, ⟨c, rfl, hc⟩, hg⟩

theorem groupAt_run_iff : GroupAt (.run k nonempty greedy :: g) before m after ↔
    ∃ p m', m = p ++ m' ∧ (∀ c ∈ p, k.has c) ∧ (nonempty → p ≠ []) ∧
      GroupAt g (charBefore before p) m' after := by
  rw [groupAt_cons_iff]
  constructor
  · rintro ⟨p, m', rfl, ⟨hp, hne⟩, hg⟩
    exact ⟨p, m', rfl, hp, hne, hg⟩
  · rintro ⟨p, m', rfl, hp, hne, hg⟩
    exact ⟨p, m', rfl, ⟨hp, hne⟩, hg⟩

/-- The items that spell a word. -/
def spell (word : List Char) : List Item :=
  word.map fun c => .one (.only c)

theorem groupAt_spell_iff {word : List Char} : GroupAt (spell word ++ g) before m after ↔
    ∃ m', m = word ++ m' ∧ GroupAt g (charBefore before word) m' after := by
  induction word generalizing before m with
  | nil => simp [spell]
  | cons w word ih =>
    rw [spell, List.map_cons, List.cons_append, ← spell, groupAt_one_iff]
    simp only [ih, Charset.has_only, charBefore_cons]
    constructor
    · rintro ⟨c, m', rfl, rfl, m'', rfl, hg⟩
      exact ⟨m'', rfl, hg⟩
    · rintro ⟨m'', rfl, hg⟩
      exact ⟨w, word ++ m'', rfl, rfl, m'', rfl, hg⟩

/-- In front of a word a boundary asks that no word character goes before. -/
theorem groupAt_word_iff {w : Char} {word : List Char} (hw : isWord w) :
    GroupAt (.boundary :: (spell (w :: word) ++ g)) before m after ↔
      opensWord before ∧ ∃ m', m = w :: word ++ m' ∧
        GroupAt g (charBefore before (w :: word)) m' after := by
  rw [groupAt_boundary_iff, groupAt_spell_iff]
  constructor
  · rintro ⟨hb, m', rfl, hg⟩
    exact ⟨by simpa [opensWord, hw] using hb, m', rfl, hg⟩
  · rintro ⟨hb, m', rfl, hg⟩
    exact ⟨by simpa [opensWord, hw] using hb, m', rfl, hg⟩

/-! ## The order of preference -/

/-- What an item may stand for at the head of a text, the preferred first. -/
def Item.ways : Item → Option Char → List Char → List (List Char)
  | .boundary, before, text => if before.any isWord != text.head?.any isWord then [[]] else []
  | .one _, _, [] => []
  | .one k, _, c :: _ => if k.has c then [[c]] else []
  | .run k nonempty greedy, _, text =>
    let runs := (text.takeWhile k.has).inits.filter fun m => !(nonempty && m.isEmpty)
    if greedy then runs.reverse else runs

/-- What `as` may stand for one behind the other, if `ways` lists this for
each. The choice made first counts most. -/
def search (ways : α → Option Char → List Char → List (List Char)) :
    List α → Option Char → List Char → List (List (List Char))
  | [], _, _ => [[]]
  | a :: as, before, text => (ways a before text).flatMap fun m =>
    (search ways as (charBefore before m) (text.drop m.length)).map (m :: ·)

/-- What a group may stand for; one text is listed for each way to part it
among the items. -/
def groupWays (g : List Item) (before : Option Char) (text : List Char) : List (List Char) :=
  (search Item.ways g before text).map List.flatten

/-- What an expression may capture at the head of a text, the preferred
first. -/
def ways (e : Grouped) (before : Option Char) (text : List Char) : List (List (List Char)) :=
  search groupWays e before text

/-- `ways` lists what an `a` may stand for at the head of a text. -/
def Lists (ways : α → Option Char → List Char → List (List Char))
    (At : α → Option Char → List Char → List Char → Prop) : Prop :=
  ∀ a before text m, m ∈ ways a before text ↔ ∃ after, text = m ++ after ∧ At a before m after

theorem prefix_takeWhile_iff {p : Char → Bool} :
    m <+: text.takeWhile p ↔ m <+: text ∧ ∀ c ∈ m, p c := by
  constructor
  · intro h
    exact ⟨h.trans (List.takeWhile_prefix p), fun c hc => List.mem_takeWhile_imp (h.subset hc)⟩
  · rintro ⟨⟨after, rfl⟩, hm⟩
    rw [List.takeWhile_append_of_pos hm]
    exact List.prefix_append _ _

theorem lists_itemWays : Lists Item.ways Item.At := by
  intro i before text m
  cases i with
  | boundary =>
    rw [Item.ways]
    constructor
    · intro h
      split at h
      · rename_i hb
        obtain rfl : m = [] := by simpa using h
        exact ⟨text, rfl, rfl, by simpa using hb⟩
      · cases h
    · rintro ⟨after, rfl, rfl, hb⟩
      simpa using hb
  | one k =>
    cases text with
    | nil =>
      simp only [Item.ways, List.not_mem_nil, Item.At, false_iff]
      rintro ⟨after, heq, c, rfl, -⟩
      cases heq
    | cons d text =>
      rw [Item.ways]
      constructor
      · intro h
        split at h
        · rename_i hd
          obtain rfl : m = [d] := by simpa using h
          exact ⟨text, rfl, d, rfl, hd⟩
        · cases h
      · rintro ⟨after, heq, c, rfl, hc⟩
        obtain ⟨rfl, -⟩ := List.cons.inj heq
        simp [hc]
  | run k nonempty greedy =>
    have hruns : m ∈ (Item.run k nonempty greedy).ways before text ↔
        m <+: text.takeWhile k.has ∧ (nonempty → m ≠ []) := by
      rw [Item.ways]
      cases greedy <;> cases nonempty <;> simp
    rw [hruns, prefix_takeWhile_iff]
    constructor
    · rintro ⟨⟨⟨after, rfl⟩, hm⟩, hne⟩
      exact ⟨after, rfl, hm, hne⟩
    · rintro ⟨after, rfl, hm, hne⟩
      exact ⟨⟨List.prefix_append _ _, hm⟩, hne⟩

/-- A search finds what there is, if each step does. -/
theorem mem_search_iff {ways : α → Option Char → List Char → List (List Char)}
    (h : Lists ways At) : ms ∈ search ways as before text ↔
      ∃ after, text = ms.flatten ++ after ∧ Along At as before ms after := by
  induction as generalizing before text ms with
  | nil =>
    simp only [search, List.mem_singleton, along_nil_iff]
    constructor
    · rintro rfl
      exact ⟨text, rfl, rfl⟩
    · rintro ⟨-, -, hms⟩
      exact hms
  | cons a as ih =>
    simp only [search, List.mem_flatMap, List.mem_map, h _, ih, along_cons_iff]
    constructor
    · rintro ⟨m, ⟨rest, rfl, hm⟩, ms', ⟨after, hrest, hms⟩, rfl⟩
      obtain rfl : rest = ms'.flatten ++ after := by simpa using hrest
      exact ⟨after, by simp, m, ms', rfl, hm, hms⟩
    · rintro ⟨after, rfl, m, ms', rfl, hm, hms⟩
      exact ⟨m, ⟨ms'.flatten ++ after, by simp, hm⟩, ms', ⟨after, by simp, hms⟩, rfl⟩

theorem lists_groupWays : Lists groupWays GroupAt := by
  intro g before text m
  rw [groupWays, List.mem_map]
  constructor
  · rintro ⟨pieces, hpieces, rfl⟩
    obtain ⟨after, rfl, halong⟩ := (mem_search_iff lists_itemWays).1 hpieces
    exact ⟨after, rfl, pieces, rfl, halong⟩
  · rintro ⟨after, rfl, pieces, rfl, halong⟩
    exact ⟨pieces, (mem_search_iff lists_itemWays).2 ⟨after, rfl, halong⟩, rfl⟩

/-- **All ways are listed.** -/
theorem mem_ways_iff : parts ∈ e.ways before text ↔ e.MatchesAt before text parts :=
  mem_search_iff lists_groupWays

/-! ## What looks for matches -/

/-- Answers one of the ways in which an expression matches where a text
begins, if there is any. -/
structure Matcher (e : Grouped) where
  match? : Option Char → List Char → Option (List (List Char))
  matches_of_some : ∀ {before text parts},
    match? before text = some parts → e.MatchesAt before text parts
  none_of_none : ∀ {before text}, match? before text = none →
    ∀ parts, ¬ e.MatchesAt before text parts

namespace Matcher

/-- A matcher that answers the preferred way. -/
def backtracking (e : Grouped) : Matcher e where
  match? before text := (e.ways before text).head?
  matches_of_some h := mem_ways_iff.1 (List.mem_of_head? h)
  none_of_none h parts hmatch := by
    have hmem := mem_ways_iff.2 hmatch
    rw [List.head?_eq_none_iff.1 h] at hmem
    cases hmem

/-- The scan for the matches of an expression. -/
def finder (M : Matcher e) : Finder (List (List Char)) where
  find? := M.match?
  span := List.flatten

/-- Where an expression can match in one way only, this is what a matcher
answers. -/
theorem match?_eq_some_iff (M : Matcher e)
    (hunique : ∀ parts', e.MatchesAt before text parts → e.MatchesAt before text parts' →
      parts = parts') :
    M.match? before text = some parts ↔ e.MatchesAt before text parts := by
  refine ⟨M.matches_of_some, fun hmatch => ?_⟩
  cases hanswer : M.match? before text with
  | none => exact absurd hmatch (M.none_of_none hanswer parts)
  | some parts' => rw [hunique parts' hmatch (M.matches_of_some hanswer)]

end Matcher

end Grouped

end DualPackage
