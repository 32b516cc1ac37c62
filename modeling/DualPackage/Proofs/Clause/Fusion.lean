import DualPackage.Proofs.Clause.Extension
import DualPackage.Proofs.Clause.Taken
/-!
# Passes in a row

What a pass writes into a clause can be looked at again. If every new
specifier is one that the form accepts, a second scan finds the clauses of
the first, in order and with nothing but their specifiers replaced, and
between them the same characters (`Form.pieces_revise`): a clause neither
comes into being nor goes away, even where the braces of an export reach
across the quotes of other clauses. Two passes over one form are then one
pass with the functions composed (`Form.revise_fuses`).

The one thing to see is that a place at which no clause began begins none
when a clause further on has its specifier replaced
(`Form.noneWithin_withSpecifier`). Such a clause would lie in front of the
one replaced, or share its quotes, or have it in its lead; the first two
were clauses before, and the third is none, since no lead reaches across a
quote that another lead stands in front of.
-/

namespace DualPackage

open Text

/-- A piece with its match replaced. -/
def Text.Piece.map {α β : Type} (f : α → β) : Piece α → Piece β
  | .plain c => .plain c
  | .found m => .found (f m)

namespace Text.Piece

variable {α β : Type}

theorem render_map (write : β → List Char) (f : α → β) (p : Piece α) :
    (p.map f).render write = p.render (write ∘ f) := by
  cases p <;> rfl

theorem match?_map (f : α → β) (p : Piece α) : (p.map f).match? = p.match?.map f := by
  cases p <;> rfl

end Text.Piece

/-- The specifier that a function answers, or the one it was asked about if it
answers nothing. -/
def Specifier.revisedBy (f : Specifier → Option Specifier) (s : Specifier) : Specifier :=
  (f s).getD s

/-- What the second function makes of what the first made of a specifier. -/
def Specifier.andThen (f g : Specifier → Option Specifier) (s : Specifier) : Option Specifier :=
  some (revisedBy g (revisedBy f s))

namespace Clause

variable {f : Specifier → Option Specifier}

theorem revise_andThen_self
    (hf : ∀ s, Specifier.revisedBy f (Specifier.revisedBy f s) = Specifier.revisedBy f s)
    (c : Clause) : c.revise (Specifier.andThen f f) = c.revise f :=
  congrArg c.withSpecifier (hf c.specifier)

theorem isRevised_revise
    (hf : ∀ s, Specifier.revisedBy f (Specifier.revisedBy f s) = Specifier.revisedBy f s)
    (c : Clause) : (c.revise f).isRevised f = false := by
  have hs : Specifier.revisedBy f (c.revise f).specifier = (c.revise f).specifier := hf c.specifier
  rw [Specifier.revisedBy] at hs
  rw [isRevised]
  cases hanswer : f (c.revise f).specifier with
  | none => rfl
  | some t =>
    rw [hanswer, Option.getD_some] at hs
    simp [hs]

end Clause

namespace Form

variable {form : Form} {before : Option Char} {x text after after' : List Char} {m : Clause}

/-- **What is ahead of a clause does not see its specifier.** If a clause
begins in front of the clause `m`, at the head of `x`, one begins there
whatever specifier `m` has. -/
theorem exists_clause?_withSpecifier (hform : form ≠ jsonImport)
    (hopens : opensWord (charBefore before x)) (hlead : form.IsLead m.lead) (hm : m.quoted.Proper)
    {s : Specifier} (hs : (m.withSpecifier s).quoted.Proper) (haccepts : form.accepts s after')
    {c : Clause} (hfind : form.clause? before (x ++ (m.text ++ after)) = some c) :
    ∃ c', form.clause? before (x ++ ((m.withSpecifier s).text ++ after')) = some c' := by
  obtain ⟨hopens', hlead', hproper, rest, htext, haccepts'⟩ := clause?_eq_some_iff.1 hfind
  have hsplit : x ++ m.lead ++ m.quoted.openQuote :: (m.specifier ++ m.quoted.closeQuote :: after) =
      c.lead ++ c.quoted.openQuote :: (c.specifier ++ c.quoted.closeQuote :: rest) := by
    simpa [Clause.text, QuotedRun.text, Clause.specifier] using htext
  rcases append_cons_eq_append_cons hsplit with ⟨hw, -, -⟩ | ⟨w, hw, -⟩ | ⟨w, hw, hrun⟩
  · -- the two clauses share their quotes
    refine ⟨⟨c.lead, (m.withSpecifier s).quoted⟩,
      clause?_eq_some_iff.2 ⟨hopens', hlead', hs, after', ?_, haccepts⟩⟩
    simp [Clause.text, Clause.withSpecifier, ← hw]
  · -- no lead reaches across the quote behind the lead of `m`
    have hends : form.endsInLead before (x ++ m.lead) :=
      endsInLead_iff.2 ⟨x, m.lead, rfl, hlead, hopens⟩
    exact absurd hends (not_endsInLead_of_isLead hm.opens (hw ▸ hlead'))
  · -- the run of `c` closes with the opening quote of `m` or before it
    have hquote : m.quoted.openQuote ∉ c.specifier := fun hmem => by
      have := isQuote_eq_false_of_inSpecifier (hproper.inside _ hmem)
      rw [hm.opens] at this
      cases this
    obtain ⟨b, rfl, hb⟩ := exists_append_of_not_mem_left hquote hrun
    obtain ⟨rest', hrest'⟩ : ∃ rest',
        b ++ m.quoted.openQuote :: (s ++ m.quoted.closeQuote :: after') =
          c.quoted.closeQuote :: rest' := by
      rcases b with - | ⟨e, b⟩
      · obtain ⟨he, -⟩ : c.quoted.closeQuote = m.quoted.openQuote ∧ _ := by simpa using hb
        exact ⟨_, by rw [he]; rfl⟩
      · obtain ⟨he, -⟩ : c.quoted.closeQuote = e ∧ _ := by simpa using hb
        exact ⟨_, by rw [he]; rfl⟩
    refine ⟨c, clause?_eq_some_iff.2 ⟨hopens', hlead', hproper, rest', ?_,
      (accepts_congr hform _ rest' rest).trans haccepts'⟩⟩
    calc x ++ ((m.withSpecifier s).text ++ after')
        = x ++ m.lead ++ m.quoted.openQuote :: (s ++ m.quoted.closeQuote :: after') := by
          simp [Clause.text, QuotedRun.text, Clause.withSpecifier]
      _ = c.lead ++ c.quoted.openQuote :: (c.specifier ++
            (b ++ m.quoted.openQuote :: (s ++ m.quoted.closeQuote :: after'))) := by
          simp [hw]
      _ = c.text ++ rest' := by
          rw [hrest']
          simp [Clause.text, QuotedRun.text, Clause.specifier]

/-- A place at which no clause began begins none when the next clause has its
specifier replaced. -/
theorem noneWithin_withSpecifier (hform : form ≠ jsonImport)
    (hopens : opensWord (charBefore before x)) (hlead : form.IsLead m.lead) (hm : m.quoted.Proper)
    {s : Specifier} (hs : (m.withSpecifier s).quoted.Proper)
    (haccepts : form.accepts m.specifier after)
    (hnone : form.finder.NoneWithin before x (m.text ++ after)) :
    form.finder.NoneWithin before x ((m.withSpecifier s).text ++ after') := by
  rintro y d z rfl
  rw [Option.eq_none_iff_forall_ne_some]
  intro c hc
  have hopens' : opensWord (charBefore (charBefore before y) (d :: z)) := by
    rwa [charBefore_append] at hopens
  -- the clause found would have been there with the specifier that `m` had
  obtain ⟨c', hc'⟩ := exists_clause?_withSpecifier (m := m.withSpecifier s) (s := m.specifier)
    hform hopens' hlead hs hm haccepts hc
  have hpassed := hnone y d z rfl
  exact absurd (hc'.symm.trans hpassed) (by simp)

variable {f : Specifier → Option Specifier}

/-- What is asked of a function is that its answers are specifiers the form
accepts. -/
theorem admits_revisedBy_iff : form.Admits (Specifier.revisedBy f) ↔
    ∀ s t : Specifier, s.all inSpecifier → form.accepts s [] → f s = some t →
      t.all inSpecifier ∧ form.accepts t [] := by
  constructor
  · intro h s t hs haccepts hanswer
    have hrevised : Specifier.revisedBy f s = t := by rw [Specifier.revisedBy, hanswer]; rfl
    exact hrevised ▸ h s hs haccepts
  · intro h s hs haccepts
    rw [Specifier.revisedBy]
    cases hanswer : f s with
    | none => exact ⟨hs, haccepts⟩
    | some t => exact h s t hs haccepts hanswer

/-- **A scan of what a pass has written** finds the clauses of the first scan
with their specifiers replaced. -/
theorem scan_revise (hform : form ≠ jsonImport) (hf : form.Admits (Specifier.revisedBy f)) :
    ∀ (n : ℕ) (before : Option Char) (text : List Char), text.length < n →
      form.finder.scan before 0 ((form.finder.scan before 0 text).flatMap
          (Piece.render fun c => (c.revise f).text)) =
        (form.finder.scan before 0 text).map (Piece.map (Clause.revise f)) := by
  intro n
  induction n with
  | zero => intro before text hn; omega
  | succ n ih =>
    intro before text hn
    rcases form.finder.exists_first before text with hnone | ⟨x, c, z, m, rfl, hfind, hnone⟩
    · -- without a clause the text is written back as it is
      have hscan : form.finder.scan before 0 text = text.map .plain := by
        simpa [Finder.scan] using Finder.scan_append_of_none hnone
      have hwritten : (text.map .plain).flatMap
          (Piece.render fun c => (Clause.revise f c).text) = text := by
        simp [List.flatMap_map, Piece.render]
      rw [hscan, hwritten, hscan]
      simp [Piece.map]
    · -- up to the first clause nothing is found in either text, and behind it
      -- both scans go on from the same quote
      obtain ⟨hopens, hlead, hm, after, hz, haccepts⟩ := clause?_eq_some_iff.1 hfind
      set written := (form.finder.scan (some m.quoted.closeQuote) 0 after).flatMap
        (Piece.render fun c => (Clause.revise f c).text) with hwritten
      have haccepts' : form.accepts m.specifier [] := by
        rwa [accepts_congr hform _ _ after]
      obtain ⟨hinside, hadmitted⟩ := hf m.specifier (List.all_eq_true.2 hm.inside) haccepts'
      have hs : (m.revise f).quoted.Proper := ⟨hm.opens, List.all_eq_true.1 hinside, hm.closes⟩
      have haccepted : form.accepts (m.revise f).specifier written := by
        rwa [accepts_congr hform _ _ []]
      have hfind' : form.clause? (charBefore before x) ((m.revise f).text ++ written) =
          some (m.revise f) :=
        clause?_eq_some_iff.2 ⟨hopens, hlead, hs, written, rfl, haccepted⟩
      have hnone' : form.finder.NoneWithin before x ((m.revise f).text ++ written) :=
        noneWithin_withSpecifier hform hopens hlead hm hs haccepts (hz ▸ hnone)
      obtain ⟨d, w, hw⟩ : ∃ d w, (m.revise f).text ++ written = d :: w :=
        List.exists_cons_of_ne_nil (by simp [Clause.text, QuotedRun.text])
      have hlength : after.length < n := by
        have := congrArg List.length hz
        simp [Clause.text, QuotedRun.text] at this hn
        omega
      have hrest := ih (some m.quoted.closeQuote) after hlength
      rw [hw] at hfind' hnone'
      have hscan := scan_of_clause? hfind hnone hz
      have hscan' := scan_of_clause? hfind' hnone' hw.symm
      have htext : (form.finder.scan before 0 (x ++ c :: z)).flatMap
          (Piece.render fun c => (Clause.revise f c).text) = x ++ d :: w := by
        rw [hscan, ← hw]
        simp [List.flatMap_map, Piece.render, hwritten]
      rw [htext, hscan', hscan, show (m.revise f).quoted.closeQuote = m.quoted.closeQuote from rfl,
        hrest]
      simp [Piece.map]

/-- **What the second scan finds.** If what a pass writes are specifiers the
form accepts, the pieces of the new text are those of the old one, with the
specifier of each clause replaced. -/
theorem pieces_revise (hform : form ≠ jsonImport) (hf : form.Admits (Specifier.revisedBy f))
    (text : List Char) :
    form.finder.pieces (form.revise f text).text =
      (form.finder.pieces text).map (Piece.map (Clause.revise f)) := by
  rw [revise, Finder.replace, Finder.pieces_eq_scan, Finder.pieces_eq_scan]
  exact scan_revise hform hf (text.length + 1) none text (by omega)

theorem found_revise (hform : form ≠ jsonImport) (hf : form.Admits (Specifier.revisedBy f))
    (text : List Char) :
    form.finder.found (form.revise f text).text =
      (form.finder.found text).map (Clause.revise f) := by
  rw [Finder.found, pieces_revise hform hf, Finder.found, List.filterMap_map, List.map_filterMap]
  exact congrArg₂ List.filterMap (funext fun p => Piece.match?_map _ p) rfl

/-- Two passes over one form write what one pass writes that asks the second
function about the answers of the first. -/
theorem text_revise_revise (hform : form ≠ jsonImport) (hf : form.Admits (Specifier.revisedBy f))
    (g : Specifier → Option Specifier) (text : List Char) :
    (form.revise g (form.revise f text).text).text =
      (form.revise (Specifier.andThen f g) text).text := by
  show (form.finder.pieces (form.revise f text).text).flatMap _ = _
  rw [pieces_revise hform hf, List.flatMap_map]
  exact congrArg₂ List.flatMap (funext fun p => Piece.render_map _ _ p) rfl

/-- Where the answers of a function are its own answers to them, the second
pass finds nothing to do. -/
theorem revise_revise_of_idempotent (hform : form ≠ jsonImport)
    (hf : form.Admits (Specifier.revisedBy f))
    (hidem : ∀ s, Specifier.revisedBy f (Specifier.revisedBy f s) = Specifier.revisedBy f s)
    (text : List Char) :
    form.revise f (form.revise f text).text = .unchanged (form.revise f text).text := by
  have htext : (form.revise f (form.revise f text).text).text = (form.revise f text).text := by
    rw [text_revise_revise hform hf]
    simp only [revise, Clause.revise_andThen_self hidem]
  have hchanged : (form.revise f (form.revise f text).text).changed = false := by
    show (form.finder.found _).any _ = false
    rw [found_revise hform hf, List.any_map, List.any_eq_false]
    intro c _
    simp [Clause.isRevised_revise hidem]
  exact congrArg₂ Revision.mk htext hchanged

/-- **Passes fuse.** A pass over the clauses of one form, whose answers are
specifiers that the form accepts, can be followed by any other: the second
finds the clauses of the first, in order and with nothing but the specifier
replaced, and the text between them as it was. So both passes together write
what one pass does with the functions composed, and a pass whose function is
idempotent has nothing to do a second time. -/
theorem revise_fuses (hform : form ≠ jsonImport) (hf : form.Admits (Specifier.revisedBy f))
    (g : Specifier → Option Specifier) (text : List Char) :
    form.finder.pieces (form.revise f text).text =
        (form.finder.pieces text).map (Piece.map (Clause.revise f)) ∧
      form.finder.found (form.revise f text).text =
        (form.finder.found text).map (Clause.revise f) ∧
      (form.revise g (form.revise f text).text).text =
        (form.revise (Specifier.andThen f g) text).text ∧
      ((∀ s, Specifier.revisedBy f (Specifier.revisedBy f s) = Specifier.revisedBy f s) →
        form.revise f (form.revise f text).text = .unchanged (form.revise f text).text) :=
  ⟨pieces_revise hform hf text, found_revise hform hf text, text_revise_revise hform hf g text,
    fun hidem => revise_revise_of_idempotent hform hf hidem text⟩

/-- Two exports, the first of which reaches across lines and quotes that stand
in its braces. -/
def quotedNames : List Char :=
  "export \x7b a, // 'a' isn't\n  b \x7d from \"./x';export \x7bc\x7d from './y'".toList

/-- Extensions first, and then another directory. -/
theorem revise_fuses_quotedNames :
    let moved : Specifier → Option Specifier := fun s => some ("../lib/".toList ++ s.drop 2)
    let once := exportFrom.revise Specifier.withScriptExtension? quotedNames
    once.text = "export \x7b a, // 'a' isn't\n  b \x7d from \"./x.js';".toList ++
        "export \x7bc\x7d from './y.js'".toList ∧
      (exportFrom.revise moved once.text).text =
        (exportFrom.revise (Specifier.andThen Specifier.withScriptExtension? moved)
          quotedNames).text ∧
      exportFrom.revise Specifier.withScriptExtension? once.text = .unchanged once.text := by
  intro moved once
  have hf : exportFrom.Admits (Specifier.revisedBy Specifier.withScriptExtension?) := by
    refine admits_revisedBy_iff.2 fun s t hs _ hanswer => ⟨?_, rfl⟩
    have hextended : Specifier.extended s = t := by rw [Specifier.extended, hanswer]; rfl
    exact hextended ▸ (Specifier.all_inSpecifier_extended s).trans hs
  obtain ⟨-, -, hfused, hagain⟩ := revise_fuses (by decide) hf moved quotedNames
  exact ⟨by decide +kernel, hfused, hagain Specifier.extended_extended⟩

end Form

end DualPackage
