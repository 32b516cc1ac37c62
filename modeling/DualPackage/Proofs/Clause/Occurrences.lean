import DualPackage.Clause.Revision
import DualPackage.Proofs.Clause.Reading
import DualPackage.Proofs.Text.Leftmost
/-!
# The clauses of a text

`Form.Occurs` says that a clause of a form stands at a place of a text: a
lead that begins a word, then two quotes around a specifier, and behind it
what the form asks for. Clauses may overlap, and a pass takes the leftmost
choice of them (`Form.exists_leftmost`).
-/

namespace DualPackage

open Text

namespace Form

/-- A clause of the form stands at the place `i` of a text. -/
def Occurs (form : Form) (text : List Char) (i : ℕ) (c : Clause) : Prop :=
  ∃ x after, text = x ++ (c.text ++ after) ∧ x.length = i ∧ opensWord (charBefore none x) ∧
    form.IsLead c.lead ∧ c.quoted.Proper ∧ form.accepts c.specifier after

variable {form : Form} {text : List Char} {i : ℕ} {c c' : Clause}

/-- What occurs at a place is what the scan would find there. -/
theorem occurs_iff : form.Occurs text i c ↔ form.finder.OccursAt text i c := by
  constructor
  · rintro ⟨x, after, rfl, rfl, hopens, hlead, hproper, haccepts⟩
    exact ⟨x, _, rfl, rfl, clause?_eq_some_iff.2 ⟨hopens, hlead, hproper, after, rfl, haccepts⟩⟩
  · rintro ⟨x, rest, rfl, rfl, hfind⟩
    obtain ⟨hopens, hlead, hproper, after, rfl, haccepts⟩ := clause?_eq_some_iff.1 hfind
    exact ⟨x, after, rfl, rfl, hopens, hlead, hproper, haccepts⟩

theorem occurs_eq (form : Form) (text : List Char) :
    form.Occurs text = form.finder.OccursAt text := by
  funext i c
  exact propext occurs_iff

/-- At most one clause of a form begins at a place. -/
theorem Occurs.unique (h : form.Occurs text i c) (h' : form.Occurs text i c') : c = c' :=
  Finder.occursAt_unique (occurs_iff.1 h) (occurs_iff.1 h')

/-- A clause is a stretch of the text it is found in. -/
theorem faithful_finder (form : Form) : form.finder.Faithful := by
  intro before text c hfind
  obtain ⟨-, -, -, after, rfl, -⟩ := clause?_eq_some_iff.1 hfind
  exact ⟨by simp [finder, Clause.text, QuotedRun.text], List.prefix_append _ _⟩

/-- **A pass takes the leftmost choice of clauses,** and replaces their
specifiers where they stand. -/
theorem exists_leftmost (form : Form) (text : List Char) :
    ∃ chosen, Leftmost (form.Occurs text) (fun c => c.text.length) 0 chosen ∧
      form.finder.found text = chosen.map Prod.snd ∧
      ∀ f : Specifier → Option Specifier,
        (form.revise f text).text = edited 0 (chosen.map fun ic =>
          ⟨ic.1 + ic.2.lead.length + 1, ic.2.specifier.length,
            (f ic.2.specifier).getD ic.2.specifier⟩) text := by
  have hspan : ∀ c : Clause, form.finder.span c =
      c.lead ++ [c.quoted.openQuote] ++ (c.specifier ++ [c.quoted.closeQuote]) := by
    intro c
    simp [finder, Clause.text, QuotedRun.text, Clause.specifier]
  obtain ⟨chosen, hleft, hfound, hwritten⟩ :=
    Finder.exists_leftmost (faithful_finder form) hspan text
  refine ⟨chosen, ?_, hfound, fun f => ?_⟩
  · rw [occurs_eq]
    exact hleft
  · have hrender : (fun c : Clause => (c.revise f).text) = fun c =>
        c.lead ++ [c.quoted.openQuote] ++
          ((f c.specifier).getD c.specifier ++ [c.quoted.closeQuote]) := by
      funext c
      simp [Clause.revise, Clause.withSpecifier, Clause.text, QuotedRun.text]
    show form.finder.replace (fun c => (c.revise f).text) text = _
    rw [hrender, hwritten fun c => (f c.specifier).getD c.specifier]
    simp [Nat.add_assoc]

end Form

end DualPackage
