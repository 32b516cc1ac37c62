import DualPackage.Proofs.Alias.Settled
import DualPackage.Proofs.Clause.Occurrences
/-!
# What the pass over aliases writes

`AliasTable.Means` says what a specifier stands for: itself if it points into
the package or if no alias catches it, and else what the first alias that
catches it resolves it to. The pass writes this in the place of the
specifier in every `from` clause of the leftmost choice, and leaves every
other character of the text as it is (`resolveAliases_leftmost`).
-/

namespace DualPackage

open Text

namespace AliasTable

/-- What a specifier stands for. With `extend`, a resolved path that lacks its
extension is given one. -/
inductive Means (table : AliasTable) (extend : Bool) (s : Specifier) : Specifier → Prop
  | inside (h : s.isRelativeOrRooted) : Means table extend s s
  | uncaught (h : ∀ a ∈ table.entries, a.catches s = false) : Means table extend s s
  /-- The first alias of the table that catches the specifier resolves it. -/
  | resolved {before behind : List Alias} {a : Alias} {path : Specifier}
      (outside : s.isRelativeOrRooted = false) (entries : table.entries = before ++ a :: behind)
      (first : ∀ b ∈ before, b.catches s = false) (resolves : a.resolve? s = some path) :
      Means table extend s
        (if extend && path.lacksExtension then path ++ Specifier.scriptExtension else path)

variable {table : AliasTable} {extend : Bool} {s : Specifier}

/-- The pass answers what the specifier stands for. -/
theorem means_settled (table : AliasTable) (extend : Bool) (s : Specifier) :
    table.Means extend s (table.settled extend s) := by
  by_cases hrel : s.isRelativeOrRooted
  · have hself : table.settled extend s = s := by simp [settled, rewrite?, hrel]
    rw [hself]
    exact .inside hrel
  · rw [Bool.not_eq_true] at hrel
    cases hfind : table.catching? s with
    | none =>
      have hself : table.settled extend s = s := by
        simp [settled, rewrite?, hrel, resolve?, hfind]
      rw [hself]
      refine .uncaught fun a ha => ?_
      simpa using List.find?_eq_none.1 hfind a ha
    | some a =>
      obtain ⟨hcatches, before, behind, hentries, hfirst⟩ := List.find?_eq_some_iff_append.1 hfind
      have hpath : a.resolve? s =
          some (Alias.joinRemainder a.resolved.toList (s.drop a.literal.length)) := by
        simp [Alias.resolve?, hcatches]
      have hsettled : table.settled extend s =
          if extend && Specifier.lacksExtension
              (Alias.joinRemainder a.resolved.toList (s.drop a.literal.length)) then
            Alias.joinRemainder a.resolved.toList (s.drop a.literal.length) ++
              Specifier.scriptExtension
          else Alias.joinRemainder a.resolved.toList (s.drop a.literal.length) := by
        simp [settled, rewrite?, hrel, resolve?, hfind, hpath]
      rw [hsettled]
      exact .resolved hrel hentries (by simpa using hfirst) hpath

/-- With extensions asked for, a specifier that changes has one. -/
theorem Means.lacksExtension_eq_false {t : Specifier} (h : table.Means true s t) (hne : t ≠ s) :
    t.lacksExtension = false := by
  cases h with
  | inside => exact absurd rfl hne
  | uncaught => exact absurd rfl hne
  | @resolved before behind a path =>
    by_cases hlacks : Specifier.lacksExtension path
    · simpa [hlacks] using Specifier.lacksExtension_append_scriptExtension path
    · simp [hlacks]

/-- The pass counts a clause as changed if its specifier stands for another. -/
theorem isRevised_iff (c : Clause) :
    c.isRevised (table.rewrite? extend) ↔ table.settled extend c.specifier ≠ c.specifier := by
  unfold Clause.isRevised settled
  cases table.rewrite? extend c.specifier with
  | none => simp
  | some path => simp

end AliasTable

/-- **The pass over aliases rewrites the leftmost clauses.** There is one
choice of `from` clauses that is made greedily from left to right; the text
after the pass is the one before with the specifier of each chosen clause
replaced by what it stands for. A clause that is not chosen overlaps a chosen
one that begins earlier. With extensions asked for, no specifier that has
changed lacks its own. -/
theorem resolveAliases_leftmost (table : AliasTable) (extend : Bool) (text : List Char) :
    ∃ chosen : List (ℕ × Clause),
      (∀ other, Leftmost (Form.anyFrom.Occurs text) (fun c => c.text.length) 0 other ↔
        other = chosen) ∧
      (resolveAliases table extend text).text = edited 0 (chosen.map fun ic =>
        ⟨ic.1 + ic.2.lead.length + 1, ic.2.specifier.length,
          table.settled extend ic.2.specifier⟩) text ∧
      (∀ s, table.Means extend s (table.settled extend s)) ∧
      (∀ i c, Form.anyFrom.Occurs text i c →
        (i, c) ∈ chosen ∨ ∃ j d, (j, d) ∈ chosen ∧ j < i ∧ i < j + d.text.length) ∧
      (extend → ∀ ic ∈ chosen, table.settled extend ic.2.specifier ≠ ic.2.specifier →
        (table.settled extend ic.2.specifier).lacksExtension = false) ∧
      ((resolveAliases table extend text).changed ↔
        ∃ ic ∈ chosen, table.settled extend ic.2.specifier ≠ ic.2.specifier) := by
  obtain ⟨chosen, hleft, hfound, hedits⟩ := Form.anyFrom.exists_leftmost text
  have hdet : ∀ i c d, Form.anyFrom.Occurs text i c → Form.anyFrom.Occurs text i d → c = d :=
    fun _ _ _ h h' => h.unique h'
  refine ⟨chosen, fun other => ⟨fun h => h.unique hdet hleft, fun h => h ▸ hleft⟩, hedits _,
    table.means_settled extend, fun i c hc => hleft.mem_or_overlaps hdet (Nat.zero_le i) hc, ?_, ?_⟩
  · rintro rfl ic - hne
    exact (table.means_settled true ic.2.specifier).lacksExtension_eq_false hne
  · have hchanged : (resolveAliases table extend text).changed =
        (chosen.map Prod.snd).any (Clause.isRevised (table.rewrite? extend)) := by
      rw [← hfound]
      rfl
    rw [hchanged, List.any_map, List.any_eq_true]
    exact exists_congr fun ic => and_congr_right fun _ => AliasTable.isRevised_iff ic.2

/-- The quote that closes one clause opens another, and the word `from` of the
second stands in the specifier of the first: it is left out. -/
example :
    (resolveAliases ⟨[⟨"@a*", "./b"⟩]⟩ true "from '@a from '@a' from '@a'".toList).text =
      "from './b from .js'@a' from './b.js'".toList := by
  decide

end DualPackage
