import DualPackage.Proofs.Alias.Inside
/-!
# Resolving aliases twice

The pass over aliases leaves specifiers that begin with `.` or `/` alone.
So a table whose resolved paths all begin in this way has nothing to do on
a text that it went through (`resolveAliases_settled`): its second look
takes the runs that the first took, and each of them was either resolved,
and points into the package now, or is caught by no alias. The text may be
any, with or without its quotes paired, and the extension may be asked for
the one time and not the other.
-/

namespace DualPackage

open Text Stretch

namespace Alias

/-- The resolved path of an alias begins with `.` or `/`, and could itself
be written between quotes. -/
structure LeadsInside (a : Alias) : Prop where
  relativeOrRooted : Specifier.isRelativeOrRooted a.resolved.toList
  inside : a.resolved.toList.all inSpecifier

instance (a : Alias) : Decidable a.LeadsInside :=
  decidable_of_iff
    (Specifier.isRelativeOrRooted a.resolved.toList ∧ a.resolved.toList.all inSpecifier)
    ⟨fun h => ⟨h.1, h.2⟩, fun h => ⟨h.relativeOrRooted, h.inside⟩⟩

end Alias

namespace AliasTable

variable {table : AliasTable} {extend : Bool} {s path : Specifier}

/-- What the pass makes of a specifier, extensions being asked for or not. -/
def settled (table : AliasTable) (extend : Bool) (s : Specifier) : Specifier :=
  (table.rewrite? extend s).getD s

/-- The pass answers with the resolved path of an alias, joined to an end of
the specifier, and with an extension at most behind it. -/
theorem exists_joinRemainder_of_rewrite? (h : table.rewrite? extend s = some path) :
    ∃ a ∈ table.entries, ∃ remainder ending, remainder <:+ s ∧
      (ending = [] ∨ ending = Specifier.scriptExtension) ∧
      path = Alias.joinRemainder a.resolved.toList remainder ++ ending := by
  unfold rewrite? at h
  split at h
  · cases h
  · simp only [Option.bind_eq_bind, Option.bind_eq_some_iff, Option.some.injEq, resolve?] at h
    obtain ⟨joined, ⟨a, hfind, hjoined⟩, hpath⟩ := h
    have hmem : a ∈ table.entries := List.mem_of_find?_eq_some hfind
    rw [Alias.eq_joinRemainder_of_resolve? hjoined] at hpath
    refine ⟨a, hmem, s.drop a.literal.length, ?_⟩
    split at hpath
    · exact ⟨_, List.drop_suffix _ _, .inr rfl, hpath.symm⟩
    · exact ⟨[], List.drop_suffix _ _, .inl rfl, by simpa using hpath.symm⟩

/-- Whether an alias is found does not depend on the extension asked for. -/
theorem rewrite?_eq_none_congr (again : Bool) (h : table.rewrite? extend s = none) :
    table.rewrite? again s = none := by
  by_cases hrel : s.isRelativeOrRooted
  · simp [rewrite?, hrel]
  · simpa [rewrite?, hrel] using h

section LeadsInside

variable (htable : ∀ a ∈ table.entries, a.LeadsInside)

include htable

theorem isRelativeOrRooted_of_rewrite? (h : table.rewrite? extend s = some path) :
    path.isRelativeOrRooted := by
  obtain ⟨a, ha, remainder, ending, -, -, rfl⟩ := exists_joinRemainder_of_rewrite? h
  have hjoined : Specifier.isRelativeOrRooted
      (Alias.joinRemainder a.resolved.toList remainder) :=
    Alias.isRelativeOrRooted_joinRemainder (htable a ha).relativeOrRooted remainder
  rwa [Specifier.isRelativeOrRooted_append (Specifier.ne_nil_of_isRelativeOrRooted hjoined)]

/-- A character class that holds of the specifier, of the resolved paths and
of the extension holds of the answer. -/
theorem all_settled {p : Char → Bool} (hp : ∀ c, inSpecifier c → p c)
    (hs : s.all p) : (table.settled extend s).all p := by
  unfold settled
  cases hpath : table.rewrite? extend s with
  | none => exact hs
  | some path =>
    obtain ⟨a, ha, remainder, ending, hsuffix, hending, rfl⟩ :=
      exists_joinRemainder_of_rewrite? hpath
    have hresolved : a.resolved.toList.all p :=
      List.all_eq_true.2 fun c hc => hp c (List.all_eq_true.1 (htable a ha).inside c hc)
    have hremainder : remainder.all p :=
      List.all_eq_true.2 fun c hc => List.all_eq_true.1 hs c (hsuffix.subset hc)
    have hend : ending.all p := by
      rcases hending with rfl | rfl
      · rfl
      · have hext : Specifier.scriptExtension.all inSpecifier := by decide
        exact List.all_eq_true.2 fun c hc => hp c (List.all_eq_true.1 hext c hc)
    rw [Option.getD_some, List.all_append, Alias.all_joinRemainder hresolved hremainder, hend,
      Bool.and_self]

/-- **A specifier is resolved once.** -/
theorem rewrite?_settled (extend again : Bool) (s : Specifier) :
    table.rewrite? again (table.settled extend s) = none := by
  unfold settled
  cases hpath : table.rewrite? extend s with
  | none => exact rewrite?_eq_none_congr again hpath
  | some path =>
    have hrel : path.isRelativeOrRooted := isRelativeOrRooted_of_rewrite? htable hpath
    simp [rewrite?, hrel]

/-- What is answered can be looked through again. -/
theorem admits_settled (extend : Bool) : Form.anyFrom.Admits (table.settled extend) := by
  intro s hs hne
  refine ⟨all_settled htable (fun _ hc => hc) hs, ?_⟩
  unfold settled
  cases hpath : table.rewrite? extend s with
  | none => exact hne
  | some path =>
    have hrel : path.isRelativeOrRooted := isRelativeOrRooted_of_rewrite? htable hpath
    simpa [Form.accepts] using Specifier.ne_nil_of_isRelativeOrRooted hrel

end LeadsInside

end AliasTable

namespace Form

variable {form : Form} {head : List Char} {ss : List Stretch}
  {f : Specifier → Option Specifier}

/-- A pass that has no answer for any run it takes is idle. -/
theorem revise_eq_unchanged (hcut : IsCut head ss)
    (hidle : ∀ s ∈ picked (form.taken head ss) ss, f s = none) :
    form.revise f (glue head ss) = .unchanged (glue head ss) := by
  have hself : amend (fun s => (f s).getD s) (form.taken head ss) ss = ss :=
    amend_eq_self (length_taken form head ss) fun s hs => by simp [hidle s hs]
  have hchanged : ((picked (form.taken head ss) ss).any fun s => (f s).any (· != s)) = false := by
    rw [List.any_eq_false]
    intro s hs
    simp [hidle s hs]
  rw [revise_glue hcut, hself, hchanged]
  rfl

end Form

variable {table : AliasTable}

/-- **Aliases that lead inside are resolved in one pass.** Whether either
pass gives extensions makes no difference. -/
theorem resolveAliases_settled (htable : ∀ a ∈ table.entries, a.LeadsInside)
    (extend again : Bool) (text : List Char) :
    let once := (resolveAliases table extend text).text
    resolveAliases table again once = .unchanged once := by
  intro once
  have hcut : IsCut (cut text).1 (cut text).2 := isCut_cut text
  let marks := Form.anyFrom.taken (cut text).1 (cut text).2
  let settledRuns := amend (table.settled extend) marks (cut text).2
  have honce : once = glue (cut text).1 settledRuns := by
    show (Form.anyFrom.revise (table.rewrite? extend) text).text = _
    conv_lhs => rw [← glue_cut text]
    rw [Form.revise_glue hcut]
    rfl
  have hcut' : IsCut (cut text).1 settledRuns := by
    refine hcut.amend marks fun s hs => ?_
    have hfree : (table.settled extend s).all (fun c => !isQuote c) := by
      refine AliasTable.all_settled htable (fun c hc => ?_) ?_
      · simpa using isQuote_eq_false_of_inSpecifier hc
      · simpa using hs
    simpa using hfree
  -- the second look takes the same runs, and each of them is settled
  have hmarks : Form.anyFrom.taken (cut text).1 settledRuns = marks :=
    Form.taken_amend (by decide) (AliasTable.admits_settled htable extend) _ _
  rw [honce]
  refine Form.revise_eq_unchanged hcut' ?_
  rw [hmarks, picked_amend]
  intro s hs
  obtain ⟨s', -, rfl⟩ := List.mem_map.1 hs
  exact AliasTable.rewrite?_settled htable extend again s'

/-- Two clauses in a text whose quotes are not paired. The second alias covers
what the first one answers and is never asked for it. -/
theorem resolveAliases_settled_unpaired :
    let table : AliasTable := ⟨[⟨"@lib/*", "./b"⟩, ⟨"./*", "/c"⟩]⟩
    let text := "it's from '@lib/a' from \"@lib/b'".toList
    (∀ a ∈ table.entries, a.LeadsInside) ∧
      (resolveAliases table true text).text =
        "it's from './b/a.js' from \"./b/b.js'".toList ∧
      resolveAliases table false (resolveAliases table true text).text =
        .unchanged (resolveAliases table true text).text := by
  intro table text
  have htable : ∀ a ∈ table.entries, a.LeadsInside := by decide +kernel
  exact ⟨htable, by decide +kernel, resolveAliases_settled htable true false text⟩

end DualPackage
