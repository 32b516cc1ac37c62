import DualPackage.Proofs.Alias.Pattern
import DualPackage.Proofs.Keyed
/-!
# Which alias decides

Aliases are inserted one after the other, and the same alias may be inserted
again. Its place in the table is that of its first insertion and its
resolved path that of its last (`AliasTable.Inserted.latest`), so among the
aliases that catch a specifier the one inserted first decides, and with the
path it was given last. `AliasTable.Inserted.precedence` puts this together
for the table and for its compiled form on an engine, and says which
specifiers one more insertion can touch.
-/

namespace DualPackage

open Keyed

/-- The specifier resolved by the first pattern that catches it. -/
def Pattern.resolveFirst? {E : Engine} (patterns : List (Pattern E)) (s : Specifier) :
    Option Specifier := do
  let pattern ← patterns.find? (·.catches s)
  pattern.resolve? s

namespace AliasTable

/-- The aliases of a table and their resolved paths. -/
def pairs (table : AliasTable) : List (String × String) :=
  table.entries.map fun a => (a.name, a.resolved)

/-- A table is what insertions, from the first to the last, make of the empty
one. -/
inductive Inserted : List (String × String) → AliasTable → Prop
  | empty : Inserted [] .empty
  | insert {given : List (String × String)} {table : AliasTable} (h : Inserted given table)
      (name resolved : String) : Inserted (given ++ [(name, resolved)]) (table.insert name resolved)

/-- The aliases of a table, compiled in order. -/
def compile (E : Engine) (table : AliasTable) : Option (List (Pattern E)) :=
  table.entries.mapM (Pattern.compile E)

variable {table : AliasTable} {given : List (String × String)} {entries : List Alias}
  {name resolved : String} {a : Alias} {s : Specifier}

/-! ## Insertions -/

theorem names_eq (table : AliasTable) : table.names = table.pairs.map Prod.fst := by
  rw [names, pairs, List.map_map]
  rfl

theorem pairs_insert (table : AliasTable) (name resolved : String) :
    (table.insert name resolved).pairs = put name resolved table.pairs := by
  have hplace : ∀ entries : List Alias,
      (place name resolved entries).map (fun a => (a.name, a.resolved)) =
        put name resolved (entries.map fun a => (a.name, a.resolved)) := by
    intro entries
    induction entries with
    | nil => rfl
    | cons a entries ih =>
      by_cases ha : a.name = name
      · simp [place, put, ha]
      · simp [place, put, ha, ih]
  exact hplace table.entries

namespace Inserted

/-- **First place, last value.** -/
theorem latest (h : Inserted given table) : Latest given table.pairs := by
  induction h with
  | empty => exact .nil
  | insert _ name resolved ih =>
    rw [pairs_insert]
    exact ih.concat name resolved

/-- The table of a list of pairs is made by inserting them. -/
theorem inserted_ofList (given : List (String × String)) : Inserted given (ofList given) := by
  induction given using List.reverseRecOn with
  | nil => exact .empty
  | append_singleton given pair ih =>
    rw [ofList, List.foldl_append]
    exact ih.insert pair.1 pair.2

theorem ofList_eq (h : Inserted given table) : ofList given = table := by
  induction h with
  | empty => rfl
  | insert _ name resolved ih => rw [ofList, List.foldl_append, ← ofList, ih]; rfl

end Inserted

/-! ## The alias that decides -/

/-- On an engine that does what is documented a table is compiled, and the
first pattern that catches a specifier resolves it as the table does. -/
theorem exists_compile {E : Engine} (hE : E.Documented) (table : AliasTable) :
    ∃ patterns, table.compile E = some patterns ∧
      ∀ s, Pattern.resolveFirst? patterns s = table.resolve? s := by
  have hentries : ∀ entries : List Alias, ∃ patterns, entries.mapM (Pattern.compile E) =
      some patterns ∧ ∀ s, Pattern.resolveFirst? patterns s =
        (AliasTable.mk entries).resolve? s := by
    intro entries
    induction entries with
    | nil => exact ⟨[], rfl, fun _ => rfl⟩
    | cons a entries ih =>
      obtain ⟨pattern, hcompile, hagree⟩ := Pattern.exists_compile hE a
      obtain ⟨patterns, hrest, hresolve⟩ := ih
      refine ⟨pattern :: patterns, by simp [List.mapM_cons, hcompile, hrest], fun s => ?_⟩
      obtain ⟨hcatches, hpattern⟩ := hagree s
      by_cases hs : a.catches s
      · simp [Pattern.resolveFirst?, resolve?, catching?, hcatches, hs, hpattern]
      · simpa [Pattern.resolveFirst?, resolve?, catching?, hcatches, hs] using hresolve s
  exact hentries table.entries

/-- **The alias inserted first decides,** of those that catch the specifier,
and with the path it was given last. -/
theorem Inserted.resolve?_eq (h : Inserted given table) (s : Specifier) :
    table.resolve? s =
      (given.find? fun pair => Glob.covers pair.1.toList s).bind fun pair =>
        (last? given pair.1).bind fun resolved => (⟨pair.1, resolved⟩ : Alias).resolve? s := by
  have hpairs : (table.pairs.find? fun pair => Glob.covers pair.1.toList s) =
      (table.catching? s).map fun a => (a.name, a.resolved) := by
    rw [pairs, List.find?_map]
    rfl
  calc table.resolve? s
      = ((table.catching? s).map fun a => (a.name, a.resolved)).bind
          fun pair => (⟨pair.1, pair.2⟩ : Alias).resolve? s := by
        rw [resolve?]
        cases table.catching? s <;> rfl
    _ = _ := by
        rw [← hpairs, h.latest.find?_eq fun name => Glob.covers name.toList s, Option.bind_assoc]
        simp only [Option.bind_map, Function.comp_def]

/-! ## One more insertion -/

/-- The first entry that catches a specifier is still the first after an
insertion of another alias. -/
theorem find?_place (hfind : entries.find? (·.catches s) = some a) (hne : a.name ≠ name) :
    (place name resolved entries).find? (·.catches s) = some a := by
  induction entries with
  | nil => cases hfind
  | cons b entries ih =>
    by_cases hb : b.name = name
    · -- an entry catches what its name says, whatever it resolves to
      have hsame : (⟨name, resolved⟩ : Alias).catches s = b.catches s := by
        rw [← hb]
        rfl
      cases hcatches : b.catches s with
      | true =>
        obtain rfl : b = a := by simpa [hcatches] using hfind
        exact absurd hb hne
      | false => simpa [place, hb, hsame, hcatches] using hfind
    · cases hcatches : b.catches s with
      | true => simpa [place, hb, hcatches] using hfind
      | false =>
        rw [List.find?_cons_of_neg (by simp [hcatches])] at hfind
        simpa [place, hb, hcatches] using ih hfind

/-- **What one more insertion can touch:** specifiers that no other alias
catches, and those on which the alias inserted decides. -/
theorem resolve?_insert_ne (h : (table.insert name resolved).resolve? s ≠ table.resolve? s) :
    (∀ a ∈ table.entries, a.name ≠ name → a.catches s = false) ∨
      ∃ a, table.catching? s = some a ∧ a.name = name := by
  cases hfind : table.catching? s with
  | none =>
    refine .inl fun a ha _ => ?_
    simpa using List.find?_eq_none.1 hfind a ha
  | some a =>
    refine .inr ⟨a, rfl, ?_⟩
    by_contra hne
    have hsame : (table.insert name resolved).catching? s = some a := find?_place hfind hne
    exact h (by rw [resolve?, resolve?, hsame, hfind])

/-- **The law of alias tables.** Of a sequence of insertions the table keeps
each alias once, in the order of the first insertions and with the path of the
last; making the table of a list of pairs is inserting them. On an engine that
does what is documented the table is compiled. A specifier is then resolved by
the alias that was inserted first of those that catch it, with the path this
alias was given last. One more insertion leaves a specifier as it was unless no
other alias catches it or the alias inserted decides on it already. -/
theorem Inserted.precedence {E : Engine} (hE : E.Documented) (h : Inserted given table) :
    table.names.Nodup ∧ Latest given table.pairs ∧ ofList given = table ∧
      (∃ patterns, table.compile E = some patterns ∧ ∀ s,
        Pattern.resolveFirst? patterns s = table.resolve? s ∧
        Pattern.resolveFirst? patterns s =
          (given.find? fun pair => Glob.covers pair.1.toList s).bind fun pair =>
            (last? given pair.1).bind fun resolved => (⟨pair.1, resolved⟩ : Alias).resolve? s) ∧
      ∀ name resolved s, (table.insert name resolved).resolve? s ≠ table.resolve? s →
        (∀ a ∈ table.entries, a.name ≠ name → a.catches s = false) ∨
          ∃ a, table.catching? s = some a ∧ a.name = name := by
  obtain ⟨patterns, hcompile, hagree⟩ := exists_compile hE table
  refine ⟨names_eq table ▸ h.latest.nodup, h.latest, h.ofList_eq,
    ⟨patterns, hcompile, fun s => ⟨hagree s, ?_⟩⟩, fun name resolved s => resolve?_insert_ne⟩
  rw [hagree, h.resolve?_eq]

/-- Two aliases that overlap, the wider one first and then given again. -/
theorem precedence_overlapping :
    ∃ table : AliasTable, ∃ patterns : List (Pattern Engine.backtracking),
      Inserted [("@a*", "./old"), ("@app", "./app"), ("@a*", "./new")] table ∧
      table.pairs = [("@a*", "./new"), ("@app", "./app")] ∧
      table.compile Engine.backtracking = some patterns ∧
      Pattern.resolveFirst? patterns "@app".toList = some "./newpp".toList := by
  have h : Inserted [("@a*", "./old"), ("@app", "./app"), ("@a*", "./new")] _ :=
    ((Inserted.empty.insert "@a*" "./old").insert "@app" "./app").insert "@a*" "./new"
  obtain ⟨-, hlatest, -, ⟨patterns, hcompile, hresolve⟩, -⟩ :=
    Inserted.precedence Engine.documented_backtracking h
  refine ⟨_, patterns, h, by decide, hcompile, ?_⟩
  rw [(hresolve _).2]
  decide

end AliasTable

end DualPackage
