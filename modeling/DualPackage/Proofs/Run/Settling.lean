import DualPackage.Proofs.Alias.Settled
import DualPackage.Proofs.Clause.Commute
import DualPackage.Proofs.Run.Rerun
/-!
# Runs that settle

A run without copies leaves nothing to do for another one if it writes out
extensions, its aliases point inside, and the scripts that it finds in its
output trees are well quoted (`settled_of_wellQuoted`). What a text is made
of by both passes is stable then, and a run does no more than that to any
script.
-/

namespace DualPackage

open Disk

namespace AliasTable

variable {table : AliasTable}

/-- Without aliases the pass over them is idle. -/
theorem resolveAliases_of_isEmpty (h : table.isEmpty) (extend : Bool) (text : List Char) :
    resolveAliases table extend text = .unchanged text := by
  have hnone : ∀ s, table.rewrite? extend s = none := by
    intro s
    cases hpath : table.rewrite? extend s with
    | none => rfl
    | some path =>
      obtain ⟨a, ha, -⟩ := exists_joinRemainder_of_rewrite? hpath
      rw [List.isEmpty_iff.1 h] at ha
      cases ha
  have hidle : Form.anyFrom.revise (table.rewrite? extend) _ = _ :=
    Form.revise_eq_unchanged (Stretch.isCut_cut text) fun s _ => hnone s
  rwa [Stretch.glue_cut] at hidle

end AliasTable

namespace Config

variable {config : Config} {path : Path} {text : String}

/-- The aliases of a configuration: none, if it has no table. -/
def table (config : Config) : AliasTable := config.aliases.getD .empty

theorem resolveText_eq (config : Config) (path : Path) :
    config.resolveText path = Tree.onListed Run.scriptExtensions
      (Run.onContent (resolveAliases config.table config.addExtensions)) path := by
  have hidle : ∀ table : AliasTable, table.isEmpty → Tree.onListed Run.scriptExtensions
      (Run.onContent (resolveAliases table config.addExtensions)) path = id := by
    intro table hempty
    have hid : Run.onContent (resolveAliases table config.addExtensions) = id := by
      funext text
      rw [Run.onContent, AliasTable.resolveAliases_of_isEmpty hempty]
      exact String.ofList_toList
    rw [hid, Tree.onListed, ite_self]
  unfold resolveText table
  cases config.aliases with
  | none => exact (hidle .empty rfl).symm
  | some table =>
    by_cases hempty : table.isEmpty
    · simp only [hempty, if_true]
      exact (hidle table hempty).symm
    · simp only [hempty]
      rfl

/-- **What both passes make of a well quoted script**, neither changes. -/
theorem settled_text (hextend : config.addExtensions)
    (htable : ∀ a ∈ config.table.entries, a.PointsInside)
    (hquoted : Tree.hasListedExtension Run.scriptExtensions path → WellQuoted text.toList) :
    let final := config.resolveText path (config.extendText path text)
    config.extendText path final = final ∧ config.resolveText path final = final := by
  intro final
  simp only [final, resolveText_eq, extendText, hextend, if_true, Tree.onListed]
  split
  · rename_i hlisted
    obtain ⟨hextended, hresolved⟩ := (hquoted hlisted).both_stable htable
    simp only [Run.onContent, String.toList_ofList, hextended, hresolved]
    exact ⟨rfl, rfl⟩
  · exact ⟨rfl, rfl⟩

end Config

namespace Run

variable {w w' : World} {config : Config} {report : Report} {dir : Path}

/-- A marker is no script. -/
theorem not_hasListedExtension_marker (dir : Path) :
    ¬ Tree.hasListedExtension scriptExtensions (dir.under ["package.json"]) := fun hlisted =>
  not_isScript_markerPlace [] dir (isScript_place (hasListedExtension_esm hlisted))

section Runs

variable (hs : w.disk.Sound) (hplain : ∀ o ∈ config.outputs, o.2.IsPlain)
  (hapart : config.outputs.Pairwise fun o p => Path.Apart o.2 p.2)
  (hcopies : config.copyFiles = none) (hok : run config w = .ok report w')
include hs hplain hapart hcopies hok

/-- A text below an output directory has gone through both passes. It was
there before, or is that of the marker. -/
theorem exists_text_of_run (hdir : dir ∈ config.outputDirs) {names : List String}
    {content : ByteArray} {text : String}
    (hget : w'.disk.get? (dir.place w'.disk.cwd ++ names) = some (.file content))
    (hdecoded : String.fromUTF8? content = some text) :
    ∃ old : String, text = config.resolveText (dir.under names)
        (config.extendText (dir.under names) old) ∧
      (names = ["package.json"] ∨ w.disk.files dir names = some old.toUTF8) := by
  obtain ⟨kind, ho⟩ : ∃ kind, (kind, dir) ∈ config.outputs := by
    obtain ⟨o, ho, rfl⟩ := List.mem_map.1 hdir
    exact ⟨o.1, ho⟩
  have hdirPlain : dir.IsPlain := hplain (kind, dir) ho
  have hfile : w'.disk.files dir names = some content := by
    rw [hdirPlain.place_eq] at hget
    exact fileAt_eq_some_iff.2 hget
  have hfinal : config.finalText kind (dir.under names) =
      config.resolveText (dir.under names) ∘ config.extendText (dir.under names) := by
    simp [Config.finalText, Config.fixText, hcopies]
  have htreats := run_treats hs hplain hapart (fun policy h => by simp [hcopies] at h) hok
  -- the bytes that the passes began with
  have hwithin : w'.disk.files dir names = (Treatment.marking kind dir (w.disk.files dir) names).map
      (rewriteBytes (config.finalText kind (dir.under names))) := by
    rw [htreats.within (kind, dir) ho]
    simp only [Treatment.rewriting, Config.copiedFiles, hcopies, Option.bind_none, Option.none_or]
  rw [hfile, hfinal] at hwithin
  obtain ⟨bytes, hbefore, hafter⟩ := Option.map_eq_some_iff.1 hwithin.symm
  cases hbytes : String.fromUTF8? bytes with
  | none =>
    rw [rewriteBytes, hbytes] at hafter
    obtain rfl : bytes = content := hafter
    rw [hbytes] at hdecoded
    cases hdecoded
  | some old =>
    rw [rewriteBytes, hbytes] at hafter
    rw [← hafter, fromUTF8?_toUTF8, Option.some.injEq] at hdecoded
    refine ⟨old, hdecoded.symm, ?_⟩
    rw [Treatment.marking] at hbefore
    split at hbefore
    · exact .inl ‹_›
    · exact .inr (by rw [hbefore, toUTF8_of_fromUTF8? hbytes])

/-- **Runs that settle.** Without copies, with output directories apart from
each other, a run that writes out extensions and resolves aliases that point
inside leaves nothing to do for either pass, if the scripts below the output
directories are well quoted. -/
theorem settled_of_wellQuoted (hextend : config.addExtensions)
    (htable : ∀ a ∈ config.table.entries, a.PointsInside)
    (hquoted : ∀ dir ∈ config.outputDirs, ∀ (names : List String) (text : String),
      w.disk.files dir names = some text.toUTF8 →
        Tree.hasListedExtension scriptExtensions (dir.under names) → WellQuoted text.toList) :
    config.Settled w'.disk := by
  have hboth : ∀ dir ∈ config.outputDirs, ∀ names content text,
      w'.disk.get? (dir.place w'.disk.cwd ++ names) = some (.file content) →
        String.fromUTF8? content = some text →
          config.extendText (dir.under names) text = text ∧
            config.resolveText (dir.under names) text = text := by
    intro dir hdir names content text hget hdecoded
    obtain ⟨old, rfl, hold⟩ := exists_text_of_run hs hplain hapart hcopies hok hdir hget hdecoded
    refine Config.settled_text hextend htable fun hlisted => ?_
    rcases hold with rfl | hold
    · exact absurd hlisted (not_hasListedExtension_marker dir)
    · exact hquoted dir hdir names old hold hlisted
  constructor
  · intro dir hdir names content text hget hdecoded
    exact (hboth dir hdir names content text hget hdecoded).1
  · intro dir hdir names content text hget hdecoded
    exact (hboth dir hdir names content text hget hdecoded).2

end Runs

end Run

end DualPackage
