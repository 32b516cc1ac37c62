import DualPackage.Proofs.Run.Copies
import DualPackage.Proofs.Run.Oblivious
import DualPackage.Proofs.Run.Outputs
import DualPackage.Proofs.Run.Trails
import DualPackage.Proofs.Tree.Course
/-!
# What each stage adds to the report

Reports add up: their markers come one after the other, and their counts
are added. Each stage of a run adds its share (`Run.shares`), and the report
of the run is the sum of them (`Run.leads_run_iff`).

A stage goes through its trees one after the other, so its share is in turn
the sum of what it adds for some of the trees and for the others. Told in
configurations, the trees of one kind are those of the configuration
without the other kind (`Run.leads_run_iff_trees`).
-/

namespace DualPackage

open Build

namespace Report

variable {r s : Report}

instance : Add Report where
  add r s := ⟨r.markers ++ s.markers, r.filesCopied + s.filesCopied,
    r.filesExcluded + s.filesExcluded, r.esmFilesAdjusted + s.esmFilesAdjusted,
    r.extensionFilesRewritten + s.extensionFilesRewritten,
    r.aliasFilesRewritten + s.aliasFilesRewritten⟩

theorem add_def (r s : Report) : r + s =
    ⟨r.markers ++ s.markers, r.filesCopied + s.filesCopied, r.filesExcluded + s.filesExcluded,
      r.esmFilesAdjusted + s.esmFilesAdjusted,
      r.extensionFilesRewritten + s.extensionFilesRewritten,
      r.aliasFilesRewritten + s.aliasFilesRewritten⟩ := rfl

instance : Zero Report := ⟨empty⟩

theorem zero_def : (0 : Report) = empty := rfl

instance : AddMonoid Report where
  add_assoc r s t := by simp only [add_def, List.append_assoc, Nat.add_assoc]
  zero_add r := by simp only [add_def, zero_def, empty, List.nil_append, Nat.zero_add]
  add_zero r := by simp only [add_def, zero_def, empty, List.append_nil, Nat.add_zero]
  nsmul := nsmulRec

/-- Only the order of the markers matters. -/
theorem add_comm_of_markers (h : r.markers = []) : r + s = s + r := by
  simp [add_def, h, Nat.add_comm]

end Report

namespace Config

/-- The configuration that leaves out the tree of a kind. -/
def without (config : Config) : ModuleKind → Config
  | .esm => { config with esmDir := none }
  | .cjs => { config with cjsDir := none }

variable (config : Config) (kind : ModuleKind)

@[simp] theorem copyFiles_without : (config.without kind).copyFiles = config.copyFiles := by
  cases kind <;> rfl

@[simp] theorem addExtensions_without :
    (config.without kind).addExtensions = config.addExtensions := by
  cases kind <;> rfl

@[simp] theorem aliases_without : (config.without kind).aliases = config.aliases := by
  cases kind <;> rfl

/-- The trees of the one kind come before those of the other. -/
theorem outputs_without :
    config.outputs = (config.without .cjs).outputs ++ (config.without .esm).outputs := by
  cases hesm : config.esmDir <;> cases hcjs : config.cjsDir <;>
    simp [outputs, without, outputDir?, ModuleKind.all, hesm, hcjs]

theorem outputDirs_without :
    config.outputDirs = (config.without .cjs).outputDirs ++ (config.without .esm).outputDirs := by
  rw [outputDirs, config.outputs_without, List.map_append]
  rfl

variable {config kind} in
theorem mem_outputDirs_of_without {dir : Path} (h : dir ∈ (config.without kind).outputDirs) :
    dir ∈ config.outputDirs := by
  rw [outputDirs_without]
  cases kind with
  | cjs => exact List.mem_append_left _ h
  | esm => exact List.mem_append_right _ h

end Config

namespace Run

variable {config : Config} {d d' : Disk} {r s : Report} {policy : CopyPolicy}
  {outputDirs : List Path} {first second : List (ModuleKind × Path)}
  {announce : ModuleKind → Event} {pass : List Char → Revision}

/-! ## Shares -/

section Shares

variable (config : Config)

/-- What the markers add to the report. -/
def markerShare : Build Report := do
  let paths ← writeMarkers config
  pure { Report.empty with markers := paths }

/-- What the pass that adds extensions adds to the report. -/
def extensionShare : Build Report := do
  let changed ← addExtensions config
  pure { Report.empty with extensionFilesRewritten := changed }

/-- What the pass that resolves aliases adds to the report. -/
def aliasShare : Build Report := do
  let changed ← resolveAliases config
  pure { Report.empty with aliasFilesRewritten := changed }

/-- What the stages of a run add to its report, one after the other. -/
def shares : List (Build Report) :=
  [markerShare config, copyAssets config .empty, extensionShare config, aliasShare config]

end Shares

theorem markerShare_oblivious : Oblivious (markerShare config) :=
  writeMarkers_oblivious.bind fun _ => .pure _

theorem extensionShare_oblivious : Oblivious (extensionShare config) :=
  addExtensions_oblivious.bind fun _ => .pure _

theorem aliasShare_oblivious : Oblivious (aliasShare config) :=
  resolveAliases_oblivious.bind fun _ => .pure _

/-- Copying adds to whatever report it begins with. -/
theorem copyInto_add (outputs : List (ModuleKind × Path)) :
    copyInto policy outputDirs outputs (r + s) = (do
      let t ← copyInto policy outputDirs outputs s
      pure (r + t)) := by
  induction outputs generalizing s with
  | nil => rw [copyInto, copyInto, pure_bind]
  | cons o outputs ih =>
    simp only [copyInto, bind_assoc, ← ih]
    refine bind_congr fun _ => bind_congr fun count => bind_congr fun adjusted => ?_
    congr 1
    simp only [Report.add_def, Nat.add_assoc]

theorem copyAssets_add : copyAssets config (r + s) = (do
    let t ← copyAssets config s
    pure (r + t)) := by
  unfold copyAssets
  split
  · rw [pure_bind]
  · exact copyInto_add _

/-- Copying counts what it copies and adjusts, and nothing else. -/
theorem copyInto_counts {outputs : List (ModuleKind × Path)} {w w' : World}
    (h : copyInto policy outputDirs outputs r w = .ok s w') :
    s.markers = r.markers ∧ s.extensionFilesRewritten = r.extensionFilesRewritten ∧
      s.aliasFilesRewritten = r.aliasFilesRewritten := by
  induction outputs generalizing r w with
  | nil =>
    obtain ⟨rfl, -⟩ := Outcome.pure_ok h
    exact ⟨rfl, rfl, rfl⟩
  | cons o outputs ih =>
    obtain ⟨⟨⟩, w₁, -, h⟩ := Outcome.bind_ok h
    obtain ⟨count, w₂, -, h⟩ := Outcome.bind_ok h
    obtain ⟨adjusted, w₃, -, h⟩ := Outcome.bind_ok h
    have hrest := ih h
    exact hrest

theorem copyAssets_counts (h : Leads (copyAssets config .empty) d r d') :
    r.markers = [] ∧ r.extensionFilesRewritten = 0 ∧ r.aliasFilesRewritten = 0 := by
  obtain ⟨w, w', -, hok, -⟩ := h
  cases hcopy : config.copyFiles with
  | none =>
    simp only [copyAssets, hcopy] at hok
    obtain ⟨rfl, -⟩ := Outcome.pure_ok hok
    exact ⟨rfl, rfl, rfl⟩
  | some policy =>
    simp only [copyAssets, hcopy] at hok
    exact copyInto_counts hok

/-- **The report of a run** is the sum of what its stages add. -/
theorem leads_run_iff : Leads (run config) d r d' ↔ Trail ((shares config).map Leads) d r d' := by
  have hcopy : ∀ paths, copyAssets config { Report.empty with markers := paths } = (do
      let t ← copyAssets config .empty
      pure ({ Report.empty with markers := paths } + t)) := by
    intro paths
    rw [← copyAssets_add]
    exact congrArg _ (add_zero _).symm
  constructor
  · rintro ⟨w, w', rfl, hok, rfl⟩
    obtain ⟨paths, w₁, hmarkers, hok⟩ := Outcome.bind_ok hok
    obtain ⟨report, w₂, hcopied, hok⟩ := Outcome.bind_ok hok
    obtain ⟨extended, w₃, hextend, hok⟩ := Outcome.bind_ok hok
    obtain ⟨resolved, w₄, hresolve, hok⟩ := Outcome.bind_ok hok
    obtain ⟨⟨⟩, w₅, hlog, hok⟩ := Outcome.bind_ok hok
    obtain ⟨rfl, rfl⟩ := Outcome.pure_ok hok
    rw [hcopy] at hcopied
    obtain ⟨t, ht, rfl⟩ := leads_bind_pure_iff.1 ⟨w₁, w₂, rfl, hcopied, rfl⟩
    obtain ⟨hnone, hextended, hresolved⟩ := copyAssets_counts ht
    refine ⟨_, w₁.disk, _, leads_bind_pure_iff.2 ⟨paths, ⟨w, w₁, rfl, hmarkers, rfl⟩, rfl⟩,
      ⟨t, w₂.disk, _, ht,
        ⟨_, w₃.disk, _, leads_bind_pure_iff.2 ⟨extended, ⟨w₂, w₃, rfl, hextend, rfl⟩, rfl⟩,
        ⟨_, w₄.disk, _, leads_bind_pure_iff.2 ⟨resolved, ⟨w₃, w₄, rfl, hresolve, rfl⟩, rfl⟩,
          ⟨rfl, Build.log_ok hlog⟩, rfl⟩, rfl⟩, rfl⟩, ?_⟩
    simp [Report.add_def, Report.zero_def, Report.empty, hnone, hextended, hresolved]
  · rintro ⟨_, d₁, _, hfirst, ⟨t, d₂, _, hsecond, ⟨_, d₃, _, hthird, ⟨_, d₄, _, hfourth,
      ⟨rfl, rfl⟩, rfl⟩, rfl⟩, rfl⟩, rfl⟩
    obtain ⟨hnone, hextended, hresolved⟩ := copyAssets_counts hsecond
    obtain ⟨paths, ⟨w, w₁, rfl, hmarkers, rfl⟩, rfl⟩ := leads_bind_pure_iff.1 hfirst
    obtain ⟨extended, hthird, rfl⟩ := leads_bind_pure_iff.1 hthird
    obtain ⟨resolved, hfourth, rfl⟩ := leads_bind_pure_iff.1 hfourth
    have hassets : Leads (copyAssets config { Report.empty with markers := paths }) w₁.disk
        ({ Report.empty with markers := paths } + t) d₂ := by
      rw [hcopy]
      exact leads_bind_pure_iff.2 ⟨t, hsecond, rfl⟩
    obtain ⟨w₂, hcopied, rfl⟩ := copyAssets_oblivious.leads_iff.1 hassets
    obtain ⟨w₃, hextend, rfl⟩ := addExtensions_oblivious.leads_iff.1 (by assumption)
    obtain ⟨w₄, hresolve, rfl⟩ := resolveAliases_oblivious.leads_iff.1 (by assumption)
    refine ⟨w, { w₄ with log := w₄.log ++ [.finished] }, rfl, ?_, rfl⟩
    simp only [run, bind, EStateM.bind, hmarkers, hcopied, hextend, hresolve]
    simp [Report.add_def, Report.zero_def, Report.empty, hnone, hextended, hresolved]
    rfl

/-! ## Shares of the trees -/

theorem leads_of_sum {x y z : Build Report} (hz : Oblivious z)
    (h : x = do
      let a ← y
      let b ← z
      pure (a + b)) : Leads x d r d' ↔ Trail [Leads y, Leads z] d r d' := by
  rw [h, leads_bind_iff fun _ => hz.bind fun _ => .pure _, trail_pair]
  simp only [leads_bind_pure_iff, exists_and_left]

theorem rewriteScripts_append : rewriteScripts announce pass (first ++ second) = (do
    let here ← rewriteScripts announce pass first
    let there ← rewriteScripts announce pass second
    pure (here + there)) := by
  induction first with
  | nil => simp only [List.nil_append, rewriteScripts, pure_bind, Nat.zero_add, bind_pure]
  | cons o first ih =>
    rw [List.cons_append]
    simp only [rewriteScripts, ih, bind_assoc, pure_bind, Nat.add_assoc]

theorem copyInto_append : copyInto policy outputDirs (first ++ second) r = (do
    let t ← copyInto policy outputDirs first r
    copyInto policy outputDirs second t) := by
  induction first generalizing r with
  | nil => simp [copyInto]
  | cons o first ih => simp [copyInto, ih]

theorem leads_markerShare : Leads (markerShare config) d r d' ↔
    Trail [Leads (markerShare (config.without .cjs)), Leads (markerShare (config.without .esm))]
      d r d' := by
  refine leads_of_sum markerShare_oblivious ?_
  simp only [markerShare, writeMarkers, bind_assoc, pure_bind]
  rw [config.outputs_without, List.mapM_append]
  simp only [bind_assoc, pure_bind, Report.add_def, Report.empty, Nat.add_zero]

theorem leads_extensionShare : Leads (extensionShare config) d r d' ↔
    Trail [Leads (extensionShare (config.without .cjs)),
      Leads (extensionShare (config.without .esm))] d r d' := by
  refine leads_of_sum extensionShare_oblivious ?_
  simp only [extensionShare, addExtensions, Config.addExtensions_without, bind_assoc, pure_bind]
  rw [config.outputs_without]
  split
  · simp only [rewriteScripts_append, bind_assoc, pure_bind, Report.add_def, Report.empty,
      Nat.add_zero, List.append_nil]
  · rfl

theorem leads_aliasShare : Leads (aliasShare config) d r d' ↔
    Trail [Leads (aliasShare (config.without .cjs)), Leads (aliasShare (config.without .esm))]
      d r d' := by
  refine leads_of_sum aliasShare_oblivious ?_
  simp only [aliasShare, resolveAliases, Config.addExtensions_without, Config.aliases_without,
    bind_assoc, pure_bind]
  rw [config.outputs_without]
  split
  · rfl
  · split
    · rfl
    · simp only [rewriteScripts_append, bind_assoc, pure_bind, Report.add_def, Report.empty,
        Nat.add_zero, List.append_nil]

section Assets

variable {outputDirs' : List Path} {outputs : List (ModuleKind × Path)}

/-- A copy into some of the trees leaves out what a copy into all of them
does, where its source is apart from all. -/
theorem copyInto_outputs_congr {w : World} (hs : w.disk.Sound) (hsource : policy.source.IsPlain)
    (hplain : ∀ p ∈ outputDirs ++ outputDirs', p.IsPlain)
    (hapart : ∀ p ∈ outputDirs ++ outputDirs', Path.Apart policy.source p)
    (houtputs : ∀ o ∈ outputs, o.2 ∈ outputDirs') :
    copyInto policy outputDirs' outputs r w = copyInto policy outputDirs outputs r w := by
  induction outputs generalizing r w with
  | nil => rfl
  | cons o outputs ih =>
    obtain ⟨hhere, houtputs⟩ := List.forall_mem_cons.1 houtputs
    have hmem : o.2 ∈ outputDirs ++ outputDirs' := List.mem_append_right _ hhere
    refine Tree.bind_congr rfl fun _ w₁ hlog => ?_
    rw [← Build.log_ok hlog] at hs
    have hcopy := Tree.copy_outputs_congr hs hsource (hplain _ hmem) (hapart _ hmem) hplain hapart
    refine Tree.bind_congr hcopy fun count w₂ hcopied => ?_
    obtain ⟨hs₂, -⟩ := (copy_growing w₁.disk.cwd).step ⟨hs, rfl⟩ hcopied
    refine Tree.bind_congr rfl fun adjusted w₃ hadjusted => ?_
    obtain ⟨hs₃, -⟩ := (adjustTree_growing w₁.disk.cwd).step hs₂ hadjusted
    exact ih hs₃.1 houtputs

theorem leads_copyAssets (hs : d.Sound) (hplain : ∀ p ∈ config.workDirs, p.IsPlain)
    (hapart : config.workDirs.Pairwise Path.Apart) :
    Leads (copyAssets config .empty) d r d' ↔
      Trail [Leads (copyAssets (config.without .cjs) .empty),
        Leads (copyAssets (config.without .esm) .empty)] d r d' := by
  cases hpolicy : config.copyFiles with
  | none =>
    simp only [copyAssets, Config.copyFiles_without, hpolicy]
    exact leads_of_sum (.pure _) rfl
  | some policy =>
    simp only [copyAssets, Config.copyFiles_without, hpolicy]
    have hsum : Leads (copyInto policy config.outputDirs config.outputs .empty) d r d' ↔
        Trail [Leads (copyInto policy config.outputDirs (config.without .cjs).outputs .empty),
          Leads (copyInto policy config.outputDirs (config.without .esm).outputs .empty)]
            d r d' := by
      refine leads_of_sum copyInto_oblivious ?_
      conv_lhs => rw [config.outputs_without, copyInto_append]
      refine bind_congr fun t => ?_
      rw [← copyInto_add]
      exact congrArg _ (add_zero t).symm
    -- each of the two walks would leave out what the other directory is, and never meets it
    have hmem : policy.source ∈ config.workDirs := by simp [Config.workDirs, hpolicy]
    have hapartSource : ∀ dir ∈ config.outputDirs, Path.Apart policy.source dir := by
      intro dir hdir
      refine Path.Apart.symm ((List.pairwise_append.1 hapart).2.2 dir hdir _ ?_)
      simp [hpolicy]
    have halone : ∀ {e : Disk} {kind : ModuleKind} {t : Report} {e' : Disk}, e.Sound →
        (Leads (copyInto policy config.outputDirs (config.without kind).outputs .empty) e t e' ↔
          Leads (copyInto policy (config.without kind).outputDirs (config.without kind).outputs
            .empty) e t e') := by
      intro e kind t e' he
      have hdirs : ∀ dir ∈ (config.without kind).outputDirs ++ config.outputDirs,
          dir ∈ config.outputDirs :=
        List.forall_mem_append.2 ⟨fun dir => Config.mem_outputDirs_of_without, fun dir => id⟩
      exact leads_congr fun w hw => copyInto_outputs_congr (hw ▸ he) (hplain _ hmem)
        (fun dir hdir => hplain dir (List.mem_append_left _ (hdirs dir hdir)))
        (fun dir hdir => hapartSource dir (hdirs dir hdir))
        fun o ho => Config.mem_outputDirs_of_without (mem_outputDirs ho)
    rw [hsum, trail_pair, trail_pair]
    refine exists_congr fun a => exists_congr fun d₁ => exists_congr fun b => ?_
    rw [halone hs]
    refine and_congr_right fun hfirst => and_congr_left fun _ => halone ?_
    obtain ⟨w, w₁, rfl, hok, rfl⟩ := hfirst
    have hkeeps : ((Contract.growing Disk.anywhere Disk.anywhere w.disk.cwd).along World.disk).Keeps
        (copyInto policy (config.without .cjs).outputDirs (config.without .cjs).outputs .empty) :=
      copyInto_keeps (C := Contract.growing Disk.anywhere Disk.anywhere w.disk.cwd)
        (fun e he _ _ => he.1.isName_of_mem_children)
        (fun dir _ => Contract.growing_anywhere_admits w.disk.cwd dir) fun _ => mem_outputDirs
    exact (hkeeps.step ⟨hs, rfl⟩ hok).1.1

end Assets

end Run

end DualPackage
