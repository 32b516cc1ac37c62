import DualPackage.Proofs.Disk.Agree
import DualPackage.Proofs.Run.Carried
import DualPackage.Proofs.Run.Markers
import DualPackage.Proofs.Tree.Fixed
/-!
# Runs done again

A run without copies that has succeeded succeeds again on the disk that it
left, and writes the same markers (`run_again`). The second run counts no
file and leaves the disk as it is if and only if the passes leave every
script of the output trees as it is (`Config.Settled`). A run does not
always lead there: an alias may lead to what another one catches, and a
specifier may come to be read as one only once another has its extension
(`run_again_unsettled`).
-/

namespace DualPackage

open Disk

/-- Every text below the directories is one that the function leaves as it
is. It is given the path of the file, as a walk spells it. -/
def Disk.FixedBelow (d : Disk) (dirs : List Path) (f : Path → String → String) : Prop :=
  ∀ dir ∈ dirs, ∀ names content text, d.get? (dir.place d.cwd ++ names) = some (.file content) →
    String.fromUTF8? content = some text → f (dir.under names) text = text

theorem Disk.fixedBelow_id (d : Disk) (dirs : List Path) : d.FixedBelow dirs fun _ => id :=
  fun _ _ _ _ _ _ _ => rfl

/-- Both passes leave all scripts of the output trees as they are. -/
structure Config.Settled (config : Config) (d : Disk) : Prop where
  extended : d.FixedBelow config.outputDirs config.extendText
  resolved : d.FixedBelow config.outputDirs config.resolveText

namespace Run

variable {w w₁ w' e : World} {config : Config} {report : Report} {kind : ModuleKind} {dir path : Path}
  {o : ModuleKind × Path} {outputs : List (ModuleKind × Path)} {paths dirs : List Path}
  {made written : Location → Prop} {cwd l : Location} {n : ℕ}
  {announce : ModuleKind → Event} {pass : List Char → Revision}

/-! ## Markers -/

/-- Writes the marker of one tree, and says so. -/
def mark (o : ModuleKind × Path) : Build Path := do
  Build.log (.creatingMarker o.1)
  Marker.write o.2 o.1

/-- Where the marker of the tree in `dir` is written. -/
def markerPlace (cwd : Location) (dir : Path) : Location :=
  (dir.join Marker.fileName).place cwd

theorem markerPlace_eq (cwd : Location) (dir : Path) :
    markerPlace cwd dir = dir.place cwd ++ ["package.json"] := by
  have hname : ∀ n ∈ ["package.json"], Path.IsName n := by decide
  have hplace : (dir.under ["package.json"]).place cwd = dir.place cwd ++ ["package.json"] :=
    Path.place_under hname
  exact hplace

theorem not_isScript_markerPlace (cwd : Location) (dir : Path) : ¬ IsScript (markerPlace cwd dir) := by
  rw [markerPlace_eq, isScript_append (by simp), IsScript]
  decide +kernel

/-- A marker is written where it belongs, and directories are made for it. -/
theorem mark_grows (hwritten : written (markerPlace cwd o.2)) :
    ((Contract.growing anywhere written cwd).along World.disk).Keeps (mark o) :=
  marker_keeps (Contract.keeps_createDirAll fun _ _ => Contract.growing_makeDir trivial)
    fun content => Contract.growing_writeFile hwritten content

/-- The directory is made, and then the file is written. -/
theorem mark_ok (hs : w.disk.Sound) (hok : mark o w = .ok path w₁) :
    path = o.2.join Marker.fileName ∧ ∃ d : Disk, DiskM.createDirAll o.2 w.disk = .ok () d ∧
      d.Sound ∧ d.cwd = w.disk.cwd ∧
      d.writeFile path (Marker.content o.1).toUTF8 = .ok w₁.disk := by
  obtain ⟨⟨⟩, w₂, hlog, hok⟩ := Outcome.bind_ok hok
  obtain ⟨⟨⟩, w₃, hmake, hok⟩ := Outcome.bind_ok hok
  obtain ⟨⟨⟩, w₄, hwrite, hok⟩ := Outcome.bind_ok hok
  obtain ⟨rfl, rfl⟩ := Outcome.pure_ok hok
  have hcreated := Build.onDisk_ok hmake
  rw [Build.log_ok hlog] at hcreated
  have hkeeps : (Contract.growing anywhere anywhere w.disk.cwd).Keeps (DiskM.createDirAll o.2) :=
    Contract.keeps_createDirAll fun _ _ => Contract.growing_makeDir trivial
  obtain ⟨⟨hsound, hcwd⟩, -⟩ := hkeeps.step ⟨hs, rfl⟩ hcreated
  exact ⟨rfl, w₃.disk, hcreated, hsound, hcwd, Build.update_ok hwrite⟩

/-- A marker that has been written stands in its place. -/
theorem get?_markerPlace_of_mark (hs : w.disk.Sound) (hok : mark o w = .ok path w₁) :
    w₁.disk.get? (markerPlace w.disk.cwd o.2) = some (.file (Marker.content o.1).toUTF8) := by
  obtain ⟨rfl, d, -, hsound, hcwd, hwrite⟩ := mark_ok hs hok
  rw [markerPlace, ← hcwd]
  exact (writeFile_sets hsound hwrite).1.here

/-- **A marker is written again** in the same place. -/
theorem mark_again (hs : w.disk.Sound) (hok : mark o w = .ok path w₁)
    (hgrows : w₁.disk.Grows made written e.disk) (hse : e.disk.Sound) :
    ∃ e', mark o e = .ok path e' ∧
      e'.disk = e.disk.set (markerPlace e.disk.cwd o.2) (.file (Marker.content o.1).toUTF8) := by
  obtain ⟨rfl, d, hcreated, hsound, -, hwrite⟩ := mark_ok hs hok
  obtain ⟨loc, -, hfirst, -⟩ := writeFile_grows hwrite
  have hsince : d.Grows anywhere anywhere e.disk :=
    (hfirst.mono (fun _ _ => trivial) fun _ _ => trivial).trans
      (hgrows.mono (fun _ _ => trivial) fun _ _ => trivial)
  have hmake := DiskM.createDirAll_again hs hcreated hsound hsince hse
  have hwriteAgain : e.disk.writeFile _ (Marker.content o.1).toUTF8 = _ :=
    hgrows.writeFile_again hsound hwrite
  refine ⟨⟨e.disk.set (markerPlace e.disk.cwd o.2) (.file (Marker.content o.1).toUTF8),
    e.log ++ [.creatingMarker o.1]⟩, ?_, rfl⟩
  have hlog : Build.log (.creatingMarker o.1) e =
      .ok () { e with log := e.log ++ [.creatingMarker o.1] } := rfl
  simp only [mark, Marker.write, bind, EStateM.bind, hlog, Build.onDisk, DiskM.update, hmake,
    hwriteAgain]
  rfl

theorem mapM_mark_grows (hwritten : ∀ o ∈ outputs, written (markerPlace cwd o.2)) :
    ((Contract.growing anywhere written cwd).along World.disk).Keeps (outputs.mapM mark) :=
  .mapM fun o ho => mark_grows (hwritten o ho)

/-- **The markers are written again**, by induction on the trees. Where one
belongs there stands in the end what stood there after the first time: if
it is the place of several, this is the last of them. -/
theorem mapM_mark_again (hs : w.disk.Sound) (hok : outputs.mapM mark w = .ok paths w₁)
    (hgrows : w₁.disk.Grows anywhere anywhere e.disk) (hse : e.disk.Sound) :
    ∃ e', outputs.mapM mark e = .ok paths e' ∧ e'.disk.Sound ∧ e'.disk.cwd = e.disk.cwd ∧
      (∀ l ∈ outputs.map fun o => markerPlace w.disk.cwd o.2, e'.disk.get? l = w₁.disk.get? l) ∧
      ∀ l ∉ outputs.map fun o => markerPlace w.disk.cwd o.2, e'.disk.get? l = e.disk.get? l := by
  induction outputs generalizing w e paths with
  | nil =>
    obtain ⟨rfl, rfl⟩ := Outcome.pure_ok hok
    exact ⟨e, rfl, hse, rfl, by simp, fun _ _ => rfl⟩
  | cons o outputs ih =>
    obtain ⟨path, w₂, rest, hone, hrest, rfl⟩ := Outcome.mapM_cons_ok hok
    let places := outputs.map fun p => markerPlace w.disk.cwd p.2
    -- the first time: this marker, and then the others
    have hkeeps : ((Contract.growing anywhere anywhere w.disk.cwd).along World.disk).Keeps (mark o) :=
      mark_grows trivial
    have hkeepsRest : ((Contract.growing anywhere (· ∈ places) w.disk.cwd).along World.disk).Keeps
        (outputs.mapM mark) :=
      mapM_mark_grows fun p hp => List.mem_map_of_mem hp
    obtain ⟨⟨hs₂, hcwd₂⟩, -⟩ := hkeeps.step ⟨hs, rfl⟩ hone
    obtain ⟨⟨-, hcwd₁⟩, hothers⟩ := hkeepsRest.step ⟨hs₂, hcwd₂⟩ hrest
    have hhere := get?_markerPlace_of_mark hs hone
    have hcwd : e.disk.cwd = w.disk.cwd := hgrows.cwd.trans hcwd₁
    -- and the second time
    have hsince : w₂.disk.Grows anywhere anywhere e.disk :=
      (hothers.mono (fun _ _ => trivial) fun _ _ => trivial).trans hgrows
    obtain ⟨e₂, honeAgain, hset⟩ := mark_again hs hone hsince hse
    obtain ⟨⟨hse₂, -⟩, hgrowsHere⟩ := hkeeps.step ⟨hse, hcwd⟩ honeAgain
    obtain ⟨e', hrestAgain, hse', hcwd', hplaces, helsewhere⟩ :=
      ih hs₂ hrest (hgrows.trans hgrowsHere) hse₂
    rw [hcwd₂] at hplaces helsewhere
    rw [hcwd] at hset
    refine ⟨e', ?_, hse', hcwd'.trans hgrowsHere.cwd, fun l hl => ?_, fun l hl => ?_⟩
    · rw [List.mapM_cons]
      simp only [bind, EStateM.bind, honeAgain, hrestAgain]
      rfl
    · by_cases hlater : l ∈ places
      · exact hplaces l hlater
      · rw [helsewhere l hlater, hset]
        obtain rfl := (List.mem_cons.1 hl).resolve_right hlater
        have hne : markerPlace w.disk.cwd o.2 ≠ [] := by simp [markerPlace_eq]
        rw [get?_set_self hne, hothers.of_unwritten hlater hhere]
    · obtain ⟨hne, hlater⟩ := not_or.1 (mt List.mem_cons.2 hl)
      rw [helsewhere l hlater, hset, get?_set_ne hne]

/-- **The markers are there already** on a disk where only scripts have been
written over since. -/
theorem writeMarkers_again (hs : w.disk.Sound) (hok : writeMarkers config w = .ok paths w₁)
    (hretouched : w₁.disk.Retouched IsScript e.disk) (hse : e.disk.Sound) :
    ∃ e', writeMarkers config e = .ok paths e' ∧ e'.disk = e.disk := by
  obtain ⟨e', hagain, hse', hcwd, hplaces, helsewhere⟩ := mapM_mark_again hs hok
    (hretouched.mono fun _ _ => trivial).grows hse
  refine ⟨e', hagain, hse.wellFormed.eq_of_get? hse'.wellFormed hcwd fun l => ?_⟩
  by_cases hl : l ∈ config.outputs.map fun o => markerPlace w.disk.cwd o.2
  · obtain ⟨o, -, rfl⟩ := List.mem_map.1 hl
    rw [hplaces _ hl]
    exact ((hretouched.change _).resolve_right fun hscript =>
      not_isScript_markerPlace _ _ hscript.1).symm
  · exact helsewhere l hl

/-! ## Passes -/

/-- The passes write to scripts only. -/
theorem retouching_rewritable (cwd : Location) (dirs : List Path) :
    Rewritable (Contract.retouching IsScript cwd) (fun _ => True) dirs where
  listed := fun _ _ _ _ _ => trivial
  passes _ _ _ _ hlisted f _ := Contract.rewriteFile_retouches (isScript_place hlisted) f

/-- What a pass over one tree comes to. -/
theorem rewrite_retouches (hpass : IsPass (onContent pass)) (cwd : Location) (dir : Path) :
    ((Contract.retouching IsScript cwd).along World.disk).Keeps
      (Tree.rewrite dir scriptExtensions (onContent pass)) :=
  have h := retouching_rewritable cwd [dir]
  Tree.rewrite_keeps h.listed fun names hnames hlisted =>
    h.passes dir (by simp) names hnames (hasListedExtension_esm hlisted) _ hpass

/-- And over all of them. -/
theorem rewriteScripts_retouches (hpass : IsPass (onContent pass)) (cwd : Location) :
    ((Contract.retouching IsScript cwd).along World.disk).Keeps
      (rewriteScripts announce pass outputs) :=
  rewriteScripts_keeps (retouching_rewritable cwd (outputs.map (·.2))) hpass fun _ ho =>
    List.mem_map_of_mem ho

/-- The scripts of the trees can be read. -/
def ReadableScripts (outputs : List (ModuleKind × Path)) (d : Disk) : Prop :=
  ∀ o ∈ outputs, Tree.Readable scriptExtensions o.2 d

theorem ReadableScripts.retouched {d d' : Disk} (h : ReadableScripts outputs d) (hs : d.Sound)
    (hretouched : d.Retouched written d') (hs' : d'.Sound) : ReadableScripts outputs d' :=
  fun o ho => (h o ho).retouched hs hretouched hs'

/-- A pass that has succeeded leaves scripts that can be read. -/
theorem readable_of_rewriteScripts (hpass : IsPass (onContent pass)) (hs : w.disk.Sound)
    (hok : rewriteScripts announce pass outputs w = .ok n w') : ReadableScripts outputs w'.disk := by
  induction outputs generalizing w n with
  | nil => intro o ho; cases ho
  | cons o outputs ih =>
    obtain ⟨⟨⟩, w₁, hlog, hok⟩ := Outcome.bind_ok hok
    obtain ⟨here, w₂, hrewrite, hok⟩ := Outcome.bind_ok hok
    obtain ⟨there, w₃, hrest, hok⟩ := Outcome.bind_ok hok
    obtain ⟨-, rfl⟩ := Outcome.pure_ok hok
    have hs₁ : w₁.disk.Sound := Build.log_ok hlog ▸ hs
    obtain ⟨⟨hs₂, -⟩, -⟩ := (rewrite_retouches hpass w₁.disk.cwd o.2).step ⟨hs₁, rfl⟩ hrewrite
    obtain ⟨⟨hs₃, -⟩, hretouched⟩ :=
      (rewriteScripts_retouches hpass w₂.disk.cwd).step ⟨hs₂, rfl⟩ hrest
    refine List.forall_mem_cons.2 ⟨?_, ih hs₂ hrest⟩
    exact (Tree.readable_of_rewrite hs₁ hrewrite).retouched hs₂ hretouched hs₃

/-- **A pass over scripts that can be read** succeeds. -/
theorem exists_rewriteScripts (hpass : IsPass (onContent pass)) (hs : w.disk.Sound)
    (h : ReadableScripts outputs w.disk) :
    ∃ n w', rewriteScripts announce pass outputs w = .ok n w' ∧
      Counts (w.disk.FixedBelow (outputs.map (·.2))
        (Tree.onListed scriptExtensions (onContent pass))) w.disk w'.disk n := by
  induction outputs generalizing w with
  | nil => exact ⟨0, w, rfl, .zero (by intro dir hdir; cases hdir)⟩
  | cons o outputs ih =>
    obtain ⟨hhere, hrest⟩ := List.forall_mem_cons.1 h
    let w₁ : World := ⟨w.disk, w.log ++ [announce o.1]⟩
    obtain ⟨m, w₂, hrewrite, hcounts⟩ := Tree.exists_rewrite (w := w₁) hs hhere (onContent pass)
    obtain ⟨⟨hs₂, -⟩, hretouched⟩ :=
      (rewrite_retouches hpass w.disk.cwd o.2).step (s := w₁) ⟨hs, rfl⟩ hrewrite
    obtain ⟨n, w', hothers, hcountsRest⟩ :=
      ih hs₂ (ReadableScripts.retouched hrest hs hretouched hs₂)
    refine ⟨m + n, w', ?_, ?_⟩
    · show (Tree.rewrite o.2 scriptExtensions (onContent pass) >>= fun here => _) w₁ = _
      simp only [bind, EStateM.bind, hrewrite, hothers]
      rfl
    · rw [List.map_cons, Disk.FixedBelow, List.forall_mem_cons]
      exact (hcounts.congr (hhere.fixed_iff hs)).add hcountsRest fun hdisk => by rw [hdisk]; rfl

/-! ## Stages -/

/-- A part of a run that has succeeded once succeeds on any disk where files
have been written over since. -/
def Repeatable (part : Build ℕ) (fixed : Disk → Prop) : Prop :=
  ∀ w n w', w.disk.Sound → part w = .ok n w' →
    ∀ e : World, e.disk.Sound → w'.disk.Retouched anywhere e.disk →
      ∃ m e', part e = .ok m e' ∧ Counts (fixed e.disk) e.disk e'.disk m

theorem repeatable_pure {fixed : Disk → Prop} (h : ∀ d, fixed d) :
    Repeatable (pure 0) fixed :=
  fun _ _ _ _ _ e _ _ => ⟨0, e, rfl, .zero (h e.disk)⟩

theorem repeatable_rewriteScripts (hpass : IsPass (onContent pass)) :
    Repeatable (rewriteScripts announce pass outputs) fun d =>
      d.FixedBelow (outputs.map (·.2)) (Tree.onListed scriptExtensions (onContent pass)) := by
  intro w n w' hs hok e hse hretouched
  obtain ⟨⟨hs', -⟩, -⟩ := (rewriteScripts_retouches hpass w.disk.cwd).step ⟨hs, rfl⟩ hok
  have hreadable := readable_of_rewriteScripts hpass hs hok
  exact exists_rewriteScripts hpass hse (hreadable.retouched hs' hretouched hse)

theorem repeatable_addExtensions (config : Config) :
    Repeatable (addExtensions config) fun d => d.FixedBelow config.outputDirs config.extendText := by
  unfold addExtensions Config.extendText
  split
  · exact repeatable_rewriteScripts .extend
  · exact repeatable_pure fun d => d.fixedBelow_id _

theorem repeatable_resolveAliases (config : Config) :
    Repeatable (resolveAliases config) fun d =>
      d.FixedBelow config.outputDirs config.resolveText := by
  unfold resolveAliases Config.resolveText
  cases config.aliases with
  | none => exact repeatable_pure fun d => d.fixedBelow_id _
  | some table =>
    by_cases hempty : table.isEmpty
    · simp only [hempty, if_true]
      exact repeatable_pure fun d => d.fixedBelow_id _
    · simp only [hempty]
      exact repeatable_rewriteScripts (.resolve _ _)

/-! ## Runs -/

/-- A run without copies goes through its other stages. -/
theorem run_eq_of_noCopies (hcopies : config.copyFiles = none) :
    run config = (do
      let markers ← writeMarkers config
      let extended ← addExtensions config
      let resolved ← resolveAliases config
      Build.log .finished
      pure { Report.empty with
        markers := markers, extensionFilesRewritten := extended, aliasFilesRewritten := resolved }) := by
  funext w
  simp only [run, copyAssets, hcopies, pure_bind]

/-- **A run without copies can be done again.** -/
theorem run_again (hformed : w.disk.WellFormed) (hfree : w.disk.LinkFree)
    (hcopies : config.copyFiles = none) (hok : run config w = .ok report w') :
    ∃ again w'', run config w' = .ok again w'' ∧
      again = { report with
        extensionFilesRewritten := again.extensionFilesRewritten
        aliasFilesRewritten := again.aliasFilesRewritten } ∧
      (again.extensionFilesRewritten = 0 ∧ again.aliasFilesRewritten = 0 ↔
        config.Settled w'.disk) ∧
      (config.Settled w'.disk → w''.disk = w'.disk) := by
  have hs : w.disk.Sound := ⟨hformed, hfree⟩
  rw [run_eq_of_noCopies hcopies] at hok ⊢
  obtain ⟨markers, w₁, hmarkers, hok⟩ := Outcome.bind_ok hok
  obtain ⟨extended, w₂, hextend, hok⟩ := Outcome.bind_ok hok
  obtain ⟨resolved, w₃, hresolve, hok⟩ := Outcome.bind_ok hok
  obtain ⟨⟨⟩, w₄, hlog, hok⟩ := Outcome.bind_ok hok
  obtain ⟨rfl, rfl⟩ := Outcome.pure_ok hok
  have hdisk := Build.log_ok hlog
  -- after the markers, the first run has written to scripts only
  have hmarking : ((Contract.growing anywhere anywhere w.disk.cwd).along World.disk).Keeps
      (writeMarkers config) :=
    mapM_mark_grows fun _ _ => trivial
  obtain ⟨⟨hs₁, -⟩, -⟩ := hmarking.step ⟨hs, rfl⟩ hmarkers
  have hrewritable := retouching_rewritable w₁.disk.cwd config.outputDirs
  obtain ⟨⟨hs₂, hcwd₂⟩, hextended⟩ := (addExtensions_keeps hrewritable).step ⟨hs₁, rfl⟩ hextend
  obtain ⟨⟨hs₃, hcwd₃⟩, hresolved⟩ := (resolveAliases_keeps hrewritable).step ⟨hs₂, hcwd₂⟩ hresolve
  have hretouched : w₁.disk.Retouched IsScript w₃.disk := hextended.trans hresolved
  -- so the markers of the second run are there already
  have hs' : w'.disk.Sound := hdisk ▸ hs₃
  obtain ⟨e₁, hmarkersAgain, he₁⟩ := writeMarkers_again hs hmarkers (hdisk ▸ hretouched) hs'
  rw [← he₁] at hdisk hs' ⊢
  -- and its passes find the scripts that the first run found
  obtain ⟨m, e₂, hextendAgain, hcounts⟩ := repeatable_addExtensions config w₁ extended w₂ hs₁
    hextend e₁ hs' (hdisk ▸ hresolved.mono fun _ _ => trivial)
  have hrewritable' := retouching_rewritable e₁.disk.cwd config.outputDirs
  obtain ⟨⟨hs₂', -⟩, hretouched'⟩ := (addExtensions_keeps hrewritable').step ⟨hs', rfl⟩ hextendAgain
  obtain ⟨k, e₃, hresolveAgain, hcounts'⟩ := repeatable_resolveAliases config w₂ resolved w₃ hs₂
    hresolve e₂ hs₂' (hdisk ▸ hretouched'.mono fun _ _ => trivial)
  have hboth := hcounts.add hcounts' fun hsame => by rw [hsame]
  have hiff : m = 0 ∧ k = 0 ↔ config.Settled e₁.disk := by
    rw [← Nat.add_eq_zero_iff, hboth.zero_iff]
    exact ⟨fun h => ⟨h.1, h.2⟩, fun h => ⟨h.extended, h.resolved⟩⟩
  let again : Report :=
    { Report.empty with
      markers := markers, extensionFilesRewritten := m, aliasFilesRewritten := k }
  refine ⟨again, ⟨e₃.disk, e₃.log ++ [.finished]⟩, ?_, rfl, hiff, fun hsettled => ?_⟩
  · simp only [bind, EStateM.bind, hmarkersAgain, hextendAgain, hresolveAgain]
    rfl
  · exact hboth.disk_eq (Nat.add_eq_zero_iff.2 (hiff.2 hsettled))

/-- The aliases of the sample are settled by one run. -/
theorem run_again_sample :
    let config := { sampleConfig with copyFiles := none, addExtensions := false }
    ∃ report w' again w'', run config ⟨sampleDisk, []⟩ = .ok report w' ∧
      report.aliasFilesRewritten = 1 ∧
      run config w' = .ok again w'' ∧
      again.extensionFilesRewritten = 0 ∧ again.aliasFilesRewritten = 0 ∧
      w''.disk = w'.disk := by
  intro config
  let markers : List Path := [⟨"/esm/package.json"⟩, ⟨"/cjs/package.json"⟩]
  have hfirst : Outcome.answer? (run config ⟨sampleDisk, []⟩) = some ⟨markers, 0, 0, 0, 0, 1⟩ := by
    decide +kernel
  have hsecond : Outcome.answer? (run config (Outcome.state (run config ⟨sampleDisk, []⟩))) =
      some ⟨markers, 0, 0, 0, 0, 0⟩ := by
    decide +kernel
  have hok := Outcome.ok_of_answer? hfirst
  have hsound : (World.mk sampleDisk []).disk.Sound := sound_sampleDisk
  obtain ⟨again, w'', hagain, -, hiff, hsettled⟩ :=
    run_again hsound.wellFormed hsound.linkFree rfl hok
  rw [hagain] at hsecond
  obtain rfl : again = ⟨markers, 0, 0, 0, 0, 0⟩ := Option.some.inj hsecond
  exact ⟨_, _, _, w'', hok, rfl, hagain, rfl, rfl, hsettled (hiff.1 ⟨rfl, rfl⟩)⟩

/-- A module with an alias that leads to what another one catches, and with a
specifier that hides the next one until it has its extension. -/
def unsettledDisk : Disk :=
  (Disk.mk [] []).set ["out"] .dir
    |>.set ["out", "m.js"]
      (.file "import x from 'a';export \x7bx\x7d from './a import b from 'import c from './y'".toUTF8)

def unsettledConfig : Config :=
  { Config.empty ⟨"/"⟩ with
    esmDir := some ⟨"/out"⟩
    addExtensions := true
    aliases := some (AliasTable.ofList [("a", "b.js"), ("b.js", "c.js")]) }

theorem sound_unsettledDisk : unsettledDisk.Sound := by
  have hout := Disk.sound_blank.set [] "out" .dir rfl (by decide) (by simp) (by decide)
  exact hout.set ["out"] "m.js" _ rfl (by decide) (by simp) (by decide +kernel)

/-- **Some runs change more the second time.** The configuration is accepted
and copies nothing, and both runs succeed. The second one resolves what the
first has resolved, and extends a specifier that the first has brought to
light. -/
theorem run_again_unsettled :
    unsettledDisk.Sound ∧
    Config.ofText unsettledDisk ⟨"/"⟩
        ("\x7b\"esmDir\": \"out\", \"addExtensions\": true, " ++
          "\"aliases\": \x7b\"a\": \"b.js\", \"b.js\": \"c.js\"\x7d\x7d")
        Config.fileName = .ok unsettledConfig ∧
    unsettledConfig.copyFiles = none ∧
    ∃ report w' again w'', run unsettledConfig ⟨unsettledDisk, []⟩ = .ok report w' ∧
      run unsettledConfig w' = .ok again w'' ∧
      again.extensionFilesRewritten = 1 ∧ again.aliasFilesRewritten = 1 := by
  have hfirst : Outcome.answer? (run unsettledConfig ⟨unsettledDisk, []⟩) =
      some ⟨[⟨"/out/package.json"⟩], 0, 0, 0, 1, 1⟩ := by
    decide +kernel
  have hsecond : Outcome.answer?
      (run unsettledConfig (Outcome.state (run unsettledConfig ⟨unsettledDisk, []⟩))) =
        some ⟨[⟨"/out/package.json"⟩], 0, 0, 0, 1, 1⟩ := by
    decide +kernel
  exact ⟨sound_unsettledDisk, by decide +kernel, rfl, _, _, _, _, Outcome.ok_of_answer? hfirst,
    Outcome.ok_of_answer? hsecond, rfl, rfl⟩

end Run

end DualPackage
