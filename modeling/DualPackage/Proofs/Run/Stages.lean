import DualPackage.Proofs.Tree.Effects
import DualPackage.Run.Stages
/-!
# What the stages of a run keep to

Each stage works in the output trees only, so a contract about disks is
kept by a whole run if it allows what can be done in an output tree
(`run_keeps`). The passes over the texts of a tree ask for less: they write
to files that are listed there, and only if the text changes
(`Rewritable`). How a run is put together from its parts is told of
contracts about worlds, which say something of the log too (`Works.run`).
-/

namespace DualPackage

namespace Contract

/-- The contract allows what a run does to the output tree in `dir`. -/
structure Admits (C : Contract Disk) (dir : Path) : Prop where
  tree : C.Keeps (DiskM.createDirAll dir)
  dirs : ∀ names, (∀ n ∈ names, Path.IsName n) →
    C.Keeps (DiskM.createDirAll (dir.join ⟨"/".intercalate names⟩))
  copies : ∀ names, (∀ n ∈ names, Path.IsName n) → ∀ source,
    C.Allows (·.copyFile source (dir.join ⟨"/".intercalate names⟩))
  writes : ∀ names, (∀ n ∈ names, Path.IsName n) → ∀ content,
    C.Allows (·.writeFile (dir.under names) content)

/-- That the disk stays sound is kept to in any directory. -/
theorem growing_anywhere_admits (cwd : Location) (dir : Path) :
    (growing Disk.anywhere Disk.anywhere cwd).Admits dir where
  tree := keeps_createDirAll fun _ _ => growing_makeDir trivial
  dirs _ _ := keeps_createDirAll fun _ _ => growing_makeDir trivial
  copies _ _ _ := growing_copyFile trivial
  writes _ _ := growing_writeFile trivial

end Contract

namespace Run

/-- The functions on file contents that a run goes through its trees with. -/
inductive IsPass : (String → String) → Prop where
  | adjust : IsPass (onContent EsmSource.adjust)
  | extend : IsPass (onContent appendExtensions)
  | resolve (table : AliasTable) (append : Bool) :
      IsPass (onContent (DualPackage.resolveAliases table append))

/-- The contract allows the passes to go through the trees in some
directories. `N` is what holds of the names in every listing. -/
structure Rewritable (C : Contract Disk) (N : String → Prop) (dirs : List Path) : Prop where
  listed : ∀ d, C.inv d → ∀ dir, ∀ c ∈ d.children dir, N c.1
  passes : ∀ dir ∈ dirs, ∀ names, (∀ n ∈ names, N n) →
    Tree.hasListedExtension esmExtensions (dir.under names) → ∀ f, IsPass f →
      (C.along World.disk).Keeps (Tree.rewriteFile f (dir.under names))

variable {C : Contract Disk} {N : String → Prop} {config : Config} {dirs : List Path}
  {kind : ModuleKind} {dir : Path} {policy : CopyPolicy}

theorem hasListedExtension_esm {p : Path} (h : Tree.hasListedExtension scriptExtensions p) :
    Tree.hasListedExtension esmExtensions p := by
  unfold Tree.hasListedExtension at h ⊢
  cases hext : p.extension? with
  | none => simp [hext] at h
  | some e =>
    rw [hext] at h
    simp_all [scriptExtensions, esmExtensions]

theorem mem_outputDirs {o : ModuleKind × Path} (ho : o ∈ config.outputs) :
    o.2 ∈ config.outputDirs :=
  List.mem_map_of_mem ho

/-! ## Worlds -/

section Worlds

variable {D : Contract World} {outputs : List (ModuleKind × Path)}

/-- A contract about worlds, their logs included, allows what a run says of its
progress, and the passes through the trees in some directories. -/
structure Rewrites (D : Contract World) (dirs : List Path) : Prop where
  log : ∀ event, event.isWarning = false → D.Keeps (Build.log event)
  rewrite : ∀ dir ∈ dirs, ∀ extensions f, IsPass f →
    (∀ p, Tree.hasListedExtension extensions p → Tree.hasListedExtension esmExtensions p) →
      D.Keeps (Tree.rewrite dir extensions f)

/-- It allows markers and copies in these directories as well. -/
structure Works (D : Contract World) (dirs : List Path) : Prop extends Rewrites D dirs where
  marker : ∀ dir ∈ dirs, ∀ kind, D.Keeps (Marker.write dir kind)
  copy : ∀ dir ∈ dirs, ∀ policy outputDirs, D.Keeps (Tree.copy policy dir outputDirs)

theorem Rewrites.adjustTree (h : Rewrites D dirs) (hdir : dir ∈ dirs) :
    D.Keeps (adjustTree kind dir) := by
  cases kind with
  | esm => exact (h.log .adjusting rfl).bind fun _ => h.rewrite dir hdir _ _ .adjust fun _ => id
  | cjs => exact .pure _

theorem Rewrites.rewriteScripts (h : Rewrites D dirs) {announce : ModuleKind → Event}
    (hannounce : ∀ kind, D.Keeps (Build.log (announce kind))) {pass : List Char → Revision}
    (hpass : IsPass (onContent pass)) (hdirs : ∀ o ∈ outputs, o.2 ∈ dirs) :
    D.Keeps (rewriteScripts announce pass outputs) := by
  induction outputs with
  | nil => exact .pure _
  | cons o outputs ih =>
    obtain ⟨hhere, hdirs⟩ := List.forall_mem_cons.1 hdirs
    exact (hannounce o.1).bind fun _ =>
      (h.rewrite o.2 hhere _ _ hpass fun _ => hasListedExtension_esm).bind fun _ =>
        (ih hdirs).bind fun _ => .pure _

theorem Rewrites.addExtensions (h : Rewrites D config.outputDirs) :
    D.Keeps (addExtensions config) := by
  unfold Run.addExtensions
  split
  · exact h.rewriteScripts (fun _ => h.log _ rfl) .extend fun _ => mem_outputDirs
  · exact .pure _

theorem Rewrites.resolveAliases (h : Rewrites D config.outputDirs) :
    D.Keeps (resolveAliases config) := by
  unfold Run.resolveAliases
  split
  · exact .pure _
  · split
    · exact .pure _
    · exact h.rewriteScripts (fun _ => h.log _ rfl) (.resolve _ _) fun _ => mem_outputDirs

theorem Works.writeMarkers (h : Works D config.outputDirs) : D.Keeps (writeMarkers config) :=
  .mapM fun o ho => (h.log (.creatingMarker o.1) rfl).bind fun _ =>
    h.marker o.2 (mem_outputDirs ho) o.1

theorem Works.copyInto (h : Works D dirs) {outputDirs : List Path}
    (hdirs : ∀ o ∈ outputs, o.2 ∈ dirs) {report : Report} :
    D.Keeps (copyInto policy outputDirs outputs report) := by
  induction outputs generalizing report with
  | nil => exact .pure _
  | cons o outputs ih =>
    obtain ⟨hhere, hdirs⟩ := List.forall_mem_cons.1 hdirs
    exact (h.log (.copying o.1) rfl).bind fun _ => (h.copy o.2 hhere _ _).bind fun _ =>
      (h.adjustTree hhere).bind fun _ => ih hdirs

theorem Works.copyAssets (h : Works D config.outputDirs) {report : Report} :
    D.Keeps (copyAssets config report) := by
  unfold Run.copyAssets
  split
  · exact .pure _
  · exact h.copyInto fun _ => mem_outputDirs

/-- **What its parts keep to, a run keeps to.** -/
theorem Works.run (h : Works D config.outputDirs) : D.Keeps (run config) :=
  h.writeMarkers.bind fun _ => h.copyAssets.bind fun _ => h.addExtensions.bind fun _ =>
    h.resolveAliases.bind fun _ => (h.log .finished rfl).bind fun _ => .pure _

end Worlds

/-! ## Disks -/

theorem Rewritable.rewrites (h : Rewritable C N dirs) : Rewrites (C.along World.disk) dirs where
  log event _ := .log event
  rewrite dir hdir _ f hpass hlisted := Tree.rewrite_keeps h.listed fun names hnames hscript =>
    h.passes dir hdir names hnames (hlisted _ hscript) f hpass

theorem adjustTree_keeps (h : Rewritable C N dirs) (hdir : dir ∈ dirs) :
    (C.along World.disk).Keeps (adjustTree kind dir) :=
  h.rewrites.adjustTree hdir

theorem rewriteScripts_keeps (h : Rewritable C N dirs) {announce : ModuleKind → Event}
    {pass : List Char → Revision} (hpass : IsPass (onContent pass))
    {outputs : List (ModuleKind × Path)} (hdirs : ∀ o ∈ outputs, o.2 ∈ dirs) :
    (C.along World.disk).Keeps (rewriteScripts announce pass outputs) :=
  h.rewrites.rewriteScripts (fun _ => .log _) hpass hdirs

theorem addExtensions_keeps (h : Rewritable C N config.outputDirs) :
    (C.along World.disk).Keeps (addExtensions config) :=
  h.rewrites.addExtensions

theorem resolveAliases_keeps (h : Rewritable C N config.outputDirs) :
    (C.along World.disk).Keeps (resolveAliases config) :=
  h.rewrites.resolveAliases

/-- Writing a marker makes its directory, and then writes the file there. -/
theorem markerWrite_keeps (htree : C.Keeps (DiskM.createDirAll dir))
    (hfile : ∀ content, C.Allows (·.writeFile (dir.join Marker.fileName) content)) :
    (C.along World.disk).Keeps (Marker.write dir kind) :=
  (Contract.Keeps.onDisk htree dir).bind fun _ =>
    (Contract.Keeps.onDisk (hfile _).update _).bind fun _ => .pure _

theorem marker_keeps (htree : C.Keeps (DiskM.createDirAll dir))
    (hfile : ∀ content, C.Allows (·.writeFile (dir.join Marker.fileName) content)) :
    (C.along World.disk).Keeps (do
      Build.log (.creatingMarker kind)
      Marker.write dir kind) :=
  (Contract.Keeps.log _).bind fun _ => markerWrite_keeps htree hfile

section Admitted

variable (hlisted : ∀ d, C.inv d → ∀ l, ∀ c ∈ d.children l, Path.IsName c.1)
include hlisted

/-- What may be written to at all may be rewritten. -/
theorem rewritable (h : ∀ dir ∈ dirs, C.Admits dir) : Rewritable C Path.IsName dirs where
  listed := hlisted
  passes dir hdir names hnames _ _ _ := Tree.rewriteFile_keeps fun d _ d' hd _ _ hok =>
    (h dir hdir).writes names hnames _ d d' hd hok

theorem works (h : ∀ dir ∈ dirs, C.Admits dir) : Works (C.along World.disk) dirs where
  toRewrites := (rewritable hlisted h).rewrites
  marker dir hdir _ := markerWrite_keeps (h dir hdir).tree
    ((h dir hdir).writes ["package.json"] (by decide))
  copy dir hdir _ _ := Tree.copy_keeps hlisted (h dir hdir).tree fun names hnames =>
    ⟨(h dir hdir).dirs names hnames, (h dir hdir).copies names hnames⟩

omit hlisted in
theorem writeMarkers_keeps (h : ∀ dir ∈ config.outputDirs, C.Admits dir) :
    (C.along World.disk).Keeps (writeMarkers config) := by
  have hname : ∀ n ∈ ["package.json"], Path.IsName n := by decide
  exact .mapM fun _ ho => marker_keeps (h _ (mem_outputDirs ho)).tree
    ((h _ (mem_outputDirs ho)).writes ["package.json"] hname)

theorem copyInto_keeps (h : ∀ dir ∈ dirs, C.Admits dir) {outputDirs : List Path}
    {outputs : List (ModuleKind × Path)} (hdirs : ∀ o ∈ outputs, o.2 ∈ dirs) {report : Report} :
    (C.along World.disk).Keeps (copyInto policy outputDirs outputs report) :=
  (works hlisted h).copyInto hdirs

theorem copyAssets_keeps (h : ∀ dir ∈ config.outputDirs, C.Admits dir) {report : Report} :
    (C.along World.disk).Keeps (copyAssets config report) :=
  (works hlisted h).copyAssets

/-- **What is kept to in every output tree, a run keeps to.** -/
theorem run_keeps (h : ∀ dir ∈ config.outputDirs, C.Admits dir) :
    (C.along World.disk).Keeps (run config) :=
  (works hlisted h).run

end Admitted

/-- A sound disk stays sound, whatever comes of the run, and only grows. -/
theorem run_grows {w : World} (hs : w.disk.Sound) :
    (Outcome.state (run config w)).disk.Sound ∧
      w.disk.Grows Disk.anywhere Disk.anywhere (Outcome.state (run config w)).disk := by
  have hkeeps : ((Contract.growing Disk.anywhere Disk.anywhere w.disk.cwd).along
      World.disk).Keeps (run config) :=
    run_keeps (fun _ hd _ _ => hd.1.isName_of_mem_children)
      fun dir _ => Contract.growing_anywhere_admits w.disk.cwd dir
  obtain ⟨⟨hsound, -⟩, hgrows⟩ := Contract.state_of_always (hkeeps w ⟨hs, rfl⟩)
  exact ⟨hsound, hgrows⟩

end Run

end DualPackage
