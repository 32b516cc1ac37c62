import DualPackage.Proofs.Run.Treatment
/-!
# What a run makes of the output trees

The four stages compose into one function on the files of an output tree
(`run_ok`). The bytes a file starts from are those copied to it, those of
the marker, or those it had; its text then goes through the source fixes,
the pass that adds extensions and the one that resolves aliases, as far as
each of them is asked for and meant for a file of its kind and extension.
-/

namespace DualPackage

namespace Config

variable (config : Config)

/-- The directories a run works in: the output directories, and the source
of the copies. -/
def workDirs : List Path :=
  config.outputDirs ++ (config.copyFiles.map (·.source)).toList

/-- The files that a run copies, from the disk it starts on. -/
def copiedFiles (d : Disk) : Files := fun rel =>
  config.copyFiles.bind fun policy => Tree.copiedFiles policy (d.files policy.source) rel

/-- The files of an output tree before their texts are rewritten: those that
are copied, the marker, and those that the tree had. -/
def baseFiles (d : Disk) (kind : ModuleKind) (dir : Path) : Files := fun rel =>
  (config.copiedFiles d rel).or (Treatment.marking kind dir (d.files dir) rel)

/-- What the source fixes make of a text. They come with the copies. -/
def fixText (kind : ModuleKind) (path : Path) : String → String :=
  if config.copyFiles.isSome then Run.fixedText kind path else id

/-- What the pass that adds extensions makes of a text. -/
def extendText (path : Path) : String → String :=
  if config.addExtensions then
    Tree.onListed Run.scriptExtensions (Run.onContent appendExtensions) path
  else id

/-- What the pass that resolves aliases makes of a text. -/
def resolveText (path : Path) : String → String :=
  match config.aliases with
  | none => id
  | some table =>
    if table.isEmpty then id
    else Tree.onListed Run.scriptExtensions
      (Run.onContent (resolveAliases table config.addExtensions)) path

/-- What a whole run makes of the text of an output file. -/
def finalText (kind : ModuleKind) (path : Path) : String → String :=
  config.resolveText path ∘ config.extendText path ∘ config.fixText kind path

end Config

namespace Run

open Treatment

variable {w w' : World} {config : Config} {policy : CopyPolicy}
  {outputs : List (ModuleKind × Path)}

/-! ## The stages over all trees -/

/-- The markers of all trees. -/
theorem markers_treat (hs : w.disk.Sound) (hplain : ∀ o ∈ outputs, o.2.IsPlain)
    (hapart : outputs.Pairwise fun o p => Path.Apart o.2 p.2) {paths : List Path}
    (hok : (outputs.mapM fun o => do
      Build.log (.creatingMarker o.1)
      Marker.write o.2 o.1 : Build (List Path)) w = .ok paths w') :
    w.disk.Treats marking outputs w'.disk ∧
      ∀ o ∈ outputs, w'.disk.get? o.2.location = some .dir := by
  induction outputs generalizing w paths with
  | nil =>
    obtain ⟨-, rfl⟩ := Outcome.pure_ok hok
    exact ⟨hs.treats_nil, by simp⟩
  | cons o outputs ih =>
    obtain ⟨hplainHere, hplain⟩ := List.forall_mem_cons.1 hplain
    obtain ⟨hne, hapart⟩ := List.pairwise_cons.1 hapart
    obtain ⟨path, w₂, rest, hone, hrest, -⟩ := Outcome.mapM_cons_ok hok
    obtain ⟨⟨⟩, w₁, hlog, hwrite⟩ := Outcome.bind_ok hone
    have hdisk := Build.log_ok hlog
    obtain ⟨htreats, hthere⟩ := write_treats (hdisk ▸ hs) hplainHere hwrite
    obtain ⟨htreatsRest, hthereRest⟩ := ih htreats.sound hplain hapart hrest
    rw [hdisk] at htreats
    refine ⟨htreats.cons htreatsRest hne, List.forall_mem_cons.2 ⟨?_, hthereRest⟩⟩
    exact htreatsRest.dirs _ hthere

/-- Rewriting the scripts of all trees. -/
theorem rewriteScripts_treats {announce : ModuleKind → Event} {pass : List Char → Revision}
    (hs : w.disk.Sound) (hplain : ∀ o ∈ outputs, o.2.IsPlain)
    (hapart : outputs.Pairwise fun o p => Path.Apart o.2 p.2)
    (hthere : ∀ o ∈ outputs, w.disk.get? o.2.location = some .dir) {changed : Nat}
    (hok : rewriteScripts announce pass outputs w = .ok changed w') :
    w.disk.Treats (rewriting fun _ => Tree.onListed scriptExtensions (onContent pass)) outputs
      w'.disk := by
  induction outputs generalizing w changed with
  | nil =>
    obtain ⟨-, rfl⟩ := Outcome.pure_ok hok
    exact hs.treats_nil
  | cons o outputs ih =>
    obtain ⟨hplainHere, hplain⟩ := List.forall_mem_cons.1 hplain
    obtain ⟨hne, hapart⟩ := List.pairwise_cons.1 hapart
    obtain ⟨hhere, hthere⟩ := List.forall_mem_cons.1 hthere
    obtain ⟨⟨⟩, w₁, hlog, hok⟩ := Outcome.bind_ok hok
    obtain ⟨here, w₂, hrewrite, hok⟩ := Outcome.bind_ok hok
    obtain ⟨there, w₃, hrest, hok⟩ := Outcome.bind_ok hok
    obtain ⟨-, rfl⟩ := Outcome.pure_ok hok
    have hdisk := Build.log_ok hlog
    have htreats := rewrite_treats o.1 (hdisk ▸ hs) hplainHere (hdisk ▸ hhere) hrewrite
    rw [hdisk] at htreats
    have hothers := ih htreats.sound hplain hapart (fun p hp => htreats.dirs _ (hthere p hp)) hrest
    exact htreats.cons hothers hne

/-- Copying into all trees, with the source fixes. Neither changes what the
next copy finds in the source. -/
theorem copyInto_treats {outputDirs : List Path} (hsource : policy.source.IsPlain)
    (hdirs : ∀ o ∈ outputDirs, o.IsPlain) (hdirsApart : ∀ o ∈ outputDirs, Path.Apart policy.source o)
    (hs : w.disk.Sound) (hplain : ∀ o ∈ outputs, o.2.IsPlain)
    (hsourceApart : ∀ o ∈ outputs, Path.Apart policy.source o.2)
    (hapart : outputs.Pairwise fun o p => Path.Apart o.2 p.2)
    (hsourceDir : w.disk.get? policy.source.location = some .dir)
    (hthere : ∀ o ∈ outputs, w.disk.get? o.2.location = some .dir) {report report' : Report}
    (hok : copyInto policy outputDirs outputs report w = .ok report' w') :
    w.disk.Treats (fun kind dir => rewriting fixedText kind dir ∘
      copying policy (w.disk.files policy.source) kind dir) outputs w'.disk := by
  induction outputs generalizing w report with
  | nil =>
    obtain ⟨-, rfl⟩ := Outcome.pure_ok hok
    exact hs.treats_nil
  | cons o outputs ih =>
    obtain ⟨hplainHere, hplain⟩ := List.forall_mem_cons.1 hplain
    obtain ⟨hsourceHere, hsourceApart⟩ := List.forall_mem_cons.1 hsourceApart
    obtain ⟨hne, hapart⟩ := List.pairwise_cons.1 hapart
    obtain ⟨hhere, hthere⟩ := List.forall_mem_cons.1 hthere
    obtain ⟨⟨⟩, w₁, hlog, hok⟩ := Outcome.bind_ok hok
    obtain ⟨count, w₂, hcopy, hok⟩ := Outcome.bind_ok hok
    obtain ⟨adjusted, w₃, hadjust, hrest⟩ := Outcome.bind_ok hok
    have hdisk := Build.log_ok hlog
    have hcopied := copy_treats o.1 (hdisk ▸ hs) hsource hplainHere hdirs hdirsApart hsourceHere
      (hdisk ▸ hsourceDir) (hdisk ▸ hhere) hcopy
    rw [hdisk] at hcopied
    have hfixed := adjustTree_treats hcopied.sound hplainHere (hcopied.dirs _ hhere) hadjust
    have htreats := hcopied.trans hfixed
    -- the next tree is copied from the same files, since the source is apart from this one
    have hfiles : w₃.disk.files policy.source = w.disk.files policy.source :=
      htreats.files_eq fun p hp => List.mem_singleton.1 hp ▸ hsourceHere.symm
    have hothers := ih htreats.sound hplain hsourceApart hapart (htreats.dirs _ hsourceDir)
      (fun p hp => htreats.dirs _ (hthere p hp)) hrest
    rw [hfiles] at hothers
    exact htreats.cons hothers hne

/-! ## The stages of a configuration -/

section Stages

variable (hs : w.disk.Sound) (hplain : ∀ o ∈ config.outputs, o.2.IsPlain)
  (hapart : config.outputs.Pairwise fun o p => Path.Apart o.2 p.2)
include hs hplain hapart

theorem writeMarkers_treats {paths : List Path} (hok : writeMarkers config w = .ok paths w') :
    w.disk.Treats marking config.outputs w'.disk ∧
      ∀ o ∈ config.outputs, w'.disk.get? o.2.location = some .dir :=
  markers_treat hs hplain hapart hok

variable (hthere : ∀ o ∈ config.outputs, w.disk.get? o.2.location = some .dir)
include hthere

theorem copyAssets_treats {report report' : Report}
    (hsource : ∀ policy, config.copyFiles = some policy → policy.source.IsPlain ∧
      (∀ o ∈ config.outputs, Path.Apart policy.source o.2) ∧
      w.disk.get? policy.source.location = some .dir)
    (hok : copyAssets config report w = .ok report' w') :
    w.disk.Treats (fun kind dir files => rewriting config.fixText kind dir
      fun rel => (config.copiedFiles w.disk rel).or (files rel)) config.outputs w'.disk := by
  unfold copyAssets at hok
  cases hcopy : config.copyFiles with
  | none =>
    rw [hcopy] at hok
    obtain ⟨-, rfl⟩ := Outcome.pure_ok hok
    have hfix : config.fixText = fun _ _ => id := by
      funext kind path
      simp [Config.fixText, hcopy]
    rw [hfix, rewriting_id]
    simpa [Config.copiedFiles, hcopy] using hs.treats
  | some policy =>
    rw [hcopy] at hok
    obtain ⟨hplainSource, hsourceApart, hsourceDir⟩ := hsource policy hcopy
    have hfix : config.fixText = fixedText := by
      funext kind path
      simp [Config.fixText, hcopy]
    have hdirs : ∀ p ∈ config.outputDirs, p.IsPlain ∧ Path.Apart policy.source p := by
      intro p hp
      obtain ⟨o, ho, rfl⟩ := List.mem_map.1 hp
      exact ⟨hplain o ho, hsourceApart o ho⟩
    have hcopied : config.copiedFiles w.disk =
        Tree.copiedFiles policy (w.disk.files policy.source) := by
      funext rel
      simp [Config.copiedFiles, hcopy]
    rw [hfix, hcopied]
    exact copyInto_treats hplainSource (fun p hp => (hdirs p hp).1) (fun p hp => (hdirs p hp).2)
      hs hplain hsourceApart hapart hsourceDir hthere hok

theorem addExtensions_treats {changed : Nat} (hok : addExtensions config w = .ok changed w') :
    w.disk.Treats (rewriting fun _ => config.extendText) config.outputs w'.disk := by
  unfold addExtensions at hok
  unfold Config.extendText
  split at hok
  · rename_i hextend
    simpa [hextend] using rewriteScripts_treats hs hplain hapart hthere hok
  · rename_i hextend
    obtain ⟨-, rfl⟩ := Outcome.pure_ok hok
    simpa [hextend] using hs.treats

theorem resolveAliases_treats {changed : Nat} (hok : resolveAliases config w = .ok changed w') :
    w.disk.Treats (rewriting fun _ => config.resolveText) config.outputs w'.disk := by
  unfold resolveAliases at hok
  unfold Config.resolveText
  cases haliases : config.aliases with
  | none =>
    rw [haliases] at hok
    obtain ⟨-, rfl⟩ := Outcome.pure_ok hok
    simpa using hs.treats
  | some table =>
    rw [haliases] at hok
    dsimp only at hok ⊢
    split at hok
    · rename_i hempty
      obtain ⟨-, rfl⟩ := Outcome.pure_ok hok
      simpa [hempty] using hs.treats
    · rename_i hempty
      simpa [hempty] using rewriteScripts_treats hs hplain hapart hthere hok

end Stages

/-- What the stages come to, one after the other. -/
theorem run_treats (hs : w.disk.Sound) (hplain : ∀ o ∈ config.outputs, o.2.IsPlain)
    (hapart : config.outputs.Pairwise fun o p => Path.Apart o.2 p.2)
    (hsource : ∀ policy, config.copyFiles = some policy → policy.source.IsPlain ∧
      (∀ o ∈ config.outputs, Path.Apart policy.source o.2) ∧
      w.disk.get? policy.source.location = some .dir)
    {report : Report} (hok : run config w = .ok report w') :
    w.disk.Treats (fun kind dir files => rewriting config.finalText kind dir
      fun rel => (config.copiedFiles w.disk rel).or (marking kind dir files rel))
      config.outputs w'.disk := by
  obtain ⟨paths, w₁, hmarkers, hok⟩ := Outcome.bind_ok hok
  obtain ⟨copied, w₂, hcopy, hok⟩ := Outcome.bind_ok hok
  obtain ⟨extended, w₃, hextend, hok⟩ := Outcome.bind_ok hok
  obtain ⟨resolved, w₄, hresolve, hok⟩ := Outcome.bind_ok hok
  obtain ⟨⟨⟩, w₅, hlog, hok⟩ := Outcome.bind_ok hok
  obtain ⟨-, rfl⟩ := Outcome.pure_ok hok
  rw [Build.log_ok hlog]
  obtain ⟨hmarked, hthere⟩ := writeMarkers_treats hs hplain hapart hmarkers
  -- the markers leave the source of the copies alone
  have hcopied : config.copiedFiles w₁.disk = config.copiedFiles w.disk := by
    funext rel
    unfold Config.copiedFiles
    cases hpolicy : config.copyFiles with
    | none => rfl
    | some policy =>
      rw [Option.bind_some, Option.bind_some,
        hmarked.files_eq fun o ho => ((hsource policy hpolicy).2.1 o ho).symm]
  have hassets := copyAssets_treats hmarked.sound hplain hapart hthere
    (fun policy hpolicy =>
      have h := hsource policy hpolicy
      ⟨h.1, h.2.1, hmarked.dirs _ h.2.2⟩) hcopy
  have hthere₂ := fun o ho => hassets.dirs _ (hthere o ho)
  have hextended := addExtensions_treats hassets.sound hplain hapart hthere₂ hextend
  have hresolved := resolveAliases_treats hextended.sound hplain hapart
    (fun o ho => hextended.dirs _ (hthere₂ o ho)) hresolve
  have hall := ((hmarked.trans hassets).trans hextended).trans hresolved
  refine ⟨hall.sound, hall.dirs, hall.outside, fun o ho => ?_⟩
  rw [hall.within o ho, hcopied]
  funext rel
  simp only [Function.comp_apply, rewriting, Option.map_map, rewriteBytes_comp, Config.finalText]

/-- **What a run makes of the output trees.** On a disk without links, with
all directories of the configuration apart from each other, a run that
succeeds leaves in each output tree the files of `baseFiles`, with their
texts rewritten, and no others; files outside the output trees stay. -/
theorem run_ok (hformed : w.disk.WellFormed) (hfree : w.disk.LinkFree)
    (hplain : ∀ p ∈ config.workDirs, p.IsPlain)
    (hapart : config.workDirs.Pairwise Path.Apart)
    (hsource : ∀ policy, config.copyFiles = some policy → w.disk.isDir policy.source)
    {report : Report} (hok : run config w = .ok report w') :
    (∀ kind dir, config.outputDir? kind = some dir → ∀ rel,
      w'.disk.fileAt (dir.location ++ rel) =
        (config.baseFiles w.disk kind dir rel).map
          (rewriteBytes (config.finalText kind (dir.under rel)))) ∧
    ∀ l, (∀ dir ∈ config.outputDirs, ¬ dir.location <+: l) →
      w'.disk.fileAt l = w.disk.fileAt l := by
  obtain ⟨houtputs, -, hbetween⟩ := List.pairwise_append.1 hapart
  have hdir : ∀ o ∈ config.outputs, o.2 ∈ config.outputDirs := fun o ho => List.mem_map_of_mem ho
  have hpolicy : ∀ policy, config.copyFiles = some policy →
      policy.source ∈ (config.copyFiles.map (·.source)).toList := by
    intro policy hpolicy
    simp [hpolicy]
  have htreats := run_treats ⟨hformed, hfree⟩
    (fun o ho => hplain o.2 (List.mem_append_left _ (hdir o ho)))
    (List.pairwise_map.1 houtputs)
    (fun policy h => by
      have hp := hplain policy.source (List.mem_append_right _ (hpolicy policy h))
      exact ⟨hp, fun o ho => (hbetween o.2 (hdir o ho) _ (hpolicy policy h)).symm,
        Disk.get?_of_isDir hfree hp (hsource policy h)⟩) hok
  refine ⟨fun kind dir hkind rel => ?_, fun l hl => htreats.outside l fun o ho => hl o.2 (hdir o ho)⟩
  exact congrFun (htreats.within _ (Config.mem_outputs hkind)) rel

/-- One module in the ESM tree, and an asset to copy. -/
def sampleDisk : Disk :=
  (Disk.mk [] []).set ["esm"] .dir
    |>.set ["esm", "index.js"] (.file "import a from './a';\nimport b from '@app/b';\n".toUTF8)
    |>.set ["src"] .dir
    |>.set ["src", "data.txt"] (.file "data".toUTF8)

def sampleConfig : Config where
  root := ⟨"/"⟩
  esmDir := some ⟨"/esm"⟩
  cjsDir := some ⟨"/cjs"⟩
  copyFiles := some (CopyPolicy.ofEndings ⟨"/src"⟩ [])
  addExtensions := true
  aliases := some (AliasTable.ofList [("@app/*", "./app")])
  verbose := false

theorem sound_sampleDisk : sampleDisk.Sound := by
  have hesm := Disk.sound_blank.set [] "esm" .dir rfl (by decide) (by simp) (by decide)
  have hindex := hesm.set ["esm"] "index.js"
    (.file "import a from './a';\nimport b from '@app/b';\n".toUTF8) rfl (by decide) (by simp)
    (by decide +kernel)
  have hsrc := hindex.set [] "src" .dir rfl (by decide) (by simp) (by decide +kernel)
  exact hsrc.set ["src"] "data.txt" (.file "data".toUTF8) rfl (by decide) (by simp)
    (by decide +kernel)

/-- The sample gets through a run, with its module rewritten in place and the
asset in both trees. -/
theorem run_ok_sample : ∃ report w', run sampleConfig ⟨sampleDisk, []⟩ = .ok report w' ∧
    w'.disk.fileAt ["esm", "index.js"] =
      some "import a from './a.js';\nimport b from './app/b.js';\n".toUTF8 ∧
    w'.disk.fileAt ["cjs", "data.txt"] = some "data".toUTF8 ∧
    w'.disk.fileAt ["cjs", "index.js"] = none := by
  have hsound : (World.mk sampleDisk []).disk.Sound := sound_sampleDisk
  have hplain : ∀ p ∈ sampleConfig.workDirs, p.IsPlain := by decide +kernel
  have hapart : sampleConfig.workDirs.Pairwise Path.Apart := by decide +kernel
  have hsource : ∀ policy, sampleConfig.copyFiles = some policy →
      sampleDisk.isDir policy.source := by
    intro policy hpolicy
    obtain rfl := Option.some.inj hpolicy
    decide +kernel
  have hsucceeds : Outcome.isOk (run sampleConfig ⟨sampleDisk, []⟩) := by decide +kernel
  obtain ⟨report, w', hrun⟩ := Outcome.exists_of_isOk hsucceeds
  obtain ⟨hwithin, -⟩ := run_ok hsound.wellFormed hsound.linkFree hplain hapart hsource hrun
  refine ⟨report, w', hrun, ?_, ?_, ?_⟩
  · exact (hwithin .esm ⟨"/esm"⟩ rfl ["index.js"]).trans (by decide +kernel)
  · exact (hwithin .cjs ⟨"/cjs"⟩ rfl ["data.txt"]).trans (by decide +kernel)
  · exact (hwithin .cjs ⟨"/cjs"⟩ rfl ["index.js"]).trans (by decide +kernel)

end Run

end DualPackage
