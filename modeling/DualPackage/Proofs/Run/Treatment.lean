import DualPackage.Proofs.Tree.Copy
import DualPackage.Proofs.Tree.Rewrite
import DualPackage.Run.Stages
/-!
# The stages as treatments of trees

A stage of a run goes from one output tree to the next. What it does to
the files of one tree depends on the tree alone, as long as the output
trees are apart from each other and from the source of the copies: this is
its treatment (`Treats`). The stages are treatments each, over however
many trees, and stages that follow each other compose tree by tree
(`Treats.trans`).
-/

namespace DualPackage

/-- The files of a tree, by the names on the way to them. -/
abbrev Files := List String → Option ByteArray

/-- What is made of the files of an output tree. -/
abbrev Treatment := ModuleKind → Path → Files → Files

namespace Disk

variable {d d₁ d' : Disk} {treat treat' : Treatment} {outputs : List (ModuleKind × Path)}
  {o : ModuleKind × Path} {source : Path}

/-- The disk `d'` is `d` with each of the output trees treated. Directories
stay, and no file is touched outside the trees. -/
structure Treats (d : Disk) (treat : Treatment) (outputs : List (ModuleKind × Path)) (d' : Disk) :
    Prop where
  sound : d'.Sound
  dirs : ∀ l, d.get? l = some .dir → d'.get? l = some .dir
  outside : ∀ l, (∀ o ∈ outputs, ¬ o.2.location <+: l) → d'.fileAt l = d.fileAt l
  within : ∀ o ∈ outputs, d'.files o.2 = treat o.1 o.2 (d.files o.2)

/-- A disk on which nothing happens. -/
theorem Sound.treats (h : d.Sound) : d.Treats (fun _ _ files => files) outputs d where
  sound := h
  dirs := fun _ hdir => hdir
  outside := fun _ _ => rfl
  within := fun _ _ => rfl

theorem Sound.treats_nil (h : d.Sound) : d.Treats treat [] d where
  sound := h
  dirs := fun _ hdir => hdir
  outside := fun _ _ => rfl
  within := by simp

/-- The files of a tree apart from those treated stay. -/
theorem Treats.files_eq (h : d.Treats treat outputs d')
    (hapart : ∀ o ∈ outputs, Path.Apart o.2 source) : d'.files source = d.files source :=
  funext fun rel => h.outside _ fun o ho => (hapart o ho).not_prefix_append rel

/-- One tree is treated, and then the others. -/
theorem Treats.cons (h : d.Treats treat [o] d₁) (hrest : d₁.Treats treat outputs d')
    (hapart : ∀ p ∈ outputs, Path.Apart o.2 p.2) : d.Treats treat (o :: outputs) d' where
  sound := hrest.sound
  dirs := fun l hdir => hrest.dirs l (h.dirs l hdir)
  outside := fun l hl => by
    rw [hrest.outside l fun p hp => hl p (List.mem_cons_of_mem o hp),
      h.outside l fun p hp => hl p (by simp [List.mem_singleton.1 hp])]
  within := fun p hp => by
    rcases List.mem_cons.1 hp with rfl | hp
    · rw [hrest.files_eq fun q hq => (hapart q hq).symm, h.within p (List.mem_singleton_self p)]
    · have hother : d₁.files p.2 = d.files p.2 :=
        h.files_eq fun q hq => List.mem_singleton.1 hq ▸ hapart p hp
      rw [hrest.within p hp, hother]

/-- All trees are treated, and then once more. -/
theorem Treats.trans (h : d.Treats treat outputs d₁) (h' : d₁.Treats treat' outputs d') :
    d.Treats (fun kind dir => treat' kind dir ∘ treat kind dir) outputs d' where
  sound := h'.sound
  dirs := fun l hdir => h'.dirs l (h.dirs l hdir)
  outside := fun l hl => by rw [h'.outside l hl, h.outside l hl]
  within := fun o ho => by rw [h'.within o ho, h.within o ho, Function.comp_apply]

end Disk

/-! ## What the stages make of a tree -/

namespace Treatment

/-- The marker is put right into the tree. -/
def marking : Treatment := fun kind _ files rel =>
  if rel = ["package.json"] then some (Marker.content kind).toUTF8 else files rel

/-- The files of a source that are copied replace those of the tree. -/
def copying (policy : CopyPolicy) (source : Files) : Treatment := fun _ _ files rel =>
  (Tree.copiedFiles policy source rel).or (files rel)

/-- The texts of the files are rewritten, each by a function that goes by
the kind of the tree and the path of the file. -/
def rewriting (text : ModuleKind → Path → String → String) : Treatment :=
  fun kind dir files rel => (files rel).map (rewriteBytes (text kind (dir.under rel)))

@[simp] theorem rewriting_id : rewriting (fun _ _ => id) = fun _ _ files => files := by
  funext kind dir files rel
  simp [rewriting]

end Treatment

namespace Run

open Treatment

variable {w w' : World} {kind : ModuleKind} {dir : Path} {policy : CopyPolicy}
  {outputs : List (ModuleKind × Path)} {extensions : List String} {f : String → String}

/-- Writing a marker treats one tree, which is there afterwards. -/
theorem write_treats (hs : w.disk.Sound) (hdir : dir.IsPlain) {path : Path}
    (hok : Marker.write dir kind w = .ok path w') :
    w.disk.Treats marking [(kind, dir)] w'.disk ∧ w'.disk.get? dir.location = some .dir := by
  obtain ⟨⟨⟩, w₁, hmake, hok⟩ := Outcome.bind_ok hok
  obtain ⟨⟨⟩, w₂, hwrite, hok⟩ := Outcome.bind_ok hok
  obtain ⟨-, rfl⟩ := Outcome.pure_ok hok
  have hmakes := DiskM.createDirAll_ok hs hdir (Build.onDisk_ok hmake)
  have hname : Path.IsName "package.json" := by decide
  obtain ⟨hpath, hloc⟩ := Path.isPlain_join_name hdir hname
  obtain ⟨⟨hsound, hhere, helse⟩, hold⟩ :=
    Disk.writeFile_ok hmakes.sound hpath (Build.update_ok hwrite)
  -- the marker takes the place of no directory
  have hdirs : ∀ l, w₁.disk.get? l = some .dir → w'.disk.get? l = some .dir := by
    intro l hl
    rwa [helse l]
    rintro rfl
    exact hold hl
  refine ⟨⟨hsound, fun l hl => hdirs l (hmakes.dirs hl), fun l hl => ?_, ?_⟩,
    hdirs _ (hmakes.onWay _ (List.prefix_refl _))⟩
  · rw [Disk.fileAt_congr (helse l ?_), hmakes.fileAt_eq]
    rintro rfl
    exact hl (kind, dir) (by simp) (hloc ▸ List.prefix_append _ _)
  · simp only [List.mem_singleton, forall_eq]
    funext rel
    rw [marking]
    split
    · rename_i hrel
      rw [hrel, Disk.files, ← hloc]
      exact Disk.fileAt_eq_some_iff.2 hhere
    · -- making the tree adds no file to it
      rename_i hrel
      rw [Disk.files, Disk.fileAt_congr (helse _ ?_), hmakes.fileAt_eq, Disk.files]
      rw [hloc]
      exact fun heq => hrel (List.append_cancel_left heq)

/-- Rewriting treats one tree. -/
theorem rewrite_treats (kind : ModuleKind) (hs : w.disk.Sound) (hdir : dir.IsPlain)
    (hthere : w.disk.get? dir.location = some .dir) {changed : Nat}
    (hok : Tree.rewrite dir extensions f w = .ok changed w') :
    w.disk.Treats (rewriting fun _ => Tree.onListed extensions f) [(kind, dir)] w'.disk := by
  obtain ⟨hsound, houtside, hwithin⟩ := Tree.rewrite_ok hs hdir hthere hok
  refine ⟨hsound, fun l hl => ?_, fun l hl => ?_, ?_⟩
  · by_cases hbelow : dir.location <+: l
    · obtain ⟨rel, rfl⟩ := hbelow
      rw [hwithin, hl]
      rfl
    · rw [houtside l hbelow, hl]
  · exact Disk.fileAt_congr (houtside l (hl (kind, dir) (by simp)))
  · simp only [List.mem_singleton, forall_eq]
    funext rel
    rw [Disk.files, Disk.fileAt, hwithin, rewriting, Disk.files, Disk.fileAt]
    rcases w.disk.get? (dir.location ++ rel) with - | (- | - | -) <;> rfl

/-- Copying treats one tree. -/
theorem copy_treats (kind : ModuleKind) (hs : w.disk.Sound) (hsource : policy.source.IsPlain)
    (hdir : dir.IsPlain) {outputDirs : List Path} (hplain : ∀ o ∈ outputDirs, o.IsPlain)
    (hapart : ∀ o ∈ outputDirs, Path.Apart policy.source o)
    (hdirApart : Path.Apart policy.source dir)
    (hsourceDir : w.disk.get? policy.source.location = some .dir)
    (hthere : w.disk.get? dir.location = some .dir) {count : CopyCount}
    (hok : Tree.copy policy dir outputDirs w = .ok count w') :
    w.disk.Treats (copying policy (w.disk.files policy.source)) [(kind, dir)] w'.disk := by
  obtain ⟨hsound, houtside, hwithin⟩ :=
    Tree.copy_ok hs hsource hdir hplain hapart hdirApart hsourceDir hthere hok
  refine ⟨hsound, fun l hl => ?_, fun l hl => ?_, ?_⟩
  · by_cases hbelow : dir.location <+: l
    · obtain ⟨rel, rfl⟩ := hbelow
      exact (hwithin rel).1 hl
    · rw [houtside l hbelow, hl]
  · exact Disk.fileAt_congr (houtside l (hl (kind, dir) (by simp)))
  · simp only [List.mem_singleton, forall_eq]
    exact funext fun rel => (hwithin rel).2

/-- What the source fixes make of the text of a file. -/
def fixedText : ModuleKind → Path → String → String
  | .esm => Tree.onListed esmExtensions (onContent EsmSource.adjust)
  | .cjs => fun _ => id

/-- The source fixes treat one tree. -/
theorem adjustTree_treats (hs : w.disk.Sound) (hdir : dir.IsPlain)
    (hthere : w.disk.get? dir.location = some .dir) {changed : Nat}
    (hok : adjustTree kind dir w = .ok changed w') :
    w.disk.Treats (rewriting fixedText) [(kind, dir)] w'.disk := by
  cases kind with
  | esm =>
    obtain ⟨⟨⟩, w₁, hlog, hok⟩ := Outcome.bind_ok hok
    have hdisk := Build.log_ok hlog
    obtain ⟨hsound, hdirs, houtside, hwithin⟩ :=
      rewrite_treats .esm (hdisk ▸ hs) hdir (hdisk ▸ hthere) hok
    rw [hdisk] at hdirs houtside hwithin
    refine ⟨hsound, hdirs, houtside, ?_⟩
    simp only [List.mem_singleton, forall_eq] at hwithin ⊢
    exact hwithin
  | cjs =>
    obtain ⟨-, rfl⟩ := Outcome.pure_ok hok
    refine ⟨hs, fun _ hl => hl, fun _ _ => rfl, ?_⟩
    simp only [List.mem_singleton, forall_eq]
    funext rel
    simp [rewriting, fixedText]

end Run

end DualPackage
