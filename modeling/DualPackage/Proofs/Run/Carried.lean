import DualPackage.Config.Load
import DualPackage.Proofs.Run.Copies
import DualPackage.Proofs.Run.Outputs
import DualPackage.Proofs.Run.Pruning
/-!
# Files that are carried over

A copy brings the bytes of its source as they were before the run into
every output tree, and they are still there in the end (`copies_carried`).
This takes that no file is copied onto one that is copied itself, and no
two files to one place (`Undisturbed`): a file is emptied before it is
read, so that one copied onto itself is lost (`data_lost_in_place`).

What a sequence of copies does is told from the places alone (`Carries`).
Scripts are left out, since the passes go over them. That each file
reaches each tree is because all trees leave out the same directories.
As long as source and output trees are laid out apart (`Layout`), nothing
is copied over, whatever stands on the disk (`undisturbed_of_layout`).
-/

namespace DualPackage

namespace Path

variable {p : Path}

/-- A path with a slash at its end. -/
theorem endsInSlash_join_empty (h : p.text.isEmpty = false) : (p.join ⟨""⟩).endsInSlash := by
  have htext := toList_join (p := p) (q := ⟨""⟩) rfl
  rw [h, Bool.false_or] at htext
  unfold endsInSlash
  rw [htext]
  split
  · rename_i hslash
    simpa [endsInSlash] using hslash
  · simp

end Path

namespace Disk

variable {d : Disk} {p : Path} {loc : Location}

/-- Nothing is copied to a directory by its own path. -/
theorem writable_join_empty_ne_ok : d.writable (p.join ⟨""⟩) ≠ .ok loc := by
  cases hp : p.text.isEmpty with
  | false => exact writable_ne_ok_of_endsInSlash (Path.endsInSlash_join_empty hp)
  | true =>
    intro h
    obtain ⟨spot, hspot, -⟩ := writable_eq_ok h
    rw [Path.join_of_isEmpty rfl hp] at hspot
    cases hspot

end Disk

namespace Run

variable {w w' : World} {config : Config} {report report' : Report}
  {policy : CopyPolicy} {cwd : Location}
  {x y : List Copied} {c : Copied} {d d₁ d' : Disk} {p : Path} {names : List String} {l : Location}

/-- The name of a script stands at the location. -/
def IsScript (l : Location) : Prop :=
  (l.getLast?.bind Path.extensionOf?).any esmExtensions.contains

theorem isScript_place (h : Tree.hasListedExtension esmExtensions p) : IsScript (p.place cwd) := by
  unfold Tree.hasListedExtension Path.extension? at h
  cases hname : p.fileName? with
  | none => simp [hname] at h
  | some n =>
    obtain ⟨above, hplace⟩ : ∃ above, p.place cwd = above ++ [n] := Path.place_of_fileName? hname
    rw [hname] at h
    rw [IsScript, hplace, List.getLast?_concat]
    exact h

/-- Only the last name counts. -/
theorem isScript_append (hne : names ≠ []) : IsScript (l ++ names) ↔ IsScript names := by
  rw [IsScript, IsScript, List.getLast?_append_of_ne_nil _ hne]

/-- For what a walk finds, the path tells as much as the names. -/
theorem isScript_names (hnames : ∀ n ∈ names, Path.IsName n) (hne : names ≠ []) :
    IsScript names ↔ Tree.hasListedExtension esmExtensions (p.under names) := by
  obtain ⟨above, n, rfl⟩ := (List.eq_nil_or_concat names).resolve_left hne
  rw [List.concat_eq_append] at hnames ⊢
  rw [IsScript, List.getLast?_concat, Tree.hasListedExtension, Path.extension?,
    Path.fileName?_under hnames]
  rfl

/-- No file is copied onto one that is copied too, and no two to one place. -/
structure Undisturbed (cwd : Location) (x : List Copied) : Prop where
  apart : ∀ c ∈ x, ∀ c' ∈ x, c.target.place cwd ≠ c'.source.place cwd
  single : ∀ c ∈ x, ∀ c' ∈ x, c.target.place cwd = c'.target.place cwd →
    c.source.place cwd = c'.source.place cwd

theorem Undisturbed.of_subset (h : Undisturbed cwd y) (hsubset : x ⊆ y) : Undisturbed cwd x where
  apart c hc c' hc' := h.apart c (hsubset hc) c' (hsubset hc')
  single c hc c' hc' := h.single c (hsubset hc) c' (hsubset hc')

/-- What becomes of the files other than scripts while some are copied. -/
structure Carries (cwd : Location) (x : List Copied) (d d' : Disk) : Prop where
  elsewhere : ∀ l, ¬ IsScript l → (∀ c ∈ x, c.target.place cwd ≠ l) → d'.fileAt l = d.fileAt l
  carried : Undisturbed cwd x → ∀ c ∈ x, ¬ IsScript (c.source.place cwd) →
    ¬ IsScript (c.target.place cwd) → ∃ content,
      d.fileAt (c.source.place cwd) = some content ∧ d'.fileAt (c.target.place cwd) = some content
  named : ∀ c ∈ x, c.rest ≠ ⟨""⟩

namespace Carries

theorem nil (d : Disk) : Carries cwd [] d d where
  elsewhere _ _ _ := rfl
  carried _ := by simp
  named := by simp

/-- A file copied first stays where it is, unless the same one is copied
there again. -/
theorem append (h : Carries cwd x d d₁) (h' : Carries cwd y d₁ d') :
    Carries cwd (x ++ y) d d' where
  elsewhere l hl hne := by
    obtain ⟨hx, hy⟩ := List.forall_mem_append.1 hne
    rw [h'.elsewhere l hl hy, h.elsewhere l hl hx]
  carried hall c hc hsource htarget := by
    have hx : x ⊆ x ++ y := List.subset_append_left x y
    have hy : y ⊆ x ++ y := List.subset_append_right x y
    -- what is copied second is still as it was at first
    have hkept : ∀ c' ∈ x ++ y, ¬ IsScript (c'.source.place cwd) →
        d₁.fileAt (c'.source.place cwd) = d.fileAt (c'.source.place cwd) :=
      fun c' hc' hs => h.elsewhere _ hs fun b hb => hall.apart b (hx hb) c' hc'
    by_cases hagain : ∃ c' ∈ y, c'.target.place cwd = c.target.place cwd
    · obtain ⟨c', hc', heq⟩ := hagain
      have hsame := hall.single c' (hy hc') c hc heq
      obtain ⟨content, hold, hnew⟩ := h'.carried (hall.of_subset hy) c' hc' (hsame ▸ hsource)
        (heq ▸ htarget)
      rw [heq] at hnew
      rw [hsame, hkept c hc hsource] at hold
      exact ⟨content, hold, hnew⟩
    · push Not at hagain
      rcases List.mem_append.1 hc with hc | hc
      · obtain ⟨content, hold, hnew⟩ := h.carried (hall.of_subset hx) c hc hsource htarget
        exact ⟨content, hold, (h'.elsewhere _ htarget hagain).trans hnew⟩
      · exact absurd rfl (hagain c hc)
  named := List.forall_mem_append.2 ⟨h.named, h'.named⟩

end Carries

/-- An account of the files that are carried over. -/
def carrying (cwd : Location) : Account Disk Copied where
  holds := Carries cwd
  nil := .nil
  append := .append

/-! ## What a run does -/

theorem carries_of_grows {written : Location → Prop} (h : d.Grows Disk.anywhere written d')
    (hwritten : ∀ l, written l → IsScript l) : Carries cwd [] d d' where
  elsewhere _ hl _ := h.fileAt_eq fun hw => hl (hwritten _ hw)
  carried _ := by simp
  named := by simp

variable (cwd) in
/-- What is kept to while files are carried over: the disk is sound, and its
working directory stays. -/
def SoundAt (d : Disk) : Prop := d.Sound ∧ d.cwd = cwd

theorem carrying_makeDir (p : Path) :
    ((carrying cwd).silent (SoundAt cwd)).Allows (·.makeDir p) := by
  intro d d' hd hok
  have hallows : (Contract.growing Disk.anywhere Disk.nowhere cwd).Allows (·.makeDir p) :=
    Contract.growing_makeDir trivial
  obtain ⟨hinv, hgrows⟩ := hallows d d' hd hok
  exact ⟨hinv, carries_of_grows hgrows fun _ => False.elim⟩

/-- The passes write to scripts only. -/
theorem carrying_rewritable (dirs : List Path) :
    Rewritable ((carrying cwd).silent (SoundAt cwd)) (fun _ => True) dirs where
  listed := fun _ _ _ _ _ => trivial
  passes dir _ names _ hlisted f _ := Tree.rewriteFile_keeps fun d text d' hd _ _ hok => by
    have hallows : (Contract.growing Disk.anywhere IsScript cwd).Allows
        (·.writeFile (dir.under names) (f text).toUTF8) :=
      Contract.growing_writeFile (isScript_place hlisted) _
    obtain ⟨hinv, hgrows⟩ := hallows d d' hd hok
    exact ⟨hinv, carries_of_grows hgrows fun _ h => h⟩

theorem carrying_copyFile (c : Copied) (d d' : Disk) (hd : SoundAt cwd d)
    (hok : d.copyFile c.source c.target = .ok d') :
    SoundAt cwd d' ∧ (carrying cwd).holds [c] d d' := by
  obtain ⟨hsound, rfl⟩ := hd
  obtain ⟨loc, -, hwritable, hgrows, -⟩ := Disk.copyFile_grows hok
  obtain ⟨content, old, hfile, hsets, -, hsame⟩ := Disk.copyFile_sets hsound hok
  refine ⟨⟨hsets.sound, hgrows.cwd⟩, fun l _ hne => ?_, fun hclear c' hc' _ _ => ?_, ?_⟩
  · exact Disk.fileAt_congr (hsets.elsewhere l fun heq => hne c (by simp) heq.symm)
  · obtain rfl := List.mem_singleton.1 hc'
    have hapart := hclear.apart c' hc' c' hc'
    refine ⟨old, Disk.fileAt_eq_some_iff.2 hfile, Disk.fileAt_eq_some_iff.2 ?_⟩
    rw [hsets.here, hsame hapart.symm]
  · rintro c' hc' hrest
    obtain rfl := List.mem_singleton.1 hc'
    rw [Copied.target, hrest] at hwritable
    exact Disk.writable_join_empty_ne_ok hwritable

theorem carrying_covers (dirs : List Path) :
    (carrying cwd).Covers (SoundAt cwd) (fun _ => True) dirs where
  makeDir := carrying_makeDir
  copyFile := carrying_copyFile
  rewritable := carrying_rewritable dirs

/-- The markers are the only files that are written before the copies. -/
theorem writeMarkers_fileAt (hs : w.disk.Sound) {markers : List Path}
    (hok : writeMarkers config w = .ok markers w') :
    SoundAt w.disk.cwd w'.disk ∧
      ∀ l, (∀ dir ∈ config.outputDirs, (dir.join Marker.fileName).place w.disk.cwd ≠ l) →
        w'.disk.fileAt l = w.disk.fileAt l := by
  let written : Location → Prop := fun l =>
    ∃ dir ∈ config.outputDirs, (dir.join Marker.fileName).place w.disk.cwd = l
  have hkeeps : ((Contract.growing Disk.anywhere written w.disk.cwd).along World.disk).Keeps
      (writeMarkers config) :=
    .mapM fun o ho => marker_keeps
      (Contract.keeps_createDirAll fun _ _ => Contract.growing_makeDir trivial)
      (Contract.growing_writeFile ⟨o.2, mem_outputDirs ho, rfl⟩)
  obtain ⟨hinv, hgrows⟩ := hkeeps.step ⟨hs, rfl⟩ hok
  refine ⟨hinv, fun l hl => hgrows.fileAt_eq ?_⟩
  rintro ⟨dir, hdir, rfl⟩
  exact hl dir hdir rfl

/-! ## Where the copied files are -/

/-- The places of a file that is copied into the tree in a directory. -/
theorem CopiedFrom.places {outputDirs : List Path} (h : CopiedFrom policy outputDirs names c)
    (dir : Path) (cwd : Location) : c.source.place cwd = policy.source.place cwd ++ names ∧
      (dir.join c.rest).place cwd = dir.place cwd ++ names := by
  rw [h.source_eq, h.rest_eq]
  exact ⟨Path.place_under h.isName, Path.place_join_names h.isName⟩

/-- A copy has the extension of its source. -/
theorem CopiedFrom.not_isScript {outputDirs : List Path} (h : CopiedFrom policy outputDirs names c)
    (hne : names ≠ []) (hext : ¬ Tree.hasListedExtension esmExtensions c.source) (dir : Path)
    (cwd : Location) :
    ¬ IsScript (c.source.place cwd) ∧ ¬ IsScript ((dir.join c.rest).place cwd) := by
  obtain ⟨hsource, htarget⟩ := h.places dir cwd
  rw [hsource, htarget, isScript_append hne, isScript_append hne, isScript_names h.isName hne,
    ← h.source_eq]
  exact ⟨hext, hext⟩

/-- No marker is written over a file of another name. -/
theorem CopiedFrom.marker_apart {outputDirs : List Path} (h : CopiedFrom policy outputDirs names c)
    (hne : names ≠ []) (hname : c.source.fileName? ≠ some "package.json") (dir : Path) :
    (dir.join Marker.fileName).place cwd ≠ c.source.place cwd := by
  have hmarker : ∀ n ∈ ["package.json"], Path.IsName n := by decide
  have hplace : (dir.under ["package.json"]).place cwd = dir.place cwd ++ ["package.json"] :=
    Path.place_under hmarker
  rw [Path.under_cons, Path.under_nil] at hplace
  rw [Marker.fileName, hplace, (h.places dir cwd).1]
  intro heq
  obtain ⟨above, n, rfl⟩ := (List.eq_nil_or_concat names).resolve_left hne
  rw [List.concat_eq_append, ← List.append_assoc] at heq
  obtain rfl : "package.json" = n := List.singleton_inj.1 (List.append_inj_right' heq rfl)
  rw [h.source_eq, List.concat_eq_append] at hname
  rw [List.concat_eq_append] at h
  exact hname (Path.fileName?_under h.isName)

/-- The usual layout: the source lies in no output tree, and no output tree in
another. Those below the source are spelled as walks spell them. -/
structure Layout (outputs : List Path) (source : Path) (cwd : Location) : Prop where
  outside : ∀ o ∈ outputs, ¬ o.place cwd <+: source.place cwd
  unnested : ∀ o ∈ outputs, ∀ o' ∈ outputs,
    o.place cwd <+: o'.place cwd → o.place cwd = o'.place cwd
  spelled : SpelledBelow outputs source cwd

/-- In the usual layout no two paths that copies lead to or come from meet. -/
theorem Layout.undisturbed {outputs : List Path} (h : Layout outputs policy.source cwd)
    (hfrom : ∀ c ∈ x, ∃ names, CopiedFrom policy outputs names c ∧ names ≠ []) :
    Undisturbed cwd x where
  apart c hc c' hc' heq := by
    obtain ⟨names, hc, hne⟩ := hfrom c hc
    obtain ⟨names', hc', -⟩ := hfrom c' hc'
    rw [Copied.target, (hc.places c.dest cwd).2, (hc'.places c'.dest cwd).1] at heq
    obtain ⟨rel, hbelow, rfl⟩ | ⟨rel, habove, -⟩ := List.append_eq_append_iff.1 heq.symm
    · -- the tree is below the source, and what is inside of it is not copied
      refine h.spelled.not_open hc.dest_mem ?_ hbelow hne hc'.opened
      rintro rfl
      rw [List.append_nil] at hbelow
      exact h.outside c.dest hc.dest_mem (hbelow ▸ List.prefix_refl _)
    · exact h.outside c.dest hc.dest_mem ⟨rel, habove.symm⟩
  single c hc c' hc' heq := by
    obtain ⟨names, hc, -⟩ := hfrom c hc
    obtain ⟨names', hc', -⟩ := hfrom c' hc'
    rw [Copied.target, Copied.target, (hc.places c.dest cwd).2, (hc'.places c'.dest cwd).2] at heq
    have hplace : c.dest.place cwd = c'.dest.place cwd := by
      rcases List.prefix_or_prefix_of_prefix ⟨names, heq⟩ (List.prefix_append _ names') with
        hleads | hleads
      · exact h.unnested _ hc.dest_mem _ hc'.dest_mem hleads
      · exact (h.unnested _ hc'.dest_mem _ hc.dest_mem hleads).symm
    rw [(hc.places c.dest cwd).1, (hc'.places c'.dest cwd).1]
    rw [hplace] at heq
    rw [List.append_cancel_left heq]

section Whole

variable (hs : w.disk.Sound) (hok : run config w = .ok report w')
include hs hok

/-- The files are carried over from the disk with the markers. -/
theorem run_carries : ∃ markers w₁, writeMarkers config w = .ok markers w₁ ∧
    SoundAt w.disk.cwd w₁.disk ∧ Carries w.disk.cwd (copies config w) w₁.disk w'.disk := by
  obtain ⟨markers, w₁, hmarkers, hholds⟩ := run_accounted (A := carrying w.disk.cwd)
    (carrying_covers config.outputDirs) hok
  have hinv := (writeMarkers_fileAt hs hmarkers).1
  exact ⟨markers, w₁, hmarkers, hinv, (hholds hinv).2⟩

/-- What a run copies comes from names below the source, and there is at least
one. -/
theorem copiedFrom_of_mem_copies (hc : c ∈ copies config w) : ∃ policy names,
    config.copyFiles = some policy ∧ CopiedFrom policy config.outputDirs names c ∧ names ≠ [] := by
  obtain ⟨markers₀, w₀, -, -, hcarries⟩ := run_carries hs hok
  cases hpolicy : config.copyFiles with
  | none => simp [copies, hpolicy] at hc
  | some policy =>
    obtain ⟨markers, w₁, -, -, -, hmarkers, -, hcopies⟩ := exists_copyInto_of_run hpolicy hok
    have hsound := (writeMarkers_fileAt hs hmarkers).1.1
    obtain ⟨names, hfrom⟩ := exists_copiedFrom hsound (fun _ => mem_outputDirs) (hcopies ▸ hc)
    refine ⟨policy, names, rfl, hfrom, ?_⟩
    rintro rfl
    exact hcarries.named c hc hfrom.rest_eq

/-- A file that is copied into one of the trees is copied into each. -/
theorem mem_copies_of_mem_outputDirs (hclear : Undisturbed w.disk.cwd (copies config w))
    (hc : c ∈ copies config w) (hext : ¬ Tree.hasListedExtension esmExtensions c.source)
    {dir : Path} (hdir : dir ∈ config.outputDirs) : ⟨c.source, dir, c.rest⟩ ∈ copies config w := by
  obtain ⟨policy, names, hpolicy, hfrom, hne⟩ := copiedFrom_of_mem_copies hs hok hc
  obtain ⟨markers, w₁, report₁, report₂, w₂, hmarkers, hinto, hcopies⟩ :=
    exists_copyInto_of_run hpolicy hok
  obtain ⟨markers', w₁', hmarkers', hinv, hcarries⟩ := run_carries hs hok
  obtain ⟨rfl, rfl⟩ : markers = markers' ∧ w₁ = w₁' := by
    simpa using hmarkers.symm.trans hmarkers'
  obtain ⟨hsource, htarget⟩ := hfrom.not_isScript hne hext c.dest w.disk.cwd
  obtain ⟨content, hold, -⟩ := hcarries.carried hclear c hc hsource htarget
  obtain ⟨o, ho, rfl⟩ := List.mem_map.1 hdir
  rw [hcopies, hfrom.source_eq, hfrom.rest_eq]
  refine mem_copiesInto (carrying_covers config.outputDirs) (fun _ => mem_outputDirs)
    (fun _ h => h.1) hinv ?_ ?_ (hfrom.source_eq ▸ hfrom.included) hinto o ho
  · -- it is still there, since nothing is copied onto it
    rintro x d hleads ⟨-, hcwd⟩ hx
    refine ⟨content, Disk.fileAt_eq_some_iff.1 ?_⟩
    rw [hcwd, ← (hfrom.places c.dest _).1, ← hold]
    exact hx.elsewhere _ hsource fun c' hc' =>
      hclear.apart c' (hcopies ▸ hleads.subset hc') c hc
  · intro p hp
    rw [isPruned_eq (mem_outputDirs hp) hfrom.dest_mem]
    exact hfrom.opened

/-- In the usual layout nothing is copied over. -/
theorem undisturbed_of_layout
    (hlayout : ∀ policy, config.copyFiles = some policy →
      Layout config.outputDirs policy.source w.disk.cwd) :
    Undisturbed w.disk.cwd (copies config w) := by
  cases hpolicy : config.copyFiles with
  | none =>
    have hnone : copies config w = [] := by rw [copies, hpolicy]
    rw [hnone]
    exact ⟨by simp, by simp⟩
  | some policy =>
    refine (hlayout policy hpolicy).undisturbed fun c hc => ?_
    obtain ⟨policy', names, hpolicy', hfrom, hne⟩ := copiedFrom_of_mem_copies hs hok hc
    obtain rfl := Option.some.inj (hpolicy.symm.trans hpolicy')
    exact ⟨names, hfrom, hne⟩

end Whole

/-- **Copying keeps the data.** In a run that succeeds on a disk without links,
each file that is counted as copied, other than a script or a
`package.json`, has in every output tree the bytes from before the run, if
no file is copied onto one that is copied too and no two to one place. -/
theorem copies_carried (hformed : w.disk.WellFormed) (hfree : w.disk.LinkFree)
    (hclear : Undisturbed w.disk.cwd (copies config w)) (hok : run config w = .ok report w') :
    report.filesCopied = (copies config w).length ∧
      ∀ c ∈ copies config w, ¬ Tree.hasListedExtension esmExtensions c.source →
        c.source.fileName? ≠ some "package.json" →
          ∃ content, w.disk.fileAt (c.source.place w.disk.cwd) = some content ∧
            ∀ dir ∈ config.outputDirs,
              w'.disk.fileAt ((dir.join c.rest).place w.disk.cwd) = some content := by
  have hs : w.disk.Sound := ⟨hformed, hfree⟩
  refine ⟨filesCopied_eq_length hok, fun c hc hext hname => ?_⟩
  obtain ⟨policy, names, hpolicy, hfrom, hne⟩ := copiedFrom_of_mem_copies hs hok hc
  obtain ⟨markers, w₁, hmarkers, -, hcarries⟩ := run_carries hs hok
  have hbefore : w₁.disk.fileAt (c.source.place w.disk.cwd) =
      w.disk.fileAt (c.source.place w.disk.cwd) :=
    (writeMarkers_fileAt hs hmarkers).2 _ fun dir _ => hfrom.marker_apart hne hname dir
  obtain ⟨hsource, htarget⟩ := hfrom.not_isScript hne hext c.dest w.disk.cwd
  obtain ⟨content, hold, -⟩ := hcarries.carried hclear c hc hsource htarget
  refine ⟨content, hbefore ▸ hold, fun dir hdir => ?_⟩
  have hthere := mem_copies_of_mem_outputDirs hs hok hclear hc hext hdir
  obtain ⟨content', hold', hnew⟩ := hcarries.carried hclear _ hthere hsource
    (hfrom.not_isScript hne hext dir _).2
  obtain rfl : content = content' := Option.some_inj.1 (hold.symm.trans hold')
  exact hnew

/-- The sample has the usual layout, and its asset reaches both trees. -/
theorem copies_carried_sample : ∃ report w', run sampleConfig ⟨sampleDisk, []⟩ = .ok report w' ∧
    report.filesCopied = 2 ∧
    w'.disk.fileAt ["esm", "data.txt"] = some "data".toUTF8 ∧
    w'.disk.fileAt ["cjs", "data.txt"] = some "data".toUTF8 := by
  have hsucceeds : Outcome.isOk (run sampleConfig ⟨sampleDisk, []⟩) := by decide +kernel
  obtain ⟨report, w', hok⟩ := Outcome.exists_of_isOk hsucceeds
  have hs : (World.mk sampleDisk []).disk.Sound := sound_sampleDisk
  have hclear := undisturbed_of_layout hs hok fun policy hpolicy => by
    obtain rfl := Option.some.inj hpolicy
    exact ⟨by decide +kernel, by decide +kernel,
      spelledBelow_of_isPlain (by decide +kernel) (by decide +kernel)⟩
  obtain ⟨hcount, hcarried⟩ := copies_carried hs.wellFormed hs.linkFree hclear hok
  have hcopies : copies sampleConfig ⟨sampleDisk, []⟩ =
      [⟨⟨"/src/data.txt"⟩, ⟨"/esm"⟩, ⟨"data.txt"⟩⟩, ⟨⟨"/src/data.txt"⟩, ⟨"/cjs"⟩, ⟨"data.txt"⟩⟩] := by
    decide +kernel
  rw [hcopies] at hcount hcarried
  obtain ⟨content, hold, hnew⟩ := hcarried _ List.mem_cons_self (by decide +kernel)
    (by decide +kernel)
  have hdata : sampleDisk.fileAt ["src", "data.txt"] = some "data".toUTF8 := by decide +kernel
  obtain rfl : "data".toUTF8 = content := Option.some.inj (hdata.symm.trans hold)
  exact ⟨report, w', hok, hcount,
    hnew ⟨"/esm"⟩ (by decide +kernel), hnew ⟨"/cjs"⟩ (by decide +kernel)⟩

/-- A source that is an output tree. -/
def inPlaceDisk : Disk :=
  (Disk.mk [] []).set ["out"] .dir |>.set ["out", "data.txt"] (.file "data".toUTF8)

def inPlaceConfig : Config :=
  { Config.empty ⟨"/"⟩ with
    esmDir := some ⟨"/out"⟩
    copyFiles := some (CopyPolicy.ofEndings ⟨"/out"⟩ [".json"]) }

/-- **A file that is copied onto itself is lost.** The configuration is
accepted, the run succeeds and counts the file as copied, and it is empty. -/
theorem data_lost_in_place :
    Config.ofText inPlaceDisk ⟨"/"⟩ ("\x7b\"esmDir\": \"out\", \"copyFiles\": " ++
        "\x7b\"from\": \"out\", \"exclude\": [\".json\"]\x7d\x7d") Config.fileName =
      .ok inPlaceConfig ∧
    Outcome.isOk (run inPlaceConfig ⟨inPlaceDisk, []⟩) ∧
    copies inPlaceConfig ⟨inPlaceDisk, []⟩ =
      [⟨⟨"/out/data.txt"⟩, ⟨"/out"⟩, ⟨"data.txt"⟩⟩] ∧
    inPlaceDisk.fileAt ["out", "data.txt"] = some "data".toUTF8 ∧
    (Outcome.state (run inPlaceConfig ⟨inPlaceDisk, []⟩)).disk.fileAt ["out", "data.txt"] =
      some ByteArray.empty := by
  decide +kernel

end Run

end DualPackage
