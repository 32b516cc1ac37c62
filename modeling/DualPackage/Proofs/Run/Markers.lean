import DualPackage.Config.Load
import DualPackage.Proofs.Run.Copies
import DualPackage.Proofs.Run.Outputs
import DualPackage.Proofs.Text.FirstMatch
/-!
# Markers that survive

The markers are written first, and the later stages write into the same
trees. The passes leave the text of a marker as it is (`IsPass.marker_eq`),
so it survives the run unless another file is written over it: that of the
other tree, or one that is copied (`markers_survive`). A source that holds
a `package.json` of its own is enough for that
(`marker_overwritten_manifest`).

Links may let many paths lead to one file, so that what is written over a
marker cannot be told from the paths. It is told from the disk in the end:
two paths that lead to one file at any time still do then
(`Disk.SameFile.mono`).
-/

namespace DualPackage

namespace Run

variable {w w' : World} {config : Config} {report : Report} {kind : ModuleKind} {f : String → String}
  {d d' : Disk} {marker q source : Path} {bytes content : ByteArray} {others : List Path}

/-- **The passes leave markers alone**, whatever the aliases. -/
theorem IsPass.marker_eq (h : IsPass f) (kind : ModuleKind) :
    f (Marker.content kind) = Marker.content kind := by
  cases h with
  | adjust => cases kind <;> decide +kernel
  | extend => cases kind <;> decide +kernel
  | resolve table append =>
    have hnone : Form.anyFrom.finder.found (Marker.content kind).toList = [] := by
      cases kind <;> decide +kernel
    rw [onContent, DualPackage.resolveAliases, Form.revise, Text.Finder.replace_of_found_nil hnone,
      String.ofList_toList]

/-- An account of a marker: it goes on being read unless a file is written
over it, at one of the paths in `others` or by a copy. -/
def marked (marker : Path) (bytes : ByteArray) (others : List Path) : Account Disk Copied where
  holds x d d' := d.Grows Disk.anywhere Disk.anywhere d' ∧
    ((∀ q ∈ others ++ x.map Copied.target, ¬ d'.SameFile marker q) →
      d.readFile marker = .ok bytes → d'.readFile marker = .ok bytes)
  nil d := ⟨.refl d, fun _ h => h⟩
  append := by
    rintro x y d₁ d₂ d₃ ⟨hgrows, hread⟩ ⟨hgrows', hread'⟩
    refine ⟨hgrows.trans hgrows', fun hapart h => hread' (fun q hq => hapart q ?_)
      (hread (fun q hq hsame => hapart q ?_ (hsame.mono hgrows')) h)⟩
    · rw [List.map_append, ← List.append_assoc]
      rcases List.mem_append.1 hq with hq | hq
      · exact List.mem_append_left _ (List.mem_append_left _ hq)
      · exact List.mem_append_right _ hq
    · rw [List.map_append, ← List.append_assoc]
      exact List.mem_append_left _ hq

theorem marked_makeDir (p : Path) :
    ((marked marker bytes others).silent fun _ => True).Allows (·.makeDir p) := by
  intro d d' _ hok
  have hgrows := Disk.makeDir_grows hok
  exact ⟨trivial, hgrows.mono (fun _ h => h) (fun _ => False.elim), fun _ => hgrows.readFile_eq⟩

theorem marked_writeFile (hq : q ∈ others) (content : ByteArray) :
    ((marked marker bytes others).silent fun _ => True).Allows (·.writeFile q content) := by
  intro d d' _ hok
  obtain ⟨loc, hwritable, hgrows, -⟩ := Disk.writeFile_grows hok
  refine ⟨trivial, hgrows.mono (fun _ => False.elim) (fun _ _ => trivial), fun hapart h => ?_⟩
  exact (hgrows.readFile_or_sameFile hwritable h).resolve_right fun hsame =>
    hapart q (List.mem_append_left _ hq) hsame.2

theorem marked_copyFile (c : Copied) (hok : d.copyFile c.source c.target = .ok d') :
    (marked marker bytes others).holds [c] d d' := by
  obtain ⟨loc, content, hwritable, hgrows, -⟩ := Disk.copyFile_grows hok
  refine ⟨hgrows.mono (fun _ => False.elim) (fun _ _ => trivial), fun hapart h => ?_⟩
  exact (hgrows.readFile_or_sameFile hwritable h).resolve_right fun hsame =>
    hapart c.target (by simp) hsame.2

/-- The passes do not write a marker, since they would not change it. -/
theorem marked_rewritable (kind : ModuleKind) (dirs : List Path) :
    Rewritable ((marked marker (Marker.content kind).toUTF8 others).silent fun _ => True)
      (fun _ => True) dirs where
  listed := fun _ _ _ _ _ => trivial
  passes dir _ names _ _ f hf := Tree.rewriteFile_keeps fun d text d' _ hread hchanged hok => by
    obtain ⟨loc, hwritable, hgrows, -⟩ := Disk.writeFile_grows hok
    refine ⟨trivial, hgrows.mono (fun _ => False.elim) (fun _ _ => trivial), fun _ h => ?_⟩
    refine (hgrows.readFile_or_sameFile hwritable h).resolve_right ?_
    rintro ⟨hmarker, -⟩
    -- what is read is the marker itself
    obtain ⟨content, hfile, htext⟩ := Disk.readText_eq_ok hread
    obtain ⟨l, hstat⟩ := Disk.readFile_eq_ok_iff.1 hfile
    obtain rfl := Disk.eq_of_stat_of_writable hstat hwritable
    have hbytes : content = (Marker.content kind).toUTF8 := by
      have hhere := (Disk.get?_of_stat hstat).symm.trans (Disk.get?_of_stat hmarker)
      simpa using hhere
    rw [hbytes, fromUTF8?_toUTF8, Option.some.injEq] at htext
    exact hchanged (htext ▸ hf.marker_eq kind)

theorem marked_covers (kind : ModuleKind) (dirs : List Path) :
    (marked marker (Marker.content kind).toUTF8 others).Covers (fun _ => True) (fun _ => True)
      dirs where
  makeDir := marked_makeDir
  copyFile c _ _ _ hok := ⟨trivial, marked_copyFile c hok⟩
  rewritable := marked_rewritable kind dirs

/-- Each marker is there once all are written, if no two are one file. -/
theorem markers_written {outputs : List (ModuleKind × Path)} {paths : List Path}
    (hapart : outputs.Pairwise fun o p =>
      ¬ w'.disk.SameFile (o.2.join Marker.fileName) (p.2.join Marker.fileName))
    (hok : (outputs.mapM fun o => do
      Build.log (.creatingMarker o.1)
      Marker.write o.2 o.1 : Build (List Path)) w = .ok paths w') :
    ∀ o ∈ outputs,
      w'.disk.readFile (o.2.join Marker.fileName) = .ok (Marker.content o.1).toUTF8 := by
  induction outputs generalizing w paths with
  | nil => simp
  | cons o outputs ih =>
    obtain ⟨hne, hapart⟩ := List.pairwise_cons.1 hapart
    obtain ⟨path, w₂, rest, hone, hrest, -⟩ := Outcome.mapM_cons_ok hok
    refine List.forall_mem_cons.2 ⟨?_, ih hapart hrest⟩
    obtain ⟨⟨⟩, w₁, -, hone⟩ := Outcome.bind_ok hone
    obtain ⟨⟨⟩, w₃, -, hone⟩ := Outcome.bind_ok hone
    obtain ⟨⟨⟩, w₄, hwrite, hone⟩ := Outcome.bind_ok hone
    obtain ⟨-, rfl⟩ := Outcome.pure_ok hone
    have hhere := Disk.readFile_of_writeFile (Build.update_ok hwrite)
    -- those written after it are other files
    let C := (marked (o.2.join Marker.fileName) (Marker.content o.1).toUTF8
      (outputs.map fun p => p.2.join Marker.fileName)).silent fun _ => True
    have hmarker : ∀ p ∈ outputs, (C.along World.disk).Keeps (do
        Build.log (.creatingMarker p.1)
        Marker.write p.2 p.1) := fun p hp =>
      marker_keeps (Contract.keeps_createDirAll fun q _ => marked_makeDir q) fun content =>
        marked_writeFile (List.mem_map_of_mem hp) content
    have hkeeps := Contract.Keeps.mapM hmarker
    obtain ⟨-, -, hread⟩ := hkeeps.step trivial hrest
    refine hread (fun q hq => ?_) hhere
    rw [List.map_nil, List.append_nil] at hq
    obtain ⟨p, hp, rfl⟩ := List.mem_map.1 hq
    exact hne p hp

/-- **The markers survive a run** that succeeds, on any disk, if the files of
the markers are different ones and nothing is copied over them. -/
theorem markers_survive (hok : run config w = .ok report w')
    (hapart : config.outputs.Pairwise fun o p =>
      ¬ w'.disk.SameFile (o.2.join Marker.fileName) (p.2.join Marker.fileName))
    (hcopies : ∀ dir ∈ config.outputDirs, ∀ c ∈ copies config w,
      ¬ w'.disk.SameFile (dir.join Marker.fileName) c.target) :
    ∀ kind dir, config.outputDir? kind = some dir →
      w'.disk.readFile (dir.join Marker.fileName) = .ok (Marker.content kind).toUTF8 := by
  intro kind dir hkind
  have hmem := Config.mem_outputs hkind
  obtain ⟨paths, w₁, hmarkers, hholds⟩ := run_accounted
    (A := marked (dir.join Marker.fileName) (Marker.content kind).toUTF8 [])
    (marked_covers kind config.outputDirs) hok
  obtain ⟨-, hgrows, hread⟩ := hholds trivial
  refine hread (fun q hq => ?_) ?_
  · rw [List.nil_append] at hq
    obtain ⟨c, hc, rfl⟩ := List.mem_map.1 hq
    exact hcopies dir (mem_outputDirs hmem) c hc
  · have hapart₁ : config.outputs.Pairwise fun o p =>
        ¬ w₁.disk.SameFile (o.2.join Marker.fileName) (p.2.join Marker.fileName) :=
      hapart.imp fun hne hsame => hne (hsame.mono hgrows)
    exact markers_written hapart₁ hmarkers (kind, dir) hmem

/-- On a disk without links, it is enough that the places differ. -/
theorem not_sameFile_of_place_ne (hs : w.disk.Sound) (hok : run config w = .ok report w')
    {p q : Path} (hne : p.place w.disk.cwd ≠ q.place w.disk.cwd) : ¬ w'.disk.SameFile p q := by
  have hrun := @run_grows config w hs
  rw [hok] at hrun
  obtain ⟨hsound, hgrows⟩ := hrun
  intro hsame
  exact hne (hgrows.cwd ▸ hsame.place_eq hsound)

/-- The sample keeps both markers. -/
theorem markers_survive_sample : ∃ report w', run sampleConfig ⟨sampleDisk, []⟩ = .ok report w' ∧
    w'.disk.readFile (Path.join ⟨"/esm"⟩ Marker.fileName) = .ok (Marker.content .esm).toUTF8 ∧
    w'.disk.readFile (Path.join ⟨"/cjs"⟩ Marker.fileName) = .ok (Marker.content .cjs).toUTF8 := by
  have hsucceeds : Outcome.isOk (run sampleConfig ⟨sampleDisk, []⟩) := by decide +kernel
  obtain ⟨report, w', hok⟩ := Outcome.exists_of_isOk hsucceeds
  have hsound : (World.mk sampleDisk []).disk.Sound := sound_sampleDisk
  have hapart : sampleConfig.outputs.Pairwise fun o p =>
      (o.2.join Marker.fileName).place [] ≠ (p.2.join Marker.fileName).place [] := by
    decide +kernel
  have hcopies : ∀ dir ∈ sampleConfig.outputDirs, ∀ c ∈ copies sampleConfig ⟨sampleDisk, []⟩,
      (dir.join Marker.fileName).place [] ≠ c.target.place [] := by decide +kernel
  have hread := markers_survive hok (hapart.imp fun hne => not_sameFile_of_place_ne hsound hok hne)
    fun dir hdir c hc => not_sameFile_of_place_ne hsound hok (hcopies dir hdir c hc)
  exact ⟨report, w', hok, hread .esm _ rfl, hread .cjs _ rfl⟩

/-- A source with a `package.json` of its own. -/
def manifestDisk : Disk :=
  (Disk.mk [] []).set ["src"] .dir |>.set ["src", "package.json"] (.file "\x7b\x7d".toUTF8)

def manifestConfig : Config :=
  { Config.empty ⟨"/"⟩ with
    esmDir := some ⟨"/dist/esm"⟩
    copyFiles := some (CopyPolicy.ofEndings ⟨"/src"⟩ []) }

/-- **A marker is lost to a copy.** The configuration is accepted and the run
succeeds, and the file of that name from the source stands in the place of
the marker. -/
theorem marker_overwritten_manifest :
    Config.ofText manifestDisk ⟨"/"⟩
        "\x7b\"esmDir\": \"auto\", \"copyFiles\": \x7b\x7d\x7d" Config.fileName =
      .ok manifestConfig ∧
    Outcome.isOk (run manifestConfig ⟨manifestDisk, []⟩) ∧
    (Outcome.state (run manifestConfig ⟨manifestDisk, []⟩)).disk.readFile
      (Path.join ⟨"/dist/esm"⟩ Marker.fileName) = .ok "\x7b\x7d".toUTF8 ∧
    (Marker.content .esm).toUTF8 ≠ "\x7b\x7d".toUTF8 := by
  decide +kernel

end Run

end DualPackage
