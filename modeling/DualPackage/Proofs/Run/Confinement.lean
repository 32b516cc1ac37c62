import DualPackage.Proofs.Run.Outputs
import DualPackage.Proofs.Run.Stages
/-!
# Where a run leaves its marks

A run writes into the output trees and nowhere else, whether it succeeds
or breaks off, and wherever it copies from (`run_confined`). Nothing is
taken away by it. Outside the output trees it makes at most the
directories that are missing on the way to them.
-/

namespace DualPackage

namespace Disk

/-- The disk `d'` is `d` after something was done in some directories. -/
structure Confined (dirs : List Path) (d d' : Disk) : Prop where
  /-- Nothing is taken away, and a file stays a file. -/
  kept : ∀ l e, d.get? l = some e →
    d'.get? l = some e ∨ ∃ old new, e = .file old ∧ d'.get? l = some (.file new)
  /-- Elsewhere nothing is new but directories above those given. -/
  outside : ∀ l, (∀ dir ∈ dirs, ¬ dir.location <+: l) →
    d'.get? l = d.get? l ∨
      d.get? l = none ∧ d'.get? l = some .dir ∧ ∃ dir ∈ dirs, l <+: dir.location

/-- On the way to one of the directories, or in it. -/
def OnWayOrIn (dirs : List Path) (l : Location) : Prop :=
  ∃ dir ∈ dirs, l <+: dir.location ∨ dir.location <+: l

/-- In one of the directories. -/
def In (dirs : List Path) (l : Location) : Prop :=
  ∃ dir ∈ dirs, dir.location <+: l

theorem Grows.confined {dirs : List Path} {d d' : Disk}
    (h : d.Grows (OnWayOrIn dirs) (In dirs) d') : Confined dirs d d' where
  kept l e he := (he ▸ h.change l).kept.imp_right And.right
  outside l hl := by
    have hunwritten : ¬ In dirs l := fun ⟨dir, hdir, hin⟩ => hl dir hdir hin
    cases hget : d.get? l with
    | some e => exact .inl (h.of_unwritten hunwritten hget)
    | none =>
      refine (hget ▸ h.change l).new hunwritten |>.imp_right ?_
      rintro ⟨⟨dir, hdir, hway | hin⟩, hnew⟩
      · exact ⟨rfl, hnew, dir, hdir, hway⟩
      · exact absurd hin (hl dir hdir)

end Disk

namespace Contract

open Disk

variable {dirs : List Path} {cwd : Location} {p dir : Path}

/-- A directory in one of those given may be made, with all above it. -/
theorem growing_createDirAll (hp : p.IsPlain) (hdir : dir ∈ dirs)
    (hbelow : dir.location <+: p.location) :
    (growing (OnWayOrIn dirs) (In dirs) cwd).Keeps (DiskM.createDirAll p) :=
  growing_createDirAll_plain hp fun _ hleads =>
    ⟨dir, hdir, List.prefix_or_prefix_of_prefix hleads hbelow⟩

theorem growing_admits (hplain : dir.IsPlain) (hdir : dir ∈ dirs) :
    (growing (OnWayOrIn dirs) (In dirs) cwd).Admits dir where
  tree := growing_createDirAll hplain hdir (List.prefix_refl _)
  dirs names hnames := by
    obtain ⟨hp, hloc⟩ := Path.isPlain_join_names hplain hnames
    exact growing_createDirAll hp hdir (hloc ▸ List.prefix_append _ _)
  copies names hnames source := by
    refine growing_copyFile ⟨dir, hdir, ?_⟩
    rw [Path.place_join_names hnames, hplain.place_eq]
    exact List.prefix_append _ _
  writes names hnames content := by
    refine growing_writeFile ⟨dir, hdir, ?_⟩ content
    rw [Path.place_under hnames, hplain.place_eq]
    exact List.prefix_append _ _

end Contract

namespace Run

variable {w : World} {config : Config}

/-- **A run is confined to the output trees**, on a disk without links and
whatever comes of it. In particular it writes nothing into a directory
apart from all of them, such as that of a tree the configuration leaves
out. -/
theorem run_confined (hformed : w.disk.WellFormed) (hfree : w.disk.LinkFree)
    (hplain : ∀ dir ∈ config.outputDirs, dir.IsPlain) :
    Disk.Confined config.outputDirs w.disk (Outcome.state (run config w)).disk ∧
      ∀ other, (∀ dir ∈ config.outputDirs, Path.Apart other dir) → ∀ rel,
        (Outcome.state (run config w)).disk.get? (other.location ++ rel) =
          w.disk.get? (other.location ++ rel) := by
  have hkeeps := run_keeps (C := Contract.growing (Disk.OnWayOrIn config.outputDirs)
    (Disk.In config.outputDirs) w.disk.cwd)
    (fun _ hd _ _ => hd.1.isName_of_mem_children)
    fun dir hdir => Contract.growing_admits (hplain dir hdir) hdir
  obtain ⟨-, hgrows⟩ := Contract.state_of_always (hkeeps w ⟨⟨hformed, hfree⟩, rfl⟩)
  have hconfined := hgrows.confined
  refine ⟨hconfined, fun other hapart rel => ?_⟩
  -- what is apart from an output directory is not on the way to it either
  have hin : ∀ dir ∈ config.outputDirs, ¬ dir.location <+: other.location ++ rel :=
    fun dir hdir => (hapart dir hdir).symm.not_prefix_append rel
  rcases hconfined.outside _ hin with hsame | ⟨-, -, dir, hdir, hway⟩
  · exact hsame
  · exact absurd ((List.prefix_append _ rel).trans hway) (hapart dir hdir).not_above

/-- A run that finds nothing to copy from. -/
def strayConfig : Config :=
  { sampleConfig with copyFiles := some (CopyPolicy.ofEndings ⟨"/missing"⟩ []) }

/-- It breaks off with the markers written, and leaves the source alone. -/
theorem run_confined_stray :
    Outcome.isOk (run strayConfig ⟨sampleDisk, []⟩) = false ∧
    (Outcome.state (run strayConfig ⟨sampleDisk, []⟩)).disk.fileAt ["cjs", "package.json"] =
      some (Marker.content .cjs).toUTF8 ∧
    Disk.Confined [⟨"/esm"⟩, ⟨"/cjs"⟩] sampleDisk
      (Outcome.state (run strayConfig ⟨sampleDisk, []⟩)).disk ∧
    (Outcome.state (run strayConfig ⟨sampleDisk, []⟩)).disk.get? ["src", "data.txt"] =
      some (.file "data".toUTF8) := by
  have hsound : (World.mk sampleDisk []).disk.Sound := sound_sampleDisk
  have hplain : ∀ dir ∈ strayConfig.outputDirs, dir.IsPlain := by decide +kernel
  have hapart : ∀ dir ∈ strayConfig.outputDirs, Path.Apart ⟨"/src"⟩ dir := by decide +kernel
  obtain ⟨hconfined, hother⟩ := run_confined hsound.wellFormed hsound.linkFree hplain
  exact ⟨by decide +kernel, by decide +kernel, hconfined,
    (hother ⟨"/src"⟩ hapart ["data.txt"]).trans (by decide +kernel)⟩

end Run

end DualPackage
