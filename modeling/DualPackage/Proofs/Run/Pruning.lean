import DualPackage.Config.Load
import DualPackage.Proofs.Run.Copies
/-!
# Output trees below the source

A copy leaves out the output directories that lie below its source. It
knows them by their components, and so it finds one only if the
configuration spells it as the walk does: as the source with names behind
it (`SpelledBelow`). Then nothing inside of it is ever met
(`assetSightings_outside`). Plain paths are spelled so, whatever slashes
and dots they hold besides (`spelledBelow_of_isPlain`); one that goes up
and down again is not, and its tree is walked through
(`assetSightings_inside_winding`).
-/

namespace DualPackage

namespace Run

variable {w : World} {config : Config} {policy : CopyPolicy} {outputs : List Path}
  {source dest o : Path} {cwd : Location} {rel inner : List String}

/-- The outputs that lie below the source have the components that a walk
gives to their place. -/
def SpelledBelow (outputs : List Path) (source : Path) (cwd : Location) : Prop :=
  ∀ o ∈ outputs, ∀ rel ≠ [], o.place cwd = source.place cwd ++ rel → o.same (source.under rel)

theorem spelledBelow_of_isPlain (hsource : source.IsPlain) (houtputs : ∀ o ∈ outputs, o.IsPlain) :
    SpelledBelow outputs source cwd := by
  intro o ho rel _ hplace
  have hplain := houtputs o ho
  rw [hplain.place_eq, hsource.place_eq] at hplace
  have hnames : ∀ n ∈ rel, Path.IsName n := fun n hn =>
    hplain.isName_of_mem_location (hplace ▸ List.mem_append_right _ hn)
  obtain ⟨hunder, hloc⟩ := Path.isPlain_under hsource hnames
  rw [hplain.same_iff hunder, hloc, hplace]

/-- A directory that is spelled as the walk spells it is left out. -/
theorem isPruned_of_same {dir : Path} (ho : o ∈ outputs) (hsame : o.same dir) :
    Tree.isPruned outputs dest dir = true := by
  have : (outputs ++ [dest]).any (·.same dir) = true :=
    List.any_eq_true.2 ⟨o, List.mem_append_left _ ho, hsame⟩
  rw [Tree.isPruned, this, Bool.or_true]

/-- The way into an output tree below the source is closed. -/
theorem SpelledBelow.not_open (h : SpelledBelow outputs source cwd) (ho : o ∈ outputs)
    (hrel : rel ≠ []) (hbelow : o.place cwd = source.place cwd ++ rel) (hinner : inner ≠ []) :
    ¬ Tree.Open (Tree.isPruned outputs dest) source (rel ++ inner) := by
  intro hopen
  have hleft := hopen rel hrel (List.prefix_append _ _) fun heq =>
    hinner (List.self_eq_append_right.1 heq)
  rw [isPruned_of_same ho (h o ho rel hrel hbelow)] at hleft
  cases hleft

/-- **Nothing inside an output tree is met** by the copying stage, on a disk
without links and whatever comes of it, if the output directories below
the source are spelled as walks spell them. -/
theorem assetSightings_outside (hformed : w.disk.WellFormed) (hfree : w.disk.LinkFree)
    (hpolicy : config.copyFiles = some policy)
    (hspelled : SpelledBelow config.outputDirs policy.source w.disk.cwd) :
    ∀ x ∈ assetSightings config w, ∀ o ∈ config.outputDirs, ∀ rel ≠ [],
      o.place w.disk.cwd = policy.source.place w.disk.cwd ++ rel →
        ∀ inner ≠ [], x.2.path.place w.disk.cwd ≠ o.place w.disk.cwd ++ inner := by
  intro x hx o ho rel hrel hbelow inner hinner hinside
  obtain ⟨-, names, hnames, hmet⟩ := met_of_mem_assetSightings ⟨hformed, hfree⟩ hpolicy hx
  -- the way to what is met would lead through the output directory
  have hway : names = rel ++ inner := by
    rw [hmet.path_eq, Path.place_under hnames, hbelow, List.append_assoc] at hinside
    exact List.append_cancel_left hinside
  exact hspelled.not_open ho hrel hbelow hinner (hway ▸ hmet.opened)

/-- An output tree below the source, with a file from before. -/
def nestedDisk : Disk :=
  (Disk.mk [] []).set ["src"] .dir
    |>.set ["src", "a.txt"] (.file "a".toUTF8)
    |>.set ["src", "out"] .dir
    |>.set ["src", "out", "b.txt"] (.file "b".toUTF8)
    |>.set ["x"] .dir

theorem sound_nestedDisk : nestedDisk.Sound := by
  have hsrc := Disk.sound_blank.set [] "src" .dir rfl (by decide) (by simp) (by decide)
  have hasset := hsrc.set ["src"] "a.txt" (.file "a".toUTF8) rfl (by decide) (by simp)
    (by decide +kernel)
  have hout := hasset.set ["src"] "out" .dir rfl (by decide) (by simp) (by decide +kernel)
  have hold := hout.set ["src", "out"] "b.txt" (.file "b".toUTF8) rfl (by decide) (by simp)
    (by decide +kernel)
  exact hold.set [] "x" .dir rfl (by decide) (by simp) (by decide +kernel)

/-- A configuration with one output tree below the source. -/
def nestedConfig (dir : Path) : Config :=
  { Config.empty ⟨"/"⟩ with
    esmDir := some dir
    copyFiles := some (CopyPolicy.ofEndings ⟨"/src"⟩ []) }

/-- Here the output tree is left out, whatever slashes and dots its path
holds, and the asset next to it is met. -/
theorem assetSightings_outside_nested :
    (⟨"/./src//out/"⟩, .entry ⟨⟨"/src/a.txt"⟩, 1, false⟩) ∈
        assetSightings (nestedConfig ⟨"/./src//out/"⟩) ⟨nestedDisk, []⟩ ∧
      ∀ x ∈ assetSightings (nestedConfig ⟨"/./src//out/"⟩) ⟨nestedDisk, []⟩,
        ∀ inner ≠ [], x.2.path.place [] ≠ ["src", "out"] ++ inner := by
  have hsound : (World.mk nestedDisk []).disk.Sound := sound_nestedDisk
  have hspelled : SpelledBelow (nestedConfig ⟨"/./src//out/"⟩).outputDirs ⟨"/src"⟩ [] :=
    spelledBelow_of_isPlain (by decide +kernel) (by decide +kernel)
  have hpolicy : (nestedConfig ⟨"/./src//out/"⟩).copyFiles =
      some (CopyPolicy.ofEndings ⟨"/src"⟩ []) := rfl
  refine ⟨by decide +kernel, fun x hx inner hinner => ?_⟩
  exact assetSightings_outside hsound.wellFormed hsound.linkFree hpolicy hspelled x hx
    ⟨"/./src//out/"⟩ (by decide +kernel) ["out"] (by decide) (by decide +kernel) inner hinner

/-- **An output tree that is spelled another way is walked through.** The
configuration is accepted, its output directory lies below the source, and
the file inside is met and copied into the tree once more. -/
theorem assetSightings_inside_winding :
    Config.ofText nestedDisk ⟨"/"⟩
        "\x7b\"esmDir\": \"x/../src/out\", \"copyFiles\": \x7b\x7d\x7d" Config.fileName =
      .ok (nestedConfig ⟨"/x/../src/out"⟩) ∧
    (⟨"/x/../src/out"⟩ : Path).place [] = ["src", "out"] ∧
    (⟨"/x/../src/out"⟩, .entry ⟨⟨"/src/out/b.txt"⟩, 2, false⟩) ∈
      assetSightings (nestedConfig ⟨"/x/../src/out"⟩) ⟨nestedDisk, []⟩ ∧
    (Outcome.state (copyAssets (nestedConfig ⟨"/x/../src/out"⟩) .empty
      ⟨nestedDisk, []⟩)).disk.fileAt ["src", "out", "out", "b.txt"] = some "b".toUTF8 := by
  decide +kernel

end Run

end DualPackage
