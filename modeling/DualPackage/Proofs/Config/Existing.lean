import DualPackage.Config.Load
import DualPackage.Proofs.Disk.Dots
/-!
# Output directories that have to exist

An output directory given by a path is accepted if the path exists, tested
after the path has lost its dots and the slash at its end. So the answer is
whether the path that was configured exists, but for the cases where these
matter (`ofText_explicitDir`), and in those it is the wrong one.
-/

namespace DualPackage

namespace Config

variable {disk : Disk} {root path : Path} {dir text : String}

theorem nonBlank_of_not_allBlank {key : String} (h : Text.allBlank dir.toList = false) :
    nonBlank key (.string dir) = .ok dir := by
  rw [nonBlank, h]
  rfl

/-- A directory given by a path is looked for without its dots. -/
theorem loadDir_explicit (hblank : Text.allBlank dir.toList = false) (hauto : dir ≠ autoDir) :
    loadDir disk root [("esmDir", .string dir)] .esm =
      if disk.pathExists (resolvePath root ⟨dir⟩) then .ok (some (resolvePath root ⟨dir⟩))
      else .error (.pathNotFound "esmDir" (resolvePath root ⟨dir⟩)) := by
  have hget : Json.Fields.get? [("esmDir", .string dir)] (ModuleKind.configKey .esm) =
      some (.string dir) := rfl
  rw [loadDir, hget]
  dsimp only
  rw [nonBlank_of_not_allBlank hblank]
  show (if dir = autoDir then _ else _) = _
  rw [if_neg hauto, existing]
  split <;> rfl

theorem ofFields_explicitDir (hblank : Text.allBlank dir.toList = false) (hauto : dir ≠ autoDir) :
    ofFields disk root [("esmDir", .string dir)] =
      if disk.pathExists (resolvePath root ⟨dir⟩) then
        .ok { empty root with esmDir := some (resolvePath root ⟨dir⟩) }
      else .error (.pathNotFound "esmDir" (resolvePath root ⟨dir⟩)) := by
  show (loadDir disk root [("esmDir", .string dir)] .esm >>= _) = _
  rw [loadDir_explicit hblank hauto]
  split <;> rfl

/-- A path that is joined to one with a text has a text. -/
theorem isEmpty_join (hblank : Text.allBlank dir.toList = false) :
    (root.join ⟨dir⟩).text.isEmpty = false := by
  have hne : dir ≠ "" := by
    rintro rfl
    cases hblank
  rw [← Bool.not_eq_true, String.isEmpty_iff]
  unfold Path.join
  split_ifs <;> simp [hne]

/-- **A directory given by a path** is taken over or reported as missing, and it
is taken over exactly if the path exists, unless the dots of that path or the
slash at its end matter. -/
theorem ofText_explicitDir (hparse : Json.parse text = .ok (.object [("esmDir", .string dir)]))
    (hblank : Text.allBlank dir.toList = false) (hauto : dir ≠ autoDir) :
    (ofText disk root text path =
        .ok { empty root with esmDir := some (root.join ⟨dir⟩).normalized } ∨
      ofText disk root text path =
        .error (.pathNotFound "esmDir" (root.join ⟨dir⟩).normalized)) ∧
    ((ofText disk root text path).isOk = disk.pathExists (root.join ⟨dir⟩) ↔
      ¬ disk.DotsMatter (root.join ⟨dir⟩)) := by
  have hload : ofText disk root text path =
      if disk.pathExists (root.join ⟨dir⟩).normalized then
        .ok { empty root with esmDir := some (root.join ⟨dir⟩).normalized }
      else .error (.pathNotFound "esmDir" (root.join ⟨dir⟩).normalized) := by
    rw [ofText, hparse]
    exact ofFields_explicitDir hblank hauto
  have hok : (ofText disk root text path).isOk = disk.pathExists (root.join ⟨dir⟩).normalized := by
    rw [hload]
    split
    · rename_i hexists
      exact hexists.symm
    · rename_i hexists
      exact (Bool.eq_false_of_not_eq_true hexists).symm
  refine ⟨?_, ?_⟩
  · rw [hload]
    split
    · exact .inl rfl
    · exact .inr rfl
  · rw [hok]
    exact Disk.pathExists_normalized_eq_iff (isEmpty_join hblank)

/-- A disk with one directory, whose name is that of an output tree. -/
def oneDir : Disk := ⟨[(["out"], .dir)], []⟩

theorem ofText_explicitDir_out :
    (ofText oneDir ⟨"/"⟩ "\x7b\"esmDir\": \"./out/.\"\x7d" fileName).isOk =
      oneDir.pathExists ⟨"/./out/."⟩ := by
  have hparse : Json.parse "\x7b\"esmDir\": \"./out/.\"\x7d" =
      .ok (.object [("esmDir", .string "./out/.")]) := rfl
  refine (ofText_explicitDir hparse rfl (by decide)).2.2 ?_
  rintro (hdots | ⟨-, loc, content, hfile⟩)
  · exact absurd hdots (by decide)
  · cases hfile

/-- The working directory is there, and is reported as missing if both the root
and the path are spelled as a dot. -/
theorem ofText_dot :
    (⟨[], []⟩ : Disk).pathExists ((⟨"."⟩ : Path).join ⟨"."⟩) = true ∧
      ofText ⟨[], []⟩ ⟨"."⟩ "\x7b\"esmDir\": \".\"\x7d" fileName =
        .error (.pathNotFound "esmDir" ⟨""⟩) :=
  ⟨rfl, rfl⟩

/-- A file is taken for the directory that a slash at the end asks for. -/
example :
    (⟨[(["f.txt"], .file .empty)], []⟩ : Disk).pathExists ((⟨"/"⟩ : Path).join ⟨"f.txt/"⟩) = false ∧
      ofText ⟨[(["f.txt"], .file .empty)], []⟩ ⟨"/"⟩ "\x7b\"esmDir\": \"f.txt/\"\x7d" fileName =
        .ok { empty ⟨"/"⟩ with esmDir := some ⟨"/f.txt"⟩ } :=
  ⟨rfl, rfl⟩

end Config

end DualPackage
