import DualPackage.Proofs.CommandLine.Footprint
import DualPackage.Proofs.Config.Existing
import DualPackage.Proofs.Json.RoundTrip
import DualPackage.Proofs.Path.Tidy
import DualPackage.Proofs.Tree.Rewrite
/-!
# A project started from the template

Where a template has been written, by force or not, the configuration it
holds is the one of `Config.started`: both trees in their usual directories,
and assets copied from `src`. It loads if `src` is there in the end, even if
the template itself is what stands there, and the one thing that can be wrong
is that `src` is missing (`writeTemplate_loads`).
-/

namespace DualPackage

namespace Config

variable {root path : Path} {disk : Disk} {name : String}

/-- The copy policy of the template. -/
def startedPolicy (root : Path) : CopyPolicy :=
  ⟨resolvePath root defaultSource, [".js", ".ts"]⟩

/-- The configuration that the template asks for. -/
def started (root : Path) : Config where
  root := root
  esmDir := some (resolvePath root (ModuleKind.defaultDir .esm))
  cjsDir := some (resolvePath root (ModuleKind.defaultDir .cjs))
  copyFiles := some (startedPolicy root)
  addExtensions := true
  aliases := none
  verbose := true

/-- What is spelled by names is below the root. -/
theorem below?_resolvePath (hroot : root.isAbsolute) {names : List String}
    (hspelled : path = ⟨"/".intercalate names⟩) (hnames : ∀ n ∈ names, Path.IsName n) :
    (resolvePath root path).below? root = some path := by
  subst hspelled
  refine Path.below?_of_components ?_
  rw [resolvePath, Path.components_normalized (Path.isAbsolute_join_of hroot _),
    Path.components_join hroot (Path.isAbsolute_intercalate hnames),
    Path.filterMap_location (Path.up_free_intercalate hnames), Path.location_intercalate hnames]

/-- Its directories are the usual ones, seen from the root. -/
theorem started_below (hroot : root.isAbsolute) :
    (∀ kind, ∃ dir, (started root).outputDir? kind = some dir ∧
        dir.below? root = some kind.defaultDir) ∧
      (startedPolicy root).source.below? root = some defaultSource := by
  have hesm : ModuleKind.defaultDir .esm = ⟨"/".intercalate ["dist", "esm"]⟩ := by decide
  have hcjs : ModuleKind.defaultDir .cjs = ⟨"/".intercalate ["dist", "cjs"]⟩ := by decide
  have hsource : defaultSource = ⟨"/".intercalate ["src"]⟩ := by decide
  refine ⟨fun kind => ?_, below?_resolvePath hroot hsource (by decide)⟩
  cases kind with
  | esm => exact ⟨_, rfl, below?_resolvePath hroot hesm (by decide)⟩
  | cjs => exact ⟨_, rfl, below?_resolvePath hroot hcjs (by decide)⟩

theorem parse_template : Json.parse template = .ok templateJson := by
  have hbreak : ∀ c ∈ "\n".toList, Json.isSpace c := by simp [Json.isSpace]
  exact Json.parse_pretty_append Json.exact_template (by decide) hbreak

theorem loadDir_template {fields : Json.Fields} (kind : ModuleKind)
    (hfields : fields.get? kind.configKey = some (.string "auto")) :
    loadDir disk root fields kind = .ok (some (resolvePath root kind.defaultDir)) := by
  rw [loadDir, hfields]
  dsimp only
  rw [nonBlank_of_not_allBlank (by decide)]
  rfl

theorem loadCopyFiles_template (disk : Disk) (root : Path) {fields : Json.Fields}
    (hfields : fields.get? "copyFiles" =
      some (.object [("from", .string "src"), ("exclude", .array [.string ".js"])])) :
    loadCopyFiles disk root fields =
      if disk.pathExists (resolvePath root defaultSource) then .ok (some (startedPolicy root))
      else .error (.pathNotFound "copyFiles.from" (resolvePath root defaultSource)) := by
  have hexclude : loadExclude [("from", .string "src"), ("exclude", .array [.string ".js"])] =
      .ok [".js"] := by
    show loadEndings [.string ".js"] = _
    rw [loadEndings, nonBlank_of_not_allBlank (by decide)]
    rfl
  have hsource : loadSource disk root
      [("from", .string "src"), ("exclude", .array [.string ".js"])] =
        existing disk "copyFiles.from" (resolvePath root defaultSource) := by
    have hget : Json.Fields.get? [("from", .string "src"), ("exclude", .array [.string ".js"])]
        "from" = some (.string "src") := rfl
    rw [loadSource, hget]
    dsimp only
    rw [nonBlank_of_not_allBlank (by decide)]
    rfl
  have hendings : [CopyPolicy.sourceEnding, ".js"].foldr CopyPolicy.addEnding [] =
      [".js", ".ts"] := by decide
  have hpolicy : CopyPolicy.ofEndings (resolvePath root defaultSource) [".js"] =
      startedPolicy root := congrArg (CopyPolicy.mk _) hendings
  simp only [loadCopyFiles, hfields, hexclude, hsource, existing]
  by_cases hexists : disk.pathExists (resolvePath root defaultSource)
  · rw [if_pos hexists, if_pos hexists, ← hpolicy]
    rfl
  · rw [if_neg hexists, if_neg hexists]
    rfl

/-- **Reading the template.** All that is asked of the disk is whether the
directory of the sources is there. -/
theorem ofText_template (disk : Disk) (root path : Path) :
    ofText disk root template path =
      if disk.pathExists (resolvePath root defaultSource) then .ok (started root)
      else .error (.pathNotFound "copyFiles.from" (resolvePath root defaultSource)) := by
  rw [ofText, parse_template, templateJson]
  dsimp only
  rw [ofFields, loadDir_template .esm rfl, loadDir_template .cjs rfl,
    loadCopyFiles_template disk root rfl]
  split <;> rfl

/-- A path that ends in a name exists if it exists written anew. -/
theorem pathExists_resolvePath (hname : Path.IsName name) :
    disk.pathExists (resolvePath root ⟨name⟩) = disk.pathExists (root.join ⟨name⟩) :=
  (Disk.pathExists_normalized_eq_iff (Path.isEmpty_join_name hname)).2
    (not_or.2 ⟨Path.not_onlyDots_join_name hname, fun h => Path.not_asksDir_join_name hname h.1⟩)

end Config

namespace CommandLine

variable {disk after : Disk} {root path : Path} {force : Bool}

/-- The file that holds the template is read as the template. -/
theorem Templated.readText (h : Templated disk after path) :
    after.readText path = .ok Config.template := by
  obtain ⟨loc, -, -, hstat⟩ := h
  rw [Disk.readText_of_stat hstat, fromUTF8?_toUTF8]

/-- What a file that holds the template loads as. -/
theorem Templated.ofFile (h : Templated disk after path) (root : Path) :
    Config.ofFile after root path =
      if after.pathExists (root.join Config.defaultSource) then .ok (Config.started root)
      else .error (.pathNotFound "copyFiles.from" (Config.resolvePath root Config.defaultSource)) := by
  obtain ⟨loc, -, -, hstat⟩ := id h
  rw [Config.ofFile, if_pos (Disk.pathExists_iff.2 ⟨_, hstat⟩), h.readText]
  dsimp only
  rw [Config.ofText_template, show Config.defaultSource = ⟨"src"⟩ from rfl,
    Config.pathExists_resolvePath (by decide)]

/-- **From a template to a configuration.** Where asking for a template has
succeeded, by force or not, the file that it was written to loads if and only
if there is something by the path `src` then. If there is, the configuration
has its output directories in their usual places below the root and copies
assets from `src` but for scripts; and if there is not, it is this that is
reported. -/
theorem writeTemplate_loads (hcode : (writeTemplate disk path force).1.code = 0) (root : Path) :
    (Config.ofFile (writeTemplate disk path force).2 root path =
      if (writeTemplate disk path force).2.pathExists (root.join Config.defaultSource) then
        .ok (Config.started root)
      else
        .error (.pathNotFound "copyFiles.from" (Config.resolvePath root Config.defaultSource))) ∧
    (root.isAbsolute →
      (∀ kind, ∃ dir, (Config.started root).outputDir? kind = some dir ∧
        dir.below? root = some kind.defaultDir) ∧
      (Config.startedPolicy root).source.below? root = some Config.defaultSource) := by
  obtain ⟨hfailed, -⟩ | ⟨-, htemplated, -⟩ := writeTemplate_cases disk path force
  · exact absurd hcode hfailed
  · exact ⟨htemplated.ofFile root, Config.started_below⟩

/-- A project whose sources are not there yet, and one in which the template
takes their place. -/
theorem writeTemplate_loads_fresh :
    Config.ofFile (writeTemplate ⟨[], []⟩ ⟨"/postbuild.config.json"⟩ false).2 ⟨"/"⟩
        ⟨"/postbuild.config.json"⟩ = .error (.pathNotFound "copyFiles.from" ⟨"/src"⟩) ∧
      Config.ofFile (writeTemplate ⟨[], []⟩ ⟨"/src"⟩ true).2 ⟨"/"⟩ ⟨"/src"⟩ =
        .ok (Config.started ⟨"/"⟩) ∧
      (∀ kind, ∃ dir, (Config.started ⟨"/"⟩).outputDir? kind = some dir ∧
        dir.below? ⟨"/"⟩ = some kind.defaultDir) ∧
      (Config.startedPolicy ⟨"/"⟩).source.below? ⟨"/"⟩ = some Config.defaultSource := by
  have hforced : (writeTemplate ⟨[], []⟩ ⟨"/src"⟩ true).1.code = 0 := rfl
  obtain ⟨hloads, hbelow⟩ := writeTemplate_loads hforced ⟨"/"⟩
  exact ⟨(writeTemplate_loads rfl ⟨"/"⟩).1, hloads, hbelow (by decide)⟩

/-- **Asking for a template, then for the project.** A later invocation for the
same root and configuration file loads the template if the sources are there. -/
theorem respond_init_loads {args : List String} {inv : Invocation} {isText : Path → Bool}
    (hargs : Request.ofArguments args = .invoke inv) (hinit : inv.init = true)
    (hcode : (respond disk args isText).1.code = 0) :
    Loads inv (respond disk args isText).2 ↔
      (respond disk args isText).2.pathExists
        ((projectRoot inv disk).join Config.defaultSource) := by
  rw [respond_init hargs hinit] at hcode ⊢
  obtain ⟨hfailed, -⟩ | ⟨-, htemplated, -⟩ :=
    writeTemplate_cases disk (configPath inv disk) inv.force
  · exact absurd hcode hfailed
  · have hcwd : (writeTemplate disk (configPath inv disk) inv.force).2.cwd = disk.cwd := by
      obtain ⟨loc, -, hset, -⟩ := htemplated
      rw [hset, Disk.cwd_set]
    have hroot : projectRoot inv (writeTemplate disk (configPath inv disk) inv.force).2 =
        projectRoot inv disk := by
      rw [projectRoot, hcwd, projectRoot]
    have hpath : configPath inv (writeTemplate disk (configPath inv disk) inv.force).2 =
        configPath inv disk := by
      rw [configPath, hroot, configPath]
    rw [Loads, hroot, hpath, htemplated.ofFile]
    split
    · rename_i hexists
      exact iff_of_true ⟨_, rfl⟩ hexists
    · rename_i hexists
      refine iff_of_false ?_ hexists
      rintro ⟨config, hload⟩
      cases hload

end CommandLine

end DualPackage
