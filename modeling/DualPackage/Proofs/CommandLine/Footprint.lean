import DualPackage.CommandLine.Execute
import DualPackage.Proofs.CommandLine.Spelling
import DualPackage.Proofs.Disk.Growth
import DualPackage.Proofs.Path.Absolute
import DualPackage.Proofs.Run.Outcome
/-!
# What an invocation touches

Only a run and the writing of a template change the disk. A run is reached if
the configuration loads, and validating that configuration ends with code zero
in the same case, since both look it up alike; showing it does too, but only if
all its paths are text. A template goes into the one file that the path of the
configuration leads to, and without force only if there is none
(`respond_touches`).
-/

namespace DualPackage

namespace Config

variable {isText : Path → Bool} {config : Config} {path : Path}

/-- The paths of a configuration are text, so that it can be shown. -/
structure Showable (isText : Path → Bool) (config : Config) : Prop where
  root : isText config.root
  outputs : ∀ kind dir, config.outputDir? kind = some dir → isText dir
  source : ∀ policy, config.copyFiles = some policy → isText policy.source

theorem mem_paths :
    path ∈ config.paths ↔ path = config.root ∨ (∃ kind, config.outputDir? kind = some path) ∨
      ∃ policy, config.copyFiles = some policy ∧ policy.source = path := by
  have houtput : path ∈ config.outputDirs ↔ ∃ kind, config.outputDir? kind = some path := by
    simp [outputDirs, outputs]
  have hsource : path ∈ (config.copyFiles.map CopyPolicy.source).toList ↔
      ∃ policy, config.copyFiles = some policy ∧ policy.source = path := by
    rw [Option.mem_toList, Option.map_eq_some_iff]
  rw [paths, List.cons_append, List.mem_cons, List.mem_append, houtput, hsource]

theorem showable_iff : config.Showable isText ↔ config.paths.all isText := by
  simp only [List.all_eq_true, mem_paths]
  constructor
  · rintro h path (rfl | ⟨kind, hdir⟩ | ⟨policy, hcopy, rfl⟩)
    · exact h.root
    · exact h.outputs kind path hdir
    · exact h.source policy hcopy
  · intro h
    exact ⟨h _ (.inl rfl), fun kind dir hdir => h dir (.inr (.inl ⟨kind, hdir⟩)),
      fun policy hcopy => h _ (.inr (.inr ⟨policy, hcopy, rfl⟩))⟩

theorem render_of_showable (h : config.Showable isText) :
    config.render isText = .ok config.toJson.pretty :=
  if_pos (showable_iff.1 h)

theorem render_of_not_showable (h : ¬ config.Showable isText) :
    config.render isText = .error "path contains invalid UTF-8 characters" :=
  if_neg fun hall => h (showable_iff.2 hall)

end Config

namespace CommandLine

variable {disk after : Disk} {args args' : List String} {inv inv' : Invocation} {path : Path}
  {force : Bool} {isText : Path → Bool} {config : Config}

/-- The configuration file that an invocation is about is there, and is
accepted. -/
def Loads (inv : Invocation) (disk : Disk) : Prop :=
  ∃ config, Config.ofFile disk (projectRoot inv disk) (configPath inv disk) = .ok config

/-- And it can be shown. -/
def Shows (isText : Path → Bool) (inv : Invocation) (disk : Disk) : Prop :=
  ∃ config, Config.ofFile disk (projectRoot inv disk) (configPath inv disk) = .ok config ∧
    config.Showable isText

/-- The project root and the configuration file are those that the invocation
asks for. The root is read from the working directory, and is that directory if
none is given. The file is read from the root, has its usual name if none is
given, and has to be a directory only if it was given as one. -/
structure Asked (inv : Invocation) (disk : Disk) (root path : Path) : Prop where
  isAbsolute : root.isAbsolute
  root_given : ∀ dir, inv.root = some dir →
    root.components = Path.readFrom ⟨dir⟩ disk.cwd.path
  root_missing : inv.root = none → root = disk.cwd.path
  components : path.components = Path.readFrom ⟨inv.config.getD "postbuild.config.json"⟩ root
  asksDir : path.AsksDir ↔ Path.AsksDir ⟨inv.config.getD "postbuild.config.json"⟩

/-- One disk is the other with the template in the file that the path leads
to. -/
def Templated (disk after : Disk) (path : Path) : Prop :=
  ∃ loc, disk.writable path = .ok loc ∧ after = disk.set loc (.file Config.template.toUTF8) ∧
    after.stat path = .ok (.file loc Config.template.toUTF8)

/-! ## Templates -/

/-- Where there is nothing for a path to lead to, a file is written into a free
place. -/
theorem get?_of_writable {loc : Location} (hmissing : disk.pathExists path = false)
    (hwritable : disk.writable path = .ok loc) : disk.get? loc = none := by
  rcases Disk.writable_isWritable hwritable with hfree | ⟨old, hfile⟩
  · exact hfree
  · have hsame : disk.Grows Disk.nowhere Disk.nowhere disk := .refl disk
    have hstat := hsame.stat_of_writable hfile hwritable
    rw [Disk.pathExists, hstat] at hmissing
    cases hmissing

/-- What stood on the disk is kept by a template that is written where there is
nothing. -/
theorem Templated.keeps (h : Templated disk after path) (hmissing : disk.pathExists path = false)
    {loc : Location} {entry : Entry} (hget : disk.get? loc = some entry) :
    after.get? loc = some entry := by
  obtain ⟨goal, hwritable, rfl, -⟩ := h
  have hfree := get?_of_writable hmissing hwritable
  have hne : loc ≠ goal := by
    rintro rfl
    rw [hfree] at hget
    cases hget
  rwa [Disk.get?_set_ne hne]

/-- **Writing a template** fails and leaves the disk as it is, or succeeds and
adds the template. -/
theorem writeTemplate_cases (disk : Disk) (path : Path) (force : Bool) :
    (writeTemplate disk path force).1.code ≠ 0 ∧ (writeTemplate disk path force).2 = disk ∨
      (writeTemplate disk path force).1.code = 0 ∧
        Templated disk (writeTemplate disk path force).2 path ∧
        (force = false → disk.pathExists path = false) := by
  unfold writeTemplate
  split
  · exact .inl ⟨Nat.one_ne_zero, rfl⟩
  · rename_i hreplace
    have hmissing : force = false → disk.pathExists path = false := by
      rintro rfl
      simpa using hreplace
    split
    · rename_i disk' hwrite
      obtain ⟨loc, hwritable, hgrows, hhere⟩ := Disk.writeFile_grows hwrite
      have hset : disk' = disk.set loc (.file Config.template.toUTF8) := by
        rw [Disk.writeFile, hwritable] at hwrite
        cases hwrite
        rfl
      exact .inr ⟨rfl, ⟨loc, hwritable, hset, hgrows.stat_of_writable hhere hwritable⟩, hmissing⟩
    · exact .inl ⟨Nat.one_ne_zero, rfl⟩

/-! ## One path, one acceptance test -/

theorem isAbsolute_path (loc : Location) : loc.path.isAbsolute := by
  simp [Location.path, Path.isAbsolute]

theorem configPath_eq (inv : Invocation) (disk : Disk) :
    configPath inv disk =
      (projectRoot inv disk).join ⟨inv.config.getD "postbuild.config.json"⟩ := by
  unfold configPath
  cases inv.config <;> rfl

/-- **The paths of an invocation** are those it asks for. -/
theorem asked (hproper : inv.Proper) (disk : Disk) :
    Asked inv disk (projectRoot inv disk) (configPath inv disk) := by
  have hcwd := isAbsolute_path disk.cwd
  have hroot : (projectRoot inv disk).isAbsolute := by
    unfold projectRoot
    split
    · exact (Path.components_absolute hcwd _).1
    · exact hcwd
  have hfile : inv.config.getD "postbuild.config.json" ≠ "" := by
    cases hconfig : inv.config with
    | none => decide
    | some file => exact fun hempty => hproper.config (hconfig.trans (congrArg some hempty))
  refine ⟨hroot, fun dir hdir => ?_, fun hnone => ?_, ?_, ?_⟩
  · rw [projectRoot, hdir]
    exact (Path.components_absolute hcwd _).2
  · rw [projectRoot, hnone]
  · rw [configPath_eq, Path.components_join_eq_readFrom hroot]
  · rw [configPath_eq]
    exact Path.asksDir_join _ hfile

/-- What is looked up depends on the root and the configuration asked for
only. -/
theorem loads_congr (hroot : inv.root = inv'.root) (hconfig : inv.config = inv'.config) :
    Loads inv disk ↔ Loads inv' disk := by
  simp only [Loads, configPath, projectRoot, hroot, hconfig]

theorem showConfig_code : (showConfig inv disk isText).code = 0 ↔ Shows isText inv disk := by
  unfold showConfig Shows loadConfig
  cases Config.ofFile disk (projectRoot inv disk) (configPath inv disk) with
  | error failure => simp [loadFailed, Outcome.failure]
  | ok config =>
    by_cases hshowable : config.Showable isText
    · simp [Config.render_of_showable hshowable, Outcome.success, hshowable]
    · simp [Config.render_of_not_showable hshowable, Outcome.failure, hshowable]

/-- A configuration that loads and cannot be shown is reported, once it has been
said where it is from. -/
theorem showConfig_of_not_showable
    (h : Config.ofFile disk (projectRoot inv disk) (configPath inv disk) = .ok config)
    (hshowable : ¬ config.Showable isText) :
    showConfig inv disk isText =
      .failure [.text ("# Source: " ++ (configPath inv disk).text)]
        "Failed to render configuration" ["path contains invalid UTF-8 characters"] := by
  unfold showConfig loadConfig
  rw [h]
  dsimp only
  rw [Config.render_of_not_showable hshowable]

theorem validate_code : (validate inv disk).code = 0 ↔ Loads inv disk := by
  unfold validate Loads loadConfig
  cases Config.ofFile disk (projectRoot inv disk) (configPath inv disk) <;>
    simp [Outcome.success]

/-- A project whose configuration does not load is not run. -/
theorem runProject_of_not_loads (h : ¬ Loads inv disk) :
    ∃ failure, runProject inv disk = (loadFailed failure, disk) := by
  unfold runProject loadConfig
  cases hload : Config.ofFile disk (projectRoot inv disk) (configPath inv disk) with
  | ok config => exact absurd ⟨config, hload⟩ h
  | error failure => exact ⟨failure, rfl⟩

theorem runProject_disk
    (h : Config.ofFile disk (projectRoot inv disk) (configPath inv disk) = .ok config) :
    (runProject inv disk).2 = (DualPackage.Outcome.state (Run.run config ⟨disk, []⟩)).disk := by
  unfold runProject loadConfig
  rw [h]
  dsimp only
  cases Run.run config ⟨disk, []⟩ <;> rfl

/-! ## Invocations -/

theorem respond_of_request (h : Request.ofArguments args = .invoke inv) :
    respond disk args isText = execute inv disk isText := by
  rw [respond, h]

theorem respond_init (h : Request.ofArguments args = .invoke inv) (hinit : inv.init = true) :
    respond disk args isText = writeTemplate disk (configPath inv disk) inv.force := by
  rw [respond_of_request h, execute, if_pos hinit]

theorem respond_showConfig (h : Request.ofArguments args = .invoke inv) (hinit : inv.init = false)
    (haction : inv.action = some .showConfig) :
    respond disk args isText = (showConfig inv disk isText, disk) := by
  rw [respond_of_request h, execute, if_neg (by simp [hinit]), haction]

theorem respond_validate (h : Request.ofArguments args = .invoke inv) (hinit : inv.init = false)
    (haction : inv.action = some .validate) :
    respond disk args isText = (validate inv disk, disk) := by
  rw [respond_of_request h, execute, if_neg (by simp [hinit]), haction]

theorem respond_plain (h : Request.ofArguments args = .invoke inv)
    (hinit : inv.init = false) (haction : inv.action = none) :
    respond disk args isText = runProject inv disk := by
  rw [respond_of_request h, execute, if_neg (by simp [hinit]), haction]

/-- What comes of an invocation that asks for no template. It is told from its
configuration: whether this loads, and whether it can be shown. -/
structure ToldByConfig (isText : Path → Bool) (inv : Invocation) (disk : Disk)
    (result : Outcome × Disk) : Prop where
  validates : inv.action = some .validate →
    result.2 = disk ∧ (result.1.code = 0 ↔ Loads inv disk)
  shows : inv.action = some .showConfig →
    result.2 = disk ∧ (result.1.code = 0 ↔ Shows isText inv disk)
  unshown : inv.action = some .showConfig → Loads inv disk → ¬ Shows isText inv disk →
    result.1 = .failure [.text ("# Source: " ++ (configPath inv disk).text)]
      "Failed to render configuration" ["path contains invalid UTF-8 characters"]
  unloaded : ¬ Loads inv disk → result.2 = disk ∧ result.1.code ≠ 0
  refused : inv.action = none → ¬ Loads inv disk → ∃ failure, result = (loadFailed failure, disk)
  runs : inv.action = none → ∀ config,
    Config.ofFile disk (projectRoot inv disk) (configPath inv disk) = .ok config →
      result.2 = (DualPackage.Outcome.state (Run.run config ⟨disk, []⟩)).disk

/-- What comes of an invocation that asks for a template, whatever else it asks
for. -/
structure TemplateOnly (inv : Invocation) (disk : Disk) (result : Outcome × Disk) : Prop where
  unwritten : result.1.code ≠ 0 → result.2 = disk
  written : result.1.code = 0 → Templated disk result.2 (configPath inv disk)
  refused : inv.force = false → disk.pathExists (configPath inv disk) → result.1.code ≠ 0
  keeps : inv.force = false → ∀ loc entry, disk.get? loc = some entry →
    result.2.get? loc = some entry

theorem Shows.loads (h : Shows isText inv disk) : Loads inv disk := by
  obtain ⟨config, hload, -⟩ := h
  exact ⟨config, hload⟩

theorem respond_toldByConfig (h : Request.ofArguments args = .invoke inv)
    (hinit : inv.init = false) : ToldByConfig isText inv disk (respond disk args isText) := by
  have hplain : inv.action = none → ¬ Loads inv disk →
      ∃ failure, respond disk args isText = (loadFailed failure, disk) := by
    intro haction hfails
    rw [respond_plain h hinit haction]
    exact runProject_of_not_loads hfails
  refine ⟨fun haction => ?_, fun haction => ?_, fun haction hloads hshows => ?_, fun hfails => ?_,
    hplain, fun haction config hload => ?_⟩
  · rw [respond_validate h hinit haction]
    exact ⟨rfl, validate_code⟩
  · rw [respond_showConfig h hinit haction]
    exact ⟨rfl, showConfig_code⟩
  · obtain ⟨config, hload⟩ := hloads
    rw [respond_showConfig h hinit haction]
    exact showConfig_of_not_showable hload fun hshowable => hshows ⟨config, hload, hshowable⟩
  · rcases haction : inv.action with - | - | -
    · obtain ⟨failure, hrespond⟩ := hplain haction hfails
      rw [hrespond]
      exact ⟨rfl, Nat.one_ne_zero⟩
    · rw [respond_showConfig h hinit haction]
      exact ⟨rfl, fun hzero => hfails (showConfig_code.1 hzero).loads⟩
    · rw [respond_validate h hinit haction]
      exact ⟨rfl, fun hzero => hfails (validate_code.1 hzero)⟩
  · rw [respond_plain h hinit haction, runProject_disk hload]

theorem respond_templateOnly (h : Request.ofArguments args = .invoke inv)
    (hinit : inv.init = true) : TemplateOnly inv disk (respond disk args isText) := by
  rw [respond_init h hinit]
  rcases writeTemplate_cases disk (configPath inv disk) inv.force with
    ⟨hcode, hdisk⟩ | ⟨hcode, htemplated, hmissing⟩
  · refine ⟨fun _ => hdisk, fun hzero => absurd hzero hcode, fun _ _ => hcode, ?_⟩
    rw [hdisk]
    exact fun _ _ _ => id
  · refine ⟨fun hne => absurd hcode hne, fun _ => htemplated, fun hforce hexists => ?_,
      fun hforce loc entry => htemplated.keeps (hmissing hforce)⟩
    rw [hmissing hforce] at hexists
    cases hexists

/-- Where all that loads can be shown, the actions are told by loading alone. -/
theorem respond_action_code {action : Action} (h : Request.ofArguments args = .invoke inv)
    (hinit : inv.init = false) (haction : inv.action = some action)
    (htext : Loads inv disk → Shows isText inv disk) :
    (respond disk args isText).1.code = 0 ↔ Loads inv disk := by
  have htold : ToldByConfig isText inv disk (respond disk args isText) :=
    respond_toldByConfig h hinit
  cases action with
  | validate => exact (htold.validates haction).2
  | showConfig => exact (htold.shows haction).2.trans ⟨Shows.loads, htext⟩

/-- **What an invocation touches.** Arguments that ask for no invocation touch
nothing, and end with code zero unless they are wrong. Those that ask for one are
read as its spelling is, and name one root and one configuration file.

Without `--init`, validating and showing the configuration leave the disk as it
is. Validating ends with code zero exactly if the configuration loads, showing
exactly if all its paths are text besides; so both end alike, for all invocations
with the same root and configuration, unless it loads and one of its paths is
none, and then showing it reports just that. Nothing is touched either if it does
not load, and a run is reached if it does.

With `--init`, whatever else is asked for: either the code is not zero and the
disk is as it was, or the code is zero and only the file that the path of the
configuration leads to has changed, to the template; and without force a path that
leads somewhere makes it fail, and whatever was there stays. -/
theorem respond_touches (isText : Path → Bool) (disk : Disk) (args : List String) :
    ((∀ inv, Request.ofArguments args ≠ .invoke inv) → (respond disk args isText).2 = disk ∧
      ((respond disk args isText).1.code = 0 ↔ Request.ofArguments args ≠ .usageError)) ∧
    ∀ inv, Request.ofArguments args = .invoke inv →
      Request.ofArguments inv.spelled = .invoke inv ∧
      Asked inv disk (projectRoot inv disk) (configPath inv disk) ∧
      (inv.init = false → ToldByConfig isText inv disk (respond disk args isText)) ∧
      (inv.init = true → TemplateOnly inv disk (respond disk args isText)) ∧
      ∀ args' inv' action action', Request.ofArguments args' = .invoke inv' →
        inv.init = false → inv'.init = false → inv.action = some action →
        inv'.action = some action' → inv'.root = inv.root → inv'.config = inv.config →
        (Loads inv disk → Shows isText inv disk) →
          ((respond disk args' isText).1.code = 0 ↔ (respond disk args isText).1.code = 0) := by
  refine ⟨fun hnone => ?_, fun inv hrequest => ?_⟩
  · unfold respond
    cases hrequest : Request.ofArguments args with
    | invoke inv => exact absurd hrequest (hnone inv)
    | usageError => simp
    | help | version => simp [Outcome.success]
  · have hproper : inv.Proper := exists_ofArguments_iff.1 ⟨args, hrequest⟩
    refine ⟨ofArguments_spelled hproper, asked hproper disk, respond_toldByConfig hrequest,
      respond_templateOnly hrequest, ?_⟩
    intro args' inv' action action' hrequest' hinit hinit' haction haction' hroot hconfig htext
    have htext' : Loads inv' disk → Shows isText inv' disk := by
      simpa only [Loads, Shows, configPath, projectRoot, hroot, hconfig] using htext
    rw [respond_action_code hrequest hinit haction htext,
      respond_action_code hrequest' hinit' haction' htext', loads_congr hroot hconfig]

/-- In an empty directory the template is written under the usual name. -/
theorem respond_touches_init :
    Templated ⟨[], []⟩ (respond ⟨[], []⟩ ["--init"]).2 ⟨"/postbuild.config.json"⟩ :=
  have hrequest : Request.ofArguments ["--init"] =
      .invoke ⟨none, none, false, true, false, none⟩ := rfl
  have htouches := (respond_touches (fun _ => true) ⟨[], []⟩ ["--init"]).2 _ hrequest
  (htouches.2.2.2.1 rfl).written rfl

/-- A project in a directory whose name is not valid UTF-8, and is shown with a
replacement character. -/
def strayProject : Disk :=
  ⟨[(["caf\uFFFD"], .dir), (["caf\uFFFD", "postbuild.config.json"], .file "\x7b\x7d".toUTF8)],
    ["caf\uFFFD"]⟩

/-- There the configuration is valid and cannot be shown. And where the version is
asked for, no template is written, and the code is zero all the same. -/
theorem respond_modes_part :
    let isText : Path → Bool := fun path => path.text != "/caf\uFFFD"
    (respond strayProject ["config", "validate"] isText).1.code = 0 ∧
      (respond strayProject ["config", "show"] isText).1 =
        .failure [.text "# Source: /caf\uFFFD/postbuild.config.json"]
          "Failed to render configuration" ["path contains invalid UTF-8 characters"] ∧
      (respond ⟨[], []⟩ ["--init", "--version"]).1.code = 0 ∧
      ¬ Templated ⟨[], []⟩ (respond ⟨[], []⟩ ["--init", "--version"]).2
        ⟨"/postbuild.config.json"⟩ := by
  refine ⟨by decide +kernel, by decide +kernel, rfl, ?_⟩
  rintro ⟨loc, -, -, hstat⟩
  cases hstat

end CommandLine

end DualPackage
