import DualPackage.Proofs.CommandLine.Flag
import DualPackage.Proofs.CommandLine.Footprint
import DualPackage.Proofs.Run.Warnings
/-!
# What verbosity changes

Two invocations that run a project and differ in verbosity only end alike, with
the same disk, and the quieter one prints the warnings among what the other
prints (`runProject_verbose`). A warning tells of what the run has met, so that a
quiet run over nothing unusual prints nothing (`runProject_met`). The same is
told of the arguments with and without the flag (`respond_flag`).
-/

namespace DualPackage

open Disk (anywhere)

namespace CommandLine

/-- Whether a line is printed because it warns. -/
def Line.isWarning : Line → Bool
  | .text _ => false
  | .event e => e.isWarning

variable {disk : Disk} {inv inv' : Invocation} {config : Config} {log : List Event}
  {quiet loud : List String}

/-! ## Lines -/

theorem mem_logLines {verbose : Bool} {line : Line} :
    line ∈ logLines verbose log ↔
      ∃ event ∈ log, (verbose || event.isWarning) = true ∧ line = .event event := by
  simp only [logLines, List.mem_map, List.mem_filter, and_assoc]
  exact exists_congr fun event => and_congr_right fun _ => and_congr_right fun _ => eq_comm

/-- The lines that are always printed are the warnings among all lines. -/
theorem logLines_quiet : logLines false log = (logLines true log).filter Line.isWarning := by
  induction log with
  | nil => rfl
  | cons event log ih =>
    cases hwarns : event.isWarning <;> simp_all [logLines, Line.isWarning]

/-! ## Runs -/

/-- All but the lines printed is the same. -/
theorem runProject_verbose (inv : Invocation) (disk : Disk) :
    (runProject { inv with verbose := true } disk).2 = (runProject inv disk).2 ∧
      (runProject { inv with verbose := true } disk).1.code = (runProject inv disk).1.code ∧
      (runProject { inv with verbose := true } disk).1.stderr = (runProject inv disk).1.stderr := by
  have hload : loadConfig { inv with verbose := true } disk = loadConfig inv disk := rfl
  unfold runProject
  rw [hload]
  cases loadConfig inv disk with
  | error failure => exact ⟨rfl, rfl, rfl⟩
  | ok config =>
    dsimp only
    cases Run.run config ⟨disk, []⟩ <;> exact ⟨rfl, rfl, rfl⟩

/-- What a run prints, whatever comes of it. -/
theorem runProject_stdout
    (h : Config.ofFile disk (projectRoot inv disk) (configPath inv disk) = .ok config) :
    (runProject inv disk).1.stdout = logLines (inv.verbose || config.verbose)
      (DualPackage.Outcome.state (Run.run config ⟨disk, []⟩)).log := by
  unfold runProject loadConfig
  rw [h]
  dsimp only
  cases Run.run config ⟨disk, []⟩ <;> rfl

/-- Without a configuration nothing is printed. -/
theorem runProject_stdout_of_not_loads (h : ¬ Loads inv disk) :
    (runProject inv disk).1.stdout = [] := by
  obtain ⟨failure, hrun⟩ := runProject_of_not_loads h
  rw [hrun]
  rfl

/-- **A quiet run prints what it has met**: each line warns of something that was
so on the disk at some time of the run. -/
theorem runProject_met (hdisk : disk.WellFormed) (hquiet : inv.verbose = false)
    (hconfig : ∀ config, Config.ofFile disk (projectRoot inv disk) (configPath inv disk) =
      .ok config → config.verbose = false) :
    ∀ line ∈ (runProject inv disk).1.stdout, ∃ event d, line = .event event ∧
      disk.Grows anywhere anywhere d ∧ d.Grows anywhere anywhere (runProject inv disk).2 ∧
      event.TellsOf d := by
  intro line hline
  by_cases hloads : Loads inv disk
  · obtain ⟨config, hload⟩ := hloads
    rw [runProject_stdout hload, hquiet, hconfig config hload, mem_logLines] at hline
    obtain ⟨event, hevent, hwarns, rfl⟩ := hline
    obtain ⟨said, hlog, htells⟩ := (Run.run_warned (w := ⟨disk, []⟩) hdisk config).said
    rw [hlog, List.nil_append] at hevent
    obtain ⟨d, hbefore, hafter, htells⟩ := htells event hevent (by simpa using hwarns)
    rw [runProject_disk hload]
    exact ⟨event, d, rfl, hbefore, hafter, htells⟩
  · rw [runProject_stdout_of_not_loads hloads] at hline
    cases hline

/-- Where the configuration asks for progress, the flag adds nothing. -/
theorem runProject_stdout_loud
    (h : Config.ofFile disk (projectRoot inv disk) (configPath inv disk) = .ok config)
    (hconfig : config.verbose = true) :
    (runProject inv disk).1.stdout = (runProject { inv with verbose := true } disk).1.stdout := by
  have h' : Config.ofFile disk (projectRoot { inv with verbose := true } disk)
      (configPath { inv with verbose := true } disk) = .ok config := h
  rw [runProject_stdout h, runProject_stdout h', hconfig, Bool.or_true, Bool.or_true]

/-- Where it does not, what a quiet run prints are the warnings among what a
verbose one does. -/
theorem runProject_stdout_quiet (hquiet : inv.verbose = false)
    (hconfig : ∀ config, Config.ofFile disk (projectRoot inv disk) (configPath inv disk) =
      .ok config → config.verbose = false) :
    (runProject inv disk).1.stdout =
      (runProject { inv with verbose := true } disk).1.stdout.filter Line.isWarning := by
  by_cases hloads : Loads inv disk
  · obtain ⟨config, h⟩ := hloads
    have h' : Config.ofFile disk (projectRoot { inv with verbose := true } disk)
        (configPath { inv with verbose := true } disk) = .ok config := h
    rw [runProject_stdout h, runProject_stdout h', hquiet, hconfig config h]
    exact logLines_quiet
  · have hloads' : ¬ Loads { inv with verbose := true } disk := hloads
    rw [runProject_stdout_of_not_loads hloads, runProject_stdout_of_not_loads hloads']
    rfl

/-! ## Invocations -/

/-- **Verbosity does not interfere.** Of two invocations that run a project, one
with the arguments of the other and the flag added, both leave the same disk
behind, with the same code and the same errors. If the configuration asks for
progress they print the same, and else the quiet one prints the warnings among
the lines of the other, in order; and each of these tells of something that the
run has met, a script that is not valid UTF-8 or a path that leads back to a
directory above it. -/
theorem respond_flag (hadded : FlagAdded quiet loud)
    (hquiet : Request.ofArguments quiet = .invoke inv)
    (hloud : Request.ofArguments loud = .invoke inv')
    (hrun : inv.init = false ∧ inv.action = none) (hverbose : inv.verbose = false)
    (disk : Disk) (isText : Path → Bool) :
    (respond disk loud isText).2 = (respond disk quiet isText).2 ∧
      (respond disk loud isText).1.code = (respond disk quiet isText).1.code ∧
      (respond disk loud isText).1.stderr = (respond disk quiet isText).1.stderr ∧
      (∀ config, Config.ofFile disk (projectRoot inv disk) (configPath inv disk) = .ok config →
        config.verbose = true →
          (respond disk quiet isText).1.stdout = (respond disk loud isText).1.stdout) ∧
      ((∀ config, Config.ofFile disk (projectRoot inv disk) (configPath inv disk) = .ok config →
          config.verbose = false) →
        (respond disk quiet isText).1.stdout =
          (respond disk loud isText).1.stdout.filter Line.isWarning ∧
        (disk.WellFormed → ∀ line ∈ (respond disk quiet isText).1.stdout, ∃ event d,
          line = .event event ∧ disk.Grows anywhere anywhere d ∧
          d.Grows anywhere anywhere (respond disk quiet isText).2 ∧ event.TellsOf d)) := by
  obtain ⟨hinit, haction⟩ := hrun
  obtain rfl := ofArguments_flag_among hadded hquiet hloud hverbose
  rw [respond_plain hquiet hinit haction, respond_plain hloud hinit haction]
  obtain ⟨hdisk, hcode, hstderr⟩ := runProject_verbose inv disk
  refine ⟨hdisk, hcode, hstderr, fun config => runProject_stdout_loud, fun hconfig => ?_⟩
  exact ⟨runProject_stdout_quiet hverbose hconfig, fun hformed =>
    runProject_met hformed hverbose hconfig⟩

/-- A disk with a configuration that asks for nothing. -/
def bareProject : Disk :=
  ⟨[(["postbuild.config.json"], .file "\x7b\x7d".toUTF8)], []⟩

/-- There the quiet run prints the warnings only, whatever the other prints. -/
theorem respond_flag_bareProject :
    (respond bareProject ["--root", "/"]).1.stdout =
      (respond bareProject ["--root", "/", "--verbose"]).1.stdout.filter Line.isWarning :=
  have hadded : FlagAdded ["--root", "/"] ["--root", "/", "--verbose"] :=
    ⟨["--root", "/"], [], "--verbose", .inl rfl, rfl, rfl⟩
  have hquiet : Request.ofArguments ["--root", "/"] =
      .invoke ⟨some "/", none, false, false, false, none⟩ := rfl
  have hloud : Request.ofArguments ["--root", "/", "--verbose"] =
      .invoke ⟨some "/", none, true, false, false, none⟩ := rfl
  have hconfig : (Config.ofFile bareProject ⟨"/"⟩ ⟨"/postbuild.config.json"⟩).toOption.map
      Config.verbose = some false := by decide +kernel
  have hverbose : ∀ config, Config.ofFile bareProject ⟨"/"⟩ ⟨"/postbuild.config.json"⟩ =
      .ok config → config.verbose = false := by
    intro config hload
    rw [hload] at hconfig
    exact Option.some.inj hconfig
  ((respond_flag hadded hquiet hloud ⟨rfl, rfl⟩ rfl bareProject fun _ => true).2.2.2.2 hverbose).1

end CommandLine

end DualPackage
