import DualPackage.Proofs.Run.Stages
import DualPackage.Proofs.Tree.Loops
/-!
# What the warnings of a run tell

A run warns of two things, and only where it meets them: of a script that is
not valid UTF-8, and of a path that leads back to a directory above it
(`Event.TellsOf`). Each is so on the disk at some time of the run, between the
disk it began with and the one it leaves behind (`run_warned`), whether it
succeeds or breaks off and whatever links there are.
-/

namespace DualPackage

open Disk (anywhere)

/-- An event warns of something that is so on a disk. -/
def Event.TellsOf (d : Disk) : Event → Prop
  | .invalidText p =>
    Tree.hasListedExtension Run.esmExtensions p ∧ d.readText p = .error .invalidText
  | .linkLoop p => ∃ root names, p = root.under names ∧ d.LoopsAt root names
  | _ => False

/-- What becomes of a world in which everything that is warned of is so. -/
structure World.Warned (w w' : World) : Prop where
  grows : w.disk.Grows anywhere anywhere w'.disk
  said : ∃ said, w'.log = w.log ++ said ∧ ∀ event ∈ said, event.isWarning →
    ∃ d, w.disk.Grows anywhere anywhere d ∧ d.Grows anywhere anywhere w'.disk ∧ event.TellsOf d

namespace World.Warned

variable {w w₁ w' : World}

/-- Nothing is said while the disk grows. -/
theorem silent (hgrows : w.disk.Grows anywhere anywhere w'.disk) (hlog : w'.log = w.log) :
    Warned w w' :=
  ⟨hgrows, [], by simp [hlog], List.forall_mem_nil _⟩

theorem refl (w : World) : Warned w w := .silent (.refl _) rfl

theorem trans (h : Warned w w₁) (h' : Warned w₁ w') : Warned w w' where
  grows := h.grows.trans h'.grows
  said := by
    obtain ⟨said, hlog, htrue⟩ := h.said
    obtain ⟨said', hlog', htrue'⟩ := h'.said
    refine ⟨said ++ said', by rw [hlog', hlog, List.append_assoc], fun event hevent hwarns => ?_⟩
    rcases List.mem_append.1 hevent with hevent | hevent
    · obtain ⟨d, hbefore, hafter, htells⟩ := htrue event hevent hwarns
      exact ⟨d, hbefore, hafter.trans h'.grows, htells⟩
    · obtain ⟨d, hbefore, hafter, htells⟩ := htrue' event hevent hwarns
      exact ⟨d, h.grows.trans hbefore, hafter, htells⟩

/-- One more thing is said, which is so if it warns. -/
theorem log (event : Event) (h : event.isWarning → event.TellsOf w.disk) :
    Warned w { w with log := w.log ++ [event] } where
  grows := .refl _
  said := ⟨[event], rfl, List.forall_mem_singleton.2 fun hwarns =>
    ⟨w.disk, .refl _, .refl _, h hwarns⟩⟩

end World.Warned

namespace Contract

variable {α : Type} {dir path : Path} {w : World}

/-- On a well-formed disk that grows, everything that is warned of is so. -/
def warning : Contract World :=
  .always (fun w => w.disk.WellFormed) World.Warned .refl .trans

theorem warning_holds_log {event : Event} (hw : w.disk.WellFormed)
    (h : event.isWarning → event.TellsOf w.disk) : warning.Holds w (Build.log event w) :=
  ⟨hw, .log event h⟩

theorem warning_log {event : Event} (h : event.isWarning = false) :
    warning.Keeps (Build.log event) :=
  fun _ hw => warning_holds_log hw fun hwarns => by simp [h] at hwarns

theorem warning_onDisk {operation : DiskM α} (h : enlarging.Keeps operation) :
    warning.Keeps (Build.onDisk path operation) := by
  intro w hw
  have hpart := h w.disk hw
  unfold Build.onDisk
  split
  all_goals
    rename_i hop
    rw [hop] at hpart
    exact ⟨hpart.1, .silent hpart.2 rfl⟩

/-- A script is warned of if it is not valid UTF-8. -/
theorem warning_rewriteFile {f : String → String}
    (hlisted : Tree.hasListedExtension Run.esmExtensions path) :
    warning.Keeps (Tree.rewriteFile f path) := by
  intro w hw
  unfold Tree.rewriteFile
  split
  · rename_i hread
    exact warning_holds_log hw fun _ => ⟨hlisted, hread⟩
  · exact ⟨hw, .refl w⟩
  · unfold SourceFile.rewrite
    dsimp only
    split
    · exact ⟨hw, .refl w⟩
    · exact ((warning_onDisk (enlarging_writeFile _).update).bind fun _ => .pure _) w hw

/-- A path is warned of if it loops. -/
theorem warning_loop {τ : Type} {s : World × τ} {root : Path} {names : List String}
    (hs : s.1.disk.WellFormed) (hloops : s.1.disk.LoopsAt root names) :
    (warning.along Prod.fst).Holds s
      (Build.untallied (Build.log (.linkLoop (root.under names))) s) := by
  have htells : (Event.linkLoop (root.under names)).TellsOf s.1.disk := ⟨root, names, rfl, hloops⟩
  exact (warning_holds_log hs fun _ => htells).untallied

/-- A walk with a tally of its own, whose visitor keeps to the contract on
entries and reports loops as such. -/
theorem warning_visit {τ : Type} {start : τ} {skip : Path → Bool} {root : Path}
    {act : Sighting → EStateM Failure (World × τ) Unit}
    (hentry : ∀ v, (warning.along Prod.fst).Keeps (act (.entry v)))
    (hloop : ∀ p, act (.loop p) = Build.untallied (Build.log (.linkLoop p))) :
    warning.Keeps (Build.tallying start
      (Tree.visit (fun s => s.1.disk) Failure.walk skip act root)) := by
  refine .tallying (Tree.visit_keeps_loops (C := warning.along Prod.fst) (fun _ hs => hs)
    (fun _ _ hstep => hstep.grows) hentry fun s names hs hloops => ?_) start
  rw [hloop]
  exact warning_loop hs hloops

theorem warning_rewrite {extensions : List String} {f : String → String}
    (hlisted : ∀ p, Tree.hasListedExtension extensions p →
      Tree.hasListedExtension Run.esmExtensions p) :
    warning.Keeps (Tree.rewrite dir extensions f) := by
  refine warning_visit (fun v => ?_) fun _ => rfl
  rw [Tree.rewriteEntry]
  split
  · rename_i hentry
    rw [Bool.and_eq_true] at hentry
    refine .bind (.untallied (warning_rewriteFile (hlisted _ hentry.2))) fun changed => ?_
    split
    · exact .modify_tally (· + 1)
    · exact .pure _
  · exact .pure _

theorem warning_copy {policy : CopyPolicy} {outputs : List Path} :
    warning.Keeps (Tree.copy policy dir outputs) := by
  refine (warning_onDisk enlarging_createDirAll).bind fun _ =>
    warning_visit (fun v => ?_) fun _ => rfl
  rw [Tree.copyEntry]
  split
  · exact .pure _
  · dsimp only
    split
    · exact .untallied (warning_onDisk enlarging_createDirAll)
    · split
      · exact .modify_tally fun n => { n with excluded := n.excluded + 1 }
      · refine .bind (.untallied (warning_onDisk enlarging_copyFile.update)) fun _ => ?_
        exact .modify_tally fun n => { n with copied := n.copied + 1 }

theorem warning_works (dirs : List Path) : Run.Works warning dirs where
  log _ := warning_log
  rewrite _ _ _ _ _ := warning_rewrite
  marker _ _ _ := (warning_onDisk enlarging_createDirAll).bind fun _ =>
    (warning_onDisk (enlarging_writeFile _).update).bind fun _ => .pure _
  copy _ _ _ _ := warning_copy

end Contract

namespace Run

/-- **A run warns of what it meets**, whatever comes of it. -/
theorem run_warned {w : World} (hw : w.disk.WellFormed) (config : Config) :
    w.Warned (Outcome.state (run config w)) := by
  have hkeeps : Contract.warning.Keeps (run config) := (Contract.warning_works _).run
  have hholds := hkeeps w hw
  cases hrun : run config w with
  | ok report w' =>
    rw [hrun] at hholds
    exact hholds.2
  | error failure w' =>
    rw [hrun] at hholds
    exact hholds.2

end Run

end DualPackage
