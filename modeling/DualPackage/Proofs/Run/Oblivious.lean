import DualPackage.Proofs.Run.Course
import DualPackage.Run.Stages
/-!
# Runs and their log

A run writes a log and never reads it: what has been said makes no
difference to what is done (`Run.run_oblivious`). So a part of a run can be
looked at as a step from one disk to another (`Build.Leads`), and parts one
after the other as steps one after the other (`Build.leads_bind_iff`).
-/

namespace DualPackage

open Outcome

/-! ## Parts of a run -/

namespace Build

/-- Worlds that differ in what has been said only. -/
abbrev SameDisk : World → World → Prop :=
  InvImage Eq World.disk

/-- A part of a run that takes no notice of what has been said. -/
abbrev Oblivious {α : Type} (part : Build α) : Prop :=
  Respects SameDisk part

variable {α β : Type} {part : Build α} {w : World} {d d' : Disk} {a : α} {b : β}

theorem oblivious_onDisk (path : Path) (operation : DiskM α) :
    Oblivious (onDisk path operation) :=
  .onDisk (.of_eq operation) path

/-- What a part of a run comes to, from one disk to another. -/
def Leads (part : Build α) (d : Disk) (a : α) (d' : Disk) : Prop :=
  ∃ w w' : World, w.disk = d ∧ part w = .ok a w' ∧ w'.disk = d'

theorem Oblivious.leads_iff (h : Oblivious part) :
    Leads part w.disk a d' ↔ ∃ w', part w = .ok a w' ∧ w'.disk = d' := by
  constructor
  · rintro ⟨v, v', hsame, hok, rfl⟩
    obtain ⟨w', hok', hsame'⟩ := h v w a v' hsame hok
    exact ⟨w', hok', hsame'.symm⟩
  · rintro ⟨w', hok, rfl⟩
    exact ⟨w, w', rfl, hok, rfl⟩

theorem leads_congr {part' : Build α} (h : ∀ w : World, w.disk = d → part' w = part w) :
    Leads part' d a d' ↔ Leads part d a d' := by
  constructor
  · rintro ⟨w, w', hw, hok, hw'⟩
    exact ⟨w, w', hw, (h w hw).symm.trans hok, hw'⟩
  · rintro ⟨w, w', hw, hok, hw'⟩
    exact ⟨w, w', hw, (h w hw).trans hok, hw'⟩

theorem leads_pure_iff {a' : α} : Leads (pure a) d a' d' ↔ a' = a ∧ d' = d := by
  constructor
  · rintro ⟨w, w', rfl, hok, rfl⟩
    obtain ⟨rfl, rfl⟩ := pure_ok hok
    exact ⟨rfl, rfl⟩
  · rintro ⟨rfl, rfl⟩
    exact ⟨⟨d', []⟩, ⟨d', []⟩, rfl, rfl, rfl⟩

/-- **One part after the other** leads as far as they do one by one. -/
theorem leads_bind_iff {f : α → Build β} (hf : ∀ a, Oblivious (f a)) :
    Leads (part >>= f) d b d' ↔ ∃ a d₁, Leads part d a d₁ ∧ Leads (f a) d₁ b d' := by
  constructor
  · rintro ⟨w, w', rfl, hok, rfl⟩
    obtain ⟨a, w₁, hfirst, hrest⟩ := bind_ok hok
    exact ⟨a, w₁.disk, ⟨w, w₁, rfl, hfirst, rfl⟩, w₁, w', rfl, hrest, rfl⟩
  · rintro ⟨a, -, ⟨w, w₁, rfl, hfirst, rfl⟩, hrest⟩
    obtain ⟨w', hrest', rfl⟩ := (hf a).leads_iff.1 hrest
    refine ⟨w, w', rfl, ?_, rfl⟩
    simp only [bind, EStateM.bind, hfirst, hrest']

theorem leads_bind_pure_iff {f : α → β} :
    Leads (part >>= fun a => pure (f a)) d b d' ↔ ∃ a, Leads part d a d' ∧ b = f a := by
  rw [leads_bind_iff fun _ => .pure _]
  constructor
  · rintro ⟨a, d₁, hpart, hpure⟩
    obtain ⟨rfl, rfl⟩ := leads_pure_iff.1 hpure
    exact ⟨a, hpart, rfl⟩
  · rintro ⟨a, hpart, rfl⟩
    exact ⟨a, d', hpart, leads_pure_iff.2 ⟨rfl, rfl⟩⟩

end Build

/-! ## Walks -/

namespace Tree

open Build

section Visit

variable {ε σ : Type} {disk : σ → Disk} {fail : WalkFault → ε} {skip : Path → Bool}
  {act : Sighting → EStateM ε σ Unit} {R : σ → σ → Prop}
  (hdisk : ∀ s t, R s t → disk t = disk s) (hact : ∀ x, Respects R (act x))
include hdisk hact

/-- A walk looks at the disk only. The induction is on the depth that is left. -/
theorem visitEntry_respects (bound : ℕ) (above : List Location) (depth : ℕ) (path : Path)
    (loc : Location) (entry : Entry) :
    Respects R (visitEntry disk fail skip act bound above depth path loc entry) := by
  induction bound generalizing above depth path loc entry with
  | zero => exact .throw _
  | succ bound ih =>
    rw [visitEntry]
    refine .get_bind (fun s t hst => by rw [hdisk s t hst]) fun s => ?_
    split
    · exact .throw _
    · exact hact _
    · exact hact _
    · split
      · exact .pure _
      · refine .get_bind (fun s t hst => by rw [hdisk s t hst]) fun s => ?_
        exact (hact _).bind fun _ => .forM fun child _ => ih _ _ _ _ _

theorem visit_oblivious (root : Path) : Respects R (visit disk fail skip act root) := by
  refine .get_bind (fun s t hst => by rw [hdisk s t hst]) fun s => ?_
  dsimp only
  split
  · exact .throw _
  · exact hact _
  · exact visitEntry_respects hdisk hact _ _ _ _ _ _

end Visit

variable {root path dest : Path} {extensions : List String} {f : String → String}
  {policy : CopyPolicy} {outputs : List Path}

theorem rewriteFile_oblivious : Oblivious (rewriteFile f path) := by
  intro w v a w' hsame hok
  have hdisk : w.disk = v.disk := hsame
  unfold rewriteFile at hok ⊢
  rw [← hdisk]
  split at hok
  · exact (Respects.log _).bind (fun _ => .pure _) w v a w' hsame hok
  · cases hok
  · rename_i text _
    have hwrite : Oblivious ((SourceFile.mk path text).rewrite f) := by
      unfold SourceFile.rewrite
      dsimp only
      split
      · exact .pure _
      · exact (oblivious_onDisk _ _).bind fun _ => .pure _
    exact hwrite w v a w' hsame hok

theorem rewrite_oblivious : Oblivious (rewrite root extensions f) := by
  refine .tallying (visit_oblivious (fun _ _ hst => hst.1.symm) (fun x => ?_) root) 0
  cases x with
  | loop path => exact .untallied (.log _)
  | entry v =>
    rw [rewriteEntry]
    split
    · refine (Respects.untallied rewriteFile_oblivious).bind fun changed => ?_
      split
      · exact .modify_tally (· + 1)
      · exact .pure _
    · exact .pure _

theorem copy_oblivious : Oblivious (copy policy dest outputs) := by
  refine (oblivious_onDisk _ _).bind fun _ =>
    .tallying (visit_oblivious (fun _ _ hst => hst.1.symm) (fun x => ?_) _) _
  cases x with
  | loop path => exact .untallied (.log _)
  | entry v =>
    rw [copyEntry]
    split
    · exact .pure _
    · dsimp only
      split
      · exact .untallied (oblivious_onDisk _ _)
      · split
        · exact .modify_tally fun n : CopyCount => { n with excluded := n.excluded + 1 }
        · refine (Respects.untallied (oblivious_onDisk _ _)).bind fun _ => ?_
          exact .modify_tally fun n : CopyCount => { n with copied := n.copied + 1 }

end Tree

/-! ## Stages -/

namespace Run

open Build

variable {config : Config} {policy : CopyPolicy} {outputs : List (ModuleKind × Path)}
  {outputDirs : List Path} {report : Report} {announce : ModuleKind → Event}
  {pass : List Char → Revision} {kind : ModuleKind} {dir : Path}

theorem marker_oblivious : Oblivious (do
    Build.log (.creatingMarker kind)
    Marker.write dir kind) :=
  (Respects.log _).bind fun _ => (oblivious_onDisk _ _).bind fun _ =>
    (oblivious_onDisk _ _).bind fun _ => .pure _

theorem writeMarkers_oblivious : Oblivious (writeMarkers config) :=
  .mapM fun _ _ => marker_oblivious

theorem adjustTree_oblivious : Oblivious (adjustTree kind dir) := by
  cases kind with
  | esm => exact (Respects.log _).bind fun _ => Tree.rewrite_oblivious
  | cjs => exact .pure _

theorem copyInto_oblivious : Oblivious (copyInto policy outputDirs outputs report) := by
  induction outputs generalizing report with
  | nil => exact .pure _
  | cons o outputs ih =>
    exact (Respects.log _).bind fun _ => Tree.copy_oblivious.bind fun _ =>
      adjustTree_oblivious.bind fun _ => ih

theorem copyAssets_oblivious : Oblivious (copyAssets config report) := by
  unfold copyAssets
  split
  · exact .pure _
  · exact copyInto_oblivious

theorem rewriteScripts_oblivious : Oblivious (rewriteScripts announce pass outputs) := by
  induction outputs with
  | nil => exact .pure _
  | cons o outputs ih =>
    exact (Respects.log _).bind fun _ => Tree.rewrite_oblivious.bind fun _ =>
      ih.bind fun _ => .pure _

theorem addExtensions_oblivious : Oblivious (addExtensions config) := by
  unfold addExtensions
  split
  · exact rewriteScripts_oblivious
  · exact .pure _

theorem resolveAliases_oblivious : Oblivious (resolveAliases config) := by
  unfold resolveAliases
  split
  · exact .pure _
  · split
    · exact .pure _
    · exact rewriteScripts_oblivious

/-- **A run takes no notice of what has been said.** -/
theorem run_oblivious : Oblivious (run config) :=
  writeMarkers_oblivious.bind fun _ => copyAssets_oblivious.bind fun _ =>
    addExtensions_oblivious.bind fun _ => resolveAliases_oblivious.bind fun _ =>
      (Respects.log _).bind fun _ => .pure _

end Run

end DualPackage
