import DualPackage.Proofs.Disk.Access
import Mathlib.Data.List.Sort
/-!
# Disks that agree

A disk is determined by what stands at each location
(`WellFormed.eq_of_get?`). Of two disks that agree at some locations only
(`Agree`), a file operation cannot tell the one from the other, as long as
the locations on the way of its path are among them: it is answered alike,
and what it changes it changes alike (`Agree.makeDir`, `Agree.writeFile`,
`Agree.copyFile`). The paths are plain ones, so that the way is what the
path spells.
-/

namespace DualPackage

namespace Disk

variable {d d' d₁ : Disk} {loc : Location} {entry : Entry} {content : ByteArray}

/-! ## All locations -/

/-- **A disk is the map** from its locations to what stands there. -/
theorem WellFormed.eq_of_get? (h : d.WellFormed) (h' : d'.WellFormed) (hcwd : d'.cwd = d.cwd)
    (hget : ∀ l, d'.get? l = d.get? l) : d' = d := by
  let r : Location × Entry → Location × Entry → Prop := fun a b => a.1.before b.1
  have hirrefl : Std.Irrefl r := ⟨fun a ha => lt_irrefl a.1 (Location.before_iff_lt.1 ha)⟩
  have hantisymm : Std.Antisymm r := ⟨fun a b hab hba =>
    absurd (Location.before_iff_lt.1 hba) (lt_asymm (Location.before_iff_lt.1 hab))⟩
  have hmem : ∀ x, x ∈ d'.entries ↔ x ∈ d.entries := by
    rintro ⟨l, e⟩
    by_cases hl : l = []
    · subst hl
      exact iff_of_false (fun hx => h'.not_root _ hx rfl) fun hx => h.not_root _ hx rfl
    · rw [← h'.get?_eq_some_iff hl, ← h.get?_eq_some_iff hl, hget]
  have hentries : d'.entries = d.entries := h'.ordered.eq_of_mem_iff (r := r) h.ordered hmem
  cases d
  cases d'
  simp_all

/-! ## Some locations -/

/-- The disks show the same at the given locations. -/
structure Agree (sees : Location → Prop) (d d' : Disk) : Prop where
  cwd : d'.cwd = d.cwd
  get? : ∀ l, sees l → d'.get? l = d.get? l

/-- With a location, all above it are among those given. -/
def Rooted (sees : Location → Prop) : Prop :=
  ∀ l l', l <+: l' → sees l' → sees l

variable {sees : Location → Prop} {p source target : Path} {follow slash : Bool}
  {jump jump' : Location → List String → Bool → Except DiskFault Spot}

namespace Agree

theorem symm (h : Agree sees d d') : Agree sees d' d :=
  ⟨h.cwd.symm, fun l hl => (h.get? l hl).symm⟩

theorem set (h : Agree sees d d') (hloc : loc ≠ []) (entry : Entry) :
    Agree sees (d.set loc entry) (d'.set loc entry) where
  cwd := h.cwd
  get? l hl := by
    by_cases heq : l = loc
    · rw [heq, get?_set_self hloc, get?_set_self hloc]
    · rw [get?_set_ne heq, get?_set_ne heq, h.get? l hl]

end Agree

/-! ## Ways -/

/-- A way that goes down only is gone alike where the same stands along it. -/
theorem advance_congr (hfree : d.LinkFree) {start : Location} {way : List String}
    (hup : ".." ∉ way)
    (hget : ∀ l, l <+: start ++ way.filter (· != ".") → d'.get? l = d.get? l) :
    d'.advance follow jump' slash start way = d.advance follow jump slash start way := by
  induction way generalizing start with
  | nil => rfl
  | cons step rest ih =>
    obtain ⟨hstep, hrest⟩ := not_or.1 (List.mem_cons.not.1 hup)
    rw [advance, advance]
    by_cases hhere : step = "."
    · rw [if_pos hhere, if_pos hhere]
      exact ih hrest (by simpa [hhere] using hget)
    · have hfilter : start ++ (step :: rest).filter (· != ".") =
          start ++ [step] ++ rest.filter (· != ".") := by
        simp [hhere]
      rw [hfilter] at hget
      have hnext : d'.get? (start ++ [step]) = d.get? (start ++ [step]) :=
        hget _ (List.prefix_append _ _)
      rw [if_neg hhere, if_neg hhere, if_neg (Ne.symm hstep), if_neg (Ne.symm hstep)]
      dsimp only
      rw [hnext]
      cases hentry : d.get? (start ++ [step]) with
      | none => rfl
      | some e =>
        cases e with
        | dir => exact ih hrest hget
        | file content => rfl
        | link goal => exact absurd hentry (hfree _ _)

/-- **A plain path leads to the same** where the same stands on its way. -/
theorem resolve_congr (hfree : d.LinkFree) (hp : p.IsPlain)
    (hget : ∀ l, l <+: p.location → d'.get? l = d.get? l) :
    d'.resolve follow p = d.resolve follow p := by
  have hup : ".." ∉ steps p := fun hmem => hp.up_free (Path.up_mem_steps.1 hmem)
  have hway : ∀ l, l <+: [] ++ (steps p).filter (· != ".") → d'.get? l = d.get? l := hget
  unfold resolve
  simp only [hp.isAbsolute, if_true]
  have hfrom : d'.resolveFrom follow linkLimit [] (steps p) p.endsInSlash =
      d.resolveFrom follow linkLimit [] (steps p) p.endsInSlash :=
    advance_congr hfree hup hway
  rw [hfrom]

namespace Agree

section Answers

variable (h : Agree sees d d') (hsees : Rooted sees) (hfree : d.LinkFree) (hp : p.IsPlain)
  (hloc : sees p.location)
include h hsees hfree hp hloc

theorem resolve_eq (follow : Bool) : d'.resolve follow p = d.resolve follow p :=
  resolve_congr hfree hp fun l hl => h.get? l (hsees l _ hl hloc)

theorem stat_eq : d'.stat p = d.stat p := by
  rw [stat, stat, h.resolve_eq hsees hfree hp hloc]

theorem isDir_eq : d'.isDir p = d.isDir p := by
  rw [isDir, isDir, h.stat_eq hsees hfree hp hloc]

theorem readText_eq : d'.readText p = d.readText p := by
  rw [readText, readText, readFile, readFile, h.stat_eq hsees hfree hp hloc]

theorem writable_eq : d'.writable p = d.writable p := by
  rw [writable, writable, h.resolve_eq hsees hfree hp hloc]

end Answers

end Agree

/-- Sound disks that agree. -/
structure Alike (sees : Location → Prop) (d d' : Disk) : Prop where
  sound : d.Sound
  sound' : d'.Sound
  agree : Agree sees d d'

namespace Alike

variable (h : Alike sees d d') (hsees : Rooted sees)
include h hsees

/-- **A directory is made alike**, or fails to be for the same reason. -/
theorem makeDir (hp : p.IsPlain) (hloc : sees p.location) :
    (∃ d₁ d₁', d.makeDir p = .ok d₁ ∧ d'.makeDir p = .ok d₁' ∧ Alike sees d₁ d₁') ∨
      ∃ fault, d.makeDir p = .error fault ∧ d'.makeDir p = .error fault := by
  have hresolve := h.agree.resolve_eq hsees h.sound.linkFree hp hloc false
  cases hmade : d.makeDir p with
  | error fault =>
    refine .inr ⟨fault, rfl, ?_⟩
    rw [Disk.makeDir, bind_eq_error] at hmade ⊢
    rw [hresolve]
    rcases hmade with hfault | ⟨spot, hspot, hanswer⟩
    · exact .inl hfault
    · refine .inr ⟨spot, hspot, ?_⟩
      cases spot with
      | free l slash => cases hanswer
      | dir l | file l c slash | link l => exact hanswer
  | ok d₁ =>
    refine .inl ⟨d₁, d'.set p.location .dir, rfl, ?_⟩
    have hsets := (makeDir_sets h.sound hmade).1
    rw [Disk.makeDir, bind_eq_ok] at hmade
    obtain ⟨spot, hspot, hanswer⟩ := hmade
    have hstands := resolve_standsAt_place (.inl hp) h.sound.linkFree hspot
    rw [hp.place_eq] at hstands hsets
    cases spot with
    | dir l | file l c slash => cases hanswer
    | link l => exact hstands.elim
    | free l slash =>
      cases hanswer
      obtain ⟨rfl, -, above, name, hname, -⟩ := hstands
      have hmade' : d'.makeDir p = .ok (d'.set p.location .dir) := by
        rw [Disk.makeDir, bind_eq_ok]
        exact ⟨_, hresolve.trans hspot, rfl⟩
      refine ⟨hmade', hsets.sound, (makeDir_sets h.sound' hmade').1.sound, ?_⟩
      exact h.agree.set (by simp [hname]) .dir

/-- **A file is written alike.** -/
theorem writeFile (hp : p.IsPlain) (hloc : sees p.location)
    (hok : d.writeFile p content = .ok d₁) :
    ∃ d₁', d'.writeFile p content = .ok d₁' ∧ Alike sees d₁ d₁' := by
  have hwritable := h.agree.writable_eq hsees h.sound.linkFree hp hloc
  have hsound := (writeFile_sets h.sound hok).1.sound
  rw [Disk.writeFile, bind_eq_ok] at hok
  obtain ⟨goal, hgoal, hset⟩ := hok
  cases hset
  obtain ⟨above, name, hname, -⟩ := exists_above_of_writable h.sound hgoal
  have hok' : d'.writeFile p content = .ok (d'.set goal (.file content)) := by
    rw [Disk.writeFile, bind_eq_ok]
    exact ⟨goal, hwritable.trans hgoal, rfl⟩
  refine ⟨_, hok', hsound, (writeFile_sets h.sound' hok').1.sound, ?_⟩
  exact h.agree.set (by simp [hname]) _

/-- **A file is copied alike.** -/
theorem copyFile (hsource : source.IsPlain) (hsourceLoc : sees source.location)
    (htarget : target.IsPlain) (htargetLoc : sees target.location)
    (hok : d.copyFile source target = .ok d₁) :
    ∃ d₁', d'.copyFile source target = .ok d₁' ∧ Alike sees d₁ d₁' := by
  have hstat := h.agree.stat_eq hsees h.sound.linkFree hsource hsourceLoc
  have hwritable := h.agree.writable_eq hsees h.sound.linkFree htarget htargetLoc
  obtain ⟨_, _, -, hsets, -⟩ := copyFile_sets h.sound hok
  rw [Disk.copyFile, bind_eq_ok] at hok
  obtain ⟨standing, hstanding, hok⟩ := hok
  cases standing with
  | dir l => cases hok
  | file l old =>
    obtain ⟨goal, hgoal, hset⟩ := bind_eq_ok.1 hok
    cases hset
    obtain ⟨above, name, hname, -⟩ := exists_above_of_writable h.sound hgoal
    have hne : goal ≠ [] := by simp [hname]
    have hemptied := h.agree.set hne (.file .empty)
    -- the source stands at a location that both disks see
    obtain ⟨rfl, -⟩ := stat_standsAt h.sound.linkFree hsource hstanding
    have hcontent : (d'.set goal (.file .empty)).contentAt source.location =
        (d.set goal (.file .empty)).contentAt source.location := by
      rw [contentAt, contentAt, hemptied.get? _ hsourceLoc]
    have hok' : d'.copyFile source target = .ok ((d'.set goal (.file .empty)).set goal
        (.file ((d.set goal (.file .empty)).contentAt source.location))) := by
      rw [Disk.copyFile, bind_eq_ok]
      refine ⟨_, hstat.trans hstanding, ?_⟩
      dsimp only
      rw [bind_eq_ok]
      exact ⟨goal, hwritable.trans hgoal, by rw [hcontent]⟩
    obtain ⟨_, _, -, hsets', -⟩ := copyFile_sets h.sound' hok'
    exact ⟨_, hok', hsets.sound, hsets'.sound, hemptied.set hne _⟩

end Alike

end Disk

end DualPackage
