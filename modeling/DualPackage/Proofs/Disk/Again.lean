import DualPackage.Proofs.Run.Contract
/-!
# Operations done again

What has been made stays made while a disk grows, so an operation done
again later finds its way as before. A directory that was made is still a
directory (`Grows.isDir`), and making it again changes nothing
(`DiskM.createDirAll_again`). A file that was written can be written again
(`Grows.writeFile_again`).
-/

namespace DualPackage

/-- A directory stands at the location, or may be made there. -/
def Spot.FitsDir (loc : Location) (spot : Spot) : Prop :=
  spot = .dir loc ∨ ∃ slash, spot = .free loc slash

namespace Disk

variable {made written : Location → Prop} {d d₁ d' : Disk} {loc start : Location}
  {way : List String} {follow follow' slash slash' : Bool} {spot : Spot} {p : Path}
  {content content' : ByteArray} {standing : Standing}
  {jump jump' : Location → List String → Bool → Except DiskFault Spot}

section Ways

variable (hgrows : d.Grows made written d') (hfree : d.LinkFree)
  (hdir : d'.get? loc = some .dir)
include hgrows hfree hdir

/-- The way to a directory, or to the free place where it is made later, goes
through directories only. -/
theorem Grows.advance_dir (h : d.advance follow jump slash start way = .ok spot)
    (hspot : spot.FitsDir loc) :
    d'.advance follow' jump' slash' start way = .ok (.dir loc) := by
  induction way generalizing start with
  | nil =>
    obtain rfl : Spot.dir start = spot := by simpa [advance] using h
    rcases hspot with hspot | ⟨slash, hspot⟩
    · rw [advance, hspot]
    · cases hspot
  | cons step rest ih =>
    rw [advance] at h ⊢
    split at h
    · rename_i hhere
      rw [if_pos hhere]
      exact ih h
    · rename_i hhere
      rw [if_neg hhere]
      split at h
      · rename_i hback
        rw [if_pos hback]
        exact ih h
      · rename_i hback
        rw [if_neg hback]
        dsimp only at h ⊢
        split at h
        · split at h
          · rename_i hlast
            obtain rfl := List.isEmpty_iff.1 hlast
            cases h
            rcases hspot with hspot | ⟨slash, hspot⟩
            · cases hspot
            · cases hspot
              simp only [hdir, advance]
          · cases h
        · rename_i hget
          simp only [hgrows.dir hget]
          exact ih h
        · split at h
          · cases h
            rcases hspot with hspot | ⟨slash, hspot⟩ <;> cases hspot
          · cases h
        · rename_i goal hget
          exact absurd hget (hfree _ _)

theorem Grows.resolve_dir (h : d.resolve follow p = .ok spot) (hspot : spot.FitsDir loc) :
    d'.resolve follow' p = .ok (.dir loc) := by
  unfold resolve at h ⊢
  split at h
  · cases h
  · rename_i hempty
    rw [if_neg hempty]
    split at h
    · cases h
    · rename_i hzero
      rw [if_neg hzero, hgrows.cwd]
      exact hgrows.advance_dir hfree hdir h hspot

end Ways

theorem isDir_of_stat (h : d.stat p = .ok (.dir loc)) : d.isDir p := by
  rw [isDir, h]

/-- **A directory** goes on being found. -/
theorem Grows.stat_dir (hgrows : d.Grows made written d') (hs : d.Sound)
    (h : d.stat p = .ok (.dir loc)) : d'.stat p = .ok (.dir loc) := by
  have hstands := stat_standsAt_place (.inr hs.wellFormed) hs.linkFree h
  obtain ⟨rfl, hdir⟩ := hstands
  exact stat_eq_dir_iff.2
    (hgrows.resolve_dir hs.linkFree (hgrows.dir hdir) (stat_eq_dir_iff.1 h) (.inl rfl))

theorem Grows.isDir (hgrows : d.Grows made written d') (hs : d.Sound) (h : d.isDir p) :
    d'.isDir p := by
  obtain ⟨loc, hstat⟩ := (isDir_iff _ _).1 h
  exact isDir_of_stat (hgrows.stat_dir hs hstat)

/-- Whatever a path leads to, it goes on leading to something. -/
theorem Grows.exists_stat (hgrows : d.Grows made written d') (hs : d.Sound)
    (h : d.stat p = .ok standing) : ∃ standing', d'.stat p = .ok standing' := by
  cases standing with
  | dir l => exact ⟨_, hgrows.stat_dir hs h⟩
  | file l old =>
    obtain ⟨new, hnew⟩ := hgrows.file (get?_of_stat h)
    exact ⟨_, hgrows.stat hnew h⟩

/-- No directory is made where one is. -/
theorem makeDir_of_isDir (hs : d.Sound) (h : d.isDir p) :
    d.makeDir p = .error .alreadyExists := by
  obtain ⟨loc, hstat⟩ := (isDir_iff _ _).1 h
  have hgrows : d.Grows anywhere anywhere d := .refl d
  have hresolve := stat_eq_dir_iff.1 hstat
  obtain ⟨rfl, hdir⟩ := stat_standsAt_place (.inr hs.wellFormed) hs.linkFree hstat
  have hunfollowed : d.resolve false p = .ok (.dir (p.place d.cwd)) :=
    hgrows.resolve_dir hs.linkFree hdir hresolve (.inl rfl)
  rw [makeDir, hunfollowed]
  rfl

/-- A directory that has been made is one. -/
theorem isDir_of_makeDir (hs : d.Sound) (hok : d.makeDir p = .ok d') : d'.isDir p := by
  have hgrows := makeDir_grows hok
  obtain ⟨hsets, -⟩ := makeDir_sets hs hok
  rw [makeDir, bind_eq_ok] at hok
  obtain ⟨spot, hspot, hanswer⟩ := hok
  have hstands := resolve_standsAt_place (.inr hs.wellFormed) hs.linkFree hspot
  cases spot with
  | dir l | file l c slash | link l => cases hanswer
  | free l slash =>
    obtain ⟨rfl, -⟩ := hstands
    exact isDir_of_stat (stat_eq_dir_iff.2
      (hgrows.resolve_dir hs.linkFree hsets.here hspot (.inr ⟨slash, rfl⟩)))

theorem writable_of_stat (h : d.stat p = .ok (.file loc content)) : d.writable p = .ok loc := by
  rw [writable, stat_eq_file_iff.1 h]
  rfl

/-- **A file that was written can be written again.** -/
theorem Grows.writeFile_again (hgrows : d₁.Grows made written d') (hs : d.Sound)
    (hok : d.writeFile p content = .ok d₁) :
    d'.writeFile p content' = .ok (d'.set (p.place d'.cwd) (.file content')) := by
  obtain ⟨loc, hwritable, hfirst, hhere⟩ := writeFile_grows hok
  obtain ⟨rfl, -⟩ := writable_ok hs hwritable
  obtain ⟨new, hnew⟩ := hgrows.file hhere
  have hstat := hgrows.stat hnew (hfirst.stat_of_writable hhere hwritable)
  rw [writeFile, writable_of_stat hstat, hgrows.cwd, hfirst.cwd]
  rfl

end Disk

namespace DiskM

open Disk

variable {d d' e : Disk} {p : Path} {above : List Path} {made written : Location → Prop}

theorem isDir_of_ensureDir (hs : d.Sound) (hok : ensureDir p d = .ok () d') : d'.isDir p := by
  unfold ensureDir at hok
  split at hok
  · rename_i d₁ hmake
    obtain rfl : d₁ = d' := by simpa using hok
    exact isDir_of_makeDir hs hmake
  · split at hok
    · rename_i hdir
      obtain rfl : d = d' := by simpa using hok
      exact hdir
    · cases hok

/-- What has been made is a directory, the working directory apart. -/
theorem isDir_of_createDirBelow (hs : d.Sound) (hok : createDirBelow above p d = .ok () d') :
    above = [] ∧ p.components.isEmpty ∨ d'.isDir p := by
  cases above with
  | nil =>
    rw [createDirBelow] at hok
    split at hok
    · rename_i hempty
      exact .inl ⟨rfl, hempty⟩
    · exact .inr (isDir_of_ensureDir hs hok)
  | cons parent above =>
    right
    unfold createDirBelow at hok
    split at hok
    · rename_i d₁ hmake
      obtain rfl : d₁ = d' := by simpa using hok
      exact isDir_of_makeDir hs hmake
    · obtain ⟨⟨⟩, d₁, habove, hhere⟩ := Outcome.bind_ok hok
      have hkeeps : (Contract.growing anywhere anywhere d.cwd).Keeps (createDirBelow above parent) :=
        Contract.keeps_createDirBelow fun _ _ => Contract.growing_makeDir trivial
      obtain ⟨⟨hs₁, -⟩, -⟩ := hkeeps.step ⟨hs, rfl⟩ habove
      exact isDir_of_ensureDir hs₁ hhere
    · split at hok
      · rename_i hdir
        obtain rfl : d = d' := by simpa using hok
        exact hdir
      · cases hok

theorem ensureDir_of_isDir (hs : d.Sound) (h : d.isDir p) : ensureDir p d = .ok () d := by
  simp only [ensureDir, makeDir_of_isDir hs h, h, if_true]

/-- **A directory that was made is not made again.** -/
theorem createDirAll_again (hs : d.Sound) (hok : createDirAll p d = .ok () d')
    (hs' : d'.Sound) (hgrows : d'.Grows made written e) (hse : e.Sound) :
    createDirAll p e = .ok () e := by
  unfold createDirAll at hok ⊢
  rcases isDir_of_createDirBelow hs hok with ⟨hnone, hempty⟩ | hdir
  · rw [hnone, createDirBelow, if_pos hempty]
    rfl
  · have hdir := hgrows.isDir hs' hdir
    cases p.ancestors with
    | nil =>
      rw [createDirBelow]
      split
      · rfl
      · exact ensureDir_of_isDir hse hdir
    | cons parent above =>
      simp only [createDirBelow, makeDir_of_isDir hse hdir, hdir, if_true]

end DiskM

end DualPackage
