import DualPackage.Proofs.Disk.Onward
import DualPackage.Proofs.Path.Normalized
/-!
# Disks with links

What is known of a disk that holds links. File operations keep it well formed
(`Contract.enlarging`), since a place to write in is under a proper name in a
directory, however the path got there (`resolve_isNew`). A path that leads to a
directory leads there still when the disk has grown (`Grows.stat_dir_linked`),
and it may be gone on with to a directory in that one (`stat_join_dir`).
-/

namespace DualPackage

/-- The spot is in a directory, under a name that a path can spell, if it is
free. -/
def Spot.IsNew (d : Disk) : Spot → Prop
  | .free loc _ => ∃ above n, loc = above ++ [n] ∧ d.get? above = some .dir ∧ Path.IsName n
  | .dir _ | .file _ _ _ | .link _ => True

namespace Disk

variable {made written : Location → Prop} {d d' : Disk} {loc start base : Location}
  {way : List String} {follow slash slash' : Bool} {spot : Spot} {p source target : Path}
  {links : ℕ} {content : ByteArray} {n : String}
  {jump jump' : Location → List String → Bool → Except DiskFault Spot}

/-! ## Places to write in -/

theorem advance_isNew (hd : d.WellFormed)
    (hjump : ∀ l w s spot, d.get? l = some .dir → (∀ step ∈ w, Path.IsSegment step) →
      jump l w s = .ok spot → spot.IsNew d)
    (hstart : d.get? start = some .dir) (hway : ∀ step ∈ way, Path.IsSegment step)
    (h : d.advance follow jump slash start way = .ok spot) : spot.IsNew d := by
  induction way generalizing start with
  | nil =>
    obtain rfl : Spot.dir start = spot := by simpa [advance] using h
    trivial
  | cons step rest ih =>
    obtain ⟨hstep, hrest⟩ := List.forall_mem_cons.1 hway
    rw [advance] at h
    split at h
    · exact ih hstart hrest h
    · rename_i hhere
      split at h
      · exact ih (hd.dir_dropLast hstart) hrest h
      · rename_i hup
        dsimp only at h
        split at h
        · split at h
          · cases h
            exact ⟨start, step, rfl, hstart, hstep.ne_empty, hhere, hup, hstep.slash_free⟩
          · cases h
        · exact ih ‹_› hrest h
        · split at h
          · cases h
            trivial
          · cases h
        · split at h
          · cases h
            trivial
          · refine hjump _ _ _ _ ?_ ?_ h
            · split
              · exact get?_root d
              · exact hstart
            · exact List.forall_mem_append.2 ⟨fun _ => Path.isSegment_of_mem_steps, hrest⟩

theorem resolveFrom_isNew (hd : d.WellFormed) (hstart : d.get? start = some .dir)
    (hway : ∀ step ∈ way, Path.IsSegment step)
    (h : d.resolveFrom follow links start way slash = .ok spot) : spot.IsNew d := by
  induction links generalizing start way slash spot with
  | zero => exact advance_isNew hd (fun _ _ _ _ _ _ hjump => by cases hjump) hstart hway h
  | succ links ih =>
    exact advance_isNew hd (fun _ _ _ _ hl hw hjump => ih hl hw hjump) hstart hway h

theorem resolve_isNew (hd : d.WellFormed) (h : d.resolve follow p = .ok spot) : spot.IsNew d := by
  refine resolveFrom_isNew hd ?_ (fun _ => Path.isSegment_of_mem_steps) (resolveFrom_of_resolve h)
  split
  · exact get?_root d
  · exact hd.cwd_dir

theorem wellFormed_of_makeDir (hd : d.WellFormed) (h : d.makeDir p = .ok d') : d'.WellFormed := by
  rw [makeDir, bind_eq_ok] at h
  obtain ⟨spot, hspot, hanswer⟩ := h
  cases spot with
  | dir l | file l c slash | link l => cases hanswer
  | free l slash =>
    cases hanswer
    obtain ⟨above, n, rfl, hdir, hn⟩ := resolve_isNew hd hspot
    exact hd.set hdir hn (.inr rfl)

/-- What can be written is right in a directory, and is no directory itself. -/
theorem WellFormed.above_writable (hd : d.WellFormed) (h : d.writable p = .ok loc) :
    ∃ above n, loc = above ++ [n] ∧ d.get? above = some .dir ∧ Path.IsName n ∧
      d.get? loc ≠ some .dir := by
  obtain ⟨spot, hspot, hends⟩ := writable_eq_ok h
  have hthere := resolve_isThere hspot
  cases spot with
  | dir l | link l => exact hends.elim
  | file l old slash =>
    obtain ⟨rfl, -⟩ := hends
    have hfile : d.get? l = some (.file old) := hthere
    rcases List.eq_nil_or_concat l with rfl | ⟨above, n, rfl⟩
    · rw [get?_root] at hfile
      cases hfile
    · rw [List.concat_eq_append] at hfile ⊢
      exact ⟨above, n, rfl, hd.parent_dir _ _ _ hfile, hd.isName hfile, by simp [hfile]⟩
  | free l slash =>
    obtain ⟨rfl, -⟩ := hends
    have hfree : d.get? l = none := hthere
    obtain ⟨above, n, hloc, hdir, hn⟩ := resolve_isNew hd hspot
    exact ⟨above, n, hloc, hdir, hn, by simp [hfree]⟩

theorem wellFormed_of_writeFile (hd : d.WellFormed) (h : d.writeFile p content = .ok d') :
    d'.WellFormed := by
  rw [writeFile, bind_eq_ok] at h
  obtain ⟨loc, hwritable, hset⟩ := h
  cases hset
  obtain ⟨above, n, rfl, hdir, hn, hold⟩ := hd.above_writable hwritable
  exact hd.set hdir hn (.inl hold)

theorem wellFormed_of_copyFile (hd : d.WellFormed) (h : d.copyFile source target = .ok d') :
    d'.WellFormed := by
  rw [copyFile, bind_eq_ok] at h
  obtain ⟨standing, -, h⟩ := h
  cases standing with
  | dir l => cases h
  | file l old =>
    dsimp only at h
    rw [bind_eq_ok] at h
    obtain ⟨loc, hwritable, hset⟩ := h
    cases hset
    obtain ⟨above, n, rfl, hdir, hn, hold⟩ := hd.above_writable hwritable
    have hhere : (d.set (above ++ [n]) (.file .empty)).get? (above ++ [n]) = some (.file .empty) :=
      get?_set_self (by simp) _
    -- the target is emptied first, which leaves a file there
    exact (hd.set hdir hn (.inl hold)).set (by rwa [get?_set_ne (by simp)]) hn
      (.inl (by simp [hhere]))

end Disk

namespace Contract

open Disk

variable {p source target : Path}

/-- A well-formed disk grows, wherever it does. -/
def enlarging : Contract Disk :=
  .always Disk.WellFormed (Disk.Grows anywhere anywhere) .refl .trans

theorem enlarging_makeDir : enlarging.Allows (·.makeDir p) := fun _ _ hd hok =>
  ⟨wellFormed_of_makeDir hd hok, (makeDir_grows hok).mono (fun _ _ => trivial) fun _ _ => trivial⟩

theorem enlarging_writeFile (content : ByteArray) : enlarging.Allows (·.writeFile p content) := by
  intro d d' hd hok
  obtain ⟨loc, -, hgrows, -⟩ := writeFile_grows hok
  exact ⟨wellFormed_of_writeFile hd hok, hgrows.mono (fun _ _ => trivial) fun _ _ => trivial⟩

theorem enlarging_copyFile : enlarging.Allows (·.copyFile source target) := by
  intro d d' hd hok
  obtain ⟨loc, content, -, hgrows, -⟩ := copyFile_grows hok
  exact ⟨wellFormed_of_copyFile hd hok, hgrows.mono (fun _ _ => trivial) fun _ _ => trivial⟩

theorem enlarging_createDirAll : enlarging.Keeps (DiskM.createDirAll p) :=
  keeps_createDirAll fun _ _ => enlarging_makeDir

end Contract

namespace Disk

variable {made written : Location → Prop} {d d' : Disk} {loc start base : Location}
  {way : List String} {slash slash' : Bool} {p : Path} {links : ℕ} {n : String}
  {jump jump' : Location → List String → Bool → Except DiskFault Spot}

/-! ## Ways to directories -/

/-- The way to a directory goes through directories and links only, which
stay. -/
theorem Grows.advance_dir_linked (hgrows : d.Grows made written d')
    (hjump : ∀ l w s, jump l w s = .ok (.dir loc) → jump' l w s = .ok (.dir loc))
    (h : d.advance true jump slash start way = .ok (.dir loc)) :
    d'.advance true jump' slash start way = .ok (.dir loc) := by
  induction way generalizing start with
  | nil => exact h
  | cons step rest ih =>
    rw [advance] at h ⊢
    split at h
    · rw [if_pos ‹_›]
      exact ih h
    · rw [if_neg ‹_›]
      split at h
      · rw [if_pos ‹_›]
        exact ih h
      · rw [if_neg ‹_›]
        dsimp only at h ⊢
        split at h
        · split at h <;> cases h
        · rename_i hget
          simp only [hgrows.dir hget]
          exact ih h
        · split at h <;> cases h
        · rename_i goal hget
          simp only [hgrows.link hget, Bool.not_true, Bool.and_false, Bool.false_eq_true,
            if_false] at h ⊢
          exact hjump _ _ _ h

theorem Grows.resolveFrom_dir_linked (hgrows : d.Grows made written d')
    (h : d.resolveFrom true links start way slash = .ok (.dir loc)) :
    d'.resolveFrom true links start way slash = .ok (.dir loc) := by
  induction links generalizing start way slash with
  | zero => exact hgrows.advance_dir_linked (fun _ _ _ hjump => by cases hjump) h
  | succ links ih => exact hgrows.advance_dir_linked (fun _ _ _ hjump => ih hjump) h

/-- **A path that leads to a directory** goes on leading there, through links or
not. -/
theorem Grows.stat_dir_linked (hgrows : d.Grows made written d')
    (h : d.stat p = .ok (.dir loc)) : d'.stat p = .ok (.dir loc) := by
  rw [stat_eq_dir_iff] at h ⊢
  unfold resolve at h ⊢
  split at h
  · cases h
  · rw [if_neg ‹_›]
    split at h
    · cases h
    · rw [if_neg ‹_›, hgrows.cwd]
      exact hgrows.resolveFrom_dir_linked h

/-- The way to a directory may be gone on with to one that is right in it. -/
theorem advance_concat
    (hjump : ∀ l w s s', jump l w s = .ok (.dir base) →
      jump' l (w ++ [n]) s' = .ok (.dir (base ++ [n])))
    (hn : Path.IsName n) (hdir : d.get? (base ++ [n]) = some .dir)
    (h : d.advance true jump slash start way = .ok (.dir base)) :
    d.advance true jump' slash' start (way ++ [n]) = .ok (.dir (base ++ [n])) := by
  induction way generalizing start with
  | nil =>
    obtain rfl : start = base := by simpa [advance] using h
    rw [List.nil_append, advance, if_neg hn.ne_here, if_neg hn.ne_up]
    simp only [hdir]
    rfl
  | cons step rest ih =>
    rw [List.cons_append]
    rw [advance] at h ⊢
    split at h
    · rw [if_pos ‹_›]
      exact ih h
    · rw [if_neg ‹_›]
      split at h
      · rw [if_pos ‹_›]
        exact ih h
      · rw [if_neg ‹_›]
        dsimp only at h ⊢
        split at h
        · split at h <;> cases h
        · exact ih h
        · split at h <;> cases h
        · simp only [Bool.not_true, Bool.and_false, Bool.false_eq_true, if_false] at h ⊢
          rw [← List.append_assoc]
          exact hjump _ _ _ _ h

theorem resolveFrom_concat (hn : Path.IsName n) (hdir : d.get? (base ++ [n]) = some .dir)
    (h : d.resolveFrom true links start way slash = .ok (.dir base)) :
    d.resolveFrom true links start (way ++ [n]) slash' = .ok (.dir (base ++ [n])) := by
  induction links generalizing start way slash slash' with
  | zero => exact advance_concat (fun _ _ _ _ hjump => by cases hjump) hn hdir h
  | succ links ih => exact advance_concat (fun _ _ _ _ hjump => ih hjump) hn hdir h

theorem zeroFree_of_stat {standing : Standing} (h : d.stat p = .ok standing) : p.ZeroFree := by
  rw [stat, bind_eq_ok] at h
  obtain ⟨spot, hspot, -⟩ := h
  unfold resolve at hspot
  split at hspot
  · cases hspot
  · split at hspot
    · cases hspot
    · rename_i hzero
      rwa [List.contains_iff_mem] at hzero

/-- **A path that leads to a directory leads on** to a directory in it. -/
theorem stat_join_dir (hn : Path.IsName n) (hzero : (p.join ⟨n⟩).ZeroFree)
    (h : d.stat p = .ok (.dir base)) (hdir : d.get? (base ++ [n]) = some .dir) :
    d.stat (p.join ⟨n⟩) = .ok (.dir (base ++ [n])) := by
  obtain ⟨hsteps, habs⟩ := steps_under (p := p) (List.forall_mem_singleton.2 hn)
  rw [Path.under_cons, Path.under_nil] at hsteps habs
  have hne : ¬ (p.join ⟨n⟩).text.isEmpty := by
    rw [String.isEmpty_iff]
    intro hempty
    rw [show p.join ⟨n⟩ = ⟨""⟩ from congrArg Path.mk hempty] at hsteps
    exact List.append_ne_nil_of_right_ne_nil _ (List.cons_ne_nil n []) hsteps.symm
  have hcontains : ¬ (p.join ⟨n⟩).text.toList.contains '\x00' := by
    rwa [List.contains_iff_mem]
  rw [stat_eq_dir_iff] at h ⊢
  rw [resolve, if_neg hne, if_neg hcontains, habs, hsteps]
  exact resolveFrom_concat hn hdir (resolveFrom_of_resolve h)

end Disk

end DualPackage
