import DualPackage.Proofs.Disk.Order
import DualPackage.Tree.Walk
/-!
# Disks without their bytes

The skeleton of a disk is the disk with all its files emptied. Paths lead on
the skeleton where they lead on the disk (`stat_skeleton`), and a walk turns
there as it turns on the disk (`turn_skeleton`). So disks with one skeleton
differ in the bytes of their files only, and nothing that a walk decides
depends on these.
-/

namespace DualPackage

/-- An entry without bytes. -/
def Entry.bare : Entry → Entry
  | .file _ => .file .empty
  | e => e

theorem Entry.bare_eq_dir {e : Entry} : e.bare = .dir ↔ e = .dir := by
  cases e <;> simp [bare]

/-- What a resolution has found, without bytes. -/
def Spot.bare : Spot → Spot
  | .file loc _ slash => .file loc .empty slash
  | spot => spot

/-- What a path leads to, without bytes. -/
def Standing.bare : Standing → Standing
  | .file loc _ => .file loc .empty
  | standing => standing

namespace Disk

/-- The disk with all files emptied. -/
def skeleton (d : Disk) : Disk :=
  { d with entries := d.entries.map fun e => (e.1, e.2.bare) }

variable {d d' : Disk} {loc : Location} {way : List String} {follow slash : Bool} {p : Path}
  {content old : ByteArray} {above : List Location} {e : Entry}
  {jump jump' : Location → List String → Bool → Except DiskFault Spot}

theorem find_map_bare (entries : List (Location × Entry)) :
    find loc (entries.map fun e => (e.1, e.2.bare)) = (find loc entries).map Entry.bare := by
  induction entries with
  | nil => rfl
  | cons head rest ih =>
    obtain ⟨l, e⟩ := head
    by_cases h : l = loc <;> simp [find, h, ih]

theorem get?_skeleton (d : Disk) (loc : Location) :
    d.skeleton.get? loc = (d.get? loc).map Entry.bare := by
  unfold get?
  split
  · rfl
  · exact find_map_bare _

theorem children_skeleton (d : Disk) (dir : Location) :
    d.skeleton.children dir = (d.children dir).map fun c => (c.1, c.2.bare) := by
  simp only [children, skeleton, List.filterMap_map, List.map_filterMap, Function.comp_def,
    Option.map_map]

/-! ## Paths -/

theorem advance_skeleton
    (hjump : ∀ l w s, jump' l w s = (jump l w s).map Spot.bare) :
    d.skeleton.advance follow jump' slash loc way =
      (d.advance follow jump slash loc way).map Spot.bare := by
  induction way generalizing loc with
  | nil => rfl
  | cons step rest ih =>
    rw [advance, advance]
    split
    · exact ih
    · split
      · exact ih
      · dsimp only
        rw [get?_skeleton]
        cases d.get? (loc ++ [step]) with
        | none => cases rest <;> rfl
        | some e =>
          cases e with
          | dir => exact ih
          | file content => cases rest <;> rfl
          | link target =>
            dsimp only [Option.map_some, Entry.bare]
            split
            · rfl
            · exact hjump _ _ _

theorem resolveFrom_skeleton {links : ℕ} :
    d.skeleton.resolveFrom follow links loc way slash =
      (d.resolveFrom follow links loc way slash).map Spot.bare := by
  induction links generalizing loc way slash with
  | zero => exact advance_skeleton fun _ _ _ => rfl
  | succ links ih => exact advance_skeleton fun _ _ _ => ih

theorem resolve_skeleton : d.skeleton.resolve follow p = (d.resolve follow p).map Spot.bare := by
  unfold resolve
  split
  · rfl
  · split
    · rfl
    · exact resolveFrom_skeleton

/-- **Paths** lead where they lead. -/
theorem stat_skeleton (d : Disk) (p : Path) : d.skeleton.stat p = (d.stat p).map Standing.bare := by
  rw [stat, stat, resolve_skeleton]
  cases d.resolve true p with
  | error fault => rfl
  | ok spot =>
    cases spot with
    | file l c slash => cases slash <;> rfl
    | _ => rfl

/-- **A walk** turns as it turns. -/
theorem turn_skeleton : Tree.turn d.skeleton above p loc e.bare = Tree.turn d above p loc e := by
  cases e with
  | link target =>
    show Tree.turn d.skeleton above p loc (.link target) = _
    rw [Tree.turn, Tree.turn, stat_skeleton]
    cases d.stat p with
    | error fault => rfl
    | ok standing => cases standing <;> rfl
  | _ => rfl

/-! ## Disks with one skeleton -/

section SameSkeleton

variable (h : d'.skeleton = d.skeleton)
include h

theorem cwd_of_skeleton : d'.cwd = d.cwd := by
  show d'.skeleton.cwd = d.skeleton.cwd
  rw [h]

theorem keys_of_skeleton : d'.entries.map Prod.fst = d.entries.map Prod.fst := by
  have hkeys := congrArg (fun d => d.entries.map Prod.fst) h
  simpa [skeleton, Function.comp_def] using hkeys

theorem get?_of_skeleton (hget : d'.get? loc = some e) :
    ∃ e', d.get? loc = some e' ∧ e'.bare = e.bare := by
  have hbare := congrArg (fun d => d.get? loc) h
  simp only [get?_skeleton, hget, Option.map_some] at hbare
  exact Option.map_eq_some_iff.1 hbare.symm

theorem dir_of_skeleton (hdir : d.get? loc = some .dir) : d'.get? loc = some .dir := by
  obtain ⟨e, hget, hbare⟩ := get?_of_skeleton h.symm hdir
  rw [hget, Entry.bare_eq_dir.1 hbare]

theorem children_of_skeleton (dir : Location) :
    (d'.children dir).map (fun c => (c.1, c.2.bare)) =
      (d.children dir).map fun c => (c.1, c.2.bare) := by
  rw [← children_skeleton, ← children_skeleton, h]

theorem stat_of_skeleton {standing : Standing} (hstat : d'.stat p = .ok standing) :
    ∃ standing', d.stat p = .ok standing' ∧ standing'.bare = standing.bare := by
  have hbare := congrArg (fun d => d.stat p) h
  simp only [stat_skeleton, hstat] at hbare
  cases hthere : d.stat p with
  | error fault =>
    rw [hthere] at hbare
    cases hbare
  | ok standing' =>
    rw [hthere] at hbare
    exact ⟨standing', rfl, (Except.ok.inj hbare).symm⟩

theorem turn_of_skeleton : Tree.turn d' above p loc e = Tree.turn d above p loc e := by
  rw [← turn_skeleton, h, turn_skeleton]

/-- Where one of them is well formed, so is the other. -/
theorem WellFormed.of_skeleton (hd : d.WellFormed) : d'.WellFormed where
  ordered := by
    have hkeys : (d.entries.map Prod.fst).Pairwise fun a b => a.before b :=
      List.pairwise_map.2 hd.ordered
    rw [← keys_of_skeleton h] at hkeys
    exact List.pairwise_map.1 hkeys
  parent_dir l name e hget := by
    obtain ⟨e', hget', -⟩ := get?_of_skeleton h hget
    exact dir_of_skeleton h (hd.parent_dir _ _ _ hget')
  proper_name l name e hget := by
    obtain ⟨e', hget', -⟩ := get?_of_skeleton h hget
    exact hd.proper_name _ _ _ hget'
  not_root x hx := by
    have hkey : x.1 ∈ d'.entries.map Prod.fst := List.mem_map_of_mem hx
    rw [keys_of_skeleton h] at hkey
    obtain ⟨y, hy, heq⟩ := List.mem_map.1 hkey
    exact heq ▸ hd.not_root y hy
  cwd_dir := by
    rw [cwd_of_skeleton h]
    exact dir_of_skeleton h hd.cwd_dir

end SameSkeleton

theorem map_bare_place {entries : List (Location × Entry)} {e' : Entry}
    (hordered : entries.Pairwise fun a b => a.1.before b.1) (hmem : (loc, e) ∈ entries)
    (hbare : e'.bare = e.bare) :
    (place loc e' entries).map (fun x => (x.1, x.2.bare)) =
      entries.map fun x => (x.1, x.2.bare) := by
  induction entries with
  | nil => cases hmem
  | cons head rest ih =>
    obtain ⟨l, e₁⟩ := head
    obtain ⟨hhead, hrest⟩ := List.pairwise_cons.1 hordered
    rcases List.mem_cons.1 hmem with heq | hmem
    · cases heq
      simp [place, hbare]
    · -- the place lies further down, after the head
      have hlt : l < loc := Location.before_iff_lt.1 (hhead _ hmem)
      have hbefore : loc.before l = false := by
        simpa using fun h => lt_asymm hlt (Location.before_iff_lt.1 h)
      simp only [place, hlt.ne, hbefore, if_false, Bool.false_eq_true, List.map_cons,
        ih hrest hmem]

/-- **Writing over a file** leaves the skeleton as it is. -/
theorem skeleton_set_file (hd : d.WellFormed) (hold : d.get? loc = some (.file old)) :
    (d.set loc (.file content)).skeleton = d.skeleton := by
  have hne : loc ≠ [] := by
    rintro rfl
    cases hold
  have hmem := (hd.get?_eq_some_iff hne).1 hold
  have hentries : (place loc (.file content) d.entries).map (fun x => (x.1, x.2.bare)) = _ :=
    map_bare_place hd.ordered hmem rfl
  rw [skeleton, set, hentries]
  rfl

end Disk

end DualPackage
