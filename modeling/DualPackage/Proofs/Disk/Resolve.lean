import DualPackage.Disk.Access
import DualPackage.Proofs.Disk.Order
import DualPackage.Proofs.Path.Place
/-!
# What a path leads to

On a disk without links a path can only lead to its place
(`resolve_standsAt_place`), and a plain path to the location it spells
(`stat_standsAt`). The file operations are read off that: what they
answer about a path they answer about its place, and what they write they
write there.
-/

namespace DualPackage

/-- A spot is what stands at a location, or the free place there under a
name in a directory. -/
def Spot.StandsAt (d : Disk) (loc : Location) : Spot → Prop
  | .dir l => l = loc ∧ d.get? loc = some .dir
  | .file l content _ => l = loc ∧ d.get? loc = some (.file content)
  | .link _ => False
  | .free l _ => l = loc ∧ d.get? loc = none ∧
      ∃ above name, loc = above ++ [name] ∧ d.get? above = some .dir ∧ Path.IsName name

/-- So is what a path leads to, which is there in any case. -/
def Standing.StandsAt (d : Disk) (loc : Location) : Standing → Prop
  | .dir l => l = loc ∧ d.get? loc = some .dir
  | .file l content => l = loc ∧ d.get? loc = some (.file content)

namespace Disk

section Bind

variable {ε α β : Type} {x : Except ε α} {f : α → Except ε β}

/-- A question answered in two steps has an answer if both have. -/
theorem bind_eq_ok {b : β} : (x >>= f) = .ok b ↔ ∃ a, x = .ok a ∧ f a = .ok b := by
  cases x <;> simp [bind, Except.bind]

theorem bind_eq_error {e : ε} :
    (x >>= f) = .error e ↔ x = .error e ∨ ∃ a, x = .ok a ∧ f a = .error e := by
  cases x <;> simp [bind, Except.bind]

end Bind

variable {d d' : Disk} {p q : Path} {loc : Location} {way : List String} {follow slash : Bool}
  {jump : Location → List String → Bool → Except DiskFault Spot}

/-- Above a directory stands a directory. -/
theorem WellFormed.dir_dropLast (h : d.WellFormed) (hloc : d.get? loc = some .dir) :
    d.get? loc.dropLast = some .dir := by
  rcases List.eq_nil_or_concat loc with rfl | ⟨above, name, rfl⟩
  · rfl
  · rw [List.concat_eq_append] at hloc ⊢
    rw [List.dropLast_concat]
    exact h.parent_dir _ _ _ hloc

/-- Going along a way without links leads where its steps lead. Going back up
takes a disk on which a directory stands above each directory. -/
theorem advance_standsAt (hfree : d.LinkFree) (hup : ".." ∈ way → d.WellFormed)
    (hsegments : ∀ s ∈ way, s ≠ "" ∧ ∀ c ∈ s.toList, c ≠ '/') (hloc : d.get? loc = some .dir)
    {spot : Spot} (h : d.advance follow jump slash loc way = .ok spot) :
    spot.StandsAt d (way.foldl Location.go loc) := by
  induction way generalizing loc with
  | nil =>
    obtain rfl : Spot.dir loc = spot := by simpa [advance] using h
    exact ⟨rfl, hloc⟩
  | cons step rest ih =>
    obtain ⟨⟨hne, hslash⟩, hsegments⟩ := List.forall_mem_cons.1 hsegments
    have hup' : ".." ∈ rest → d.WellFormed := fun hmem => hup (List.mem_cons_of_mem _ hmem)
    rw [List.foldl_cons, Location.go]
    rw [advance] at h
    split at h
    · rename_i hhere
      rw [if_pos hhere]
      exact ih hup' hsegments hloc h
    · rename_i hhere
      rw [if_neg hhere]
      split at h
      · rename_i hback
        rw [if_pos hback]
        have hformed := hup (by simp [hback])
        exact ih hup' hsegments (hformed.dir_dropLast hloc) h
      · rename_i hback
        rw [if_neg hback]
        dsimp only at h
        split at h
        · -- nothing is there: the step has to be the last one
          rename_i hget
          split at h
          · rename_i hlast
            obtain rfl : rest = [] := by simpa using hlast
            obtain rfl : Spot.free (loc ++ [step]) slash = spot := by simpa using h
            exact ⟨rfl, hget, loc, step, rfl, hloc, hne, hhere, hback, hslash⟩
          · cases h
        · rename_i hget
          exact ih hup' hsegments hget h
        · -- a file is there: again this has to be the last step
          rename_i content hget
          split at h
          · rename_i hlast
            obtain rfl : rest = [] := by simpa using hlast
            obtain rfl : Spot.file (loc ++ [step]) content slash = spot := by simpa using h
            exact ⟨rfl, hget⟩
          · cases h
        · rename_i target hget
          exact absurd hget (hfree _ _)

/-- No place on the way is at fault for its text. -/
theorem advance_ne_invalidText (hjump : ∀ l w s, jump l w s ≠ .error .invalidText) :
    d.advance follow jump slash loc way ≠ .error .invalidText := by
  induction way generalizing loc with
  | nil => simp [advance]
  | cons step rest ih =>
    rw [advance]
    split
    · exact ih
    · split
      · exact ih
      · dsimp only
        split
        · split <;> simp
        · exact ih
        · split <;> simp
        · split
          · simp
          · exact hjump _ _ _

theorem resolveFrom_ne_invalidText {links : Nat} :
    d.resolveFrom follow links loc way slash ≠ .error .invalidText := by
  induction links generalizing loc way slash with
  | zero => exact advance_ne_invalidText fun _ _ _ => by simp
  | succ links ih => exact advance_ne_invalidText fun _ _ _ => ih

/-- **A path leads to its place**, on a disk without links. -/
theorem resolve_standsAt_place (hp : p.IsPlain ∨ d.WellFormed) (hfree : d.LinkFree) {spot : Spot}
    (h : d.resolve follow p = .ok spot) : spot.StandsAt d (p.place d.cwd) := by
  have hup : ".." ∈ steps p → d.WellFormed := fun hmem =>
    hp.resolve_left fun hplain => hplain.up_free (Path.up_mem_steps.1 hmem)
  have hsegments : ∀ s ∈ steps p, s ≠ "" ∧ ∀ c ∈ s.toList, c ≠ '/' := by
    intro s hs
    obtain ⟨hmem, hne⟩ := List.mem_filter.1 hs
    exact ⟨by simpa using hne, Path.slash_free_of_mem_segments hmem⟩
  have hstart : d.get? (if p.isAbsolute then [] else d.cwd) = some .dir := by
    split
    · rfl
    · rename_i hrel
      exact (hp.resolve_left fun hplain => hrel hplain.isAbsolute).cwd_dir
  unfold resolve at h
  split at h
  · cases h
  · split at h
    · cases h
    · exact advance_standsAt hfree hup hsegments hstart h

theorem resolve_ne_invalidText (d : Disk) (p : Path) :
    d.resolve follow p ≠ .error .invalidText := by
  unfold resolve
  split
  · simp
  · split
    · simp
    · exact resolveFrom_ne_invalidText

/-- **What a path leads to** stands at its place. -/
theorem stat_standsAt_place (hp : p.IsPlain ∨ d.WellFormed) (hfree : d.LinkFree)
    {standing : Standing} (h : d.stat p = .ok standing) :
    standing.StandsAt d (p.place d.cwd) := by
  rw [stat, bind_eq_ok] at h
  obtain ⟨spot, hspot, hanswer⟩ := h
  have hstands := resolve_standsAt_place hp hfree hspot
  cases spot with
  | dir l =>
    cases hanswer
    exact hstands
  | file l content slash =>
    cases slash with
    | true => cases hanswer
    | false =>
      cases hanswer
      exact hstands
  | link l => exact hstands.elim
  | free l slash => cases hanswer

/-- A plain path leads to the location it spells. -/
theorem stat_standsAt (hfree : d.LinkFree) (hp : p.IsPlain) {standing : Standing}
    (h : d.stat p = .ok standing) : standing.StandsAt d p.location := by
  rw [← hp.place_eq d.cwd]
  exact stat_standsAt_place (.inl hp) hfree h

theorem stat_ne_invalidText (d : Disk) (p : Path) :
    d.stat p ≠ .error .invalidText := by
  intro h
  rw [stat, bind_eq_error] at h
  rcases h with hfault | ⟨spot, -, hanswer⟩
  · exact resolve_ne_invalidText d p hfault
  · cases spot with
    | file l content slash => cases slash <;> cases hanswer
    | dir l | link l | free l slash => cases hanswer

theorem isDir_iff (d : Disk) (p : Path) : d.isDir p ↔ ∃ loc, d.stat p = .ok (.dir loc) := by
  unfold isDir
  split
  · rename_i loc h
    exact iff_of_true rfl ⟨loc, h⟩
  · rename_i h
    refine iff_of_false (by simp) ?_
    rintro ⟨loc, hloc⟩
    exact h loc hloc

theorem get?_of_isDir (hfree : d.LinkFree) (hp : p.IsPlain) (h : d.isDir p) :
    d.get? p.location = some .dir := by
  obtain ⟨loc, hloc⟩ := (isDir_iff d p).1 h
  exact (stat_standsAt hfree hp hloc).2

end Disk

end DualPackage
