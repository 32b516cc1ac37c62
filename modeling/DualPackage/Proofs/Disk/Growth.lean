import DualPackage.Proofs.Disk.Access
/-!
# Disks that grow

No file operation takes anything away: it makes directories where nothing
stood, and writes files where nothing or a file stood. `Disk.Grows` says so
of two disks, with the locations at which either may have happened; it is
what a whole run comes to, on any disk, links included.

Nothing that a path passes through is changed by that. A path that leads
to a file goes on leading to it (`Grows.stat`), and so does one that led
to a free place, once a file is written there (`Grows.stat_of_writable`).
-/

namespace DualPackage

namespace Disk

/-- What may become of a location where directories may be made or files
written. -/
inductive Change (mayMake mayWrite : Prop) : Option Entry → Option Entry → Prop where
  | same (o : Option Entry) : Change mayMake mayWrite o o
  | make : mayMake → Change mayMake mayWrite none (some .dir)
  | create (content : ByteArray) : mayWrite → Change mayMake mayWrite none (some (.file content))
  | write (old new : ByteArray) : mayWrite →
      Change mayMake mayWrite (some (.file old)) (some (.file new))

namespace Change

variable {mayMake mayWrite mayMake' mayWrite' : Prop} {o o₁ o' : Option Entry} {e : Entry}

theorem trans (h : Change mayMake mayWrite o o₁) (h' : Change mayMake mayWrite o₁ o') :
    Change mayMake mayWrite o o' := by
  cases h with
  | same => exact h'
  | make hmake => cases h'; exact .make hmake
  | create content hwrite => cases h' <;> exact .create _ hwrite
  | write old new hwrite => cases h' <;> exact .write _ _ hwrite

theorem mono (h : Change mayMake mayWrite o o') (hmake : mayMake → mayMake')
    (hwrite : mayWrite → mayWrite') : Change mayMake' mayWrite' o o' := by
  cases h with
  | same => exact .same _
  | make h => exact .make (hmake h)
  | create content h => exact .create content (hwrite h)
  | write old new h => exact .write old new (hwrite h)

/-- Nothing is lost, and directories and files keep apart. -/
theorem kept (h : Change mayMake mayWrite (some e) o') :
    o' = some e ∨ mayWrite ∧ ∃ old new, e = .file old ∧ o' = some (.file new) := by
  cases h with
  | same => exact .inl rfl
  | write old new hwrite => exact .inr ⟨hwrite, old, new, rfl, rfl⟩

/-- Where nothing is written, there is no new file. -/
theorem new (h : Change mayMake mayWrite none o') (hwrite : ¬ mayWrite) :
    o' = none ∨ mayMake ∧ o' = some .dir := by
  cases h with
  | same => exact .inl rfl
  | make hmake => exact .inr ⟨hmake, rfl⟩
  | create content h => exact absurd h hwrite

end Change

/-- The disk `d'` is `d` with directories made and files written, at some of
the given locations. -/
structure Grows (made written : Location → Prop) (d d' : Disk) : Prop where
  cwd : d'.cwd = d.cwd
  change : ∀ l, Change (made l) (written l) (d.get? l) (d'.get? l)

/-- All locations. -/
abbrev anywhere : Location → Prop := fun _ => True

/-- No location. -/
abbrev nowhere : Location → Prop := fun _ => False

variable {made written made' written' : Location → Prop} {d d₁ d' : Disk} {loc : Location}
  {e : Entry} {content old : ByteArray} {p source target : Path}

namespace Grows

theorem refl (d : Disk) : Grows made written d d := ⟨rfl, fun _ => .same _⟩

theorem trans (h : Grows made written d d₁) (h' : Grows made written d₁ d') :
    Grows made written d d' :=
  ⟨h'.cwd.trans h.cwd, fun l => (h.change l).trans (h'.change l)⟩

theorem mono (h : Grows made written d d') (hmade : ∀ l, made l → made' l)
    (hwritten : ∀ l, written l → written' l) : Grows made' written' d d' where
  cwd := h.cwd
  change l := (h.change l).mono (hmade l) (hwritten l)

theorem of_unwritten (h : Grows made written d d') (hloc : ¬ written loc)
    (hentry : d.get? loc = some e) : d'.get? loc = some e :=
  (hentry ▸ h.change loc).kept.resolve_right fun hwrite => hloc hwrite.1

theorem eq_of_untouched (h : Grows made written d d') (hmade : ¬ made loc) (hwritten : ¬ written loc) :
    d'.get? loc = d.get? loc := by
  cases hget : d.get? loc with
  | some e => exact h.of_unwritten hwritten hget
  | none => exact (hget ▸ h.change loc).new hwritten |>.resolve_right fun hnew => hmade hnew.1

theorem dir (h : Grows made written d d') (hdir : d.get? loc = some .dir) :
    d'.get? loc = some .dir :=
  (hdir ▸ h.change loc).kept.resolve_right (by simp)

theorem link (h : Grows made written d d') {goal : String} (hlink : d.get? loc = some (.link goal)) :
    d'.get? loc = some (.link goal) :=
  (hlink ▸ h.change loc).kept.resolve_right (by simp)

theorem file (h : Grows made written d d') (hfile : d.get? loc = some (.file old)) :
    ∃ new, d'.get? loc = some (.file new) := by
  rcases (hfile ▸ h.change loc).kept with hsame | ⟨-, -, new, -, hnew⟩
  · exact ⟨old, hsame⟩
  · exact ⟨new, hnew⟩

/-- Making a directory makes no file. -/
theorem fileAt_eq (h : Grows made written d d') (hloc : ¬ written loc) :
    d'.fileAt loc = d.fileAt loc := by
  cases hget : d.get? loc with
  | some e => exact fileAt_congr ((h.of_unwritten hloc hget).trans hget.symm)
  | none =>
    rcases (hget ▸ h.change loc).new hloc with hsame | ⟨-, hdir⟩
    · exact fileAt_congr (hsame.trans hget.symm)
    · rw [fileAt_of_dir hdir, fileAt, hget]

end Grows

/-! ## Files written over -/

/-- The disk `d'` is `d` with some files written over, at some of the given
locations. -/
structure Retouched (written : Location → Prop) (d d' : Disk) : Prop where
  cwd : d'.cwd = d.cwd
  change : ∀ l, d'.get? l = d.get? l ∨
    written l ∧ (∃ old, d.get? l = some (.file old)) ∧ ∃ new, d'.get? l = some (.file new)

namespace Retouched

theorem refl (d : Disk) : Retouched written d d := ⟨rfl, fun _ => .inl rfl⟩

theorem trans (h : Retouched written d d₁) (h' : Retouched written d₁ d') :
    Retouched written d d' := by
  refine ⟨h'.cwd.trans h.cwd, fun l => ?_⟩
  rcases h.change l with hsame | ⟨hwritten, hold, new, hnew⟩
  · rw [← hsame]
    exact h'.change l
  · rcases h'.change l with hsame' | ⟨-, -, hnew'⟩
    · exact .inr ⟨hwritten, hold, new, hsame'.trans hnew⟩
    · exact .inr ⟨hwritten, hold, hnew'⟩

theorem mono (h : Retouched written d d') (hwritten : ∀ l, written l → written' l) :
    Retouched written' d d' :=
  ⟨h.cwd, fun l => (h.change l).imp_right fun hl => ⟨hwritten l hl.1, hl.2⟩⟩

theorem grows (h : Retouched written d d') : Grows made written d d' := by
  refine ⟨h.cwd, fun l => ?_⟩
  rcases h.change l with hsame | ⟨hwritten, ⟨old, hold⟩, new, hnew⟩
  · rw [hsame]
    exact .same _
  · rw [hold, hnew]
    exact .write _ _ hwritten

end Retouched

/-! ## Single changes -/

theorem ne_nil_of_free (h : d.get? loc = none) : loc ≠ [] := by
  rintro rfl
  simp at h

theorem grows_set_dir (hfree : d.get? loc = none) (hmade : made loc) :
    Grows made written d (d.set loc .dir) where
  cwd := cwd_set d loc .dir
  change l := by
    by_cases hl : l = loc
    · rw [hl, get?_set_self (ne_nil_of_free hfree), hfree]
      exact .make hmade
    · rw [get?_set_ne hl]
      exact .same _

/-- A place where a file can be written: free, or a file's. -/
def Writable (d : Disk) (loc : Location) : Prop :=
  d.get? loc = none ∨ ∃ old, d.get? loc = some (.file old)

theorem Writable.ne_nil (h : d.Writable loc) : loc ≠ [] := by
  rintro rfl
  rcases h with h | ⟨old, h⟩ <;> simp at h

theorem grows_set_file (hold : d.Writable loc) (hwritten : written loc) (content : ByteArray) :
    Grows made written d (d.set loc (.file content)) where
  cwd := cwd_set d loc _
  change l := by
    by_cases hl : l = loc
    · rw [hl, get?_set_self hold.ne_nil]
      rcases hold with hnone | ⟨old, hfile⟩
      · rw [hnone]
        exact .create content hwritten
      · rw [hfile]
        exact .write old content hwritten
    · rw [get?_set_ne hl]
      exact .same _

end Disk

/-- The spot tells what stands at its location, if that is a file or
nothing. -/
def Spot.IsThere (d : Disk) : Spot → Prop
  | .file loc content _ => d.get? loc = some (.file content)
  | .free loc _ => d.get? loc = none
  | .dir _ | .link _ => True

/-- What stands at the spot has to be a directory. -/
def Spot.AsksDir : Spot → Prop
  | .file _ _ slash | .free _ slash => slash = true
  | .dir _ | .link _ => True

/-- The spot is the place for a file at a location. -/
def Spot.EndsAt (loc : Location) (slash : Bool) : Spot → Prop
  | .file l _ s | .free l s => l = loc ∧ s = slash
  | .dir _ | .link _ => False

namespace Disk

variable {made written : Location → Prop} {d d₁ d' : Disk} {loc start : Location}
  {way : List String} {follow slash end_ : Bool} {spot : Spot} {content old : ByteArray}
  {p q source target : Path}
  {jump jump' : Location → List String → Bool → Except DiskFault Spot}

theorem advance_isThere (hjump : ∀ l w s spot, jump l w s = .ok spot → spot.IsThere d)
    (h : d.advance follow jump slash start way = .ok spot) : spot.IsThere d := by
  induction way generalizing start with
  | nil =>
    obtain rfl : Spot.dir start = spot := by simpa [advance] using h
    trivial
  | cons step rest ih =>
    rw [advance] at h
    split at h
    · exact ih h
    · split at h
      · exact ih h
      · dsimp only at h
        split at h
        · rename_i hget
          split at h
          · cases h
            exact hget
          · cases h
        · exact ih h
        · rename_i content hget
          split at h
          · cases h
            exact hget
          · cases h
        · split at h
          · cases h
            trivial
          · exact hjump _ _ _ _ h

theorem resolveFrom_isThere {links : Nat}
    (h : d.resolveFrom follow links start way slash = .ok spot) : spot.IsThere d := by
  induction links generalizing start way slash spot with
  | zero => exact advance_isThere (fun _ _ _ _ hjump => by cases hjump) h
  | succ links ih => exact advance_isThere (fun _ _ _ _ hjump => ih hjump) h

theorem resolve_isThere (h : d.resolve follow p = .ok spot) : spot.IsThere d := by
  unfold resolve at h
  split at h
  · cases h
  · split at h
    · cases h
    · exact resolveFrom_isThere h

/-! ## Paths that ask for a directory -/

theorem advance_asksDir (hjump : ∀ l w spot, jump l w true = .ok spot → spot.AsksDir)
    (h : d.advance follow jump true start way = .ok spot) : spot.AsksDir := by
  induction way generalizing start with
  | nil =>
    obtain rfl : Spot.dir start = spot := by simpa [advance] using h
    trivial
  | cons step rest ih =>
    rw [advance] at h
    split at h
    · exact ih h
    · split at h
      · exact ih h
      · dsimp only at h
        split at h
        · split at h
          · cases h
            rfl
          · cases h
        · exact ih h
        · split at h
          · cases h
            rfl
          · cases h
        · split at h
          · cases h
            trivial
          · rw [Bool.true_or, ite_self] at h
            exact hjump _ _ _ h

theorem resolveFrom_asksDir {links : Nat}
    (h : d.resolveFrom follow links start way true = .ok spot) : spot.AsksDir := by
  induction links generalizing start way spot with
  | zero => exact advance_asksDir (fun _ _ _ hjump => by cases hjump) h
  | succ links ih => exact advance_asksDir (fun _ _ _ hjump => ih hjump) h

/-- No file is written at a path that ends in a slash. -/
theorem writable_ne_ok_of_endsInSlash (hslash : p.endsInSlash) : d.writable p ≠ .ok loc := by
  intro h
  rw [writable, bind_eq_ok] at h
  obtain ⟨spot, hspot, hanswer⟩ := h
  have hasks : spot.AsksDir := by
    unfold resolve at hspot
    split at hspot
    · cases hspot
    · split at hspot
      · cases hspot
      · rw [hslash] at hspot
        exact resolveFrom_asksDir hspot
  cases spot with
  | dir l | link l => cases hanswer
  | file l c slash | free l slash =>
    obtain rfl : slash = true := hasks
    cases hanswer

/-! ## Paths that lead to a file -/

variable (hgrows : d.Grows made written d') (hfile : d'.get? loc = some (.file content))
include hgrows hfile

/-- The way to a file, or to the free place where it is written later, does
not change: it passes through directories and links only. -/
theorem Grows.advance_eq
    (hjump : ∀ l w s spot, jump l w s = .ok spot → spot.EndsAt loc end_ →
      jump' l w s = .ok (.file loc content end_))
    (h : d.advance follow jump slash start way = .ok spot) (hends : spot.EndsAt loc end_) :
    d'.advance follow jump' slash start way = .ok (.file loc content end_) := by
  induction way generalizing start with
  | nil =>
    obtain rfl : Spot.dir start = spot := by simpa [advance] using h
    exact hends.elim
  | cons step rest ih =>
    rw [advance] at h ⊢
    split at h
    · rename_i hhere
      rw [if_pos hhere]
      exact ih h
    · rename_i hhere
      rw [if_neg hhere]
      split at h
      · rename_i hback
        rw [if_pos hback]
        exact ih h
      · rename_i hback
        rw [if_neg hback]
        dsimp only at h ⊢
        split at h
        · split at h
          · rename_i hlast
            cases h
            obtain ⟨rfl, rfl⟩ := hends
            simp only [hfile, hlast, if_true]
          · cases h
        · rename_i hget
          simp only [hgrows.dir hget]
          exact ih h
        · split at h
          · rename_i hlast
            cases h
            obtain ⟨rfl, rfl⟩ := hends
            simp only [hfile, hlast, if_true]
          · cases h
        · rename_i goal hget
          simp only [hgrows.link hget]
          split at h
          · cases h
            exact hends.elim
          · rename_i hfollow
            rw [if_neg hfollow]
            exact hjump _ _ _ _ h hends

theorem Grows.resolveFrom_eq {links : Nat}
    (h : d.resolveFrom follow links start way slash = .ok spot) (hends : spot.EndsAt loc end_) :
    d'.resolveFrom follow links start way slash = .ok (.file loc content end_) := by
  induction links generalizing start way slash spot with
  | zero => exact hgrows.advance_eq hfile (fun _ _ _ _ hjump => by cases hjump) h hends
  | succ links ih => exact hgrows.advance_eq hfile (fun _ _ _ _ hjump hends => ih hjump hends) h hends

theorem Grows.resolve_eq (h : d.resolve follow p = .ok spot) (hends : spot.EndsAt loc end_) :
    d'.resolve follow p = .ok (.file loc content end_) := by
  unfold resolve at h ⊢
  split at h
  · cases h
  · rename_i hempty
    rw [if_neg hempty]
    split at h
    · cases h
    · rename_i hzero
      rw [if_neg hzero, hgrows.cwd]
      exact hgrows.resolveFrom_eq hfile h hends

omit hgrows hfile in
theorem stat_eq_file_iff :
    d.stat p = .ok (.file loc content) ↔ d.resolve true p = .ok (.file loc content false) := by
  rw [stat, bind_eq_ok]
  constructor
  · rintro ⟨spot, hspot, hanswer⟩
    cases spot with
    | file l c slash =>
      cases slash with
      | true => cases hanswer
      | false =>
        cases hanswer
        exact hspot
    | dir l | link l | free l slash => cases hanswer
  · exact fun h => ⟨_, h, rfl⟩

omit hgrows hfile in
theorem stat_eq_dir_iff : d.stat p = .ok (.dir loc) ↔ d.resolve true p = .ok (.dir loc) := by
  rw [stat, bind_eq_ok]
  constructor
  · rintro ⟨spot, hspot, hanswer⟩
    cases spot with
    | dir l =>
      cases hanswer
      exact hspot
    | file l c slash => cases slash <;> cases hanswer
    | link l | free l slash => cases hanswer
  · exact fun h => ⟨_, h, rfl⟩

omit hgrows hfile in
theorem writable_eq_ok (h : d.writable p = .ok loc) :
    ∃ spot : Spot, d.resolve true p = .ok spot ∧ spot.EndsAt loc false := by
  rw [writable, bind_eq_ok] at h
  obtain ⟨spot, hspot, hanswer⟩ := h
  refine ⟨spot, hspot, ?_⟩
  cases spot with
  | dir l | link l => cases hanswer
  | file l c slash | free l slash =>
    cases slash with
    | true => cases hanswer
    | false =>
      cases hanswer
      exact ⟨rfl, rfl⟩

/-- **A path that leads to a file** goes on leading to it. -/
theorem Grows.stat (h : d.stat p = .ok (.file loc old)) : d'.stat p = .ok (.file loc content) :=
  stat_eq_file_iff.2 (hgrows.resolve_eq hfile (stat_eq_file_iff.1 h) ⟨rfl, rfl⟩)

/-- And so does one that leads to where a file is written. -/
theorem Grows.stat_of_writable (h : d.writable p = .ok loc) :
    d'.stat p = .ok (.file loc content) := by
  obtain ⟨spot, hspot, hends⟩ := writable_eq_ok h
  exact stat_eq_file_iff.2 (hgrows.resolve_eq hfile hspot hends)

omit hgrows hfile

theorem get?_of_stat (h : d.stat p = .ok (.file loc content)) :
    d.get? loc = some (.file content) :=
  resolve_isThere (stat_eq_file_iff.1 h)

theorem writable_isWritable (h : d.writable p = .ok loc) : d.Writable loc := by
  obtain ⟨spot, hspot, hends⟩ := writable_eq_ok h
  have hthere := resolve_isThere hspot
  cases spot with
  | dir l | link l => exact hends.elim
  | file l c slash =>
    obtain ⟨rfl, -⟩ := hends
    exact .inr ⟨c, hthere⟩
  | free l slash =>
    obtain ⟨rfl, -⟩ := hends
    exact .inl hthere

/-- Reading and writing by one path reach one file. -/
theorem eq_of_stat_of_writable {l : Location} (h : d.stat p = .ok (.file l content))
    (hw : d.writable p = .ok loc) : l = loc := by
  obtain ⟨spot, hspot, hends⟩ := writable_eq_ok hw
  rw [stat_eq_file_iff.1 h] at hspot
  cases hspot
  exact hends.1

theorem readFile_eq_ok_iff : d.readFile p = .ok content ↔ ∃ l, d.stat p = .ok (.file l content) := by
  rw [readFile, bind_eq_ok]
  constructor
  · rintro ⟨standing, hstat, hanswer⟩
    cases standing with
    | dir l => cases hanswer
    | file l c =>
      cases hanswer
      exact ⟨l, hstat⟩
  · rintro ⟨l, hstat⟩
    exact ⟨_, hstat, rfl⟩

/-! ## Paths that lead to one file -/

/-- Both paths lead to the same file. -/
def SameFile (d : Disk) (p q : Path) : Prop :=
  ∃ l content, d.stat p = .ok (.file l content) ∧ d.stat q = .ok (.file l content)

/-- They go on doing so. -/
theorem SameFile.mono (h : d.SameFile p q) (hgrows : d.Grows made written d') :
    d'.SameFile p q := by
  obtain ⟨l, content, hp, hq⟩ := h
  obtain ⟨new, hnew⟩ := hgrows.file (get?_of_stat hp)
  exact ⟨l, new, hgrows.stat hnew hp, hgrows.stat hnew hq⟩

/-- Without links they lead to one place. -/
theorem SameFile.place_eq (h : d.SameFile p q) (hs : d.Sound) : p.place d.cwd = q.place d.cwd := by
  obtain ⟨l, content, hp, hq⟩ := h
  have hp := (stat_standsAt_place (.inr hs.wellFormed) hs.linkFree hp).1
  have hq := (stat_standsAt_place (.inr hs.wellFormed) hs.linkFree hq).1
  exact hp.symm.trans hq

/-- Where no file is written, a path goes on leading to the same bytes. -/
theorem Grows.readFile_eq (hgrows : d.Grows made nowhere d') (h : d.readFile p = .ok content) :
    d'.readFile p = .ok content := by
  obtain ⟨l, hstat⟩ := readFile_eq_ok_iff.1 h
  have hkept : d'.get? l = some (.file content) :=
    hgrows.of_unwritten not_false (get?_of_stat hstat)
  exact readFile_eq_ok_iff.2 ⟨l, hgrows.stat hkept hstat⟩

/-- And so it does if a file is written, unless it leads to that file. -/
theorem Grows.readFile_or_sameFile (hgrows : d.Grows made (· = loc) d')
    (hwritable : d.writable q = .ok loc) (h : d.readFile p = .ok content) :
    d'.readFile p = .ok content ∨ d.stat p = .ok (.file loc content) ∧ d'.SameFile p q := by
  obtain ⟨l, hstat⟩ := readFile_eq_ok_iff.1 h
  by_cases hl : l = loc
  · subst hl
    obtain ⟨new, hnew⟩ := hgrows.file (get?_of_stat hstat)
    exact .inr ⟨hstat, l, new, hgrows.stat hnew hstat, hgrows.stat_of_writable hnew hwritable⟩
  · have hkept := hgrows.of_unwritten hl (get?_of_stat hstat)
    exact .inl (readFile_eq_ok_iff.2 ⟨l, hgrows.stat hkept hstat⟩)

/-! ## What the operations do -/

theorem makeDir_grows (h : d.makeDir p = .ok d') : d.Grows anywhere nowhere d' := by
  rw [makeDir, bind_eq_ok] at h
  obtain ⟨spot, hspot, hanswer⟩ := h
  have hthere := resolve_isThere hspot
  cases spot with
  | dir l | file l c slash | link l => cases hanswer
  | free l slash =>
    cases hanswer
    exact grows_set_dir hthere trivial

theorem writeFile_grows (h : d.writeFile p content = .ok d') :
    ∃ loc, d.writable p = .ok loc ∧ d.Grows nowhere (· = loc) d' ∧
      d'.get? loc = some (.file content) := by
  rw [writeFile, bind_eq_ok] at h
  obtain ⟨loc, hwritable, hset⟩ := h
  cases hset
  have hold := writable_isWritable hwritable
  refine ⟨loc, hwritable, ?_, get?_set_self hold.ne_nil _⟩
  exact grows_set_file hold (by rfl) content

theorem copyFile_grows (h : d.copyFile source target = .ok d') :
    ∃ loc content, d.writable target = .ok loc ∧ d.Grows nowhere (· = loc) d' ∧
      d'.get? loc = some (.file content) := by
  rw [copyFile, bind_eq_ok] at h
  obtain ⟨standing, -, h⟩ := h
  cases standing with
  | dir l => cases h
  | file l old =>
    dsimp only at h
    rw [bind_eq_ok] at h
    obtain ⟨loc, hwritable, hset⟩ := h
    cases hset
    have hold := writable_isWritable hwritable
    -- the target is a file once it is emptied
    have hemptied : (d.set loc (.file .empty)).Writable loc :=
      .inr ⟨_, get?_set_self hold.ne_nil _⟩
    refine ⟨loc, _, hwritable, ?_, get?_set_self hold.ne_nil _⟩
    exact .trans (grows_set_file hold (by rfl) .empty) (grows_set_file hemptied (by rfl) _)

/-- What is written is read. -/
theorem readFile_of_writeFile (h : d.writeFile p content = .ok d') :
    d'.readFile p = .ok content := by
  obtain ⟨loc, hwritable, hgrows, hhere⟩ := writeFile_grows h
  exact readFile_eq_ok_iff.2 ⟨loc, hgrows.stat_of_writable hhere hwritable⟩

end Disk

end DualPackage
