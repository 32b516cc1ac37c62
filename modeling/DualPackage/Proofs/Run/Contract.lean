import DualPackage.Proofs.Disk.Growth
import DualPackage.Proofs.Run.Outcome
/-!
# What the parts of a run keep to

A part of a run that fails has changed the state up to where it failed. A
`Contract` says what may become of a state in either case, in such a way
that parts which keep to it can be put together: one after the other,
along a list, inside a part with a tally of its own, or as an operation on
the disk of a world (`Contract.Keeps`). An `Account` says what may become
of a state while things are noted down, and makes contracts of its own.
-/

namespace DualPackage

/-- An invariant, how a part that succeeds may change the state, and how a
part that fails may. -/
structure Contract (σ : Type) where
  inv : σ → Prop
  step : σ → σ → Prop
  fault : σ → σ → Prop
  step_refl : ∀ s, step s s
  step_trans : ∀ {s₁ s₂ s₃}, step s₁ s₂ → step s₂ s₃ → step s₁ s₃
  fault_refl : ∀ {s}, inv s → fault s s
  step_fault : ∀ {s₁ s₂ s₃}, step s₁ s₂ → fault s₂ s₃ → fault s₁ s₃

namespace Contract

variable {ε σ τ α β : Type}

/-- The same for a part that fails as for one that succeeds. -/
def always (inv : σ → Prop) (step : σ → σ → Prop) (refl : ∀ s, step s s)
    (trans : ∀ {s₁ s₂ s₃}, step s₁ s₂ → step s₂ s₃ → step s₁ s₃) : Contract σ where
  inv := inv
  step := step
  fault s s' := inv s' ∧ step s s'
  step_refl := refl
  step_trans := trans
  fault_refl h := ⟨h, refl _⟩
  step_fault h h' := ⟨h'.1, trans h h'.2⟩

/-- Nothing is said of a part that fails. -/
def onSuccess (inv : σ → Prop) (step : σ → σ → Prop) (refl : ∀ s, step s s)
    (trans : ∀ {s₁ s₂ s₃}, step s₁ s₂ → step s₂ s₃ → step s₁ s₃) : Contract σ where
  inv := inv
  step := step
  fault _ _ := True
  step_refl := refl
  step_trans := trans
  fault_refl _ := trivial
  step_fault _ _ := trivial

/-- A part that succeeds leads from states where `inv` holds to such states. -/
def upholding (inv : σ → Prop) : Contract σ :=
  .onSuccess inv (fun _ _ => True) (fun _ => trivial) fun _ _ => trivial

/-- A contract about a part of the state. -/
def along (f : τ → σ) (C : Contract σ) : Contract τ where
  inv s := C.inv (f s)
  step s s' := C.step (f s) (f s')
  fault s s' := C.fault (f s) (f s')
  step_refl s := C.step_refl (f s)
  step_trans := C.step_trans
  fault_refl := C.fault_refl
  step_fault := C.step_fault

variable (C : Contract σ)

/-- The contract from states where something more holds. -/
def given (P : σ → Prop) : Contract σ where
  inv s := C.inv s ∧ P s
  step := C.step
  fault := C.fault
  step_refl := C.step_refl
  step_trans := C.step_trans
  fault_refl h := C.fault_refl h.1
  step_fault := C.step_fault

/-- The states to which the contract leads from a given one. Nothing is said
of a part that fails. -/
def since (s₀ : σ) : Contract σ :=
  .onSuccess (fun s => C.inv s ∧ C.step s₀ s) C.step C.step_refl C.step_trans

/-- An outcome that the contract allows from a state. -/
def Holds (s : σ) : EStateM.Result ε σ α → Prop
  | .ok _ s' => C.inv s' ∧ C.step s s'
  | .error _ s' => C.fault s s'

/-- Where failures are treated like successes, the state left behind keeps to
the contract in any case. -/
theorem state_of_always {inv : σ → Prop} {step : σ → σ → Prop} {refl : ∀ s, step s s}
    {trans : ∀ {s₁ s₂ s₃}, step s₁ s₂ → step s₂ s₃ → step s₁ s₃} {f : τ → σ} {s : τ}
    {outcome : EStateM.Result ε τ α}
    (h : ((always inv step refl trans).along f).Holds s outcome) :
    inv (f (Outcome.state outcome)) ∧ step (f s) (f (Outcome.state outcome)) := by
  cases outcome <;> exact h

section Given

variable {C} {P : σ → Prop} {s : σ} {outcome : EStateM.Result ε σ α}

theorem Holds.given (h : C.Holds s outcome) (hP : ∀ s', C.step s s' → P s') :
    (C.given P).Holds s outcome := by
  cases outcome with
  | ok a s' => exact ⟨⟨h.1, hP s' h.2⟩, h.2⟩
  | error e s' => exact h

theorem Holds.of_given (h : (C.given P).Holds s outcome) : C.Holds s outcome := by
  cases outcome with
  | ok a s' => exact ⟨h.1.1, h.2⟩
  | error e s' => exact h

end Given

/-- A part of a run whose outcomes the contract allows. -/
def Keeps (part : EStateM ε σ α) : Prop :=
  ∀ s, C.inv s → C.Holds s (part s)

variable {C}

/-- A part that first looks at the state, from a state that is known. -/
theorem Holds.get_bind {f : σ → EStateM ε σ β} {s : σ} (h : C.Holds s (f s s)) :
    C.Holds s ((get >>= f) s) :=
  h

theorem Holds.untallied {part : EStateM ε σ α} {s : σ × τ} (h : C.Holds s.1 (part s.1)) :
    (C.along Prod.fst).Holds s (Build.untallied part s) := by
  unfold Build.untallied
  split
  all_goals
    rename_i hpart
    rw [hpart] at h
    exact h

namespace Keeps

theorem step {part : EStateM ε σ α} (h : C.Keeps part) {s s' : σ} {a : α} (hs : C.inv s)
    (hok : part s = .ok a s') : C.inv s' ∧ C.step s s' := by
  have := h s hs
  rwa [hok] at this

theorem upholding {inv : σ → Prop} {part : EStateM ε σ α}
    (h : ∀ s a s', inv s → part s = .ok a s' → inv s') : (Contract.upholding inv).Keeps part := by
  intro s hs
  cases hpart : part s with
  | ok a s' => exact ⟨h s a s' hs hpart, trivial⟩
  | error e s' => trivial

theorem pure (a : α) : C.Keeps (pure a : EStateM ε σ α) :=
  fun s hs => ⟨hs, C.step_refl s⟩

theorem throw (e : ε) : C.Keeps (throw e : EStateM ε σ α) :=
  fun _ hs => C.fault_refl hs

theorem bind {x : EStateM ε σ α} {f : α → EStateM ε σ β} (hx : C.Keeps x)
    (hf : ∀ a, C.Keeps (f a)) : C.Keeps (x >>= f) := by
  intro s hs
  have h := hx s hs
  show C.Holds s (EStateM.bind x f s)
  unfold EStateM.bind
  split
  · rename_i a s₁ hok
    rw [hok] at h
    have h' := hf a s₁ h.1
    cases hrest : f a s₁ with
    | ok b s' =>
      rw [hrest] at h'
      exact ⟨h'.1, C.step_trans h.2 h'.2⟩
    | error e s' =>
      rw [hrest] at h'
      exact C.step_fault h.2 h'
  · rename_i e s₁ herror
    rw [herror] at h
    exact h

/-- A part that first looks at the state. -/
theorem get_bind {f : σ → EStateM ε σ β} (h : ∀ s, C.inv s → C.Keeps (f s)) :
    C.Keeps (get >>= f) :=
  fun s hs => .get_bind (h s hs s hs)

theorem forM {f : α → EStateM ε σ PUnit} {l : List α} (h : ∀ a ∈ l, C.Keeps (f a)) :
    C.Keeps (l.forM f) := by
  induction l with
  | nil => exact .pure _
  | cons a l ih =>
    rw [List.forM_eq_forM, List.forM_cons]
    exact (h a List.mem_cons_self).bind fun _ => ih fun b hb => h b (List.mem_cons_of_mem a hb)

theorem mapM {f : α → EStateM ε σ β} {l : List α} (h : ∀ a ∈ l, C.Keeps (f a)) :
    C.Keeps (l.mapM f) := by
  induction l with
  | nil => exact .pure _
  | cons a l ih =>
    rw [List.mapM_cons]
    exact (h a List.mem_cons_self).bind fun _ =>
      (ih fun b hb => h b (List.mem_cons_of_mem a hb)).bind fun _ => .pure _

/-- What one element of a list brings about, and nothing after it undoes, has
come about in the end. -/
theorem forM_reaches {f : α → EStateM ε σ PUnit} {l : List α} {a : α} {s s' : σ} {P : σ → Prop}
    (h : ∀ b ∈ l, C.Keeps (f b)) (hstays : ∀ s s', C.step s s' → P s → P s') (ha : a ∈ l)
    (hs : C.inv s)
    (hreach : ∀ s₁ s₂, C.inv s₁ → C.step s s₁ → f a s₁ = .ok ⟨⟩ s₂ → P s₂)
    (hok : l.forM f s = .ok ⟨⟩ s') : P s' := by
  induction l generalizing s with
  | nil => cases ha
  | cons b l ih =>
    obtain ⟨hb, hl⟩ := List.forall_mem_cons.1 h
    obtain ⟨s₁, hfirst, hrest⟩ := Outcome.forM_cons_ok hok
    obtain ⟨hinv, hstep⟩ := hb.step hs hfirst
    rcases List.mem_cons.1 ha with rfl | ha
    · exact hstays _ _ ((forM hl).step hinv hrest).2 (hreach s s₁ hs (C.step_refl s) hfirst)
    · exact ih hl ha hinv (fun s₂ s₃ h₂ hstep₂ => hreach s₂ s₃ h₂ (C.step_trans hstep hstep₂)) hrest

/-- What a part keeps to, it keeps to wherever one has come from. -/
theorem since {f : τ → σ} {part : EStateM ε τ α} (h : (C.along f).Keeps part) (s₀ : σ) :
    ((C.since s₀).along f).Keeps part := by
  intro s hs
  have hpart := h s hs.1
  cases hok : part s with
  | error e s' => trivial
  | ok a s' =>
    rw [hok] at hpart
    exact ⟨⟨hpart.1, C.step_trans hs.2 hpart.2⟩, hpart.2⟩

/-! ## Tallies and worlds -/

theorem untallied {part : EStateM ε σ α} (h : C.Keeps part) :
    (C.along Prod.fst).Keeps (Build.untallied part : EStateM ε (σ × τ) α) :=
  fun s hs => (h s.1 hs).untallied

theorem tallying {part : EStateM ε (σ × τ) Unit} (h : (C.along Prod.fst).Keeps part) (start : τ) :
    C.Keeps (Build.tallying start part) := by
  intro s hs
  have := h (s, start) hs
  unfold Build.tallying
  split
  all_goals
    rename_i hpart
    rw [hpart] at this
    exact this

/-- The tally is not part of the state that the contract is about. -/
theorem modify_tally (f : τ → τ) :
    (C.along Prod.fst).Keeps (modify fun s => (s.1, f s.2) : EStateM ε (σ × τ) PUnit) :=
  fun s hs => ⟨hs, C.step_refl s.1⟩

variable {C : Contract Disk}

theorem log (event : Event) : (C.along World.disk).Keeps (Build.log event) :=
  fun w hw => ⟨hw, C.step_refl w.disk⟩

theorem onDisk {operation : DiskM α} (h : C.Keeps operation) (path : Path) :
    (C.along World.disk).Keeps (Build.onDisk path operation) := by
  intro w hw
  have := h w.disk hw
  unfold Build.onDisk
  split
  all_goals
    rename_i hop
    rw [hop] at this
    exact this

end Keeps

/-! ## File operations -/

variable (C : Contract Disk) (p : Path)

/-- A change of the disk that the contract allows wherever it succeeds. -/
def Allows (change : Disk → Except DiskFault Disk) : Prop :=
  ∀ d d', C.inv d → change d = .ok d' → C.inv d' ∧ C.step d d'

variable {C p}

theorem Allows.update {change : Disk → Except DiskFault Disk} (h : C.Allows change) :
    C.Keeps (DiskM.update change) := by
  intro d hd
  unfold DiskM.update
  split
  · exact h _ _ hd ‹_›
  · exact C.fault_refl hd

theorem Allows.ensureDir (h : C.Allows (·.makeDir p)) : C.Keeps (DiskM.ensureDir p) := by
  intro d hd
  unfold DiskM.ensureDir
  split
  · exact h _ _ hd ‹_›
  · split
    · exact ⟨hd, C.step_refl d⟩
    · exact C.fault_refl hd

/-- Making a directory makes those that are missing above it, and if it
fails it may have made some of them. -/
theorem keeps_createDirBelow {above : List Path} (h : ∀ q ∈ p :: above, C.Allows (·.makeDir q)) :
    C.Keeps (DiskM.createDirBelow above p) := by
  induction above generalizing p with
  | nil =>
    rw [DiskM.createDirBelow]
    split
    · exact .pure _
    · exact (h p (by simp)).ensureDir
  | cons parent above ih =>
    obtain ⟨hp, habove⟩ := List.forall_mem_cons.1 h
    intro d hd
    rw [DiskM.createDirBelow]
    dsimp only
    split
    · exact hp _ _ hd ‹_›
    · exact ((ih habove).bind fun _ => hp.ensureDir) d hd
    · split
      · exact ⟨hd, C.step_refl d⟩
      · exact C.fault_refl hd

/-- No directory is made at the empty path. -/
theorem allows_makeDir_empty (C : Contract Disk) : C.Allows (·.makeDir ⟨""⟩) :=
  fun _ _ _ hok => nomatch hok

theorem keeps_createDirAll (h : ∀ q ∈ p :: p.ancestors, C.Allows (·.makeDir q)) :
    C.Keeps (DiskM.createDirAll p) :=
  keeps_createDirBelow h

/-! ## Growth -/

/-- A sound disk grows, at the given places. -/
def growing (made written : Location → Prop) (cwd : Location) : Contract Disk :=
  .always (fun d => d.Sound ∧ d.cwd = cwd) (Disk.Grows made written) .refl .trans

section Growing

variable {made written : Location → Prop} {cwd : Location} {source target : Path}

theorem growing_makeDir (h : made (p.place cwd)) :
    (growing made written cwd).Allows (·.makeDir p) := by
  rintro d d' ⟨hsound, rfl⟩ hok
  have hgrows := Disk.makeDir_grows hok
  have hsets := (Disk.makeDir_sets hsound hok).1
  refine ⟨⟨hsets.sound, hgrows.cwd⟩, hgrows.cwd, fun l => ?_⟩
  by_cases hl : l = p.place d.cwd
  · exact (hgrows.change l).mono (fun _ => hl ▸ h) False.elim
  · rw [hsets.elsewhere l hl]
    exact .same _

/-- Making a plain directory makes those that are missing on the way. -/
theorem growing_createDirAll_plain (hp : p.IsPlain) (h : ∀ l, l <+: p.location → made l) :
    (growing made written cwd).Keeps (DiskM.createDirAll p) := by
  refine keeps_createDirAll fun q hq => ?_
  have hwhere : q = ⟨""⟩ ∨ q.IsPlain ∧ q.location <+: p.location := by
    rcases List.mem_cons.1 hq with rfl | hq
    · exact .inr ⟨hp, List.prefix_refl _⟩
    · exact hp.mem_ancestors hq
  rcases hwhere with rfl | ⟨hplain, hleads⟩
  · exact allows_makeDir_empty _
  · refine growing_makeDir ?_
    rw [hplain.place_eq]
    exact h _ hleads

theorem growing_writeFile (h : written (p.place cwd)) (content : ByteArray) :
    (growing made written cwd).Allows (·.writeFile p content) := by
  rintro d d' ⟨hsound, rfl⟩ hok
  obtain ⟨loc, hwritable, hgrows, -⟩ := Disk.writeFile_grows hok
  obtain rfl := (Disk.writable_ok hsound hwritable).1
  exact ⟨⟨(Disk.writeFile_sets hsound hok).1.sound, hgrows.cwd⟩,
    hgrows.mono (fun _ => False.elim) fun l hl => hl ▸ h⟩

theorem growing_copyFile (h : written (target.place cwd)) :
    (growing made written cwd).Allows (·.copyFile source target) := by
  rintro d d' ⟨hsound, rfl⟩ hok
  obtain ⟨loc, content, hwritable, hgrows, -⟩ := Disk.copyFile_grows hok
  obtain rfl := (Disk.writable_ok hsound hwritable).1
  obtain ⟨c, old, hfile, hsets, -⟩ := Disk.copyFile_sets hsound hok
  exact ⟨⟨hsets.sound, hgrows.cwd⟩, hgrows.mono (fun _ => False.elim) fun l hl => hl ▸ h⟩

end Growing

/-! ## Notes -/

/-- A contract about a part that takes notes, all of them of one kind. -/
def noting (C : Contract σ) (good : α → Prop) : Contract (σ × List α) where
  inv s := C.inv s.1 ∧ ∀ x ∈ s.2, good x
  step s s' := C.step s.1 s'.1
  fault s s' := C.fault s.1 s'.1 ∧ ∀ x ∈ s'.2, good x
  step_refl s := C.step_refl s.1
  step_trans := C.step_trans
  fault_refl h := ⟨C.fault_refl h.1, h.2⟩
  step_fault h h' := ⟨C.step_fault h h'.1, h'.2⟩

theorem notes_of_noting {C : Contract σ} {good : α → Prop} {s : σ × List α}
    {outcome : EStateM.Result ε (σ × List α) β} (h : (C.noting good).Holds s outcome) :
    ∀ x ∈ (Outcome.state outcome).2, good x := by
  cases outcome with
  | ok a s' => exact h.1.2
  | error e s' => exact h.2

end Contract

/-! ## Accounts -/

/-- How a state may change while things are noted down: `holds x s s'` says
what leads from `s` to `s'` where `x` has been noted on the way. -/
structure Account (σ α : Type) where
  holds : List α → σ → σ → Prop
  nil : ∀ s, holds [] s s
  append : ∀ {x y s₁ s₂ s₃}, holds x s₁ s₂ → holds y s₂ s₃ → holds (x ++ y) s₁ s₃

namespace Account

variable {σ τ α β : Type} (A : Account σ α) (inv : σ → Prop)

/-- The contract of the parts that note nothing. -/
def silent : Contract σ :=
  .onSuccess inv (A.holds []) A.nil fun h h' => A.append h h'

/-- The contract of the parts of a larger state that take notes, some of
which count. -/
def noted (part : τ → σ) (counts : β → Option α) : Contract (τ × List β) :=
  .onSuccess (fun s => inv (part s.1))
    (fun s s' => ∃ notes, s'.2 = s.2 ++ notes ∧
      A.holds (notes.filterMap counts) (part s.1) (part s'.1))
    (fun s => ⟨[], by simp, A.nil _⟩)
    (by
      rintro s₁ s₂ s₃ ⟨notes, hnotes, h⟩ ⟨notes', hnotes', h'⟩
      refine ⟨notes ++ notes', by rw [hnotes', hnotes, List.append_assoc], ?_⟩
      rw [List.filterMap_append]
      exact A.append h h')

end Account

end DualPackage
