import DualPackage.Run.World
/-!
# Parts of a run that succeed

A part of a run that succeeds is made of parts that succeed, and what
each of them does to the world can be told from its own success. The
lemmas take such a part to pieces, one for each way of putting parts
together.
-/

namespace DualPackage

namespace Outcome

variable {ε σ τ α β : Type} {s s' : σ}

/-- Whether a part of a run has succeeded. -/
def isOk (outcome : EStateM.Result ε σ α) : Bool :=
  outcome.casesOn (fun _ _ => true) fun _ _ => false

theorem exists_of_isOk {outcome : EStateM.Result ε σ α} (h : isOk outcome) :
    ∃ a s, outcome = .ok a s := by
  cases outcome with
  | ok a s => exact ⟨a, s, rfl⟩
  | error e s => cases h

/-- What a part of a run answers, if it succeeds. -/
def answer? : EStateM.Result ε σ α → Option α
  | .ok a _ => some a
  | .error _ _ => none

/-- The state that a part of a run leaves behind, whatever comes of it. -/
def state : EStateM.Result ε σ α → σ
  | .ok _ s | .error _ s => s

theorem ok_of_answer? {outcome : EStateM.Result ε σ α} {a : α} (h : answer? outcome = some a) :
    outcome = .ok a (state outcome) := by
  cases outcome with
  | ok b s =>
    obtain rfl : b = a := by simpa [answer?] using h
    rfl
  | error e s => cases h

theorem exists_of_answer? {outcome : EStateM.Result ε σ α} {a : α} (h : answer? outcome = some a) :
    ∃ s, outcome = .ok a s :=
  ⟨state outcome, ok_of_answer? h⟩

/-- The outcome of a part that keeps notes, without them. -/
def forget : EStateM.Result ε (σ × τ) α → EStateM.Result ε σ α
  | .ok a s => .ok a s.1
  | .error e s => .error e s.1

/-- Both halves of a sequence succeed. -/
theorem bind_ok {x : EStateM ε σ α} {f : α → EStateM ε σ β} {b : β}
    (h : (x >>= f) s = .ok b s') : ∃ a s₁, x s = .ok a s₁ ∧ f a s₁ = .ok b s' := by
  simp only [bind, EStateM.bind] at h
  split at h
  · rename_i a s₁ hx
    exact ⟨a, s₁, hx, h⟩
  · cases h

theorem pure_ok {a b : α} (h : (pure a : EStateM ε σ α) s = .ok b s') : b = a ∧ s' = s := by
  cases h
  exact ⟨rfl, rfl⟩

theorem not_throw_ok {e : ε} {a : α} : (throw e : EStateM ε σ α) s ≠ .ok a s' := by
  intro h
  cases h

theorem get_bind_ok {f : σ → EStateM ε σ β} {b : β} (h : (get >>= f) s = .ok b s') :
    f s s = .ok b s' := h

/-- Looking a list through visits its first element and then the rest. -/
theorem forM_cons_ok {f : α → EStateM ε σ PUnit} {a : α} {l : List α} {u : PUnit}
    (h : (a :: l).forM f s = .ok u s') :
    ∃ s₁, f a s = .ok ⟨⟩ s₁ ∧ l.forM f s₁ = .ok ⟨⟩ s' := by
  rw [List.forM_eq_forM, List.forM_cons] at h
  obtain ⟨⟨⟩, s₁, ha, hl⟩ := bind_ok h
  exact ⟨s₁, ha, hl⟩

/-- So does collecting answers along a list. -/
theorem mapM_cons_ok {f : α → EStateM ε σ β} {a : α} {l : List α} {answers : List β}
    (h : (a :: l).mapM f s = .ok answers s') :
    ∃ b s₁ rest, f a s = .ok b s₁ ∧ l.mapM f s₁ = .ok rest s' ∧ answers = b :: rest := by
  rw [List.mapM_cons] at h
  obtain ⟨b, s₁, ha, h⟩ := bind_ok h
  obtain ⟨rest, s₂, hl, h⟩ := bind_ok h
  obtain ⟨rfl, rfl⟩ := pure_ok h
  exact ⟨b, s₁, rest, ha, hl, rfl⟩

/-! ## Notes -/

/-- A part that keeps notes takes the same course as one that keeps none. -/
def Follows (noted : EStateM ε (σ × τ) α) (plain : EStateM ε σ α) : Prop :=
  ∀ s, forget (noted s) = plain s.1

namespace Follows

theorem pure (a : α) : Follows (pure a : EStateM ε (σ × τ) α) (pure a) := fun _ => rfl

theorem throw (e : ε) : Follows (throw e : EStateM ε (σ × τ) α) (throw e) := fun _ => rfl

theorem bind {noted : EStateM ε (σ × τ) α} {plain : EStateM ε σ α}
    {noted' : α → EStateM ε (σ × τ) β} {plain' : α → EStateM ε σ β} (h : Follows noted plain)
    (h' : ∀ a, Follows (noted' a) (plain' a)) : Follows (noted >>= noted') (plain >>= plain') := by
  intro s
  have hfirst := h s
  simp only [Bind.bind, EStateM.bind, ← hfirst]
  cases noted s with
  | ok a s₁ => exact h' a s₁
  | error e s₁ => rfl

/-- A part that first looks at the state. -/
theorem get_bind {noted : σ × τ → EStateM ε (σ × τ) β} {plain : σ → EStateM ε σ β}
    (h : ∀ s, Follows (noted s) (plain s.1)) : Follows (get >>= noted) (get >>= plain) :=
  fun s => h s s

theorem forM {noted : α → EStateM ε (σ × τ) PUnit} {plain : α → EStateM ε σ PUnit} {l : List α}
    (h : ∀ a ∈ l, Follows (noted a) (plain a)) : Follows (l.forM noted) (l.forM plain) := by
  induction l with
  | nil => exact .pure _
  | cons a l ih =>
    rw [List.forM_eq_forM, List.forM_cons, List.forM_eq_forM, List.forM_cons]
    exact (h a List.mem_cons_self).bind fun _ => ih fun b hb => h b (List.mem_cons_of_mem a hb)

theorem ok {noted : EStateM ε (σ × τ) α} {plain : EStateM ε σ α} (h : Follows noted plain)
    {s : σ × τ} {a : α} {s' : σ} (hok : plain s.1 = .ok a s') :
    noted s = .ok a (s', (state (noted s)).2) := by
  have hsame := h s
  rw [hok] at hsame
  cases hnoted : noted s with
  | ok b s₁ =>
    rw [hnoted] at hsame
    cases hsame
    rfl
  | error e s₁ =>
    rw [hnoted] at hsame
    cases hsame

end Follows

end Outcome

namespace Build

variable {ε σ τ α : Type} {w w' : World}

theorem log_ok {event : Event} {u : Unit} (h : log event w = .ok u w') : w'.disk = w.disk := by
  cases h
  rfl

theorem onDisk_ok {path : Path} {operation : DiskM α} {a : α}
    (h : onDisk path operation w = .ok a w') : operation w.disk = .ok a w'.disk := by
  unfold onDisk at h
  split at h
  · rename_i d hop
    cases h
    exact hop
  · cases h

/-- An update of the disk that succeeds. -/
theorem update_ok {path : Path} {f : Disk → Except DiskFault Disk} {u : Unit}
    (h : onDisk path (DiskM.update f) w = .ok u w') : f w.disk = .ok w'.disk := by
  have hop := onDisk_ok h
  unfold DiskM.update at hop
  split at hop
  · rename_i d hf
    cases hop
    exact hf
  · cases hop

theorem tallying_ok {start tally : τ} {part : EStateM ε (σ × τ) Unit} {s s' : σ}
    (h : tallying start part s = .ok tally s') : part (s, start) = .ok () (s', tally) := by
  unfold tallying at h
  split at h
  · rename_i hpart
    cases h
    exact hpart
  · cases h

theorem untallied_ok {part : EStateM ε σ α} {a : α} {s s' : σ × τ}
    (h : untallied part s = .ok a s') : part s.1 = .ok a s'.1 := by
  unfold untallied at h
  split at h
  · rename_i hpart
    cases h
    exact hpart
  · cases h

end Build

end DualPackage
