import DualPackage.Proofs.Disk.Agree
import DualPackage.Proofs.Run.Outcome
/-!
# Parts of a run that take the same course

From states that are alike a part of a run takes the same course, if what
makes the states differ is nothing that it looks at (`Outcome.Respects`):
where it succeeds from the one it succeeds from the other, with the same
answer, and leaves states alike. The rules put such parts together. On
disks that agree at the locations of its paths and above, a file operation
is such a part.
-/

namespace DualPackage

namespace Outcome

variable {ε σ τ α β : Type}

/-- A part that takes the same course from states in a relation. -/
def Respects (R : σ → σ → Prop) (part : EStateM ε σ α) : Prop :=
  ∀ s t a s', R s t → part s = .ok a s' → ∃ t', part t = .ok a t' ∧ R s' t'

/-- States with related worlds and the same tally. -/
def Tallied (R : σ → σ → Prop) (s t : σ × τ) : Prop :=
  R s.1 t.1 ∧ s.2 = t.2

namespace Respects

variable {R : σ → σ → Prop}

theorem pure (a : α) : Respects R (pure a : EStateM ε σ α) := by
  intro s t b s' h hok
  obtain ⟨rfl, rfl⟩ := pure_ok hok
  exact ⟨t, rfl, h⟩

theorem throw (e : ε) : Respects R (throw e : EStateM ε σ α) :=
  fun _ _ _ _ _ hok => absurd hok not_throw_ok

theorem bind {x : EStateM ε σ α} {f : α → EStateM ε σ β} (hx : Respects R x)
    (hf : ∀ a, Respects R (f a)) : Respects R (x >>= f) := by
  intro s t b s' h hok
  obtain ⟨a, s₁, hfirst, hrest⟩ := bind_ok hok
  obtain ⟨t₁, hfirst', h₁⟩ := hx s t a s₁ h hfirst
  obtain ⟨t', hrest', h'⟩ := hf a s₁ t₁ b s' h₁ hrest
  refine ⟨t', ?_, h'⟩
  simp only [Bind.bind, EStateM.bind, hfirst', hrest']

theorem forM {f : α → EStateM ε σ PUnit} {l : List α} (h : ∀ a ∈ l, Respects R (f a)) :
    Respects R (l.forM f) := by
  induction l with
  | nil => exact .pure _
  | cons a l ih =>
    rw [List.forM_eq_forM, List.forM_cons]
    exact (h a List.mem_cons_self).bind fun _ => ih fun b hb => h b (List.mem_cons_of_mem a hb)

theorem mapM {f : α → EStateM ε σ β} {l : List α} (h : ∀ a ∈ l, Respects R (f a)) :
    Respects R (l.mapM f) := by
  induction l with
  | nil => exact .pure _
  | cons a l ih =>
    rw [List.mapM_cons]
    refine (h a List.mem_cons_self).bind fun _ => ?_
    exact (ih fun b hb => h b (List.mem_cons_of_mem a hb)).bind fun _ => .pure _

/-- A part that first looks at what related states have in common. -/
theorem get_bind {f : σ → EStateM ε σ β} (hsame : ∀ s t, R s t → f t = f s)
    (h : ∀ s, Respects R (f s)) : Respects R (get >>= f) := by
  intro s t a s' hst hok
  obtain ⟨t', hok', h'⟩ := h s s t a s' hst (get_bind_ok hok)
  refine ⟨t', ?_, h'⟩
  show f t t = _
  rw [hsame s t hst, hok']

/-- From one and the same state there is one course. -/
theorem of_eq (part : EStateM ε σ α) : Respects Eq part := by
  rintro s _ a s' rfl hok
  exact ⟨s', hok, rfl⟩

/-! ## Tallies and worlds -/

theorem untallied {part : EStateM ε σ α} (h : Respects R part) :
    Respects (Tallied R) (Build.untallied part : EStateM ε (σ × τ) α) := by
  rintro ⟨s, n⟩ ⟨t, m⟩ a ⟨s', n'⟩ ⟨hst, hnm⟩ hok
  unfold Build.untallied at hok
  split at hok
  · rename_i hpart
    cases hok
    obtain ⟨t', hpart', h'⟩ := h _ _ _ _ hst hpart
    refine ⟨(t', m), ?_, h', hnm⟩
    simp only [Build.untallied, hpart']
  · cases hok

theorem tallying {part : EStateM ε (σ × τ) Unit} (h : Respects (Tallied R) part) (start : τ) :
    Respects R (Build.tallying start part) := by
  intro s t n s' hst hok
  obtain ⟨⟨t', m⟩, hpart, h', hm⟩ :=
    h (s, start) (t, start) _ _ ⟨hst, rfl⟩ (Build.tallying_ok hok)
  obtain rfl : n = m := hm
  exact ⟨t', by simp only [Build.tallying, hpart], h'⟩

theorem modify_tally (f : τ → τ) :
    Respects (Tallied R) (modify fun s => (s.1, f s.2) : EStateM ε (σ × τ) PUnit) := by
  rintro ⟨s, n⟩ ⟨t, m⟩ a s' ⟨hst, hnm⟩ hok
  cases hok
  exact ⟨(t, f m), rfl, hst, congrArg f hnm⟩

variable {R : Disk → Disk → Prop}

theorem log (event : Event) : Respects (InvImage R World.disk) (Build.log event) := by
  intro w v a w' h hok
  cases hok
  exact ⟨_, rfl, h⟩

theorem onDisk {operation : DiskM α} (h : Respects R operation) (path : Path) :
    Respects (InvImage R World.disk) (Build.onDisk path operation) := by
  intro w v a w' hwv hok
  obtain ⟨d', hop, h'⟩ := h _ v.disk _ _ hwv (Build.onDisk_ok hok)
  exact ⟨{ v with disk := d' }, by simp only [Build.onDisk, hop], h'⟩

end Respects

end Outcome

/-! ## File operations -/

namespace DiskM

open Disk Outcome

variable {sees : Location → Prop} {p source target : Path} {content : ByteArray}

theorem update_respects {change : Disk → Except DiskFault Disk}
    (h : ∀ d d' d₁, Alike sees d d' → change d = .ok d₁ →
      ∃ d₁', change d' = .ok d₁' ∧ Alike sees d₁ d₁') :
    Respects (Alike sees) (update change) := by
  intro d d' a d₁ halike hok
  unfold update at hok
  split at hok
  · rename_i d₂ hchange
    cases hok
    obtain ⟨d₂', hchange', h'⟩ := h _ _ _ halike hchange
    exact ⟨d₂', by simp only [update, hchange'], h'⟩
  · cases hok

theorem writeFile_respects (hsees : Rooted sees) (hp : p.IsPlain) (hloc : sees p.location) :
    Respects (Alike sees) (update (·.writeFile p content)) :=
  update_respects fun _ _ _ halike hok => halike.writeFile hsees hp hloc hok

theorem copyFile_respects (hsees : Rooted sees) (hsource : source.IsPlain)
    (hsourceLoc : sees source.location) (htarget : target.IsPlain)
    (htargetLoc : sees target.location) :
    Respects (Alike sees) (update (·.copyFile source target)) :=
  update_respects fun _ _ _ halike hok =>
    halike.copyFile hsees hsource hsourceLoc htarget htargetLoc hok

/-- A path whose way is seen, or the empty one that paths from the root end
in when one goes up. -/
def Seen (sees : Location → Prop) (p : Path) : Prop :=
  p = ⟨""⟩ ∨ p.IsPlain ∧ sees p.location

section Seen

variable {d d' : Disk} (halike : Alike sees d d') (hsees : Rooted sees) (hp : Seen sees p)
include halike hsees hp

theorem makeDir_of_seen :
    (∃ d₁ d₁', d.makeDir p = .ok d₁ ∧ d'.makeDir p = .ok d₁' ∧ Alike sees d₁ d₁') ∨
      ∃ fault, d.makeDir p = .error fault ∧ d'.makeDir p = .error fault := by
  rcases hp with rfl | ⟨hplain, hloc⟩
  · exact .inr ⟨.notFound, rfl, rfl⟩
  · exact halike.makeDir hsees hplain hloc

theorem isDir_of_seen : d'.isDir p = d.isDir p := by
  rcases hp with rfl | ⟨hplain, hloc⟩
  · rfl
  · exact halike.agree.isDir_eq hsees halike.sound.linkFree hplain hloc

end Seen

section Below

variable {d d₁ : Disk} {parent : Path} {above : List Path} {fault : DiskFault}

theorem createDirBelow_of_ok (h : d.makeDir p = .ok d₁) :
    createDirBelow (parent :: above) p d = .ok () d₁ := by
  simp only [createDirBelow, h]

theorem createDirBelow_of_notFound (h : d.makeDir p = .error .notFound) :
    createDirBelow (parent :: above) p d =
      (do createDirBelow above parent; ensureDir p : DiskM Unit) d := by
  simp only [createDirBelow, h]

theorem createDirBelow_of_fault (h : d.makeDir p = .error fault) (hne : fault ≠ .notFound) :
    createDirBelow (parent :: above) p d =
      if d.isDir p then .ok () d else .error fault d := by
  simp only [createDirBelow, h]

end Below

variable (hsees : Rooted sees)
include hsees

theorem ensureDir_respects (hp : Seen sees p) : Respects (Alike sees) (ensureDir p) := by
  intro d d' a d₁ halike hok
  have hisDir := isDir_of_seen halike hsees hp
  unfold ensureDir at hok ⊢
  rcases makeDir_of_seen halike hsees hp with ⟨d₂, d₂', hmade, hmade', h'⟩ | ⟨fault, hfault, hfault'⟩
  · simp only [hmade] at hok
    cases hok
    exact ⟨d₂', by simp only [hmade'], h'⟩
  · simp only [hfault] at hok
    split at hok
    · rename_i hdir
      cases hok
      exact ⟨d', by simp only [hfault', hisDir, hdir, if_true], halike⟩
    · cases hok

/-- The induction is on the paths above. -/
theorem createDirBelow_respects {above : List Path} (h : ∀ q ∈ p :: above, Seen sees q) :
    Respects (Alike sees) (createDirBelow above p) := by
  induction above generalizing p with
  | nil =>
    rw [createDirBelow]
    split
    · exact .pure _
    · exact ensureDir_respects hsees (h p (by simp))
  | cons parent above ih =>
    obtain ⟨hp, habove⟩ := List.forall_mem_cons.1 h
    intro d d' a d₁ halike hok
    rcases makeDir_of_seen halike hsees hp with
      ⟨d₂, d₂', hmade, hmade', h'⟩ | ⟨fault, hfault, hfault'⟩
    · rw [createDirBelow_of_ok hmade] at hok
      cases hok
      exact ⟨d₂', createDirBelow_of_ok hmade', h'⟩
    · -- what is done about a fault depends on which it is
      by_cases hmissing : fault = .notFound
      · subst hmissing
        rw [createDirBelow_of_notFound hfault] at hok
        rw [createDirBelow_of_notFound hfault']
        exact (ih habove).bind (fun _ => ensureDir_respects hsees hp) d d' a d₁ halike hok
      · rw [createDirBelow_of_fault hfault hmissing] at hok
        rw [createDirBelow_of_fault hfault' hmissing, isDir_of_seen halike hsees hp]
        split at hok
        · rename_i hdir
          cases hok
          exact ⟨d', by rw [if_pos hdir], halike⟩
        · cases hok

/-- **Directories are made alike** where the way to them is seen. -/
theorem createDirAll_respects (hp : p.IsPlain) (hloc : sees p.location) :
    Respects (Alike sees) (createDirAll p) := by
  refine createDirBelow_respects hsees fun q hq => ?_
  rcases List.mem_cons.1 hq with rfl | hq
  · exact .inr ⟨hp, hloc⟩
  · exact (hp.mem_ancestors hq).imp_right fun h => ⟨h.1, hsees _ _ h.2 hloc⟩

end DiskM

end DualPackage
