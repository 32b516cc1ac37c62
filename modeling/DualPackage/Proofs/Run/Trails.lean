import DualPackage.Proofs.Disk.Agree
import Mathlib.Algebra.Group.Defs
/-!
# Steps that change places

A step leads from one disk to another and brings an answer; along a trail
of steps the answers are added up (`Trail`). A step that is local decides
its course by the locations it sees, and leaves alone all others and those
that it spares (`Local`). If each of two local steps spares what the other
sees, it makes no difference which is done first (`Local.exists_swapped`).
So a trail on which the steps of two parties alternate in any way can be
parted into the steps of the one and those of the other (`trail_parted`).
-/

namespace DualPackage

/-- What leads from one disk to another and brings an answer. -/
abbrev Step (A : Type) := Disk → A → Disk → Prop

variable {A : Type} {inv : Disk → Prop} {d d₁ d' e : Disk} {a b c : A}

/-! ## Trails -/

section Trails

variable [AddMonoid A] {x y z : Step A} {xs ys zs : List (Step A)}

/-- Steps one after the other, with their answers added up. -/
def Trail : List (Step A) → Step A
  | [], d, c, d' => c = 0 ∧ d' = d
  | x :: xs, d, c, d' => ∃ a d₁ b, x d a d₁ ∧ Trail xs d₁ b d' ∧ c = a + b

theorem trail_append :
    Trail (xs ++ ys) d c d' ↔ ∃ a d₁ b, Trail xs d a d₁ ∧ Trail ys d₁ b d' ∧ c = a + b := by
  induction xs generalizing d c with
  | nil =>
    constructor
    · exact fun h => ⟨0, d, c, ⟨rfl, rfl⟩, h, (zero_add c).symm⟩
    · rintro ⟨a, d₁, b, ⟨rfl, rfl⟩, h, rfl⟩
      rwa [zero_add]
  | cons x xs ih =>
    constructor
    · rintro ⟨a, d₁, b, hx, hrest, rfl⟩
      obtain ⟨a', d₂, b', hxs, hys, rfl⟩ := ih.1 hrest
      exact ⟨a + a', d₂, b', ⟨a, d₁, a', hx, hxs, rfl⟩, hys, (add_assoc ..).symm⟩
    · rintro ⟨c, d₂, b', ⟨a, d₁, a', hx, hxs, rfl⟩, hys, rfl⟩
      exact ⟨a, d₁, a' + b', hx, ih.2 ⟨a', d₂, b', hxs, hys, rfl⟩, add_assoc ..⟩

theorem trail_singleton : Trail [x] d c d' ↔ x d c d' := by
  constructor
  · rintro ⟨a, d₁, b, hx, ⟨rfl, rfl⟩, rfl⟩
    rwa [add_zero]
  · exact fun h => ⟨c, d', 0, h, ⟨rfl, rfl⟩, (add_zero c).symm⟩

theorem trail_pair : Trail [x, y] d c d' ↔ ∃ a d₁ b, x d a d₁ ∧ y d₁ b d' ∧ c = a + b := by
  show (∃ a d₁ b, x d a d₁ ∧ Trail [y] d₁ b d' ∧ c = a + b) ↔ _
  simp only [trail_singleton]

/-- After a step that both trails begin with, they may differ as long as they
come to the same. -/
theorem trail_cons_congr
    (h : ∀ a d₁ b, x d a d₁ → (Trail xs d₁ b d' ↔ Trail ys d₁ b d')) :
    Trail (x :: xs) d c d' ↔ Trail (x :: ys) d c d' := by
  constructor
  all_goals
    rintro ⟨a, d₁, b, hx, hrest, rfl⟩
    refine ⟨a, d₁, b, hx, ?_, rfl⟩
  · exact (h a d₁ b hx).1 hrest
  · exact (h a d₁ b hx).2 hrest

theorem trail_append_congr
    (h : ∀ a d₁ b, Trail zs d a d₁ → (Trail xs d₁ b d' ↔ Trail ys d₁ b d')) :
    Trail (zs ++ xs) d c d' ↔ Trail (zs ++ ys) d c d' := by
  rw [trail_append, trail_append]
  refine exists_congr fun a => exists_congr fun d₁ => exists_congr fun b => ?_
  exact and_congr_right fun hzs => and_congr_left fun _ => h a d₁ b hzs

/-- A step that is a trail itself. -/
theorem trail_cons_split (h : ∀ a d₁, x d a d₁ ↔ Trail ys d a d₁) :
    Trail (x :: xs) d c d' ↔ Trail (ys ++ xs) d c d' := by
  rw [trail_append]
  simp only [← h]
  rfl

/-- What a step keeps to, wherever it leads. -/
def Step.Keeps (x : Step A) (inv : Disk → Prop) : Prop :=
  ∀ d a d', inv d → x d a d' → inv d'

theorem Trail.keeps (h : ∀ x ∈ xs, Step.Keeps x inv) (hd : inv d) (htrail : Trail xs d c d') :
    inv d' := by
  induction xs generalizing d c with
  | nil =>
    obtain ⟨-, rfl⟩ := htrail
    exact hd
  | cons x xs ih =>
    obtain ⟨hx, hxs⟩ := List.forall_mem_cons.1 h
    obtain ⟨a, d₁, b, hstep, hrest, -⟩ := htrail
    exact ih hxs (hx d a d₁ hd hstep) hrest

/-- A trail comes nowhere if one of its steps leads nowhere, and the others do
not help it. -/
theorem not_trail_of_stuck (hkeeps : ∀ x ∈ xs, Step.Keeps x inv) (hy : y ∈ xs)
    (hstuck : ∀ d a d', inv d → ¬ y d a d') (hd : inv d) : ¬ Trail xs d c d' := by
  induction xs generalizing d c with
  | nil => cases hy
  | cons x xs ih =>
    obtain ⟨hx, hxs⟩ := List.forall_mem_cons.1 hkeeps
    rintro ⟨a, d₁, b, hstep, hrest, -⟩
    rcases List.mem_cons.1 hy with rfl | hy
    · exact hstuck d a d₁ hd hstep
    · exact ih hxs hy (hx d a d₁ hd hstep) hrest

/-- The two steps may change places, with the answers in either order. -/
def Swappable (inv : Disk → Prop) (x y : Step A) : Prop :=
  ∀ d c d', inv d → (Trail [x, y] d c d' ↔ Trail [y, x] d c d')

/-- A step moved behind all the steps that it may change places with. -/
theorem trail_moved (hkeeps : ∀ x ∈ xs, Step.Keeps x inv) (hswap : ∀ x ∈ xs, Swappable inv y x)
    (hd : inv d) : Trail (y :: xs ++ zs) d c d' ↔ Trail (xs ++ y :: zs) d c d' := by
  induction xs generalizing d c with
  | nil => rfl
  | cons x xs ih =>
    obtain ⟨hx, hkeeps⟩ := List.forall_mem_cons.1 hkeeps
    obtain ⟨hyx, hswap⟩ := List.forall_mem_cons.1 hswap
    have hfirst : Trail ([y, x] ++ (xs ++ zs)) d c d' ↔ Trail ([x, y] ++ (xs ++ zs)) d c d' := by
      rw [trail_append, trail_append]
      simp only [hyx d _ _ hd]
    exact hfirst.trans (trail_cons_congr fun a d₁ b hstep =>
      ih hkeeps hswap (hx d a d₁ hd hstep))

/-- **A trail of two parties**, whose steps may change places, comes to the
steps of the one and then those of the other. -/
theorem trail_parted {trace : List (Step A ⊕ Step A)}
    (hkeeps : ∀ x ∈ trace, Step.Keeps (x.elim id id) inv)
    (hswap : ∀ x y, .inl x ∈ trace → .inr y ∈ trace → Swappable inv y x) (hd : inv d) :
    Trail (trace.map (Sum.elim id id)) d c d' ↔
      Trail (trace.filterMap Sum.getLeft? ++ trace.filterMap Sum.getRight?) d c d' := by
  induction trace generalizing d c with
  | nil => rfl
  | cons step trace ih =>
    obtain ⟨hstep, hothers⟩ := List.forall_mem_cons.1 hkeeps
    have hrest : ∀ {e b}, inv e → (Trail (trace.map (Sum.elim id id)) e b d' ↔ _) := fun he =>
      ih hothers (fun x y hx hy => hswap x y (List.mem_cons_of_mem _ hx)
        (List.mem_cons_of_mem _ hy)) he
    cases step with
    | inl x => exact trail_cons_congr fun a d₁ b hx => hrest (hstep d a d₁ hd hx)
    | inr y =>
      calc Trail (y :: trace.map (Sum.elim id id)) d c d'
          ↔ Trail (y :: (trace.filterMap Sum.getLeft? ++ trace.filterMap Sum.getRight?)) d c d' :=
            trail_cons_congr fun a d₁ b hy => hrest (hstep d a d₁ hd hy)
        _ ↔ _ := by
            refine trail_moved (fun x hx => ?_) (fun x hx => ?_) hd
            all_goals
              obtain ⟨step, hmem, hleft⟩ := List.mem_filterMap.1 hx
              obtain rfl := Sum.getLeft?_eq_some_iff.1 hleft
            · exact hothers _ hmem
            · exact hswap x y (List.mem_cons_of_mem _ hmem) List.mem_cons_self

end Trails

/-! ## Local steps -/

open Disk

/-- A step that decides its course by what it sees, and leaves alone what it
does not see and what it spares. -/
structure Local (inv : Disk → Prop) (sees spares : Location → Prop) (x : Step A) : Prop where
  follows : ∀ d e a d', Alike sees d e → x d a d' → ∃ e', x e a e' ∧ Alike sees d' e'
  keeps : Step.Keeps x inv
  leaves : ∀ d a d', inv d → x d a d' →
    d'.cwd = d.cwd ∧ ∀ l, spares l ∨ ¬ sees l → d'.get? l = d.get? l

namespace Local

variable {sees spares : Location → Prop} {x y : Step A}

theorem agree (hx : Local inv sees spares x) (hd : inv d) (h : x d a d') : Agree spares d d' := by
  obtain ⟨hcwd, hsame⟩ := hx.leaves d a d' hd h
  exact ⟨hcwd, fun l hl => hsame l (.inl hl)⟩

/-- **Local steps change places** if each spares what the other sees. -/
theorem exists_swapped (hsound : ∀ d, inv d → d.Sound) (hx : Local inv sees spares x)
    (hy : Local inv spares sees y) (hd : inv d) (h₁ : x d a d₁) (h₂ : y d₁ b d') :
    ∃ e, y d b e ∧ x e a d' := by
  have hd₁ := hx.keeps d a d₁ hd h₁
  have hd' := hy.keeps d₁ b d' hd₁ h₂
  -- the second step does not see what the first has done
  have hbefore : Alike spares d₁ d := ⟨hsound _ hd₁, hsound _ hd, (hx.agree hd h₁).symm⟩
  obtain ⟨e, hye, halike⟩ := hy.follows d₁ d b d' hbefore h₂
  have he := hy.keeps d b e hd hye
  -- nor does the first step see what the second has done
  have hafter : Alike sees d e := ⟨hsound _ hd, hsound _ he, hy.agree hd hye⟩
  obtain ⟨e', hxe, halike'⟩ := hx.follows d e a d₁ hafter h₁
  have he' := hx.keeps e a e' he hxe
  refine ⟨e, hye, ?_⟩
  have hsame : e' = d' := by
    refine (hsound _ hd').wellFormed.eq_of_get? (hsound _ he').wellFormed ?_ fun l => ?_
    · calc e'.cwd = d₁.cwd := halike'.agree.cwd
        _ = d'.cwd := ((hy.leaves d₁ b d' hd₁ h₂).1).symm
    · by_cases hseen : sees l
      · calc e'.get? l = d₁.get? l := halike'.agree.get? l hseen
          _ = d'.get? l := ((hy.leaves d₁ b d' hd₁ h₂).2 l (.inl hseen)).symm
      · rw [(hx.leaves e a e' he hxe).2 l (.inr hseen)]
        by_cases hother : spares l
        · exact halike.agree.get? l hother
        · calc e.get? l = d.get? l := (hy.leaves d b e hd hye).2 l (.inr hother)
            _ = d₁.get? l := ((hx.leaves d a d₁ hd h₁).2 l (.inr hseen)).symm
            _ = d'.get? l := ((hy.leaves d₁ b d' hd₁ h₂).2 l (.inr hother)).symm
  exact hsame ▸ hxe

variable [AddMonoid A]

theorem swappable (hsound : ∀ d, inv d → d.Sound) (hx : Local inv sees spares x)
    (hy : Local inv spares sees y)
    (hanswers : ∀ d a d' e b e', x d a d' → y e b e' → a + b = b + a) : Swappable inv x y := by
  intro d c d' hd
  rw [trail_pair, trail_pair]
  constructor
  · rintro ⟨a, d₁, b, h₁, h₂, rfl⟩
    obtain ⟨e, hy', hx'⟩ := exists_swapped hsound hx hy hd h₁ h₂
    exact ⟨b, e, a, hy', hx', hanswers _ _ _ _ _ _ h₁ h₂⟩
  · rintro ⟨b, d₁, a, h₁, h₂, rfl⟩
    obtain ⟨e, hx', hy'⟩ := exists_swapped hsound hy hx hd h₁ h₂
    exact ⟨a, e, b, hx', hy', (hanswers _ _ _ _ _ _ h₂ h₁).symm⟩

end Local

end DualPackage
