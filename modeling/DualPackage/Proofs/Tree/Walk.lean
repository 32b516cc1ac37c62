import DualPackage.Tree.Walk
import DualPackage.Proofs.Disk.Access
/-!
# What a walk does to a disk

The visitor of a walk may change the disk, and so what the walk meets. It
stays in hand where the visitor of what stands along names below the root
changes one location only, the one along the same names below a target:
the root itself, if the tree is changed in place, or a directory apart
from it (`Visitor`). Then each location that the walk reaches is seen as
it was before the walk, and changed once (`visit_ok`).

What a walk reaches is told from the disk alone (`Reached`). The induction
follows the walk: `Swept` says what becomes of the tree below one entry,
and the loop over a directory joins the sweeps of its entries, which
change different parts of the target.
-/

namespace DualPackage

/-- Whether an entry is a directory. -/
def Entry.isDir : Entry → Bool
  | dir => true
  | file _ | link _ => false

namespace Tree

variable {ε σ : Type} {disk : σ → Disk} {fail : WalkFault → ε} {skip : Path → Bool}
  {act : Sighting → EStateM ε σ Unit} {root : Path} {target : Location}
  {Image : Path → Entry → Option Entry → Option Entry → Prop}

/-- The walk enters the directory along `rel` below the root. -/
def Entered (skip : Path → Bool) (root : Path) (d : Disk) (rel : List String) : Prop :=
  d.get? (root.location ++ rel) = some .dir ∧ (rel = [] ∨ skip (root.under rel) = false)

/-- The walk that enters along `rel` goes on to what stands along `rest`
below: a directory that it enters, or a file. -/
def Reached (skip : Path → Bool) (root : Path) (d : Disk) : List String → List String → Prop
  | rel, [] => Entered skip root d rel ∨
      ∃ content, d.get? (root.location ++ rel) = some (.file content)
  | rel, n :: rest => Entered skip root d rel ∧ Reached skip root d (rel ++ [n]) rest

/-- A visitor that changes, for each entry below the root, what stands along
the same names below the target, and nothing else. What it makes there
of what was there `Image` tells from the path and the entry. -/
structure Visitor (disk : σ → Disk) (act : Sighting → EStateM ε σ Unit) (root : Path)
    (target : Location) (Image : Path → Entry → Option Entry → Option Entry → Prop) : Prop where
  root_isPlain : root.IsPlain
  act_ok : ∀ {rel : List String} {depth : Nat} {e : Entry} {s s' : σ}, (disk s).Sound →
    (disk s).get? (root.location ++ rel) = some e →
    (disk s).get? (target ++ rel).dropLast = some .dir →
    act (.entry ⟨root.under rel, depth, e.isDir⟩) s = .ok ⟨⟩ s' →
      (disk s').Sound ∧
      Image (root.under rel) e ((disk s).get? (target ++ rel)) ((disk s').get? (target ++ rel)) ∧
      ∀ l, l ≠ target ++ rel → (disk s').get? l = (disk s).get? l
  image_dir : ∀ {path : Path} {old new : Option Entry}, Image path .dir old new → new = some .dir
  apart : target = root.location ∨ ∀ x y, root.location ++ x ≠ target ++ y

/-- What a walk that enters along `rel` leaves behind along `rest` below. -/
def Swept (skip : Path → Bool) (root : Path) (target : Location)
    (Image : Path → Entry → Option Entry → Option Entry → Prop) (d d' : Disk)
    (rel rest : List String) : Prop :=
  (Reached skip root d rel rest → ∃ e, d.get? (root.location ++ (rel ++ rest)) = some e ∧
    Image (root.under (rel ++ rest)) e (d.get? (target ++ (rel ++ rest)))
      (d'.get? (target ++ (rel ++ rest)))) ∧
  (¬ Reached skip root d rel rest →
    d'.get? (target ++ (rel ++ rest)) = d.get? (target ++ (rel ++ rest)))

variable {d d₁ d' : Disk} {rel rest : List String} {n : String}

/-- What is reached depends on what stands there and on the way. -/
theorem reached_congr (h : ∀ x, d₁.get? (root.location ++ (rel ++ x)) =
    d.get? (root.location ++ (rel ++ x))) :
    Reached skip root d₁ rel rest ↔ Reached skip root d rel rest := by
  have hhere := h []
  rw [List.append_nil] at hhere
  induction rest generalizing rel with
  | nil => simp only [Reached, Entered, hhere]
  | cons n rest ih =>
    have hbelow : ∀ x, d₁.get? (root.location ++ (rel ++ [n] ++ x)) =
        d.get? (root.location ++ (rel ++ [n] ++ x)) := by
      intro x
      have := h (n :: x)
      simpa using this
    have hnext := hbelow []
    rw [List.append_nil] at hnext
    simp only [Reached, Entered, hhere, ih hbelow hnext]

/-- Where something is reached below an entry, the entry is there. -/
theorem exists_above_of_reached (h : Reached skip root d rel rest) :
    ∃ e, d.get? (root.location ++ rel) = some e := by
  cases rest with
  | nil =>
    rcases h with h | ⟨content, h⟩
    · exact ⟨_, h.1⟩
    · exact ⟨_, h⟩
  | cons n rest => exact ⟨_, h.1.1⟩

/-- What is reached is there. -/
theorem exists_of_reached (h : Reached skip root d rel rest) :
    ∃ e, d.get? (root.location ++ (rel ++ rest)) = some e := by
  induction rest generalizing rel with
  | nil => simpa using exists_above_of_reached h
  | cons n rest ih => simpa using ih h.2

/-- A sweep of what the disk had been, seen from one that differs elsewhere. -/
theorem Swept.congr (h : Swept skip root target Image d₁ d' rel rest)
    (hsource : ∀ x, d₁.get? (root.location ++ (rel ++ x)) = d.get? (root.location ++ (rel ++ x)))
    (htarget : d₁.get? (target ++ (rel ++ rest)) = d.get? (target ++ (rel ++ rest))) :
    Swept skip root target Image d d' rel rest := by
  obtain ⟨hreached, hnot⟩ := h
  rw [reached_congr hsource, hsource rest, htarget] at hreached
  rw [reached_congr hsource, htarget] at hnot
  exact ⟨hreached, hnot⟩

/-- A sweep is not undone by changes elsewhere. -/
theorem Swept.mono (h : Swept skip root target Image d d₁ rel rest)
    (htarget : d'.get? (target ++ (rel ++ rest)) = d₁.get? (target ++ (rel ++ rest))) :
    Swept skip root target Image d d' rel rest := by
  obtain ⟨hreached, hnot⟩ := h
  rw [← htarget] at hreached hnot
  exact ⟨hreached, hnot⟩

/-- The sweep of a directory that is entered, told from its entries. -/
theorem Swept.of_entered (hentered : Entered skip root d rel)
    (h : Swept skip root target Image d d' (rel ++ [n]) rest) :
    Swept skip root target Image d d' rel (n :: rest) := by
  have hnames : rel ++ [n] ++ rest = rel ++ n :: rest := by simp
  rw [Swept, hnames] at h
  have hreached : Reached skip root d rel (n :: rest) ↔ Reached skip root d (rel ++ [n]) rest :=
    and_iff_right hentered
  rwa [Swept, hreached]

/-- What a walk below one entry leaves behind: a sound disk, which differs
only below the target of the entry, and there in what is swept. -/
structure Sweeps (skip : Path → Bool) (root : Path) (target : Location)
    (Image : Path → Entry → Option Entry → Option Entry → Prop) (d d' : Disk)
    (rel : List String) : Prop where
  sound : d'.Sound
  outside : ∀ l, ¬ target ++ rel <+: l → d'.get? l = d.get? l
  swept : ∀ rest, Swept skip root target Image d d' rel rest

/-- The same for a walk below some entries of one directory. -/
structure SweepsAll (skip : Path → Bool) (root : Path) (target : Location)
    (Image : Path → Entry → Option Entry → Option Entry → Prop) (d d' : Disk)
    (rel : List String) (names : List String) : Prop where
  sound : d'.Sound
  outside : ∀ l, (∀ n ∈ names, ¬ target ++ (rel ++ [n]) <+: l) → d'.get? l = d.get? l
  swept : ∀ n ∈ names, ∀ rest, Swept skip root target Image d d' (rel ++ [n]) rest

/-- Different entries of a directory have nothing below them in common. -/
theorem not_prefix_of_ne {m : String} (h : n ≠ m) (l : Location) (x : List String) :
    ¬ l ++ (rel ++ [n]) <+: l ++ (rel ++ [m] ++ x) := by
  rw [List.prefix_append_right_inj, List.append_assoc, List.prefix_append_right_inj]
  rintro ⟨y, hy⟩
  simp only [List.singleton_append, List.cons.injEq] at hy
  exact h hy.1

namespace Visitor

variable (v : Visitor disk act root target Image)
include v

/-- Nor has the target of one entry with the source of another. -/
theorem not_prefix_source {m : String} (h : n ≠ m) (x : List String) :
    ¬ target ++ (rel ++ [n]) <+: root.location ++ (rel ++ [m] ++ x) := by
  rcases v.apart with htarget | hapart
  · rw [htarget]
    exact not_prefix_of_ne h _ x
  · rintro ⟨y, hy⟩
    rw [List.append_assoc] at hy
    exact hapart _ _ hy.symm

/-- The target of a directory is not the source of one of its entries. -/
theorem source_ne_target (x : List String) :
    root.location ++ (rel ++ [n] ++ x) ≠ target ++ rel := by
  rcases v.apart with htarget | hapart
  · simp [htarget]
  · exact hapart _ _

/-- A file is visited, and nothing below it is reached. -/
theorem sweeps_file {content : ByteArray} {depth : Nat} {s s' : σ} (hs : (disk s).Sound)
    (hfile : (disk s).get? (root.location ++ rel) = some (.file content))
    (hparent : (disk s).get? (target ++ rel).dropLast = some .dir)
    (hok : act (.entry ⟨root.under rel, depth, false⟩) s = .ok ⟨⟩ s') :
    Sweeps skip root target Image (disk s) (disk s') rel := by
  obtain ⟨hsound, himage, helse⟩ := v.act_ok hs hfile hparent hok
  refine ⟨hsound, fun l hl => helse l fun heq => hl (heq ▸ List.prefix_refl _), fun rest => ?_⟩
  -- a file is not entered
  cases rest with
  | nil =>
    refine ⟨fun _ => ?_, fun hnot => absurd (.inr ⟨content, hfile⟩) hnot⟩
    rw [List.append_nil]
    exact ⟨_, hfile, himage⟩
  | cons n rest =>
    refine ⟨fun hreached => ?_, fun _ => helse _ (by simp)⟩
    rw [Reached, Entered, hfile] at hreached
    simp at hreached

omit v in
/-- A directory that is left out stays as it is, with all that it holds. -/
theorem sweeps_skipped {d : Disk} (hs : d.Sound)
    (hdir : d.get? (root.location ++ rel) = some .dir) (hne : rel ≠ [])
    (hskip : skip (root.under rel) = true) :
    Sweeps skip root target Image d d rel := by
  have hentered : ¬ Entered skip root d rel := by simp [Entered, hne, hskip]
  refine ⟨hs, fun _ _ => rfl, fun rest => ⟨fun hreached => ?_, fun _ => rfl⟩⟩
  cases rest with
  | nil =>
    rcases hreached with h | ⟨content, h⟩
    · exact absurd h hentered
    · simp [hdir] at h
  | cons n rest => exact absurd hreached.1 hentered

/-- A directory that is entered is visited, and then its entries are swept. -/
theorem sweeps_dir {d d₁ d' : Disk} (hd : d.Sound) (hentered : Entered skip root d rel)
    (himage : Image (root.under rel) .dir (d.get? (target ++ rel)) (d₁.get? (target ++ rel)))
    (helse : ∀ l, l ≠ target ++ rel → d₁.get? l = d.get? l)
    (hall : SweepsAll skip root target Image d₁ d' rel
      ((d.children (root.location ++ rel)).map (·.1))) :
    Sweeps skip root target Image d d' rel := by
  have hbelow : ∀ n : String, ¬ target ++ (rel ++ [n]) <+: target ++ rel := by
    intro n
    rw [List.prefix_append_right_inj]
    exact fun h => by simpa using h.length_le
  refine ⟨hall.sound, fun l hl => ?_, fun rest => ?_⟩
  · rw [hall.outside l, helse l fun heq => hl (heq ▸ List.prefix_refl _)]
    intro n _ hn
    exact hl (.trans (by simp) hn)
  · cases rest with
    | nil =>
      refine ⟨fun _ => ?_, fun hnot => absurd (.inl hentered) hnot⟩
      rw [List.append_nil, hall.outside _ fun n _ => hbelow n]
      exact ⟨_, hentered.1, himage⟩
    | cons n rest =>
      have hsource : ∀ x, d₁.get? (root.location ++ (rel ++ [n] ++ x)) =
          d.get? (root.location ++ (rel ++ [n] ++ x)) :=
        fun x => helse _ (v.source_ne_target x)
      have htarget : d₁.get? (target ++ (rel ++ [n] ++ rest)) =
          d.get? (target ++ (rel ++ [n] ++ rest)) := helse _ (by simp)
      refine Swept.of_entered hentered ?_
      by_cases hn : n ∈ (d.children (root.location ++ rel)).map (·.1)
      · exact (hall.swept n hn rest).congr hsource htarget
      · -- a name that is not listed: nothing stands below it, and nothing is done there
        refine ⟨fun hreached => ?_, fun _ => ?_⟩
        · obtain ⟨e, he⟩ := exists_above_of_reached hreached
          rw [← List.append_assoc] at he
          exact absurd (List.mem_map_of_mem (hd.wellFormed.mem_children.2 he)) hn
        · rw [hall.outside, htarget]
          intro m hm
          exact not_prefix_of_ne (ne_of_mem_of_not_mem hm hn) _ rest

/-- Entries visited one after the other are all swept, if each one is: the
walk below one of them leaves the source and the target of the next as
they were. -/
theorem sweepsAll_forM {visitChild : String × Entry → EStateM ε σ PUnit}
    (hchild : ∀ n e (s s' : σ), (disk s).Sound →
      (disk s).get? (root.location ++ (rel ++ [n])) = some e →
      (disk s).get? (target ++ rel) = some .dir → visitChild (n, e) s = .ok ⟨⟩ s' →
      Sweeps skip root target Image (disk s) (disk s') (rel ++ [n])) :
    ∀ (listed : List (String × Entry)) (s s' : σ),
      (listed.Pairwise fun a b => a.1 ≠ b.1) → (disk s).Sound →
      (∀ c ∈ listed, (disk s).get? (root.location ++ (rel ++ [c.1])) = some c.2) →
      (disk s).get? (target ++ rel) = some .dir → listed.forM visitChild s = .ok ⟨⟩ s' →
      SweepsAll skip root target Image (disk s) (disk s') rel (listed.map (·.1)) := by
  intro listed
  induction listed with
  | nil =>
    intro s s' _ hs _ _ hok
    obtain ⟨-, rfl⟩ := Outcome.pure_ok (show (pure ⟨⟩ : EStateM ε σ PUnit) s = .ok ⟨⟩ s' from hok)
    exact ⟨hs, fun _ _ => rfl, by simp⟩
  | cons c listed ih =>
    intro s s' hpair hs hhere hparent hok
    obtain ⟨n, e⟩ := c
    obtain ⟨hne, hpair⟩ := List.pairwise_cons.1 hpair
    obtain ⟨s₁, hfirst, hrest⟩ := Outcome.forM_cons_ok hok
    have hsweep := hchild n e s s₁ hs (hhere (n, e) (by simp)) hparent hfirst
    -- the entries still to come are seen as the walk found them
    have hsource : ∀ c ∈ listed, ∀ x, (disk s₁).get? (root.location ++ (rel ++ [c.1] ++ x)) =
        (disk s).get? (root.location ++ (rel ++ [c.1] ++ x)) :=
      fun c hc x => hsweep.outside _ (v.not_prefix_source (hne c hc) x)
    have hall := ih s₁ s' hpair hsweep.sound
      (fun c hc => by
        have := hsource c hc []
        rw [List.append_nil] at this
        rw [this]
        exact hhere c (List.mem_cons_of_mem _ hc))
      (by
        rw [hsweep.outside _ ?_, hparent]
        rw [List.prefix_append_right_inj]
        exact fun h => by simpa using h.length_le)
      hrest
    -- and the sweep of the first entry is not undone by those of the others
    refine ⟨hall.sound, fun l hl => ?_, fun m hm rest => ?_⟩
    · rw [hall.outside l fun m hm => hl m (by simp [hm]), hsweep.outside l (hl n (by simp))]
    · rw [List.map_cons, List.mem_cons] at hm
      rcases hm with rfl | hm
      · refine (hsweep.swept rest).mono (hall.outside _ fun m hm => ?_)
        obtain ⟨c, hc, rfl⟩ := List.mem_map.1 hm
        exact not_prefix_of_ne (hne c hc).symm _ rest
      · obtain ⟨c, hc, rfl⟩ := List.mem_map.1 hm
        exact (hall.swept c.1 (List.mem_map_of_mem hc) rest).congr (hsource c hc)
          (hsweep.outside _ (not_prefix_of_ne (hne c hc) _ rest))

/-- **The walk below one entry**, by induction on the depth that is left. -/
theorem visitEntry_ok {bound depth : Nat} {above : List Location} {e : Entry} {s s' : σ}
    (hdepth : depth = rel.length) (hs : (disk s).Sound)
    (hhere : (disk s).get? (root.location ++ rel) = some e)
    (hparent : (disk s).get? (target ++ rel).dropLast = some .dir)
    (hok : visitEntry disk fail skip act bound above depth (root.under rel)
      (root.location ++ rel) e s = .ok ⟨⟩ s') :
    Sweeps skip root target Image (disk s) (disk s') rel := by
  induction bound generalizing above depth rel e s s' with
  | zero => exact absurd hok Outcome.not_throw_ok
  | succ bound ih =>
    rw [visitEntry] at hok
    replace hok := Outcome.get_bind_ok hok
    cases e with
    | link goal => exact absurd hhere (hs.linkFree _ _)
    | file content => exact v.sweeps_file hs hhere hparent hok
    | dir =>
      simp only [turn] at hok
      -- a directory is left out, or it is visited and then walked through
      split at hok
      · rename_i hskip
        simp only [Bool.and_eq_true, decide_eq_true_eq] at hskip
        obtain ⟨-, rfl⟩ := Outcome.pure_ok hok
        exact sweeps_skipped hs hhere (List.ne_nil_of_length_pos (hdepth ▸ hskip.1)) hskip.2
      · rename_i hskip
        have hentered : Entered skip root (disk s) rel := by
          refine ⟨hhere, ?_⟩
          simp only [Bool.and_eq_true, decide_eq_true_eq, not_and, Bool.not_eq_true] at hskip
          rcases List.eq_nil_or_concat rel with hnil | ⟨x, n, hconcat⟩
          · exact .inl hnil
          · exact .inr (hskip (by simp [hdepth, hconcat]))
        replace hok := Outcome.get_bind_ok hok
        obtain ⟨⟨⟩, s₁, hact, hloop⟩ := Outcome.bind_ok hok
        obtain ⟨hsound, himage, helse⟩ := v.act_ok hs hhere hparent hact
        refine v.sweeps_dir hs hentered himage helse
          (v.sweepsAll_forM (fun n e s s' hs hhere hparent hok => ?_) _ s₁ s'
            (hs.wellFormed.pairwise_children _) hsound (fun c hc => ?_)
            (v.image_dir himage) hloop)
        · simp only [← Path.under_concat, List.append_assoc] at hok
          refine ih ?_ hs hhere ?_ hok
          · simp [hdepth]
          · rwa [← List.append_assoc, List.dropLast_concat]
        · -- the entries listed are still there after the visit of the directory
          have hne : root.location ++ (rel ++ [c.1] ++ []) ≠ target ++ rel := v.source_ne_target []
          rw [List.append_nil] at hne
          rw [helse _ hne, ← List.append_assoc]
          exact hs.wellFormed.mem_children.1 hc

/-- **A walk** sweeps what lies below its root, a directory. -/
theorem visit_ok {s s' : σ} (hs : (disk s).Sound)
    (hdir : (disk s).get? root.location = some .dir)
    (hparent : (disk s).get? target.dropLast = some .dir)
    (hok : visit disk fail skip act root s = .ok ⟨⟩ s') :
    Sweeps skip root target Image (disk s) (disk s') [] := by
  rw [visit] at hok
  replace hok := Outcome.get_bind_ok hok
  cases hstat : (disk s).stat root with
  | error fault =>
    rw [hstat] at hok
    exact absurd hok Outcome.not_throw_ok
  | ok standing =>
    rw [hstat] at hok
    cases standing with
    | file loc content =>
      have hfile := (Disk.stat_standsAt hs.linkFree v.root_isPlain hstat).2
      simp [hdir] at hfile
    | dir loc =>
      obtain ⟨rfl, -⟩ := Disk.stat_standsAt hs.linkFree v.root_isPlain hstat
      have hhere : (disk s).get? (root.location ++ []) = some .dir := by simpa using hdir
      exact v.visitEntry_ok rfl hs hhere (by simpa using hparent) (by simpa using hok)

end Visitor

end Tree

end DualPackage
