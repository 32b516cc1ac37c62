import DualPackage.Proofs.Tree.Enumeration
import DualPackage.Proofs.Tree.Tour
import Mathlib.Data.List.Flatten
/-!
# Pruning is filtering

Which positions a walk comes to depends on the directories that it leaves
out, and so does what is a loop: a link is one if the walk is inside of the
directory that it leads to. But the directories on the way to a position do
not depend on what else is left out. So a walk that leaves directories out
comes to those positions of the whole walk that are not at or below one of
them (`visited_iff`), in the same order (`tour_eq_filter`), and finds the
same there: what it sees is what the whole walk sees, filtered by path
(`sights_pruned`).
-/

namespace DualPackage

/-- A path leads to another, or to something below it, if it begins with its
components; along names, if it begins with its names. -/
theorem Path.isSome_below?_under_iff {root : Path} {a b : List String}
    (ha : ∀ n ∈ a, IsName n) (hb : ∀ n ∈ b, IsName n) :
    ((root.under b).below? (root.under a)).isSome ↔ a <+: b := by
  have hinjective : Function.Injective Component.name := fun _ _ h => Component.name.inj h
  have hsome : ((root.under b).below? (root.under a)).isSome ↔
      (root.under a).components <+: (root.under b).components := by
    rw [← List.isPrefixOf_iff_prefix, ← List.isSome_isPrefixOf?_eq_isPrefixOf, below?]
    cases (root.under a).components.isPrefixOf? (root.under b).components <;> simp
  rw [hsome, components_under ha, components_under hb, List.prefix_append_right_inj,
    List.prefix_map_iff_of_injective hinjective]

/-- A directory strictly below the root of the walk that `skip` holds of. -/
def Sighting.leavesOut (skip : Path → Bool) : Sighting → Bool
  | .entry v => 0 < v.depth && v.isDir && skip v.path
  | .loop _ => false

namespace Tree

open Disk Outcome

/-- Neither is nor lies below one of the directories seen that `skip` holds
of. -/
def isKept (skip : Path → Bool) (seen : List Sighting) (x : Sighting) : Bool :=
  seen.all fun v => !(v.leavesOut skip && (x.path.below? v.path).isSome)

/-- A visitor that only looks. -/
def looking (_ : Sighting) : EStateM WalkFault Disk Unit :=
  pure ⟨⟩

/-- What a walk sees, or the fault that it breaks off with. -/
def sights (skip : Path → Bool) (root : Path) (d : Disk) : Except WalkFault (List Sighting) :=
  match visit Prod.fst id skip (noting looking) root (d, []) with
  | .ok _ (_, seen) => .ok seen
  | .error fault _ => .error fault

variable {ε σ : Type} {disk : σ → Disk} {fail : WalkFault → ε} {skip : Path → Bool}
  {act : Sighting → EStateM ε σ Unit} {root : Path} {d : Disk} {p q : Position}
  {bound : ℕ} {l : List Position} {seen : List Sighting} {x : Sighting} {names : List String}
  {inv : σ → Prop} {s : σ} {standing : Standing}

/-- The predicate that leaves nothing out. -/
abbrev nothing (_ : Path) : Bool := false

/-! ## The positions -/

theorem leftOut_nothing (p : Position) : p.leftOut nothing root = false := by
  simp [Position.leftOut]

/-- **What leads to a position does so in the whole walk,** through the same
directories. -/
theorem Way.whole (h : Way skip root d p) : Way nothing root d p := by
  induction h with
  | start hstat => exact .start hstat
  | down _ hturn _ hc ih => exact ih.down hturn (leftOut_nothing _) hc

theorem Way.visited (h : Way nothing root d p) : Visited nothing root d p :=
  ⟨h, fun _ _ => leftOut_nothing p⟩

theorem Way.isName (hd : d.WellFormed) (h : Way skip root d p) :
    ∀ n ∈ p.names, Path.IsName n := by
  induction h with
  | @start standing _ => cases standing <;> simp [Position.start]
  | down _ _ _ hc ih =>
    exact List.forall_mem_append.2
      ⟨ih, List.forall_mem_singleton.2 (hd.isName (hd.mem_children.1 hc))⟩

/-- In the whole walk a position is told by its names. -/
theorem Way.eq_of_names (hd : d.WellFormed) (hp : Way nothing root d p) (hq : Way nothing root d q)
    (hnames : p.names = q.names) : p = q :=
  List.inj_on_of_nodup_map (nodup_tour hd) ((mem_tour hd).2 hp.visited)
    ((mem_tour hd).2 hq.visited) hnames

/-- In the whole walk, a directory that `skip` holds of is met along the names
or on the way there. -/
def LeftOutAt (skip : Path → Bool) (root : Path) (d : Disk) (names : List String) : Prop :=
  ∃ v, Way nothing root d v ∧ (∃ dir, v.turn root d = .ok (.dir dir)) ∧
    v.leftOut skip root ∧ v.names <+: names

/-- **The positions of a walk that leaves directories out** are those of the
whole walk that are not at or below one of them. Both ways it is an
induction on how the position is reached. -/
theorem visited_iff (hd : d.WellFormed) :
    Visited skip root d p ↔ Way nothing root d p ∧ ¬ LeftOutAt skip root d p.names := by
  constructor
  · rintro ⟨hway, hentered⟩
    refine ⟨hway.whole, ?_⟩
    induction hway with
    | @start standing hstat =>
      rintro ⟨v, -, -, hout, hprefix⟩
      have hroot : (Position.start standing).names = [] := by cases standing <;> rfl
      rw [hroot, List.prefix_nil] at hprefix
      simp [Position.leftOut, hprefix] at hout
    | @down q dir c hway hturn hin hc ih =>
      rintro ⟨v, hv, ⟨dir', hdir⟩, hout, hprefix⟩
      -- what is left out is this position itself, or above the one before
      rcases List.prefix_concat_iff.1 hprefix with hsame | habove
      · have hchild : Way nothing root d (q.child dir c) :=
          hway.whole.down hturn (leftOut_nothing q) hc
        obtain rfl : v = q.child dir c := hv.eq_of_names hd hchild hsame
        rw [hentered dir' hdir] at hout
        cases hout
      · exact ih (fun _ _ => hin) ⟨v, hv, ⟨dir', hdir⟩, hout, habove⟩
  · rintro ⟨hway, hnot⟩
    have hentered : ∀ {q}, Way nothing root d q → ¬ LeftOutAt skip root d q.names →
        ∀ dir, q.turn root d = .ok (.dir dir) → q.leftOut skip root = false := by
      intro q hq hnot dir hdir
      by_contra hout
      exact hnot ⟨q, hq, ⟨dir, hdir⟩, by simpa using hout, List.prefix_rfl⟩
    refine ⟨?_, hentered hway hnot⟩
    induction hway with
    | start hstat => exact .start hstat
    | @down q dir c hway hturn _ hc ih =>
      have habove : ¬ LeftOutAt skip root d q.names := by
        rintro ⟨v, hv, hdir, hout, hprefix⟩
        exact hnot ⟨v, hv, hdir, hout, hprefix.trans (List.prefix_append _ _)⟩
      exact (ih habove).down hturn (hentered hway habove dir hturn) hc

/-! ## Their order -/

theorem tourBelow_sublist :
    (tourBelow skip root d bound p).Sublist (tourBelow nothing root d bound p) := by
  induction bound generalizing p with
  | zero => exact .slnil
  | succ bound ih =>
    by_cases hdir : ∃ dir, p.turn root d = .ok (.dir dir)
    · obtain ⟨dir, hturn⟩ := hdir
      rw [tourBelow_entered hturn (leftOut_nothing p)]
      cases hin : p.leftOut skip root with
      | true =>
        rw [tourBelow, hturn]
        dsimp only
        rw [if_pos hin]
        exact List.nil_sublist _
      | false =>
        rw [tourBelow_entered hturn hin]
        exact (List.Sublist.flatMap_right _ fun c _ => ih).cons_cons p
    · have hnot := not_exists.1 hdir
      rw [tourBelow_of_not_dir hnot, tourBelow_of_not_dir hnot]

theorem tour_sublist : (tour skip root d).Sublist (tour nothing root d) := by
  unfold tour
  split
  · exact .slnil
  · exact tourBelow_sublist

/-- A list is told from a longer one without repetitions by what is in it. -/
theorem eq_filter_of_sublist {α : Type} {l l' : List α} {keep : α → Bool} (h : l.Sublist l')
    (hnodup : l'.Nodup) (hmem : ∀ a ∈ l', a ∈ l ↔ keep a) : l = l'.filter keep := by
  have hall : l.filter keep = l := List.filter_eq_self.2 fun a ha => (hmem a (h.subset ha)).1 ha
  have hsub : l.Sublist (l'.filter keep) := hall ▸ h.filter keep
  refine hsub.eq_of_length_le ?_
  refine (List.subperm_of_subset (hnodup.filter keep) fun a ha => ?_).length_le
  obtain ⟨ha, hkeep⟩ := List.mem_filter.1 ha
  exact (hmem a ha).2 hkeep

/-- **The tour is the whole tour, filtered.** -/
theorem tour_eq_filter (hd : d.WellFormed) {keep : Position → Bool}
    (hkeep : ∀ p ∈ tour nothing root d, keep p ↔ ¬ LeftOutAt skip root d p.names) :
    tour skip root d = (tour nothing root d).filter keep := by
  refine eq_filter_of_sublist tour_sublist (nodup_tour hd).of_map fun p hp => ?_
  rw [mem_tour hd, visited_iff hd, hkeep p hp]
  exact and_iff_right ((mem_tour hd).1 hp).way

/-! ## What is seen there -/

theorem path_of_told (h : p.told root d = .ok x) : x.path = root.under p.names := by
  rw [Position.told] at h
  split at h
  · cases h
  all_goals
    cases h
    rfl

theorem leavesOut_of_told (h : p.told root d = .ok x) : x.leavesOut skip ↔
    (∃ dir, p.turn root d = .ok (.dir dir)) ∧ p.leftOut skip root := by
  rw [Position.told] at h
  split at h
  · cases h
  all_goals
    rename_i hturn
    cases h
    simp [Sighting.leavesOut, hturn, Position.leftOut]

/-- What is seen at one position after the other, with no fault at any. -/
def Told (root : Path) (d : Disk) (l : List Position) (seen : List Sighting) : Prop :=
  l.map (fun p => p.told root d) = seen.map .ok

theorem Told.mem_iff (h : Told root d l seen) : x ∈ seen ↔ ∃ p ∈ l, p.told root d = .ok x := by
  have hok : (.ok x : Except WalkFault Sighting) ∈ seen.map .ok ↔ x ∈ seen :=
    List.mem_map_of_injective fun _ _ => Except.ok.inj
  rw [← hok, ← h, List.mem_map]

/-- **What is kept** is what was seen at the positions that are left. -/
theorem isKept_iff (hd : d.WellFormed) (hseen : Told root d (tour nothing root d) seen)
    (hp : p ∈ tour nothing root d) (hx : p.told root d = .ok x) :
    isKept skip seen x ↔ ¬ LeftOutAt skip root d p.names := by
  have hway := ((mem_tour hd).1 hp).way
  -- a directory seen was seen at a position, and the paths compare as the names do
  have hbelow : ∀ {v y}, Way nothing root d v → v.told root d = .ok y →
      ((x.path.below? y.path).isSome ↔ v.names <+: p.names) := by
    intro v y hv hy
    rw [path_of_told hx, path_of_told hy]
    exact Path.isSome_below?_under_iff (hv.isName hd) (hway.isName hd)
  rw [isKept, List.all_eq_true, LeftOutAt, not_exists]
  constructor
  · rintro hkept v ⟨hv, hdir, hout, hprefix⟩
    have hsees : ∃ y, v.told root d = .ok y := by
      obtain ⟨dir, hturn⟩ := hdir
      exact ⟨_, by rw [Position.told, hturn]⟩
    obtain ⟨y, htold⟩ := hsees
    have hy := hseen.mem_iff.2 ⟨v, (mem_tour hd).2 hv.visited, htold⟩
    have := hkept y hy
    rw [(leavesOut_of_told htold).2 ⟨hdir, hout⟩, (hbelow hv htold).2 hprefix] at this
    cases this
  · intro hnone y hy
    obtain ⟨v, hv, htold⟩ := hseen.mem_iff.1 hy
    have hv := ((mem_tour hd).1 hv).way
    rw [Bool.not_eq_true', Bool.and_eq_false_iff]
    by_cases hleaves : y.leavesOut skip
    · obtain ⟨hdir, hout⟩ := (leavesOut_of_told htold).1 hleaves
      refine .inr (Bool.eq_false_iff.2 fun hsome => hnone v ⟨hv, hdir, hout, ?_⟩)
      exact (hbelow hv htold).1 hsome
    · exact .inl (by simpa using hleaves)

/-- **A walk that leaves directories out sees what is kept.** -/
theorem Told.pruned (hd : d.WellFormed) (hseen : Told root d (tour nothing root d) seen)
    (skip : Path → Bool) : Told root d (tour skip root d) (seen.filter (isKept skip seen)) := by
  let keep : Except WalkFault Sighting → Bool := fun told => told.toOption.any (isKept skip seen)
  have hkeep : ∀ p ∈ tour nothing root d,
      keep (p.told root d) ↔ ¬ LeftOutAt skip root d p.names := by
    intro p hp
    obtain ⟨x, -, hx⟩ := List.mem_map.1 (hseen ▸ List.mem_map_of_mem hp)
    rw [← isKept_iff hd hseen hp hx.symm, ← hx]
    rfl
  calc (tour skip root d).map (fun p => p.told root d)
      = ((tour nothing root d).filter fun p => keep (p.told root d)).map
          fun p => p.told root d := by rw [tour_eq_filter hd hkeep]
    _ = ((tour nothing root d).map fun p => p.told root d).filter keep := by
        rw [List.filter_map]
        rfl
    _ = (seen.map .ok).filter keep := by rw [hseen]
    _ = (seen.filter (isKept skip seen)).map .ok := List.filter_map

/-! ## The walk -/

/-- A pass over positions at which there is no fault tells what is seen there. -/
theorem Told.forM_doAt (h : Told root d l seen) (act : Sighting → EStateM ε σ Unit) (s : σ) :
    l.forM (doAt fail act root d) s = seen.forM act s := by
  induction l generalizing seen s with
  | nil =>
    obtain rfl : seen = [] := by simpa [Told, eq_comm] using h
    rfl
  | cons p l ih =>
    cases seen with
    | nil => simp [Told] at h
    | cons x seen =>
      simp only [Told, List.map_cons, List.cons.injEq] at h
      obtain ⟨hx, hrest⟩ := h
      have hhere : doAt fail act root d p = act x := by rw [doAt, hx]
      rw [List.forM_eq_forM, List.forM_eq_forM, List.forM_cons, List.forM_cons, hhere]
      exact bind_congr rfl fun _ s₁ _ => ih hrest s₁

/-- Conversely, a pass that succeeds comes to no fault, and notes what it is
told. -/
theorem told_of_forM_noting {s s' : σ × List Sighting}
    (hok : l.forM (doAt fail (noting act) root d) s = .ok ⟨⟩ s') :
    ∃ seen, Told root d l seen ∧ s'.2 = s.2 ++ seen := by
  induction l generalizing s with
  | nil =>
    obtain ⟨-, rfl⟩ := pure_ok hok
    exact ⟨[], rfl, by simp⟩
  | cons p l ih =>
    obtain ⟨s₁, hfirst, hrest⟩ := forM_cons_ok hok
    obtain ⟨x, hx, hact⟩ := doAt_ok hfirst
    obtain ⟨seen, hseen, hnotes⟩ := ih hrest
    refine ⟨x :: seen, ?_, ?_⟩
    · rw [Told, List.map_cons, List.map_cons, hx, hseen]
    · rw [hnotes, (noting_ok hact).2]
      simp

/-- A visitor that keeps all but the bytes of files may take notes. -/
theorem KeepsSkeleton.noting (h : KeepsSkeleton disk act skip root d inv) :
    KeepsSkeleton (fun s => disk s.1) (noting act) skip root d (fun s => inv s.1) where
  skeleton s := h.skeleton s.1
  kept p hp x hx s s' hs hok := h.kept p hp x hx s.1 s'.1 hs (noting_ok hok).1

theorem keepsSkeleton_looking : KeepsSkeleton id looking skip root d (· = d) where
  skeleton s hs := by rw [hs, id]
  kept _ _ _ _ s s' hs hok := (pure_ok hok).2.trans hs

/-- The walk of a visitor that takes notes is a pass over the tour. -/
theorem visit_noting_eq (hkeeps : KeepsSkeleton disk act skip root d inv) (hs : inv s)
    (hd : d.WellFormed) (hstat : d.stat root = .ok standing) :
    visit (fun s => disk s.1) fail skip (noting act) root (s, []) =
      (tour skip root d).forM (doAt fail (noting act) root d) (s, []) := by
  have hstart : (Contract.upholding fun s : σ × List Sighting => inv s.1).inv (s, []) := hs
  exact visit_eq_tour hd hkeeps.noting.skeleton hstart hstat fun _ hq => hkeeps.noting.keeps hq

/-- A visitor that only looks sees everything. -/
theorem forM_looking (seen notes : List Sighting) (d : Disk) :
    seen.forM (noting looking) (d, notes) = .ok ⟨⟩ (d, notes ++ seen) := by
  induction seen generalizing notes with
  | nil =>
    rw [List.append_nil]
    rfl
  | cons x seen ih =>
    rw [forM_cons_apply (noting_of_ok rfl notes), ih, List.append_assoc]
    rfl

/-- **What a walk sees** is what is found along its tour, if nothing there is
at fault. -/
theorem sights_eq_ok_iff (hd : d.WellFormed) : sights skip root d = .ok seen ↔
    (∃ standing, d.stat root = .ok standing) ∧ Told root d (tour skip root d) seen := by
  cases hstat : d.stat root with
  | error fault =>
    have hfault : sights skip root d = .error ⟨root, fault⟩ := by
      rw [sights, visit_apply, hstat]
      rfl
    simp [hfault]
  | ok standing =>
    have hlooking : KeepsSkeleton id looking skip root d (· = d) := keepsSkeleton_looking
    have hvisit : visit Prod.fst id skip (noting looking) root (d, []) =
        (tour skip root d).forM (doAt id (noting looking) root d) (d, []) :=
      visit_noting_eq hlooking rfl hd hstat
    rw [sights, hvisit]
    constructor
    · intro h
      split at h
      · rename_i s' hpass
        obtain ⟨seen', htold, hnotes⟩ := told_of_forM_noting hpass
        cases h
        obtain rfl : seen = seen' := hnotes
        exact ⟨⟨standing, rfl⟩, htold⟩
      · cases h
    · rintro ⟨-, htold⟩
      rw [htold.forM_doAt, forM_looking]
      rfl

/-- **Pruning is filtering.** If the walk that leaves nothing out comes to no
fault, then the walk that leaves directories out comes to none, and sees what
the whole walk has seen, in its order, less what is or lies by its path below
a directory strictly below the root that is left out. Links may lead anywhere:
none that was a loop ceases to be one, and none becomes one. A visitor that
leaves all but the bytes of files as it is is called along this list, up to
the end if it does not fail. -/
theorem sights_pruned (hd : d.WellFormed) (h : sights (fun _ => false) root d = .ok seen)
    (skip : Path → Bool) :
    sights skip root d = .ok (seen.filter (isKept skip seen)) ∧
    ∀ {ε σ : Type} (disk : σ → Disk) (fail : WalkFault → ε) (act : Sighting → EStateM ε σ Unit)
      (inv : σ → Prop) (s : σ), KeepsSkeleton disk act skip root d inv → inv s →
        CallsAlong act (seen.filter (isKept skip seen)) s
          (visit (fun s => disk s.1) fail skip (noting act) root (s, [])) := by
  obtain ⟨hfound, hseen⟩ := (sights_eq_ok_iff hd).1 h
  have hkept := hseen.pruned hd skip
  refine ⟨(sights_eq_ok_iff hd).2 ⟨hfound, hkept⟩, fun disk fail act inv s hkeeps hs => ?_⟩
  obtain ⟨standing, hstat⟩ := hfound
  rw [visit_noting_eq hkeeps hs hd hstat, hkept.forM_doAt]
  exact callsAlong_forM act _ s

/-- A directory that holds a file and a link back to the root, and beside it a
link that leads into it. -/
def sharedDisk : Disk :=
  windingDisk.set ["a", "b", "f"] (.file .empty)
    |>.set ["a", "c"] (.link "b")

theorem wellFormed_sharedDisk : sharedDisk.WellFormed := by
  have hfile : (windingDisk.set (["a", "b"] ++ ["f"]) (.file .empty)).WellFormed :=
    wellFormed_windingDisk.set (by decide +kernel) (by decide) (.inl (by decide +kernel))
  have hbeside : ((windingDisk.set ["a", "b", "f"] (.file .empty)).set (["a"] ++ ["c"])
      (.link "b")).WellFormed :=
    hfile.set (by decide +kernel) (by decide) (.inl (by decide +kernel))
  exact hbeside

/-- Without the directory the link that leads into it is still followed, and
what is a loop in there is one still. -/
theorem sights_pruned_shared :
    let root : Path := ⟨"/a"⟩
    let skip : Path → Bool := fun p => p.fileName? == some "b"
    let seen : List Sighting := [.entry ⟨⟨"/a"⟩, 0, true⟩, .entry ⟨⟨"/a/b"⟩, 1, true⟩,
      .entry ⟨⟨"/a/b/f"⟩, 2, false⟩, .loop ⟨"/a/b/up"⟩, .entry ⟨⟨"/a/c"⟩, 1, true⟩,
      .entry ⟨⟨"/a/c/f"⟩, 2, false⟩, .loop ⟨"/a/c/up"⟩]
    sharedDisk.WellFormed ∧ sights (fun _ => false) root sharedDisk = .ok seen ∧
      sights skip root sharedDisk = .ok [.entry ⟨⟨"/a"⟩, 0, true⟩, .entry ⟨⟨"/a/c"⟩, 1, true⟩,
        .entry ⟨⟨"/a/c/f"⟩, 2, false⟩, .loop ⟨"/a/c/up"⟩] := by
  intro root skip seen
  have hseen : sights (fun _ => false) root sharedDisk = .ok seen := by
    decide +kernel
  have hkept : seen.filter (isKept skip seen) = [.entry ⟨⟨"/a"⟩, 0, true⟩,
      .entry ⟨⟨"/a/c"⟩, 1, true⟩, .entry ⟨⟨"/a/c/f"⟩, 2, false⟩, .loop ⟨"/a/c/up"⟩] := by
    decide +kernel
  have hpruned := (sights_pruned wellFormed_sharedDisk hseen skip).1
  rw [hkept] at hpruned
  exact ⟨wellFormed_sharedDisk, hseen, hpruned⟩

end Tree

end DualPackage
