import DualPackage.Proofs.Disk.Onward
import DualPackage.Proofs.Disk.Skeleton
import DualPackage.Proofs.Tree.Listing
/-!
# A walk that follows links

With links a walk may come to a directory more than once, and even on one
way: through a link to what is above its root it comes back to the root. So
the directories on a way are not distinct, and what ends a walk is that no
link on a way leads to a directory that the way is already inside of
(`Way.fresh`). The directories that links lead to are then distinct, and in
between one only goes down.

`Visited` says where a walk gets, with no bound on how far it goes. The tour
is the list of these positions in the order of the walk (`mem_tour`), so
there are finitely many of them, and a walk whose visitor leaves all but the
bytes of files as they are is a pass over its tour (`visit_tour`).
-/

namespace DualPackage

/-- Whether an entry is a link. -/
def Entry.isLink : Entry → Bool
  | .link _ => true
  | .dir | .file _ => false

namespace Tree

open Disk Outcome

/-- A directory that a way goes through, and whether it got there by a link. -/
structure Hop where
  dir : Location
  linked : Bool
  deriving DecidableEq, Repr

/-- A position of a walk: the names on the way there from the root, the
directories that the way goes through, the nearest first, and the entry
whose turn it is. -/
structure Position where
  names : List String
  hops : List Hop
  loc : Location
  entry : Entry
  deriving DecidableEq

namespace Position

variable (skip : Path → Bool) (root : Path) (d : Disk) (p : Position)

/-- The path under which the entry is met. -/
def path : Path :=
  root.under p.names

/-- The directories that the entry is inside of. -/
def above : List Location :=
  p.hops.map Hop.dir

/-- What is to be done about the entry. -/
def turn : Except WalkFault Turn :=
  Tree.turn d p.above (p.path root) p.loc p.entry

/-- Whether it would be left out, if it is a directory. -/
def leftOut : Bool :=
  0 < p.names.length && skip (p.path root)

/-- The position at an entry of the directory `dir` that is entered here. -/
def child (dir : Location) (c : String × Entry) : Position where
  names := p.names ++ [c.1]
  hops := ⟨dir, p.entry.isLink⟩ :: p.hops
  loc := dir ++ [c.1]
  entry := c.2

/-- What the visitor is told at the position, unless the walk breaks off. -/
def told : Except WalkFault Sighting :=
  match p.turn root d with
  | .error fault => .error fault
  | .ok .loop => .ok (.loop (p.path root))
  | .ok .file => .ok (.entry ⟨p.path root, p.names.length, false⟩)
  | .ok (.dir _) => .ok (.entry ⟨p.path root, p.names.length, true⟩)

/-- The directories on the way, with the one that is entered here. -/
def trail : List Hop :=
  match p.turn root d with
  | .ok (.dir dir) => ⟨dir, p.entry.isLink⟩ :: p.hops
  | _ => p.hops

/-- The position at the root. -/
def start : Standing → Position
  | .dir loc => ⟨[], [], loc, .dir⟩
  | .file loc content => ⟨[], [], loc, .file content⟩

end Position

/-- The positions that a walk can come to. -/
inductive Way (skip : Path → Bool) (root : Path) (d : Disk) : Position → Prop where
  | start {standing : Standing} : d.stat root = .ok standing → Way skip root d (.start standing)
  | down {p : Position} {dir : Location} {c : String × Entry} : Way skip root d p →
      p.turn root d = .ok (.dir dir) → p.leftOut skip root = false → c ∈ d.children dir →
      Way skip root d (p.child dir c)

/-- A walk comes to the position, and it is not at a directory left out. -/
structure Visited (skip : Path → Bool) (root : Path) (d : Disk) (p : Position) : Prop where
  way : Way skip root d p
  entered : ∀ dir, p.turn root d = .ok (.dir dir) → p.leftOut skip root = false

/-- The positions at and below a given one, in the order of a walk. The first
argument bounds the depth. -/
def tourBelow (skip : Path → Bool) (root : Path) (d : Disk) : ℕ → Position → List Position
  | 0, _ => []
  | bound + 1, p =>
    match p.turn root d with
    | .ok (.dir dir) =>
      if p.leftOut skip root then []
      else p :: (d.children dir).flatMap fun c => tourBelow skip root d bound (p.child dir c)
    | _ => [p]

/-- The positions of a walk, in order. -/
def tour (skip : Path → Bool) (root : Path) (d : Disk) : List Position :=
  match d.stat root with
  | .error _ => []
  | .ok standing => tourBelow skip root d (depthBound d) (.start standing)

variable {ε σ : Type} {disk : σ → Disk} {fail : WalkFault → ε} {skip : Path → Bool}
  {act : Sighting → EStateM ε σ Unit} {root : Path} {d : Disk} {p q : Position}
  {above : List Location} {path : Path} {loc dir : Location} {e : Entry} {bound : ℕ}
  {c : String × Entry} {standing : Standing}

/-! ## Where a walk comes to -/

theorem turn_eq_dir (h : Tree.turn d above path loc e = .ok (.dir dir)) :
    e = .dir ∧ dir = loc ∨ e.isLink ∧ d.stat path = .ok (.dir dir) ∧ dir ∉ above := by
  cases e with
  | dir =>
    cases h
    exact .inl ⟨rfl, rfl⟩
  | file content => cases h
  | link target =>
    rw [turn] at h
    split at h
    · cases h
    · cases h
    · rename_i l hstat
      split at h
      · cases h
      · rename_i hnot
        cases h
        exact .inr ⟨rfl, hstat, by simpa using hnot⟩

/-- What holds of a position of a walk. Each link leads out of the directories
above it, and the way has no more names than the links account for, each with
the names of one location, and those of the location reached. -/
structure Winds (d : Disk) (p : Position) : Prop where
  there : d.get? p.loc = some p.entry
  dirs : ∀ h ∈ p.hops, d.get? h.dir = some .dir
  fresh : p.hops.Pairwise fun near far => near.linked → near.dir ≠ far.dir
  short : p.names.length ≤
    (p.hops.filter Hop.linked).length * (d.entries.length + 1) + p.loc.length

/-- What it goes on with is a directory, which is there, and new if a link
leads to it. -/
theorem Winds.hop (hd : d.WellFormed) (h : Winds d p) (hturn : p.turn root d = .ok (.dir dir)) :
    d.get? dir = some .dir ∧ (p.entry.isLink → ∀ h ∈ p.hops, dir ≠ h.dir) := by
  rcases turn_eq_dir hturn with ⟨hentry, rfl⟩ | ⟨-, hstat, hnew⟩
  · refine ⟨hentry ▸ h.there, fun hlink => ?_⟩
    rw [hentry] at hlink
    cases hlink
  · refine ⟨dir_of_stat hd hstat, fun _ hop hhop heq => hnew ?_⟩
    exact List.mem_map.2 ⟨hop, hhop, heq.symm⟩

theorem winds_start (hd : d.WellFormed) (hstat : d.stat root = .ok standing) :
    Winds d (.start standing) := by
  cases standing with
  | dir l => exact ⟨dir_of_stat hd hstat, by simp [Position.start], .nil, by simp [Position.start]⟩
  | file l content =>
    exact ⟨get?_of_stat hstat, by simp [Position.start], .nil, by simp [Position.start]⟩

/-- **One step of a walk**: a link starts counting anew, and a directory is one
name further down. -/
theorem Winds.down (hd : d.WellFormed) (h : Winds d p) (hturn : p.turn root d = .ok (.dir dir))
    (hc : c ∈ d.children dir) : Winds d (p.child dir c) := by
  obtain ⟨hdir, hnew⟩ := h.hop hd hturn
  refine ⟨hd.mem_children.1 hc, List.forall_mem_cons.2 ⟨hdir, h.dirs⟩,
    List.pairwise_cons.2 ⟨fun hop hhop hlink => hnew hlink hop hhop, h.fresh⟩, ?_⟩
  have hshort := h.short
  have hdepth := hd.length_le_entries h.there
  simp only [Position.child, List.length_append, List.length_singleton]
  rcases turn_eq_dir hturn with ⟨hentry, rfl⟩ | ⟨hlink, -, -⟩
  · rw [List.filter_cons_of_neg (by simp [hentry, Entry.isLink])]
    omega
  · rw [List.filter_cons_of_pos (by simpa using hlink), List.length_cons, Nat.succ_mul]
    omega

/-- So it is all along a walk. -/
theorem Way.winds (hd : d.WellFormed) (h : Way skip root d p) : Winds d p := by
  induction h with
  | start hstat => exact winds_start hd hstat
  | down _ hturn _ hc ih => exact ih.down hd hturn hc

/-- Directories that links lead to on one way are distinct. -/
theorem nodup_linked {hops : List Hop}
    (h : hops.Pairwise fun near far => near.linked → near.dir ≠ far.dir) :
    ((hops.filter Hop.linked).map Hop.dir).Nodup := by
  rw [List.Nodup, List.pairwise_map, List.pairwise_filter]
  exact h.imp fun hnear hlink _ => hnear hlink

/-- There are no more directories than entries, the root directory apart. -/
theorem length_dirs_le {dirs : List Location} (hnodup : dirs.Nodup)
    (hd : d.WellFormed) (h : ∀ l ∈ dirs, d.get? l = some .dir) :
    dirs.length ≤ d.entries.length + 1 := by
  have hsubset : dirs ⊆ [] :: d.entries.map Prod.fst := by
    intro l hl
    by_cases hroot : l = []
    · exact hroot ▸ List.mem_cons_self
    · exact List.mem_cons_of_mem _ (List.mem_map_of_mem ((hd.get?_eq_some_iff hroot).1 (h l hl)))
  simpa using (List.subperm_of_subset hnodup hsubset).length_le

/-- **A walk goes no deeper** than links and locations account for. -/
theorem Way.length_lt (hd : d.WellFormed) (h : Way skip root d p) :
    p.names.length < (d.entries.length + 2) * (d.entries.length + 2) := by
  have hwinds := h.winds hd
  have hdepth := hd.length_le_entries hwinds.there
  have hlinks : (p.hops.filter Hop.linked).length ≤ d.entries.length + 1 := by
    rw [← List.length_map Hop.dir]
    refine length_dirs_le (nodup_linked hwinds.fresh) hd fun l hl => ?_
    obtain ⟨hop, hhop, rfl⟩ := List.mem_map.1 hl
    exact hwinds.dirs hop (List.mem_of_mem_filter hhop)
  have hprod := Nat.mul_le_mul_right (d.entries.length + 1) hlinks
  have hshort := hwinds.short
  calc p.names.length ≤ (d.entries.length + 1) * (d.entries.length + 1) + d.entries.length := by
        omega
    _ < (d.entries.length + 2) * (d.entries.length + 2) := by
        simp only [Nat.mul_add, Nat.add_mul]
        omega

/-- The directories on the way are new where links lead to them, the one that
is entered included. -/
theorem Way.trail_fresh (hd : d.WellFormed) (h : Way skip root d p) :
    (p.trail root d).Pairwise fun near far => near.linked → near.dir ≠ far.dir := by
  have hwinds := h.winds hd
  unfold Position.trail
  split
  · rename_i dir hturn
    exact List.pairwise_cons.2
      ⟨fun hop hhop hlink => (hwinds.hop hd hturn).2 hlink hop hhop, hwinds.fresh⟩
  · exact hwinds.fresh

/-! ## The tour -/

theorem mem_tourBelow_self (h : Visited skip root d p) :
    p ∈ tourBelow skip root d (bound + 1) p := by
  rw [tourBelow]
  split
  · rename_i dir hturn
    rw [h.entered dir hturn]
    exact List.mem_cons_self
  · exact List.mem_singleton_self p

theorem visited_of_mem_tourBelow (hq : Way skip root d q) (h : p ∈ tourBelow skip root d bound q) :
    Visited skip root d p := by
  induction bound generalizing q with
  | zero => cases h
  | succ bound ih =>
    rw [tourBelow] at h
    split at h
    · rename_i dir hturn
      split at h
      · cases h
      · rename_i hentered
        have hentered : q.leftOut skip root = false := by simpa using hentered
        rcases List.mem_cons.1 h with rfl | h
        · exact ⟨hq, fun _ _ => hentered⟩
        · obtain ⟨c, hc, h⟩ := List.mem_flatMap.1 h
          exact ih (hq.down hturn hentered hc) h
    · rename_i hturn
      obtain rfl := List.mem_singleton.1 h
      exact ⟨hq, fun dir hdir => absurd hdir (hturn dir)⟩

/-- What a walk finds in a directory of its tour is on the tour, unless the
bound is reached. -/
theorem mem_tourBelow_child (h : p ∈ tourBelow skip root d bound q)
    (hturn : p.turn root d = .ok (.dir dir)) (hc : c ∈ d.children dir)
    (hchild : Visited skip root d (p.child dir c))
    (hbound : p.names.length + 1 < q.names.length + bound) :
    p.child dir c ∈ tourBelow skip root d bound q := by
  induction bound generalizing q with
  | zero => cases h
  | succ bound ih =>
    rw [tourBelow] at h ⊢
    split at h
    · rename_i dir' hdir
      split at h
      · cases h
      · rename_i hin
        rw [if_neg hin]
        refine List.mem_cons_of_mem _ (List.mem_flatMap.2 ?_)
        rcases List.mem_cons.1 h with rfl | h
        · rw [hturn] at hdir
          cases hdir
          obtain ⟨bound, rfl⟩ : ∃ n, bound = n + 1 := ⟨bound - 1, by omega⟩
          exact ⟨c, hc, mem_tourBelow_self hchild⟩
        · obtain ⟨c', hc', h⟩ := List.mem_flatMap.1 h
          refine ⟨c', hc', ih h ?_⟩
          simp only [Position.child, List.length_append, List.length_singleton]
          omega
    · rename_i hnot
      obtain rfl := List.mem_singleton.1 h
      exact absurd hturn (hnot dir)

theorem lt_depthBound (hd : d.WellFormed) (h : Way skip root d p) :
    p.names.length < depthBound d := by
  have := h.length_lt hd
  rw [depthBound]
  omega

theorem exists_depthBound (d : Disk) : ∃ n, depthBound d = n + 1 :=
  ⟨depthBound d - 1, by simp [depthBound, pathLimit]⟩

/-- **The tour** is where the walk gets, however far that is. -/
theorem mem_tour (hd : d.WellFormed) : p ∈ tour skip root d ↔ Visited skip root d p := by
  constructor
  · intro h
    unfold tour at h
    split at h
    · cases h
    · exact visited_of_mem_tourBelow (.start ‹_›) h
  · rintro ⟨hway, hentered⟩
    induction hway with
    | start hstat =>
      rw [tour, hstat]
      obtain ⟨n, hn⟩ := exists_depthBound d
      rw [hn]
      exact mem_tourBelow_self ⟨.start hstat, hentered⟩
    | @down p dir c hway hturn hin hc ih =>
      have hp := ih fun _ _ => hin
      have hchild : Visited skip root d (p.child dir c) := ⟨hway.down hturn hin hc, hentered⟩
      unfold tour at hp ⊢
      split at hp
      · cases hp
      · refine mem_tourBelow_child hp hturn hc hchild ?_
        have hlt := lt_depthBound hd hchild.way
        rename_i standing _
        have hstart : (Position.start standing).names.length = 0 := by cases standing <;> rfl
        simp only [Position.child, List.length_append, List.length_singleton] at hlt
        omega

theorem prefix_of_mem_tourBelow (h : p ∈ tourBelow skip root d bound q) : q.names <+: p.names := by
  induction bound generalizing q with
  | zero => cases h
  | succ bound ih =>
    rw [tourBelow] at h
    split at h
    · split at h
      · cases h
      · rcases List.mem_cons.1 h with rfl | h
        · exact List.prefix_rfl
        · obtain ⟨c, -, h⟩ := List.mem_flatMap.1 h
          exact (List.prefix_append _ _).trans (ih h)
    · obtain rfl := List.mem_singleton.1 h
      exact List.prefix_rfl

/-- Ways that part are different. -/
theorem ne_of_concat_prefix {names a b : List String} {m n : String} (hne : m ≠ n)
    (ha : names ++ [m] <+: a) (hb : names ++ [n] <+: b) : a ≠ b := by
  rintro rfl
  obtain ⟨u, rfl⟩ := ha
  obtain ⟨v, hv⟩ := hb
  simp only [List.append_assoc, List.append_cancel_left_eq, List.singleton_append,
    List.cons.injEq] at hv
  exact hne hv.1.symm

theorem pairwise_tourBelow (hd : d.WellFormed) :
    (tourBelow skip root d bound q).Pairwise fun a b => a.names ≠ b.names := by
  induction bound generalizing q with
  | zero => exact .nil
  | succ bound ih =>
    rw [tourBelow]
    split
    · split
      · exact .nil
      · refine List.pairwise_cons.2 ⟨fun b hb heq => ?_, ?_⟩
        · obtain ⟨c, -, hb⟩ := List.mem_flatMap.1 hb
          have hlonger := (prefix_of_mem_tourBelow hb).length_le
          rw [← heq] at hlonger
          simp [Position.child] at hlonger
        · refine List.pairwise_flatMap.2 ⟨fun _ _ => ih, ?_⟩
          refine (hd.pairwise_children _).imp fun hne a ha b hb => ?_
          exact ne_of_concat_prefix hne (prefix_of_mem_tourBelow ha) (prefix_of_mem_tourBelow hb)
    · exact List.pairwise_singleton _ _

/-- **No path is met twice**, whatever it leads to. -/
theorem nodup_tour (hd : d.WellFormed) : ((tour skip root d).map Position.names).Nodup := by
  rw [List.Nodup, List.pairwise_map]
  unfold tour
  split
  · exact .nil
  · exact pairwise_tourBelow hd

/-! ## The walk -/

variable (fail act root d) in
/-- What a walk does at a position. -/
def doAt (p : Position) : EStateM ε σ Unit :=
  match p.told root d with
  | .error fault => throw (fail fault)
  | .ok x => act x

theorem doAt_ok {s s' : σ} (h : doAt fail act root d p s = .ok ⟨⟩ s') :
    ∃ x, p.told root d = .ok x ∧ act x s = .ok ⟨⟩ s' := by
  cases htold : p.told root d with
  | error fault =>
    rw [doAt, htold] at h
    exact absurd h not_throw_ok
  | ok x =>
    rw [doAt, htold] at h
    exact ⟨x, rfl, h⟩

/-- A visitor that leaves all but the bytes of files as it is on the disk `d`,
wherever it is called on the tour. `inv` holds of the states that its calls
lead to. -/
structure KeepsSkeleton (disk : σ → Disk) (act : Sighting → EStateM ε σ Unit)
    (skip : Path → Bool) (root : Path) (d : Disk) (inv : σ → Prop) : Prop where
  skeleton : ∀ s, inv s → (disk s).skeleton = d.skeleton
  kept : ∀ p ∈ tour skip root d, ∀ x, p.told root d = .ok x →
    ∀ s s', inv s → act x s = .ok ⟨⟩ s' → inv s'

theorem KeepsSkeleton.keeps {inv : σ → Prop} (h : KeepsSkeleton disk act skip root d inv)
    (hp : p ∈ tour skip root d) : (Contract.upholding inv).Keeps (doAt fail act root d p) :=
  .upholding fun s _ s' hs hok => by
    obtain ⟨x, htold, hact⟩ := doAt_ok hok
    exact h.kept p hp x htold s s' hs hact

theorem get_bind_apply {α : Type} (f : σ → EStateM ε σ α) (s : σ) : (get >>= f) s = f s s := rfl

/-- The bytes of a file do not matter to a walk. -/
theorem visitEntry_bare {depth : ℕ} :
    visitEntry disk fail skip act bound above depth path loc e.bare =
      visitEntry disk fail skip act bound above depth path loc e := by
  cases bound with
  | zero => rfl
  | succ bound => cases e <;> rfl

/-- Nor do they matter to a loop over what is listed. -/
theorem forM_of_bare {f : String × Entry → EStateM ε σ PUnit} {l l' : List (String × Entry)}
    (hf : ∀ n e, f (n, e.bare) = f (n, e))
    (h : l'.map (fun c => (c.1, c.2.bare)) = l.map fun c => (c.1, c.2.bare)) :
    l'.forM f = l.forM f := by
  have hbare : ∀ l : List (String × Entry), (l.map fun c => (c.1, c.2.bare)).forM f = l.forM f := by
    intro l
    rw [List.forM_eq_forM, List.forM_map]
    exact congrArg l.forM (funext fun c => hf c.1 c.2)
  rw [← hbare l', h, hbare]

variable {C : Contract σ}

variable (disk fail skip act root) in
/-- The walk at a position and below it. The first argument bounds the depth. -/
def visitAt (bound : ℕ) (p : Position) : EStateM ε σ Unit :=
  visitEntry disk fail skip act bound p.above p.names.length (p.path root) p.loc p.entry

theorem visitAt_child : visitAt disk fail skip act root bound (p.child dir c) =
    visitEntry disk fail skip act bound (dir :: p.above) (p.names.length + 1)
      ((p.path root).join ⟨c.1⟩) (dir ++ [c.1]) c.2 := by
  simp [visitAt, Position.child, Position.path, Position.above, Path.under_concat]

section Here

variable {s : σ} (hskeleton : (disk s).skeleton = d.skeleton)
include hskeleton

theorem visitAt_of_not_dir (hturn : ∀ dir, p.turn root d ≠ .ok (.dir dir)) :
    visitAt disk fail skip act root (bound + 1) p s = doAt fail act root d p s := by
  have hhere : Tree.turn (disk s) p.above (p.path root) p.loc p.entry = p.turn root d :=
    turn_of_skeleton hskeleton
  rw [visitAt, visitEntry, get_bind_apply, hhere, doAt, Position.told]
  cases hp : p.turn root d with
  | error fault => rfl
  | ok t =>
    cases t with
    | file | loop => rfl
    | dir dir => exact absurd hp (hturn dir)

theorem visitAt_leftOut (hturn : p.turn root d = .ok (.dir dir))
    (hout : p.leftOut skip root) : visitAt disk fail skip act root (bound + 1) p s = .ok ⟨⟩ s := by
  have hhere : Tree.turn (disk s) p.above (p.path root) p.loc p.entry = .ok (.dir dir) :=
    (turn_of_skeleton hskeleton).trans hturn
  rw [Position.leftOut] at hout
  rw [visitAt, visitEntry, get_bind_apply, hhere]
  dsimp only
  rw [if_pos hout]
  rfl

/-- A directory that is entered is visited, and then what was listed in it
before that. -/
theorem visitAt_entered (hturn : p.turn root d = .ok (.dir dir))
    (hin : p.leftOut skip root = false) :
    visitAt disk fail skip act root (bound + 1) p s = (doAt fail act root d p >>= fun _ =>
      (d.children dir).forM fun c => visitAt disk fail skip act root bound (p.child dir c)) s := by
  have hhere : Tree.turn (disk s) p.above (p.path root) p.loc p.entry = .ok (.dir dir) :=
    (turn_of_skeleton hskeleton).trans hturn
  have hchildren := children_of_skeleton hskeleton dir
  have hact : doAt fail act root d p = act (.entry ⟨p.path root, p.names.length, true⟩) := by
    rw [doAt, Position.told, hturn]
  rw [Position.leftOut] at hin
  simp only [visitAt_child]
  rw [visitAt, visitEntry, get_bind_apply, hhere, hact]
  dsimp only
  rw [if_neg (by simp [hin]), get_bind_apply, forM_of_bare (fun n e => visitEntry_bare) hchildren]

end Here

theorem tourBelow_entered (hturn : p.turn root d = .ok (.dir dir))
    (hin : p.leftOut skip root = false) : tourBelow skip root d (bound + 1) p =
      p :: (d.children dir).flatMap fun c => tourBelow skip root d bound (p.child dir c) := by
  rw [tourBelow, hturn]
  exact if_neg (by simp [hin])

theorem tourBelow_of_not_dir (hturn : ∀ dir, p.turn root d ≠ .ok (.dir dir)) :
    tourBelow skip root d (bound + 1) p = [p] := by
  rw [tourBelow]
  split
  · exact absurd ‹_› (hturn _)
  · rfl

/-- **The walk at one position**, by induction on the depth that is left. -/
theorem visitAt_eq (hd : d.WellFormed)
    (hskeleton : ∀ s, C.inv s → (disk s).skeleton = d.skeleton) {s : σ} (hs : C.inv s)
    (hway : Way skip root d p) (hbound : depthBound d ≤ p.names.length + bound)
    (hkeeps : ∀ q ∈ tourBelow skip root d bound p, C.Keeps (doAt fail act root d q)) :
    visitAt disk fail skip act root bound p s =
      (tourBelow skip root d bound p).forM (doAt fail act root d) s := by
  induction bound generalizing p s with
  | zero =>
    have := lt_depthBound hd hway
    omega
  | succ bound ih =>
    by_cases hdir : ∃ dir, p.turn root d = .ok (.dir dir)
    · obtain ⟨dir, hturn⟩ := hdir
      cases hin : p.leftOut skip root with
      | true =>
        rw [visitAt_leftOut (hskeleton s hs) hturn hin, tourBelow, hturn]
        dsimp only
        rw [if_pos hin]
        rfl
      | false =>
        rw [tourBelow_entered hturn hin] at hkeeps ⊢
        obtain ⟨hthis, hbelow⟩ := List.forall_mem_cons.1 hkeeps
        rw [visitAt_entered (hskeleton s hs) hturn hin]
        refine bind_congr rfl fun _ s₁ hok => ?_
        refine forM_flatMap_eq (fun c hc s₂ hs₂ => ?_) hbelow (hthis.step hs hok).1
        refine ih hs₂ (hway.down hturn hin hc) ?_ fun q hq => ?_
        · simp only [Position.child, List.length_append, List.length_singleton]
          omega
        · exact hbelow q (List.mem_flatMap.2 ⟨c, hc, hq⟩)
    · have hnot := not_exists.1 hdir
      rw [visitAt_of_not_dir (hskeleton s hs) hnot, tourBelow_of_not_dir hnot, forM_singleton]

/-- **A walk is a pass over its tour**, where the visitor leaves all but the
bytes of files as it is. -/
theorem visit_eq_tour (hd : d.WellFormed)
    (hskeleton : ∀ s, C.inv s → (disk s).skeleton = d.skeleton) {s : σ} (hs : C.inv s)
    (hstat : d.stat root = .ok standing)
    (hkeeps : ∀ q ∈ tour skip root d, C.Keeps (doAt fail act root d q)) :
    visit disk fail skip act root s = (tour skip root d).forM (doAt fail act root d) s := by
  obtain ⟨standing', hstat', hbare⟩ := stat_of_skeleton (hskeleton s hs).symm hstat
  have hbound : depthBound (disk s) = depthBound d := by
    have hkeys := congrArg List.length (keys_of_skeleton (hskeleton s hs))
    simp only [List.length_map] at hkeys
    rw [depthBound, depthBound, hkeys]
  rw [tour, hstat] at hkeeps ⊢
  rw [visit_apply, hstat', hbound]
  cases standing with
  | file l content =>
    cases standing' with
    | dir l' => cases hbare
    | file l' content' =>
      obtain ⟨n, hn⟩ := exists_depthBound d
      have hone : tourBelow skip root d (n + 1) (.start (.file l content)) =
          [.start (.file l content)] := rfl
      dsimp only
      rw [hn, hone, forM_singleton]
      rfl
  | dir l =>
    cases standing' with
    | file l' content' => cases hbare
    | dir l' =>
      obtain rfl : l' = l := by simpa [Standing.bare] using hbare
      exact visitAt_eq hd hskeleton hs (.start hstat) (by simp [Position.start]) hkeeps

/-- **Walking ends**, on every disk. A walk whose visitor leaves all but the
bytes of files as it is passes over a list: the positions that it can come to
at all, with no bound on how far it goes. On a disk of `n` entries they all
lie less than `(n + 2) * (n + 2)` names deep. Along the way to each of them,
what a followed link leads to is none of the directories above it, so no two
links on the way lead to one directory. -/
theorem visit_ends {inv : σ → Prop} {s : σ}
    (hkeeps : KeepsSkeleton disk act skip root (disk s) inv) (hs : inv s)
    (hd : (disk s).WellFormed) :
    let d := disk s
    visit disk fail skip act root s =
      (match d.stat root with
      | .error fault => .error (fail ⟨root, fault⟩) s
      | .ok _ => (tour skip root d).forM (doAt fail act root d) s) ∧
    ∀ p, (p ∈ tour skip root d ↔ Visited skip root d p) ∧
      (Visited skip root d p →
        p.names.length < (d.entries.length + 2) * (d.entries.length + 2) ∧
        (p.trail root d).Pairwise (fun near far => near.linked → near.dir ≠ far.dir) ∧
        (((p.trail root d).filter Hop.linked).map Hop.dir).Nodup) := by
  intro d
  refine ⟨?_, fun p => ⟨mem_tour hd, fun hp => ?_⟩⟩
  · cases hstat : d.stat root with
    | error fault =>
      rw [visit_apply, hstat]
      rfl
    | ok standing =>
      exact visit_eq_tour (C := .upholding inv) hd hkeeps.skeleton hs hstat fun q hq =>
        hkeeps.keeps hq
  · have hfresh := hp.way.trail_fresh hd
    exact ⟨hp.way.length_lt hd, hfresh, nodup_linked hfresh⟩

/-- A directory that holds a link to the one above it. -/
def windingDisk : Disk :=
  (Disk.mk [] []).set ["a"] .dir
    |>.set ["a", "b"] .dir
    |>.set ["a", "b", "up"] (.link "/a")

theorem wellFormed_windingDisk : windingDisk.WellFormed := by
  have hout : ((Disk.mk [] []).set ([] ++ ["a"]) .dir).WellFormed :=
    Disk.sound_blank.wellFormed.set rfl (by decide) (.inr rfl)
  have hin : (((Disk.mk [] []).set ["a"] .dir).set (["a"] ++ ["b"]) .dir).WellFormed :=
    hout.set (by decide +kernel) (by decide) (.inr rfl)
  have hlink : ((((Disk.mk [] []).set ["a"] .dir).set ["a", "b"] .dir).set (["a", "b"] ++ ["up"])
      (.link "/a")).WellFormed :=
    hin.set (by decide +kernel) (by decide) (.inl (by decide +kernel))
  exact hlink

/-- The walk from below comes through the link to its root once more, and there
the link is a loop. -/
theorem visit_ends_winding :
    let root : Path := ⟨"/a/b"⟩
    let act : Sighting → EStateM ℕ Disk Unit := fun _ => pure ⟨⟩
    let skip : Path → Bool := fun _ => false
    KeepsSkeleton id act skip root windingDisk (· = windingDisk) ∧
      windingDisk.WellFormed ∧
      visit id (fun _ => 0) skip act root windingDisk =
        (tour skip root windingDisk).forM (doAt (fun _ => 0) act root windingDisk) windingDisk ∧
      (∀ p, p ∈ tour skip root windingDisk ↔ Visited skip root windingDisk p) ∧
      (tour skip root windingDisk).map (fun p => (p.names, p.trail root windingDisk)) =
        [([], [⟨["a", "b"], false⟩]),
          (["up"], [⟨["a"], true⟩, ⟨["a", "b"], false⟩]),
          (["up", "b"], [⟨["a", "b"], false⟩, ⟨["a"], true⟩, ⟨["a", "b"], false⟩]),
          (["up", "b", "up"], [⟨["a", "b"], false⟩, ⟨["a"], true⟩, ⟨["a", "b"], false⟩])] := by
  intro root act skip
  have hkeeps : KeepsSkeleton id act skip root windingDisk (· = windingDisk) :=
    ⟨fun s hs => by rw [hs, id], fun _ _ _ _ s s' hs hok => (pure_ok hok).2.trans hs⟩
  obtain ⟨loc, hstat⟩ := (isDir_iff windingDisk root).1 (by decide +kernel)
  obtain ⟨hvisit, hmem⟩ := visit_ends (s := windingDisk) hkeeps rfl wellFormed_windingDisk
  rw [id, hstat] at hvisit
  exact ⟨hkeeps, wellFormed_windingDisk, hvisit, fun p => (hmem p).1, by decide +kernel⟩

end Tree

end DualPackage
