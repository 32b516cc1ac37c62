import DualPackage.Proofs.Tree.Sightings
import DualPackage.Proofs.Tree.Walk
import Mathlib.Data.List.Sort
import Mathlib.Data.List.Nodup
/-!
# A walk as a list of stops

Where the visitor leaves the directories that a walk looks at as they are,
files apart, the walk is no more than a pass over a list that can be drawn
up before it begins (`visit_eq`): the stops at everything below its root
that no directory left out is above (`mem_stops`), each of them once
(`nodup_stops`). The list depends on the names on the disk and on which of
them are directories, and on nothing else (`stops_congr`).
-/

namespace DualPackage

namespace Disk

variable {d d' : Disk} {l dir : Location} {n : String} {isDir : Bool} {e : Entry}

/-- Whether a directory stands at a location, if anything does. -/
def kindAt (d : Disk) (l : Location) : Option Bool :=
  (d.get? l).map Entry.isDir

/-- The names in a directory, each with whether it is one of a directory. -/
def listing (d : Disk) (dir : Location) : List (String × Bool) :=
  (d.children dir).map fun c => (c.1, c.2.isDir)

theorem kindAt_eq_some_iff : d.kindAt l = some isDir ↔ ∃ e, d.get? l = some e ∧ e.isDir = isDir := by
  simp [kindAt]

theorem kindAt_congr (h : d'.get? l = d.get? l) : d'.kindAt l = d.kindAt l := by
  rw [kindAt, kindAt, h]

theorem kindAt_of_dir (h : d.get? l = some .dir) : d.kindAt l = some true := by
  rw [kindAt, h]
  rfl

theorem kindAt_of_file {content : ByteArray} (h : d.get? l = some (.file content)) :
    d.kindAt l = some false := by
  rw [kindAt, h]
  rfl

theorem dir_of_kindAt (h : d.kindAt l = some true) : d.get? l = some .dir := by
  obtain ⟨e, hget, hdir⟩ := kindAt_eq_some_iff.1 h
  cases e with
  | dir => exact hget
  | file content | link goal => cases hdir

theorem file_of_kindAt (hfree : d.LinkFree) (h : d.kindAt l = some false) :
    ∃ content, d.get? l = some (.file content) := by
  obtain ⟨e, hget, hfile⟩ := kindAt_eq_some_iff.1 h
  cases e with
  | dir => cases hfile
  | file content => exact ⟨content, hget⟩
  | link goal => exact absurd hget (hfree _ _)

theorem before_append (dir a b : Location) :
    Location.before (dir ++ a) (dir ++ b) = a.before b := by
  induction dir with
  | nil => rfl
  | cons n dir ih => simp [Location.before, ih]

namespace WellFormed

theorem mem_listing (h : d.WellFormed) :
    (n, isDir) ∈ d.listing dir ↔ d.kindAt (dir ++ [n]) = some isDir := by
  rw [listing, List.mem_map, kindAt_eq_some_iff]
  constructor
  · rintro ⟨⟨m, e⟩, hmem, heq⟩
    obtain ⟨rfl, rfl⟩ : m = n ∧ e.isDir = isDir := by simpa using heq
    exact ⟨e, h.mem_children.1 hmem, rfl⟩
  · rintro ⟨e, hget, rfl⟩
    exact ⟨(n, e), h.mem_children.2 hget, rfl⟩

theorem pairwise_listing (h : d.WellFormed) (dir : Location) :
    (d.listing dir).Pairwise fun a b => a.1 < b.1 := by
  rw [listing, List.pairwise_map]
  refine h.ordered.filterMap _ ?_
  rintro ⟨l, e⟩ ⟨l', e'⟩ hbefore a ha b hb
  obtain ⟨n, hn, rfl⟩ := Option.map_eq_some_iff.1 ha
  obtain ⟨n', hn', rfl⟩ := Option.map_eq_some_iff.1 hb
  dsimp only at hbefore
  rw [Location.nameIn?_eq_some_iff.1 hn, Location.nameIn?_eq_some_iff.1 hn',
    before_append] at hbefore
  simpa [Location.before] using hbefore

/-- A listing is determined by what is listed. -/
theorem listing_congr (h : d.WellFormed) (h' : d'.WellFormed)
    (hkinds : ∀ n, Path.IsName n → d'.kindAt (dir ++ [n]) = d.kindAt (dir ++ [n])) :
    d'.listing dir = d.listing dir := by
  let r : String × Bool → String × Bool → Prop := fun a b => a.1 < b.1
  have hirrefl : Std.Irrefl r := ⟨fun a ha => lt_irrefl a.1 ha⟩
  have hantisymm : Std.Antisymm r := ⟨fun a b hab hba => absurd hba (lt_asymm hab)⟩
  have hname : ∀ {d : Disk} {n : String} {k : Bool}, d.WellFormed →
      d.kindAt (dir ++ [n]) = some k → Path.IsName n := by
    intro d n k hd hkind
    obtain ⟨e, hget, -⟩ := kindAt_eq_some_iff.1 hkind
    exact hd.isName hget
  refine (h'.pairwise_listing dir).eq_of_mem_iff (r := r) (h.pairwise_listing dir) ?_
  rintro ⟨n, k⟩
  rw [h'.mem_listing, h.mem_listing]
  constructor
  · intro hkind
    rwa [← hkinds n (hname h' hkind)]
  · intro hkind
    rwa [hkinds n (hname h hkind)]

/-- No way is longer than the disk has entries: each step of it is one. -/
theorem length_le_entries (h : d.WellFormed) (hget : d.get? l = some e) :
    l.length ≤ d.entries.length := by
  let steps := (List.range l.length).map fun i => l.take (i + 1)
  have hnodup : steps.Nodup := by
    refine List.Nodup.map_on (fun i hi j hj heq => ?_) List.nodup_range
    have hi := List.mem_range.1 hi
    have hj := List.mem_range.1 hj
    have hlength := congrArg List.length heq
    simp only [List.length_take] at hlength
    omega
  have hsubset : steps ⊆ d.entries.map Prod.fst := by
    intro step hstep
    obtain ⟨i, hi, rfl⟩ := List.mem_map.1 hstep
    have hne : l.take (i + 1) ≠ [] := by
      have := List.mem_range.1 hi
      rw [← List.length_pos_iff, List.length_take]
      omega
    obtain ⟨e', hentry⟩ : ∃ e', d.get? (l.take (i + 1)) = some e' := by
      by_cases hdrop : l.drop (i + 1) = []
      · rw [← List.take_append_drop (i + 1) l, hdrop, List.append_nil] at hget
        exact ⟨e, hget⟩
      · rw [← List.take_append_drop (i + 1) l] at hget
        exact ⟨_, h.dir_of_append hdrop hget⟩
    exact List.mem_map_of_mem ((h.get?_eq_some_iff hne).1 hentry)
  have hle := (List.subperm_of_subset hnodup hsubset).length_le
  simpa [steps] using hle

end WellFormed

end Disk

/-- A stop of a walk: the names on the way there from the root, and whether
it is at a directory. -/
structure Stop where
  names : List String
  isDir : Bool
  deriving DecidableEq, Repr

/-- What the visitor is told at a stop. -/
def Stop.sighting (root : Path) (x : Stop) : Sighting :=
  .entry ⟨root.under x.names, x.names.length, x.isDir⟩

namespace Tree

/-- The stops at what stands along `names` below the root of a walk, which
is at `loc`, and at what lies below that. The first argument bounds the
depth. -/
def stopsBelow (skip : Path → Bool) (root : Path) (d : Disk) (loc : Location) :
    Nat → List String → Bool → List Stop
  | 0, _, _ => []
  | _ + 1, names, false => [⟨names, false⟩]
  | bound + 1, names, true =>
    if 0 < names.length && skip (root.under names) then []
    else
      ⟨names, true⟩ :: (d.listing (loc ++ names)).flatMap fun c =>
        stopsBelow skip root d loc bound (names ++ [c.1]) c.2

/-- The stops of a walk. -/
def stops (skip : Path → Bool) (root : Path) (d : Disk) : List Stop :=
  match d.stat root with
  | .error _ => []
  | .ok (.file _ _) => [⟨[], false⟩]
  | .ok (.dir loc) => stopsBelow skip root d loc (depthBound d) [] true

variable {ε σ : Type} {disk : σ → Disk} {fail : WalkFault → ε} {skip : Path → Bool}
  {act : Sighting → EStateM ε σ Unit} {root : Path} {d d' : Disk} {loc : Location}
  {bound bound' depth : Nat} {names : List String} {isDir : Bool} {x : Stop} {standing : Standing}

theorem entries_lt_depthBound (d : Disk) : d.entries.length < depthBound d := by
  have hsquare : d.entries.length + 2 ≤ (d.entries.length + 2) * (d.entries.length + 2) :=
    Nat.le_mul_self _
  rw [depthBound]
  omega

/-! ## Which stops there are -/

theorem prefix_of_mem_stopsBelow (h : x ∈ stopsBelow skip root d loc bound names isDir) :
    names <+: x.names := by
  induction bound generalizing names isDir with
  | zero => simp [stopsBelow] at h
  | succ bound ih =>
    cases isDir with
    | false =>
      obtain rfl : x = ⟨names, false⟩ := by simpa [stopsBelow] using h
      exact List.prefix_refl _
    | true =>
      rw [stopsBelow] at h
      split at h
      · simp at h
      · rcases List.mem_cons.1 h with rfl | h
        · exact List.prefix_refl _
        · obtain ⟨c, -, h⟩ := List.mem_flatMap.1 h
          exact (List.prefix_append _ _).trans (ih h)

/-- A way that begins with other names ends there, or goes on with a name. -/
theorem eq_or_concat_prefix {a b : List String} (h : a <+: b) :
    b = a ∨ ∃ n, a ++ [n] <+: b := by
  obtain ⟨rest, rfl⟩ := h
  cases rest with
  | nil => exact .inl (List.append_nil a)
  | cons n rest => exact .inr ⟨n, ⟨rest, by simp⟩⟩

/-- What stands at or below some names, with no directory left out at it or in
between. -/
structure LiesOpen (skip : Path → Bool) (root : Path) (d : Disk) (loc : Location)
    (names : List String) (x : Stop) : Prop where
  within : names <+: x.names
  kind : d.kindAt (loc ++ x.names) = some x.isDir
  entered : ∀ above, above ≠ [] → names <+: above → above <+: x.names →
    (above = x.names → x.isDir) → skip (root.under above) = false

/-- Nothing lies below a file. -/
theorem liesOpen_file (hd : d.WellFormed) (hhere : d.kindAt (loc ++ names) = some false) :
    LiesOpen skip root d loc names x ↔ x = ⟨names, false⟩ := by
  constructor
  · rintro ⟨hfrom, hkind, -⟩
    rcases eq_or_concat_prefix hfrom with hsame | ⟨n, rest, hrest⟩
    · rw [hsame, hhere] at hkind
      cases x
      simp_all
    · obtain ⟨e, hget, -⟩ := Disk.kindAt_eq_some_iff.1 hkind
      rw [← hrest, List.append_assoc, ← List.append_assoc] at hget
      rw [Disk.kindAt_of_dir (hd.dir_of_append (by simp) hget)] at hhere
      cases hhere
  · rintro rfl
    refine ⟨List.prefix_refl _, hhere, fun above _ hfrom hto hdir => ?_⟩
    have hfile := hdir (hto.eq_of_length_le hfrom.length_le)
    cases hfile

/-- Nor below a directory that is left out. -/
theorem not_liesOpen_of_skip (hhere : d.kindAt (loc ++ names) = some true) (hne : names ≠ [])
    (hskip : skip (root.under names)) : ¬ LiesOpen skip root d loc names x := by
  rintro ⟨hfrom, hkind, hentered⟩
  have hdir : names = x.names → x.isDir := by
    intro hsame
    rw [← hsame, hhere] at hkind
    simpa using hkind.symm
  rw [hentered names hne (List.prefix_refl _) hfrom hdir] at hskip
  cases hskip

/-- In a directory that is entered it is the directory itself, or what lies at
or below one of those listed. -/
theorem liesOpen_dir (hd : d.WellFormed) (hhere : d.kindAt (loc ++ names) = some true)
    (henter : names ≠ [] → skip (root.under names) = false) :
    LiesOpen skip root d loc names x ↔
      x = ⟨names, true⟩ ∨ ∃ c ∈ d.listing (loc ++ names), LiesOpen skip root d loc (names ++ [c.1]) x := by
  constructor
  · rintro ⟨hfrom, hkind, hentered⟩
    rcases eq_or_concat_prefix hfrom with hsame | ⟨n, hnext⟩
    · rw [hsame, hhere] at hkind
      left
      cases x
      simp_all
    · obtain ⟨e, hget, -⟩ := Disk.kindAt_eq_some_iff.1 hkind
      obtain ⟨k, hlisted⟩ : ∃ k, d.kindAt (loc ++ names ++ [n]) = some k := by
        obtain ⟨rest, hrest⟩ := hnext
        rw [← hrest, ← List.append_assoc, ← List.append_assoc] at hget
        by_cases hempty : rest = []
        · rw [hempty, List.append_nil] at hget
          exact ⟨_, Disk.kindAt_eq_some_iff.2 ⟨e, hget, rfl⟩⟩
        · exact ⟨_, Disk.kindAt_of_dir (hd.dir_of_append hempty hget)⟩
      refine .inr ⟨_, hd.mem_listing.2 hlisted, hnext, hkind, fun above hne hdown => ?_⟩
      exact hentered above hne ((List.prefix_append _ _).trans hdown)
  · rintro (rfl | ⟨c, -, hfrom, hkind, hentered⟩)
    · refine ⟨List.prefix_refl _, hhere, fun above hne hfrom hto _ => ?_⟩
      obtain rfl : above = names := hto.eq_of_length_le hfrom.length_le
      exact henter hne
    · refine ⟨(List.prefix_append _ _).trans hfrom, hkind, fun above hne hfrom' hto hdir => ?_⟩
      -- a directory in between is the one that is entered, or at or below the child
      rcases List.prefix_or_prefix_of_prefix hfrom hto with hdown | hup
      · exact hentered above hne hdown hto hdir
      · rcases List.prefix_concat_iff.1 hup with rfl | hup
        · exact hentered _ hne (List.prefix_refl _) hto hdir
        · obtain rfl : above = names := hup.eq_of_length_le hfrom'.length_le
          exact henter hne

/-- **The stops below what stands along names**: all that lies there with no
directory left out at it or in between. -/
theorem mem_stopsBelow (hd : d.WellFormed) (hhere : d.kindAt (loc ++ names) = some isDir)
    (hbound : d.entries.length < names.length + bound) :
    x ∈ stopsBelow skip root d loc bound names isDir ↔ LiesOpen skip root d loc names x := by
  induction bound generalizing names isDir with
  | zero =>
    obtain ⟨e, hget, -⟩ := Disk.kindAt_eq_some_iff.1 hhere
    have hlength := hd.length_le_entries hget
    rw [List.length_append] at hlength
    omega
  | succ bound ih =>
    cases isDir with
    | false => rw [stopsBelow, List.mem_singleton, liesOpen_file hd hhere]
    | true =>
      rw [stopsBelow]
      split
      · rename_i hskip
        simp only [Bool.and_eq_true, decide_eq_true_eq] at hskip
        have hne : names ≠ [] := List.ne_nil_of_length_pos hskip.1
        exact iff_of_false List.not_mem_nil (not_liesOpen_of_skip hhere hne hskip.2)
      · rename_i hskip
        have henter : names ≠ [] → skip (root.under names) = false := by
          intro hne
          simpa [List.length_pos_iff.2 hne] using hskip
        rw [liesOpen_dir hd hhere henter, List.mem_cons, List.mem_flatMap]
        refine or_congr_right (exists_congr fun c => and_congr_right fun hc => ?_)
        refine ih ?_ ?_
        · rw [← List.append_assoc]
          exact hd.mem_listing.1 hc
        · rw [List.length_append, List.length_singleton]
          omega

/-- No place is stopped at twice. -/
theorem nodup_stopsBelow (hd : d.WellFormed) :
    (stopsBelow skip root d loc bound names isDir).Nodup := by
  induction bound generalizing names isDir with
  | zero => exact List.nodup_nil
  | succ bound ih =>
    cases isDir with
    | false => exact List.nodup_singleton _
    | true =>
      rw [stopsBelow]
      split
      · exact List.nodup_nil
      · refine List.nodup_cons.2 ⟨fun hmem => ?_, List.nodup_flatMap.2 ⟨fun _ _ => ih, ?_⟩⟩
        · obtain ⟨c, -, hmem⟩ := List.mem_flatMap.1 hmem
          simpa using (prefix_of_mem_stopsBelow hmem).length_le
        · -- below different names lie different places
          refine (hd.pairwise_listing (loc ++ names)).imp fun {a b} hlt => ?_
          intro x ha hb
          rcases List.prefix_or_prefix_of_prefix (prefix_of_mem_stopsBelow ha)
            (prefix_of_mem_stopsBelow hb) with h | h
          all_goals
            have heq := h.eq_of_length (by simp)
            simp only [List.append_cancel_left_eq, List.cons.injEq, and_true] at heq
            simp [heq] at hlt

variable {skip' : Path → Bool}

theorem stopsBelow_congr (hd : d.WellFormed) (hd' : d'.WellFormed)
    (hskips : ∀ names, (∀ n ∈ names, Path.IsName n) →
      skip' (root.under names) = skip (root.under names))
    (hkinds : ∀ names, (∀ n ∈ names, Path.IsName n) → Open skip root names →
      d'.kindAt (loc ++ names) = d.kindAt (loc ++ names))
    (hnames : ∀ n ∈ names, Path.IsName n) (hopen : Open skip root names)
    (hhere : d.kindAt (loc ++ names) = some isDir)
    (hbound : d.entries.length < names.length + bound)
    (hbound' : d'.entries.length < names.length + bound') :
    stopsBelow skip' root d' loc bound' names isDir = stopsBelow skip root d loc bound names isDir := by
  induction bound generalizing names isDir bound' with
  | zero =>
    obtain ⟨e, hget, -⟩ := Disk.kindAt_eq_some_iff.1 hhere
    have hlength := hd.length_le_entries hget
    rw [List.length_append] at hlength
    omega
  | succ bound ih =>
    cases bound' with
    | zero =>
      rw [← hkinds names hnames hopen] at hhere
      obtain ⟨e, hget, -⟩ := Disk.kindAt_eq_some_iff.1 hhere
      have hlength := hd'.length_le_entries hget
      rw [List.length_append] at hlength
      omega
    | succ bound' =>
      cases isDir with
      | false => rfl
      | true =>
        rw [stopsBelow, stopsBelow, hskips names hnames]
        split
        · rfl
        · rename_i hskip
          have henter : names ≠ [] → skip (root.under names) = false := by
            intro hne
            simpa [List.length_pos_iff.2 hne] using hskip
          have hdown : ∀ n, Path.IsName n → ∀ m ∈ names ++ [n], Path.IsName m := fun n hn =>
            List.forall_mem_append.2 ⟨hnames, List.forall_mem_singleton.2 hn⟩
          have hlisting : d'.listing (loc ++ names) = d.listing (loc ++ names) := by
            refine hd.listing_congr hd' fun n hn => ?_
            rw [List.append_assoc]
            exact hkinds _ (hdown n hn) (hopen.concat henter n)
          rw [hlisting]
          congr 1
          refine List.flatMap_congr fun c hc => ?_
          have hc := hd.mem_listing.1 hc
          obtain ⟨e, hget, -⟩ := Disk.kindAt_eq_some_iff.1 hc
          rw [List.append_assoc] at hc
          refine ih (hdown _ (hd.isName hget)) (hopen.concat henter _) hc ?_ ?_
          all_goals
            rw [List.length_append, List.length_singleton]
            omega

/-! ## The walk -/

/-- What is kept to while a walk goes on leaves everything that it looks at
where it is. -/
structure KeepsKinds (disk : σ → Disk) (skip : Path → Bool) (root : Path) (d : Disk)
    (loc : Location) (inv : σ → Prop) : Prop where
  sound : ∀ s, inv s → (disk s).Sound
  kinds : ∀ s, inv s → ∀ names, (∀ n ∈ names, Path.IsName n) → Open skip root names →
    (disk s).kindAt (loc ++ names) = d.kindAt (loc ++ names)

variable {C : Contract σ} {α β : Type}

theorem forM_singleton (f : α → EStateM ε σ PUnit) (a : α) : [a].forM f = f a := by
  rw [List.forM_eq_forM, List.forM_cons, List.forM_nil]
  exact bind_pure_unit

/-- Sequences that begin alike and go on alike from where that leads. -/
theorem bind_congr {y y' : EStateM ε σ α} {f f' : α → EStateM ε σ β} {s : σ} (hfirst : y s = y' s)
    (hrest : ∀ a s₁, y s = .ok a s₁ → f a s₁ = f' a s₁) : (y >>= f) s = (y' >>= f') s := by
  simp only [bind, EStateM.bind, ← hfirst]
  split
  · exact hrest _ _ ‹_›
  · rfl

/-- A loop whose rounds are loops themselves. -/
theorem forM_flatMap_eq {f : α → EStateM ε σ PUnit} {g : α → List β}
    {h : β → EStateM ε σ PUnit} {l : List α}
    (hround : ∀ a ∈ l, ∀ s, C.inv s → f a s = (g a).forM h s)
    (hkeeps : ∀ b ∈ l.flatMap g, C.Keeps (h b)) {s : σ} (hs : C.inv s) :
    l.forM f s = (l.flatMap g).forM h s := by
  induction l generalizing s with
  | nil => rfl
  | cons a l ih =>
    rw [List.flatMap_cons] at hkeeps ⊢
    obtain ⟨hfirst, hrest⟩ := List.forall_mem_append.1 hkeeps
    rw [List.forM_eq_forM, List.forM_cons, List.forM_eq_forM, List.forM_append]
    have hhere := hround a List.mem_cons_self s hs
    refine bind_congr hhere fun _ s₁ hok => ?_
    have hinv := ((Contract.Keeps.forM hfirst).step hs (hhere.symm.trans hok)).1
    exact ih (fun b hb => hround b (List.mem_cons_of_mem a hb)) hrest hinv

/-- **The walk below one entry**, by induction on the depth that is left. -/
theorem visitEntry_eq (hd : d.WellFormed) (hinv : KeepsKinds disk skip root d loc C.inv)
    {above : List Location} {e : Entry} {s : σ} (hs : C.inv s)
    (hnames : ∀ n ∈ names, Path.IsName n) (hopen : Open skip root names)
    (hlink : ∀ goal, e ≠ .link goal) (hhere : d.kindAt (loc ++ names) = some e.isDir)
    (hbound : d.entries.length < names.length + bound)
    (hact : ∀ x ∈ stopsBelow skip root d loc bound names e.isDir,
      C.Keeps (act (x.sighting root))) :
    visitEntry disk fail skip act bound above names.length (root.under names) (loc ++ names) e s =
      (stopsBelow skip root d loc bound names e.isDir).forM (fun x => act (x.sighting root)) s := by
  induction bound generalizing names above e s with
  | zero =>
    obtain ⟨e', hget, -⟩ := Disk.kindAt_eq_some_iff.1 hhere
    have hlength := hd.length_le_entries hget
    rw [List.length_append] at hlength
    omega
  | succ bound ih =>
    cases e with
    | link goal => exact absurd rfl (hlink goal)
    | file content =>
      have hone : stopsBelow skip root d loc (bound + 1) names false = [⟨names, false⟩] := rfl
      rw [Entry.isDir, hone, forM_singleton]
      rfl
    | dir =>
      rw [visitEntry]
      show (if 0 < names.length && skip (root.under names) then pure () else _ : EStateM ε σ Unit) s = _
      rw [Entry.isDir] at hact hhere ⊢
      rw [stopsBelow] at hact ⊢
      split at hact
      · rename_i hskip
        rw [if_pos hskip, if_pos hskip]
        rfl
      · rename_i hskip
        have henter : names ≠ [] → skip (root.under names) = false := by
          intro hne
          simpa [List.length_pos_iff.2 hne] using hskip
        rw [if_neg hskip, if_neg hskip]
        obtain ⟨hthis, hbelow⟩ := List.forall_mem_cons.1 hact
        have hlisting : (disk s).listing (loc ++ names) = d.listing (loc ++ names) := by
          refine hd.listing_congr (hinv.sound s hs).wellFormed fun n hn => ?_
          rw [List.append_assoc]
          exact hinv.kinds s hs _
            (List.forall_mem_append.2 ⟨hnames, List.forall_mem_singleton.2 hn⟩)
            (hopen.concat henter n)
        show (act (Stop.sighting root ⟨names, true⟩) >>= fun _ =>
            ((disk s).children (loc ++ names)).forM _) s =
          (act (Stop.sighting root ⟨names, true⟩) >>= fun _ =>
            ((d.listing (loc ++ names)).flatMap _).forM _) s
        refine bind_congr rfl fun _ s₁ hok => ?_
        have hs₁ := (hthis.step hs hok).1
        -- the names were read before the directory was visited
        rw [← hlisting, Disk.listing, List.flatMap_map] at hbelow ⊢
        refine forM_flatMap_eq (fun c hc s₂ hs₂ => ?_) hbelow hs₁
        obtain ⟨n, child⟩ := c
        have hget := (hinv.sound s hs).wellFormed.mem_children.1 hc
        have hn := (hinv.sound s hs).wellFormed.isName hget
        have hdown : ∀ m ∈ names ++ [n], Path.IsName m :=
          List.forall_mem_append.2 ⟨hnames, List.forall_mem_singleton.2 hn⟩
        have hlength : names.length + 1 = (names ++ [n]).length := by simp
        have hkind : d.kindAt (loc ++ (names ++ [n])) = some child.isDir := by
          rw [← hinv.kinds s hs _ hdown (hopen.concat henter n), ← List.append_assoc]
          exact Disk.kindAt_eq_some_iff.2 ⟨child, hget, rfl⟩
        dsimp only
        rw [← Path.under_concat, hlength, List.append_assoc]
        refine ih hs₂ hdown (hopen.concat henter n) ?_ hkind ?_ fun x hx => ?_
        · rintro goal rfl
          exact (hinv.sound s hs).linkFree _ _ hget
        · rw [← hlength]
          omega
        · exact hbelow x (List.mem_flatMap.2 ⟨(n, child), hc, hx⟩)

/-- A walk begins with what its root leads to. -/
theorem visit_apply (s : σ) : visit disk fail skip act root s =
    (match (disk s).stat root with
    | .error fault => throw (fail ⟨root, fault⟩)
    | .ok (.file _ _) => act (.entry ⟨root, 0, false⟩)
    | .ok (.dir loc) => visitEntry disk fail skip act (depthBound (disk s)) [] 0 root loc .dir :
    EStateM ε σ Unit) s := rfl

/-- A walk that succeeds has found its root. -/
theorem exists_stat_of_visit {s s' : σ} (hok : visit disk fail skip act root s = .ok ⟨⟩ s') :
    ∃ standing, (disk s).stat root = .ok standing := by
  rw [visit_apply] at hok
  cases hstat : (disk s).stat root with
  | ok standing => exact ⟨standing, rfl⟩
  | error fault =>
    rw [hstat] at hok
    exact absurd hok Outcome.not_throw_ok

/-- **A walk is a pass over its stops**, where the visitor leaves what the
walk looks at where it is. -/
theorem visit_eq {s : σ} (hs : C.inv s)
    (hinv : KeepsKinds disk skip root (disk s) (root.place (disk s).cwd) C.inv)
    (hstat : (disk s).stat root = .ok standing)
    (hact : ∀ x ∈ stops skip root (disk s), C.Keeps (act (x.sighting root))) :
    visit disk fail skip act root s =
      (stops skip root (disk s)).forM (fun x => act (x.sighting root)) s := by
  have hsound := hinv.sound s hs
  have hstands := Disk.stat_standsAt_place (.inr hsound.wellFormed) hsound.linkFree hstat
  rw [stops, hstat] at hact ⊢
  rw [visit_apply, hstat]
  cases standing with
  | file l content =>
    dsimp only
    rw [forM_singleton]
    rfl
  | dir l =>
    obtain ⟨rfl, hdir⟩ := hstands
    have hkind : (disk s).kindAt (root.place (disk s).cwd ++ []) = some Entry.dir.isDir := by
      rw [List.append_nil]
      exact Disk.kindAt_of_dir hdir
    have hbound : (disk s).entries.length < ([] : List String).length + depthBound (disk s) := by
      simpa using entries_lt_depthBound (disk s)
    have hwalk : visitEntry disk fail skip act (depthBound (disk s)) [] 0 (root.under [])
        (root.place (disk s).cwd ++ []) .dir s = _ :=
      visitEntry_eq hsound.wellFormed hinv hs (by simp) open_nil (by simp) hkind hbound hact
    rw [List.append_nil] at hwalk
    exact hwalk

section Stops

variable (hd : d.Sound) (hstat : d.stat root = .ok standing)
include hd hstat

/-- **The stops of a walk**: all that lies below its root with no directory
left out at it or in between. -/
theorem mem_stops : x ∈ stops skip root d ↔
    d.kindAt (root.place d.cwd ++ x.names) = some x.isDir ∧
      Met skip root x.names (x.sighting root) := by
  have hmet : Met skip root x.names (x.sighting root) ↔
      ∀ above, above ≠ [] → above <+: x.names → (above = x.names → x.isDir) →
        skip (root.under above) = false := ⟨Met.entered, fun h => ⟨rfl, h⟩⟩
  have hstands := Disk.stat_standsAt_place (.inr hd.wellFormed) hd.linkFree hstat
  rw [stops, hstat, hmet]
  cases standing with
  | file l content =>
    obtain ⟨-, hfile⟩ := hstands
    rw [List.mem_singleton]
    constructor
    · rintro rfl
      rw [List.append_nil]
      exact ⟨Disk.kindAt_of_file hfile, fun above hne hto =>
        absurd (List.prefix_nil.1 hto) hne⟩
    · rintro ⟨hkind, -⟩
      obtain ⟨e, hget, hdir⟩ := Disk.kindAt_eq_some_iff.1 hkind
      have hnil : x.names = [] := by
        by_contra hne
        rw [hd.wellFormed.dir_of_append hne hget] at hfile
        cases hfile
      rw [hnil, List.append_nil, Disk.kindAt_of_file hfile] at hkind
      cases x
      simp_all
  | dir l =>
    obtain ⟨rfl, hdir⟩ := hstands
    have hkind : d.kindAt (root.place d.cwd ++ []) = some true := by
      rw [List.append_nil]
      exact Disk.kindAt_of_dir hdir
    rw [mem_stopsBelow hd.wellFormed hkind (by simpa using entries_lt_depthBound d)]
    constructor
    · exact fun h => ⟨h.kind, fun above hne => h.entered above hne List.nil_prefix⟩
    · exact fun h => ⟨List.nil_prefix, h.1, fun above hne _ => h.2 above hne⟩

theorem nodup_stops : (stops skip root d).Nodup := by
  rw [stops, hstat]
  cases standing with
  | file l content => exact List.nodup_singleton _
  | dir l => exact nodup_stopsBelow hd.wellFormed

/-- The names of a stop can be spelled. -/
theorem isName_of_mem_stops (h : x ∈ stops skip root d) : ∀ n ∈ x.names, Path.IsName n := by
  obtain ⟨e, hget, -⟩ := Disk.kindAt_eq_some_iff.1 ((mem_stops hd hstat).1 h).1
  exact hd.wellFormed.isName_of_mem hget

/-- **Disks with the same directories** have the same stops, whatever their
files hold. -/
theorem stops_congr
    (hskips : ∀ names, (∀ n ∈ names, Path.IsName n) →
      skip' (root.under names) = skip (root.under names))
    (hd' : d'.Sound) (hcwd : d'.cwd = d.cwd) {standing' : Standing}
    (hstat' : d'.stat root = .ok standing')
    (hkinds : ∀ names, (∀ n ∈ names, Path.IsName n) → Open skip root names →
      d'.kindAt (root.place d.cwd ++ names) = d.kindAt (root.place d.cwd ++ names)) :
    stops skip' root d' = stops skip root d := by
  have hstands := Disk.stat_standsAt_place (.inr hd.wellFormed) hd.linkFree hstat
  have hstands' := Disk.stat_standsAt_place (.inr hd'.wellFormed) hd'.linkFree hstat'
  rw [hcwd] at hstands'
  have hroot := hkinds [] (by simp) open_nil
  rw [List.append_nil] at hroot
  rw [stops, stops, hstat, hstat']
  cases standing with
  | file l content =>
    rw [Disk.kindAt_of_file hstands.2] at hroot
    cases standing' with
    | file l' content' => rfl
    | dir l' =>
      rw [Disk.kindAt_of_dir hstands'.2] at hroot
      cases hroot
  | dir l =>
    obtain ⟨rfl, hdir⟩ := hstands
    rw [Disk.kindAt_of_dir hdir] at hroot
    cases standing' with
    | file l' content' =>
      rw [Disk.kindAt_of_file hstands'.2] at hroot
      cases hroot
    | dir l' =>
      obtain ⟨rfl, -⟩ := hstands'
      exact stopsBelow_congr hd.wellFormed hd'.wellFormed hskips hkinds (by simp) open_nil
        (by rw [List.append_nil]; exact Disk.kindAt_of_dir hdir)
        (by simpa using entries_lt_depthBound d) (by simpa using entries_lt_depthBound d')

end Stops

/-- **What is left out** only matters where a name can lead. -/
theorem visit_skip_congr {s : σ} (hs : C.inv s)
    (hskips : ∀ names, (∀ n ∈ names, Path.IsName n) →
      skip' (root.under names) = skip (root.under names))
    (hinv : ∀ skip, KeepsKinds disk skip root (disk s) (root.place (disk s).cwd) C.inv)
    (hact : ∀ x : Stop, (∀ n ∈ x.names, Path.IsName n) → C.Keeps (act (x.sighting root))) :
    visit disk fail skip' act root s = visit disk fail skip act root s := by
  have hsound := (hinv skip).sound s hs
  cases hstat : (disk s).stat root with
  | error fault =>
    rw [visit_apply, visit_apply, hstat]
  | ok standing =>
    have hpass : ∀ skip, visit disk fail skip act root s =
        (stops skip root (disk s)).forM (fun x => act (x.sighting root)) s := fun skip =>
      visit_eq hs (hinv skip) hstat fun x hx => hact x (isName_of_mem_stops hsound hstat hx)
    rw [hpass, hpass, stops_congr hsound hstat hskips hsound rfl hstat fun _ _ _ => rfl]

end Tree

end DualPackage
