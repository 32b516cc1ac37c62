import DualPackage.Proofs.Disk.Linked
import DualPackage.Proofs.Tree.Sightings
/-!
# Loops that a walk reports

A path loops if it leads to a directory that a path above it leads to. A walk
reports only such paths, on the disk as it is at that time (`visit_keeps_loops`),
whatever links it goes through and whatever its visitor adds to the disk. It
knows the directories that it is in by their locations; that a path above leads
to each of them is kept while the disk grows (`Inside`).
-/

namespace DualPackage

/-- A path below `root` leads to the same directory as one above it. -/
def Disk.LoopsAt (d : Disk) (root : Path) (names : List String) : Prop :=
  ∃ front loc, front <+: names ∧ front ≠ names ∧ d.stat (root.under front) = .ok (.dir loc) ∧
    d.stat (root.under names) = .ok (.dir loc)

namespace Tree

variable {ε σ : Type} {disk : σ → Disk} {fail : WalkFault → ε} {skip : Path → Bool}
  {act : Sighting → EStateM ε σ Unit} {root : Path} {names : List String} {d d' : Disk}
  {above : List Location} {loc : Location} {entry : Entry} {n : String}
  {made written : Location → Prop}

/-- Paths above lead to the directories that a walk is in, and the path of the
entry whose turn it is leads to where it stands, if it is a directory. No more
is known below a name that no path can be given for. -/
def Inside (d : Disk) (root : Path) (names : List String) (above : List Location) (loc : Location)
    (entry : Entry) : Prop :=
  (root.under names).ZeroFree →
    (∀ l ∈ above, ∃ front, front <+: names ∧ front ≠ names ∧
      d.stat (root.under front) = .ok (.dir l)) ∧
    (entry = .dir → d.stat (root.under names) = .ok (.dir loc))

theorem Inside.grows (h : Inside d root names above loc entry) (hgrows : d.Grows made written d') :
    Inside d' root names above loc entry := by
  intro hzero
  obtain ⟨habove, hentry⟩ := h hzero
  refine ⟨fun l hl => ?_, fun hdir => hgrows.stat_dir_linked (hentry hdir)⟩
  obtain ⟨front, hleads, hproper, hstat⟩ := habove l hl
  exact ⟨front, hleads, hproper, hgrows.stat_dir_linked hstat⟩

/-- The directory that a turn leads to. -/
theorem Inside.stat_of_turn {dir : Location} (h : Inside d root names above loc entry)
    (hturn : turn d above (root.under names) loc entry = .ok (.dir dir))
    (hzero : (root.under names).ZeroFree) : d.stat (root.under names) = .ok (.dir dir) := by
  cases entry with
  | dir =>
    cases hturn
    exact (h hzero).2 rfl
  | file content => cases hturn
  | link target =>
    rw [turn] at hturn
    split at hturn
    · cases hturn
    · cases hturn
    · split at hturn
      · cases hturn
      · cases hturn
        assumption

/-- **A walk is in a directory** that its turn leads to, and then with each
entry of that directory. -/
theorem Inside.child {dir : Location} {child : Entry} (hd : d.WellFormed)
    (h : Inside d root names above loc entry)
    (hturn : turn d above (root.under names) loc entry = .ok (.dir dir))
    (hmem : (n, child) ∈ d.children dir) :
    Inside d root (names ++ [n]) (dir :: above) (dir ++ [n]) child := by
  intro hzero
  rw [Path.under_concat] at hzero ⊢
  have hget := hd.mem_children.1 hmem
  have hn : Path.IsName n := hd.isName hget
  have hhere := hzero.of_join hn
  have hstat := h.stat_of_turn hturn hhere
  refine ⟨List.forall_mem_cons.2 ⟨⟨names, List.prefix_append _ _, by simp, hstat⟩, ?_⟩, ?_⟩
  · intro l hl
    obtain ⟨front, hleads, -, hfront⟩ := (h hhere).1 l hl
    refine ⟨front, hleads.trans (List.prefix_append _ _), ?_, hfront⟩
    rintro rfl
    exact absurd hleads.length_le (by simp)
  · rintro rfl
    exact Disk.stat_join_dir hn hzero hstat hget

/-- What is reported as a loop is one. -/
theorem Inside.loopsAt (h : Inside d root names above loc entry)
    (hturn : turn d above (root.under names) loc entry = .ok .loop) : d.LoopsAt root names := by
  cases entry with
  | dir | file content => cases hturn
  | link target =>
    rw [turn] at hturn
    split at hturn
    · cases hturn
    · cases hturn
    · rename_i goal hstat
      split at hturn
      · rename_i hcontains
        obtain ⟨front, hleads, hproper, hfront⟩ :=
          (h (Disk.zeroFree_of_stat hstat)).1 goal (List.contains_iff_mem.1 hcontains)
        exact ⟨front, goal, hleads, hproper, hfront, hstat⟩
      · cases hturn

section Loops

variable {C : Contract σ} (hformed : ∀ s, C.inv s → (disk s).WellFormed)
  (hgrows : ∀ s s', C.step s s' → (disk s).Grows Disk.anywhere Disk.anywhere (disk s'))
  (hentry : ∀ v, C.Keeps (act (.entry v)))
  (hloop : ∀ s names, C.inv s → (disk s).LoopsAt root names →
    C.Holds s (act (.loop (root.under names)) s))
include hformed hgrows hentry hloop

/-- The walk below one entry, by induction on the depth that is left. -/
theorem visitEntry_keeps_loops {bound depth : ℕ} {s : σ} (hs : C.inv s)
    (hinside : Inside (disk s) root names above loc entry) :
    C.Holds s (visitEntry disk fail skip act bound above depth (root.under names) loc entry s) := by
  induction bound generalizing above depth names loc entry s with
  | zero => exact Contract.Keeps.throw _ s hs
  | succ bound ih =>
    rw [visitEntry]
    refine .get_bind ?_
    cases hturn : turn (disk s) above (root.under names) loc entry with
    | error fault => exact Contract.Keeps.throw _ s hs
    | ok turn =>
      cases turn with
      | file => exact hentry _ s hs
      | loop => exact hloop s names hs (hinside.loopsAt hturn)
      | dir dir =>
        dsimp only
        split
        · exact Contract.Keeps.pure _ s hs
        · -- what is known of the entries listed stays known while the disk grows
          let P : σ → Prop := fun s₁ => ∀ c ∈ (disk s).children dir,
            Inside (disk s₁) root (names ++ [c.1]) (dir :: above) (dir ++ [c.1]) c.2
          have hlisted : P s := fun c hc => hinside.child (hformed s hs) hturn hc
          have hstays : ∀ s₁ s₂, C.step s₁ s₂ → P s₁ → P s₂ := fun s₁ s₂ hstep h c hc =>
            (h c hc).grows (hgrows s₁ s₂ hstep)
          have hhere : (C.given P).Keeps (act (.entry ⟨root.under names, depth, true⟩)) :=
            fun s₁ h => (hentry _ s₁ h.1).given fun s₂ hstep => hstays s₁ s₂ hstep h.2
          have hbelow : (C.given P).Keeps (((disk s).children dir).forM fun c =>
              visitEntry disk fail skip act bound (dir :: above) (depth + 1)
                ((root.under names).join ⟨c.1⟩) (dir ++ [c.1]) c.2) := by
            refine .forM fun c hc s₁ h => ?_
            rw [← Path.under_concat]
            exact (ih h.1 (h.2 c hc)).given fun s₂ hstep => hstays s₁ s₂ hstep h.2
          exact (hhere.bind (fun _ => hbelow) s ⟨hs, hlisted⟩).of_given

/-- **A walk reports loops only**, on the disk as it is then: it keeps to what
its visitor keeps to of entries, and of paths that loop. -/
theorem visit_keeps_loops : C.Keeps (visit disk fail skip act root) := by
  intro s hs
  refine .get_bind ?_
  cases hstat : (disk s).stat root with
  | error fault => exact Contract.Keeps.throw _ s hs
  | ok standing =>
    cases standing with
    | file loc content => exact hentry _ s hs
    | dir loc =>
      have hinside : Inside (disk s) root [] [] loc .dir :=
        fun _ => ⟨List.forall_mem_nil _, fun _ => hstat⟩
      exact visitEntry_keeps_loops hformed hgrows hentry hloop hs hinside

end Loops

end Tree

end DualPackage
