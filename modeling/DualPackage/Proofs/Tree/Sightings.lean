import DualPackage.Proofs.Disk.Growth
import DualPackage.Proofs.Run.Contract
import DualPackage.Tree.Copy
/-!
# What a walk meets

A walk tells its visitor only of what stands along names below its root,
with no directory on the way left out (`Met`), whatever becomes of the
disk meanwhile. So a visitor that keeps to a contract on all that it can be
told of makes the walk keep to it (`visit_keeps`). The other way round, a
walk that succeeds does tell of every file that was there when it began,
unless a directory on the way is left out (`visit_reaches`).

What a walk has told is made visible by a visitor that notes it down
(`noting`). It is the same walk: the notes do not change its course
(`visit_noting`).
-/

namespace DualPackage

namespace Sighting

/-- The path of what is met. -/
def path : Sighting → Path
  | .entry v => v.path
  | .loop path => path

/-- Whether it is a directory that is visited. -/
def isDir : Sighting → Bool
  | .entry v => v.isDir
  | .loop _ => false

end Sighting

namespace Tree

variable {ε σ : Type} {disk : σ → Disk} {fail : WalkFault → ε} {skip : Path → Bool}
  {act : Sighting → EStateM ε σ Unit} {root : Path} {names : List String} {x : Sighting}

/-- Met along names below the root of a walk that leaves directories out. -/
structure Met (skip : Path → Bool) (root : Path) (names : List String) (x : Sighting) : Prop where
  path_eq : x.path = root.under names
  entered : ∀ above, above ≠ [] → above <+: names → (above = names → x.isDir) →
    skip (root.under above) = false

/-- None of the directories above what stands along names is left out. -/
def Open (skip : Path → Bool) (root : Path) (names : List String) : Prop :=
  ∀ above, above ≠ [] → above <+: names → above ≠ names → skip (root.under above) = false

theorem Open.met (h : Open skip root names) (hpath : x.path = root.under names)
    (hfile : x.isDir = false) : Met skip root names x where
  path_eq := hpath
  entered above hne hleads hdir := by
    refine h above hne hleads fun heq => ?_
    simp [hdir heq] at hfile

theorem Open.met_dir (h : Open skip root names) (hpath : x.path = root.under names)
    (hhere : names ≠ [] → skip (root.under names) = false) : Met skip root names x where
  path_eq := hpath
  entered above hne hleads _ := by
    by_cases heq : above = names
    · exact heq ▸ hhere (heq ▸ hne)
    · exact h above hne hleads heq

theorem Met.opened (h : Met skip root names x) : Open skip root names :=
  fun above hne hleads hproper => h.entered above hne hleads fun heq => absurd heq hproper

theorem Open.concat (h : Open skip root names)
    (hhere : names ≠ [] → skip (root.under names) = false) (n : String) :
    Open skip root (names ++ [n]) := by
  intro above hne hleads hproper
  have hleads : above <+: names := (List.prefix_concat_iff.1 hleads).resolve_left hproper
  by_cases heq : above = names
  · exact heq ▸ hhere (heq ▸ hne)
  · exact h above hne hleads heq

theorem Open.of_prefix (h : Open skip root names) {above : List String} (habove : above <+: names) :
    Open skip root above := fun x hne hleads hproper =>
  h x hne (hleads.trans habove) fun heq =>
    hproper (hleads.eq_of_length_le (heq ▸ habove.length_le))

theorem open_nil : Open skip root [] :=
  fun _ hne hleads => absurd (List.prefix_nil.1 hleads) hne

/-! ## What a walk keeps to -/

section Keeps

variable {C : Contract σ} {N : String → Prop}

/-- The walk below one entry, by induction on the depth that is left. `N` is
what holds of the names in every listing. -/
theorem visitEntry_keeps
    (hlisted : ∀ s, C.inv s → ∀ dir, ∀ c ∈ (disk s).children dir, N c.1)
    (hact : ∀ names x, (∀ n ∈ names, N n) → Met skip root names x → C.Keeps (act x))
    (hnames : ∀ n ∈ names, N n) (hopen : Open skip root names)
    {bound : Nat} {above : List Location} {loc : Location} {e : Entry} :
    C.Keeps (visitEntry disk fail skip act bound above names.length (root.under names) loc e) := by
  induction bound generalizing above names loc e with
  | zero => exact .throw _
  | succ bound ih =>
    rw [visitEntry]
    refine .get_bind fun s hs => ?_
    split
    · exact .throw _
    · exact hact names _ hnames (hopen.met rfl rfl)
    · exact hact names _ hnames (hopen.met rfl rfl)
    · rename_i dir _
      split
      · exact .pure _
      · rename_i hskip
        have hhere : names ≠ [] → skip (root.under names) = false := by
          intro hne
          simpa [List.length_pos_iff.2 hne] using hskip
        refine .get_bind fun s hs => (hact names _ hnames (hopen.met_dir rfl hhere)).bind
          fun _ => .forM fun c hc => ?_
        obtain ⟨n, child⟩ := c
        have hlength : names.length + 1 = (names ++ [n]).length := by simp
        dsimp only
        rw [← Path.under_concat, hlength]
        exact ih (List.forall_mem_append.2 ⟨hnames, by simpa using hlisted s hs dir _ hc⟩)
          (hopen.concat hhere n)

/-- **What the visitor keeps to, the walk keeps to.** -/
theorem visit_keeps
    (hlisted : ∀ s, C.inv s → ∀ dir, ∀ c ∈ (disk s).children dir, N c.1)
    (hact : ∀ names x, (∀ n ∈ names, N n) → Met skip root names x → C.Keeps (act x)) :
    C.Keeps (visit disk fail skip act root) := by
  refine .get_bind fun s _ => ?_
  dsimp only
  split
  · exact .throw _
  · exact hact [] _ (by simp) (open_nil.met rfl rfl)
  · exact visitEntry_keeps hlisted hact (by simp) open_nil

end Keeps

/-! ## What a walk reaches -/

section Reaches

variable {C : Contract σ} {N : String → Prop} {P : σ → Prop} {target rest : List String}
  {loc : Location}

/-- What stands on the way to a file with `rest` still to go: a directory,
or in the end the file. -/
def OnWay : List String → Entry → Prop
  | [], e => ∃ content, e = .file content
  | _ :: _, e => e = .dir

theorem exists_onWay {d : Disk} (hd : d.WellFormed) {n : String} {content : ByteArray}
    (hfile : d.get? (loc ++ n :: rest) = some (.file content)) :
    ∃ e, (n, e) ∈ d.children loc ∧ OnWay rest e := by
  rw [List.append_cons] at hfile
  cases rest with
  | nil => exact ⟨_, hd.mem_children.2 (by simpa using hfile), content, rfl⟩
  | cons m rest =>
    exact ⟨_, hd.mem_children.2 (hd.dir_of_append (List.cons_ne_nil m rest) hfile), rfl⟩

/-- The walk below one entry on the way, by induction on the depth that is
left. -/
theorem visitEntry_reaches (hsound : ∀ s, C.inv s → (disk s).Sound)
    (hlisted : ∀ s, C.inv s → ∀ dir, ∀ c ∈ (disk s).children dir, N c.1)
    (hact : ∀ names x, (∀ n ∈ names, N n) → Met skip root names x → C.Keeps (act x))
    (hstays : ∀ s s', C.step s s' → P s → P s') (htarget : names ++ rest = target)
    (hnames : ∀ n ∈ names, N n) (hopen : Open skip root target) {s s' : σ} (hs : C.inv s)
    (hthere : ∀ s₁, C.inv s₁ → C.step s s₁ →
      ∃ content, (disk s₁).get? (loc ++ rest) = some (.file content))
    (hreach : ∀ s₁ s₂, C.inv s₁ → C.step s s₁ →
      act (.entry ⟨root.under target, target.length, false⟩) s₁ = .ok ⟨⟩ s₂ → P s₂)
    {bound : Nat} {above : List Location} {e : Entry} (hentry : OnWay rest e)
    (hok : visitEntry disk fail skip act bound above names.length (root.under names) loc e s =
      .ok ⟨⟩ s') : P s' := by
  induction bound generalizing above names rest loc e s s' with
  | zero => exact absurd hok Outcome.not_throw_ok
  | succ bound ih =>
    rw [visitEntry] at hok
    replace hok := Outcome.get_bind_ok hok
    cases rest with
    | nil =>
      obtain ⟨content, rfl⟩ := hentry
      rw [List.append_nil] at htarget
      subst htarget
      exact hreach s s' hs (C.step_refl s) hok
    | cons n rest =>
      obtain rfl : e = .dir := hentry
      have hopenHere : Open skip root names := hopen.of_prefix (htarget ▸ List.prefix_append _ _)
      have hhere : names ≠ [] → skip (root.under names) = false := fun hne =>
        hopen names hne (htarget ▸ List.prefix_append _ _) (by simp [← htarget])
      simp only [turn] at hok
      split at hok
      · rename_i hskip
        simp only [Bool.and_eq_true, decide_eq_true_eq] at hskip
        simp [hhere (List.ne_nil_of_length_pos hskip.1)] at hskip
      · replace hok := Outcome.get_bind_ok hok
        obtain ⟨⟨⟩, s₁, hdir, hloop⟩ := Outcome.bind_ok hok
        obtain ⟨hinv, hstep⟩ :=
          (hact names _ hnames (hopenHere.met_dir rfl hhere)).step hs hdir
        -- what comes next on the way is among the entries listed
        obtain ⟨content, hfile⟩ := hthere s hs (C.step_refl s)
        obtain ⟨e, hmem, hentry⟩ := exists_onWay (hsound s hs).wellFormed hfile
        have hdown : ∀ c ∈ (disk s).children loc, ∀ m ∈ names ++ [c.1], N m := fun c hc =>
          List.forall_mem_append.2 ⟨hnames, List.forall_mem_singleton.2 (hlisted s hs loc c hc)⟩
        have hlength : ∀ m : String, names.length + 1 = (names ++ [m]).length := by simp
        refine Contract.Keeps.forM_reaches (fun c hc => ?_) hstays hmem hinv ?_ hloop
        · rw [← Path.under_concat, hlength c.1]
          exact visitEntry_keeps hlisted hact (hdown c hc) (hopenHere.concat hhere c.1)
        · intro s₂ s₃ hinv₂ hstep₂ hok
          have hfrom : ∀ {s₄}, C.step s₂ s₄ → C.step s s₄ :=
            fun h => C.step_trans (C.step_trans hstep hstep₂) h
          rw [← Path.under_concat, hlength n] at hok
          refine ih (by simp [← htarget]) (hdown _ hmem) hinv₂ (fun s₄ h₄ hstep₄ => ?_)
            (fun s₄ s₅ h₄ hstep₄ => hreach s₄ s₅ h₄ (hfrom hstep₄)) hentry hok
          simpa using hthere s₄ h₄ (hfrom hstep₄)

/-- **A walk that succeeds reaches every file** that stands below its root
all along, with no directory on the way left out. What its visitor brings
about there, and nothing undoes, has come about in the end. -/
theorem visit_reaches (hsound : ∀ s, C.inv s → (disk s).Sound)
    (hlisted : ∀ s, C.inv s → ∀ dir, ∀ c ∈ (disk s).children dir, N c.1)
    (hact : ∀ names x, (∀ n ∈ names, N n) → Met skip root names x → C.Keeps (act x))
    (hstays : ∀ s s', C.step s s' → P s → P s') (hopen : Open skip root target) {s s' : σ}
    (hs : C.inv s)
    (hthere : ∀ s₁, C.inv s₁ → C.step s s₁ →
      ∃ content, (disk s₁).get? (root.place (disk s).cwd ++ target) = some (.file content))
    (hreach : ∀ s₁ s₂, C.inv s₁ → C.step s s₁ →
      act (.entry ⟨root.under target, target.length, false⟩) s₁ = .ok ⟨⟩ s₂ → P s₂)
    (hok : visit disk fail skip act root s = .ok ⟨⟩ s') : P s' := by
  replace hok := Outcome.get_bind_ok hok
  obtain ⟨content, hfile⟩ := hthere s hs (C.step_refl s)
  cases hstat : (disk s).stat root with
  | error fault =>
    rw [hstat] at hok
    exact absurd hok Outcome.not_throw_ok
  | ok standing =>
    rw [hstat] at hok
    have hstands := Disk.stat_standsAt_place (.inr (hsound s hs).wellFormed)
      (hsound s hs).linkFree hstat
    cases standing with
    | file loc c =>
      -- the root itself is a file, and nothing lies below it
      obtain ⟨rfl, hroot⟩ := hstands
      obtain rfl : target = [] := by
        by_contra hne
        have := (hsound s hs).wellFormed.dir_of_append hne hfile
        simp [hroot] at this
      exact hreach s s' hs (C.step_refl s) hok
    | dir loc =>
      obtain ⟨rfl, hroot⟩ := hstands
      have hway : OnWay target .dir := by
        cases target with
        | nil =>
          rw [List.append_nil, hroot] at hfile
          cases hfile
        | cons n target => rfl
      exact visitEntry_reaches hsound hlisted hact hstays (List.nil_append target) (by simp) hopen hs
        hthere hreach hway hok

end Reaches

/-! ## Notes -/

/-- A visitor that notes down what it is told of. -/
def noting (act : Sighting → EStateM ε σ Unit) (x : Sighting) :
    EStateM ε (σ × List Sighting) Unit := do
  modify fun s => (s.1, s.2 ++ [x])
  Build.untallied (act x)

theorem noting_ok {s s' : σ × List Sighting} (h : noting act x s = .ok ⟨⟩ s') :
    act x s.1 = .ok ⟨⟩ s'.1 ∧ s'.2 = s.2 ++ [x] := by
  obtain ⟨⟨⟩, s₁, hnote, hact⟩ := Outcome.bind_ok h
  cases hnote
  unfold Build.untallied at hact
  split at hact
  · rename_i hok
    cases hact
    exact ⟨hok, rfl⟩
  · cases hact

theorem noting_follows (x : Sighting) : Outcome.Follows (noting act x) (act x) := by
  intro s
  show Outcome.forget (Build.untallied (act x) (s.1, s.2 ++ [x])) = act x s.1
  unfold Build.untallied
  dsimp only
  cases act x s.1 <;> rfl

/-- What is noted has been met. -/
theorem visit_noting_keeps {C : Contract σ} {N : String → Prop} (disk : σ → Disk)
    (hlisted : ∀ s, C.inv s → ∀ dir, ∀ c ∈ (disk s).children dir, N c.1)
    (hact : ∀ x, C.Keeps (act x)) :
    (C.noting fun x => ∃ names, (∀ n ∈ names, N n) ∧ Met skip root names x).Keeps
      (visit (fun s => disk s.1) fail skip (noting act) root) := by
  refine visit_keeps (fun s hs => hlisted s.1 hs.1) fun names x hnames hmet s hs => ?_
  have hgood : ∀ y ∈ s.2 ++ [x], ∃ names, (∀ n ∈ names, N n) ∧ Met skip root names y :=
    List.forall_mem_append.2 ⟨hs.2, List.forall_mem_singleton.2 ⟨names, hnames, hmet⟩⟩
  have hplain := hact x s.1 hs.1
  show Contract.Holds _ s (Build.untallied (act x) (s.1, s.2 ++ [x]))
  unfold Build.untallied
  split
  all_goals
    rename_i hok
    rw [hok] at hplain
  · exact ⟨⟨hplain.1, hgood⟩, hplain.2⟩
  · exact ⟨hplain, hgood⟩

/-- A visitor that keeps an account. -/
theorem noting_keeps {ρ α : Type} {A : Account ρ α} {inv : ρ → Prop} {part : σ → ρ}
    {counts : Sighting → Option α}
    (h : ∀ s s', inv (part s) → act x s = .ok ⟨⟩ s' →
      inv (part s') ∧ A.holds (counts x).toList (part s) (part s')) :
    (A.noted inv part counts).Keeps (noting act x) := by
  intro s hs
  show Contract.Holds _ s (Build.untallied (act x) (s.1, s.2 ++ [x]))
  unfold Build.untallied
  split
  · rename_i s' hok
    obtain ⟨hinv, hholds⟩ := h _ _ hs hok
    refine ⟨hinv, [x], rfl, ?_⟩
    cases hcounts : counts x <;> simpa [hcounts] using hholds
  · trivial

theorem visitEntry_noting {bound : Nat} {above : List Location} {depth : Nat} {path : Path}
    {loc : Location} {e : Entry} :
    Outcome.Follows (visitEntry (fun s => disk s.1) fail skip (noting act) bound above depth path
      loc e) (visitEntry disk fail skip act bound above depth path loc e) := by
  induction bound generalizing above depth path loc e with
  | zero => exact .throw _
  | succ bound ih =>
    rw [visitEntry, visitEntry]
    refine .get_bind fun s => ?_
    split
    · exact .throw _
    · exact noting_follows _
    · exact noting_follows _
    · split
      · exact .pure _
      · exact .get_bind fun s => (noting_follows _).bind fun _ => .forM fun _ _ => ih

/-- **A walk goes its way** whether or not its visitor takes notes. -/
theorem visit_noting (disk : σ → Disk) (act : Sighting → EStateM ε σ Unit) :
    Outcome.Follows (visit (fun s => disk s.1) fail skip (noting act) root)
      (visit disk fail skip act root) := by
  refine .get_bind fun s => ?_
  dsimp only
  split
  · exact .throw _
  · exact noting_follows _
  · exact visitEntry_noting

end Tree

end DualPackage
