import DualPackage.Proofs.Run.Course
import DualPackage.Proofs.Tree.Copy
import DualPackage.Proofs.Tree.Effects
import DualPackage.Proofs.Tree.Listing
/-!
# The course of copies and rewritings

A rewriting looks at what lies below its root and on the way there, and a
copy at its source and its target. On disks that agree at these locations
they take the same course (`rewrite_respects`, `copy_respects`): their
walks have the same stops, and what is done at one stop is done alike.
Neither disturbs its own walk: a rewriting makes no entry, and a copy
writes apart from its source.
-/

namespace DualPackage

theorem Disk.Retouched.kindAt_eq {written : Location → Prop} {d d' : Disk}
    (h : d.Retouched written d') (l : Location) : d'.kindAt l = d.kindAt l := by
  rcases h.change l with hsame | ⟨-, ⟨old, hold⟩, new, hnew⟩
  · exact Disk.kindAt_congr hsame
  · rw [Disk.kindAt_of_file hold, Disk.kindAt_of_file hnew]

namespace Contract

open Disk

/-- Files are written over, and nothing else happens. -/
def retouching (written : Location → Prop) (cwd : Location) : Contract Disk :=
  .onSuccess (fun d => d.Sound ∧ d.cwd = cwd) (Retouched written) .refl .trans

variable {written : Location → Prop} {cwd : Location} {path : Path}

/-- Rewriting a file does no more than that. -/
theorem rewriteFile_retouches (h : written (path.place cwd)) (f : String → String) :
    ((retouching written cwd).along World.disk).Keeps (Tree.rewriteFile f path) := by
  refine Tree.rewriteFile_keeps fun d text d' ⟨hsound, hcwd⟩ hread _ hwrite => ?_
  obtain ⟨content, hfile, -⟩ := readText_eq_ok hread
  obtain ⟨loc, hstat⟩ := readFile_eq_ok_iff.1 hfile
  obtain ⟨rfl, hfile⟩ := stat_standsAt_place (.inr hsound.wellFormed) hsound.linkFree hstat
  obtain ⟨goal, -, hgrows, -⟩ := writeFile_grows hwrite
  obtain ⟨hsets, -⟩ := writeFile_sets hsound hwrite
  refine ⟨⟨hsets.sound, hgrows.cwd.trans hcwd⟩, hgrows.cwd, fun l => ?_⟩
  by_cases hl : l = path.place d.cwd
  · subst hl
    exact .inr ⟨hcwd ▸ h, ⟨content, hfile⟩, _, hsets.here⟩
  · exact .inl (hsets.elsewhere l hl)

end Contract

namespace Tree

open Disk Outcome

/-- The relation on worlds whose disks are sound and agree. -/
abbrev WorldsAlike (sees : Location → Prop) : World → World → Prop :=
  InvImage (Alike sees) World.disk

section Visit

variable {ε σ : Type} {disk : σ → Disk} {fail : WalkFault → ε} {skip : Path → Bool}
  {act : Sighting → EStateM ε σ Unit} {root : Path} {sees : Location → Prop} {R : σ → σ → Prop}
  {C : Disk → Contract σ}

/-- **Walks take the same course** where what lies below their root is seen,
if they are not disturbed and their visitor takes the same course at each
stop. -/
theorem visit_respects (halike : ∀ s t, R s t → Alike sees (disk s) (disk t))
    (hsees : Rooted sees) (hroot : root.IsPlain) (hbelow : ∀ rel, sees (root.location ++ rel))
    (hstart : ∀ s, (disk s).Sound → (C (disk s)).inv s)
    (hkinds : ∀ d, KeepsKinds disk skip root d root.location (C d).inv)
    (hkeeps : ∀ d (x : Stop), (∀ n ∈ x.names, Path.IsName n) → (C d).Keeps (act (x.sighting root)))
    (hact : ∀ x : Stop, (∀ n ∈ x.names, Path.IsName n) → Respects R (act (x.sighting root))) :
    Respects R (visit disk fail skip act root) := by
  intro s t a s' hst hok
  have hdisks := halike s t hst
  obtain ⟨standing, hstat⟩ := exists_stat_of_visit hok
  have hrootSeen : sees root.location := by simpa using hbelow []
  have hstat' : (disk t).stat root = .ok standing :=
    (hdisks.agree.stat_eq hsees hdisks.sound.linkFree hroot hrootSeen).trans hstat
  -- on either side the walk is a pass over its stops, and these are the same
  have hpass : ∀ r, (disk r).Sound → (disk r).stat root = .ok standing →
      visit disk fail skip act root r =
        (stops skip root (disk r)).forM (fun x => act (x.sighting root)) r := by
    intro r hr hstatr
    have hkindsr := hkinds (disk r)
    rw [← hroot.place_eq (disk r).cwd] at hkindsr
    exact visit_eq (hstart r hr) hkindsr hstatr fun x hx =>
      hkeeps (disk r) x (isName_of_mem_stops hr hstatr hx)
  have hstops : stops skip root (disk t) = stops skip root (disk s) := by
    refine stops_congr hdisks.sound hstat (fun _ _ => rfl) hdisks.sound' hdisks.agree.cwd hstat'
      fun names _ _ => ?_
    rw [hroot.place_eq]
    exact kindAt_congr (hdisks.agree.get? _ (hbelow names))
  rw [hpass s hdisks.sound hstat] at hok
  rw [hpass t hdisks.sound' hstat', hstops]
  exact Respects.forM (fun x hx => hact x (isName_of_mem_stops hdisks.sound hstat hx)) s t a s' hst hok

end Visit

variable {sees : Location → Prop} {root path dest : Path} {extensions : List String}
  {f : String → String} {policy : CopyPolicy} {outputs : List Path} {x : Stop}

/-! ## Rewritings -/

/-- What a rewriting keeps to that began on the disk `d`: it writes files
over. -/
def inPlace (d : Disk) : Contract (World × ℕ) :=
  ((Contract.retouching anywhere d.cwd).since d).along fun s => s.1.disk

theorem inPlace_start {s : World × ℕ} (hs : s.1.disk.Sound) : (inPlace s.1.disk).inv s :=
  ⟨⟨hs, rfl⟩, Retouched.refl s.1.disk⟩

theorem inPlace_keepsKinds {skip : Path → Bool} {d : Disk} {loc : Location} :
    KeepsKinds (fun s : World × ℕ => s.1.disk) skip root d loc (inPlace d).inv where
  sound _ hs := hs.1.1
  kinds _ hs _ _ _ := hs.2.kindAt_eq _

theorem rewriteEntry_inPlace (d : Disk) (f : String → String) (x : Sighting) :
    (inPlace d).Keeps (rewriteEntry extensions f x) :=
  rewriteEntry_keeps (C := (Contract.retouching anywhere d.cwd).since d) fun _ =>
    (Contract.rewriteFile_retouches trivial f).since d

section Rewrite

variable (hsees : Rooted sees)
include hsees

theorem rewriteFile_respects (hpath : path.IsPlain) (hloc : sees path.location) :
    Respects (WorldsAlike sees) (rewriteFile f path) := by
  intro w v a w' halike hok
  have hread := Agree.readText_eq (Alike.agree halike) hsees halike.sound.linkFree hpath hloc
  unfold rewriteFile at hok ⊢
  rw [hread]
  split at hok
  · exact (Respects.log _).bind (fun _ => .pure _) w v a w' halike hok
  · cases hok
  · rename_i text _
    have hwrite : Respects (WorldsAlike sees) ((SourceFile.mk path text).rewrite f) := by
      unfold SourceFile.rewrite
      dsimp only
      split
      · exact .pure _
      · exact (Respects.onDisk (DiskM.writeFile_respects hsees hpath hloc) _).bind fun _ => .pure _
    exact hwrite w v a w' halike hok

theorem rewriteEntry_respects (hroot : root.IsPlain) (hbelow : ∀ rel, sees (root.location ++ rel))
    (hnames : ∀ n ∈ x.names, Path.IsName n) :
    Respects (Tallied (WorldsAlike sees)) (rewriteEntry extensions f (x.sighting root)) := by
  obtain ⟨hpath, hloc⟩ := Path.isPlain_under hroot hnames
  rw [Stop.sighting, rewriteEntry]
  split
  · refine (Respects.untallied ?_).bind fun changed => ?_
    · exact rewriteFile_respects hsees hpath (hloc ▸ hbelow x.names)
    · split
      · exact .modify_tally (· + 1)
      · exact .pure _
  · exact .pure _

/-- **Rewritings take the same course** where their tree is seen. -/
theorem rewrite_respects (hroot : root.IsPlain) (hbelow : ∀ rel, sees (root.location ++ rel)) :
    Respects (WorldsAlike sees) (rewrite root extensions f) := by
  refine .tallying (visit_respects (C := inPlace) (fun s t hst => hst.1) hsees hroot hbelow
    (fun s hs => inPlace_start hs) (fun d => inPlace_keepsKinds) (fun d x _ => ?_)
    fun x hnames => ?_) 0
  · exact rewriteEntry_inPlace d f _
  · exact rewriteEntry_respects hsees hroot hbelow hnames

end Rewrite

/-! ## Copies -/

/-- What a copy keeps to that began on the disk `d`: it makes directories on
the way to its target, and everything else it does there. -/
def intoTarget (dest : Path) (d : Disk) : Contract (World × CopyCount) :=
  ((Contract.growing (fun l => l <+: dest.location ∨ dest.location <+: l)
    (fun l => dest.location <+: l) d.cwd).since d).along fun s => s.1.disk

/-- A source apart from the target is neither in it nor on the way to it. -/
theorem intoTarget_keepsKinds {skip : Path → Bool} {d : Disk} (hapart : Path.Apart root dest) :
    KeepsKinds (fun s : World × CopyCount => s.1.disk) skip root d root.location
      (intoTarget dest d).inv where
  sound _ hs := hs.1.1
  kinds s hs names _ _ := by
    have houtside : ¬ dest.location <+: root.location ++ names :=
      hapart.symm.not_prefix_append names
    refine kindAt_congr (hs.2.eq_of_untouched ?_ houtside)
    rintro (hway | hin)
    · exact hapart.not_above ((List.prefix_append _ _).trans hway)
    · exact houtside hin

theorem copyEntry_intoTarget {d : Disk} (hdest : dest.IsPlain)
    (hnames : ∀ n ∈ x.names, Path.IsName n) :
    (intoTarget dest d).Keeps (copyEntry policy dest (x.sighting policy.source)) := by
  obtain ⟨htarget, htargetLoc⟩ := Path.isPlain_join_names hdest hnames
  have hbelow : dest.location <+: (dest.join ⟨"/".intercalate x.names⟩).location :=
    htargetLoc ▸ List.prefix_append _ _
  refine Contract.Keeps.since (f := fun s : World × CopyCount => s.1.disk)
    (copyEntry_keeps fun rest hrest => ?_) d
  rw [show (x.sighting policy.source).path = policy.source.under x.names from rfl,
    Path.below?_under hnames] at hrest
  cases hrest
  refine ⟨Contract.growing_createDirAll_plain htarget fun l hl => ?_, fun source => ?_⟩
  · exact List.prefix_or_prefix_of_prefix hl hbelow
  · refine Contract.growing_copyFile ?_
    rwa [htarget.place_eq]

section Copy

variable (hsees : Rooted sees) (hsource : policy.source.IsPlain) (hdest : dest.IsPlain)
  (hsourceSeen : ∀ rel, sees (policy.source.location ++ rel))
  (hdestSeen : ∀ rel, sees (dest.location ++ rel))

theorem createDirs_respects (hsees : Rooted sees) {p : Path} (hp : p.IsPlain)
    (hloc : sees p.location) : Respects (WorldsAlike sees) (createDirs p) :=
  .onDisk (DiskM.createDirAll_respects hsees hp hloc) p

include hsees hsource hdest hsourceSeen hdestSeen

theorem copyEntry_respects (hnames : ∀ n ∈ x.names, Path.IsName n) :
    Respects (Tallied (WorldsAlike sees)) (copyEntry policy dest (x.sighting policy.source)) := by
  obtain ⟨hpath, hloc⟩ := Path.isPlain_under hsource hnames
  obtain ⟨htarget, htargetLoc⟩ := Path.isPlain_join_names hdest hnames
  simp only [Stop.sighting, copyEntry, Path.below?_under hnames]
  split
  · exact .untallied (createDirs_respects hsees htarget (htargetLoc ▸ hdestSeen x.names))
  · split
    · exact .modify_tally fun n : CopyCount => { n with excluded := n.excluded + 1 }
    · refine (Respects.untallied (.onDisk ?_ _)).bind fun _ => ?_
      · exact DiskM.copyFile_respects hsees hpath (hloc ▸ hsourceSeen x.names) htarget
          (htargetLoc ▸ hdestSeen x.names)
      · exact .modify_tally fun n : CopyCount => { n with copied := n.copied + 1 }

/-- **Copies take the same course** where their source and their target are
seen and apart. -/
theorem copy_respects (hapart : Path.Apart policy.source dest) :
    Respects (WorldsAlike sees) (copy policy dest outputs) := by
  have hdestHere : sees dest.location := by simpa using hdestSeen []
  refine (createDirs_respects hsees hdest hdestHere).bind fun _ => .tallying ?_ _
  refine visit_respects (C := intoTarget dest) (fun s t hst => hst.1) hsees hsource hsourceSeen
    (fun s hs => ⟨⟨hs, rfl⟩, .refl _⟩) (fun d => ?_) (fun d x hnames => ?_) fun x hnames => ?_
  · exact intoTarget_keepsKinds hapart
  · exact copyEntry_intoTarget hdest hnames
  · exact copyEntry_respects hsees hsource hdest hsourceSeen hdestSeen hnames

end Copy

/-- A copy that succeeds has found its source. -/
theorem source_stands_of_copy {w w' : World} {count : CopyCount} (hs : w.disk.Sound)
    (hsource : policy.source.IsPlain) (hdest : dest.IsPlain)
    (hapart : Path.Apart policy.source dest) (hok : copy policy dest outputs w = .ok count w') :
    ∃ e, w.disk.get? policy.source.location = some e := by
  obtain ⟨⟨⟩, w₁, hmade, hvisit⟩ := bind_ok hok
  have hmakes := DiskM.createDirAll_ok hs hdest (Build.onDisk_ok hmade)
  rw [← hmakes.elsewhere _ hapart.not_above]
  obtain ⟨standing, hstat⟩ := exists_stat_of_visit (Build.tallying_ok hvisit)
  have hstands := stat_standsAt hmakes.sound.linkFree hsource hstat
  cases standing with
  | dir l =>
    obtain ⟨-, hdir⟩ := hstands
    exact ⟨_, hdir⟩
  | file l content => exact ⟨_, hstands.2⟩

/-- **The output directories** do not matter to a copy whose source is apart
from them. -/
theorem copy_outputs_congr {w : World} {outputs' : List Path} (hs : w.disk.Sound)
    (hsource : policy.source.IsPlain) (hdest : dest.IsPlain)
    (hdestApart : Path.Apart policy.source dest)
    (hplain : ∀ p ∈ outputs ++ outputs', p.IsPlain)
    (hapart : ∀ p ∈ outputs ++ outputs', Path.Apart policy.source p) :
    copy policy dest outputs' w = copy policy dest outputs w := by
  refine bind_congr rfl fun _ w₁ hmade => ?_
  have hs₁ : w₁.disk.Sound := (DiskM.createDirAll_ok hs hdest (Build.onDisk_ok hmade)).sound
  obtain ⟨hplain, hplain'⟩ := List.forall_mem_append.1 hplain
  obtain ⟨hapart, hapart'⟩ := List.forall_mem_append.1 hapart
  have hskips : ∀ names, (∀ n ∈ names, Path.IsName n) →
      isPruned outputs' dest (policy.source.under names) =
        isPruned outputs dest (policy.source.under names) := by
    intro names hnames
    rw [isPruned_under hsource hdest hplain hapart hdestApart hnames,
      isPruned_under hsource hdest hplain' hapart' hdestApart hnames]
  have hvisit : visit (fun s : World × CopyCount => s.1.disk) Failure.walk (isPruned outputs' dest)
      (copyEntry policy dest) policy.source (w₁, ⟨0, 0⟩) =
        visit (fun s => s.1.disk) Failure.walk (isPruned outputs dest) (copyEntry policy dest)
          policy.source (w₁, ⟨0, 0⟩) :=
    visit_skip_congr (C := intoTarget dest w₁.disk) ⟨⟨hs₁, rfl⟩, .refl _⟩ hskips
      (fun skip => by rw [hsource.place_eq]; exact intoTarget_keepsKinds hdestApart)
      fun x hnames => copyEntry_intoTarget hdest hnames
  rw [Build.tallying, Build.tallying, hvisit]

end Tree

end DualPackage
