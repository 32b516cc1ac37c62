import DualPackage.Proofs.Tree.Copy
import DualPackage.Proofs.Tree.Effects
import DualPackage.Proofs.Tree.Listing
import Mathlib.Data.Set.Card
/-!
# A copy mirrors its source

The target of a copy may lie inside its source, and then the walk goes
over a tree that the copy is writing to. It is not led astray: the target
is left out of the walk, so that what is looked at and what is written
have no location in common but the target itself. So every file that is
not excluded and not below a directory left out ends up in the target with
the bytes it had, every directory that is entered has its counterpart
there, and nothing else is changed (`copy_mirrored`). The counts are the
numbers of the files copied and of those excluded.

All of this is told from the disk on which the target has just been made,
with those of the directories above it that were missing.
-/

namespace DualPackage

namespace Tree

section Sources

variable (policy : CopyPolicy) (dest : Path) (outputs : List Path) (d : Disk)

/-- A file of the source with no directory left out on its way. -/
def FileInReach (rel : List String) : Prop :=
  (∃ content, d.get? (policy.source.location ++ rel) = some (.file content)) ∧
    Open (isPruned outputs dest) policy.source rel

/-- A file that is copied. -/
def IsCopied (rel : List String) : Prop :=
  FileInReach policy dest outputs d rel ∧ policy.excludes (policy.source.under rel) = false

/-- A file that is counted and not copied. -/
def IsExcluded (rel : List String) : Prop :=
  FileInReach policy dest outputs d rel ∧ policy.excludes (policy.source.under rel) = true

/-- A directory that is entered: the source itself, or one that is neither
left out nor below one that is. -/
def IsEntered (rel : List String) : Prop :=
  d.get? (policy.source.location ++ rel) = some .dir ∧
    Open (isPruned outputs dest) policy.source rel ∧
    (rel ≠ [] → isPruned outputs dest (policy.source.under rel) = false)

/-- What a copy makes of the disk `d`, on which its target is there, and what
it counts. -/
structure Mirrored (d' : Disk) (count : CopyCount) : Prop where
  /-- A file that is copied has its bytes in the target. -/
  files : ∀ rel content, IsCopied policy dest outputs d rel →
    d.get? (policy.source.location ++ rel) = some (.file content) →
      d'.get? (dest.location ++ rel) = some (.file content)
  /-- A directory that is entered has its counterpart there. -/
  dirs : ∀ rel, IsEntered policy dest outputs d rel → d'.get? (dest.location ++ rel) = some .dir
  /-- Everywhere else all is as it was. -/
  elsewhere : ∀ l, (∀ rel, l = dest.location ++ rel →
    ¬ IsCopied policy dest outputs d rel ∧ ¬ IsEntered policy dest outputs d rel) →
      d'.get? l = d.get? l
  copied : {rel | IsCopied policy dest outputs d rel}.encard = count.copied
  excluded : {rel | IsExcluded policy dest outputs d rel}.encard = count.excluded

end Sources

variable {policy : CopyPolicy} {dest : Path} {outputs : List Path} {d e e' : Disk} {w w' : World}
  {count : CopyCount} {x : Stop} {rel : List String} {content : ByteArray}

/-! ## What the copy looks at and what it writes -/

/-- Where a copy may make directories: on the way to the target, and at the
counterparts of those it enters. -/
def MayMake (policy : CopyPolicy) (dest : Path) (outputs : List Path) (d : Disk) (l : Location) :
    Prop :=
  l <+: dest.location ∨ ∃ rel, l = dest.location ++ rel ∧ IsEntered policy dest outputs d rel

/-- Where it may write files: at the counterparts of those it copies. -/
def MayWrite (policy : CopyPolicy) (dest : Path) (outputs : List Path) (d : Disk) (l : Location) :
    Prop :=
  ∃ rel, l = dest.location ++ rel ∧ IsCopied policy dest outputs d rel

/-- The disk in the middle of a copy that began on `d`, and how it goes on:
no directory is lost, and no file that has been brought over. -/
def mirroring (policy : CopyPolicy) (dest : Path) (outputs : List Path) (d : Disk) :
    Contract Disk :=
  .onSuccess
    (fun e => e.Sound ∧ e.cwd = d.cwd ∧
      d.Grows (MayMake policy dest outputs d) (MayWrite policy dest outputs d) e)
    (fun e e' => (∀ l, e.get? l = some .dir → e'.get? l = some .dir) ∧
      ∀ rel content, d.get? (policy.source.location ++ rel) = some (.file content) →
        e.get? (dest.location ++ rel) = some (.file content) →
        e'.get? (dest.location ++ rel) = some (.file content))
    (fun _ => ⟨fun _ => id, fun _ _ _ => id⟩)
    (fun h h' => ⟨fun l hl => h'.1 l (h.1 l hl),
      fun rel content hfile hl => h'.2 rel content hfile (h.2 rel content hfile hl)⟩)

section Stops

variable (hsource : policy.source.IsPlain) (hd : d.Sound) {standing : Standing}
  (hstat : d.stat policy.source = .ok standing)
include hsource hd hstat

theorem isEntered_of_mem_stops (hx : x ∈ stops (isPruned outputs dest) policy.source d)
    {above : List String} (habove : above <+: x.names) (hdir : above = x.names → x.isDir) :
    IsEntered policy dest outputs d above := by
  obtain ⟨hkind, hmet⟩ := (mem_stops hd hstat).1 hx
  rw [hsource.place_eq] at hkind
  obtain ⟨entry, hget, -⟩ := Disk.kindAt_eq_some_iff.1 hkind
  refine ⟨?_, hmet.opened.of_prefix habove, fun hne => hmet.entered above hne habove hdir⟩
  by_cases heq : above = x.names
  · rw [heq]
    rw [hdir heq] at hkind
    exact Disk.dir_of_kindAt hkind
  · obtain ⟨rest, hrest⟩ := habove
    have hne : rest ≠ [] := by
      rintro rfl
      exact heq (by simpa using hrest)
    rw [← hrest, ← List.append_assoc] at hget
    exact hd.wellFormed.dir_of_append hne hget

theorem fileInReach_iff : FileInReach policy dest outputs d rel ↔
    ⟨rel, false⟩ ∈ stops (isPruned outputs dest) policy.source d := by
  rw [mem_stops hd hstat, hsource.place_eq]
  constructor
  · rintro ⟨⟨content, hfile⟩, hopen⟩
    exact ⟨Disk.kindAt_of_file hfile, hopen.met rfl rfl⟩
  · rintro ⟨hkind, hmet⟩
    exact ⟨Disk.file_of_kindAt hd.linkFree hkind, hmet.opened⟩

theorem isEntered_iff : IsEntered policy dest outputs d rel ↔
    ⟨rel, true⟩ ∈ stops (isPruned outputs dest) policy.source d := by
  constructor
  · rintro ⟨hdir, hopen, hhere⟩
    rw [mem_stops hd hstat, hsource.place_eq]
    exact ⟨Disk.kindAt_of_dir hdir, hopen.met_dir rfl hhere⟩
  · intro hx
    exact isEntered_of_mem_stops hsource hd hstat hx (List.prefix_refl _) fun _ => rfl

end Stops

/-! ## One stop -/

/-- A part of a copy makes directories and writes files where it may. What
is left to be seen is that it keeps the files that have been brought over. -/
theorem mirroring_keeps {part : DiskM Unit}
    (hgrows : (Contract.growing (MayMake policy dest outputs d) (MayWrite policy dest outputs d)
      d.cwd).Keeps part)
    (hfiles : ∀ e e', (mirroring policy dest outputs d).inv e → part e = .ok ⟨⟩ e' →
      ∀ rel content, d.get? (policy.source.location ++ rel) = some (.file content) →
        e.get? (dest.location ++ rel) = some (.file content) →
        e'.get? (dest.location ++ rel) = some (.file content)) :
    (mirroring policy dest outputs d).Keeps part := by
  intro e he
  have hpart := hgrows e ⟨he.1, he.2.1⟩
  cases hok : part e with
  | error fault e' => trivial
  | ok u e' =>
    rw [hok] at hpart
    obtain ⟨⟨hsound, hcwd⟩, hstep⟩ := hpart
    exact ⟨⟨hsound, hcwd, he.2.2.trans hstep⟩, fun l hl => hstep.dir hl, hfiles e e' he hok⟩

section Copying

variable (hsource : policy.source.IsPlain) (hdest : dest.IsPlain)

/-- A directory that is entered gets its counterpart. Those above it have
theirs already, or get it now. -/
theorem createDirAll_mirroring (hdest : dest.IsPlain) (hnames : ∀ n ∈ rel, Path.IsName n)
    (habove : ∀ above, above <+: rel → IsEntered policy dest outputs d above) :
    (mirroring policy dest outputs d).Keeps
      (DiskM.createDirAll (dest.join ⟨"/".intercalate rel⟩)) := by
  obtain ⟨htarget, htargetLoc⟩ := Path.isPlain_join_names hdest hnames
  refine mirroring_keeps (Contract.growing_createDirAll_plain htarget fun l hl => ?_)
    fun e e' he hok rel content _ hfile => ?_
  · rw [htargetLoc] at hl
    rcases List.prefix_or_prefix_of_prefix hl (List.prefix_append dest.location rel) with
      hup | ⟨y, rfl⟩
    · exact .inl hup
    · exact .inr ⟨y, rfl, habove y ((List.prefix_append_right_inj _).1 hl)⟩
  · have hmakes := DiskM.createDirAll_ok he.1 htarget hok
    rw [← Disk.fileAt_eq_some_iff] at hfile ⊢
    rw [hmakes.fileAt_eq, hfile]

variable (hinto : ¬ dest.location <+: policy.source.location)
  (hway : ∀ l, l <+: dest.location → d.get? l = some .dir)
include hsource hdest hinto hway

/-- **What the copy looks at stays as it was**: below the target nothing is
looked at, and the target itself is a directory all along. -/
theorem source_unchanged (he : (mirroring policy dest outputs d).inv e)
    (hnames : ∀ n ∈ rel, Path.IsName n) (hopen : Open (isPruned outputs dest) policy.source rel) :
    e.get? (policy.source.location ++ rel) = d.get? (policy.source.location ++ rel) := by
  obtain ⟨-, -, hgrows⟩ := he
  by_cases hbelow : dest.location <+: policy.source.location ++ rel
  · -- the target is inside the source, and a walk that went on from there would enter it
    rcases List.prefix_or_prefix_of_prefix hbelow (List.prefix_append policy.source.location rel) with
      habove | ⟨x, hx⟩
    · exact absurd habove hinto
    · rw [← hx, List.prefix_append_right_inj] at hbelow
      have hne : x ≠ [] := by
        rintro rfl
        rw [List.append_nil] at hx
        exact hinto (hx ▸ List.prefix_refl _)
      obtain ⟨hplain, hloc⟩ := Path.isPlain_under hsource fun n hn =>
        hnames n (hbelow.subset hn)
      have hpruned : isPruned outputs dest (policy.source.under x) = true := by
        have hsame : dest.same (policy.source.under x) := by
          rw [hdest.same_iff hplain, hloc, hx]
        simp [isPruned, hsame]
      have hend : x = rel := by
        by_contra hproper
        rw [hopen x hne hbelow hproper] at hpruned
        cases hpruned
      rw [← hend, hx, hway _ (List.prefix_refl _)]
      exact hgrows.dir (hway _ (List.prefix_refl _))
  · by_cases hwayTo : policy.source.location ++ rel <+: dest.location
    · rw [hway _ hwayTo]
      exact hgrows.dir (hway _ hwayTo)
    · refine hgrows.eq_of_untouched ?_ ?_
      · rintro (hleads | ⟨y, hy, -⟩)
        · exact hwayTo hleads
        · exact hbelow (hy ▸ List.prefix_append _ _)
      · rintro ⟨y, hy, -⟩
        exact hbelow (hy ▸ List.prefix_append _ _)

/-- A file that is copied has the bytes that it had to begin with. -/
theorem copyFile_brings (he : (mirroring policy dest outputs d).inv e)
    (hnames : ∀ n ∈ rel, Path.IsName n) (hopen : Open (isPruned outputs dest) policy.source rel)
    (hok : e.copyFile (policy.source.under rel) (dest.join ⟨"/".intercalate rel⟩) = .ok e') :
    ∃ content, d.get? (policy.source.location ++ rel) = some (.file content) ∧
      e.Sets (dest.location ++ rel) (.file content) e' := by
  obtain ⟨hpath, hloc⟩ := Path.isPlain_under hsource hnames
  obtain ⟨htarget, htargetLoc⟩ := Path.isPlain_join_names hdest hnames
  have hne : (policy.source.under rel).location ≠ (dest.join ⟨"/".intercalate rel⟩).location := by
    rw [hloc, htargetLoc]
    intro heq
    exact hinto (List.append_cancel_right heq ▸ List.prefix_refl _)
  obtain ⟨content, hfile, hsets, -⟩ := Disk.copyFile_ok he.1 hpath htarget hne hok
  rw [hloc, source_unchanged hsource hdest hinto hway he hnames hopen] at hfile
  exact ⟨content, hfile, htargetLoc ▸ hsets⟩

theorem copyFile_mirroring (hnames : ∀ n ∈ rel, Path.IsName n)
    (hcopied : IsCopied policy dest outputs d rel) :
    (mirroring policy dest outputs d).Keeps (DiskM.update
      (·.copyFile (policy.source.under rel) (dest.join ⟨"/".intercalate rel⟩))) := by
  obtain ⟨htarget, htargetLoc⟩ := Path.isPlain_join_names hdest hnames
  refine mirroring_keeps (Contract.growing_copyFile ?_).update
    fun e e' he hok rel' content hfile hhere => ?_
  · rw [htarget.place_eq, htargetLoc]
    exact ⟨rel, rfl, hcopied⟩
  · have hcopy : e.copyFile (policy.source.under rel) (dest.join ⟨"/".intercalate rel⟩) = .ok e' := by
      unfold DiskM.update at hok
      split at hok
      · rename_i e₁ hcopy
        obtain rfl : e₁ = e' := by simpa using hok
        exact hcopy
      · cases hok
    obtain ⟨c, hc, hsets⟩ :=
      copyFile_brings hsource hdest hinto hway he hnames hcopied.1.2 hcopy
    by_cases hrel : rel' = rel
    · subst hrel
      rw [hsets.here, ← hc, hfile]
    · rw [hsets.elsewhere _ (by simpa using hrel), hhere]

/-- A file that is copied is there once its turn is over. -/
theorem copyEntry_of_isCopied {s s' : World × CopyCount}
    (hs : (mirroring policy dest outputs d).inv s.1.disk) (hnames : ∀ n ∈ rel, Path.IsName n)
    (hcopied : IsCopied policy dest outputs d rel)
    (hfile : d.get? (policy.source.location ++ rel) = some (.file content))
    (hok : copyEntry policy dest (Stop.sighting policy.source ⟨rel, false⟩) s = .ok ⟨⟩ s') :
    s'.1.disk.get? (dest.location ++ rel) = some (.file content) := by
  simp only [Stop.sighting, copyEntry, Path.below?_under hnames, hcopied.2, Bool.false_eq_true,
    if_false] at hok
  obtain ⟨⟨⟩, s₁, hcopy, hcount⟩ := Outcome.bind_ok hok
  cases hcount
  obtain ⟨c, hc, hsets⟩ := copyFile_brings hsource hdest hinto hway hs hnames hcopied.1.2
    (Build.update_ok (Build.untallied_ok hcopy))
  rw [hsets.here, ← hc, hfile]

omit hsource hinto hway in
/-- And so is the counterpart of a directory that is entered. -/
theorem copyEntry_of_isDir {s s' : World × CopyCount} (hs : s.1.disk.Sound)
    (hnames : ∀ n ∈ rel, Path.IsName n)
    (hok : copyEntry policy dest (Stop.sighting policy.source ⟨rel, true⟩) s = .ok ⟨⟩ s') :
    s'.1.disk.get? (dest.location ++ rel) = some .dir := by
  simp only [Stop.sighting, copyEntry, Path.below?_under hnames, if_true] at hok
  obtain ⟨htarget, htargetLoc⟩ := Path.isPlain_join_names hdest hnames
  have hmade := createDirs_ok hs htarget (Build.untallied_ok hok)
  rw [← htargetLoc]
  exact hmade.onWay _ (List.prefix_refl _)

theorem mirroring_keepsKinds : KeepsKinds (fun s : World × CopyCount => s.1.disk)
    (isPruned outputs dest) policy.source d (policy.source.place d.cwd)
    (((mirroring policy dest outputs d).along World.disk).along Prod.fst).inv where
  sound _ hs := hs.1
  kinds s hs rel hnames hopen := by
    rw [hsource.place_eq]
    exact Disk.kindAt_congr (source_unchanged hsource hdest hinto hway hs hnames hopen)

variable (hd : d.Sound) {standing : Standing} (hstat : d.stat policy.source = .ok standing)
include hd hstat

/-- **One stop of a copy.** -/
theorem copyEntry_mirroring (hx : x ∈ stops (isPruned outputs dest) policy.source d) :
    (((mirroring policy dest outputs d).along World.disk).along Prod.fst).Keeps
      (copyEntry policy dest (x.sighting policy.source)) := by
  have hnames := isName_of_mem_stops hd hstat hx
  simp only [Stop.sighting, copyEntry, Path.below?_under hnames]
  split
  · rename_i hdir
    refine .untallied (createDirs_keeps ?_)
    exact createDirAll_mirroring hdest hnames fun above habove =>
      isEntered_of_mem_stops hsource hd hstat hx habove fun _ => hdir
  · rename_i hfile
    split
    · exact .modify_tally fun n => { n with excluded := n.excluded + 1 }
    · rename_i hincluded
      have hcopied : IsCopied policy dest outputs d x.names := by
        refine ⟨(fileInReach_iff hsource hd hstat).2 ?_, by simpa using hincluded⟩
        obtain ⟨names, isDir⟩ := x
        obtain rfl : isDir = false := by simpa using hfile
        exact hx
      refine (Contract.Keeps.untallied (.onDisk ?_ _)).bind fun _ => ?_
      · exact copyFile_mirroring hsource hdest hinto hway hnames hcopied
      · exact .modify_tally fun n => { n with copied := n.copied + 1 }

end Copying

/-! ## What is counted -/

/-- Each stop at a file is counted once, as copied or as excluded. -/
theorem copyEntry_counts {s s' : World × CopyCount} (hnames : ∀ n ∈ x.names, Path.IsName n)
    (hok : copyEntry policy dest (x.sighting policy.source) s = .ok ⟨⟩ s') :
    s'.2 =
      ⟨s.2.copied + [x].countP fun x => !x.isDir && !policy.excludes (policy.source.under x.names),
        s.2.excluded + [x].countP fun x => !x.isDir && policy.excludes (policy.source.under x.names)⟩ := by
  simp only [Stop.sighting, copyEntry, Path.below?_under hnames] at hok
  split at hok
  · rename_i hdir
    have hsame : s'.2 = s.2 := by
      unfold Build.untallied at hok
      split at hok
      · cases hok
        rfl
      · cases hok
    simp [hsame, hdir]
  · rename_i hfile
    split at hok
    · rename_i hexcluded
      cases hok
      simp [hfile, hexcluded]
    · rename_i hincluded
      obtain ⟨⟨⟩, s₁, hcopy, hcount⟩ := Outcome.bind_ok hok
      cases hcount
      have hsame : s₁.2 = s.2 := by
        unfold Build.untallied at hcopy
        split at hcopy
        · cases hcopy
          rfl
        · cases hcopy
      simp [hfile, hincluded, hsame]

theorem forM_counts {l : List Stop} (hnames : ∀ x ∈ l, ∀ n ∈ x.names, Path.IsName n)
    {s s' : World × CopyCount}
    (hok : l.forM (fun x => copyEntry policy dest (x.sighting policy.source)) s = .ok ⟨⟩ s') :
    s'.2 =
      ⟨s.2.copied + l.countP fun x => !x.isDir && !policy.excludes (policy.source.under x.names),
        s.2.excluded + l.countP fun x => !x.isDir && policy.excludes (policy.source.under x.names)⟩ := by
  induction l generalizing s with
  | nil =>
    obtain ⟨-, rfl⟩ := Outcome.pure_ok
      (show (pure ⟨⟩ : EStateM Failure (World × CopyCount) PUnit) s = .ok ⟨⟩ s' from hok)
    rfl
  | cons x l ih =>
    obtain ⟨hhere, hrest⟩ := List.forall_mem_cons.1 hnames
    obtain ⟨s₁, hfirst, hloop⟩ := Outcome.forM_cons_ok hok
    have hcount := copyEntry_counts hhere hfirst
    have hcounts := ih hrest hloop
    have hcons : ∀ p : Stop → Bool, (x :: l).countP p = [x].countP p + l.countP p := fun p => by
      rw [← List.singleton_append, List.countP_append]
    rw [hcounts, hcount, hcons, hcons, Nat.add_assoc, Nat.add_assoc]

/-- As many as are stopped at. -/
theorem encard_eq_countP {l : List Stop} (hl : l.Nodup) (p : List String → Bool) :
    {rel | ⟨rel, false⟩ ∈ l ∧ p rel}.encard = l.countP fun x => !x.isDir && p x.names := by
  let names := (l.filter fun x => !x.isDir && p x.names).map Stop.names
  have hnodup : names.Nodup := by
    refine (hl.filter _).map_on fun x hx y hy heq => ?_
    obtain ⟨a, b⟩ := x
    obtain ⟨a', b'⟩ := y
    simp_all
  have hset : {rel | ⟨rel, false⟩ ∈ l ∧ p rel} = (names.toFinset : Set (List String)) := by
    ext rel
    simp only [Set.mem_ofPred_eq, List.coe_toFinset, names, List.mem_map, List.mem_filter]
    constructor
    · rintro ⟨hmem, hp⟩
      exact ⟨⟨rel, false⟩, ⟨hmem, by simpa using hp⟩, rfl⟩
    · rintro ⟨⟨a, b⟩, ⟨hmem, hp⟩, rfl⟩
      simp only [Bool.and_eq_true, Bool.not_eq_true'] at hp
      obtain ⟨rfl, hp⟩ := hp
      exact ⟨hmem, hp⟩
  rw [hset, Set.encard_coe_eq_coe_finsetCard, List.toFinset_card_of_nodup hnodup, List.length_map,
    List.countP_eq_length_filter]

/-! ## The whole copy -/

/-- **A copy mirrors its source**, even where the target lies inside it, on a
disk without links. -/
theorem copy_mirrored (hs : w.disk.Sound) (hsource : policy.source.IsPlain) (hdest : dest.IsPlain)
    (hinto : ¬ dest.location <+: policy.source.location)
    (hok : copy policy dest outputs w = .ok count w') :
    ∃ w₁, createDirs dest w = .ok ⟨⟩ w₁ ∧ w.disk.MakesDirs dest.location w₁.disk ∧
      Mirrored policy dest outputs w₁.disk w'.disk count := by
  obtain ⟨⟨⟩, w₁, hdirs, hvisit⟩ := Outcome.bind_ok hok
  have hmakes := createDirs_ok hs hdest hdirs
  refine ⟨w₁, hdirs, hmakes, ?_⟩
  replace hvisit := Build.tallying_ok hvisit
  obtain ⟨standing, hstat⟩ := exists_stat_of_visit hvisit
  let C := ((mirroring policy dest outputs w₁.disk).along World.disk).along
    (Prod.fst : World × CopyCount → World)
  have hinv : C.inv (w₁, ⟨0, 0⟩) := ⟨hmakes.sound, rfl, .refl _⟩
  have hkeeps : ∀ x ∈ stops (isPruned outputs dest) policy.source w₁.disk,
      C.Keeps (copyEntry policy dest (x.sighting policy.source)) := fun x hx =>
    copyEntry_mirroring hsource hdest hinto hmakes.onWay hmakes.sound hstat hx
  have hkinds : KeepsKinds (fun s : World × CopyCount => s.1.disk) (isPruned outputs dest)
      policy.source w₁.disk (policy.source.place w₁.disk.cwd) C.inv :=
    mirroring_keepsKinds hsource hdest hinto hmakes.onWay
  rw [visit_eq hinv hkinds hstat hkeeps] at hvisit
  obtain ⟨⟨-, -, hgrows⟩, -⟩ := (Contract.Keeps.forM hkeeps).step hinv hvisit
  have hnodup : (stops (isPruned outputs dest) policy.source w₁.disk).Nodup :=
    nodup_stops hmakes.sound hstat
  have hcounts := forM_counts (fun x hx => isName_of_mem_stops hmakes.sound hstat hx) hvisit
  simp only [Nat.zero_add] at hcounts
  constructor
  case files =>
    intro rel content hcopied hfile
    have hx := (fileInReach_iff hsource hmakes.sound hstat).1 hcopied.1
    have hnames := isName_of_mem_stops hmakes.sound hstat hx
    let P : World × CopyCount → Prop := fun s =>
      s.1.disk.get? (dest.location ++ rel) = some (.file content)
    have hstays : ∀ s s', C.step s s' → P s → P s' := fun s s' hstep => hstep.2 rel content hfile
    have hend : P (w', count) := Contract.Keeps.forM_reaches hkeeps hstays hx hinv
      (fun s₁ s₂ h₁ _ hact => copyEntry_of_isCopied hsource hdest hinto hmakes.onWay h₁ hnames
        hcopied hfile hact) hvisit
    exact hend
  case dirs =>
    intro rel hentered
    have hx := (isEntered_iff hsource hmakes.sound hstat).1 hentered
    have hnames := isName_of_mem_stops hmakes.sound hstat hx
    let P : World × CopyCount → Prop := fun s => s.1.disk.get? (dest.location ++ rel) = some .dir
    have hstays : ∀ s s', C.step s s' → P s → P s' := fun s s' hstep => hstep.1 _
    have hend : P (w', count) := Contract.Keeps.forM_reaches hkeeps hstays hx hinv
      (fun s₁ s₂ h₁ _ hact => copyEntry_of_isDir hdest h₁.1 hnames hact) hvisit
    exact hend
  case elsewhere =>
    intro l hl
    by_cases hway : l <+: dest.location
    · rw [hmakes.onWay l hway]
      exact hgrows.dir (hmakes.onWay l hway)
    · refine hgrows.eq_of_untouched ?_ ?_
      · rintro (hleads | ⟨rel, hrel, hentered⟩)
        · exact hway hleads
        · exact (hl rel hrel).2 hentered
      · rintro ⟨rel, hrel, hcopied⟩
        exact (hl rel hrel).1 hcopied
  case copied =>
    rw [hcounts, ← encard_eq_countP hnodup fun rel => !policy.excludes (policy.source.under rel)]
    simp only [IsCopied, fileInReach_iff hsource hmakes.sound hstat, Bool.not_eq_true']
  case excluded =>
    rw [hcounts, ← encard_eq_countP hnodup fun rel => policy.excludes (policy.source.under rel)]
    simp only [IsExcluded, fileInReach_iff hsource hmakes.sound hstat]

/-- A source with an asset, a source file and a directory of logs. -/
def mirrorDisk : Disk :=
  (Disk.mk [] []).set ["src"] .dir
    |>.set ["src", "a.txt"] (.file "a".toUTF8)
    |>.set ["src", "b.ts"] (.file "b".toUTF8)
    |>.set ["src", "logs"] .dir
    |>.set ["src", "logs", "c.txt"] (.file "c".toUTF8)

theorem sound_mirrorDisk : mirrorDisk.Sound := by
  have hsrc := Disk.sound_blank.set [] "src" .dir rfl (by decide) (by simp) (by decide)
  have hasset := hsrc.set ["src"] "a.txt" (.file "a".toUTF8) rfl (by decide) (by simp)
    (by decide +kernel)
  have hmodule := hasset.set ["src"] "b.ts" (.file "b".toUTF8) rfl (by decide) (by simp)
    (by decide +kernel)
  have hlogs := hmodule.set ["src"] "logs" .dir rfl (by decide) (by simp) (by decide +kernel)
  exact hlogs.set ["src", "logs"] "c.txt" (.file "c".toUTF8) rfl (by decide) (by simp)
    (by decide +kernel)

/-- It is copied into a directory inside it, which is made on the way. -/
theorem copy_mirrored_inside :
    let policy := CopyPolicy.ofEndings ⟨"/src"⟩ []
    ∃ w w' : World, copy policy ⟨"/src/out/lib"⟩ [] ⟨mirrorDisk, []⟩ = .ok ⟨1, 1⟩ w' ∧
      Mirrored policy ⟨"/src/out/lib"⟩ [] w.disk w'.disk ⟨1, 1⟩ ∧
      w.disk.get? ["src", "out"] = some .dir ∧
      w'.disk.get? ["src", "out", "lib", "a.txt"] = some (.file "a".toUTF8) ∧
      w'.disk.get? ["src", "out", "lib", "logs"] = none := by
  intro policy
  have hsound : (World.mk mirrorDisk []).disk.Sound := sound_mirrorDisk
  have hsource : policy.source.IsPlain := by decide +kernel
  have hdest : (⟨"/src/out/lib"⟩ : Path).IsPlain := by decide +kernel
  have hinto : ¬ (⟨"/src/out/lib"⟩ : Path).location <+: policy.source.location := by decide +kernel
  have hanswer : Outcome.answer? (copy policy ⟨"/src/out/lib"⟩ [] ⟨mirrorDisk, []⟩) =
      some ⟨1, 1⟩ := by decide +kernel
  have hok := Outcome.ok_of_answer? hanswer
  obtain ⟨w, -, hmakes, hmirrored⟩ := copy_mirrored hsound hsource hdest hinto hok
  exact ⟨w, _, hok, hmirrored, hmakes.onWay _ (by decide), by decide +kernel, by decide +kernel⟩

end Tree

end DualPackage
