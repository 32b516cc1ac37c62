import DualPackage.Proofs.Path.Place
import DualPackage.Proofs.Tree.Sightings
import DualPackage.Tree.Rewrite
/-!
# What copies and rewritings keep to

A contract about disks is kept by a rewriting if it allows what may be
written to the files below its root (`rewrite_keeps`), and by a copy if it
allows directories and files below its target (`copy_keeps`).

More is known of a copy that keeps an account. The files that it copies
are those among the entries it meets that its policy does not leave out
(`copied?`), and what becomes of the disk is told from them
(`copy_accounted`). They are as many as it counts (`copied_eq_length`), and
no file that is there all along is missing (`mem_copied`).
-/

namespace DualPackage

namespace Tree

variable {C : Contract Disk} {N : String → Prop} {root path dest : Path} {extensions : List String}
  {f : String → String} {policy : CopyPolicy} {outputs : List Path} {x : Sighting}

/-! ## Rewritings -/

/-- A file is only written if its text changes. -/
theorem rewriteFile_keeps
    (h : ∀ d text d', C.inv d → d.readText path = .ok text → f text ≠ text →
      d.writeFile path (f text).toUTF8 = .ok d' → C.inv d' ∧ C.step d d') :
    (C.along World.disk).Keeps (rewriteFile f path) := by
  intro w hw
  unfold rewriteFile
  split
  · exact ((Contract.Keeps.log _).bind fun _ => .pure _) w hw
  · exact C.fault_refl hw
  · rename_i text hread
    unfold SourceFile.rewrite
    dsimp only
    split
    · exact ⟨hw, C.step_refl _⟩
    · rename_i hchanged
      -- what is allowed depends on what has been read, so only this disk is looked at
      show Contract.Holds _ w (EStateM.bind _ _ w)
      unfold EStateM.bind Build.onDisk DiskM.update
      dsimp only
      cases hwrite : w.disk.writeFile path (f text).toUTF8 with
      | ok d' => exact h _ _ _ hw hread hchanged hwrite
      | error fault => exact C.fault_refl hw

theorem rewriteEntry_keeps
    (h : hasListedExtension extensions x.path →
      (C.along World.disk).Keeps (rewriteFile f x.path)) :
    ((C.along World.disk).along Prod.fst).Keeps (rewriteEntry extensions f x) := by
  cases x with
  | loop path => exact .untallied (.log _)
  | entry v =>
    rw [rewriteEntry]
    split
    · rename_i hlisted
      simp only [Bool.and_eq_true] at hlisted
      refine .bind (.untallied (h hlisted.2)) fun changed => ?_
      split
      · exact .modify_tally (· + 1)
      · exact .pure _
    · exact .pure _

/-- **What rewriting the files keeps to, rewriting the tree does.** -/
theorem rewrite_keeps (hlisted : ∀ d, C.inv d → ∀ dir, ∀ c ∈ d.children dir, N c.1)
    (h : ∀ names, (∀ n ∈ names, N n) → hasListedExtension extensions (root.under names) →
      (C.along World.disk).Keeps (rewriteFile f (root.under names))) :
    (C.along World.disk).Keeps (rewrite root extensions f) := by
  refine Contract.Keeps.tallying (C := C.along World.disk) (visit_keeps (N := N)
    (fun s hs => hlisted s.1.disk hs) fun names x hnames hmet => ?_) 0
  have hpath : x.path = root.under names := hmet.path_eq
  exact rewriteEntry_keeps fun hlisted => hpath ▸ h names hnames (hpath ▸ hlisted)

/-! ## Copies -/

theorem createDirs_keeps {p : Path} (h : C.Keeps (DiskM.createDirAll p)) :
    (C.along World.disk).Keeps (createDirs p) :=
  .onDisk h p

/-- What a copy does about one entry goes on below its target. -/
theorem copyEntry_keeps
    (h : ∀ rest, x.path.below? policy.source = some rest →
      C.Keeps (DiskM.createDirAll (dest.join rest)) ∧
        ∀ source, C.Allows (·.copyFile source (dest.join rest))) :
    ((C.along World.disk).along Prod.fst).Keeps (copyEntry policy dest x) := by
  cases x with
  | loop path => exact .untallied (.log _)
  | entry v =>
    rw [copyEntry]
    split
    · exact .pure _
    · rename_i rest hrest
      obtain ⟨hdirs, hcopy⟩ := h rest hrest
      dsimp only
      split
      · exact .untallied (createDirs_keeps hdirs)
      · split
        · exact .modify_tally fun n => { n with excluded := n.excluded + 1 }
        · refine (Contract.Keeps.untallied (.onDisk (hcopy _).update _)).bind fun _ => ?_
          exact .modify_tally fun n => { n with copied := n.copied + 1 }

/-- **What is kept to below the target of a copy, the copy keeps to.** -/
theorem copy_keeps (hlisted : ∀ d, C.inv d → ∀ dir, ∀ c ∈ d.children dir, Path.IsName c.1)
    (hdest : C.Keeps (DiskM.createDirAll dest))
    (h : ∀ names, (∀ n ∈ names, Path.IsName n) →
      C.Keeps (DiskM.createDirAll (dest.join ⟨"/".intercalate names⟩)) ∧
        ∀ source, C.Allows (·.copyFile source (dest.join ⟨"/".intercalate names⟩))) :
    (C.along World.disk).Keeps (copy policy dest outputs) := by
  refine (createDirs_keeps hdest).bind fun _ => Contract.Keeps.tallying (C := C.along World.disk)
    (visit_keeps (N := Path.IsName) (fun s hs => hlisted s.1.disk hs) fun names x hnames hmet =>
      copyEntry_keeps fun rest hrest => ?_) _
  rw [hmet.path_eq, Path.below?_under hnames] at hrest
  cases hrest
  exact h names hnames

end Tree

/-- A file that is copied: where it is read, the directory it is copied
into, and the rest of its path there. -/
structure Copied where
  source : Path
  dest : Path
  rest : Path
  deriving DecidableEq, Repr

/-- Where the file is written. -/
def Copied.target (c : Copied) : Path := c.dest.join c.rest

namespace Tree

variable {policy : CopyPolicy} {dest : Path} {outputs : List Path} {x : Sighting} {c : Copied}
  {w w' : World} {count : CopyCount}

/-- The copy that is made of what is met, if it is a file and not left out. -/
def copied? (policy : CopyPolicy) (dest : Path) : Sighting → Option Copied
  | .loop _ => none
  | .entry v =>
    if v.isDir || policy.excludes v.path then none
    else (v.path.below? policy.source).map fun rest => ⟨v.path, dest, rest⟩

/-- What the walk of a copy meets, in order. -/
def copySightings (policy : CopyPolicy) (dest : Path) (outputs : List Path) (w : World) :
    List Sighting :=
  match createDirs dest w with
  | .error _ _ => []
  | .ok _ w₁ =>
    (Outcome.state (visit (fun s => s.1.1.disk) Failure.walk (isPruned outputs dest)
      (noting (copyEntry policy dest)) policy.source ((w₁, ⟨0, 0⟩), []))).2

/-- A copy with notes. -/
theorem copy_noted (hok : copy policy dest outputs w = .ok count w') :
    ∃ w₁, createDirs dest w = .ok () w₁ ∧
      visit (fun s => s.1.1.disk) Failure.walk (isPruned outputs dest)
        (noting (copyEntry policy dest)) policy.source ((w₁, ⟨0, 0⟩), []) =
          .ok ⟨⟩ ((w', count), copySightings policy dest outputs w) := by
  obtain ⟨⟨⟩, w₁, hdirs, hvisit⟩ := Outcome.bind_ok hok
  refine ⟨w₁, hdirs, ?_⟩
  rw [copySightings, hdirs]
  have hfollows := @visit_noting _ _ Failure.walk (isPruned outputs dest) policy.source
    (fun s : World × CopyCount => s.1.disk) (copyEntry policy dest)
  exact hfollows.ok (s := ((w₁, ⟨0, 0⟩), [])) (Build.tallying_ok hvisit)

/-- What a copy does about an entry that it copies. -/
theorem copyEntry_of_copied (h : copied? policy dest x = some c) :
    copyEntry policy dest x = (do
      Build.untallied (Build.onDisk c.target (DiskM.update (·.copyFile c.source c.target)))
      modify fun (w, n) => (w, { n with copied := n.copied + 1 })) := by
  cases x with
  | loop path => cases h
  | entry v =>
    rw [copied?] at h
    split at h
    · cases h
    · rename_i hkept
      obtain ⟨rest, hrest, rfl⟩ := Option.map_eq_some_iff.1 h
      simp only [Bool.or_eq_true, not_or] at hkept
      rw [copyEntry, hrest]
      dsimp only
      rw [if_neg hkept.1, if_neg hkept.2]
      rfl

/-- About any other entry it may make a directory, and copies nothing. -/
theorem copyEntry_of_not_copied {C : Contract (World × CopyCount)} (h : copied? policy dest x = none)
    (hlog : ∀ event, C.Keeps (Build.untallied (Build.log event)))
    (hdirs : ∀ p, C.Keeps (Build.untallied (createDirs p)))
    (hexcluded : C.Keeps (modify fun (w, n) => (w, { n with excluded := n.excluded + 1 }) :
      EStateM Failure (World × CopyCount) PUnit)) :
    C.Keeps (copyEntry policy dest x) := by
  cases x with
  | loop path => exact hlog _
  | entry v =>
    rw [copied?] at h
    rw [copyEntry]
    split
    · exact .pure _
    · rename_i rest hrest
      dsimp only
      split
      · exact hdirs _
      · rename_i hfile
        rw [hrest, Option.map_some] at h
        split
        · exact hexcluded
        · rename_i hincluded
          simp [hfile, hincluded] at h

theorem copyEntry_growing (cwd : Location) :
    ((Contract.growing Disk.anywhere Disk.anywhere cwd).along
      fun s : World × CopyCount => s.1.disk).Keeps (copyEntry policy dest x) :=
  copyEntry_keeps (C := Contract.growing Disk.anywhere Disk.anywhere cwd) fun _ _ =>
    ⟨Contract.keeps_createDirAll fun _ _ => Contract.growing_makeDir trivial,
      fun _ => Contract.growing_copyFile trivial⟩

/-- What is noted stands along names below the source. -/
theorem visit_noted_met (cwd : Location) :
    (((Contract.growing Disk.anywhere Disk.anywhere cwd).along fun s : World × CopyCount =>
      s.1.disk).noting fun x => ∃ names, (∀ n ∈ names, Path.IsName n) ∧
        Met (isPruned outputs dest) policy.source names x).Keeps
      (visit (fun s => s.1.1.disk) Failure.walk (isPruned outputs dest)
        (noting (copyEntry policy dest)) policy.source) :=
  visit_noting_keeps (fun s : World × CopyCount => s.1.disk)
    (fun _ hs _ _ => hs.1.isName_of_mem_children) fun _ => copyEntry_growing cwd

/-- What a copy meets stands along names below its source, with no directory
on the way left out. -/
theorem met_of_mem_copySightings (hs : w.disk.Sound) (hx : x ∈ copySightings policy dest outputs w) :
    ∃ names, (∀ n ∈ names, Path.IsName n) ∧ Met (isPruned outputs dest) policy.source names x := by
  rw [copySightings] at hx
  split at hx
  · simp at hx
  · rename_i w₁ hmade
    have hdirs : (Contract.growing Disk.anywhere Disk.anywhere w.disk.cwd).Keeps
        (DiskM.createDirAll dest) :=
      Contract.keeps_createDirAll fun _ _ => Contract.growing_makeDir trivial
    obtain ⟨hinv, -⟩ := (createDirs_keeps hdirs).step ⟨hs, rfl⟩ hmade
    have hkeeps := @visit_noted_met policy dest outputs w.disk.cwd
    exact Contract.notes_of_noting (hkeeps ((w₁, ⟨0, 0⟩), []) ⟨hinv, by simp⟩) x hx

/-- The files that a copy copies, in order. -/
def copies (policy : CopyPolicy) (dest : Path) (outputs : List Path) (w : World) : List Copied :=
  (copySightings policy dest outputs w).filterMap (copied? policy dest)

section Accounts

variable {A : Account Disk Copied} {inv : Disk → Prop}
  (hmake : ∀ p, (A.silent inv).Allows (·.makeDir p))
  (hcopy : ∀ c d d', inv d → d.copyFile c.source c.target = .ok d' → inv d' ∧ A.holds [c] d d')
include hmake hcopy

theorem copyEntry_accounted (s s' : World × CopyCount) (hs : inv s.1.disk)
    (hok : copyEntry policy dest x s = .ok ⟨⟩ s') :
    inv s'.1.disk ∧ A.holds (copied? policy dest x).toList s.1.disk s'.1.disk := by
  cases hcopied : copied? policy dest x with
  | none =>
    have hkeeps := copyEntry_of_not_copied
      (C := ((A.silent inv).along World.disk).along Prod.fst) hcopied
      (fun event => .untallied (.log event))
      (fun p => .untallied (createDirs_keeps (Contract.keeps_createDirAll fun q _ => hmake q)))
      (by exact .modify_tally fun n => { n with excluded := n.excluded + 1 })
    exact hkeeps.step hs hok
  | some c =>
    rw [copyEntry_of_copied hcopied] at hok
    obtain ⟨⟨⟩, s₁, hfile, hcount⟩ := Outcome.bind_ok hok
    cases hcount
    exact hcopy c _ _ hs (Build.update_ok (Build.untallied_ok hfile))

theorem visit_noted_keeps : (A.noted inv (fun s : World × CopyCount => s.1.disk)
    (copied? policy dest)).Keeps (visit (fun s => s.1.1.disk) Failure.walk (isPruned outputs dest)
      (noting (copyEntry policy dest)) policy.source) :=
  visit_keeps (N := fun _ => True) (fun _ _ _ _ _ => trivial) fun _ _ _ _ =>
    noting_keeps fun s s' => copyEntry_accounted hmake hcopy s s'

/-- **What becomes of the disk** is told from the files that are copied. -/
theorem copy_accounted (hs : inv w.disk) (hok : copy policy dest outputs w = .ok count w') :
    inv w'.disk ∧ A.holds (copies policy dest outputs w) w.disk w'.disk := by
  obtain ⟨w₁, hdirs, hvisit⟩ := copy_noted hok
  obtain ⟨hinv, hmade⟩ := (createDirs_keeps (C := A.silent inv) (p := dest)
    (Contract.keeps_createDirAll fun q _ => hmake q)).step hs hdirs
  obtain ⟨hinv', notes, hnotes, hholds⟩ :=
    (visit_noted_keeps hmake hcopy).step (s := ((w₁, ⟨0, 0⟩), [])) hinv hvisit
  obtain rfl : copySightings policy dest outputs w = notes := hnotes
  exact ⟨hinv', A.append hmade hholds⟩

end Accounts

/-! ## The files that are copied -/

/-- An account of how many files have been copied. -/
def counting : Account (World × CopyCount) Copied where
  holds x s s' := s'.2.copied = s.2.copied + x.length
  nil _ := rfl
  append h h' := by rw [h', h, List.length_append, Nat.add_assoc]

theorem counting_untallied {part : Build Unit} :
    (counting.silent fun _ => True).Keeps (Build.untallied part) := by
  intro s _
  unfold Build.untallied
  split
  · exact ⟨trivial, rfl⟩
  · trivial

theorem copyEntry_counted (s s' : World × CopyCount)
    (hok : copyEntry policy dest x s = .ok ⟨⟩ s') :
    counting.holds (copied? policy dest x).toList s s' := by
  cases hcopied : copied? policy dest x with
  | none =>
    have hkeeps := copyEntry_of_not_copied (C := counting.silent fun _ => True) hcopied
      (fun _ => counting_untallied) (fun _ => counting_untallied) fun _ _ => ⟨trivial, rfl⟩
    exact (hkeeps.step trivial hok).2
  | some c =>
    rw [copyEntry_of_copied hcopied] at hok
    obtain ⟨⟨⟩, s₁, hfile, hcount⟩ := Outcome.bind_ok hok
    obtain ⟨-, hsame⟩ := counting_untallied.step trivial hfile
    cases hcount
    exact congrArg (· + 1) hsame

/-- **A copy counts** the files that it copies. -/
theorem copied_eq_length (hok : copy policy dest outputs w = .ok count w') :
    count.copied = (copies policy dest outputs w).length := by
  obtain ⟨w₁, -, hvisit⟩ := copy_noted hok
  have hkeeps : (counting.noted (fun _ => True) id (copied? policy dest)).Keeps
      (visit (fun s => s.1.1.disk) Failure.walk (isPruned outputs dest)
        (noting (copyEntry policy dest)) policy.source) :=
    visit_keeps (N := fun _ => True) (fun _ _ _ _ _ => trivial) fun _ _ _ _ =>
      noting_keeps fun s s' _ hok => ⟨trivial, copyEntry_counted s s' hok⟩
  obtain ⟨-, notes, hnotes, hcounted⟩ := hkeeps.step (s := ((w₁, ⟨0, 0⟩), [])) trivial hvisit
  obtain rfl : copySightings policy dest outputs w = notes := hnotes
  exact hcounted.trans (Nat.zero_add _)

/-- An account of sound disks that grow. -/
def growth : Account Disk Copied where
  holds _ d d' := d.Grows Disk.anywhere Disk.anywhere d'
  nil _ := .refl _
  append := .trans

/-- **No file is missing** from a copy that is there when it begins and not
left out, nor any directory on the way to it. -/
theorem mem_copies (hs : w.disk.Sound) {names : List String} {content : ByteArray}
    (hfile : w.disk.get? (policy.source.place w.disk.cwd ++ names) = some (.file content))
    (hopen : Open (isPruned outputs dest) policy.source names)
    (hincluded : policy.excludes (policy.source.under names) = false)
    (hok : copy policy dest outputs w = .ok count w') :
    ⟨policy.source.under names, dest, ⟨"/".intercalate names⟩⟩ ∈ copies policy dest outputs w := by
  have hnames := hs.wellFormed.isName_of_mem hfile
  set c : Copied := ⟨policy.source.under names, dest, ⟨"/".intercalate names⟩⟩ with hc
  have hcopied : copied? policy dest (.entry ⟨policy.source.under names, names.length, false⟩) =
      some c := by
    simp [copied?, hincluded, Path.below?_under hnames, hc]
  obtain ⟨w₁, hdirs, hvisit⟩ := copy_noted hok
  let inv := (Contract.growing Disk.anywhere Disk.anywhere w.disk.cwd).inv
  have hmake : ∀ p, (growth.silent inv).Allows (·.makeDir p) := fun p =>
    Contract.growing_makeDir trivial
  have hcopy : ∀ c d d', inv d → d.copyFile c.source c.target = .ok d' →
      inv d' ∧ growth.holds [c] d d' := fun c => Contract.growing_copyFile trivial
  obtain ⟨hinv, hgrows⟩ := (createDirs_keeps (C := growth.silent inv) (p := dest)
    (Contract.keeps_createDirAll fun q _ => hmake q)).step ⟨hs, rfl⟩ hdirs
  refine visit_reaches (C := growth.noted inv (fun s : World × CopyCount => s.1.disk)
    (copied? policy dest)) (N := fun _ => True)
    (P := fun s => c ∈ s.2.filterMap (copied? policy dest)) (s := ((w₁, ⟨0, 0⟩), []))
    (fun s hs => hs.1) (fun _ _ _ _ _ => trivial)
    (fun _ _ _ _ => noting_keeps fun s s' => copyEntry_accounted hmake hcopy s s') ?_ hopen hinv
    ?_ ?_ hvisit
  · rintro s s' ⟨notes, hnotes, -⟩ hmem
    rw [hnotes, List.filterMap_append]
    exact List.mem_append_left _ hmem
  · rintro s₁ - ⟨notes, -, hgrows₁⟩
    have hcwd : w₁.disk.cwd = w.disk.cwd := hgrows.cwd
    dsimp only
    rw [hcwd]
    exact (hgrows.trans hgrows₁).file hfile
  · rintro s₁ s₂ - - hact
    rw [(noting_ok hact).2, List.filterMap_append]
    exact List.mem_append_right _ (by simp [hcopied])

end Tree

end DualPackage
