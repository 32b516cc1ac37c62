import DualPackage.Proofs.Tree.Walk
import DualPackage.Tree.Copy
/-!
# What a copy does to its target

A copy of a tree into a directory apart from it brings over each file that
its walk reaches and its policy does not exclude, and leaves every other
file as it was (`copy_ok`). The walk reaches a file unless a directory
between the source and the file has a name that speaks of logs: an output
directory is never on the way, since none lies below the source.
-/

namespace DualPackage

namespace Tree

variable {w w' : World} {policy : CopyPolicy} {dest root : Path} {outputs : List Path}
  {skip : Path → Bool} {d : Disk} {rel rest : List String} {content : ByteArray}

/-- A file is reached unless a directory on the way to it is left out. -/
theorem reached_file_iff (hd : d.WellFormed)
    (hfile : d.get? (root.location ++ (rel ++ rest)) = some (.file content)) :
    Reached skip root d rel rest ↔
      ∀ x ∈ Path.leadingParts rest, rel ++ x = [] ∨ skip (root.under (rel ++ x)) = false := by
  induction rest generalizing rel with
  | nil =>
    rw [List.append_nil] at hfile
    simp [Reached, Path.leadingParts, hfile]
  | cons n rest ih =>
    -- above a file stand directories, so only the skips decide
    have hdir : d.get? (root.location ++ rel) = some .dir := by
      rw [← List.append_assoc] at hfile
      exact hd.dir_of_append (List.cons_ne_nil n rest) hfile
    rw [Reached, ih (by simpa using hfile), Entered, and_iff_right hdir, Path.leadingParts]
    simp only [List.mem_append, List.mem_map, List.mem_singleton, or_imp, forall_and,
      forall_eq, forall_exists_index, and_imp, forall_apply_eq_imp_iff₂, List.append_nil,
      List.append_assoc, List.singleton_append]
    exact and_comm

/-- Whether a directory strictly between the source and what stands along
`rel` below it has a name that speaks of logs. -/
def belowLogs (source : Path) (rel : List String) : Bool :=
  (Path.leadingParts rel).any fun way => !way.isEmpty && isLogsDir (source.under way)

/-- The files of the source that a copy brings over. -/
def copiedFiles (policy : CopyPolicy) (source : List String → Option ByteArray)
    (rel : List String) : Option ByteArray :=
  if policy.excludes (policy.source.under rel) || belowLogs policy.source rel then none
  else source rel

/-- Apart from the outputs, only directories whose names speak of logs are
left out. -/
theorem isPruned_under (hsource : policy.source.IsPlain) (hdest : dest.IsPlain)
    (hplain : ∀ o ∈ outputs, o.IsPlain) (hapart : ∀ o ∈ outputs, Path.Apart policy.source o)
    (hdestApart : Path.Apart policy.source dest) (hnames : ∀ n ∈ rel, Path.IsName n) :
    isPruned outputs dest (policy.source.under rel) = isLogsDir (policy.source.under rel) := by
  obtain ⟨hunder, hloc⟩ := Path.isPlain_under hsource hnames
  -- an output below the source would not be apart from it
  have hsame : ∀ o : Path, o.IsPlain → Path.Apart policy.source o →
      o.same (policy.source.under rel) = false := by
    intro o ho hoApart
    rw [← Bool.not_eq_true, ho.same_iff hunder, hloc]
    have := hoApart.append_ne rel []
    rw [List.append_nil] at this
    exact this.symm
  have hnone : (outputs ++ [dest]).any (·.same (policy.source.under rel)) = false := by
    rw [List.any_eq_false]
    intro o ho
    rw [Bool.not_eq_true]
    rcases List.mem_append.1 ho with ho | ho
    · exact hsame o (hplain o ho) (hapart o ho)
    · obtain rfl := List.mem_singleton.1 ho
      exact hsame o hdest hdestApart
  rw [isPruned, hnone, Bool.or_false]

/-- So a file is reached unless it lies below logs. -/
theorem reached_iff_not_belowLogs (hd : d.WellFormed) (hsource : policy.source.IsPlain)
    (hdest : dest.IsPlain) (hplain : ∀ o ∈ outputs, o.IsPlain)
    (hapart : ∀ o ∈ outputs, Path.Apart policy.source o)
    (hdestApart : Path.Apart policy.source dest)
    (hfile : d.get? (policy.source.location ++ rel) = some (.file content)) :
    Reached (isPruned outputs dest) policy.source d [] rel ↔
      belowLogs policy.source rel = false := by
  have hnames := hd.isName_of_mem hfile
  rw [reached_file_iff hd (by simpa using hfile), belowLogs, List.any_eq_false]
  refine forall₂_congr fun x hx => ?_
  have hx : ∀ n ∈ x, Path.IsName n := fun n hn =>
    hnames n ((Path.prefix_of_mem_leadingParts hx).subset hn)
  rw [List.nil_append, isPruned_under hsource hdest hplain hapart hdestApart hx]
  cases x <;> simp

/-- What a copy makes, along the names of an entry of its source, of what
stands there in its target. -/
def CopyImage (policy : CopyPolicy) (path : Path) : Entry → Option Entry → Option Entry → Prop
  | .dir, old, new => (old = none ∨ old = some .dir) ∧ new = some .dir
  | .file content, old, new =>
    if policy.excludes path then new = old
    else old ≠ some .dir ∧ new = some (.file content)
  | .link _, _, _ => False

theorem createDirs_ok (hs : w.disk.Sound) (hdest : dest.IsPlain)
    (hok : createDirs dest w = .ok () w') : w.disk.MakesDirs dest.location w'.disk :=
  DiskM.createDirAll_ok hs hdest (Build.onDisk_ok hok)

/-- A copy changes its target along the names of its source. -/
theorem copy_visitor (hsource : policy.source.IsPlain) (hdest : dest.IsPlain)
    (hapart : Path.Apart policy.source dest) :
    Visitor (fun s : World × CopyCount => s.1.disk) (copyEntry policy dest) policy.source
      dest.location (CopyImage policy) where
  root_isPlain := hsource
  act_ok := by
    intro rel depth e s s' hs hentry habove hok
    have hnames := hs.wellFormed.isName_of_mem hentry
    obtain ⟨hpath, hloc⟩ := Path.isPlain_under hsource hnames
    obtain ⟨htarget, htargetLoc⟩ := Path.isPlain_join_names hdest hnames
    simp only [copyEntry, hsource.below?_eq_some hpath hloc] at hok
    rw [← htargetLoc] at habove ⊢
    cases e with
    | link target => exact absurd hentry (hs.linkFree _ _)
    | dir =>
      have hmakes := createDirs_ok hs htarget (Build.untallied_ok hok)
      refine ⟨hmakes.sound, ⟨?_, ?_⟩, fun l hl => hmakes.elsewhere_of_above hs habove hl⟩
      · exact hmakes.before _ (List.prefix_refl _)
      · exact hmakes.onWay _ (List.prefix_refl _)
    | file content =>
      rw [Entry.isDir, if_neg Bool.false_ne_true] at hok
      rw [CopyImage]
      by_cases hexcluded : policy.excludes (policy.source.under rel)
      · rw [if_pos hexcluded] at hok ⊢
        cases hok
        exact ⟨hs, rfl, fun _ _ => rfl⟩
      · rw [if_neg hexcluded] at hok ⊢
        obtain ⟨⟨⟩, s₁, hcopy, hok⟩ := Outcome.bind_ok hok
        cases hok
        -- the copy is not made onto the source itself
        have hne : (policy.source.under rel).location ≠
            (dest.join ⟨"/".intercalate rel⟩).location := by
          rw [hloc, htargetLoc]
          exact hapart.append_ne rel rel
        obtain ⟨c, hc, hsets, hold⟩ :=
          Disk.copyFile_ok hs hpath htarget hne (Build.update_ok (Build.untallied_ok hcopy))
        obtain rfl : content = c := by
          rw [hloc, hentry] at hc
          simpa using hc
        exact ⟨hsets.sound, ⟨hold, hsets.here⟩, hsets.elsewhere⟩
  image_dir := fun himage => himage.2
  apart := .inr hapart.append_ne

section Swept

variable {d' : Disk}
  (hswept : Swept (isPruned outputs dest) policy.source dest.location (CopyImage policy) d d' [] rel)
include hswept

/-- Directories stay: no file is written over one. -/
theorem dir_of_swept (hdir : d.get? (dest.location ++ rel) = some .dir) :
    d'.get? (dest.location ++ rel) = some .dir := by
  obtain ⟨hreached, hnot⟩ := hswept
  rw [List.nil_append] at hreached hnot
  by_cases h : Reached (isPruned outputs dest) policy.source d [] rel
  · obtain ⟨e, -, himage⟩ := hreached h
    cases e with
    | dir => exact himage.2
    | file content =>
      rw [CopyImage] at himage
      split at himage
      · rw [himage, hdir]
      · exact absurd hdir himage.1
    | link goal => exact himage.elim
  · rw [hnot h, hdir]

/-- Where the source has no file, the target keeps its own. -/
theorem files_of_swept_none (hnone : d.files policy.source rel = none) :
    d'.files dest rel = d.files dest rel := by
  obtain ⟨hreached, hnot⟩ := hswept
  rw [List.nil_append] at hreached hnot
  by_cases h : Reached (isPruned outputs dest) policy.source d [] rel
  · obtain ⟨e, he, himage⟩ := hreached h
    cases e with
    | dir =>
      obtain ⟨hold, hnew⟩ := himage
      rw [Disk.files, Disk.fileAt_of_dir hnew]
      rcases hold with hold | hold <;> simp [Disk.files, Disk.fileAt, hold]
    | file content => simp [Disk.files, Disk.fileAt, he] at hnone
    | link goal => exact himage.elim
  · exact Disk.fileAt_congr (hnot h)

/-- Where it has one, the target gets it, unless it is excluded or below
logs. -/
theorem files_of_swept (hd : d.WellFormed) (hsource : policy.source.IsPlain)
    (hdest : dest.IsPlain) (hplain : ∀ o ∈ outputs, o.IsPlain)
    (hapart : ∀ o ∈ outputs, Path.Apart policy.source o)
    (hdestApart : Path.Apart policy.source dest) :
    d'.files dest rel =
      (copiedFiles policy (d.files policy.source) rel).or (d.files dest rel) := by
  cases hfile : d.files policy.source rel with
  | none =>
    rw [files_of_swept_none hswept hfile, copiedFiles, hfile, ite_self, Option.none_or]
  | some content =>
    have hget := Disk.fileAt_eq_some_iff.1 hfile
    have hiff := reached_iff_not_belowLogs hd hsource hdest hplain hapart hdestApart hget
    obtain ⟨hreached, hnot⟩ := hswept
    rw [List.nil_append] at hreached hnot
    by_cases hlogs : belowLogs policy.source rel
    · have hunreached := mt hiff.1 (by simp [hlogs])
      rw [copiedFiles, hlogs, Bool.or_true, if_pos rfl, Option.none_or]
      exact Disk.fileAt_congr (hnot hunreached)
    · rw [Bool.not_eq_true] at hlogs
      obtain ⟨e, he, himage⟩ := hreached (hiff.2 hlogs)
      obtain rfl : .file content = e := by simpa [hget] using he
      rw [CopyImage] at himage
      rw [copiedFiles, hlogs, Bool.or_false, hfile]
      split at himage
      · rename_i hexcluded
        rw [if_pos hexcluded, Option.none_or]
        exact Disk.fileAt_congr himage
      · rename_i hexcluded
        rw [if_neg hexcluded, Option.some_or]
        exact Disk.fileAt_eq_some_iff.2 himage.2

end Swept

/-- **A copy** brings the files of its source over to its target, which is
there already and apart from it, and changes nothing else. -/
theorem copy_ok (hs : w.disk.Sound) (hsource : policy.source.IsPlain) (hdest : dest.IsPlain)
    (hplain : ∀ o ∈ outputs, o.IsPlain) (hapart : ∀ o ∈ outputs, Path.Apart policy.source o)
    (hdestApart : Path.Apart policy.source dest)
    (hsourceDir : w.disk.get? policy.source.location = some .dir)
    (hdestDir : w.disk.get? dest.location = some .dir) {count : CopyCount}
    (hok : copy policy dest outputs w = .ok count w') :
    w'.disk.Sound ∧ (∀ l, ¬ dest.location <+: l → w'.disk.get? l = w.disk.get? l) ∧
      ∀ rel, (w.disk.get? (dest.location ++ rel) = some .dir →
          w'.disk.get? (dest.location ++ rel) = some .dir) ∧
        w'.disk.files dest rel =
          (copiedFiles policy (w.disk.files policy.source) rel).or (w.disk.files dest rel) := by
  obtain ⟨⟨⟩, w₁, hdirs, hvisit⟩ := Outcome.bind_ok hok
  have hmakes := createDirs_ok hs hdest hdirs
  -- the target is there, and so nothing has happened yet
  have hsame := hmakes.eq_of_dir hs hdestDir
  have hparent := hmakes.sound.dir_of_prefix (List.dropLast_prefix dest.location)
    (by rw [hsame, hdestDir])
  obtain ⟨hsound, houtside, hswept⟩ := (copy_visitor hsource hdest hdestApart).visit_ok
    hmakes.sound (by rw [hsame, hsourceDir]) hparent (Build.tallying_ok hvisit)
  dsimp only at hsound houtside hswept
  refine ⟨hsound, fun l hl => ?_, fun rel => ⟨fun hdir => ?_, ?_⟩⟩
  · rw [houtside l (by simpa using hl), hsame]
  · exact dir_of_swept (hswept rel) (by rw [hsame, hdir])
  · have hfiles : w₁.disk.files = w.disk.files :=
      funext fun _ => funext fun _ => Disk.fileAt_congr (hsame _)
    rw [files_of_swept (hswept rel) hmakes.sound.wellFormed hsource hdest hplain hapart hdestApart,
      hfiles]

end Tree

end DualPackage
