import DualPackage.Proofs.Disk.Resolve
import DualPackage.Proofs.Run.Outcome
/-!
# What the file operations do

On a sound disk, which is well formed and without links, a file operation
that succeeds changes one location: the place of its path (`Sets`). For a
plain path this is the location it spells. Making a directory with all
that are missing above it changes the locations on the way to it, and no
others (`MakesDirs`).
-/

namespace DualPackage

namespace Disk

/-- A well-formed disk without links. -/
structure Sound (d : Disk) : Prop where
  wellFormed : d.WellFormed
  linkFree : d.LinkFree

/-- The disk `d'` is `d` with an entry at a location. -/
structure Sets (d : Disk) (loc : Location) (entry : Entry) (d' : Disk) : Prop where
  sound : d'.Sound
  here : d'.get? loc = some entry
  elsewhere : ∀ l, l ≠ loc → d'.get? l = d.get? l

/-- The disk `d'` is `d` with a directory at a location and at all above it,
where nothing else stood. -/
structure MakesDirs (d : Disk) (loc : Location) (d' : Disk) : Prop where
  sound : d'.Sound
  before : ∀ l, l <+: loc → d.get? l = none ∨ d.get? l = some .dir
  onWay : ∀ l, l <+: loc → d'.get? l = some .dir
  elsewhere : ∀ l, ¬ l <+: loc → d'.get? l = d.get? l

variable {d d₁ d' : Disk} {p source target : Path} {loc above : Location} {name : String}
  {entry : Entry} {content : ByteArray}

/-- The disk with nothing on it. -/
theorem sound_blank : (Disk.mk [] []).Sound where
  wellFormed :=
    { ordered := .nil
      parent_dir := by simp [get?, find]
      proper_name := by simp [get?, find]
      not_root := by simp
      cwd_dir := rfl }
  linkFree := by simp [LinkFree, get?, find]

theorem Sound.isName_of_mem_children (h : d.Sound) {c : String × Entry} (hc : c ∈ d.children loc) :
    Path.IsName c.1 :=
  h.wellFormed.isName (h.wellFormed.mem_children.1 hc)

/-- A new entry, or a file in place of a file. -/
theorem Sound.sets (h : d.Sound) (hdir : d.get? above = some .dir) (hname : Path.IsName name)
    (hentry : ∀ target, entry ≠ .link target)
    (hold : d.get? (above ++ [name]) ≠ some .dir) :
    d.Sets (above ++ [name]) entry (d.set (above ++ [name]) entry) where
  sound := ⟨h.wellFormed.set hdir hname (.inl hold), h.linkFree.set hentry (by simp)⟩
  here := get?_set_self (by simp) entry
  elsewhere := fun _ hl => get?_set_ne hl entry

theorem Sound.set (h : d.Sound) (above : Location) (name : String) (entry : Entry)
    (hdir : d.get? above = some .dir) (hname : Path.IsName name)
    (hentry : ∀ target, entry ≠ .link target) (hold : d.get? (above ++ [name]) ≠ some .dir) :
    (d.set (above ++ [name]) entry).Sound :=
  (h.sets hdir hname hentry hold).sound

/-- A file, or a free place for one, is under a name right in a directory. -/
theorem Sound.exists_above (h : d.Sound)
    (hplace : (∃ content, d.get? loc = some (.file content)) ∨
      d.get? loc = none ∧
        ∃ above name, loc = above ++ [name] ∧ d.get? above = some .dir ∧ Path.IsName name) :
    ∃ above name, loc = above ++ [name] ∧ d.get? above = some .dir ∧ Path.IsName name := by
  rcases hplace with ⟨content, hfile⟩ | ⟨-, hfree⟩
  · rcases List.eq_nil_or_concat loc with rfl | ⟨above, name, rfl⟩
    · -- no file stands at the root
      rw [get?_root] at hfile
      cases hfile
    · rw [List.concat_eq_append] at hfile ⊢
      exact ⟨above, name, rfl, h.wellFormed.parent_dir _ _ _ hfile, h.wellFormed.isName hfile⟩
  · exact hfree

theorem writable_ok (h : d.Sound) (hok : d.writable p = .ok loc) :
    loc = p.place d.cwd ∧ ((∃ content, d.get? loc = some (.file content)) ∨
      d.get? loc = none ∧
        ∃ above name, loc = above ++ [name] ∧ d.get? above = some .dir ∧ Path.IsName name) := by
  rw [writable, bind_eq_ok] at hok
  obtain ⟨spot, hspot, hanswer⟩ := hok
  have hstands := resolve_standsAt_place (.inr h.wellFormed) h.linkFree hspot
  cases spot with
  | dir l => cases hanswer
  | file l content slash =>
    cases slash with
    | true => cases hanswer
    | false =>
      cases hanswer
      exact ⟨hstands.1, .inl ⟨content, hstands.1 ▸ hstands.2⟩⟩
  | link l => exact hstands.elim
  | free l slash =>
    cases slash with
    | true => cases hanswer
    | false =>
      cases hanswer
      exact ⟨hstands.1, .inr (hstands.1 ▸ hstands.2)⟩

/-- What can be written ends in a name, right in a directory, and is no
directory itself. -/
theorem exists_above_of_writable (h : d.Sound) (hok : d.writable p = .ok loc) :
    ∃ above name, loc = above ++ [name] ∧ d.get? above = some .dir ∧ Path.IsName name ∧
      d.get? loc ≠ some .dir := by
  obtain ⟨-, hplace⟩ := writable_ok h hok
  obtain ⟨above, name, hloc, hdir, hname⟩ := h.exists_above hplace
  refine ⟨above, name, hloc, hdir, hname, ?_⟩
  rcases hplace with ⟨content, hfile⟩ | ⟨hnone, -⟩
  · simp [hfile]
  · simp [hnone]

/-- **Writing a file** puts it at the place of its path, where no directory
stood. -/
theorem writeFile_sets (h : d.Sound) (hok : d.writeFile p content = .ok d') :
    d.Sets (p.place d.cwd) (.file content) d' ∧ d.get? (p.place d.cwd) ≠ some .dir := by
  rw [writeFile, bind_eq_ok] at hok
  obtain ⟨loc, hwritable, hset⟩ := hok
  cases hset
  obtain ⟨above, name, rfl, hdir, hname, hold⟩ := exists_above_of_writable h hwritable
  rw [← (writable_ok h hwritable).1]
  exact ⟨h.sets hdir hname (by simp) hold, hold⟩

theorem writeFile_ok (h : d.Sound) (hp : p.IsPlain) (hok : d.writeFile p content = .ok d') :
    d.Sets p.location (.file content) d' ∧ d.get? p.location ≠ some .dir := by
  rw [← hp.place_eq d.cwd]
  exact writeFile_sets h hok

/-- **Copying a file** puts its bytes at the place of the target. A file
copied onto itself has been emptied before. -/
theorem copyFile_sets (h : d.Sound) (hok : d.copyFile source target = .ok d') :
    ∃ content old, d.get? (source.place d.cwd) = some (.file old) ∧
      d.Sets (target.place d.cwd) (.file content) d' ∧
      d.get? (target.place d.cwd) ≠ some .dir ∧
      (source.place d.cwd ≠ target.place d.cwd → content = old) := by
  rw [copyFile, bind_eq_ok] at hok
  obtain ⟨standing, hstat, hok⟩ := hok
  have hstands := stat_standsAt_place (.inr h.wellFormed) h.linkFree hstat
  cases standing with
  | dir l => cases hok
  | file l old =>
    obtain ⟨rfl, hfile⟩ := hstands
    dsimp only at hok
    rw [bind_eq_ok] at hok
    obtain ⟨goal, hwritable, hset⟩ := hok
    cases hset
    obtain ⟨above, name, rfl, hdir, hname, hold⟩ := exists_above_of_writable h hwritable
    rw [← (writable_ok h hwritable).1]
    -- the target is emptied first, and then written with what the source holds by then
    have hfirst : d.Sets (above ++ [name]) (.file .empty) (d.set (above ++ [name]) (.file .empty)) :=
      h.sets hdir hname (by simp) hold
    set emptied := d.set (above ++ [name]) (.file .empty)
    have habove : emptied.get? above = some .dir := by
      rw [hfirst.elsewhere above (by simp), hdir]
    have hsecond : emptied.Sets (above ++ [name])
        (.file (emptied.contentAt (source.place d.cwd))) _ :=
      hfirst.sound.sets habove hname (by simp) (by rw [hfirst.here]; simp)
    refine ⟨_, old, hfile, ⟨hsecond.sound, hsecond.here, fun l hl => ?_⟩, hold, fun hne => ?_⟩
    · rw [hsecond.elsewhere l hl, hfirst.elsewhere l hl]
    · rw [contentAt, hfirst.elsewhere _ hne, hfile]

theorem copyFile_ok (h : d.Sound) (hsource : source.IsPlain) (htarget : target.IsPlain)
    (hne : source.location ≠ target.location) (hok : d.copyFile source target = .ok d') :
    ∃ content, d.get? source.location = some (.file content) ∧
      d.Sets target.location (.file content) d' ∧ d.get? target.location ≠ some .dir := by
  rw [← hsource.place_eq d.cwd, ← htarget.place_eq d.cwd] at *
  obtain ⟨content, old, hfile, hsets, hold, hsame⟩ := copyFile_sets h hok
  obtain rfl := hsame hne
  exact ⟨content, hfile, hsets, hold⟩

/-! ## Reading -/

theorem readFile_ok (h : d.Sound) (hp : p.IsPlain) (hok : d.readFile p = .ok content) :
    d.get? p.location = some (.file content) := by
  rw [readFile, bind_eq_ok] at hok
  obtain ⟨standing, hstat, hanswer⟩ := hok
  have hstands := stat_standsAt h.linkFree hp hstat
  cases standing with
  | dir l => cases hanswer
  | file l c =>
    cases hanswer
    exact hstands.2

theorem readFile_ne_invalidText (d : Disk) (p : Path) :
    d.readFile p ≠ .error .invalidText := by
  intro hread
  rw [readFile, bind_eq_error] at hread
  rcases hread with hfault | ⟨standing, -, hanswer⟩
  · exact stat_ne_invalidText d p hfault
  · cases standing <;> cases hanswer

/-- A file that is not valid UTF-8 is told from all other faults. -/
theorem readText_invalid (h : d.Sound) (hp : p.IsPlain)
    (hread : d.readText p = .error .invalidText) :
    ∃ content, d.get? p.location = some (.file content) ∧ String.fromUTF8? content = none := by
  rw [readText, bind_eq_error] at hread
  rcases hread with hfault | ⟨content, hfile, htext⟩
  · exact absurd hfault (readFile_ne_invalidText d p)
  · refine ⟨content, readFile_ok h hp hfile, ?_⟩
    split at htext
    · cases htext
    · assumption

theorem readText_of_stat {loc : Location} (h : d.stat p = .ok (.file loc content)) :
    d.readText p = match String.fromUTF8? content with
      | some text => .ok text
      | none => .error .invalidText := by
  rw [readText, readFile, h]
  rfl

theorem readText_eq_ok {text : String} (hread : d.readText p = .ok text) :
    ∃ content, d.readFile p = .ok content ∧ String.fromUTF8? content = some text := by
  rw [readText, bind_eq_ok] at hread
  obtain ⟨content, hfile, htext⟩ := hread
  refine ⟨content, hfile, ?_⟩
  split at htext
  · cases htext
    assumption
  · cases htext

theorem readText_ok (h : d.Sound) (hp : p.IsPlain) {text : String}
    (hread : d.readText p = .ok text) :
    ∃ content, d.get? p.location = some (.file content) ∧
      String.fromUTF8? content = some text := by
  obtain ⟨content, hfile, htext⟩ := readText_eq_ok hread
  exact ⟨content, readFile_ok h hp hfile, htext⟩

/-! ## Making directories -/

theorem makeDir_sets (h : d.Sound) (hok : d.makeDir p = .ok d') :
    d.Sets (p.place d.cwd) .dir d' ∧ d.get? (p.place d.cwd) = none ∧
      ∃ above name, p.place d.cwd = above ++ [name] ∧ d.get? above = some .dir := by
  rw [makeDir, bind_eq_ok] at hok
  obtain ⟨spot, hspot, hanswer⟩ := hok
  have hstands := resolve_standsAt_place (.inr h.wellFormed) h.linkFree hspot
  cases spot with
  | dir l | file l content slash => cases hanswer
  | link l => exact hstands.elim
  | free l slash =>
    cases hanswer
    obtain ⟨rfl, hnone, above, name, hloc, hdir, hname⟩ := hstands
    refine ⟨?_, hnone, above, name, hloc, hdir⟩
    rw [hloc] at hnone ⊢
    exact h.sets hdir hname (by simp) (by simp [hnone])

/-- Above a directory stand directories. -/
theorem Sound.dir_of_prefix (h : d.Sound) {l : Location} (hl : l <+: loc)
    (hdir : d.get? loc = some .dir) : d.get? l = some .dir := by
  obtain ⟨rest, rfl⟩ := hl
  by_cases hne : rest = []
  · simpa [hne] using hdir
  · exact h.wellFormed.dir_of_append hne hdir

/-- A directory that is there already. -/
theorem Sound.makesDirs_of_dir (h : d.Sound) (hdir : d.get? loc = some .dir) :
    d.MakesDirs loc d where
  sound := h
  before := fun _ hl => .inr (h.dir_of_prefix hl hdir)
  onWay := fun _ hl => h.dir_of_prefix hl hdir
  elsewhere := fun _ _ => rfl

/-- A new directory right in one that is there. -/
theorem Sets.makesDirs (h : d.Sound) (hsets : d.Sets (above ++ [name]) .dir d')
    (hold : d.get? (above ++ [name]) = none) (hdir : d.get? above = some .dir) :
    d.MakesDirs (above ++ [name]) d' where
  sound := hsets.sound
  before := fun l hl => by
    by_cases heq : l = above ++ [name]
    · exact .inl (heq ▸ hold)
    · have hl' : l <+: above := (List.prefix_concat_iff.1 hl).resolve_left (by simpa using heq)
      exact .inr (h.dir_of_prefix hl' hdir)
  onWay := fun _ hl => hsets.sound.dir_of_prefix hl hsets.here
  elsewhere := fun l hl => hsets.elsewhere l fun heq => hl (heq ▸ List.prefix_refl _)

/-- Directories first to one location, and from there to one below. -/
theorem MakesDirs.trans (h₁ : d.MakesDirs above d₁) (h₂ : d₁.MakesDirs (above ++ [name]) d') :
    d.MakesDirs (above ++ [name]) d' where
  sound := h₂.sound
  before := fun l hl => by
    by_cases habove : l <+: above
    · exact h₁.before l habove
    · rw [← h₁.elsewhere l habove]
      exact h₂.before l hl
  onWay := h₂.onWay
  elsewhere := fun l hl => by
    have habove : ¬ l <+: above := fun h => hl (h.trans (List.prefix_append ..))
    rw [h₂.elsewhere l hl, h₁.elsewhere l habove]

/-- Where the directory above is there already, only the location itself
changes. -/
theorem MakesDirs.elsewhere_of_above (hmakes : d.MakesDirs loc d') (h : d.Sound)
    (habove : d.get? loc.dropLast = some .dir) {l : Location} (hl : l ≠ loc) :
    d'.get? l = d.get? l := by
  by_cases hprefix : l <+: loc
  · obtain ⟨rest, rfl⟩ := hprefix
    have hrest : rest ≠ [] := by
      rintro rfl
      simp at hl
    have hdir : d.get? l = some .dir := by
      rw [List.dropLast_append_of_ne_nil hrest] at habove
      exact h.dir_of_prefix (List.prefix_append l _) habove
    rw [hdir, hmakes.onWay l (List.prefix_append l rest)]
  · exact hmakes.elsewhere l hprefix

/-- Where the directory itself is there already, nothing changes. -/
theorem MakesDirs.eq_of_dir (hmakes : d.MakesDirs loc d') (h : d.Sound)
    (hdir : d.get? loc = some .dir) (l : Location) : d'.get? l = d.get? l := by
  by_cases hl : l = loc
  · rw [hl, hdir, hmakes.onWay loc (List.prefix_refl _)]
  · exact hmakes.elsewhere_of_above h (h.dir_of_prefix (List.dropLast_prefix loc) hdir) hl

/-! ## Files -/

/-- The bytes of the file at a location, if one stands there. -/
def fileAt (d : Disk) (loc : Location) : Option ByteArray :=
  match d.get? loc with
  | some (.file content) => some content
  | _ => none

theorem fileAt_eq_some_iff : d.fileAt loc = some content ↔ d.get? loc = some (.file content) := by
  unfold fileAt
  split
  · rename_i c hc
    simp [hc]
  · rename_i h
    exact iff_of_false (by simp) (h content)

/-- The files below a path, by the names on the way to them. -/
def files (d : Disk) (root : Path) (rel : List String) : Option ByteArray :=
  d.fileAt (root.location ++ rel)

theorem fileAt_of_dir (h : d.get? loc = some .dir) : d.fileAt loc = none := by
  simp [fileAt, h]

theorem fileAt_congr (h : d'.get? loc = d.get? loc) : d'.fileAt loc = d.fileAt loc := by
  simp [fileAt, h]

/-- Making directories makes no file and replaces none. -/
theorem MakesDirs.fileAt_eq (hmakes : d.MakesDirs loc d') (l : Location) :
    d'.fileAt l = d.fileAt l := by
  by_cases hl : l <+: loc
  · rw [fileAt_of_dir (hmakes.onWay l hl)]
    rcases hmakes.before l hl with h | h <;> simp [fileAt, h]
  · exact fileAt_congr (hmakes.elsewhere l hl)

theorem MakesDirs.dirs (hmakes : d.MakesDirs loc d') {l : Location}
    (hdir : d.get? l = some .dir) : d'.get? l = some .dir := by
  by_cases hl : l <+: loc
  · exact hmakes.onWay l hl
  · rw [hmakes.elsewhere l hl, hdir]

end Disk

namespace DiskM

variable {d d' : Disk} {p : Path}

theorem makesDirs_of_makeDir (h : d.Sound) (hp : p.IsPlain) (hok : d.makeDir p = .ok d') :
    d.MakesDirs p.location d' := by
  rw [← hp.place_eq d.cwd]
  obtain ⟨hsets, hnone, above, name, hloc, hdir⟩ := Disk.makeDir_sets h hok
  rw [hloc] at hsets hnone ⊢
  exact hsets.makesDirs h hnone hdir

theorem ensureDir_ok (h : d.Sound) (hp : p.IsPlain) (hok : ensureDir p d = .ok () d') :
    d.MakesDirs p.location d' := by
  unfold ensureDir at hok
  split at hok
  · rename_i d₁ hmake
    obtain rfl : d₁ = d' := by simpa using hok
    exact makesDirs_of_makeDir h hp hmake
  · split at hok
    · rename_i hisDir
      obtain rfl : d = d' := by simpa using hok
      exact h.makesDirs_of_dir (Disk.get?_of_isDir h.linkFree hp hisDir)
    · cases hok

/-- A directory is made right away, or those above it are made first. -/
theorem createDirBelow_cons_ok (h : d.Sound) (hp : p.IsPlain) {parent : Path} {above : List Path}
    (hok : createDirBelow (parent :: above) p d = .ok () d') :
    d.MakesDirs p.location d' ∨
      ∃ d₁, createDirBelow above parent d = .ok () d₁ ∧ ensureDir p d₁ = .ok () d' := by
  unfold createDirBelow at hok
  split at hok
  · rename_i d₁ hmake
    obtain rfl : d₁ = d' := by simpa using hok
    exact .inl (makesDirs_of_makeDir h hp hmake)
  · obtain ⟨⟨⟩, d₁, habove, hhere⟩ := Outcome.bind_ok hok
    exact .inr ⟨d₁, habove, hhere⟩
  · split at hok
    · rename_i hisDir
      obtain rfl : d = d' := by simpa using hok
      exact .inl (h.makesDirs_of_dir (Disk.get?_of_isDir h.linkFree hp hisDir))
    · cases hok

/-- **Making a directory and all above it.** The induction is on the
location: where the directory above is missing, it is made first. -/
theorem createDirAll_ok (h : d.Sound) (hp : p.IsPlain) (hok : createDirAll p d = .ok () d') :
    d.MakesDirs p.location d' := by
  unfold createDirAll at hok
  induction hloc : p.location using List.reverseRecOn generalizing p d' with
  | nil =>
    -- above the root there is only the empty path, which is never made
    have hancestors : p.ancestors = [⟨""⟩] := by
      rw [Path.ancestors, hp.components_eq, hloc]
      rfl
    rw [hancestors] at hok
    rcases createDirBelow_cons_ok h hp hok with hmakes | ⟨d₁, habove, hhere⟩
    · rwa [hloc] at hmakes
    · obtain ⟨-, rfl⟩ := Outcome.pure_ok (show (pure () : DiskM Unit) d = .ok () d₁ from habove)
      have := ensureDir_ok h hp hhere
      rwa [hloc] at this
  | append_singleton above name ih =>
    obtain ⟨parent, hparent, hparentLoc, hancestors⟩ := hp.ancestors_eq hloc
    rw [hancestors] at hok
    rcases createDirBelow_cons_ok h hp hok with hmakes | ⟨d₁, habove, hhere⟩
    · rwa [hloc] at hmakes
    · have hfirst := ih hparent habove hparentLoc
      have hsecond := ensureDir_ok hfirst.sound hp hhere
      rw [hloc] at hsecond
      exact hfirst.trans hsecond

end DiskM

end DualPackage
