import DualPackage.Proofs.Tree.Walk
import DualPackage.Tree.Rewrite
/-!
# What a rewriting does to a tree

A rewriting treats each file below its root on its own: a file whose
extension is listed and whose bytes are valid UTF-8 has its text replaced,
and every other entry stays as it is (`rewrite_ok`). That a file whose
text does not change is not written makes no difference to the disk.
-/

namespace DualPackage

/-- The bytes that a function on texts makes of the bytes of a file. -/
def rewriteBytes (f : String → String) (content : ByteArray) : ByteArray :=
  match String.fromUTF8? content with
  | none => content
  | some text => (f text).toUTF8

theorem toUTF8_of_fromUTF8? {content : ByteArray} {text : String}
    (h : String.fromUTF8? content = some text) : text.toUTF8 = content := by
  unfold String.fromUTF8? at h
  split at h
  · obtain rfl := Option.some.inj h
    rfl
  · cases h

theorem fromUTF8?_toUTF8 (text : String) : String.fromUTF8? text.toUTF8 = some text :=
  dif_pos text.isValidUTF8

@[simp] theorem rewriteBytes_id : rewriteBytes id = id := by
  funext content
  cases h : String.fromUTF8? content with
  | none => simp [rewriteBytes, h]
  | some text =>
    rw [rewriteBytes, h]
    exact toUTF8_of_fromUTF8? h

/-- Texts rewritten twice. -/
theorem rewriteBytes_comp (g f : String → String) :
    rewriteBytes g ∘ rewriteBytes f = rewriteBytes (g ∘ f) := by
  funext content
  cases h : String.fromUTF8? content with
  | none => simp [rewriteBytes, h]
  | some text =>
    simp only [Function.comp_apply, rewriteBytes, h]
    rw [fromUTF8?_toUTF8]

namespace Tree

variable {w w' : World} {root path : Path} {extensions : List String} {f : String → String}
  {content : ByteArray}

/-- A function on texts, for files whose extension is listed. -/
def onListed (extensions : List String) (f : String → String) (path : Path) : String → String :=
  if hasListedExtension extensions path then f else id

/-- What a rewriting makes of an entry of its tree. -/
def rewrittenEntry (extensions : List String) (f : String → String) (path : Path) : Entry → Entry
  | .file content => .file (rewriteBytes (onListed extensions f path) content)
  | e => e

/-- A file is written only if its text changes. -/
theorem sourceFile_rewrite_ok (hs : w.disk.Sound) (hpath : path.IsPlain) {text : String}
    (hfile : w.disk.get? path.location = some (.file text.toUTF8)) {changed : Bool}
    (hok : (SourceFile.mk path text).rewrite f w = .ok changed w') :
    w.disk.Sets path.location (.file (f text).toUTF8) w'.disk := by
  unfold SourceFile.rewrite at hok
  dsimp only at hok
  split at hok
  · rename_i hsame
    obtain ⟨-, rfl⟩ := Outcome.pure_ok hok
    exact ⟨hs, by rw [hsame, hfile], fun _ _ => rfl⟩
  · obtain ⟨⟨⟩, w₁, hwrite, hok⟩ := Outcome.bind_ok hok
    obtain ⟨-, rfl⟩ := Outcome.pure_ok hok
    exact (Disk.writeFile_ok hs hpath (Build.update_ok hwrite)).1

/-- **Rewriting one file** replaces its text if it has one. -/
theorem rewriteFile_ok (hs : w.disk.Sound) (hpath : path.IsPlain)
    (hfile : w.disk.get? path.location = some (.file content)) {changed : Bool}
    (hok : rewriteFile f path w = .ok changed w') :
    w.disk.Sets path.location (.file (rewriteBytes f content)) w'.disk := by
  unfold rewriteFile at hok
  split at hok
  · rename_i hread
    -- bytes that are no text are left alone
    obtain ⟨c, hc, hinvalid⟩ := Disk.readText_invalid hs hpath hread
    obtain rfl : c = content := by simpa [hfile] using hc.symm
    obtain ⟨⟨⟩, w₁, hlog, hok⟩ := Outcome.bind_ok hok
    obtain ⟨-, rfl⟩ := Outcome.pure_ok hok
    rw [rewriteBytes, hinvalid, Build.log_ok hlog]
    exact ⟨hs, hfile, fun _ _ => rfl⟩
  · cases hok
  · rename_i text hread
    obtain ⟨c, hc, htext⟩ := Disk.readText_ok hs hpath hread
    obtain rfl : c = content := by simpa [hfile] using hc.symm
    rw [← toUTF8_of_fromUTF8? htext] at hfile
    rw [rewriteBytes, htext]
    exact sourceFile_rewrite_ok hs hpath hfile hok

/-- What a rewriting does about one entry. -/
theorem rewriteEntry_ok {s s' : World × Nat} {depth : Nat} {e : Entry} (hs : s.1.disk.Sound)
    (hpath : path.IsPlain) (hentry : s.1.disk.get? path.location = some e)
    (hok : rewriteEntry extensions f (.entry ⟨path, depth, e.isDir⟩) s = .ok ⟨⟩ s') :
    s.1.disk.Sets path.location (rewrittenEntry extensions f path e) s'.1.disk := by
  cases e with
  | link target => exact absurd hentry (hs.linkFree _ _)
  | dir =>
    obtain ⟨-, rfl⟩ := Outcome.pure_ok hok
    exact ⟨hs, hentry, fun _ _ => rfl⟩
  | file content =>
    rw [rewrittenEntry, onListed]
    by_cases hlisted : hasListedExtension extensions path
    · rw [if_pos hlisted]
      simp only [rewriteEntry, Entry.isDir, hlisted, Bool.not_false, Bool.and_self, if_true] at hok
      obtain ⟨changed, s₁, hfile, hok⟩ := Outcome.bind_ok hok
      have hdisk : s'.1.disk = s₁.1.disk := by
        split at hok <;> cases hok <;> rfl
      rw [hdisk]
      exact rewriteFile_ok hs hpath hentry (Build.untallied_ok hfile)
    · rw [if_neg hlisted, rewriteBytes_id, id_eq]
      simp only [rewriteEntry, hlisted, Bool.and_false, Bool.false_eq_true, if_false] at hok
      obtain ⟨-, rfl⟩ := Outcome.pure_ok hok
      exact ⟨hs, hentry, fun _ _ => rfl⟩

/-- A rewriting changes its tree in place. -/
theorem rewrite_visitor (hroot : root.IsPlain) :
    Visitor (fun s : World × Nat => s.1.disk) (rewriteEntry extensions f) root root.location
      fun path e _ new => new = some (rewrittenEntry extensions f path e) where
  root_isPlain := hroot
  act_ok := by
    intro rel depth e s s' hs hentry _ hok
    obtain ⟨hpath, hloc⟩ := Path.isPlain_under hroot (hs.wellFormed.isName_of_mem hentry)
    rw [← hloc] at hentry ⊢
    obtain ⟨hsound, hhere, helse⟩ := rewriteEntry_ok hs hpath hentry hok
    exact ⟨hsound, hhere, helse⟩
  image_dir := fun himage => himage
  apart := .inl rfl

/-- A walk that leaves nothing out reaches all that there is. -/
theorem reached_of_exists {d : Disk} (hs : d.Sound) {rel rest : List String} {e : Entry}
    (h : d.get? (root.location ++ (rel ++ rest)) = some e) :
    Reached (fun _ => false) root d rel rest := by
  induction rest generalizing rel with
  | nil =>
    rw [List.append_nil] at h
    cases e with
    | dir => exact .inl ⟨h, .inr rfl⟩
    | file content => exact .inr ⟨content, h⟩
    | link target => exact absurd h (hs.linkFree _ _)
  | cons n rest ih =>
    refine ⟨⟨?_, .inr rfl⟩, ih (by simpa using h)⟩
    rw [← List.append_assoc] at h
    exact hs.wellFormed.dir_of_append (List.cons_ne_nil n rest) h

/-- **A rewriting** changes the files below its root, each by itself, and
nothing else. -/
theorem rewrite_ok (hs : w.disk.Sound) (hroot : root.IsPlain)
    (hdir : w.disk.get? root.location = some .dir) {changed : Nat}
    (hok : rewrite root extensions f w = .ok changed w') :
    w'.disk.Sound ∧ (∀ l, ¬ root.location <+: l → w'.disk.get? l = w.disk.get? l) ∧
      ∀ rel, w'.disk.get? (root.location ++ rel) =
        (w.disk.get? (root.location ++ rel)).map
          (rewrittenEntry extensions f (root.under rel)) := by
  have hparent := hs.dir_of_prefix (List.dropLast_prefix root.location) hdir
  obtain ⟨hsound, houtside, hswept⟩ :=
    (rewrite_visitor hroot).visit_ok hs hdir hparent (Build.tallying_ok hok)
  refine ⟨hsound, fun l hl => houtside l (by simpa using hl), fun rel => ?_⟩
  obtain ⟨hreached, hnot⟩ := hswept rel
  rw [List.nil_append] at hreached hnot
  -- nothing is left out, so what is not reached was not there
  cases hentry : w.disk.get? (root.location ++ rel) with
  | none =>
    rw [Option.map_none, hnot fun h => ?_, hentry]
    obtain ⟨e, he⟩ := exists_of_reached h
    simp [hentry] at he
  | some e =>
    obtain ⟨e', he', himage⟩ := hreached (reached_of_exists hs hentry)
    obtain rfl : e = e' := by simpa [hentry] using he'
    exact himage

end Tree

end DualPackage
