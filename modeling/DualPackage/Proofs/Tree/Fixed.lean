import DualPackage.Proofs.Disk.Again
import DualPackage.Proofs.Tree.Course
import DualPackage.Proofs.Tree.Rewrite
/-!
# Rewritings done again

A rewriting that has succeeded once succeeds on any disk where files have
been written over since: it finds the same files, and can read and write
each of them (`Readable`, `exists_rewrite`). It counts no file if and only
if its function leaves the text of each of them as it is (`Fixed`), and
then it leaves the disk as it is.
-/

namespace DualPackage

/-- A part of a run that counts what it changes, and changes nothing if and
only if everything is as it is to be. -/
structure Counts (fixed : Prop) (d d' : Disk) (n : ℕ) : Prop where
  zero_iff : n = 0 ↔ fixed
  disk_eq : n = 0 → d' = d

namespace Counts

variable {p q q' : Prop} {d d₁ d' : Disk} {m n : ℕ}

/-- Nothing is changed, and nothing has to be. -/
theorem zero (h : p) : Counts p d d 0 :=
  ⟨iff_of_true rfl h, fun _ => rfl⟩

/-- Something is changed, since it has to be. -/
theorem pos (h : ¬ p) (hn : n ≠ 0) : Counts p d d' n :=
  ⟨iff_of_false hn h, fun hzero => absurd hzero hn⟩

theorem congr (h : Counts p d d' n) (hiff : p ↔ q) : Counts q d d' n :=
  ⟨h.zero_iff.trans hiff, h.disk_eq⟩

/-- Two parts, one after the other. What the second asks for may be told
from the first disk, since it is only asked for if that has not changed. -/
theorem add (h : Counts p d d₁ m) (h' : Counts q d₁ d' n) (hq : d₁ = d → (q ↔ q')) :
    Counts (p ∧ q') d d' (m + n) := by
  constructor
  · rw [Nat.add_eq_zero_iff, h.zero_iff, h'.zero_iff]
    exact and_congr_right fun hp => hq (h.disk_eq (h.zero_iff.2 hp))
  · intro hsum
    obtain ⟨hm, hn⟩ := Nat.add_eq_zero_iff.1 hsum
    rw [h'.disk_eq hn, h.disk_eq hm]

end Counts

namespace Tree

open Disk Outcome

variable {written : Location → Prop} {root path : Path} {extensions : List String}
  {f : String → String} {d d' : Disk} {w w' : World} {s s' : World × ℕ} {loc : Location}
  {content : ByteArray} {names : List String} {x : Stop} {l : List Stop} {n : ℕ}

/-- The entry that a rewriting stops at is a file whose extension is listed. -/
def IsTaken (extensions : List String) (root : Path) (x : Stop) : Prop :=
  x.isDir = false ∧ hasListedExtension extensions (root.under x.names)

/-- There is a file by the path. -/
def IsFile (d : Disk) (path : Path) : Prop :=
  ∃ loc content, d.stat path = .ok (.file loc content)

/-- The text of the file by the path, if it is one, stays as it is. -/
def FixedAt (f : String → String) (d : Disk) (path : Path) : Prop :=
  ∀ text, d.readText path = .ok text → f text = text

theorem IsFile.retouched (h : IsFile d path) (hretouched : d.Retouched written d') :
    IsFile d' path := by
  obtain ⟨loc, content, hstat⟩ := h
  have hgrows : d.Grows nowhere written d' := hretouched.grows
  obtain ⟨new, hnew⟩ := hgrows.file (get?_of_stat hstat)
  exact ⟨loc, new, hgrows.stat hnew hstat⟩

/-! ## One file -/

/-- What can be rewritten is a file. -/
theorem isFile_of_rewriteFile {changed : Bool} (hok : rewriteFile f path w = .ok changed w') :
    IsFile w.disk path := by
  have hread : ∃ content, w.disk.readFile path = .ok content := by
    unfold rewriteFile at hok
    split at hok
    · rename_i hinvalid
      rw [readText, bind_eq_error] at hinvalid
      rcases hinvalid with hfault | ⟨content, hfile, -⟩
      · exact absurd hfault (readFile_ne_invalidText w.disk path)
      · exact ⟨content, hfile⟩
    · cases hok
    · rename_i text htext
      obtain ⟨content, hfile, -⟩ := readText_eq_ok htext
      exact ⟨content, hfile⟩
  obtain ⟨content, hfile⟩ := hread
  obtain ⟨loc, hstat⟩ := readFile_eq_ok_iff.1 hfile
  exact ⟨loc, content, hstat⟩

/-- **A file that is there** can be rewritten. It is changed if its text is,
and otherwise the disk stays as it is. -/
theorem exists_rewriteFile (h : IsFile w.disk path) (f : String → String) :
    ∃ changed w', rewriteFile f path w = .ok changed w' ∧
      Counts (FixedAt f w.disk path) w.disk w'.disk changed.toNat := by
  obtain ⟨loc, content, hstat⟩ := h
  have hread := readText_of_stat hstat
  cases htext : String.fromUTF8? content with
  | none =>
    rw [htext] at hread
    refine ⟨false, { w with log := w.log ++ [.invalidText path] }, ?_, .zero ?_⟩
    · simp only [rewriteFile, hread]
      rfl
    · intro text hok
      rw [hread] at hok
      cases hok
  | some text =>
    rw [htext] at hread
    by_cases hsame : f text = text
    · refine ⟨false, w, ?_, .zero ?_⟩
      · simp only [rewriteFile, hread, SourceFile.rewrite, if_pos hsame]
        rfl
      · intro other hok
        rw [hread] at hok
        cases hok
        exact hsame
    · have hwrite : w.disk.writeFile path (f text).toUTF8 =
          .ok (w.disk.set loc (.file (f text).toUTF8)) := by
        rw [writeFile, writable_of_stat hstat]
        rfl
      refine ⟨true, { w with disk := w.disk.set loc (.file (f text).toUTF8) }, ?_, .pos ?_ ?_⟩
      · simp only [rewriteFile, hread, SourceFile.rewrite, if_neg hsame]
        simp only [bind, EStateM.bind, Build.onDisk, DiskM.update, hwrite]
        rfl
      · exact fun hfixed => hsame (hfixed text hread)
      · decide

/-- One stop of a rewriting. -/
theorem exists_rewriteEntry (h : IsTaken extensions root x → IsFile s.1.disk (root.under x.names)) :
    ∃ n w', rewriteEntry extensions f (x.sighting root) s = .ok ⟨⟩ (w', s.2 + n) ∧
      Counts (IsTaken extensions root x → FixedAt f s.1.disk (root.under x.names))
        s.1.disk w'.disk n := by
  by_cases htaken : IsTaken extensions root x
  · obtain ⟨changed, w', hrewrite, hcounts⟩ := exists_rewriteFile (h htaken) f
    refine ⟨changed.toNat, w', ?_, hcounts.congr ⟨fun h _ => h, fun h => h htaken⟩⟩
    have hcond : (!x.isDir && hasListedExtension extensions (root.under x.names)) = true := by
      simp [htaken.1, htaken.2]
    simp only [Stop.sighting, rewriteEntry, hcond, if_true, bind, EStateM.bind, Build.untallied,
      hrewrite]
    cases changed <;> rfl
  · refine ⟨0, s.1, ?_, .zero fun h => absurd h htaken⟩
    have hcond : (!x.isDir && hasListedExtension extensions (root.under x.names)) = false := by
      rw [IsTaken, not_and] at htaken
      cases hdir : x.isDir
      · simpa using htaken hdir
      · rfl
    simp only [Stop.sighting, rewriteEntry, hcond]
    rfl

/-- **All stops of a rewriting**, by induction on what is left of them. -/
theorem exists_forM_rewriteEntry (hs : s.1.disk.Sound)
    (h : ∀ x ∈ l, IsTaken extensions root x → IsFile s.1.disk (root.under x.names)) :
    ∃ n w', l.forM (fun x => rewriteEntry extensions f (x.sighting root)) s =
        .ok ⟨⟩ (w', s.2 + n) ∧
      Counts (∀ x ∈ l, IsTaken extensions root x → FixedAt f s.1.disk (root.under x.names))
        s.1.disk w'.disk n := by
  induction l generalizing s with
  | nil => exact ⟨0, s.1, rfl, .zero (by simp)⟩
  | cons x l ih =>
    obtain ⟨hhere, hrest⟩ := List.forall_mem_cons.1 h
    obtain ⟨m, w₁, hfirst, hcounts⟩ := exists_rewriteEntry (f := f) hhere
    obtain ⟨⟨⟨hs₁, -⟩, -⟩, hretouched⟩ :=
      (rewriteEntry_inPlace s.1.disk f (x.sighting root)).step (inPlace_start hs) hfirst
    obtain ⟨n, w', hothers, hcountsRest⟩ := ih (s := (w₁, s.2 + m)) hs₁ fun y hy htaken =>
      (hrest y hy htaken).retouched hretouched
    refine ⟨m + n, w', ?_, ?_⟩
    · rw [List.forM_eq_forM, List.forM_cons]
      simp only [bind, EStateM.bind, hfirst]
      rw [← Nat.add_assoc]
      exact hothers
    · rw [List.forall_mem_cons]
      exact hcounts.add hcountsRest fun hdisk => by rw [hdisk]

/-! ## One tree -/

/-- A rewriting finds its root, and can read every file that it takes. -/
structure Readable (extensions : List String) (root : Path) (d : Disk) : Prop where
  found : ∃ standing, d.stat root = .ok standing
  files : ∀ x ∈ stops (fun _ => false) root d, IsTaken extensions root x →
    IsFile d (root.under x.names)

/-- The function leaves every text that a rewriting takes as it is. -/
def Fixed (extensions : List String) (f : String → String) (root : Path) (d : Disk) : Prop :=
  ∀ x ∈ stops (fun _ => false) root d, IsTaken extensions root x → FixedAt f d (root.under x.names)

/-- **A rewriting is a pass over its stops.** -/
theorem rewrite_eq (hs : w.disk.Sound) {standing : Standing}
    (hstat : w.disk.stat root = .ok standing) :
    rewrite root extensions f w = Build.tallying 0
      ((stops (fun _ => false) root w.disk).forM fun x =>
        rewriteEntry extensions f (x.sighting root)) w := by
  have hvisit : visit (fun s : World × ℕ => s.1.disk) Failure.walk (fun _ => false)
      (rewriteEntry extensions f) root (w, 0) = _ :=
    visit_eq (C := inPlace w.disk) (inPlace_start (s := (w, 0)) hs) inPlace_keepsKinds hstat
      fun x _ => rewriteEntry_inPlace _ f _
  rw [rewrite, Build.tallying, Build.tallying, hvisit]

/-- **A rewriting of files that are there** succeeds. -/
theorem exists_rewrite (hs : w.disk.Sound) (h : Readable extensions root w.disk)
    (f : String → String) :
    ∃ n w', rewrite root extensions f w = .ok n w' ∧
      Counts (Fixed extensions f root w.disk) w.disk w'.disk n := by
  obtain ⟨standing, hstat⟩ := h.found
  obtain ⟨n, w', hpass, hcounts⟩ := exists_forM_rewriteEntry (s := (w, 0)) (f := f) hs h.files
  refine ⟨n, w', ?_, hcounts⟩
  rw [rewrite_eq hs hstat, Build.tallying, hpass, Nat.zero_add]

/-- What can be read stays so while files are written over. -/
theorem Readable.retouched (h : Readable extensions root d) (hs : d.Sound)
    (hretouched : d.Retouched written d') (hs' : d'.Sound) : Readable extensions root d' := by
  obtain ⟨standing, hstat⟩ := h.found
  have hgrows : d.Grows nowhere written d' := hretouched.grows
  obtain ⟨standing', hstat'⟩ := hgrows.exists_stat hs hstat
  refine ⟨⟨standing', hstat'⟩, fun x hx htaken => ?_⟩
  rw [stops_congr hs hstat (fun _ _ => rfl) hs' hretouched.cwd hstat' fun names _ _ =>
    hretouched.kindAt_eq _] at hx
  exact (h.files x hx htaken).retouched hretouched

/-- **A rewriting that succeeds** leaves files that can be read. -/
theorem readable_of_rewrite (hs : w.disk.Sound) (hok : rewrite root extensions f w = .ok n w') :
    Readable extensions root w'.disk := by
  obtain ⟨standing, hstat⟩ := exists_stat_of_visit (Build.tallying_ok hok)
  rw [rewrite_eq hs hstat] at hok
  have hpass := Build.tallying_ok hok
  have hstart : (inPlace w.disk).inv (w, 0) := inPlace_start (s := (w, 0)) hs
  have hkeeps : ∀ x ∈ stops (fun _ => false) root w.disk,
      (inPlace w.disk).Keeps (rewriteEntry extensions f (x.sighting root)) := fun x _ =>
    rewriteEntry_inPlace _ f _
  obtain ⟨⟨⟨hs', -⟩, -⟩, hretouched⟩ := (Contract.Keeps.forM hkeeps).step hstart hpass
  have hgrows : w.disk.Grows nowhere anywhere w'.disk := hretouched.grows
  obtain ⟨standing', hstat'⟩ := hgrows.exists_stat hs hstat
  refine ⟨⟨standing', hstat'⟩, fun x hx htaken => ?_⟩
  rw [stops_congr hs hstat (fun _ _ => rfl) hs' hretouched.cwd hstat' fun names _ _ =>
    hretouched.kindAt_eq _] at hx
  -- the file was there at its turn, and goes on being there
  let P : World × ℕ → Prop := fun s => IsFile s.1.disk (root.under x.names)
  have hstays : ∀ s s', (inPlace w.disk).step s s' → P s → P s' :=
    fun s s' hstep hfile => IsFile.retouched hfile hstep
  have hreach : ∀ s₁ s₂, (inPlace w.disk).inv s₁ → (inPlace w.disk).step (w, 0) s₁ →
      rewriteEntry extensions f (x.sighting root) s₁ = .ok ⟨⟩ s₂ → P s₂ := by
    intro s₁ s₂ hs₁ _ hentry
    have hcond : (!x.isDir && hasListedExtension extensions (root.under x.names)) = true := by
      simp [htaken.1, htaken.2]
    obtain ⟨-, hretouched₁⟩ := (rewriteEntry_inPlace _ f _).step hs₁ hentry
    simp only [Stop.sighting, rewriteEntry, hcond, if_true] at hentry
    obtain ⟨changed, s₃, hfile, -⟩ := bind_ok hentry
    exact (isFile_of_rewriteFile (Build.untallied_ok hfile)).retouched hretouched₁
  have hend : P (w', n) := Contract.Keeps.forM_reaches hkeeps hstays hx hstart hreach hpass
  exact hend

/-- **What a rewriting leaves as it is**, told from the files that stand
below its root. -/
theorem Readable.fixed_iff (h : Readable extensions root d) (hs : d.Sound) :
    Fixed extensions f root d ↔
      ∀ names content text, d.get? (root.place d.cwd ++ names) = some (.file content) →
        String.fromUTF8? content = some text →
          onListed extensions f (root.under names) text = text := by
  obtain ⟨standing, hstat⟩ := h.found
  constructor
  · intro hfixed names content text hget htext
    by_cases hlisted : hasListedExtension extensions (root.under names)
    · rw [onListed, if_pos hlisted]
      have hmem : (⟨names, false⟩ : Stop) ∈ stops (fun _ => false) root d :=
        (mem_stops hs hstat).2 ⟨kindAt_of_file hget, rfl, fun _ _ _ _ => rfl⟩
      obtain ⟨loc, c, hfile⟩ := h.files _ hmem ⟨rfl, hlisted⟩
      have hstands := stat_standsAt_place (.inr hs.wellFormed) hs.linkFree hfile
      obtain ⟨rfl, hhere⟩ := hstands
      rw [Path.place_under (isName_of_mem_stops hs hstat hmem), hget] at hhere
      obtain rfl : content = c := by simpa using hhere
      refine hfixed _ hmem ⟨rfl, hlisted⟩ text ?_
      rw [readText_of_stat hfile, htext]
    · rw [onListed, if_neg hlisted, id_eq]
  · intro hfixed x hx htaken text htext
    obtain ⟨content, hread, hdecoded⟩ := readText_eq_ok htext
    obtain ⟨loc, hfile⟩ := readFile_eq_ok_iff.1 hread
    have hstands := stat_standsAt_place (.inr hs.wellFormed) hs.linkFree hfile
    obtain ⟨rfl, hhere⟩ := hstands
    rw [Path.place_under (isName_of_mem_stops hs hstat hx)] at hhere
    have hsame := hfixed _ _ _ hhere hdecoded
    rwa [onListed, if_pos htaken.2] at hsame

end Tree

end DualPackage
