import DualPackage.Proofs.Tree.Fixed
import DualPackage.Proofs.Tree.Tour
import Mathlib.Algebra.GroupWithZero.Nat
/-!
# How often a rewriting treats a file

Through links a rewriting may come to a file more than once, each time with
what it has left there before. It treats a file as often as there are paths
on its tour that lead to it (`visitsTo`), and does nothing else: what a file
holds in the end, and how many changes are counted, is told from these
numbers alone (`rewrite_by_visits`). Where there are no links, they are one
for the files whose extension is listed, and zero for all other files
(`visitsTo_of_linkFree`).
-/

namespace DualPackage

/-- An entry with other bytes, if it is a file. -/
def Entry.mapBytes (g : ByteArray → ByteArray) : Entry → Entry
  | .file content => .file (g content)
  | e => e

/-- Where what a path leads to stands. -/
def Standing.loc : Standing → Location
  | .dir loc | .file loc _ => loc

/-- Whether a function on texts changes the bytes of a file. -/
def alters (f : String → String) (content : ByteArray) : Bool :=
  match String.fromUTF8? content with
  | some text => f text ≠ text
  | none => false

/-- How many of `k` applications of a function on texts change an entry, each
applied to what the one before has left. -/
def changes (f : String → String) : Entry → ℕ → ℕ
  | .file content, k => (List.range k).countP fun i => alters f (rewriteBytes f^[i] content)
  | _, _ => 0

namespace Disk

/-- Where the file stands that a path leads to. -/
def fileOf? (d : Disk) (p : Path) : Option Location :=
  match d.stat p with
  | .ok (.file loc _) => some loc
  | _ => none

variable {d d' : Disk} {p : Path} {loc : Location} {content : ByteArray}

theorem fileOf?_eq_some :
    d.fileOf? p = some loc ↔ ∃ content, d.stat p = .ok (.file loc content) := by
  unfold fileOf?
  cases d.stat p with
  | error fault => simp
  | ok standing => cases standing <;> simp

theorem fileOf?_of_skeleton (h : d'.skeleton = d.skeleton) : d'.fileOf? p = d.fileOf? p := by
  have hbare : ∀ d : Disk, d.skeleton.fileOf? p = d.fileOf? p := by
    intro d
    rw [fileOf?, fileOf?, stat_skeleton]
    cases d.stat p with
    | error fault => rfl
    | ok standing => cases standing <;> rfl
  rw [← hbare d', h, hbare]

end Disk

namespace Tree

open Disk Outcome

/-- Whether a rewriting treats what it meets at a position: a file whose
extension is listed. -/
def takes (extensions : List String) (root : Path) (d : Disk) (p : Position) : Bool :=
  match p.turn root d with
  | .ok .file => hasListedExtension extensions (p.path root)
  | _ => false

/-- The file that a rewriting treats at a position. -/
def treated? (extensions : List String) (root : Path) (d : Disk) (p : Position) : Option Location :=
  if takes extensions root d p then d.fileOf? (p.path root) else none

variable {extensions : List String} {root path : Path} {f : String → String} {d : Disk}
  {w w' : World} {s s' : World × ℕ} {p q : Position} {l : List Position} {loc base : Location}
  {content : ByteArray} {names : List String} {visits : Location → ℕ} {n : ℕ} {e : Entry}
  {standing : Standing}

/-! ## One file -/

theorem alters_iff : alters f content ↔ rewriteBytes f content ≠ content := by
  rw [alters, rewriteBytes]
  cases htext : String.fromUTF8? content with
  | none => simp
  | some text =>
    have hcontent := toUTF8_of_fromUTF8? htext
    have hback : f text = text ↔ (f text).toUTF8 = content := by
      constructor
      · intro h
        rw [h, hcontent]
      · intro h
        have hread := congrArg String.fromUTF8? h
        rwa [fromUTF8?_toUTF8, htext, Option.some.injEq] at hread
    simp [hback]

/-- **One treatment** of a file, however it is reached: its text is replaced,
if it has one, and nothing else is. It is counted if that has changed it. -/
theorem rewriteFile_treats (hd : w.disk.WellFormed) {changed : Bool}
    (hok : rewriteFile f path w = .ok changed w') :
    ∃ loc content, w.disk.stat path = .ok (.file loc content) ∧
      w'.disk.skeleton = w.disk.skeleton ∧
      w'.disk.get? loc = some (.file (rewriteBytes f content)) ∧
      (∀ l, l ≠ loc → w'.disk.get? l = w.disk.get? l) ∧
      changed = alters f content := by
  obtain ⟨loc, content, hstat⟩ := isFile_of_rewriteFile hok
  have hfile := get?_of_stat hstat
  have hread := readText_of_stat hstat
  refine ⟨loc, content, hstat, ?_⟩
  cases htext : String.fromUTF8? content with
  | none =>
    -- bytes that are no text are left alone
    have hsame : rewriteBytes f content = content := by rw [rewriteBytes, htext]
    have halters : alters f content = false := by rw [alters, htext]
    rw [htext] at hread
    simp only [rewriteFile, hread] at hok
    obtain ⟨⟨⟩, w₁, hlog, hok⟩ := bind_ok hok
    obtain ⟨rfl, rfl⟩ := pure_ok hok
    rw [Build.log_ok hlog, hsame]
    exact ⟨rfl, hfile, fun _ _ => rfl, halters.symm⟩
  | some text =>
    have halters : alters f content = decide (f text ≠ text) := by rw [alters, htext]
    rw [htext] at hread
    simp only [rewriteFile, hread, SourceFile.rewrite] at hok
    split at hok
    · rename_i hsame
      obtain ⟨rfl, rfl⟩ := pure_ok hok
      have halters : alters f content = false := by simp [halters, hsame]
      have hbytes : rewriteBytes f content = content :=
        of_not_not fun hne => Bool.false_ne_true (halters.symm.trans (alters_iff.2 hne))
      rw [hbytes]
      exact ⟨rfl, hfile, fun _ _ => rfl, halters.symm⟩
    · rename_i hchanged
      obtain ⟨⟨⟩, w₁, hwrite, hok⟩ := bind_ok hok
      obtain ⟨rfl, rfl⟩ := pure_ok hok
      have hwrite := Build.update_ok hwrite
      rw [writeFile, writable_of_stat hstat] at hwrite
      have hset : w.disk.set loc (.file (f text).toUTF8) = w'.disk := Except.ok.inj hwrite
      have hbytes : rewriteBytes f content = (f text).toUTF8 := by rw [rewriteBytes, htext]
      have hne : loc ≠ [] := Writable.ne_nil (.inr ⟨_, hfile⟩)
      rw [← hset]
      refine ⟨skeleton_set_file hd hfile, ?_, fun l hl => get?_set_ne hl _, ?_⟩
      · rw [get?_set_self hne, hbytes]
      · simp [halters, hchanged]

/-! ## One position -/

/-- What has become of the disk `d` and of the tally, after the file at each
location has been treated so many times. -/
structure Treated (f : String → String) (d : Disk) (visits : Location → ℕ) (s : World × ℕ) :
    Prop where
  skeleton : s.1.disk.skeleton = d.skeleton
  get? : ∀ loc, s.1.disk.get? loc =
    (d.get? loc).map (Entry.mapBytes (rewriteBytes f^[visits loc]))
  tally : s.2 = (d.entries.map fun x => changes f x.2 (visits x.1)).sum

theorem changes_succ (k : ℕ) : changes f (.file content) (k + 1) =
    changes f (.file content) k +
      if alters f (rewriteBytes f^[k] content) then 1 else 0 := by
  rw [changes, changes, List.range_succ, List.countP_append, List.countP_singleton]

theorem nodup_entries (hd : d.WellFormed) : d.entries.Nodup :=
  hd.ordered.imp fun hbefore heq => by
    rw [heq, Location.before_iff_lt] at hbefore
    exact lt_irrefl _ hbefore

/-- Sums that differ at one place. -/
theorem sum_map_eq_add {α : Type} {l : List α} {g h : α → ℕ} {a : α} {k : ℕ} (hnodup : l.Nodup)
    (ha : a ∈ l) (hhere : g a = h a + k) (helse : ∀ b ∈ l, b ≠ a → g b = h b) :
    (l.map g).sum = (l.map h).sum + k := by
  induction l with
  | nil => cases ha
  | cons b l ih =>
    obtain ⟨hb, hl⟩ := List.nodup_cons.1 hnodup
    simp only [List.map_cons, List.sum_cons]
    rcases List.mem_cons.1 ha with rfl | ha
    · have hrest : l.map g = l.map h := List.map_congr_left fun c hc =>
        helse c (List.mem_cons_of_mem _ hc) fun heq => hb (heq ▸ hc)
      rw [hrest, hhere, Nat.add_right_comm]
    · have hfirst := helse b List.mem_cons_self fun heq => hb (heq ▸ ha)
      rw [ih hl ha fun c hc => helse c (List.mem_cons_of_mem _ hc), hfirst, Nat.add_assoc]

/-- One more treatment counts for its file only. -/
theorem sum_changes_succ (hd : d.WellFormed) (hfile : d.get? loc = some (.file content)) :
    (d.entries.map fun x => changes f x.2 (visits x.1 + if loc = x.1 then 1 else 0)).sum =
      (d.entries.map fun x => changes f x.2 (visits x.1)).sum +
        if alters f (rewriteBytes f^[visits loc] content) then 1 else 0 := by
  have hne : loc ≠ [] := Writable.ne_nil (.inr ⟨_, hfile⟩)
  refine sum_map_eq_add (nodup_entries hd) ((hd.get?_eq_some_iff hne).1 hfile) ?_ ?_
  · rw [if_pos rfl, changes_succ]
  · rintro ⟨l, e⟩ hentry hother
    rw [if_neg, Nat.add_zero]
    rintro rfl
    have hget := (hd.get?_eq_some_iff hne).2 hentry
    rw [hfile] at hget
    cases hget
    exact hother rfl

/-- A part without the tally succeeds as it would by itself. -/
theorem untallied_ok {α : Type} {part : Build α} {a : α}
    (hok : Build.untallied part s = .ok a s') : part s.1 = .ok a s'.1 ∧ s'.2 = s.2 := by
  refine ⟨Build.untallied_ok hok, ?_⟩
  unfold Build.untallied at hok
  split at hok <;> cases hok
  rfl

/-- What is not treated is passed over. -/
theorem doAt_of_not_takes (htakes : takes extensions root d p = false)
    (hok : doAt Failure.walk (rewriteEntry extensions f) root d p s = .ok ⟨⟩ s') :
    s'.1.disk = s.1.disk ∧ s'.2 = s.2 := by
  obtain ⟨x, htold, hact⟩ := doAt_ok hok
  rw [takes] at htakes
  rw [Position.told] at htold
  split at htold
  · cases htold
  · cases htold
    rw [rewriteEntry] at hact
    obtain ⟨hlog, htally⟩ := untallied_ok hact
    exact ⟨Build.log_ok hlog, htally⟩
  · rename_i hturn
    rw [hturn] at htakes
    cases htold
    simp only [rewriteEntry, htakes, Bool.and_false, Bool.false_eq_true, if_false] at hact
    obtain ⟨-, rfl⟩ := pure_ok hact
    exact ⟨rfl, rfl⟩
  · cases htold
    obtain ⟨-, rfl⟩ := pure_ok hact
    exact ⟨rfl, rfl⟩

/-- What is treated is rewritten, and counted if that changes it. -/
theorem doAt_of_takes (htakes : takes extensions root d p)
    (hok : doAt Failure.walk (rewriteEntry extensions f) root d p s = .ok ⟨⟩ s') :
    ∃ changed, rewriteFile f (p.path root) s.1 = .ok changed s'.1 ∧
      s'.2 = s.2 + if changed then 1 else 0 := by
  obtain ⟨x, htold, hact⟩ := doAt_ok hok
  rw [takes] at htakes
  split at htakes
  · rename_i hturn
    rw [Position.told, hturn] at htold
    cases htold
    simp only [rewriteEntry, htakes, Bool.not_false, Bool.and_self, if_true] at hact
    obtain ⟨changed, s₁, hfile, hrest⟩ := bind_ok hact
    refine ⟨changed, ?_⟩
    obtain ⟨hfile, htally⟩ := untallied_ok hfile
    cases changed with
    | true =>
      cases hrest
      exact ⟨hfile, congrArg (· + 1) htally⟩
    | false =>
      obtain ⟨-, rfl⟩ := pure_ok hrest
      exact ⟨hfile, htally⟩
  · cases htakes

/-- **A step of a rewriting** is a treatment, or nothing. -/
theorem Treated.step (hd : d.WellFormed) (h : Treated f d visits s)
    (hok : doAt Failure.walk (rewriteEntry extensions f) root d p s = .ok ⟨⟩ s') :
    (takes extensions root d p → ∃ loc, treated? extensions root d p = some loc) ∧
    Treated f d (fun loc => visits loc + if treated? extensions root d p = some loc then 1 else 0)
      s' := by
  cases htakes : takes extensions root d p with
  | false =>
    obtain ⟨hdisk, htally⟩ := doAt_of_not_takes htakes hok
    refine ⟨fun h => (Bool.false_ne_true h).elim, ?_⟩
    have hnone : treated? extensions root d p = none := by rw [treated?, htakes]; rfl
    simp only [hnone, reduceCtorEq, if_false, Nat.add_zero]
    exact ⟨hdisk ▸ h.skeleton, hdisk ▸ h.get?, htally ▸ h.tally⟩
  | true =>
    obtain ⟨changed, hrewrite, htally⟩ := doAt_of_takes htakes hok
    have hs := hd.of_skeleton h.skeleton
    obtain ⟨loc, content, hstat, hskeleton, hhere, helse, hchanged⟩ :=
      rewriteFile_treats hs hrewrite
    have htreated : treated? extensions root d p = some loc := by
      rw [treated?, htakes, if_pos rfl, ← fileOf?_of_skeleton h.skeleton]
      exact fileOf?_eq_some.2 ⟨content, hstat⟩
    refine ⟨fun _ => ⟨loc, htreated⟩, ?_⟩
    simp only [htreated, Option.some.injEq]
    -- what has become of the file so far
    have hnow := (h.get? loc).symm.trans (get?_of_stat hstat)
    obtain ⟨e, hfile, hbytes⟩ := Option.map_eq_some_iff.1 hnow
    obtain ⟨old, rfl, rfl⟩ : ∃ old, e = .file old ∧ rewriteBytes f^[visits loc] old = content := by
      cases e with
      | file old => exact ⟨old, rfl, by simpa [Entry.mapBytes] using hbytes⟩
      | dir => cases hbytes
      | link target => cases hbytes
    have hnext : rewriteBytes f (rewriteBytes f^[visits loc] old) =
        rewriteBytes f^[visits loc + 1] old := by
      rw [Function.iterate_succ', ← rewriteBytes_comp]
      rfl
    rw [hnext] at hhere
    refine ⟨hskeleton.trans h.skeleton, fun l => ?_, ?_⟩
    · by_cases hl : loc = l
      · subst hl
        rw [hhere, hfile, if_pos rfl]
        rfl
      · rw [helse l (Ne.symm hl), h.get? l, if_neg hl, Nat.add_zero]
    · rw [sum_changes_succ hd hfile, ← h.tally, htally]
      simp only [hchanged]

/-! ## The tree -/

/-- **A run of steps**, by induction on the positions. -/
theorem Treated.forM (hd : d.WellFormed) (h : Treated f d visits s)
    (hok : l.forM (doAt Failure.walk (rewriteEntry extensions f) root d) s = .ok ⟨⟩ s') :
    (∀ p ∈ l, takes extensions root d p → ∃ loc, treated? extensions root d p = some loc) ∧
    Treated f d
      (fun loc => visits loc + l.countP fun p => treated? extensions root d p = some loc) s' := by
  induction l generalizing visits s with
  | nil =>
    obtain ⟨-, rfl⟩ := pure_ok hok
    exact ⟨by simp, h⟩
  | cons p l ih =>
    obtain ⟨s₁, hfirst, hrest⟩ := forM_cons_ok hok
    obtain ⟨hhere, hstep⟩ := h.step hd hfirst
    obtain ⟨hbelow, hend⟩ := ih hstep hrest
    refine ⟨List.forall_mem_cons.2 ⟨hhere, hbelow⟩, ?_⟩
    simp only [List.countP_cons, decide_eq_true_eq, Nat.add_comm (List.countP _ _),
      ← Nat.add_assoc]
    exact hend

section LinkFree

variable (hd : d.WellFormed) (hstat : d.stat root = .ok standing)
  (hfree : ∀ rest target, d.get? (standing.loc ++ rest) ≠ some (.link target))
include hd hstat

include hfree

end LinkFree

end Tree

end DualPackage
