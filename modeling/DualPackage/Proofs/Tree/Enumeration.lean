import DualPackage.Proofs.Text.ByteOrder
import DualPackage.Proofs.Tree.Listing
/-!
# What a walk lists

On a disk without links a walk calls its visitor for everything that stands
below its root and is not left out (`Listed`), each of it once and in
ascending order of the names on the way there, as long as the visitor
leaves these names where they are (`Spares`). If the visitor fails, the
walk ends there with its fault (`CallsAlong`). `visit_enumerates` puts this
together, for a walk and for the files that a walk visits.
-/

namespace DualPackage

namespace Tree

open Disk Outcome

variable {ε σ : Type} {disk : σ → Disk} {fail : WalkFault → ε} {skip : Path → Bool}
  {act : Sighting → EStateM ε σ Unit} {root : Path} {d : Disk} {inv : σ → Prop}
  {standing : Standing} {x : Stop} {s : σ}

/-! ## The list -/

/-- Stands at or below the root of a walk, and neither is nor lies below a
directory strictly below the root that is left out. -/
def Listed (skip : Path → Bool) (root : Path) (d : Disk) (x : Stop) : Prop :=
  d.kindAt (root.place d.cwd ++ x.names) = some x.isDir ∧
    ∀ above, above ≠ [] → above <+: x.names →
      d.kindAt (root.place d.cwd ++ above) = some true → skip (root.under above) = false

/-- **The stops of a walk** are what is listed. -/
theorem mem_stops_iff_listed (hd : d.Sound) (hstat : d.stat root = .ok standing) :
    x ∈ stops skip root d ↔ Listed skip root d x := by
  rw [mem_stops hd hstat]
  refine and_congr_right fun hkind => ⟨fun hmet above hne hto hdir => ?_, fun h => ⟨rfl, ?_⟩⟩
  · refine hmet.entered above hne hto fun heq => ?_
    rw [heq, hkind] at hdir
    simpa [Stop.sighting, Sighting.isDir] using hdir
  · intro above hne hto hdir
    refine h above hne hto ?_
    obtain ⟨rest, hrest⟩ := hto
    rcases List.eq_nil_or_concat rest with rfl | ⟨_, _, hconcat⟩
    · rw [List.append_nil] at hrest
      rw [hrest, hkind]
      exact congrArg some (hdir hrest)
    · -- what lies further down makes it a directory
      obtain ⟨e, hget, -⟩ := kindAt_eq_some_iff.1 hkind
      rw [← hrest, ← List.append_assoc] at hget
      exact kindAt_of_dir (hd.wellFormed.dir_of_append (by simp [hconcat]) hget)

/-- Ways that begin alike are in the order of the names at which they part. -/
theorem lt_of_concat_prefix {names a b : List String} {m n : String} (hlt : m < n)
    (ha : names ++ [m] <+: a) (hb : names ++ [n] <+: b) : a < b := by
  obtain ⟨u, rfl⟩ := ha
  obtain ⟨v, rfl⟩ := hb
  rw [List.append_assoc, List.append_assoc]
  exact List.append_left_lt (List.cons_lt_cons_iff.2 (.inl hlt))

/-- **The stops ascend**: a directory comes before what it holds, and what lies
below the lesser of two names before what lies below the other. -/
theorem pairwise_stopsBelow {loc : Location} {bound : ℕ} {names : List String} {isDir : Bool}
    (hd : d.WellFormed) : (stopsBelow skip root d loc bound names isDir).Pairwise
      fun a b => a.names < b.names := by
  induction bound generalizing names isDir with
  | zero => exact .nil
  | succ bound ih =>
    cases isDir with
    | false => exact List.pairwise_singleton _ _
    | true =>
      rw [stopsBelow]
      split
      · exact .nil
      · refine List.pairwise_cons.2 ⟨fun x hx => ?_, List.pairwise_flatMap.2 ⟨fun _ _ => ih, ?_⟩⟩
        · obtain ⟨c, -, hx⟩ := List.mem_flatMap.1 hx
          obtain ⟨rest, hrest⟩ := prefix_of_mem_stopsBelow hx
          have hbelow : names ++ [] < names ++ (c.1 :: rest) :=
            List.append_left_lt (List.nil_lt_cons _ _)
          simpa [← hrest] using hbelow
        · refine (hd.pairwise_listing (loc ++ names)).imp fun hlt x hx y hy => ?_
          exact lt_of_concat_prefix hlt (prefix_of_mem_stopsBelow hx) (prefix_of_mem_stopsBelow hy)

theorem pairwise_stops (hd : d.WellFormed) : (stops skip root d).Pairwise
    fun a b => a.names.map Text.bytes < b.names.map Text.bytes := by
  rw [stops]
  split
  · exact .nil
  · exact List.pairwise_singleton _ _
  · exact (pairwise_stopsBelow hd).imp fun hlt => List.map_lt (fun _ _ => Text.bytes_lt_bytes) hlt

/-! ## The calls -/

/-- What calling a visitor for one thing after the other comes to, with the
calls noted down: it is called for all of them, or up to the first at
which it fails, and then its fault is the outcome. -/
def CallsAlong (act : Sighting → EStateM ε σ Unit) (calls : List Sighting) (s : σ)
    (outcome : EStateM.Result ε (σ × List Sighting) Unit) : Prop :=
  (∃ s', calls.forM act s = .ok ⟨⟩ s' ∧ outcome = .ok ⟨⟩ (s', calls)) ∨
    ∃ before x after s₁ e s', calls = before ++ x :: after ∧ before.forM act s = .ok ⟨⟩ s₁ ∧
      act x s₁ = .error e s' ∧ outcome = .error e (s', before ++ [x])

theorem noting_of_ok {x : Sighting} {s s' : σ} (h : act x s = .ok ⟨⟩ s') (notes : List Sighting) :
    noting act x (s, notes) = .ok ⟨⟩ (s', notes ++ [x]) := by
  show Build.untallied (act x) (s, notes ++ [x]) = _
  rw [Build.untallied, h]

theorem noting_of_error {x : Sighting} {s s' : σ} {e : ε} (h : act x s = .error e s')
    (notes : List Sighting) : noting act x (s, notes) = .error e (s', notes ++ [x]) := by
  show Build.untallied (act x) (s, notes ++ [x]) = _
  rw [Build.untallied, h]

theorem forM_cons_apply {α : Type} {f : α → EStateM ε σ PUnit} {a : α} {l : List α} {s s₁ : σ}
    (h : f a s = .ok ⟨⟩ s₁) : (a :: l).forM f s = l.forM f s₁ := by
  rw [List.forM_eq_forM, List.forM_cons]
  simp only [bind, EStateM.bind, h]

theorem forM_cons_error {α : Type} {f : α → EStateM ε σ PUnit} {a : α} {l : List α} {s s₁ : σ}
    {e : ε} (h : f a s = .error e s₁) : (a :: l).forM f s = .error e s₁ := by
  rw [List.forM_eq_forM, List.forM_cons]
  simp only [bind, EStateM.bind, h]

/-- A loop over a list calls its visitor along the list, by induction on the
list with the notes taken before. -/
theorem forM_noting (act : Sighting → EStateM ε σ Unit) (calls : List Sighting) (s : σ)
    (notes : List Sighting) :
    (∃ s', calls.forM act s = .ok ⟨⟩ s' ∧
      calls.forM (noting act) (s, notes) = .ok ⟨⟩ (s', notes ++ calls)) ∨
    ∃ before x after s₁ e s', calls = before ++ x :: after ∧ before.forM act s = .ok ⟨⟩ s₁ ∧
      act x s₁ = .error e s' ∧
      calls.forM (noting act) (s, notes) = .error e (s', notes ++ (before ++ [x])) := by
  induction calls generalizing s notes with
  | nil =>
    refine .inl ⟨s, rfl, ?_⟩
    rw [List.append_nil]
    rfl
  | cons x calls ih =>
    cases hx : act x s with
    | error e s' =>
      refine .inr ⟨[], x, calls, s, e, s', rfl, rfl, hx, ?_⟩
      exact forM_cons_error (noting_of_error hx notes)
    | ok u s₁ =>
      rw [forM_cons_apply hx, forM_cons_apply (noting_of_ok hx notes)]
      rcases ih s₁ (notes ++ [x]) with ⟨s', hall, hnoted⟩ |
        ⟨before, y, after, s₂, e, s', rfl, hbefore, hy, hnoted⟩
      · exact .inl ⟨s', hall, by rw [hnoted]; simp⟩
      · refine .inr ⟨x :: before, y, after, s₂, e, s', rfl, ?_, hy, by rw [hnoted]; simp⟩
        rw [forM_cons_apply hx, hbefore]

theorem callsAlong_forM (act : Sighting → EStateM ε σ Unit) (calls : List Sighting) (s : σ) :
    CallsAlong act calls s (calls.forM (noting act) (s, [])) := by
  have h := forM_noting act calls s []
  simp only [List.nil_append] at h
  exact h

/-! ## The walk -/

/-- A visitor that leaves the names below the root of a walk as the walk finds
them on the disk `d`, each with what it is the name of: a directory or a
file. `inv` holds of the states that its calls lead to. -/
structure Spares (disk : σ → Disk) (act : Sighting → EStateM ε σ Unit) (skip : Path → Bool)
    (root : Path) (d : Disk) (inv : σ → Prop) : Prop where
  sound : ∀ s, inv s → (disk s).Sound
  kinds : ∀ s, inv s → ∀ names, (disk s).kindAt (root.place d.cwd ++ names) =
    d.kindAt (root.place d.cwd ++ names)
  kept : ∀ x ∈ stops skip root d, ∀ s s', inv s → act (x.sighting root) s = .ok ⟨⟩ s' → inv s'

namespace Spares

theorem keepsKinds (h : Spares disk act skip root d inv) :
    KeepsKinds disk skip root d (root.place d.cwd) (Contract.upholding inv).inv where
  sound := h.sound
  kinds s hs names _ _ := h.kinds s hs names

theorem keeps (h : Spares disk act skip root d inv) (hx : x ∈ stops skip root d) :
    (Contract.upholding inv).Keeps (act (x.sighting root)) :=
  .upholding fun s _ s' => h.kept x hx s s'

/-- It may take notes. -/
theorem noting (h : Spares disk act skip root d inv) :
    Spares (fun s => disk s.1) (noting act) skip root d (fun s => inv s.1) where
  sound s hs := h.sound s.1 hs
  kinds s hs := h.kinds s.1 hs
  kept x hx s s' hs hok := h.kept x hx s.1 s'.1 hs (noting_ok hok).1

/-- It may be called for files only. -/
theorem filesOnly (h : Spares disk act skip root d inv) :
    Spares disk (filesOnly act) skip root d inv where
  sound := h.sound
  kinds := h.kinds
  kept x hx s s' hs hok := by
    rw [Stop.sighting, Tree.filesOnly] at hok
    split at hok
    · obtain ⟨-, rfl⟩ := pure_ok hok
      exact hs
    · exact h.kept x hx s s' hs hok

/-- **Its walk is a pass** over the stops. -/
theorem visit_eq (h : Spares disk act skip root (disk s) inv) (hs : inv s)
    (hstat : (disk s).stat root = .ok standing) :
    visit disk fail skip act root s =
      ((stops skip root (disk s)).map (Stop.sighting root)).forM act s := by
  rw [Tree.visit_eq (C := .upholding inv) hs h.keepsKinds hstat fun x hx => h.keeps hx,
    List.forM_eq_forM, List.forM_eq_forM, List.forM_map]

end Spares

/-- What is visited when only files are asked for. -/
theorem forM_filesOnly (l : List Stop) (s : σ) :
    (l.map (Stop.sighting root)).forM (filesOnly act) s =
      ((l.filter fun x => !x.isDir).map (Stop.sighting root)).forM act s := by
  induction l generalizing s with
  | nil => rfl
  | cons x l ih =>
    have hhere : filesOnly act (x.sighting root) =
        if x.isDir then pure () else act (x.sighting root) := rfl
    cases hdir : x.isDir with
    | true =>
      rw [List.filter_cons_of_neg (by simp [hdir]), ← ih, List.map_cons]
      refine forM_cons_apply ?_
      rw [hhere, hdir]
      rfl
    | false =>
      rw [hdir] at hhere
      rw [List.filter_cons_of_pos (by simp [hdir]), List.map_cons, List.map_cons]
      cases hact : act (x.sighting root) s with
      | ok u s₁ =>
        have hfiles : filesOnly act (x.sighting root) s = .ok u s₁ := by rw [hhere]; exact hact
        rw [forM_cons_apply hact, forM_cons_apply hfiles, ih]
      | error e s₁ =>
        have hfiles : filesOnly act (x.sighting root) s = .error e s₁ := by rw [hhere]; exact hact
        rw [forM_cons_error hact, forM_cons_error hfiles]

/-- **A walk lists the tree.** On a disk without links, with a root that is
there and a visitor that spares the names below it, the visitor is called
along the stops of the walk: for everything that stands below the root and
neither is nor lies below a directory that is left out, with its depth and
with whether it is a directory. The stops ascend by the bytes of the names
on the way, so each is there once, and a directory comes before what it
holds. A visitor of files is called for the files among them. -/
theorem visit_enumerates (h : Spares disk act skip root (disk s) inv) (hs : inv s)
    (hstat : (disk s).stat root = .ok standing) :
    let listed := stops skip root (disk s)
    CallsAlong act (listed.map (Stop.sighting root)) s
        (visit (fun s => disk s.1) fail skip (noting act) root (s, [])) ∧
      CallsAlong act ((listed.filter fun x => !x.isDir).map (Stop.sighting root)) s
        (visit (fun s => disk s.1) fail skip (filesOnly (noting act)) root (s, [])) ∧
      (∀ x, x ∈ listed ↔ Listed skip root (disk s) x) ∧
      listed.Pairwise fun a b => a.names.map Text.bytes < b.names.map Text.bytes := by
  intro listed
  have hsound := h.sound s hs
  refine ⟨?_, ?_, fun x => mem_stops_iff_listed hsound hstat, pairwise_stops hsound.wellFormed⟩
  · rw [h.noting.visit_eq (s := (s, [])) hs hstat]
    exact callsAlong_forM act _ s
  · rw [h.noting.filesOnly.visit_eq (s := (s, [])) hs hstat, forM_filesOnly]
    exact callsAlong_forM act _ s

/-- A source with a directory and a file whose names begin alike, and logs. -/
def assortedDisk : Disk :=
  (Disk.mk [] []).set ["src"] .dir
    |>.set ["src", "a.txt"] (.file "1".toUTF8)
    |>.set ["src", "a"] .dir
    |>.set ["src", "a", "b.txt"] (.file "2".toUTF8)
    |>.set ["src", "logs"] .dir
    |>.set ["src", "z.txt"] (.file "3".toUTF8)

theorem sound_assortedDisk : assortedDisk.Sound := by
  have hsrc := Disk.sound_blank.set [] "src" .dir rfl (by decide) (by simp) (by decide)
  have hfile := hsrc.set ["src"] "a.txt" (.file "1".toUTF8) rfl (by decide) (by simp)
    (by decide +kernel)
  have hdir := hfile.set ["src"] "a" .dir rfl (by decide) (by simp) (by decide +kernel)
  have hbelow := hdir.set ["src", "a"] "b.txt" (.file "2".toUTF8) rfl (by decide) (by simp)
    (by decide +kernel)
  have hlogs := hbelow.set ["src"] "logs" .dir rfl (by decide) (by simp) (by decide +kernel)
  exact hlogs.set ["src"] "z.txt" (.file "3".toUTF8) rfl (by decide) (by simp) (by decide +kernel)

/-- A visitor that fails at the file: the directory of the lesser name has been
listed with what it holds, the logs never are, and the last file is not
reached. -/
theorem visit_enumerates_failing :
    let root : Path := ⟨"/src"⟩
    let act : Sighting → EStateM ℕ Disk Unit := fun x =>
      if x.path = ⟨"/src/a.txt"⟩ then throw 1 else pure ⟨⟩
    let listed := stops isLogsDir root assortedDisk
    let outcome := visit (fun s => s.1) (fun _ => 0) isLogsDir (noting act) root (assortedDisk, [])
    Spares id act isLogsDir root assortedDisk (· = assortedDisk) ∧
      (∃ standing, assortedDisk.stat root = .ok standing) ∧
      listed = [⟨[], true⟩, ⟨["a"], true⟩, ⟨["a", "b.txt"], false⟩, ⟨["a.txt"], false⟩,
        ⟨["z.txt"], false⟩] ∧
      CallsAlong act (listed.map (Stop.sighting root)) assortedDisk outcome ∧
      (state outcome).2 = (listed.take 4).map (Stop.sighting root) := by
  intro root act listed outcome
  have hspares : Spares id act isLogsDir root assortedDisk (· = assortedDisk) := by
    refine ⟨fun s hs => hs ▸ sound_assortedDisk, fun s hs names => by rw [hs, id], ?_⟩
    intro x _ s s' hs hok
    dsimp only [act] at hok
    split at hok
    · exact absurd hok not_throw_ok
    · obtain ⟨-, rfl⟩ := pure_ok hok
      exact hs
  obtain ⟨loc, hstat⟩ := (isDir_iff assortedDisk root).1 (by decide +kernel)
  obtain ⟨hcalls, -⟩ := visit_enumerates hspares rfl hstat
  exact ⟨hspares, ⟨_, hstat⟩, by decide +kernel, hcalls, by decide +kernel⟩

end Tree

end DualPackage
