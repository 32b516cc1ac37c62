import DualPackage.Disk.Basic
import DualPackage.Proofs.Path.Names
import Mathlib.Data.List.Induction
import Mathlib.Data.List.Lex
import Mathlib.Data.String.Basic
/-!
# Well-formed disks

Since the entries of a well-formed disk ascend, a location has at most one
of them, and the listing of a directory is the map read off
(`WellFormed.mem_children`). Putting an entry under a proper name into a
directory keeps a disk well formed, if nothing stood there that could hold
another entry (`WellFormed.set`).
-/

namespace DualPackage

namespace Location

/-- The order of locations is the one of lists. -/
theorem before_iff_lt {a b : Location} : a.before b ↔ a < b := by
  induction a generalizing b with
  | nil => cases b <;> simp [before]
  | cons x a ih =>
    cases b with
    | nil => simp [before]
    | cons y b => simp [before, ih, List.cons_lt_cons_iff]

end Location

namespace Disk

variable {d : Disk} {loc other : Location} {entry e : Entry} {entries : List (Location × Entry)}

theorem mem_of_mem_place {x : Location × Entry} (h : x ∈ place loc entry entries) :
    x = (loc, entry) ∨ x ∈ entries := by
  induction entries with
  | nil => exact .inl (by simpa [place] using h)
  | cons head rest ih =>
    obtain ⟨l, e⟩ := head
    simp only [place] at h
    split at h
    · rcases List.mem_cons.1 h with h | h
      · exact .inl h
      · exact .inr (by simp [h])
    · split at h
      · rcases List.mem_cons.1 h with h | h
        · exact .inl h
        · exact .inr h
      · rcases List.mem_cons.1 h with h | h
        · exact .inr (by simp [h])
        · rcases ih h with h | h
          · exact .inl h
          · exact .inr (by simp [h])

theorem pairwise_place (h : entries.Pairwise fun a b => a.1.before b.1) (loc : Location)
    (entry : Entry) : (place loc entry entries).Pairwise fun a b => a.1.before b.1 := by
  induction entries with
  | nil => simp [place]
  | cons head rest ih =>
    obtain ⟨l, e⟩ := head
    obtain ⟨hhead, hrest⟩ := List.pairwise_cons.1 h
    simp only [place]
    split
    · -- the entry replaces the one at its location
      rename_i hl
      subst hl
      exact List.pairwise_cons.2 ⟨hhead, hrest⟩
    · rename_i hl
      split
      · -- it comes in front of the first one behind it
        rename_i hb
        refine List.pairwise_cons.2 ⟨fun x hx => ?_, h⟩
        rcases List.mem_cons.1 hx with rfl | hx
        · exact hb
        · exact Location.before_iff_lt.2
            (lt_trans (Location.before_iff_lt.1 hb) (Location.before_iff_lt.1 (hhead x hx)))
      · -- or its place is further back
        rename_i hb
        have hlt : l < loc := by
          rw [Location.before_iff_lt] at hb
          exact lt_of_le_of_ne (not_lt.1 hb) hl
        refine List.pairwise_cons.2 ⟨fun x hx => ?_, ih hrest⟩
        rcases mem_of_mem_place hx with rfl | hx
        · exact Location.before_iff_lt.2 hlt
        · exact hhead x hx

/-- In ascending entries, what is found is what is there. -/
theorem find_eq_some_iff (h : entries.Pairwise fun a b => a.1.before b.1) :
    find loc entries = some e ↔ (loc, e) ∈ entries := by
  induction entries with
  | nil => simp [find]
  | cons head rest ih =>
    obtain ⟨l, e'⟩ := head
    obtain ⟨hhead, hrest⟩ := List.pairwise_cons.1 h
    by_cases hl : l = loc
    · subst hl
      have hnot : (l, e) ∉ rest := fun hmem =>
        lt_irrefl l (Location.before_iff_lt.1 (hhead _ hmem))
      simp [find, hnot, eq_comm]
    · simp [find, hl, Ne.symm hl, ih hrest]

namespace WellFormed

theorem get?_eq_some_iff (h : d.WellFormed) (hne : loc ≠ []) :
    d.get? loc = some e ↔ (loc, e) ∈ d.entries := by
  rw [get?, if_neg hne, find_eq_some_iff h.ordered]

/-- **The listing of a directory** holds what stands right in it. -/
theorem mem_children (h : d.WellFormed) {dir : Location} {name : String} :
    (name, e) ∈ d.children dir ↔ d.get? (dir ++ [name]) = some e := by
  rw [h.get?_eq_some_iff (by simp), children, List.mem_filterMap]
  constructor
  · rintro ⟨⟨loc, e'⟩, hmem, hname⟩
    obtain ⟨n, hn, heq⟩ := Option.map_eq_some_iff.1 hname
    obtain ⟨rfl, rfl⟩ : n = name ∧ e' = e := by simpa using heq
    rwa [← Location.nameIn?_eq_some_iff.1 hn]
  · intro hmem
    refine ⟨(dir ++ [name], e), hmem, ?_⟩
    simp [Location.nameIn?_eq_some_iff.2 rfl]

/-- Each name is listed once. -/
theorem pairwise_children (h : d.WellFormed) (dir : Location) :
    (d.children dir).Pairwise fun a b => a.1 ≠ b.1 := by
  refine h.ordered.filterMap _ ?_
  rintro ⟨l, e⟩ ⟨l', e'⟩ hbefore a ha b hb heq
  obtain ⟨n, hn, rfl⟩ := Option.map_eq_some_iff.1 ha
  obtain ⟨n', hn', rfl⟩ := Option.map_eq_some_iff.1 hb
  obtain rfl : n = n' := heq
  have hl := Location.nameIn?_eq_some_iff.1 hn
  have hl' := Location.nameIn?_eq_some_iff.1 hn'
  simp only [hl, hl', Location.before_iff_lt] at hbefore
  exact lt_irrefl _ hbefore

/-- What lies below a location makes it a directory. -/
theorem dir_of_append (h : d.WellFormed) {rest : List String} (hne : rest ≠ [])
    (hget : d.get? (loc ++ rest) = some e) : d.get? loc = some .dir := by
  induction rest using List.reverseRecOn generalizing e with
  | nil => exact absurd rfl hne
  | append_singleton rest n ih =>
    rw [← List.append_assoc] at hget
    have hparent := h.parent_dir _ _ _ hget
    by_cases hrest : rest = []
    · simpa [hrest] using hparent
    · exact ih hrest hparent

theorem isName (h : d.WellFormed) {n : String} (hget : d.get? (loc ++ [n]) = some e) :
    Path.IsName n := by
  obtain ⟨hempty, hhere, hup, hslash⟩ := h.proper_name _ _ _ hget
  exact ⟨hempty, hhere, hup, hslash⟩

/-- All names on the way to an entry are names that a path can spell. -/
theorem isName_of_mem (h : d.WellFormed) {rest : List String}
    (hget : d.get? (loc ++ rest) = some e) : ∀ n ∈ rest, Path.IsName n := by
  induction rest using List.reverseRecOn generalizing e with
  | nil => simp
  | append_singleton rest n ih =>
    rw [← List.append_assoc] at hget
    intro m hm
    rcases List.mem_append.1 hm with hm | hm
    · exact ih (h.parent_dir _ _ _ hget) m hm
    · obtain rfl : m = n := by simpa using hm
      exact h.isName hget

/-- **An entry under a proper name in a directory.** Where a file takes the
place of a directory the disk would not be well formed. -/
theorem set (h : d.WellFormed) {n : String} (hdir : d.get? loc = some .dir) (hn : Path.IsName n)
    (hold : d.get? (loc ++ [n]) ≠ some .dir ∨ entry = .dir) :
    (d.set (loc ++ [n]) entry).WellFormed where
  ordered := pairwise_place h.ordered _ _
  parent_dir := by
    intro l name e hget
    by_cases hl : l ++ [name] = loc ++ [n]
    · obtain ⟨rfl, -⟩ := List.append_inj' hl rfl
      rwa [get?_set_ne (by simp)]
    · rw [get?_set_ne hl] at hget
      have hparent := h.parent_dir l name e hget
      by_cases hself : l = loc ++ [n]
      · -- an entry lies in the place itself: a directory was there, and has to come back
        rcases hold with hold | rfl
        · exact absurd (hself ▸ hparent) hold
        · rw [hself, get?_set_self (by simp)]
      · rwa [get?_set_ne hself]
  proper_name := by
    intro l name e hget
    by_cases hl : l ++ [name] = loc ++ [n]
    · obtain ⟨-, hname⟩ := List.append_inj' hl rfl
      obtain rfl : name = n := by simpa using hname
      exact ⟨hn.ne_empty, hn.ne_here, hn.ne_up, hn.slash_free⟩
    · rw [get?_set_ne hl] at hget
      exact h.proper_name l name e hget
  not_root := by
    intro x hx
    rcases mem_of_mem_place hx with rfl | hx
    · simp
    · exact h.not_root x hx
  cwd_dir := by
    rw [cwd_set]
    by_cases hself : d.cwd = loc ++ [n]
    · rcases hold with hold | rfl
      · exact absurd (hself ▸ h.cwd_dir) hold
      · rw [hself, get?_set_self (by simp)]
    · rw [get?_set_ne hself]
      exact h.cwd_dir

end WellFormed

theorem LinkFree.set (h : d.LinkFree) (hentry : ∀ target, entry ≠ .link target)
    (hne : loc ≠ []) : (d.set loc entry).LinkFree := by
  intro l target
  by_cases hl : l = loc
  · rw [hl, get?_set_self hne]
    simpa using hentry target
  · rw [get?_set_ne hl]
    exact h l target

end Disk

end DualPackage
