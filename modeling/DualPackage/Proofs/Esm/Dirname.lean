import DualPackage.EsmSource
import DualPackage.Proofs.Text.Words
import DualPackage.Proofs.Clause.Reading
import Mathlib.Data.List.Induction
/-!
# The fix of the directory name

The scan for `__dirname` looks at whole words, so the fix goes through a
text word by word: it writes `import.meta.dirname` for the one word and
leaves every other word and all separators alone (`dirnamed_word`,
`dirnamed_append_cons`). None of the words it writes is `__dirname`, so
nothing is left to find (`found_dirnamed`).

What the fix leaves behind can be traced back. A separator other than the
dot was there before (`exists_of_dirnamed_eq_append_cons`), and so was a
last word other than `dirname` (`exists_of_dirnamed_eq_append_word`).
-/

namespace DualPackage

open Text

namespace EsmSource

/-- The text after the fix of the directory name. -/
def dirnamed (text : List Char) : List Char :=
  (convertDirname text).text

theorem dirnameWord_eq : dirnameWord = '_' :: "_dirname".toList := by
  decide

theorem metaDirname_eq : metaDirname = "import.meta".toList ++ '.' :: "dirname".toList := by
  decide

theorem isWord_dirnameWord : ∀ c ∈ dirnameWord, isWord c :=
  List.all_iff_forall_prop.1 (by decide)

/-! ## The scan, word by word -/

section Scan

variable {before : Option Char} {c : Char} {w x y rest text : List Char}

theorem dirnameFinder_find?_iff :
    dirnameFinder.find? before text = some () ↔
      ∃ rest, text = dirnameWord ++ rest ∧ opensWord before ∧ closesWord rest := by
  simp only [dirnameFinder, bind, Option.bind_eq_some_iff, afterWord?_eq_some_iff,
    ite_eq_left_iff, reduceCtorEq, imp_false, not_not, Bool.and_eq_true]

theorem dirnameFinder_scan_congr {before' : Option Char}
    (h : opensWord before = opensWord before') (text : List Char) :
    dirnameFinder.scan before 0 text = dirnameFinder.scan before' 0 text := by
  cases text with
  | nil => rfl
  | cons c text => simp only [Finder.scan, dirnameFinder, h]

/-- The scan takes a word that is `__dirname`, and passes over any other. -/
theorem dirnameFinder_scan_word (hb : opensWord before) (hw : ∀ c ∈ w, isWord c)
    (hrest : closesWord rest) :
    dirnameFinder.scan before 0 (w ++ rest) =
      (if w = dirnameWord then [.found ()] else w.map .plain) ++
        dirnameFinder.scan (charBefore before w) 0 rest := by
  by_cases hname : w = dirnameWord
  · subst hname
    rw [if_pos rfl]
    exact Finder.scan_of_find? (F := dirnameFinder) (m := ()) (by decide)
      (dirnameFinder_find?_iff.2 ⟨rest, rfl, hb, hrest⟩)
  · rw [if_neg hname]
    refine Finder.scan_append_of_none ?_
    rintro v d z rfl
    by_contra hfind
    obtain ⟨⟨⟩, hfind⟩ := Option.ne_none_iff_exists'.1 hfind
    obtain ⟨rest', htext, hopens, hrest'⟩ := dirnameFinder_find?_iff.1 hfind
    -- no word begins inside another, and the whole one is not `__dirname`
    rcases List.eq_nil_or_concat v with rfl | ⟨v, e, rfl⟩
    · exact hname (word_append_inj hw isWord_dirnameWord hrest hrest' htext).1
    · rw [List.concat_eq_append, charBefore_concat] at hopens
      simp [hw e (by simp)] at hopens

theorem dirnameFinder_pieces_word (hw : ∀ c ∈ w, isWord c) :
    dirnameFinder.pieces w = if w = dirnameWord then [.found ()] else w.map .plain := by
  have hword := dirnameFinder_scan_word (rfl : opensWord none = true) hw
    (rfl : closesWord [] = true)
  rw [List.append_nil, Finder.scan, List.append_nil] at hword
  rw [Finder.pieces_eq_scan, hword]

/-- **A separator parts the scan.** -/
theorem dirnameFinder_pieces_append_cons (hc : isWord c = false) (x y : List Char) :
    dirnameFinder.pieces (x ++ c :: y) =
      dirnameFinder.pieces x ++ .plain c :: dirnameFinder.pieces y := by
  simp only [Finder.pieces_eq_scan]
  have hclose : ∀ y, closesWord (c :: y) := fun y => by simpa using hc
  have hseparator : ∀ (before : Option Char) {d : Char} (y : List Char), isWord d = false →
      dirnameFinder.scan before 0 (d :: y) = .plain d :: dirnameFinder.scan none 0 y := by
    intro before d y hd
    have hnone : dirnameFinder.find? before (d :: y) = none := by
      by_contra hfind
      obtain ⟨⟨⟩, hfind⟩ := Option.ne_none_iff_exists'.1 hfind
      obtain ⟨rest, htext, -⟩ := dirnameFinder_find?_iff.1 hfind
      rw [dirnameWord_eq, List.cons_append] at htext
      rw [(List.cons.inj htext).1] at hd
      exact absurd hd (by decide)
    rw [Finder.scan, hnone]
    exact congrArg _ (dirnameFinder_scan_congr (by simp [hd]) y)
  induction x using words_induction with
  | word w hw =>
    rw [dirnameFinder_scan_word rfl hw (hclose y), hseparator _ _ hc,
      ← Finder.pieces_eq_scan dirnameFinder w, dirnameFinder_pieces_word hw]
  | separated w d x hw hd ih =>
    rw [List.append_assoc, List.cons_append,
      dirnameFinder_scan_word rfl hw (by simpa using hd), hseparator _ _ hd, ih,
      dirnameFinder_scan_word rfl hw (by simpa using hd), hseparator _ _ hd]
    simp

end Scan

/-! ## The fix, word by word -/

variable {c : Char} {t u v w x y z gap : List Char}

/-- Only the word `__dirname` is replaced. -/
theorem dirnamed_word (hw : ∀ c ∈ w, isWord c) :
    dirnamed w = if w = dirnameWord then metaDirname else w := by
  rw [dirnamed, convertDirname, Finder.replace, dirnameFinder_pieces_word hw]
  split <;> simp [Piece.render, List.flatMap_map]

theorem found_dirnameFinder_word (hw : ∀ c ∈ w, isWord c) (hname : w ≠ dirnameWord) :
    dirnameFinder.found w = [] := by
  rw [Finder.found, dirnameFinder_pieces_word hw, if_neg hname]
  simp [Piece.match?, List.filterMap_map, Function.comp_def]

/-- **Separators part the fix.** -/
theorem dirnamed_append_cons (hc : isWord c = false) (x y : List Char) :
    dirnamed (x ++ c :: y) = dirnamed x ++ c :: dirnamed y := by
  simp [dirnamed, convertDirname, Finder.replace, dirnameFinder_pieces_append_cons hc,
    Piece.render]

theorem found_dirnameFinder_append_cons (hc : isWord c = false) (x y : List Char) :
    dirnameFinder.found (x ++ c :: y) = dirnameFinder.found x ++ dirnameFinder.found y := by
  have hplain : Piece.match? (.plain c : Piece Unit) = none := rfl
  simp [Finder.found, dirnameFinder_pieces_append_cons hc, hplain]

@[simp] theorem dirnamed_nil : dirnamed [] = [] := rfl

theorem dirnamed_cons (hc : isWord c = false) (y : List Char) :
    dirnamed (c :: y) = c :: dirnamed y :=
  dirnamed_append_cons hc [] y

/-- The fix of two texts where a word may begin. -/
theorem dirnamed_append (hx : opensWord (charBefore none x)) (y : List Char) :
    dirnamed (x ++ y) = dirnamed x ++ dirnamed y := by
  rcases opensWord_charBefore_iff.1 hx with rfl | ⟨x, c, rfl, hc⟩
  · simp
  · rw [List.append_assoc, List.singleton_append, dirnamed_append_cons hc,
      dirnamed_append_cons hc]
    simp

/-- A text without word characters stays as it is. -/
theorem dirnamed_of_separators (h : ∀ c ∈ x, isWord c = false) : dirnamed x = x := by
  induction x with
  | nil => rfl
  | cons c x ih => rw [dirnamed_cons (h c (by simp)), ih fun d hd => h d (by simp [hd])]

theorem opensWord_charBefore_dirnamed (h : opensWord (charBefore none x)) :
    opensWord (charBefore none (dirnamed x)) := by
  rcases opensWord_charBefore_iff.1 h with rfl | ⟨x, c, rfl, hc⟩
  · rfl
  · rw [dirnamed_append_cons hc, dirnamed_nil, charBefore_concat]
    simpa using hc

/-- **Nothing is left to find.** -/
theorem found_dirnamed (text : List Char) : dirnameFinder.found (dirnamed text) = [] := by
  have hword : ∀ w : List Char, (∀ c ∈ w, isWord c) → dirnameFinder.found (dirnamed w) = [] := by
    intro w hw
    rw [dirnamed_word hw]
    split
    · decide
    · exact found_dirnameFinder_word hw ‹_›
  induction text using words_induction with
  | word w hw => exact hword w hw
  | separated w c y hw hc ih =>
    rw [dirnamed_append_cons hc, found_dirnameFinder_append_cons hc, hword w hw, ih,
      List.append_nil]

/-! ## What the fix leaves behind -/

theorem mem_dirnamed_word (hw : ∀ c ∈ w, isWord c) (h : c ∈ dirnamed w) : isWord c ∨ c = '.' := by
  rw [dirnamed_word hw] at h
  split at h
  · have hmeta : ∀ c ∈ metaDirname, isWord c ∨ c = '.' := by
      have hall : metaDirname.all fun c => isWord c || c == '.' := by decide
      simpa using List.all_eq_true.1 hall
    exact hmeta c h
  · exact .inl (hw c h)

theorem dirnamed_eq_nil (h : dirnamed t = []) : t = [] := by
  induction t using words_induction with
  | word w hw =>
    rw [dirnamed_word hw] at h
    split at h
    · cases h
    · exact h
  | separated w c y hw hc ih =>
    rw [dirnamed_append_cons hc] at h
    simp at h

/-- **A separator other than the dot was there before.** -/
theorem exists_of_dirnamed_eq_append_cons (hc : isWord c = false) (hdot : c ≠ '.')
    (h : dirnamed t = u ++ c :: v) : ∃ x y, t = x ++ c :: y ∧ dirnamed x = u ∧ dirnamed y = v := by
  have hword : ∀ {w : List Char}, (∀ d ∈ w, isWord d) → c ∉ dirnamed w := by
    intro w hw hmem
    rcases mem_dirnamed_word hw hmem with hword | rfl
    · rw [hc] at hword
      cases hword
    · exact hdot rfl
  induction t using words_induction generalizing u with
  | word w hw => exact absurd (by simp [h]) (hword hw)
  | separated w d y hw hd ih =>
    rw [dirnamed_append_cons hd] at h
    rcases List.append_eq_append_iff.1 h with ⟨a, rfl, ha⟩ | ⟨a, ha, hrest⟩
    · -- the separator is the one behind the word, or stands further on
      rcases a with - | ⟨e, a⟩
      · obtain ⟨rfl, rfl⟩ : d = c ∧ dirnamed y = v := by simpa using ha
        exact ⟨w, y, rfl, by simp, rfl⟩
      · obtain ⟨rfl, hrest⟩ : d = e ∧ dirnamed y = a ++ c :: v := by simpa using ha
        obtain ⟨x', y', rfl, rfl, rfl⟩ := ih hrest
        exact ⟨w ++ d :: x', y', by simp, dirnamed_append_cons hd _ _, rfl⟩
    · rcases a with - | ⟨e, a⟩
      · obtain ⟨rfl, rfl⟩ : c = d ∧ v = dirnamed y := by simpa using hrest
        exact ⟨w, y, rfl, by simpa using ha, rfl⟩
      · obtain ⟨rfl, -⟩ : c = e ∧ v = a ++ d :: dirnamed y := by simpa using hrest
        exact absurd (by simp [ha]) (hword hw)

/-- White space at the end of the text was there before. -/
theorem exists_of_dirnamed_eq_append_blank (hgap : ∀ c ∈ gap, isBlank c)
    (h : dirnamed t = z ++ gap) : ∃ y, t = y ++ gap ∧ dirnamed y = z := by
  induction gap using List.reverseRecOn generalizing t with
  | nil => exact ⟨t, by simp, by simpa using h⟩
  | append_singleton gap g ih =>
    have hg : isBlank g := hgap g (by simp)
    have hdot : g ≠ '.' := by
      rintro rfl
      exact absurd hg (by decide)
    rw [← List.append_assoc] at h
    obtain ⟨x, y, rfl, hx, hy⟩ :=
      exists_of_dirnamed_eq_append_cons (isWord_eq_false_of_isBlank hg) hdot h
    obtain rfl := dirnamed_eq_nil hy
    obtain ⟨y, rfl, hy⟩ := ih (fun c hc => hgap c (by simp [hc])) hx
    exact ⟨y, by simp, hy⟩

/-- **A last word other than `dirname` was there before.** -/
theorem exists_of_dirnamed_eq_append_word (hw : ∀ c ∈ w, isWord c) (hname : w ≠ "dirname".toList)
    (hu : opensWord (charBefore none u)) (h : dirnamed t = u ++ w) :
    ∃ x, t = x ++ w ∧ opensWord (charBefore none x) ∧ dirnamed x = u := by
  obtain ⟨x, w', rfl, hw', hx⟩ := exists_last_word t
  rw [dirnamed_append hx, dirnamed_word hw'] at h
  split at h
  · -- the last word written is `dirname`
    have hsplit : dirnamed x ++ metaDirname =
        (dirnamed x ++ "import.meta".toList ++ ['.']) ++ "dirname".toList := by
      rw [metaDirname_eq, List.append_assoc, List.append_assoc, List.singleton_append]
    have hdirname : ∀ c ∈ "dirname".toList, isWord c :=
      List.all_iff_forall_prop.1 (by decide)
    have hopens : opensWord (charBefore none (dirnamed x ++ "import.meta".toList ++ ['.'])) := by
      rw [charBefore_concat]
      decide
    exact absurd (append_word_inj hdirname hw hopens hu (hsplit.symm.trans h)).2.symm hname
  · obtain ⟨hxu, rfl⟩ := append_word_inj hw' hw (opensWord_charBefore_dirnamed hx) hu h
    exact ⟨x, rfl, hx, hxu⟩

end EsmSource

end DualPackage
