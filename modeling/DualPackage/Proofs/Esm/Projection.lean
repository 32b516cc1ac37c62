import DualPackage.Proofs.Esm.Dirname
import DualPackage.Proofs.Esm.JsonAttribute
/-!
# The fixes of the ESM tree as a projection

The two fixes do not meet. The name of the directory is written between
the quotes of a text, where it leaves every decision on JSON imports as it
was (`isJsonImport_dirnamed`), and the attribute holds nothing that the
other fix would change. So they commute (`addJsonAttributes_dirnamed`), and
neither leaves anything to find for itself or for the other
(`adjust_projection`).
-/

namespace DualPackage

open Text Stretch

namespace EsmSource

variable {c : Char} {x gap head : List Char} {ss : List Stretch}

/-! ## What a JSON import is told by -/

theorem mem_dirnamed_iff (hc : isWord c = false) (hdot : c ≠ '.') :
    c ∈ dirnamed x ↔ c ∈ x := by
  constructor
  · intro h
    obtain ⟨u, v, huv⟩ := List.append_of_mem h
    obtain ⟨y, z, rfl, -, -⟩ := exists_of_dirnamed_eq_append_cons hc hdot huv
    simp
  · intro h
    obtain ⟨y, z, rfl⟩ := List.append_of_mem h
    simp [dirnamed_append_cons hc]

/-- The fix keeps to a class of characters that leaves out some separators
only, the dot not among them. -/
theorem forall_mem_dirnamed_iff {p : Char → Bool}
    (hp : ∀ c, p c = false → isWord c = false ∧ c ≠ '.') (x : List Char) :
    (∀ c ∈ dirnamed x, p c) ↔ ∀ c ∈ x, p c := by
  constructor <;> intro h c hc <;> by_contra hpc <;> rw [Bool.not_eq_true] at hpc
  · have := h c ((mem_dirnamed_iff (hp c hpc).1 (hp c hpc).2).2 hc)
    rw [hpc] at this
    cases this
  · have := h c ((mem_dirnamed_iff (hp c hpc).1 (hp c hpc).2).1 hc)
    rw [hpc] at this
    cases this

theorem isWord_eq_false_of_not_inSpecifier (h : inSpecifier c = false) :
    isWord c = false ∧ c ≠ '.' := by
  simp only [inSpecifier, isQuote, Bool.and_eq_false_iff, Bool.not_eq_false', Bool.or_eq_true,
    beq_iff_eq, bne_eq_false_iff_eq] at h
  rcases h with ((rfl | rfl) | rfl) | rfl <;> decide

theorem isWord_eq_false_of_not_inBindings (h : inBindings c = false) :
    isWord c = false ∧ c ≠ '.' := by
  simp only [inBindings, isQuote, Bool.and_eq_false_iff, Bool.not_eq_false', Bool.or_eq_true,
    beq_iff_eq, bne_eq_false_iff_eq] at h
  rcases h with ((rfl | rfl | rfl) | rfl) | rfl <;> decide

/-- The bindings of a JSON import are white space, some text, and `from`. -/
theorem isImportLead_isBlank_iff {lead : List Char} :
    Form.IsImportLead isBlank lead ↔ ∃ b mid gap,
      lead = importWord ++ b :: (mid ++ fromWord ++ gap) ∧ isBlank b ∧
        opensWord (charBefore none mid) ∧ (∀ c ∈ mid, inBindings c) ∧ ∀ c ∈ gap, isBlank c := by
  have hblank : ∀ c, isBlank c → inBindings c := by
    intro c hc
    by_contra hin
    simp only [Bool.not_eq_true, inBindings, isQuote, Bool.and_eq_false_iff, Bool.not_eq_false',
      Bool.or_eq_true, beq_iff_eq, bne_eq_false_iff_eq] at hin
    rcases hin with ((rfl | rfl | rfl) | rfl) | rfl <;> exact absurd hc (by decide)
  constructor
  · rintro ⟨bindings, rfl, hin, hhead, hfrom⟩
    obtain ⟨y, c, gap, rfl, hc, hgap⟩ := Form.endsInFrom_iff.1 hfrom
    rcases y with - | ⟨b, y⟩
    · exact ⟨c, [], gap, rfl, by simpa using hhead, rfl, by simp, hgap⟩
    · refine ⟨b, y ++ [c], gap, by simp, by simpa using hhead, ?_, fun d hd => hin d ?_, hgap⟩
      · rw [charBefore_concat]
        simpa using hc
      · rcases List.mem_append.1 hd with hd | hd
        · simp [hd]
        · simp [List.mem_singleton.1 hd]
  · rintro ⟨b, mid, gap, rfl, hb, hopens, hmid, hgap⟩
    have hword : ∀ c ∈ fromWord, inBindings c := List.all_iff_forall_prop.1 (by decide)
    refine ⟨_, rfl, fun c hc => ?_, by simpa using hb, Form.endsInFrom_iff.2 ?_⟩
    · simp only [List.mem_cons, List.mem_append] at hc
      rcases hc with rfl | (hc | hc) | hc
      · exact hblank _ hb
      · exact hmid c hc
      · exact hword c hc
      · exact hblank _ (hgap c hc)
    · rcases opensWord_charBefore_iff.1 hopens with rfl | ⟨y, c, rfl, hc⟩
      · exact ⟨[], b, gap, by simp, isWord_eq_false_of_isBlank hb, hgap⟩
      · exact ⟨b :: y, c, gap, by simp, hc, hgap⟩

theorem endsInLead_jsonImport_iff :
    Form.jsonImport.endsInLead none x ↔ ∃ u b mid gap,
      x = u ++ importWord ++ b :: (mid ++ fromWord ++ gap) ∧ opensWord (charBefore none u) ∧
        isBlank b ∧ opensWord (charBefore none mid) ∧ (∀ c ∈ mid, inBindings c) ∧
        ∀ c ∈ gap, isBlank c := by
  rw [Form.endsInLead_iff]
  constructor
  · rintro ⟨u, lead, rfl, hlead, hu⟩
    obtain ⟨b, mid, gap, rfl, hb, hmid⟩ := isImportLead_isBlank_iff.1 hlead
    exact ⟨u, b, mid, gap, by simp, hu, hb, hmid⟩
  · rintro ⟨u, b, mid, gap, rfl, hu, hb, hmid⟩
    exact ⟨u, _, by rw [List.append_assoc], isImportLead_isBlank_iff.2 ⟨b, mid, gap, rfl, hb, hmid⟩,
      hu⟩

theorem dirnamed_append_keyword {u w : List Char} (hu : opensWord (charBefore none u))
    (hw : ∀ c ∈ w, isWord c) (hname : w ≠ dirnameWord) :
    dirnamed (u ++ w) = dirnamed u ++ w := by
  rw [dirnamed_append hu, dirnamed_word hw, if_neg hname]

/-- **The fix of the directory name opens and closes no import.** -/
theorem endsInLead_dirnamed (x : List Char) :
    Form.jsonImport.endsInLead none (dirnamed x) = Form.jsonImport.endsInLead none x := by
  have himport : ∀ c ∈ importWord, isWord c := List.all_iff_forall_prop.1 (by decide)
  have hfrom : ∀ c ∈ fromWord, isWord c := List.all_iff_forall_prop.1 (by decide)
  rw [Bool.eq_iff_iff, endsInLead_jsonImport_iff, endsInLead_jsonImport_iff]
  constructor
  · rintro ⟨u, b, mid, gap, hx, hu, hb, hmid, hin, hgap⟩
    have hdot : b ≠ '.' := by
      rintro rfl
      exact absurd hb (by decide)
    -- the white space, the two keywords and what is between them were there
    obtain ⟨y, z, rfl, hy, hz⟩ :=
      exists_of_dirnamed_eq_append_cons (isWord_eq_false_of_isBlank hb) hdot hx
    obtain ⟨u, rfl, hu', -⟩ :=
      exists_of_dirnamed_eq_append_word himport (by decide) hu hy
    obtain ⟨z, rfl, hz'⟩ := exists_of_dirnamed_eq_append_blank hgap hz
    obtain ⟨mid, rfl, hmid', rfl⟩ :=
      exists_of_dirnamed_eq_append_word hfrom (by decide) hmid hz'
    exact ⟨u, b, mid, gap, rfl, hu', hb, hmid',
      (forall_mem_dirnamed_iff (fun _ => isWord_eq_false_of_not_inBindings) mid).1 hin, hgap⟩
  · rintro ⟨u, b, mid, gap, rfl, hu, hb, hmid, hin, hgap⟩
    refine ⟨dirnamed u, b, dirnamed mid, gap, ?_, opensWord_charBefore_dirnamed hu, hb,
      opensWord_charBefore_dirnamed hmid,
      (forall_mem_dirnamed_iff (fun _ => isWord_eq_false_of_not_inBindings) mid).2 hin, hgap⟩
    have hrest : dirnamed (mid ++ fromWord ++ gap) = dirnamed mid ++ fromWord ++ gap := by
      cases gap with
      | nil =>
        rw [List.append_nil, List.append_nil,
          dirnamed_append_keyword hmid hfrom (by decide)]
      | cons g gap =>
        have hg := isWord_eq_false_of_isBlank (hgap g (by simp))
        have hself : dirnamed gap = gap := dirnamed_of_separators fun c hc =>
          isWord_eq_false_of_isBlank (hgap c (List.mem_cons_of_mem _ hc))
        rw [dirnamed_append_cons hg, dirnamed_append_keyword hmid hfrom (by decide), hself]
    rw [dirnamed_append_cons (isWord_eq_false_of_isBlank hb),
      dirnamed_append_keyword hu himport (by decide), hrest]

theorem isJsonFile_dirnamed (s : Specifier) :
    Form.isJsonFile (dirnamed s) = Form.isJsonFile s := by
  have hjson : ∀ c ∈ ['j', 's', 'o', 'n'], isWord c :=
    List.all_iff_forall_prop.1 (by decide)
  have hdot : isWord '.' = false := by decide
  have hsplit : ∀ y : List Char,
      y ++ ['.', 'j', 's', 'o', 'n'] = y ++ ['.'] ++ ['j', 's', 'o', 'n'] := fun y => by simp
  rw [Bool.eq_iff_iff, isJsonFile_iff, isJsonFile_iff]
  constructor
  · rintro ⟨y, hy, hs⟩
    rw [hsplit] at hs
    obtain ⟨x, rfl, hx, hxy⟩ := exists_of_dirnamed_eq_append_word hjson (by decide)
      (by rw [charBefore_concat]; simpa using hdot) hs
    -- the separator in front of the word is the dot
    rcases opensWord_charBefore_iff.1 hx with rfl | ⟨x, c, rfl, hc⟩
    · simp at hxy
    · rw [dirnamed_append_cons hc, dirnamed_nil] at hxy
      obtain ⟨rfl, hlast⟩ := List.append_inj' hxy rfl
      obtain rfl : c = '.' := by simpa using hlast
      refine ⟨x, ?_, by simp⟩
      rintro rfl
      exact hy rfl
  · rintro ⟨y, hy, rfl⟩
    refine ⟨dirnamed y, fun h => hy (dirnamed_eq_nil h), ?_⟩
    rw [dirnamed_append_cons hdot, dirnamed_word hjson, if_neg (by decide)]

theorem skipBlank_eq_semicolon_iff {text : List Char} :
    (skipBlank text).head? = some ';' ↔ ∃ gap rest, text = gap ++ ';' :: rest ∧
      ∀ c ∈ gap, isBlank c := by
  constructor
  · intro h
    cases hskip : skipBlank text with
    | nil => simp [hskip] at h
    | cons c rest =>
      obtain rfl : c = ';' := by simpa [hskip] using h
      exact ⟨leadingBlank text, rest, by rw [← hskip, leadingBlank_append_skipBlank],
        fun c hc => List.mem_takeWhile_imp hc⟩
  · rintro ⟨gap, rest, rfl, hgap⟩
    have hsemicolon : isBlank ';' = false := by decide
    rw [skipBlank, dropWhile_append_stop hgap (by simpa using hsemicolon)]
    rfl

theorem skipBlank_dirnamed_eq_semicolon_iff (text : List Char) :
    (skipBlank (dirnamed text)).head? = some ';' ↔ (skipBlank text).head? = some ';' := by
  have hsemicolon : isWord ';' = false := by decide
  rw [skipBlank_eq_semicolon_iff, skipBlank_eq_semicolon_iff]
  constructor
  · rintro ⟨gap, rest, htext, hgap⟩
    obtain ⟨y, z, rfl, hy, -⟩ := exists_of_dirnamed_eq_append_cons hsemicolon (by decide) htext
    obtain ⟨y, rfl, hnil⟩ :=
      exists_of_dirnamed_eq_append_blank hgap (hy.trans (List.nil_append gap).symm)
    obtain rfl := dirnamed_eq_nil hnil
    exact ⟨gap, z, by simp, hgap⟩
  · rintro ⟨gap, rest, rfl, hgap⟩
    refine ⟨gap, dirnamed rest, ?_, hgap⟩
    rw [dirnamed_append_cons hsemicolon,
      dirnamed_of_separators fun c hc => isWord_eq_false_of_isBlank (hgap c hc)]

/-- **The fix of the directory name decides nothing about JSON imports.** -/
theorem isJsonImport_dirnamed (ahead run after : List Char) :
    isJsonImport (dirnamed ahead) (dirnamed run) (dirnamed after) =
      isJsonImport ahead run after := by
  have hinside : (dirnamed run).all inSpecifier = run.all inSpecifier := by
    rw [Bool.eq_iff_iff, List.all_eq_true, List.all_eq_true]
    exact forall_mem_dirnamed_iff (fun _ => isWord_eq_false_of_not_inSpecifier) run
  have hsemicolon : ((skipBlank (dirnamed after)).head? == some ';') =
      ((skipBlank after).head? == some ';') := by
    rw [Bool.eq_iff_iff, beq_iff_eq, beq_iff_eq, skipBlank_dirnamed_eq_semicolon_iff]
  simp only [isJsonImport, Form.takes, Form.accepts, endsInLead_dirnamed, hinside,
    isJsonFile_dirnamed, hsemicolon]

/-! ## The fixes commute -/

/-- The stretches after the fix of the directory name. -/
def dirnamedStretches (ss : List Stretch) : List Stretch :=
  ss.map fun s => { s with body := dirnamed s.body }

theorem dirnamed_glue (hq : ∀ s ∈ ss, isQuote s.quote) (head : List Char) :
    dirnamed (glue head ss) = glue (dirnamed head) (dirnamedStretches ss) := by
  induction ss generalizing head with
  | nil => rfl
  | cons s ss ih =>
    rw [glue_cons, dirnamed_append_cons (isWord_eq_false_of_isQuote (hq s (by simp))),
      ih fun t ht => hq t (by simp [ht])]
    rfl

theorem isCut_dirnamed (hcut : IsCut head ss) :
    IsCut (dirnamed head) (dirnamedStretches ss) := by
  have hfree : ∀ x : List Char, (∀ c ∈ x, isQuote c = false) →
      ∀ c ∈ dirnamed x, isQuote c = false := by
    intro x hx c hc
    by_contra hquote
    rw [Bool.not_eq_false] at hquote
    have hdot : c ≠ '.' := by
      rintro rfl
      exact absurd hquote (by decide)
    rw [hx c ((mem_dirnamed_iff (isWord_eq_false_of_isQuote hquote) hdot).1 hc)] at hquote
    cases hquote
  refine ⟨hfree _ hcut.head_free, fun t ht => ?_, fun t ht => ?_⟩ <;>
    obtain ⟨s, hs, rfl⟩ := List.mem_map.1 ht
  · exact hcut.quotes s hs
  · exact hfree _ (hcut.bodies_free s hs)

theorem jsonImports_dirnamed (ahead : List Char) (ss : List Stretch) :
    jsonImports (dirnamed ahead) (dirnamedStretches ss) = jsonImports ahead ss := by
  fun_induction jsonImports ahead ss with
  | case1 => rfl
  | case2 => rfl
  | case3 ahead s e rest ih =>
    rw [← ih, ← isJsonImport_dirnamed]
    rfl

theorem dirnamed_jsonAttribute_append (x : List Char) :
    dirnamed (jsonAttribute ++ x) = jsonAttribute ++ dirnamed x := by
  have hopens : opensWord (charBefore none jsonAttribute) := by decide
  have hself : dirnamed jsonAttribute = jsonAttribute := by decide
  rw [dirnamed_append hopens, hself]

theorem dirnamedStretches_behind (marks : List Bool) (ss : List Stretch) :
    dirnamedStretches (behind jsonAttribute marks ss) =
      behind jsonAttribute marks (dirnamedStretches ss) := by
  simp only [behind]
  generalize false :: marks = marks
  induction ss generalizing marks with
  | nil => simp [dirnamedStretches]
  | cons s ss ih =>
    rcases marks with - | ⟨- | -, marks⟩
    · rfl
    · exact congrArg _ (ih marks)
    · simp only [dirnamedStretches, amend_cons, if_true, List.map_cons] at ih ⊢
      rw [ih, dirnamed_jsonAttribute_append]

/-- **The two fixes commute.** -/
theorem addJsonAttributes_dirnamed (text : List Char) :
    (addJsonAttributes (dirnamed text)).text = dirnamed (addJsonAttributes text).text := by
  have hcut := isCut_cut text
  rw [← glue_cut text]
  set head := (cut text).1
  set ss := (cut text).2
  have hquotes : ∀ s ∈ behind jsonAttribute (jsonImports head ss) ss, isQuote s.quote := by
    intro s hs
    obtain ⟨t, ht, hquote⟩ := exists_quote_of_mem_behind hs
    rw [← hquote]
    exact hcut.quotes t ht
  rw [dirnamed_glue hcut.quotes, text_addJsonAttributes (isCut_dirnamed hcut),
    jsonImports_dirnamed, text_addJsonAttributes hcut, dirnamed_glue hquotes,
    dirnamedStretches_behind]

/-! ## Nothing is left to fix -/

theorem addJsonAttributes_of_found_nil {text : List Char}
    (h : Form.jsonImport.finder.found text = []) : addJsonAttributes text = .unchanged text := by
  simp [addJsonAttributes, Revision.unchanged, Finder.replace_of_found_nil h, h]

theorem convertDirname_of_found_nil {text : List Char} (h : dirnameFinder.found text = []) :
    convertDirname text = .unchanged text := by
  simp [convertDirname, Revision.unchanged, Finder.replace_of_found_nil h, h]

theorem faithful_dirnameFinder : dirnameFinder.Faithful := by
  rintro before text ⟨⟩ hfind
  obtain ⟨rest, rfl, -⟩ := dirnameFinder_find?_iff.1 hfind
  exact ⟨by decide, List.prefix_append _ _⟩

/-- Where the scan finds nothing, the word does not stand. -/
theorem not_dirname_of_found_nil {text x y : List Char} (h : dirnameFinder.found text = [])
    (htext : text = x ++ (dirnameWord ++ y)) :
    ¬ (opensWord (charBefore none x) ∧ closesWord y) := fun hboundaries =>
  (Finder.found_eq_nil_iff faithful_dirnameFinder).1 h x.length ()
    ⟨x, dirnameWord ++ y, htext, rfl, dirnameFinder_find?_iff.2 ⟨y, rfl, hboundaries⟩⟩

/-- **The fixes of the ESM tree are a projection.** They commute, and what
they leave holds no import of a JSON file without attributes and no word
`__dirname`. So each of them, and the two together, find nothing to do
when they are applied again. -/
theorem adjust_projection (text : List Char) :
    (addJsonAttributes (convertDirname text).text).text =
        (convertDirname (addJsonAttributes text).text).text ∧
      (∀ i c, ¬ Form.jsonImport.Occurs (adjust text).text i c) ∧
      (∀ x y, (adjust text).text = x ++ (dirnameWord ++ y) →
        ¬ (opensWord (charBefore none x) ∧ closesWord y)) ∧
      addJsonAttributes (addJsonAttributes text).text =
        .unchanged (addJsonAttributes text).text ∧
      convertDirname (convertDirname text).text = .unchanged (convertDirname text).text ∧
      adjust (adjust text).text = .unchanged (adjust text).text := by
  have hadjust : (adjust text).text = dirnamed (addJsonAttributes text).text := rfl
  have hdirname : dirnameFinder.found (adjust text).text = [] := by
    rw [hadjust]
    exact found_dirnamed _
  have hjson : Form.jsonImport.finder.found (adjust text).text = [] := by
    rw [hadjust, ← addJsonAttributes_dirnamed]
    exact found_addJsonAttributes _
  refine ⟨addJsonAttributes_dirnamed text, ?_,
    fun x y htext => not_dirname_of_found_nil hdirname htext,
    addJsonAttributes_of_found_nil (found_addJsonAttributes text),
    convertDirname_of_found_nil (found_dirnamed text), ?_⟩
  · intro i c hoccurs
    exact (Finder.found_eq_nil_iff (Form.faithful_finder _)).1 hjson i c
      (Form.occurs_iff.1 hoccurs)
  · rw [adjust, addJsonAttributes_of_found_nil hjson]
    simp [Revision.followedBy, Revision.unchanged, convertDirname_of_found_nil hdirname]

/-- The two fixes meet in one statement. -/
example :
    (adjust "import __dirname from './__dirname.json';".toList).text =
      ("import import.meta.dirname from './import.meta.dirname.json'".toList ++
        " with \x7b type: \"json\" \x7d;".toList) := by
  decide

end EsmSource

end DualPackage
