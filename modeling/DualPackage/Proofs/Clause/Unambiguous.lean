import DualPackage.Proofs.Esm.JsonAttribute
import DualPackage.Proofs.Text.Grouped
/-!
# Clauses as matches

The clauses of a form are what an expression in groups describes
(`Form.source`): the lead, a quote, the specifier, a quote, and for an import
of a JSON file what has to follow. Inside of a lead the expression leaves
many choices. Between the groups it leaves none: the bindings of an import
hold no quote, the names of an export end at the first closing brace, a
specifier ends at the first quote, and only white space comes before a `;`. So a
match captures the parts of the clause that is read at its place
(`Form.matchesAt_iff`), and a pass along the matches of any matcher is a pass
along these clauses (`Form.unambiguous`).
-/

namespace DualPackage

open Text

namespace Charset

/-- What a `Form` reads by `isQuote`. -/
def quotes : Charset := ⟨false, false, ['\'', '"']⟩

/-- What it reads by `inSpecifier`. -/
def specifier : Charset := ⟨true, false, ['\'', '"', '\r', '\n']⟩

/-- What it reads by `inBindings`. -/
def bindings : Charset := ⟨true, false, [';', '\'', '"', '(', ')']⟩

/-- What the bindings of an import may begin with behind white space. -/
def openers : Charset := ⟨false, true, ['{', '*']⟩

/-- What stands between the braces of an export. -/
def names : Charset := ⟨true, false, ['}']⟩

@[simp] theorem has_quotes (c : Char) : quotes.has c = isQuote c := by
  simp [has, quotes, isQuote, Bool.beq_eq_decide_eq]

@[simp] theorem has_specifier (c : Char) : specifier.has c = inSpecifier c := by
  simp [has, specifier, inSpecifier, isQuote, bne, Bool.beq_eq_decide_eq, Bool.and_assoc]

@[simp] theorem has_bindings (c : Char) : bindings.has c = inBindings c := by
  simp [has, bindings, inBindings, isQuote, bne, Bool.beq_eq_decide_eq, Bool.and_assoc]

@[simp] theorem has_openers (c : Char) :
    openers.has c = (isBlank c || c == '{' || c == '*') := by
  simp [has, openers, Bool.or_assoc, Bool.beq_eq_decide_eq]

@[simp] theorem has_names (c : Char) : names.has c ↔ c ≠ '}' := by
  simp [has, names]

end Charset

namespace Form

open Grouped

/-! ## The expressions -/

/-- The text of the expression that the clauses of a form are looked for
with. -/
def source : Form → List Char
  | anyFrom => "(\\bfrom\\s*)(['\"])([^'\"\\r\\n]+)(['\"])".toList
  | importFrom =>
    "(\\bimport\\s*[\\s\x7b*][^;'\"()]*?\\bfrom\\s*)(['\"])([^'\"\\r\\n]*)(['\"])".toList
  | exportFrom =>
    "(\\bexport\\s*\\\x7b[^\x7d]*\\\x7d\\s*from\\s*)(['\"])([^'\"\\r\\n]*)(['\"])".toList
  | jsonImport =>
    ("(\\bimport\\s+[^;'\"()]*?\\bfrom\\s*)(['\"])([^'\"\\r\\n]+\\.json)(['\"])" ++
      "(\\s*;)").toList

/-- The keyword in front of the specifier. -/
def fromItems : List Item :=
  spell fromWord ++ [.run .white false true]

/-- An import up to the opening quote, with bindings that begin in the given
way. -/
def importItems (opening : List Item) : List Item :=
  .boundary :: (spell importWord ++
    (opening ++ .run .bindings false false :: .boundary :: fromItems))

/-- An export up to the opening quote. -/
def exportItems : List Item :=
  .boundary :: (spell exportWord ++ (.run .white false true :: .one (.only '{') ::
    .run .names false true :: .one (.only '}') :: .run .white false true :: fromItems))

/-- The group that stands for the lead. -/
def leadItems : Form → List Item
  | anyFrom => .boundary :: fromItems
  | importFrom => importItems [.run .white false true, .one .openers]
  | exportFrom => exportItems
  | jsonImport => importItems [.run .white true true]

/-- The group that stands for the specifier. -/
def specifierItems : Form → List Item
  | anyFrom => [.run .specifier true true]
  | importFrom | exportFrom => [.run .specifier false true]
  | jsonImport => .run .specifier true true :: spell ['.', 'j', 's', 'o', 'n']

/-- The groups behind the closing quote. -/
def endGroups : Form → Grouped
  | jsonImport => [[.run .white false true, .one (.only ';')]]
  | _ => []

/-- The expression that the clauses of a form are looked for with. -/
def grouped (form : Form) : Grouped :=
  [form.leadItems, [.one .quotes], form.specifierItems, [.one .quotes]] ++ form.endGroups

theorem read?_source (form : Form) : read? form.source = some form.grouped := by
  cases form <;> decide +kernel

/-- What the groups behind the closing quote capture. -/
def ending : Form → List Char → List (List Char)
  | jsonImport, after => [leadingBlank after ++ [';']]
  | _, _ => []

/-- What the groups capture of a clause and of the text behind it. -/
def captures (form : Form) (c : Clause) (after : List Char) : List (List Char) :=
  [c.lead, [c.quoted.openQuote], c.specifier, [c.quoted.closeQuote]] ++ form.ending after

variable {form : Form} {before : Option Char} {lead m after rest text : List Char}
  {parts parts' ends : List (List Char)} {c : Clause} {specifier : Specifier}
  {opening : List Item} {opens : Char → Bool}

/-! ## The lead -/

theorem groupAt_fromItems_iff : GroupAt fromItems before m after ↔ IsFromLead m := by
  rw [fromItems, groupAt_spell_iff, IsFromLead]
  simp only [groupAt_run_iff, groupAt_nil_iff, Charset.has_white]
  constructor
  · rintro ⟨m', rfl, gap, m'', rfl, hgap, -, rfl⟩
    exact ⟨gap, by simp, hgap⟩
  · rintro ⟨gap, rfl, hgap⟩
    exact ⟨gap, rfl, gap, [], by simp, hgap, by simp, rfl⟩

theorem groupAt_boundary_fromItems_iff :
    GroupAt (.boundary :: fromItems) before m after ↔ opensWord before ∧ IsFromLead m := by
  rw [groupAt_boundary_iff, groupAt_fromItems_iff]
  refine and_congr_left ?_
  rintro ⟨gap, rfl, -⟩
  have hf : isWord 'f' := by decide +kernel
  simp [fromWord, opensWord, hf]

theorem inBindings_of_isBlank {c : Char} (h : isBlank c) : inBindings c := by
  have hne : c ≠ ';' ∧ c ≠ '(' ∧ c ≠ ')' := by
    refine ⟨?_, ?_, ?_⟩ <;> rintro rfl <;> exact absurd h (by decide)
  simp [inBindings, isQuote_eq_false_of_isBlank h, hne]

theorem inBindings_of_isFromLead (h : IsFromLead lead) : ∀ c ∈ lead, inBindings c := by
  obtain ⟨gap, rfl, hgap⟩ := h
  have hword : ∀ c ∈ fromWord, inBindings c := List.all_eq_true.1 (by decide)
  exact List.forall_mem_append.2 ⟨hword, fun c hc => inBindings_of_isBlank (hgap c hc)⟩

/-- The bindings of an import up to the keyword `from`. -/
theorem isImportLead_iff : IsImportLead opens m ↔
    ∃ x source, m = importWord ++ (x ++ source) ∧ x.head?.any opens ∧ (∀ c ∈ x, inBindings c) ∧
      opensWord (charBefore (some 't') x) ∧ IsFromLead source := by
  constructor
  · rintro ⟨bindings, rfl, hin, hopens, hfrom⟩
    obtain ⟨y, c, gap, rfl, hc, hgap⟩ := endsInFrom_iff.1 hfrom
    have hsplit : y ++ c :: (fromWord ++ gap) = y ++ [c] ++ (fromWord ++ gap) := by simp
    rw [hsplit] at hin hopens ⊢
    refine ⟨y ++ [c], fromWord ++ gap, rfl, ?_, (List.forall_mem_append.1 hin).1, ?_, gap, rfl,
      hgap⟩
    · cases y <;> exact hopens
    · rw [charBefore_concat]
      simpa using hc
  · rintro ⟨x, source, rfl, hopens, hin, hb, hsource⟩
    rcases List.eq_nil_or_concat x with rfl | ⟨y, c, rfl⟩
    · cases hopens
    · refine ⟨_, rfl, List.forall_mem_append.2 ⟨hin, inBindings_of_isFromLead hsource⟩, ?_, ?_⟩
      · cases y <;> exact hopens
      · obtain ⟨gap, rfl, hgap⟩ := hsource
        rw [List.concat_eq_append, charBefore_concat] at hb
        exact endsInFrom_iff.2 ⟨y, c, gap, by simp, by simpa using hb, hgap⟩

/-- The group reads the bindings up to the keyword `from`, if `opening` with
the set of the bindings behind it reads what opens in the given way. -/
theorem groupAt_importItems_iff
    (hopening : ∀ {before m after g}, GroupAt (opening ++ .run .bindings false false :: g) before m
      after ↔ ∃ x m', m = x ++ m' ∧ x.head?.any opens ∧ (∀ c ∈ x, inBindings c) ∧
        GroupAt g (charBefore before x) m' after) :
    GroupAt (importItems opening) before m after ↔ opensWord before ∧ IsImportLead opens m := by
  have hi : isWord 'i' := by decide +kernel
  rw [importItems, importWord, groupAt_word_iff hi, isImportLead_iff]
  refine and_congr_right fun _ => ?_
  simp only [hopening, groupAt_boundary_fromItems_iff]
  constructor
  · rintro ⟨m', rfl, x, source, rfl, hopens, hin, hb, hsource⟩
    exact ⟨x, source, rfl, hopens, hin, hb, hsource⟩
  · rintro ⟨x, source, rfl, hopens, hin, hb, hsource⟩
    exact ⟨x ++ source, rfl, x, source, rfl, hopens, hin, hb, hsource⟩

theorem groupAt_exportItems_iff :
    GroupAt exportItems before m after ↔ opensWord before ∧ IsExportLead m := by
  have he : isWord 'e' := by decide +kernel
  rw [exportItems, exportWord, groupAt_word_iff he, IsExportLead]
  refine and_congr_right fun _ => ?_
  simp only [groupAt_run_iff, groupAt_one_iff, groupAt_fromItems_iff, Charset.has_white,
    Charset.has_only, Charset.has_names]
  constructor
  · rintro ⟨m', rfl, gap, m', rfl, hgap, -, o, m', rfl, rfl, names, m', rfl, hnames, -, e, m',
      rfl, rfl, gap', source, rfl, hgap', -, hsource⟩
    exact ⟨gap, names, gap', source, by simp [exportWord], hgap, hnames, hgap', hsource⟩
  · rintro ⟨gap, names, gap', source, rfl, hgap, hnames, hgap', hsource⟩
    exact ⟨_, by simp [exportWord], gap, _, rfl, hgap, by simp, '{', _, rfl, rfl, names, _, rfl,
      hnames, by simp, '}', _, rfl, rfl, gap', source, rfl, hgap', by simp, hsource⟩

/-- What opens the bindings of an import may be one character of the white
space in front of them, or the first behind it. -/
theorem groupAt_openers_iff {g : List Item} :
    GroupAt ([.run .white false true, .one .openers] ++ .run .bindings false false :: g) before m
      after ↔ ∃ x m', m = x ++ m' ∧ (x.head?.any fun c => isBlank c || c == '{' || c == '*') ∧
        (∀ c ∈ x, inBindings c) ∧ GroupAt g (charBefore before x) m' after := by
  simp only [List.cons_append, List.nil_append, groupAt_run_iff, groupAt_one_iff,
    Charset.has_white, Charset.has_openers, Charset.has_bindings]
  constructor
  · rintro ⟨gap, m', rfl, hgap, -, c, m', rfl, hc, body, m', rfl, hbody, -, hg⟩
    have hin : inBindings c := by
      simp only [Bool.or_eq_true, beq_iff_eq] at hc
      rcases hc with (hc | rfl) | rfl
      · exact inBindings_of_isBlank hc
      all_goals decide
    refine ⟨gap ++ c :: body, m', by simp, ?_, ?_, by simpa [charBefore_append] using hg⟩
    · cases gap with
      | nil => exact hc
      | cons d gap =>
        have hd : isBlank d := hgap d (List.mem_cons_self ..)
        simp [hd]
    · exact List.forall_mem_append.2 ⟨fun c hc => inBindings_of_isBlank (hgap c hc),
        List.forall_mem_cons.2 ⟨hin, hbody⟩⟩
  · rintro ⟨x, m', rfl, hopens, hin, hg⟩
    cases x with
    | nil => cases hopens
    | cons c x =>
      exact ⟨[], _, rfl, by simp, by simp, c, _, rfl, hopens, x, m', rfl,
        (List.forall_mem_cons.1 hin).2, by simp, hg⟩

theorem groupAt_blankOpening_iff {g : List Item} :
    GroupAt ([.run .white true true] ++ .run .bindings false false :: g) before m after ↔
      ∃ x m', m = x ++ m' ∧ x.head?.any isBlank ∧ (∀ c ∈ x, inBindings c) ∧
        GroupAt g (charBefore before x) m' after := by
  simp only [List.cons_append, List.nil_append, groupAt_run_iff, Charset.has_white,
    Charset.has_bindings]
  constructor
  · rintro ⟨gap, m', rfl, hgap, hne, body, m', rfl, hbody, -, hg⟩
    refine ⟨gap ++ body, m', by simp, ?_, ?_, by simpa [charBefore_append] using hg⟩
    · cases gap with
      | nil => simp at hne
      | cons d gap => exact hgap d (List.mem_cons_self ..)
    · exact List.forall_mem_append.2 ⟨fun c hc => inBindings_of_isBlank (hgap c hc), hbody⟩
  · rintro ⟨x, m', rfl, hopens, hin, hg⟩
    cases x with
    | nil => cases hopens
    | cons c x =>
      exact ⟨[c], _, rfl, by simpa using hopens, by simp, x, m', rfl,
        (List.forall_mem_cons.1 hin).2, by simp, hg⟩

/-- **The first group stands for a lead,** where a word may begin. It may part
the lead among its items in several ways. -/
theorem groupAt_leadItems_iff :
    GroupAt form.leadItems before m after ↔ opensWord before ∧ form.IsLead m := by
  cases form with
  | anyFrom => exact groupAt_boundary_fromItems_iff
  | importFrom => exact groupAt_importItems_iff groupAt_openers_iff
  | exportFrom => exact groupAt_exportItems_iff
  | jsonImport => exact groupAt_importItems_iff groupAt_blankOpening_iff

/-! ## The other groups -/

theorem groupAt_quotes_iff {m : List Char} :
    GroupAt [.one .quotes] before m after ↔ ∃ q, m = [q] ∧ isQuote q := by
  simp only [groupAt_one_iff, groupAt_nil_iff, Charset.has_quotes]
  constructor
  · rintro ⟨q, m', rfl, hq, rfl⟩
    exact ⟨q, rfl, hq⟩
  · rintro ⟨q, rfl, hq⟩
    exact ⟨q, [], rfl, hq, rfl⟩

/-- A run of characters that a specifier may hold. -/
theorem groupAt_specifierRun_iff {nonempty greedy : Bool} :
    GroupAt [.run .specifier nonempty greedy] before m after ↔
      (∀ c ∈ m, inSpecifier c) ∧ (nonempty → m ≠ []) := by
  simp only [groupAt_run_iff, groupAt_nil_iff, Charset.has_specifier]
  constructor
  · rintro ⟨p, m', rfl, hp, hne, rfl⟩
    exact ⟨by simpa using hp, by simpa using hne⟩
  · rintro ⟨hm, hne⟩
    exact ⟨m, [], by simp, hm, hne, rfl⟩

theorem groupAt_jsonFile_iff :
    GroupAt jsonImport.specifierItems before m after ↔ (∀ c ∈ m, inSpecifier c) ∧ isJsonFile m := by
  have hspell : spell ['.', 'j', 's', 'o', 'n'] = spell ['.', 'j', 's', 'o', 'n'] ++ [] := by simp
  rw [specifierItems, hspell, EsmSource.isJsonFile_iff]
  simp only [groupAt_run_iff, groupAt_spell_iff, groupAt_nil_iff, Charset.has_specifier]
  have hsuffix : ∀ c ∈ ['.', 'j', 's', 'o', 'n'], inSpecifier c :=
    List.all_eq_true.1 (by decide)
  constructor
  · rintro ⟨y, m', rfl, hy, hne, m'', rfl, rfl⟩
    exact ⟨by simpa using List.forall_mem_append.2 ⟨hy, hsuffix⟩, y, hne trivial, by simp⟩
  · rintro ⟨hm, y, hne, rfl⟩
    exact ⟨y, _, rfl, (List.forall_mem_append.1 hm).1, fun _ => hne, [], rfl, rfl⟩

theorem along_endGroups_jsonImport_iff :
    Along GroupAt jsonImport.endGroups before ends after ↔
      ∃ gap, ends = [gap ++ [';']] ∧ ∀ c ∈ gap, isBlank c := by
  simp only [endGroups, along_cons_iff, along_nil_iff, groupAt_run_iff, groupAt_one_iff,
    groupAt_nil_iff, Charset.has_white, Charset.has_only]
  constructor
  · rintro ⟨m, ms, rfl, ⟨gap, m', rfl, hgap, -, c, m', rfl, rfl, rfl⟩, rfl⟩
    exact ⟨gap, rfl, hgap⟩
  · rintro ⟨gap, rfl, hgap⟩
    exact ⟨_, [], rfl, ⟨gap, _, rfl, hgap, by simp, ';', [], rfl, rfl, rfl⟩, rfl⟩

/-- **The other groups stand for what the form accepts.** -/
theorem groupAt_specifierItems_and_along_iff {before' : Option Char} {after' : List Char} :
    GroupAt form.specifierItems before m after' ∧ Along GroupAt form.endGroups before' ends after ↔
      (∀ c ∈ m, inSpecifier c) ∧ form.accepts m (ends.flatten ++ after) ∧
        ends = form.ending (ends.flatten ++ after) := by
  cases form with
  | anyFrom | importFrom | exportFrom =>
    simp [specifierItems, groupAt_specifierRun_iff, endGroups, along_nil_iff, accepts, ending,
      and_assoc]
  | jsonImport =>
    rw [groupAt_jsonFile_iff, along_endGroups_jsonImport_iff, accepts, ending]
    constructor
    · rintro ⟨⟨hm, hjson⟩, gap, rfl, hgap⟩
      have hstop : ∀ c ∈ (';' :: after).head?, isBlank c = false := by
        simp only [List.head?_cons, Option.mem_def, Option.some.injEq, forall_eq']
        decide
      have hrest : [gap ++ [';']].flatten ++ after = gap ++ ';' :: after := by simp
      have htake : leadingBlank (gap ++ ';' :: after) = gap := takeWhile_append_stop hgap hstop
      have hdrop : skipBlank (gap ++ ';' :: after) = ';' :: after :=
        dropWhile_append_stop hgap hstop
      rw [hrest, htake, hdrop, hjson]
      exact ⟨hm, rfl, rfl⟩
    · rintro ⟨hm, haccepts, hends⟩
      rw [Bool.and_eq_true] at haccepts
      exact ⟨⟨hm, haccepts.1⟩, _, hends, fun c hc => List.mem_takeWhile_imp hc⟩

/-- What a form accepts begins with what the groups behind the closing quote
capture. -/
theorem exists_of_accepts (h : form.accepts specifier after) :
    ∃ rest, after = (form.ending after).flatten ++ rest := by
  cases form with
  | anyFrom | importFrom | exportFrom => exact ⟨after, rfl⟩
  | jsonImport =>
    rw [accepts, Bool.and_eq_true, beq_iff_eq, List.head?_eq_some_iff] at h
    obtain ⟨-, rest, hrest⟩ := h
    refine ⟨rest, ?_⟩
    calc after = leadingBlank after ++ skipBlank after := (leadingBlank_append_skipBlank _).symm
      _ = (ending jsonImport after).flatten ++ rest := by simp [hrest, ending]

/-! ## A match and a clause -/

theorem flatten_captures :
    (form.captures c after).flatten = c.text ++ (form.ending after).flatten := by
  simp [captures, Clause.text, QuotedRun.text, Clause.specifier]

/-- Group by group: a lead where a word may begin, a proper quoted run, and
what the form asks of the rest. -/
theorem along_grouped_iff : Along GroupAt form.grouped before parts after ↔
    ∃ c : Clause, ∃ ends,
      parts = [c.lead, [c.quoted.openQuote], c.specifier, [c.quoted.closeQuote]] ++ ends ∧
      opensWord before ∧ form.IsLead c.lead ∧ c.quoted.Proper ∧
      form.accepts c.specifier (ends.flatten ++ after) ∧
      ends = form.ending (ends.flatten ++ after) := by
  simp only [grouped, List.cons_append, List.nil_append, along_cons_iff, groupAt_leadItems_iff,
    groupAt_quotes_iff]
  constructor
  · rintro ⟨lead, ms, rfl, ⟨hb, hlead⟩, m₂, ms, rfl, ⟨o, rfl, ho⟩, spec, ms, rfl, hspec, m₄, ms,
      rfl, ⟨e, rfl, he⟩, hends⟩
    obtain ⟨hin, haccepts, heq⟩ := groupAt_specifierItems_and_along_iff.1 ⟨hspec, hends⟩
    exact ⟨⟨lead, ⟨o, spec, e⟩⟩, ms, rfl, hb, hlead, ⟨ho, hin, he⟩, haccepts, heq⟩
  · rintro ⟨⟨lead, ⟨o, spec, e⟩⟩, ends, rfl, hb, hlead, ⟨ho, hin, he⟩, haccepts, heq⟩
    obtain ⟨hspec, hends⟩ := groupAt_specifierItems_and_along_iff.2 ⟨hin, haccepts, heq⟩
    exact ⟨lead, _, rfl, ⟨hb, hlead⟩, [o], _, rfl, ⟨o, rfl, ho⟩, spec, _, rfl, hspec, [e], _,
      rfl, ⟨e, rfl, he⟩, hends⟩

/-- **A match captures the parts of the clause** that is read at its place. -/
theorem matchesAt_iff : form.grouped.MatchesAt before text parts ↔
    ∃ c after, form.clause? before text = some c ∧ text = c.text ++ after ∧
      parts = form.captures c after := by
  simp only [MatchesAt, along_grouped_iff, clause?_eq_some_iff]
  constructor
  · rintro ⟨y, rfl, c, ends, rfl, hb, hlead, hproper, haccepts, heq⟩
    have htext : ([c.lead, [c.quoted.openQuote], c.specifier, [c.quoted.closeQuote]] ++
        ends).flatten ++ y = c.text ++ (ends.flatten ++ y) := by
      simp [Clause.text, QuotedRun.text, Clause.specifier]
    exact ⟨c, ends.flatten ++ y, ⟨hb, hlead, hproper, _, htext, haccepts⟩, htext,
      by rw [captures, ← heq]⟩
  · rintro ⟨c, after, ⟨hb, hlead, hproper, after', heq, haccepts⟩, rfl, rfl⟩
    obtain rfl : after = after' := List.append_cancel_left heq
    obtain ⟨y, hy⟩ := exists_of_accepts haccepts
    refine ⟨y, ?_, c, form.ending after, rfl, hb, hlead, hproper, ?_, ?_⟩
    · rw [flatten_captures, List.append_assoc, ← hy]
    · rwa [← hy]
    · rw [← hy]

/-- **At one place there is one match at most,** up to what the groups
capture. -/
theorem eq_of_matchesAt (h : form.grouped.MatchesAt before text parts)
    (h' : form.grouped.MatchesAt before text parts') : parts = parts' := by
  obtain ⟨c, after, hc, rfl, rfl⟩ := matchesAt_iff.1 h
  obtain ⟨c', after', hc', heq, rfl⟩ := matchesAt_iff.1 h'
  obtain rfl : c = c' := Option.some.inj (hc.symm.trans hc')
  rw [List.append_cancel_left heq]

/-- Either blank may be the one that opens the bindings, to the same effect. -/
example : importFrom.grouped.ways none "import  a from './b'".toList =
    List.replicate 2 ["import  a from ".toList, ['\''], "./b".toList, ['\'']] := by
  decide +kernel

/-! ## A scan for matches and a scan for clauses -/

/-- What a matcher answers are the parts of the clause. -/
theorem match?_eq_some_iff (M : Matcher form.grouped) : M.match? before text = some parts ↔
    ∃ c after, form.clause? before text = some c ∧ text = c.text ++ after ∧
      parts = form.captures c after :=
  (M.match?_eq_some_iff fun _ => eq_of_matchesAt).trans matchesAt_iff

theorem match?_eq_none_iff (M : Matcher form.grouped) :
    M.match? before text = none ↔ form.clause? before text = none := by
  rw [Option.eq_none_iff_forall_ne_some, Option.eq_none_iff_forall_ne_some]
  constructor
  · intro h c hc
    obtain ⟨-, -, -, after, htext, -⟩ := clause?_eq_some_iff.1 hc
    exact h _ ((match?_eq_some_iff M).2 ⟨c, after, hc, htext, rfl⟩)
  · intro h parts hparts
    obtain ⟨c, -, hc, -⟩ := (match?_eq_some_iff M).1 hparts
    exact h c hc

/-- The text that a match covers beyond its clause begins no other. -/
theorem noneWithin_ending (form : Form) (before : Option Char) (after rest : List Char) :
    form.finder.NoneWithin before (form.ending after).flatten rest := by
  intro y c z hy
  cases form with
  | anyFrom | importFrom | exportFrom => simp [ending] at hy
  | jsonImport =>
    -- an import begins with a letter, and here stand blanks and `;`
    have hc : c ≠ 'i' := by
      have hmem : c ∈ leadingBlank after ++ [';'] := by
        have hends : (ending jsonImport after).flatten = leadingBlank after ++ [';'] := by
          simp [ending]
        rw [← hends, hy]
        simp
      rcases List.mem_append.1 hmem with hblank | hsemicolon
      · have hblank : isBlank c := List.mem_takeWhile_imp hblank
        rintro rfl
        exact absurd hblank (by decide +kernel)
      · rw [List.mem_singleton.1 hsemicolon]
        decide
    refine Option.eq_none_iff_forall_ne_some.2 fun clause hclause => ?_
    obtain ⟨-, ⟨bindings, hlead, -⟩, -, after', htext, -⟩ := clause?_eq_some_iff.1 hclause
    rw [Clause.text, hlead] at htext
    exact hc (List.cons.inj htext).1

/-- The scan for matches goes on behind all that the match covers. -/
theorem scan_matches (M : Matcher form.grouped)
    (hclause : form.clause? before (c.text ++ after) = some c)
    (hafter : after = (form.ending after).flatten ++ rest) :
    M.finder.scan before 0 (c.text ++ after) = .found (form.captures c after) ::
      M.finder.scan (charBefore before (c.text ++ (form.ending after).flatten)) 0 rest := by
  have hspan : M.finder.span (form.captures c after) = c.text ++ (form.ending after).flatten :=
    flatten_captures
  have htext : c.text ++ after = M.finder.span (form.captures c after) ++ rest := by
    rw [hspan, List.append_assoc, ← hafter]
  have hne : c.text ≠ [] := (faithful_finder form before _ c hclause).1
  have hfind : M.finder.find? before (c.text ++ after) = some (form.captures c after) :=
    (match?_eq_some_iff M).2 ⟨c, after, hclause, rfl, rfl⟩
  rw [htext] at hfind ⊢
  rw [Finder.scan_of_find? (by simp [hspan, hne]) hfind, hspan]

/-- The scan for clauses goes on behind the clause, and passes over the rest of
what the match covers. -/
theorem scan_clauses (hclause : form.clause? before (c.text ++ after) = some c)
    (hafter : after = (form.ending after).flatten ++ rest) :
    form.finder.scan before 0 (c.text ++ after) =
      .found c :: ((form.ending after).flatten.map .plain ++
        form.finder.scan (charBefore before (c.text ++ (form.ending after).flatten)) 0 rest) := by
  have hne : c.text ≠ [] := (faithful_finder form before _ c hclause).1
  have hbehind : form.finder.scan (charBefore before c.text) 0 after =
      (form.ending after).flatten.map .plain ++
        form.finder.scan (charBefore before (c.text ++ (form.ending after).flatten)) 0 rest := by
    conv_lhs => rw [hafter]
    rw [Finder.scan_append_of_none (noneWithin_ending form _ after rest), charBefore_append]
  rw [← hbehind]
  exact Finder.scan_of_find? hne hclause

/-- **The two scans come to the same matches.** Whatever is made of the pieces,
it is the same if the two agree on a character, and on a match with a clause
and what the match covers beyond it. The induction is on the length of the
text: one step takes a character, or the match. -/
theorem flatMap_scan_eq {β : Type} (M : Matcher form.grouped)
    {atMatch : Piece (List (List Char)) → List β} {atClause : Piece Clause → List β}
    (hplain : ∀ d, atMatch (.plain d) = atClause (.plain d))
    (hfound : ∀ c after, atMatch (.found (form.captures c after)) =
      atClause (.found c) ++ (form.ending after).flatten.flatMap fun d => atClause (.plain d))
    (before : Option Char) (text : List Char) :
    (M.finder.scan before 0 text).flatMap atMatch =
      (form.finder.scan before 0 text).flatMap atClause := by
  induction hn : text.length using Nat.strong_induction_on generalizing before text with
  | _ n ih =>
  cases hclause : form.clause? before text with
  | none =>
    have hmatch := (match?_eq_none_iff M).2 hclause
    cases text with
    | nil => rfl
    | cons d text =>
      have hrest := ih text.length (by simp [← hn]) (some d) text rfl
      have hM : M.finder.find? before (d :: text) = none := hmatch
      have hF : form.finder.find? before (d :: text) = none := hclause
      simp only [Finder.scan, hM, hF, List.flatMap_cons, hplain, hrest]
  | some c =>
    obtain ⟨-, -, -, after, rfl, haccepts⟩ := clause?_eq_some_iff.1 hclause
    obtain ⟨rest, hafter⟩ := exists_of_accepts haccepts
    have hlen : rest.length < n := by
      have hpos := List.length_pos_iff.2 (faithful_finder form before _ c hclause).1
      have hbehind := congrArg List.length hafter
      simp only [finder, List.length_append] at hpos hbehind hn
      omega
    rw [scan_matches M hclause hafter, scan_clauses hclause hafter, List.flatMap_cons,
      List.flatMap_cons, List.flatMap_append, List.flatMap_map, hfound,
      ih rest.length hlen _ rest rfl, List.append_assoc]

/-- A pass writes the same along the matches as along the clauses. -/
theorem replace_eq (M : Matcher form.grouped) {write : List (List Char) → List Char}
    {write' : Clause → List Char}
    (hwrite : ∀ c after, write (form.captures c after) = write' c ++ (form.ending after).flatten)
    (text : List Char) : M.finder.replace write text = form.finder.replace write' text := by
  rw [Finder.replace, Finder.replace, Finder.pieces_eq_scan, Finder.pieces_eq_scan]
  refine flatMap_scan_eq M (fun _ => rfl) (fun c after => ?_) none text
  simp [Piece.render, hwrite]

/-- And it finds the same. -/
theorem map_found_eq {β : Type} (M : Matcher form.grouped) (read : List (List Char) → β)
    (read' : Clause → β) (hread : ∀ c after, read (form.captures c after) = read' c)
    (text : List Char) : (M.finder.found text).map read = (form.finder.found text).map read' := by
  have hflat : ∀ {α : Type} (F : Finder α) (f : α → β), (F.found text).map f =
      (F.scan none 0 text).flatMap fun p => (p.match?.map f).toList := by
    intro α F f
    rw [Finder.found, Finder.pieces_eq_scan, List.map_filterMap, List.filterMap_eq_flatMap_toList]
  rw [hflat, hflat]
  refine flatMap_scan_eq M (fun _ => rfl) (fun c after => ?_) none text
  simp [Piece.match?, hread]

end Form

namespace Grouped

/-- What is written for a match whose specifier `f` is asked about, which is
group 3: the match as it is, unless `f` answers something else. -/
def rewritten (f : Specifier → Option Specifier) (parts : List (List Char)) : List Char :=
  match f (capture parts 3) with
  | some s =>
    if s ≠ capture parts 3 then capture parts 1 ++ capture parts 2 ++ s ++ capture parts 4
    else capture parts 0
  | none => capture parts 0

/-- What is written for the import of a JSON file. -/
def attributed (parts : List (List Char)) : List Char :=
  capture parts 1 ++ capture parts 2 ++ capture parts 3 ++ capture parts 4 ++
    EsmSource.jsonAttribute ++ capture parts 5

namespace Matcher

variable {e : Grouped}

/-- The pass that replaces specifiers along the matches of an expression. -/
def replaceSpecifiers (M : Matcher e) (f : Specifier → Option Specifier) (text : List Char) :
    Revision where
  text := M.finder.replace (rewritten f) text
  changed := (M.finder.found text).any fun parts =>
    (f (capture parts 3)).any (· != capture parts 3)

/-- The pass that writes the attribute along the matches of an expression. -/
def addAttributes (M : Matcher e) (text : List Char) : Revision where
  text := M.finder.replace attributed text
  changed := !(M.finder.found text).isEmpty

end Matcher

end Grouped

namespace Form

open Grouped

variable {form : Form}

/-- Groups 1 to 4 make up the clause, which is the whole match but for a JSON
import. -/
theorem rewritten_captures (hform : form ≠ jsonImport) (f : Specifier → Option Specifier)
    (c : Clause) (after : List Char) :
    rewritten f (form.captures c after) = (c.revise f).text ++ (form.ending after).flatten := by
  have hending : form.ending after = [] := by cases form <;> first | rfl | exact absurd rfl hform
  have hwhole : capture (form.captures c after) 0 = c.text := by
    rw [capture, flatten_captures, hending, List.flatten_nil, List.append_nil]
  have hspecifier : capture (form.captures c after) 3 = c.specifier := rfl
  rw [rewritten, hspecifier, hwhole, hending, List.flatten_nil, List.append_nil, Clause.revise]
  cases hanswer : f c.specifier with
  | none => simp
  | some s =>
    by_cases hsame : s = c.specifier
    · simp [hsame]
    · simp [hsame, capture, captures, Clause.withSpecifier, Clause.text, QuotedRun.text]

theorem attributed_captures (c : Clause) (after : List Char) :
    attributed (jsonImport.captures c after) =
      c.text ++ EsmSource.jsonAttribute ++ (jsonImport.ending after).flatten := by
  simp [attributed, capture, captures, ending, Clause.text, Clause.specifier, QuotedRun.text]

/-- **The clauses are unambiguous.** Where a text begins, the expression of a
form matches in one way at most, up to what each group captures, and this is
the clause that is read there. So it does not matter which of its ways a
matcher prefers: along its matches a pass replaces the same specifiers as
along the clauses, and writes the same attributes. -/
theorem unambiguous (form : Form) :
    read? form.source = some form.grouped ∧
    (∀ before text parts parts', form.grouped.MatchesAt before text parts →
      form.grouped.MatchesAt before text parts' → parts = parts') ∧
    (∀ before text parts, form.grouped.MatchesAt before text parts ↔
      ∃ c after, form.clause? before text = some c ∧ text = c.text ++ after ∧
        parts = form.captures c after) ∧
    ∀ (M : Matcher form.grouped) (text : List Char),
      (form ≠ jsonImport → ∀ f, M.replaceSpecifiers f text = form.revise f text) ∧
      (form = jsonImport → M.addAttributes text = EsmSource.addJsonAttributes text) := by
  refine ⟨read?_source form, fun _ _ _ _ => eq_of_matchesAt, fun _ _ _ => matchesAt_iff,
    fun M text => ⟨fun hform f => ?_, ?_⟩⟩
  · have htext := replace_eq M (rewritten_captures hform f) text
    have hfound := map_found_eq M (capture · 3) Clause.specifier (fun _ _ => rfl) text
    have hany : ∀ p : Specifier → Bool, ((M.finder.found text).any fun parts =>
        p (capture parts 3)) = (form.finder.found text).any fun c => p c.specifier := by
      intro p
      have hsame := congrArg (List.any · p) hfound
      rwa [List.any_map, List.any_map] at hsame
    rw [Matcher.replaceSpecifiers, Form.revise, htext]
    exact congrArg _ (hany fun s => (f s).any (· != s))
  · rintro rfl
    have htext := replace_eq M attributed_captures text
    have hempty := congrArg List.isEmpty
      (map_found_eq M (fun _ => ()) (fun _ => ()) (fun _ _ => rfl) text)
    rw [List.isEmpty_map, List.isEmpty_map] at hempty
    rw [Matcher.addAttributes, EsmSource.addJsonAttributes, htext, hempty]

end Form

end DualPackage
