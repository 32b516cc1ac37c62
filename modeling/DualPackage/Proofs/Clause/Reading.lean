import DualPackage.Clause.Form
import DualPackage.Proofs.Text.FirstMatch
import Mathlib.Data.Bool.AllAny
import Mathlib.Data.List.TakeWhile
/-!
# What is read as a clause

`Form.IsLead` says which texts may stand before the opening quote of a
clause, form by form and without a scan; `QuotedRun.Proper` says the same
of the specifier and its quotes. `Form.clause?_eq_some_iff` is the
agreement: the clause at the head of a text is a lead that begins a word,
followed by a proper quoted run that the form accepts. Since no choice is
left in this, a text has at most one clause of a form at its head.

`Form.endsInLead` looks at a lead from its other end: whether the text in
front of a quote ends in one. Whatever the form, such a text ends in the
keyword `from` (`Form.dropWhile_reverse_of_isLead`).
-/

namespace DualPackage

open Text

theorem isBlank_eq_false_of_isQuote {c : Char} (h : isQuote c) : isBlank c = false := by
  simp only [isQuote, Bool.or_eq_true, beq_iff_eq] at h
  rcases h with rfl | rfl <;> decide

theorem isWord_eq_false_of_isQuote {c : Char} (h : isQuote c) : isWord c = false := by
  simp only [isQuote, Bool.or_eq_true, beq_iff_eq] at h
  rcases h with rfl | rfl <;> decide

theorem inBindings_eq_false_of_isQuote {c : Char} (h : isQuote c) : inBindings c = false := by
  simp [inBindings, h]

theorem isQuote_eq_false_of_isBlank {c : Char} (h : isBlank c) : isQuote c = false := by
  by_contra hq
  rw [isBlank_eq_false_of_isQuote (by simpa using hq)] at h
  cases h

theorem isQuote_eq_false_of_inBindings {c : Char} (h : inBindings c) : isQuote c = false := by
  by_contra hq
  rw [inBindings_eq_false_of_isQuote (by simpa using hq)] at h
  cases h

theorem isQuote_eq_false_of_inSpecifier {c : Char} (h : inSpecifier c) : isQuote c = false := by
  simp only [inSpecifier, Bool.and_eq_true, Bool.not_eq_true'] at h
  exact h.1.1

/-- A class of characters holds of a stretch of text up to a character it
does not hold of, and so `takeWhile` stops there. -/
theorem takeWhile_append_stop {p : Char → Bool} {x rest : List Char} (hx : ∀ c ∈ x, p c)
    (hstop : ∀ c ∈ rest.head?, p c = false) : (x ++ rest).takeWhile p = x := by
  rw [List.takeWhile_append_of_pos hx]
  cases rest with
  | nil => simp
  | cons c rest => simp [hstop c rfl]

/-- And `dropWhile` goes on from there. -/
theorem dropWhile_append_stop {p : Char → Bool} {x rest : List Char} (hx : ∀ c ∈ x, p c)
    (hstop : ∀ c ∈ rest.head?, p c = false) : (x ++ rest).dropWhile p = rest := by
  rw [List.dropWhile_append_of_pos hx]
  cases rest with
  | nil => simp
  | cons c rest => simp [hstop c rfl]

/-- Of two characters of a text, one stands in front of the other, or they
are the same. -/
theorem append_cons_eq_append_cons {x y s t : List Char} {a b : Char}
    (h : x ++ a :: s = y ++ b :: t) :
    (x = y ∧ a = b ∧ s = t) ∨ (∃ w, y = x ++ a :: w ∧ s = w ++ b :: t) ∨
      ∃ w, x = y ++ b :: w ∧ t = w ++ a :: s := by
  rcases List.append_eq_append_iff.1 h with ⟨w, hy, hs⟩ | ⟨w, hx, ht⟩
  · rcases w with - | ⟨c, w⟩
    · obtain ⟨rfl, rfl⟩ : a = b ∧ s = t := by simpa using hs
      exact .inl ⟨by simpa using hy.symm, rfl, rfl⟩
    · obtain ⟨rfl, rfl⟩ : a = c ∧ s = w ++ b :: t := by simpa using hs
      exact .inr (.inl ⟨w, hy, rfl⟩)
  · rcases w with - | ⟨c, w⟩
    · obtain ⟨rfl, rfl⟩ : b = a ∧ t = s := by simpa using ht
      exact .inl ⟨by simpa using hx, rfl, rfl⟩
    · obtain ⟨rfl, rfl⟩ : b = c ∧ t = w ++ a :: s := by simpa using ht
      exact .inr (.inr ⟨w, hx, rfl⟩)

/-- A character that is not in `x` stands behind it. -/
theorem exists_append_of_not_mem_left {x y v t : List Char} {d : Char} (hd : d ∉ x)
    (h : x ++ y = v ++ d :: t) : ∃ b, v = x ++ b ∧ y = b ++ d :: t := by
  rcases List.append_eq_append_iff.1 h with ⟨b, hv, hy⟩ | ⟨b, hx, hb⟩
  · exact ⟨b, hv, hy⟩
  · rcases b with - | ⟨e, b⟩
    · exact ⟨[], by simpa using hx.symm, by simpa using hb.symm⟩
    · obtain ⟨rfl, -⟩ : d = e ∧ t = b ++ y := by simpa using hb
      exact absurd (hx ▸ List.mem_append_right v (List.mem_cons_self ..)) hd

/-- A character that is not in `y` stands in front of it. -/
theorem exists_append_of_not_mem_right {x y v t : List Char} {d : Char} (hd : d ∉ y)
    (h : x ++ y = v ++ d :: t) : ∃ b, x = v ++ d :: b ∧ t = b ++ y := by
  rcases List.append_eq_append_iff.1 h with ⟨b, -, hy⟩ | ⟨b, hx, hb⟩
  · exact absurd (hy ▸ List.mem_append_right b (List.mem_cons_self ..)) hd
  · rcases b with - | ⟨e, b⟩
    · exact absurd (by rw [← List.nil_append y, ← hb]; exact List.mem_cons_self ..) hd
    · obtain ⟨rfl, ht⟩ : d = e ∧ t = b ++ y := by simpa using hb
      exact ⟨b, hx, ht⟩

namespace QuotedRun

/-- Two quotes around characters that a specifier may hold. -/
structure Proper (q : QuotedRun) : Prop where
  opens : isQuote q.openQuote
  inside : ∀ c ∈ q.specifier, inSpecifier c
  closes : isQuote q.closeQuote

/-- The quoted run at the head of a text is the proper one it begins with. -/
theorem atHead?_eq_some_iff {text : List Char} {q : QuotedRun} :
    atHead? text = some q ↔ q.Proper ∧ ∃ after, text = q.text ++ after := by
  constructor
  · intro h
    unfold atHead? at h
    split at h
    · cases h
    · rename_i o rest
      split at h
      · rename_i ho
        split at h
        · rename_i e after hd
          split at h
          · rename_i he
            obtain rfl : (⟨o, rest.takeWhile inSpecifier, e⟩ : QuotedRun) = q := by simpa using h
            refine ⟨⟨ho, fun c hc => List.mem_takeWhile_imp hc, he⟩, after, ?_⟩
            have := rest.takeWhile_append_dropWhile (p := inSpecifier)
            rw [hd] at this
            simp [QuotedRun.text, this]
          · cases h
        · cases h
      · cases h
  · rintro ⟨⟨ho, hs, he⟩, after, rfl⟩
    -- the closing quote ends the specifier
    have hstop : ∀ c ∈ (q.closeQuote :: after).head?, inSpecifier c = false := by
      simp [inSpecifier, he]
    have htake := takeWhile_append_stop hs hstop
    have hdrop := dropWhile_append_stop hs hstop
    simp only [QuotedRun.text, atHead?, List.cons_append, List.append_assoc, List.nil_append, ho,
      if_true, htake, hdrop, he]

end QuotedRun

namespace Form

/-- A `from` clause is led by the keyword and white space. -/
def IsFromLead (lead : List Char) : Prop :=
  ∃ gap, lead = fromWord ++ gap ∧ ∀ c ∈ gap, isBlank c

/-- An import is led by the keyword and bindings that open in the given
way and end in `from`. -/
def IsImportLead (opens : Char → Bool) (lead : List Char) : Prop :=
  ∃ bindings, lead = importWord ++ bindings ∧ (∀ c ∈ bindings, inBindings c) ∧
    bindings.head?.any opens ∧ endsInFrom bindings

/-- An export is led by the keyword, names in braces, and `from`. -/
def IsExportLead (lead : List Char) : Prop :=
  ∃ gap names gap' source, lead = exportWord ++ gap ++ '{' :: names ++ '}' :: gap' ++ source ∧
    (∀ c ∈ gap, isBlank c) ∧ (∀ c ∈ names, c ≠ '}') ∧ (∀ c ∈ gap', isBlank c) ∧
    IsFromLead source

/-- The texts that may lead a clause of a form, up to the opening quote. -/
def IsLead : Form → List Char → Prop
  | anyFrom => IsFromLead
  | importFrom => IsImportLead fun c => isBlank c || c == '{' || c == '*'
  | exportFrom => IsExportLead
  | jsonImport => IsImportLead isBlank

section Lead

variable {lead rest text : List Char} {opens : Char → Bool}

theorem fromLead?_of_isFromLead (h : IsFromLead lead) (hstop : ∀ c ∈ rest.head?, isQuote c) :
    fromLead? (lead ++ rest) = some lead := by
  obtain ⟨gap, rfl, hgap⟩ := h
  have htake : leadingBlank (gap ++ rest) = gap :=
    takeWhile_append_stop hgap fun c hc => isBlank_eq_false_of_isQuote (hstop c hc)
  simp [fromLead?, List.append_assoc, afterWord?_append, htake]

theorem isFromLead_of_fromLead? (h : fromLead? text = some lead) :
    IsFromLead lead ∧ lead <+: text := by
  simp only [fromLead?, bind, Option.bind_eq_some_iff, afterWord?_eq_some_iff,
    Option.some.injEq] at h
  obtain ⟨rest, rfl, rfl⟩ := h
  refine ⟨⟨leadingBlank rest, rfl, fun c hc => List.mem_takeWhile_imp hc⟩, skipBlank rest, ?_⟩
  simp [List.append_assoc]

theorem importLead?_of_isImportLead (h : IsImportLead opens lead)
    (hstop : ∀ c ∈ rest.head?, isQuote c) : importLead? opens (lead ++ rest) = some lead := by
  obtain ⟨bindings, rfl, hin, hopens, hfrom⟩ := h
  have htake : (bindings ++ rest).takeWhile inBindings = bindings :=
    takeWhile_append_stop hin fun c hc => inBindings_eq_false_of_isQuote (hstop c hc)
  simp [importLead?, List.append_assoc, afterWord?_append, htake, hopens, hfrom]

theorem isImportLead_of_importLead? (h : importLead? opens text = some lead) :
    IsImportLead opens lead ∧ lead <+: text := by
  simp only [importLead?, bind, Option.bind_eq_some_iff, afterWord?_eq_some_iff] at h
  obtain ⟨rest, rfl, h⟩ := h
  split at h
  · rename_i hb
    simp only [Bool.and_eq_true] at hb
    obtain rfl : importWord ++ rest.takeWhile inBindings = lead := by simpa using h
    refine ⟨⟨_, rfl, fun c hc => List.mem_takeWhile_imp hc, hb.1, hb.2⟩,
      rest.dropWhile inBindings, ?_⟩
    rw [List.append_assoc, List.takeWhile_append_dropWhile]
  · cases h

theorem braced?_of_names {names : List Char} (h : ∀ c ∈ names, c ≠ '}') (rest : List Char) :
    braced? ('{' :: (names ++ '}' :: rest)) = some ('{' :: names ++ ['}']) := by
  have htake : (names ++ '}' :: rest).takeWhile (· != '}') = names :=
    takeWhile_append_stop (by simpa using h) (by simp)
  have hdrop : (names ++ '}' :: rest).dropWhile (· != '}') = '}' :: rest :=
    dropWhile_append_stop (by simpa using h) (by simp)
  simp only [braced?, htake, hdrop]

theorem names_of_braced? {names : List Char} (h : braced? text = some names) :
    ∃ inner rest, names = '{' :: inner ++ ['}'] ∧ (∀ c ∈ inner, c ≠ '}') ∧
      text = names ++ rest := by
  unfold braced? at h
  split at h
  · rename_i rest
    split at h
    · cases h
    · rename_i c after hd
      obtain rfl : '{' :: rest.takeWhile (· != '}') ++ ['}'] = names := by simpa using h
      have hc : c = '}' := by
        have := List.head?_dropWhile_not (· != '}') rest
        rw [hd] at this
        simpa using this
      refine ⟨rest.takeWhile (· != '}'), after, rfl, fun x hx => ?_, ?_⟩
      · simpa using List.mem_takeWhile_imp hx
      · have := rest.takeWhile_append_dropWhile (p := (· != '}'))
        rw [hd, hc] at this
        simp [this]
  · cases h

theorem exportLead?_of_isExportLead (h : IsExportLead lead)
    (hstop : ∀ c ∈ rest.head?, isQuote c) : exportLead? (lead ++ rest) = some lead := by
  obtain ⟨gap, names, gap', source, rfl, hgap, hnames, hgap', hsource⟩ := h
  have hword : ∃ source', source = 'f' :: source' := by
    obtain ⟨g, rfl, -⟩ := hsource
    exact ⟨_, rfl⟩
  obtain ⟨source', hcons⟩ := hword
  set tail := gap' ++ (source ++ rest) with htail
  -- a brace ends the first white space, and the keyword the second
  have hopen : ∀ c ∈ ('{' :: (names ++ '}' :: tail)).head?, isBlank c = false := by
    simp only [List.head?_cons, Option.mem_def, Option.some.injEq, forall_eq']
    decide
  have hfrom : ∀ c ∈ (source ++ rest).head?, isBlank c = false := by
    simp only [hcons, List.cons_append, List.head?_cons, Option.mem_def, Option.some.injEq,
      forall_eq']
    decide
  have htext : exportWord ++ gap ++ '{' :: names ++ '}' :: gap' ++ source ++ rest =
      exportWord ++ (gap ++ '{' :: (names ++ '}' :: tail)) := by
    simp [htail]
  have hskip : skipBlank (gap ++ '{' :: (names ++ '}' :: tail)) = '{' :: (names ++ '}' :: tail) :=
    dropWhile_append_stop hgap hopen
  have hlead : leadingBlank (gap ++ '{' :: (names ++ '}' :: tail)) = gap :=
    takeWhile_append_stop hgap hopen
  have hdrop : ('{' :: (names ++ '}' :: tail)).drop ('{' :: names ++ ['}']).length = tail := by
    simp
  have hskip' : skipBlank tail = source ++ rest := dropWhile_append_stop hgap' hfrom
  have hlead' : leadingBlank tail = gap' := takeWhile_append_stop hgap' hfrom
  rw [htext]
  simp only [exportLead?, afterWord?_append, bind, Option.bind_some, hskip, hlead,
    braced?_of_names hnames, hdrop, hskip', hlead', fromLead?_of_isFromLead hsource hstop]
  simp

theorem isExportLead_of_exportLead? (h : exportLead? text = some lead) :
    IsExportLead lead ∧ lead <+: text := by
  simp only [exportLead?, bind, Option.bind_eq_some_iff, afterWord?_eq_some_iff,
    Option.some.injEq] at h
  obtain ⟨rest, rfl, names, hnames, source, hsource, rfl⟩ := h
  obtain ⟨inner, tail, rfl, hinner, htext⟩ := names_of_braced? hnames
  rw [htext, List.drop_left] at hsource ⊢
  obtain ⟨hfrom, after, hafter⟩ := isFromLead_of_fromLead? hsource
  refine ⟨⟨leadingBlank rest, inner, leadingBlank tail, source, by simp,
    fun c hc => List.mem_takeWhile_imp hc, hinner, fun c hc => List.mem_takeWhile_imp hc, hfrom⟩,
    after, ?_⟩
  calc exportWord ++ leadingBlank rest ++ ('{' :: inner ++ ['}']) ++ leadingBlank tail ++ source
        ++ after
      = exportWord ++ (leadingBlank rest ++ (('{' :: inner ++ ['}']) ++
          (leadingBlank tail ++ (source ++ after)))) := by simp
    _ = exportWord ++ rest := by
        rw [hafter, leadingBlank_append_skipBlank, ← htext, leadingBlank_append_skipBlank]

/-- A lead is read in full when a quote, or nothing, follows it. -/
theorem lead?_of_isLead {form : Form} (h : form.IsLead lead)
    (hstop : ∀ c ∈ rest.head?, isQuote c) : form.lead? (lead ++ rest) = some lead := by
  cases form with
  | anyFrom => exact fromLead?_of_isFromLead h hstop
  | importFrom => exact importLead?_of_isImportLead h hstop
  | exportFrom => exact exportLead?_of_isExportLead h hstop
  | jsonImport => exact importLead?_of_isImportLead h hstop

/-- And whatever is read is a lead at the head of the text. -/
theorem isLead_of_lead? {form : Form} (h : form.lead? text = some lead) :
    form.IsLead lead ∧ lead <+: text := by
  cases form with
  | anyFrom => exact isFromLead_of_fromLead? h
  | importFrom => exact isImportLead_of_importLead? h
  | exportFrom => exact isExportLead_of_exportLead? h
  | jsonImport => exact isImportLead_of_importLead? h

end Lead

/-- **A clause is a lead at a word boundary and a proper quoted run.** The
right side leaves no choice of where the lead or the run ends. -/
theorem clause?_eq_some_iff {form : Form} {before : Option Char} {text : List Char} {c : Clause} :
    form.clause? before text = some c ↔
      opensWord before ∧ form.IsLead c.lead ∧ c.quoted.Proper ∧
        ∃ after, text = c.text ++ after ∧ form.accepts c.specifier after := by
  constructor
  · intro h
    simp only [clause?, bind, Option.bind_eq_some_iff] at h
    obtain ⟨lead, hlead, h⟩ := h
    split at h
    · rename_i hb
      obtain ⟨quoted, hquoted, h⟩ := Option.bind_eq_some_iff.1 h
      split at h
      · rename_i haccepts
        obtain rfl : (⟨lead, quoted⟩ : Clause) = c := by simpa using h
        obtain ⟨hisLead, rest, rfl⟩ := isLead_of_lead? hlead
        rw [List.drop_left] at hquoted
        obtain ⟨hproper, after, rfl⟩ := QuotedRun.atHead?_eq_some_iff.1 hquoted
        refine ⟨hb, hisLead, hproper, after, by simp [Clause.text], ?_⟩
        rwa [← List.append_assoc, show lead ++ quoted.text = (⟨lead, quoted⟩ : Clause).text from rfl,
          List.drop_left] at haccepts
      · cases h
    · cases h
  · rintro ⟨hb, hlead, hproper, after, rfl, haccepts⟩
    -- the opening quote ends the lead, and behind it the run is read
    have hread : form.lead? (c.text ++ after) = some c.lead := by
      rw [Clause.text, List.append_assoc]
      exact lead?_of_isLead hlead (by simp [QuotedRun.text, hproper.opens])
    have hquoted : QuotedRun.atHead? ((c.text ++ after).drop c.lead.length) = some c.quoted := by
      rw [Clause.text, List.append_assoc, List.drop_left]
      exact QuotedRun.atHead?_eq_some_iff.2 ⟨hproper, after, rfl⟩
    have heta : (⟨c.lead, c.quoted⟩ : Clause) = c := rfl
    simp only [clause?, hread, hquoted, bind, Option.bind_some, hb, if_true, heta, List.drop_left,
      haccepts]

/-! ## Leads that end at a quote -/

/-- Whether a text that follows the character `before` ends in a lead that
begins a word. -/
def endsInLead (form : Form) : Option Char → List Char → Bool
  | _, [] => false
  | before, c :: rest =>
    opensWord before && form.lead? (c :: rest) == some (c :: rest) ||
      form.endsInLead (some c) rest

theorem isLead_iff_lead?_self {form : Form} {lead : List Char} :
    form.IsLead lead ↔ form.lead? lead = some lead :=
  ⟨fun h => by simpa using lead?_of_isLead h (show ∀ c ∈ ([] : List Char).head?, isQuote c by simp),
    fun h => (isLead_of_lead? h).1⟩

theorem not_isLead_nil (form : Form) : ¬ form.IsLead [] := by
  rw [isLead_iff_lead?_self]
  cases form <;> simp [lead?, fromLead?, importLead?, exportLead?, afterWord?, fromWord,
    importWord, exportWord]

theorem endsInLead_iff {form : Form} {before : Option Char} {text : List Char} :
    form.endsInLead before text ↔
      ∃ x lead, text = x ++ lead ∧ form.IsLead lead ∧ opensWord (charBefore before x) := by
  induction text generalizing before with
  | nil =>
    simp only [endsInLead, Bool.false_eq_true, false_iff, not_exists, not_and]
    rintro x lead hx hlead
    obtain ⟨rfl, rfl⟩ := List.append_eq_nil_iff.1 hx.symm
    exact absurd hlead (not_isLead_nil form)
  | cons c rest ih =>
    simp only [endsInLead, Bool.or_eq_true, Bool.and_eq_true, beq_iff_eq, ih]
    -- the lead begins here, or further on
    constructor
    · rintro (⟨hb, hlead⟩ | ⟨x, lead, rfl, hlead, hb⟩)
      · exact ⟨[], c :: rest, rfl, isLead_iff_lead?_self.2 hlead, hb⟩
      · exact ⟨c :: x, lead, rfl, hlead, by simpa using hb⟩
    · rintro ⟨x, lead, hx, hlead, hb⟩
      rcases x with - | ⟨d, x⟩
      · obtain rfl : c :: rest = lead := hx
        exact .inl ⟨hb, isLead_iff_lead?_self.1 hlead⟩
      · obtain ⟨rfl, rfl⟩ : c = d ∧ rest = x ++ lead := by simpa using hx
        exact .inr ⟨x, lead, rfl, hlead, by simpa using hb⟩

/-! ## What a lead ends in -/

section Reversed

variable {form : Form} {lead : List Char}

/-- From its end, a `from` lead is white space and the keyword. -/
theorem dropWhile_reverse_of_isFromLead (h : IsFromLead lead) (x : List Char) :
    (x ++ lead).reverse.dropWhile isBlank = 'm' :: 'o' :: 'r' :: 'f' :: x.reverse := by
  obtain ⟨gap, rfl, hgap⟩ := h
  have hsplit : (x ++ (fromWord ++ gap)).reverse =
      gap.reverse ++ 'm' :: 'o' :: 'r' :: 'f' :: x.reverse := by
    simp [fromWord]
  have hm : isBlank 'm' = false := by decide
  rw [hsplit]
  exact dropWhile_append_stop (by simpa using hgap) (by simpa using hm)

/-- The bindings of an import end in the keyword, which follows no word
character, and white space. -/
theorem endsInFrom_iff {bindings : List Char} :
    endsInFrom bindings ↔ ∃ y c gap, bindings = y ++ c :: (fromWord ++ gap) ∧ isWord c = false ∧
      ∀ g ∈ gap, isBlank g := by
  constructor
  · intro h
    unfold endsInFrom at h
    split at h
    · rename_i c rest heq
      have hsplit := bindings.reverse.takeWhile_append_dropWhile (p := isBlank)
      rw [heq] at hsplit
      have hbindings := congrArg List.reverse hsplit
      rw [List.reverse_reverse] at hbindings
      refine ⟨rest.reverse, c, (bindings.reverse.takeWhile isBlank).reverse, hbindings.symm.trans ?_,
        by simpa using h, fun g hg => List.mem_takeWhile_imp (by simpa using hg)⟩
      simp [fromWord]
    · cases h
  · rintro ⟨y, c, gap, rfl, hc, hgap⟩
    have hsplit : y ++ c :: (fromWord ++ gap) = y ++ [c] ++ (fromWord ++ gap) := by simp
    rw [endsInFrom, hsplit, dropWhile_reverse_of_isFromLead ⟨gap, rfl, hgap⟩ (y ++ [c])]
    simpa using hc

/-- **Every lead ends in that of a `from` clause.** -/
theorem exists_fromLead_of_isLead (h : form.IsLead lead) :
    ∃ y source, lead = y ++ source ∧ IsFromLead source ∧
      ∀ before, opensWord before → opensWord (charBefore before y) := by
  cases form with
  | anyFrom => exact ⟨[], lead, rfl, h, fun _ hb => hb⟩
  | importFrom | jsonImport =>
    obtain ⟨bindings, rfl, -, -, hfrom⟩ := h
    obtain ⟨y, c, gap, rfl, hc, hgap⟩ := endsInFrom_iff.1 hfrom
    refine ⟨importWord ++ y ++ [c], fromWord ++ gap, by simp, ⟨gap, rfl, hgap⟩, fun before _ => ?_⟩
    rw [charBefore_concat]
    simpa using hc
  | exportFrom =>
    obtain ⟨gap, names, gap', source, rfl, -, -, hgap', hsource⟩ := h
    refine ⟨exportWord ++ gap ++ '{' :: names ++ '}' :: gap', source, by simp, hsource,
      fun before _ => ?_⟩
    -- the character in front is the brace or white space
    rcases List.eq_nil_or_concat gap' with rfl | ⟨g, c, rfl⟩
    · rw [charBefore_concat]
      decide
    · have hc : isBlank c := hgap' c (by simp)
      rw [List.concat_eq_append, ← List.cons_append, ← List.append_assoc, charBefore_concat]
      simpa using isWord_eq_false_of_isBlank hc

/-- Whatever the form, a lead ends in the keyword `from`. -/
theorem dropWhile_reverse_of_isLead (h : form.IsLead lead) (x : List Char) :
    ∃ rest, (x ++ lead).reverse.dropWhile isBlank = 'm' :: 'o' :: 'r' :: 'f' :: rest := by
  obtain ⟨y, source, rfl, hsource, -⟩ := exists_fromLead_of_isLead h
  exact ⟨_, by rw [← List.append_assoc, dropWhile_reverse_of_isFromLead hsource]⟩

/-- A text that does not end in the keyword `from` ends in no lead. -/
theorem endsInLead_eq_false_of_dropWhile {text : List Char}
    (h : ∀ rest, text.reverse.dropWhile isBlank ≠ 'm' :: 'o' :: 'r' :: 'f' :: rest)
    (form : Form) : form.endsInLead none text = false := by
  by_contra hends
  rw [Bool.not_eq_false, endsInLead_iff] at hends
  obtain ⟨x, lead, rfl, hlead, -⟩ := hends
  obtain ⟨rest, hrest⟩ := dropWhile_reverse_of_isLead hlead x
  exact h rest hrest

/-- In front of the keyword of an export stands the brace that closes its
names. -/
theorem brace_of_endsInLead {text rest : List Char}
    (hrest : text.reverse.dropWhile isBlank = 'm' :: 'o' :: 'r' :: 'f' :: rest)
    (h : exportFrom.endsInLead none text) : (rest.dropWhile isBlank).head? = some '}' := by
  rw [endsInLead_iff] at h
  obtain ⟨x, lead, rfl, ⟨gap, names, gap', source, rfl, -, -, hgap', hsource⟩, -⟩ := h
  have hsplit : x ++ (exportWord ++ gap ++ '{' :: names ++ '}' :: gap' ++ source) =
      (x ++ (exportWord ++ gap ++ '{' :: names) ++ '}' :: gap') ++ source := by
    simp
  have hbrace : isBlank '}' = false := by decide
  rw [hsplit, dropWhile_reverse_of_isFromLead hsource] at hrest
  obtain rfl : (x ++ (exportWord ++ gap ++ '{' :: names) ++ '}' :: gap').reverse = rest := by
    simpa using hrest
  have hreverse : (x ++ (exportWord ++ gap ++ '{' :: names) ++ '}' :: gap').reverse =
      gap'.reverse ++ '}' :: (x ++ (exportWord ++ gap ++ '{' :: names)).reverse := by
    simp
  rw [hreverse, dropWhile_append_stop (by simpa using hgap') (by simpa using hbrace)]
  rfl

end Reversed

end Form

end DualPackage
