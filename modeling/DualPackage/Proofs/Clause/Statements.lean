import DualPackage.Alias.Resolve
import DualPackage.Proofs.Clause.Extension
import DualPackage.Proofs.Clause.Paired
/-!
# The passes on a module of statements

A module is a text of import and export statements, one to a line, in the
five shapes that name another module. On such a text both passes are maps
over the statements (`passes_map_source`): the one over extensions
touches imports with bindings and exports of names, the one over aliases
these and `export *`, and a statement without a `from` clause stays as it
is. Bindings, names and specifiers may hold words such as `from`, `import`
and `export`; what keeps the passes from being misled is that a lead ends
at the opening quote of its statement or nowhere.
-/

namespace DualPackage

open Text Stretch Passage

/-! ## Statements -/

/-- The shapes of statement that name another module. -/
inductive Shape where
  /-- An import of the given bindings. -/
  | importFrom (bindings : List Char)
  /-- An export of the given names. -/
  | exportNames (names : List Char)
  | exportAll
  | importOnly
  /-- A call of `import` whose answer is bound to a name. -/
  | importCall (name : List Char)
  deriving DecidableEq, Repr

namespace Shape

/-- The text in front of the opening quote. -/
def opening : Shape → List Char
  | importFrom bindings => importWord ++ ' ' :: bindings ++ ' ' :: fromWord ++ [' ']
  | exportNames names => exportWord ++ [' ', '{', ' '] ++ names ++ [' ', '}', ' '] ++ fromWord ++ [' ']
  | exportAll => exportWord ++ [' ', '*', ' '] ++ fromWord ++ [' ']
  | importOnly => importWord ++ [' ']
  | importCall name => ['c', 'o', 'n', 's', 't', ' '] ++ name ++ [' ', '=', ' '] ++ importWord ++ ['(']

/-- The text behind the closing quote. -/
def closing : Shape → List Char
  | importCall _ => [')', ';', '\n']
  | _ => [';', '\n']

/-- What the shape asks of its bindings, names or name. -/
def WellFormed : Shape → Prop
  | importFrom bindings => ∀ c ∈ bindings, inBindings c
  | exportNames names => ∀ c ∈ names, isQuote c = false ∧ c ≠ '}'
  | importCall name => ∀ c ∈ name, isQuote c = false
  | exportAll | importOnly => True

/-- The statement has a `from` clause. -/
def hasSource : Shape → Bool
  | importFrom _ | exportNames _ | exportAll => true
  | importOnly | importCall _ => false

instance : (shape : Shape) → Decidable shape.WellFormed
  | importFrom bindings => List.decidableBAll (inBindings ·) bindings
  | exportNames names => List.decidableBAll (fun c => isQuote c = false ∧ c ≠ '}') names
  | importCall name => List.decidableBAll (isQuote · = false) name
  | exportAll | importOnly => inferInstanceAs (Decidable True)

/-- The statement is an import with bindings. -/
def isImportFrom : Shape → Bool
  | importFrom _ => true
  | _ => false

/-- The statement is an export of names. -/
def isExportNames : Shape → Bool
  | exportNames _ => true
  | _ => false

/-- The statement is given a missing extension. -/
def isExtended (shape : Shape) : Bool :=
  shape.isImportFrom || shape.isExportNames

end Shape

/-- A statement that names a module between two quotes of one kind. -/
structure Statement where
  shape : Shape
  quote : Char
  specifier : Specifier
  deriving DecidableEq, Repr

namespace Statement

/-- The text of a statement, with its line end. -/
def text (st : Statement) : List Char :=
  st.shape.opening ++ st.quote :: st.specifier ++ st.quote :: st.shape.closing

/-- The text of a module. -/
def source (sts : List Statement) : List Char :=
  sts.flatMap text

/-- The shape is well formed, and the specifier stands between two quotes
of one line. -/
structure WellFormed (st : Statement) : Prop where
  shape : st.shape.WellFormed
  quote : isQuote st.quote
  specifier : ∀ c ∈ st.specifier, inSpecifier c

instance (st : Statement) : Decidable st.WellFormed :=
  decidable_of_iff (st.shape.WellFormed ∧ isQuote st.quote ∧ st.specifier.all inSpecifier)
    ⟨fun h => ⟨h.1, h.2.1, List.all_eq_true.1 h.2.2⟩,
      fun h => ⟨h.shape, h.quote, List.all_eq_true.2 h.specifier⟩⟩

/-- The statement with another specifier. -/
def withSpecifier (st : Statement) (s : Specifier) : Statement :=
  { st with specifier := s }

/-- What the pass over extensions makes of a statement. -/
def extended (st : Statement) : Statement :=
  if st.shape.isExtended && Specifier.needsExtension st.specifier then
    st.withSpecifier (st.specifier ++ Specifier.scriptExtension)
  else st

/-- What the pass over aliases makes of a statement: the first alias that
catches the specifier resolves it, and with `extend` a path that lacks its
extension is given one. -/
def resolved (table : AliasTable) (extend : Bool) (st : Statement) : Statement :=
  if st.shape.hasSource && !st.specifier.isEmpty && !st.specifier.isRelativeOrRooted then
    match table.entries.find? (·.catches st.specifier) with
    | none => st
    | some a =>
      let path := Alias.joinRemainder a.resolved.toList (st.specifier.drop a.literal.length)
      st.withSpecifier
        (if extend && Specifier.lacksExtension path then path ++ Specifier.scriptExtension else path)
  else st

/-! ## Statements as passages -/

/-- The opening of the first statement, if there is one. -/
def headOf : List Statement → List Char
  | [] => []
  | st :: _ => st.shape.opening

@[simp] theorem headOf_cons (st : Statement) (rest : List Statement) :
    headOf (st :: rest) = st.shape.opening := rfl

/-- The passages of a module: what follows a specifier reaches up to that of
the next statement. -/
def passages : List Statement → List Passage
  | [] => []
  | st :: rest =>
    ⟨⟨st.quote, st.specifier, st.quote⟩, st.shape.closing ++ headOf rest⟩ :: passages rest

theorem text_passages (sts : List Statement) (x : List Char) :
    Passage.text (x ++ headOf sts) (passages sts) = x ++ source sts := by
  induction sts generalizing x with
  | nil => rfl
  | cons st rest ih =>
    rw [passages, text_cons, ih]
    simp [source, text, QuotedRun.text]

/-- Whatever the shape, one of two texts ends it. -/
theorem closing_eq (shape : Shape) :
    shape.closing = [';', '\n'] ∨ shape.closing = [')', ';', '\n'] := by
  cases shape with
  | importCall => exact .inr rfl
  | _ => exact .inl rfl

theorem isQuote_closing (shape : Shape) : ∀ c ∈ shape.closing, isQuote c = false := by
  rcases closing_eq shape with h | h <;> rw [h] <;>
    exact List.all_iff_forall_prop.1 (by decide)

theorem isQuote_opening {shape : Shape} (h : shape.WellFormed) :
    ∀ c ∈ shape.opening, isQuote c = false := by
  cases shape with
  | importFrom bindings =>
    have hbindings := fun c hc => isQuote_eq_false_of_inBindings (h c hc)
    simpa [Shape.opening, importWord, fromWord, isQuote, or_imp, forall_and] using hbindings
  | exportNames names =>
    have hnames := fun c hc => (h c hc).1
    simpa [Shape.opening, exportWord, fromWord, isQuote, or_imp, forall_and] using hnames
  | exportAll => simp [Shape.opening, exportWord, fromWord, isQuote]
  | importOnly => simp [Shape.opening, importWord, isQuote]
  | importCall name =>
    have hname := fun c hc => h c hc
    simpa [Shape.opening, importWord, isQuote, or_imp, forall_and] using hname

/-- The quotes of a module come in pairs. -/
theorem isPaired_passages {sts : List Statement} (h : ∀ st ∈ sts, st.WellFormed) {x : List Char}
    (hx : ∀ c ∈ x, isQuote c = false) : IsPaired (x ++ headOf sts) (passages sts) := by
  induction sts generalizing x with
  | nil => exact .last (by simpa [headOf] using hx)
  | cons st rest ih =>
    have hst := h st (by simp)
    have hrest : ∀ st ∈ rest, st.WellFormed := fun st' hst' => h st' (by simp [hst'])
    refine .next ?_ ⟨hst.quote, hst.specifier, hst.quote⟩ (.inr ?_)
      (ih hrest (isQuote_closing st.shape))
    · simpa [or_imp, forall_and] using ⟨hx, isQuote_opening hst.shape⟩
    · -- the line end of a statement is in no specifier
      have hend : '\n' ∈ st.shape.closing := by
        rcases closing_eq st.shape with h | h <;> rw [h] <;> decide
      rw [List.all_eq_false]
      exact ⟨'\n', List.mem_append_left _ hend, by decide⟩

/-! ## Which statements are chosen -/

/-- What may have been read in front of a statement: nothing, the end of a
statement that was taken, or any text that ends in that of one that was
not. -/
inductive Precedes : List Char → Prop
  | start : Precedes []
  | taken (shape : Shape) : Precedes shape.closing
  | passed (x : List Char) {q : Char} (hq : isQuote q) (shape : Shape) :
      Precedes (x ++ q :: shape.closing)

theorem Precedes.opensWord {x : List Char} (h : Precedes x) : opensWord (charBefore none x) := by
  have hend : ∀ shape : Shape, ∃ y, shape.closing = y ++ ['\n'] := by
    intro shape
    rcases closing_eq shape with h | h
    · exact ⟨[';'], h⟩
    · exact ⟨[')', ';'], h⟩
  cases h with
  | start => rfl
  | taken shape =>
    obtain ⟨y, hy⟩ := hend shape
    rw [hy, charBefore_concat]
    decide +kernel
  | passed x hq shape =>
    obtain ⟨y, hy⟩ := hend shape
    rw [hy, ← List.cons_append, ← List.append_assoc, charBefore_concat]
    decide +kernel

/-- A relation that the decision about each statement on its own satisfies
holds of the statements and the decisions of a whole scan. -/
theorem forall₂_chosen {form : Form} (hform : form ≠ .jsonImport) {R : Statement → Bool → Prop}
    {sts : List Statement} (h : ∀ st ∈ sts, st.WellFormed)
    (hR : ∀ st ∈ sts, ∀ x, Precedes x →
      R st (form.endsInLead none (x ++ st.shape.opening) && form.accepts st.specifier []))
    {x : List Char} (hx : Precedes x) :
    List.Forall₂ R sts (form.chosen (x ++ headOf sts) (passages sts)) := by
  induction sts generalizing x with
  | nil => exact .nil
  | cons st rest ih =>
    have hst := h st (by simp)
    have hrest : ∀ x, Precedes x →
        List.Forall₂ R rest (form.chosen (x ++ headOf rest) (passages rest)) := fun x hx =>
      ih (fun st' hst' => h st' (by simp [hst'])) (fun st' hst' => hR st' (by simp [hst'])) hx
    have htakes : ∀ after, form.takes (x ++ st.shape.opening) st.specifier after =
        (form.endsInLead none (x ++ st.shape.opening) && form.accepts st.specifier []) := by
      intro after
      rw [Form.takes_congr hform _ _ after [], Form.takes, List.all_eq_true.2 hst.specifier]
      simp
    have hdecision := hR st (by simp) x hx
    rw [← htakes (Passage.text (st.shape.closing ++ headOf rest) (passages rest))] at hdecision
    rw [headOf_cons, passages, Form.chosen]
    -- the decision tells what has been read in front of the next statement
    split
    · rename_i htaken
      replace hdecision : R st true := htaken ▸ hdecision
      exact .cons hdecision (hrest _ (.taken st.shape))
    · rename_i hpassed
      rw [Bool.not_eq_true] at hpassed
      replace hdecision : R st false := hpassed ▸ hdecision
      refine .cons hdecision ?_
      have := hrest _ (.passed (x ++ st.shape.opening ++ st.quote :: st.specifier) hst.quote st.shape)
      simpa [QuotedRun.text] using this

section Leads

variable {form : Form} {shape : Shape} {x : List Char}

/-- A statement without a `from` clause opens with no lead. -/
theorem endsInLead_of_not_hasSource (h : shape.hasSource = false) (form : Form) (x : List Char) :
    form.endsInLead none (x ++ shape.opening) = false := by
  have hblank : isBlank ' ' ∧ isBlank 't' = false ∧ isBlank '(' = false := by decide
  refine Form.endsInLead_eq_false_of_dropWhile (fun rest => ?_) form
  cases shape with
  | importOnly => simp [Shape.opening, importWord, hblank]
  | importCall name => simp [Shape.opening, importWord, hblank]
  | _ => cases h

theorem anyFrom_endsInLead (x : List Char) (shape : Shape) :
    Form.anyFrom.endsInLead none (x ++ shape.opening) = shape.hasSource := by
  have hfrom : ∀ y, Form.anyFrom.endsInLead none (y ++ ' ' :: fromWord ++ [' ']) := by
    intro y
    refine Form.endsInLead_iff.2 ⟨y ++ [' '], fromWord ++ [' '], by simp, ⟨[' '], rfl, ?_⟩, ?_⟩
    · simp only [List.mem_singleton, forall_eq]
      decide
    · rw [charBefore_concat]
      decide +kernel
  cases shape with
  | importFrom bindings =>
    simpa [Shape.opening, Shape.hasSource] using hfrom (x ++ importWord ++ ' ' :: bindings)
  | exportNames names =>
    simpa [Shape.opening, Shape.hasSource] using
      hfrom (x ++ exportWord ++ ' ' :: '{' :: ' ' :: names ++ [' ', '}'])
  | exportAll =>
    simpa [Shape.opening, Shape.hasSource] using hfrom (x ++ exportWord ++ [' ', '*'])
  | importOnly | importCall => exact endsInLead_of_not_hasSource rfl _ x

theorem importFrom_endsInLead {bindings : List Char} (h : ∀ c ∈ bindings, inBindings c)
    (hx : Precedes x) :
    Form.importFrom.endsInLead none (x ++ (Shape.importFrom bindings).opening) := by
  refine Form.endsInLead_iff.2
    ⟨x, _, rfl, ⟨' ' :: bindings ++ ' ' :: fromWord ++ [' '], ?_, ?_, ?_, ?_⟩, hx.opensWord⟩
  · simp [Shape.opening]
  · have hspace : inBindings ' ' := by decide
    have hword : ∀ c ∈ fromWord, inBindings c := List.all_iff_forall_prop.1 (by decide)
    simpa [or_imp, forall_and, hspace] using ⟨h, hword⟩
  · have hspace : isBlank ' ' := by decide
    simp [hspace]
  · have hspace : isBlank ' ' ∧ isBlank 'm' = false := by decide
    have hword : isWord ' ' = false := by decide +kernel
    simp [endsInFrom, fromWord, hspace, hword]

theorem importFrom_endsInLead_exportAll (hx : Precedes x) :
    Form.importFrom.endsInLead none (x ++ Shape.exportAll.opening) = false := by
  have hfresh : ∀ shape : Shape,
      Form.importFrom.endsInLead none (shape.closing ++ Shape.exportAll.opening) = false := by
    intro shape
    rcases closing_eq shape with h | h <;> rw [h] <;> decide +kernel
  cases hx with
  | start => decide +kernel
  | taken shape => exact hfresh shape
  | passed x hq shape =>
    -- only what follows the last quote counts
    rw [List.append_assoc, List.cons_append,
      Form.endsInLead_append_quote (Form.leadsWithinQuotes_of_ne (by decide)) hq]
    exact hfresh shape

theorem exportFrom_endsInLead {names : List Char} (h : ∀ c ∈ names, c ≠ '}') (hx : Precedes x) :
    Form.exportFrom.endsInLead none (x ++ (Shape.exportNames names).opening) := by
  have hblank : isBlank ' ' := by decide
  refine Form.endsInLead_iff.2 ⟨x, _, rfl,
    ⟨[' '], ' ' :: names ++ [' '], [' '], fromWord ++ [' '], ?_, ?_, ?_, ?_, [' '], rfl, ?_⟩,
    hx.opensWord⟩
  · simp [Shape.opening]
  · simpa using hblank
  · simpa [or_imp, forall_and] using h
  · simpa using hblank
  · simpa using hblank

theorem exportFrom_endsInLead_exportAll (x : List Char) :
    Form.exportFrom.endsInLead none (x ++ Shape.exportAll.opening) = false := by
  have hblank : isBlank ' ' ∧ isBlank 'm' = false ∧ isBlank '*' = false := by decide
  by_contra hends
  rw [Bool.not_eq_false] at hends
  have hreverse : (x ++ Shape.exportAll.opening).reverse.dropWhile isBlank =
      'm' :: 'o' :: 'r' :: 'f' :: (' ' :: '*' :: ' ' :: exportWord.reverse ++ x.reverse) := by
    simp [Shape.opening, fromWord, hblank]
  have hbrace := Form.brace_of_endsInLead hreverse hends
  simp [hblank] at hbrace

end Leads

/-! ## The passes -/

/-- How a pass goes over statements: each keeps its specifier or has it
replaced, by a decision of which `R` holds. -/
def Revises (R : Statement → Bool → Prop) (f : Specifier → Specifier) (st st' : Statement) : Prop :=
  ∃ mark, R st mark ∧ st' = if mark then st.withSpecifier (f st.specifier) else st

/-- Rewording the passages of a module is rewriting its statements. -/
theorem exists_reword_passages {R : Statement → Bool → Prop} {sts : List Statement}
    {marks : List Bool} (h : List.Forall₂ R sts marks) (f : Specifier → Specifier) :
    ∃ sts', reword f marks (passages sts) = passages sts' ∧ headOf sts' = headOf sts ∧
      List.Forall₂ (Revises R f) sts sts' := by
  induction h with
  | nil => exact ⟨[], by simp [passages], rfl, .nil⟩
  | @cons st mark sts marks hst _ ih =>
    obtain ⟨sts', hpassages, hhead, hsts'⟩ := ih
    refine ⟨(if mark then st.withSpecifier (f st.specifier) else st) :: sts', ?_, ?_,
      .cons ⟨mark, hst, rfl⟩ hsts'⟩
    · cases mark <;>
        simp [passages, hpassages, hhead, withSpecifier, Passage.withSpecifier, Passage.specifier]
    · cases mark <;> rfl

/-- A pass rewrites a module statement by statement, each by the decision
about it alone. -/
theorem revise_source {form : Form} (hform : form ≠ .jsonImport) {R : Statement → Bool → Prop}
    {sts : List Statement} (h : ∀ st ∈ sts, st.WellFormed)
    (hR : ∀ st ∈ sts, ∀ x, Precedes x →
      R st (form.endsInLead none (x ++ st.shape.opening) && form.accepts st.specifier []))
    (f : Specifier → Option Specifier) :
    ∃ sts', (form.revise f (source sts)).text = source sts' ∧
      List.Forall₂ (Revises R fun s => (f s).getD s) sts sts' := by
  obtain ⟨sts', hpassages, hhead, hsts'⟩ :=
    exists_reword_passages (forall₂_chosen hform h hR .start) fun s => (f s).getD s
  refine ⟨sts', ?_, hsts'⟩
  have hpaired := isPaired_passages h (x := []) (by simp)
  have hsource := text_passages sts []
  have hsource' := text_passages sts' []
  simp only [List.nil_append] at hpaired hsource hsource' hpassages
  rw [← hsource, Form.revise_text hpaired, hpassages, ← hhead, hsource']

theorem WellFormed.withSpecifier {st : Statement} (h : st.WellFormed) {s : Specifier}
    (hs : s.all inSpecifier) : (st.withSpecifier s).WellFormed where
  shape := h.shape
  quote := h.quote
  specifier := List.all_eq_true.1 hs

theorem wellFormed_of_revises {R : Statement → Bool → Prop} {f : Specifier → Specifier}
    (hf : ∀ s : Specifier, s.all inSpecifier → (f s).all inSpecifier) {sts sts' : List Statement}
    (h : List.Forall₂ (Revises R f) sts sts') (hwell : ∀ st ∈ sts, st.WellFormed) :
    ∀ st ∈ sts', st.WellFormed := by
  induction h with
  | nil => exact hwell
  | @cons st st' sts sts' hst _ ih =>
    obtain ⟨mark, -, rfl⟩ := hst
    have hst := hwell st (by simp)
    have hrest := ih fun st' hst' => hwell st' (by simp [hst'])
    refine List.forall_mem_cons.2 ⟨?_, hrest⟩
    cases mark with
    | true => exact hst.withSpecifier (hf _ (List.all_eq_true.2 hst.specifier))
    | false => exact hst

/-- The decisions of a pass over extensions: all statements of the shapes
it is for are taken, and no others but such as are given extensions. -/
def Reaches (shapes : Shape → Bool) (st : Statement) (mark : Bool) : Prop :=
  (shapes st.shape → mark) ∧ (mark → st.shape.isExtended)

theorem reaches_importFrom {st : Statement} (h : st.WellFormed) {x : List Char} (hx : Precedes x) :
    Reaches Shape.isImportFrom st (Form.importFrom.endsInLead none (x ++ st.shape.opening) &&
      Form.importFrom.accepts st.specifier []) := by
  obtain ⟨shape, q, s⟩ := st
  rw [show Form.importFrom.accepts s [] = true from rfl, Bool.and_true]
  cases shape with
  | importFrom bindings => exact ⟨fun _ => importFrom_endsInLead h.shape hx, fun _ => rfl⟩
  | exportNames names => exact ⟨fun h => (by cases h), fun _ => rfl⟩
  | exportAll => simp [Reaches, importFrom_endsInLead_exportAll hx, Shape.isImportFrom]
  | importOnly | importCall =>
    rw [endsInLead_of_not_hasSource rfl]
    simp [Reaches, Shape.isImportFrom]

theorem reaches_exportFrom {st : Statement} (h : st.WellFormed) {x : List Char} (hx : Precedes x) :
    Reaches Shape.isExportNames st (Form.exportFrom.endsInLead none (x ++ st.shape.opening) &&
      Form.exportFrom.accepts st.specifier []) := by
  obtain ⟨shape, q, s⟩ := st
  rw [show Form.exportFrom.accepts s [] = true from rfl, Bool.and_true]
  cases shape with
  | importFrom bindings => exact ⟨fun h => (by cases h), fun _ => rfl⟩
  | exportNames names =>
    exact ⟨fun _ => exportFrom_endsInLead (fun c hc => (h.shape c hc).2) hx, fun _ => rfl⟩
  | exportAll => simp [Reaches, exportFrom_endsInLead_exportAll, Shape.isExportNames]
  | importOnly | importCall =>
    rw [endsInLead_of_not_hasSource rfl]
    simp [Reaches, Shape.isExportNames]

theorem extended_eq (st : Statement) :
    st.extended =
      if st.shape.isExtended then st.withSpecifier (Specifier.extended st.specifier) else st := by
  by_cases hneeds : Specifier.needsExtension st.specifier
  · simp [extended, hneeds, Specifier.extended_of_needsExtension hneeds]
  · rw [Bool.not_eq_true] at hneeds
    simp [extended, hneeds, Specifier.extended_of_not_needsExtension hneeds, withSpecifier]

/-- A statement that passes over imports and exports have both seen is
extended, by one of them or by both. -/
theorem eq_extended_of_revises {st st' st'' : Statement}
    (himports : Revises (Reaches Shape.isImportFrom) Specifier.extended st st')
    (hexports : Revises (Reaches Shape.isExportNames) Specifier.extended st' st'') :
    st'' = st.extended := by
  obtain ⟨mark, ⟨hmust, honly⟩, rfl⟩ := himports
  obtain ⟨mark', ⟨hmust', honly'⟩, rfl⟩ := hexports
  have hshape : (if mark then st.withSpecifier (Specifier.extended st.specifier) else st).shape =
      st.shape := by
    cases mark <;> rfl
  -- the two passes decide about the same shape
  rw [hshape] at hmust' honly'
  rw [extended_eq]
  cases mark <;> cases mark' <;>
    simp_all [Shape.isExtended, withSpecifier, Specifier.extended_extended]

/-- **Extensions, statement by statement.** -/
theorem appendExtensions_source {sts : List Statement} (h : ∀ st ∈ sts, st.WellFormed) :
    (appendExtensions (source sts)).text = source (sts.map extended) := by
  obtain ⟨sts', himports, hsts'⟩ := revise_source (by decide) h
    (fun st hst _ => reaches_importFrom (h st hst)) Specifier.withScriptExtension?
  have h' : ∀ st ∈ sts', st.WellFormed :=
    wellFormed_of_revises (fun s hs => (Specifier.all_inSpecifier_extended s).trans hs) hsts' h
  obtain ⟨sts'', hexports, hsts''⟩ := revise_source (by decide) h'
    (fun st hst _ => reaches_exportFrom (h' st hst)) Specifier.withScriptExtension?
  -- the second pass sees each statement as the first one left it
  have hmap : sts'' = sts.map extended := by
    clear himports hexports h h'
    induction hsts' generalizing sts'' with
    | nil => cases hsts''; rfl
    | cons hst _ ih =>
      cases hsts'' with
      | cons hst' hrest => rw [eq_extended_of_revises hst hst', ih _ hrest, List.map_cons]
  rw [appendExtensions, Revision.followedBy, himports, hexports, hmap]

theorem resolved_eq (table : AliasTable) (extend : Bool) (st : Statement) :
    st.resolved table extend =
      if st.shape.hasSource && !st.specifier.isEmpty then
        st.withSpecifier ((table.rewrite? extend st.specifier).getD st.specifier)
      else st := by
  by_cases hsource : (st.shape.hasSource && !st.specifier.isEmpty) = true
  · rw [if_pos hsource, resolved, hsource, Bool.true_and]
    by_cases hrel : Specifier.isRelativeOrRooted st.specifier
    · simp [AliasTable.rewrite?, hrel, withSpecifier]
    · rw [Bool.not_eq_true] at hrel
      simp only [hrel, Bool.not_false, if_true, AliasTable.rewrite?, AliasTable.resolve?,
        AliasTable.catching?, bind, Bool.false_eq_true, if_false]
      cases hfind : table.entries.find? (·.catches st.specifier) with
      | none => simp [withSpecifier]
      | some a => simp [Alias.resolve?, List.find?_some hfind]
  · rw [if_neg hsource, resolved]
    simp only [Bool.not_eq_true] at hsource
    simp [hsource]

/-- **Aliases, statement by statement.** -/
theorem resolveAliases_source (table : AliasTable) (extend : Bool) {sts : List Statement}
    (h : ∀ st ∈ sts, st.WellFormed) :
    (resolveAliases table extend (source sts)).text = source (sts.map (resolved table extend)) := by
  have hreaches : ∀ st ∈ sts, ∀ x, Precedes x →
      (Form.anyFrom.endsInLead none (x ++ st.shape.opening) &&
        Form.anyFrom.accepts st.specifier []) = (st.shape.hasSource && !st.specifier.isEmpty) :=
    fun st _ x _ => by rw [anyFrom_endsInLead]; rfl
  obtain ⟨sts', hrevise, hsts'⟩ := revise_source (by decide)
    (R := fun st mark => mark = (st.shape.hasSource && !st.specifier.isEmpty)) h hreaches
    (table.rewrite? extend)
  have hmap : sts' = sts.map (resolved table extend) := by
    clear hrevise h hreaches
    induction hsts' with
    | nil => rfl
    | cons hst _ ih =>
      obtain ⟨mark, rfl, rfl⟩ := hst
      rw [ih, List.map_cons, resolved_eq]
  rw [resolveAliases, hrevise, hmap]

/-- **Both passes are maps over the statements of a module.** Which bindings
and names stand in a statement, and which words its specifier holds, makes
no difference to any other. -/
theorem passes_map_source {sts : List Statement} (h : ∀ st ∈ sts, st.WellFormed) :
    (appendExtensions (source sts)).text = source (sts.map extended) ∧
      ∀ (table : AliasTable) (extend : Bool),
        (resolveAliases table extend (source sts)).text = source (sts.map (resolved table extend)) :=
  ⟨appendExtensions_source h, fun table extend => resolveAliases_source table extend h⟩

/-- A module of one statement of each shape. -/
def sample : List Statement :=
  [⟨.importFrom "\x7b a as from \x7d".toList, '\'', "./import from ".toList⟩,
    ⟨.exportNames "b".toList, '"', "/lib/export".toList⟩,
    ⟨.exportAll, '\'', "@app/c".toList⟩,
    ⟨.importOnly, '\'', "./d".toList⟩,
    ⟨.importCall "v".toList, '"', "@app/e".toList⟩]

/-- The sample is well formed, and both passes map over it. -/
theorem passes_map_source_sample :
    (∀ st ∈ sample, st.WellFormed) ∧
      (appendExtensions (source sample)).text =
        ("import \x7b a as from \x7d from './import from .js';\n" ++
          "export \x7b b \x7d from \"/lib/export.js\";\n" ++
          "export * from '@app/c';\nimport './d';\nconst v = import(\"@app/e\");\n").toList ∧
      (resolveAliases ⟨[⟨"@app/*", "./src"⟩]⟩ true (source sample)).text =
        ("import \x7b a as from \x7d from './import from ';\n" ++
          "export \x7b b \x7d from \"/lib/export\";\n" ++
          "export * from './src/c.js';\nimport './d';\nconst v = import(\"@app/e\");\n").toList := by
  have h : ∀ st ∈ sample, st.WellFormed := by decide +kernel
  have hmap := passes_map_source h
  refine ⟨h, ?_, ?_⟩
  · rw [hmap.1]
    decide +kernel
  · rw [hmap.2]
    decide +kernel

end Statement

end DualPackage
