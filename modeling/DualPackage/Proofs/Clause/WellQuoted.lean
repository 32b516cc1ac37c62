import DualPackage.Proofs.Clause.Paired
/-!
# Lines with two quotes

A text is well quoted if each of its lines holds no quote or exactly two,
with no brace between them. Its quotes then come in pairs, and no
specifier of it can open or close the braces of an export
(`WellQuoted.exists_passages`). This makes the text in front of a run, as
far as leads go, independent of the specifiers it holds
(`Form.Alike.append`), and so a scan chooses the same passages whatever
plain specifiers stand in them (`Form.chosen_reword`).
-/

namespace DualPackage

open Text Stretch Passage

/-- The characters that end a line. -/
def isLineEnd (c : Char) : Bool :=
  c == '\r' || c == '\n'

/-- The lines of a text. -/
def lines (text : List Char) : List (List Char) :=
  text.splitOnP isLineEnd

/-- What stands in a line between its first quote and the next. -/
def betweenQuotes (line : List Char) : List Char :=
  ((line.dropWhile fun c => !isQuote c).drop 1).takeWhile fun c => !isQuote c

/-- The braces around the names of an export. -/
def isBrace (c : Char) : Bool :=
  c == '{' || c == '}'

/-- Each line holds no quote or two, and no brace between them. -/
structure WellQuoted (text : List Char) : Prop where
  pairs : ∀ line ∈ lines text, line.countP isQuote = 0 ∨ line.countP isQuote = 2
  braceless : ∀ line ∈ lines text, ∀ c ∈ betweenQuotes line, isBrace c = false

instance (text : List Char) : Decidable (WellQuoted text) :=
  decidable_of_iff (∀ line ∈ lines text, (line.countP isQuote = 0 ∨ line.countP isQuote = 2) ∧
      (betweenQuotes line).all fun c => isBrace c = false)
    ⟨fun h => ⟨fun line hline => (h line hline).1,
        fun line hline => List.all_iff_forall_prop.1 (h line hline).2⟩,
      fun h line hline => ⟨h.pairs line hline, List.all_iff_forall_prop.2 (h.braceless line hline)⟩⟩

/-- A character of a specifier that no export can mistake. -/
def isPlain (c : Char) : Bool :=
  inSpecifier c && !isBrace c

theorem inSpecifier_of_isPlain {c : Char} (h : isPlain c) : inSpecifier c := by
  simp only [isPlain, Bool.and_eq_true] at h
  exact h.1

theorem isBrace_eq_false_of_isPlain {c : Char} (h : isPlain c) : isBrace c = false := by
  simp only [isPlain, Bool.and_eq_true, Bool.not_eq_true'] at h
  exact h.2

namespace WellQuoted

variable {line text rest : List Char}

/-- A text cut at its quotes has as many stretches as quotes. -/
theorem length_cut (text : List Char) : (cut text).2.length = text.countP isQuote := by
  induction text with
  | nil => rfl
  | cons c text ih =>
    by_cases hc : isQuote c
    · simp [cut, hc, ih]
    · simp [cut, hc, ih]

/-- A line with two quotes, taken apart. -/
theorem exists_run_of_countP_eq_two (h : line.countP isQuote = 2) :
    ∃ (x : List Char) (run : QuotedRun) (y : List Char), line = x ++ (run.text ++ y) ∧
      isQuote run.openQuote ∧ isQuote run.closeQuote ∧ (∀ c ∈ x, isQuote c = false) ∧
      (∀ c ∈ y, isQuote c = false) ∧ run.specifier = betweenQuotes line ∧
      ∀ c ∈ run.specifier, isQuote c = false := by
  have hcut := isCut_cut line
  have hglue := glue_cut line
  rw [← length_cut] at h
  obtain ⟨⟨o, s⟩, ⟨e, y⟩, hss⟩ := List.length_eq_two.1 h
  rw [hss] at hcut hglue
  obtain ⟨hs, hy⟩ : (∀ c ∈ s, isQuote c = false) ∧ ∀ c ∈ y, isQuote c = false := by
    simpa using hcut.bodies_free
  obtain ⟨ho, he⟩ : isQuote o ∧ isQuote e := by simpa using hcut.quotes
  have hline : (cut line).1 ++ o :: (s ++ e :: y) = line := by simpa using hglue
  have hbetween : betweenQuotes line = s := by
    have hdrop : line.dropWhile (fun c => !isQuote c) = o :: (s ++ e :: y) := by
      rw [← hline]
      exact dropWhile_append_stop (by simpa using hcut.head_free) (by simpa using ho)
    rw [betweenQuotes, hdrop]
    exact takeWhile_append_stop (by simpa using hs) (by simpa using he)
  refine ⟨(cut line).1, ⟨o, s, e⟩, y, ?_, ho, he, hcut.head_free, hy, hbetween.symm, hs⟩
  simpa [QuotedRun.text] using hline.symm

/-- A line of a well quoted text holds no quote, or one run around a plain
specifier. -/
theorem line_cases (hpairs : line.countP isQuote = 0 ∨ line.countP isQuote = 2)
    (hbraceless : ∀ c ∈ betweenQuotes line, isBrace c = false)
    (hline : ∀ c ∈ line, isLineEnd c = false) :
    (∀ c ∈ line, isQuote c = false) ∨
      ∃ (x : List Char) (run : QuotedRun) (y : List Char), line = x ++ (run.text ++ y) ∧
        run.Proper ∧ run.specifier.all isPlain ∧ (∀ c ∈ x, isQuote c = false) ∧
        ∀ c ∈ y, isQuote c = false := by
  rcases hpairs with hnone | htwo
  · exact .inl (by simpa [List.countP_eq_zero] using hnone)
  · obtain ⟨x, run, y, rfl, ho, he, hx, hy, hbetween, hs⟩ := exists_run_of_countP_eq_two htwo
    have hplain : ∀ c ∈ run.specifier, isPlain c := by
      intro c hc
      have hend := hline c (by simp [QuotedRun.text, hc])
      have hbrace := hbraceless c (hbetween ▸ hc)
      simp only [isLineEnd, Bool.or_eq_false_iff, beq_eq_false_iff_ne] at hend
      simp [isPlain, inSpecifier, hs c hc, hend, hbrace]
    exact .inr ⟨x, run, y, rfl, ⟨ho, fun c hc => inSpecifier_of_isPlain (hplain c hc), he⟩,
      List.all_eq_true.2 hplain, hx, hy⟩

/-- One more line in front of passages. -/
theorem exists_passages_of_line {head : List Char} {ps : List Passage}
    (hline : (∀ c ∈ line, isQuote c = false) ∨
      ∃ (x : List Char) (run : QuotedRun) (y : List Char), line = x ++ (run.text ++ y) ∧
        run.Proper ∧ run.specifier.all isPlain ∧ (∀ c ∈ x, isQuote c = false) ∧
        ∀ c ∈ y, isQuote c = false)
    (h : IsPaired head ps) (hplain : ∀ p ∈ ps, p.specifier.all isPlain)
    (hapart : ps = [] ∨ ∃ c ∈ head, isLineEnd c) :
    ∃ head' ps', IsPaired head' ps' ∧ line ++ Passage.text head ps = Passage.text head' ps' ∧
      ∀ p ∈ ps', p.specifier.all isPlain := by
  rcases hline with hfree | ⟨x, run, y, rfl, hrun, hs, hx, hy⟩
  · exact ⟨line ++ head, ps, h.append_head hfree, (text_append_head ..).symm, hplain⟩
  · refine ⟨x, ⟨run, y ++ head⟩ :: ps, .next hx hrun ?_ (h.append_head hy), ?_, ?_⟩
    · rcases hapart with rfl | ⟨c, hc, hend⟩
      · exact .inl rfl
      · refine .inr (List.all_eq_false.2 ⟨c, List.mem_append_right _ hc, ?_⟩)
        simp only [isLineEnd, Bool.or_eq_true, beq_iff_eq] at hend
        rcases hend with rfl | rfl <;> decide
    · simp [text_append_head]
    · exact List.forall_mem_cons.2 ⟨hs, hplain⟩

theorem of_line_append {c : Char} (hc : isLineEnd c) (h : WellQuoted (line ++ c :: rest)) :
    WellQuoted rest := by
  have hlines : lines (line ++ c :: rest) = lines line ++ lines rest :=
    List.splitOnP_append_cons line rest hc
  exact ⟨fun l hl => h.pairs l (by simp [hlines, hl]),
    fun l hl => h.braceless l (by simp [hlines, hl])⟩

/-- **The passages of a well quoted text.** Its quotes come in pairs, around
plain specifiers. -/
theorem exists_passages (h : WellQuoted text) :
    ∃ head ps, IsPaired head ps ∧ text = Passage.text head ps ∧
      ∀ p ∈ ps, p.specifier.all isPlain := by
  induction hn : text.length using Nat.strong_induction_on generalizing text with
  | _ n ih =>
    subst hn
    set line := text.takeWhile fun c => !isLineEnd c with hdef
    have hline : ∀ c ∈ line, isLineEnd c = false := fun c hc => by
      simpa using List.mem_takeWhile_imp hc
    have hsplit : line ++ text.dropWhile (fun c => !isLineEnd c) = text :=
      List.takeWhile_append_dropWhile
    rcases hrest : text.dropWhile fun c => !isLineEnd c with - | ⟨c, rest⟩
    · -- the last line has no end
      rw [hrest, List.append_nil] at hsplit
      have hlines : lines text = [line] := by
        rw [← hsplit]
        exact List.splitOnP_eq_singleton hline
      have hcases := line_cases (h.pairs line (by simp [hlines]))
        (h.braceless line (by simp [hlines])) hline
      have hlast : IsPaired [] [] := .last (by simp)
      have := exists_passages_of_line hcases hlast (by simp) (.inl rfl)
      simpa [hsplit] using this
    · -- behind a line and its end the rest is again well quoted
      rw [hrest] at hsplit
      have hc : isLineEnd c := by
        have := List.head?_dropWhile_not (fun c => !isLineEnd c) text
        rw [hrest] at this
        simpa using this
      have hlines : lines text = line :: lines rest := by
        rw [← hsplit]
        exact List.splitOnP_append_cons_of_forall_mem hline c hc rest
      have hcases := line_cases (h.pairs line (by simp [hlines]))
        (h.braceless line (by simp [hlines])) hline
      have hrest' : WellQuoted rest := of_line_append hc (hsplit.symm ▸ h)
      obtain ⟨head, ps, hpaired, htext, hplain⟩ := ih rest.length
        (by rw [← hsplit]; simp; omega) hrest' rfl
      have hquote : isQuote c = false := by
        simp only [isLineEnd, Bool.or_eq_true, beq_iff_eq] at hc
        rcases hc with rfl | rfl <;> decide
      have := exists_passages_of_line hcases (hpaired.append_head (x := [c]) (by simpa using hquote))
        hplain (.inr ⟨c, by simp, hc⟩)
      rwa [text_append_head, ← htext, List.singleton_append, hsplit] at this

end WellQuoted

/-! ## Leads across plain specifiers -/

namespace Form

variable {form : Form} {x y s s' : List Char} {o e : Char}

theorem not_isQuote_of_isExportLead_parts {gap : List Char} (hgap : ∀ c ∈ gap, isBlank c) :
    ∀ c ∈ exportWord ++ gap, isQuote c = false := by
  have hword : ∀ c ∈ exportWord, isQuote c = false := List.all_iff_forall_prop.1 (by decide)
  simpa [or_imp, forall_and] using
    ⟨hword, fun c hc => isQuote_eq_false_of_isBlank (hgap c hc)⟩

/-- A plain specifier is no part of what leads an export: its braces open
and close around the whole run or on one side of it. -/
theorem endsInLead_exportFrom_of_plain (ho : isQuote o) (he : isQuote e) (hs : s.all isPlain)
    (hs' : s'.all isPlain) (h : exportFrom.endsInLead none (x ++ o :: (s ++ e :: y))) :
    exportFrom.endsInLead none (x ++ o :: (s' ++ e :: y)) := by
  rw [endsInLead_iff] at h
  obtain ⟨z, lead, heq, ⟨gap, names, gap', source, rfl, hgap, hnames, hgap', hsource⟩, hopens⟩ := h
  set tail := gap' ++ source with htail
  have hfront := not_isQuote_of_isExportLead_parts hgap
  have hbehind : ∀ c ∈ tail, isQuote c = false := by
    rw [htail]
    simpa [or_imp, forall_and] using
      ⟨fun c hc => isQuote_eq_false_of_isBlank (hgap' c hc), isQuote_eq_false_of_isFromLead hsource⟩
  have hbrace : ∀ d, isBrace d → d ∉ o :: (s ++ [e]) := by
    intro d hd hmem
    simp only [List.mem_cons, List.mem_append, List.not_mem_nil, or_false] at hmem
    have hquote : ∀ q, isQuote q → isBrace q = false := by
      intro q hq
      simp only [isQuote, Bool.or_eq_true, beq_iff_eq] at hq
      rcases hq with rfl | rfl <;> decide
    rcases hmem with rfl | hmem | rfl
    · rw [hquote _ ho] at hd
      cases hd
    · rw [isBrace_eq_false_of_isPlain (List.all_eq_true.1 hs d hmem)] at hd
      cases hd
    · rw [hquote _ he] at hd
      cases hd
  have hsplit : x ++ (o :: (s ++ [e]) ++ y) =
      (z ++ (exportWord ++ gap)) ++ '{' :: (names ++ '}' :: tail) := by
    simpa [htail] using heq
  rcases List.append_eq_append_iff.1 hsplit with ⟨w, hw, hrest⟩ | ⟨w, hw, hrest⟩
  · -- the opening brace stands behind the run, or its keyword would hold a quote
    obtain ⟨b, rfl, rfl⟩ := exists_append_of_not_mem_left (hbrace '{' rfl) hrest
    have hkeyword : e ∉ exportWord ++ gap := fun hmem => by
      rw [hfront e hmem] at he
      cases he
    obtain ⟨u, rfl, rfl⟩ := exists_append_of_not_mem_right (v := x ++ o :: s) (t := b) hkeyword
      (by simpa using hw)
    refine endsInLead_iff.2 ⟨x ++ o :: s' ++ e :: u, _, ?_,
      ⟨gap, names, gap', source, rfl, hgap, hnames, hgap', hsource⟩, ?_⟩
    · simp [htail]
    · rwa [charBefore_append, charBefore_cons] at hopens ⊢
  · rcases w with - | ⟨d, w⟩
    · -- the run does not begin with a brace
      obtain ⟨rfl, -⟩ : '{' = o ∧ names ++ '}' :: tail = s ++ ([e] ++ y) := by simpa using hrest
      exact absurd (List.mem_cons_self ..) (hbrace '{' rfl)
    · -- the closing brace stands behind the run, or a quote would stand behind it
      obtain ⟨rfl, hnamed⟩ : '{' = d ∧ names ++ '}' :: tail = w ++ (o :: (s ++ [e]) ++ y) := by
        simpa using hrest
      have hquote : o ∉ '}' :: tail := fun hmem => by
        rcases List.mem_cons.1 hmem with rfl | hmem
        · cases ho
        · rw [hbehind o hmem] at ho
          cases ho
      obtain ⟨b, rfl, hb⟩ := exists_append_of_not_mem_right hquote hnamed
      obtain ⟨b', rfl, rfl⟩ := exists_append_of_not_mem_left
        (fun hmem => hbrace '}' rfl (List.mem_cons_of_mem _ hmem)) hb
      refine endsInLead_iff.2 ⟨z, _, ?_,
        ⟨gap, w ++ o :: (s' ++ [e] ++ b'), gap', source, rfl, hgap, ?_, hgap', hsource⟩, hopens⟩
      · simp [hw, htail]
      · have hs'' : ∀ c ∈ s', c ≠ '}' := by
          rintro c hc rfl
          exact absurd (List.all_eq_true.1 hs' _ hc) (by decide)
        simp only [List.mem_append, List.mem_cons, List.not_mem_nil, or_false, or_imp,
          forall_and, forall_eq] at hnames ⊢
        obtain ⟨hw, ho, ⟨-, he⟩, hb'⟩ := hnames
        exact ⟨hw, ho, ⟨hs'', he⟩, hb'⟩

/-- **Which plain specifier stands in a run makes no difference to the leads
behind it.** -/
theorem endsInLead_of_plain (form : Form) (ho : isQuote o) (he : isQuote e) (hs : s.all isPlain)
    (hs' : s'.all isPlain) (x y : List Char) :
    form.endsInLead none (x ++ o :: (s ++ e :: y)) =
      form.endsInLead none (x ++ o :: (s' ++ e :: y)) := by
  by_cases hform : form = exportFrom
  · subst hform
    exact Bool.eq_iff_iff.2 ⟨endsInLead_exportFrom_of_plain ho he hs hs',
      endsInLead_exportFrom_of_plain ho he hs' hs⟩
  · -- such a lead does not reach across the run
    have hwithin := leadsWithinQuotes_of_ne hform
    have hlast : ∀ s : List Char, form.endsInLead none (x ++ o :: (s ++ e :: y)) =
        form.endsInLead none y := by
      intro s
      rw [← List.cons_append, ← List.append_assoc, endsInLead_append_quote hwithin he]
    rw [hlast, hlast]

/-- Two texts with the same leads ahead of them. -/
def Alike (form : Form) (x y : List Char) : Prop :=
  ∀ z, form.endsInLead none (x ++ z) = form.endsInLead none (y ++ z)

theorem Alike.refl (form : Form) (x : List Char) : form.Alike x x := fun _ => rfl

/-- A run and what follows it, behind texts that are alike. -/
theorem Alike.append (h : form.Alike x y) {run : QuotedRun} (hrun : run.Proper)
    (hs : run.specifier.all isPlain) (hs' : s'.all isPlain) (after : List Char) :
    form.Alike (x ++ (run.text ++ after))
      (y ++ ({ run with specifier := s' }.text ++ after)) := by
  intro z
  have hleft := h (run.text ++ after ++ z)
  have hright := endsInLead_of_plain form hrun.opens hrun.closes hs hs' y (after ++ z)
  simp only [QuotedRun.text, List.append_assoc, List.cons_append, List.nil_append] at hleft hright ⊢
  rw [hleft, hright]

/-- A function answers the specifier `s` by a plain one, and by the empty one
only if `s` is empty itself. -/
def KeepsPlain (f : Specifier → Specifier) (s : Specifier) : Prop :=
  (f s).all isPlain ∧ (f s).isEmpty = s.isEmpty

theorem takes_of_plain (hform : form ≠ jsonImport) (h : form.Alike x y) (hs : s.all isPlain)
    (hs' : s'.all isPlain) (hempty : s'.isEmpty = s.isEmpty) (after after' : List Char) :
    form.takes y s' after' = form.takes x s after := by
  have hinside : ∀ s : Specifier, s.all isPlain → s.all inSpecifier := fun s hs =>
    List.all_eq_true.2 fun c hc => inSpecifier_of_isPlain (List.all_eq_true.1 hs c hc)
  have hends := h []
  have haccepts : form.accepts s' after' = form.accepts s after := by
    cases form with
    | anyFrom => simp [accepts, hempty]
    | importFrom | exportFrom => rfl
    | jsonImport => exact absurd rfl hform
  simp only [List.append_nil] at hends
  rw [takes, takes, hends, hinside s hs, hinside s' hs', haccepts]

/-- **A scan chooses the same passages, whatever plain specifiers stand in
them.** -/
theorem chosen_reword (hform : form ≠ jsonImport) {f : Specifier → Specifier} {marks : List Bool}
    {head sofar sofar' : List Char} {ps : List Passage} (hpaired : IsPaired head ps)
    (hplain : ∀ p ∈ ps, p.specifier.all isPlain)
    (hf : ∀ s ∈ marked marks ps, KeepsPlain f s) (hlen : marks.length = ps.length)
    (h : form.Alike sofar sofar') :
    form.chosen sofar' (reword f marks ps) = form.chosen sofar ps := by
  induction hpaired generalizing sofar sofar' marks with
  | last => simp [chosen]
  | @next head p ps hhead hrun hapart hpaired ih =>
    obtain ⟨mark, marks, rfl⟩ := List.exists_cons_of_length_eq_add_one hlen
    have hp := hplain p (by simp)
    have hrest : ∀ s ∈ marked marks ps, KeepsPlain f s := fun s hs =>
      hf s (by cases mark <;> simp [marked, hs])
    replace ih : ∀ sofar sofar', form.Alike sofar sofar' →
        form.chosen sofar' (reword f marks ps) = form.chosen sofar ps := fun _ _ =>
      ih (fun p hp => hplain p (by simp [hp])) hrest (by simpa using hlen)
    -- the specifier that stands in the passage now
    obtain ⟨s', hword, hs', hempty⟩ : ∃ s' : Specifier,
        (if mark then p.withSpecifier (f p.specifier) else p) = p.withSpecifier s' ∧
          s'.all isPlain ∧ s'.isEmpty = p.specifier.isEmpty := by
      cases mark with
      | false => exact ⟨p.specifier, rfl, hp, rfl⟩
      | true => exact ⟨f p.specifier, rfl, hf p.specifier (by simp [marked])⟩
    have hpassed : form.chosen (sofar' ++ ((p.withSpecifier s').run.text ++ p.after))
        (reword f marks ps) = form.chosen (sofar ++ (p.run.text ++ p.after)) ps :=
      ih _ _ (h.append hrun hp hs' p.after)
    rw [reword_cons, hword, chosen, chosen, specifier_withSpecifier, after_withSpecifier,
      takes_of_plain hform h hp hs' hempty (text p.after ps), ih _ _ (Alike.refl form p.after),
      hpassed]

end Form

end DualPackage
