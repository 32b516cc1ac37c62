import DualPackage.EsmSource
import DualPackage.Proofs.Clause.Occurrences
import DualPackage.Proofs.Clause.Taken
/-!
# The attribute of a JSON import

Whether a run between two quotes is the file of a JSON import is told by
the run, the text in front of its opening quote and the text behind its
closing one, and by nothing further away (`isJsonImport`): the bindings of
an import hold no quote, and the name of a JSON file leads no clause. So
the marks of the whole scan are decided one by one (`taken_jsonImport`),
and the fix writes the attribute behind the runs marked
(`text_addJsonAttributes`).

The attribute has quotes of its own. On the cut of the new text
(`attributed`) nothing is marked (`jsonImports_attributed`), so a second
look finds nothing (`found_addJsonAttributes`).
-/

namespace DualPackage

open Text Stretch

namespace EsmSource

/-- Whether a run is the file of a JSON import, with the text up to its
opening quote and that behind its closing quote, each as far as the next
quote. -/
def isJsonImport (ahead run after : List Char) : Bool :=
  Form.jsonImport.takes ahead run after

/-- For each stretch, whether its body is the file of a JSON import. -/
def jsonImports : List Char → List Stretch → List Bool
  | _, [] => []
  | _, [_] => [false]
  | ahead, s :: e :: rest => isJsonImport ahead s.body e.body :: jsonImports s.body (e :: rest)

variable {head ahead ahead' run after x : List Char} {ss : List Stretch} {s e : Stretch}

@[simp] theorem length_jsonImports (ahead : List Char) (ss : List Stretch) :
    (jsonImports ahead ss).length = ss.length := by
  fun_induction jsonImports ahead ss with
  | case1 => rfl
  | case2 => rfl
  | case3 ahead s e rest ih => simp [ih]

/-! ## What the decision looks at -/

theorem isJsonFile_iff {s : Specifier} :
    Form.isJsonFile s ↔ ∃ y, y ≠ [] ∧ s = y ++ ['.', 'j', 's', 'o', 'n'] := by
  constructor
  · intro h
    unfold Form.isJsonFile at h
    split at h
    · rename_i c rest heq
      have hs := congrArg List.reverse heq
      rw [List.reverse_reverse] at hs
      exact ⟨(c :: rest).reverse, by simp, by simp [hs]⟩
    · cases h
  · rintro ⟨y, hy, rfl⟩
    obtain ⟨y, c, rfl⟩ := (List.eq_nil_or_concat y).resolve_left hy
    simp [Form.isJsonFile]

/-- **The name of a JSON file leads no clause.** -/
theorem endsInLead_eq_false_of_isJsonFile {form : Form} (h : Form.isJsonFile run) :
    form.endsInLead none run = false := by
  obtain ⟨y, -, rfl⟩ := isJsonFile_iff.1 h
  refine Form.endsInLead_eq_false_of_dropWhile (fun rest => ?_) form
  have hn : isBlank 'n' = false := by decide
  simp [hn]

theorem isJsonImport_congr (h : Form.jsonImport.endsInLead none ahead =
    Form.jsonImport.endsInLead none ahead') (run after : List Char) :
    isJsonImport ahead run after = isJsonImport ahead' run after := by
  rw [isJsonImport, isJsonImport, Form.takes, Form.takes, h]

theorem jsonImports_congr (h : Form.jsonImport.endsInLead none ahead =
    Form.jsonImport.endsInLead none ahead') (ss : List Stretch) :
    jsonImports ahead ss = jsonImports ahead' ss := by
  match ss with
  | [] | [_] => rfl
  | s :: e :: rest => rw [jsonImports, jsonImports, isJsonImport_congr h]

/-- What follows the next quote is not looked at: the `;` stands in front
of it, or nowhere. -/
theorem takes_jsonImport_glue (hq : ∀ s ∈ ss, isQuote s.quote) :
    Form.jsonImport.takes ahead run (glue after ss) = isJsonImport ahead run after := by
  have hsemicolon : ((skipBlank (glue after ss)).head? == some ';') =
      ((skipBlank after).head? == some ';') := by
    cases ss with
    | nil => rfl
    | cons s ss =>
      have hblank := isBlank_eq_false_of_isQuote (hq s (by simp))
      have hne : s.quote ≠ ';' := by
        intro h
        exact absurd (hq s (by simp)) (by rw [h]; decide)
      rw [glue_cons, skipBlank, List.dropWhile_append, skipBlank]
      cases hafter : after.dropWhile isBlank with
      | nil => simp [hblank, hne]
      | cons c rest => simp
  simp only [isJsonImport, Form.takes, Form.accepts, hsemicolon]

/-- **Each run is decided on its own.** -/
theorem taken_jsonImport (hq : ∀ s ∈ ss, isQuote s.quote) (sofar : List Char) :
    Form.jsonImport.taken sofar ss = jsonImports sofar ss := by
  fun_induction Form.taken Form.jsonImport sofar ss with
  | case1 => rfl
  | case2 => rfl
  | case3 sofar s e rest htakes ih =>
    have hrest : ∀ t ∈ rest, isQuote t.quote := fun t ht => hq t (by simp [ht])
    rw [takes_jsonImport_glue hrest] at htakes
    have hlead : Form.jsonImport.endsInLead none s.body = false := by
      simp only [isJsonImport, Form.takes, Form.accepts, Bool.and_eq_true] at htakes
      exact endsInLead_eq_false_of_isJsonFile htakes.2.1
    -- the file leads no clause, so the text behind it is not the next file
    have hnext : jsonImports s.body (e :: rest) = false :: jsonImports e.body rest := by
      cases rest with
      | nil => rfl
      | cons t rest => simp [jsonImports, isJsonImport, Form.takes, hlead]
    rw [jsonImports, htakes, hnext, ih hrest]
  | case4 sofar s e rest htakes ih =>
    have hrest : ∀ t ∈ rest, isQuote t.quote := fun t ht => hq t (by simp [ht])
    have hwithin : Form.jsonImport.LeadsWithinQuotes := Form.leadsWithinQuotes_of_ne (by decide)
    rw [takes_jsonImport_glue hrest, Bool.not_eq_true] at htakes
    rw [jsonImports, htakes, ih fun t ht => hq t (List.mem_cons_of_mem _ ht),
      jsonImports_congr (Form.endsInLead_append_quote hwithin (hq s (by simp)))]

/-! ## What the fix writes -/

/-- **The fix writes the attribute behind the runs marked.** -/
theorem text_addJsonAttributes (hcut : IsCut head ss) :
    (addJsonAttributes (glue head ss)).text =
      glue head (behind jsonAttribute (jsonImports head ss) ss) := by
  have hwritten := Form.replace_glue hcut .jsonImport id jsonAttribute
  have hself : amend id (jsonImports head ss) ss = ss := amend_eq_self (by simp) fun _ _ => rfl
  rw [taken_jsonImport hcut.quotes, hself] at hwritten
  exact hwritten

/-- The attribute up to its first quote. -/
def attributeOpening : List Char :=
  " with \x7b type: ".toList

/-- The attribute between its quotes. -/
def attributeValue : List Char :=
  "json".toList

/-- The attribute behind its last quote. -/
def attributeClosing : List Char :=
  " \x7d".toList

theorem jsonAttribute_eq :
    jsonAttribute = attributeOpening ++ '"' :: (attributeValue ++ '"' :: attributeClosing) := by
  decide

/-- The stretches of the new text: the attribute brings two quotes of its
own. -/
def attributed : List Bool → List Stretch → List Stretch
  | mark :: marks, s :: ss =>
    (if mark then [⟨s.quote, attributeOpening⟩, ⟨'"', attributeValue⟩,
      ⟨'"', attributeClosing ++ s.body⟩] else [s]) ++ attributed marks ss
  | _, _ => []

theorem glue_attributed (head : List Char) (marks : List Bool) (ss : List Stretch) :
    glue head (attributed marks ss) = glue head (amend (jsonAttribute ++ ·) marks ss) := by
  induction ss generalizing head marks with
  | nil => cases marks <;> simp [attributed]
  | cons s ss ih =>
    rcases marks with - | ⟨- | -, marks⟩
    · rfl
    · simp [attributed, ih]
    · have hbody := glue_append_head jsonAttribute s.body (amend (jsonAttribute ++ ·) marks ss)
      simp only [attributed, if_true, List.cons_append, List.nil_append, glue_cons, ih,
        glue_append_head attributeClosing, amend_cons, hbody]
      simp [jsonAttribute_eq]

theorem isCut_attributed (hcut : IsCut head ss) (marks : List Bool) :
    IsCut head (attributed marks ss) := by
  have hfree : ∀ c ∈ attributeOpening ++ attributeValue ++ attributeClosing, isQuote c = false :=
    List.all_iff_forall_prop.1 (by decide)
  have hquote : isQuote '"' := by decide
  suffices h : ∀ t ∈ attributed marks ss, isQuote t.quote ∧ ∀ c ∈ t.body, isQuote c = false from
    ⟨hcut.head_free, fun t ht => (h t ht).1, fun t ht => (h t ht).2⟩
  induction ss generalizing head marks with
  | nil => cases marks <;> simp [attributed]
  | cons s ss ih =>
    have hs : isQuote s.quote ∧ ∀ c ∈ s.body, isQuote c = false :=
      ⟨hcut.quotes s (by simp), hcut.bodies_free s (by simp)⟩
    rcases marks with - | ⟨- | -, marks⟩
    · simp [attributed]
    · simpa [attributed] using ⟨hs, ih hcut.tail marks⟩
    · intro t ht
      rcases List.mem_append.1 ht with ht | ht
      · simp only [if_true, List.mem_cons, List.not_mem_nil, or_false] at ht
        rcases ht with rfl | rfl | rfl
        · exact ⟨hs.1, fun c hc => hfree c (by simp [hc])⟩
        · exact ⟨hquote, fun c hc => hfree c (by simp [hc])⟩
        · refine ⟨hquote, fun c hc => ?_⟩
          rcases List.mem_append.1 hc with hc | hc
          · exact hfree c (by simp [hc])
          · exact hs.2 c hc
      · exact ih hcut.tail marks t ht

/-! ## A second look -/

theorem endsInLead_attributeClosing (x : List Char) :
    Form.jsonImport.endsInLead none (attributeClosing ++ x) =
      Form.jsonImport.endsInLead none x := by
  have hclosing : attributeClosing = [' ', '}'] := by decide
  have hopens : opensWord (some '}') = opensWord none := by decide
  have hlead : ∀ (c : Char) (text : List Char), c ≠ 'i' →
      Form.jsonImport.lead? (c :: text) = none := by
    intro c text hc
    simp [Form.lead?, Form.importLead?, importWord, afterWord?, hc.symm]
  rw [hclosing, List.cons_append, List.singleton_append, Form.endsInLead, Form.endsInLead,
    hlead _ _ (by decide), hlead _ _ (by decide), Form.endsInLead_congr hopens]
  simp

/-- A run in front of the attribute has it already. -/
theorem isJsonImport_attributeOpening (ahead run : List Char) :
    isJsonImport ahead run attributeOpening = false := by
  have hopening : (skipBlank attributeOpening).head? = some 'w' := by decide
  simp [isJsonImport, Form.takes, Form.accepts, hopening]

/-- The runs that the attribute brings name no file. -/
theorem isJsonImport_of_not_isJsonFile (h : Form.isJsonFile run = false)
    (ahead after : List Char) : isJsonImport ahead run after = false := by
  simp [isJsonImport, Form.takes, Form.accepts, h]

theorem not_mem_jsonImports_cons (hs : ∀ t ∈ ss.head?, isJsonImport ahead s.body t.body = false)
    (h : true ∉ jsonImports s.body ss) : true ∉ jsonImports ahead (s :: ss) := by
  cases ss with
  | nil => simp [jsonImports]
  | cons t ss => simpa [jsonImports, hs t rfl] using h

/-- **Nothing is marked a second time.** -/
theorem jsonImports_attributed (mark : Bool) (h : Form.jsonImport.endsInLead none ahead' =
    Form.jsonImport.endsInLead none ahead) (ss : List Stretch) :
    true ∉ jsonImports ahead' (attributed (mark :: jsonImports ahead ss) ss) := by
  induction ss generalizing ahead ahead' mark with
  | nil => simp [attributed, jsonImports]
  | cons e ss ih =>
    -- behind the stretch, which may begin with the attribute
    have hbehind : ∀ body : List Char, Form.jsonImport.endsInLead none body =
        Form.jsonImport.endsInLead none e.body →
          true ∉ jsonImports body (attributed (jsonImports ahead (e :: ss)) ss) := by
      intro body hbody
      cases ss with
      | nil => simp [attributed, jsonImports]
      | cons t ss => exact ih _ hbody
    cases mark with
    | false =>
      refine not_mem_jsonImports_cons (fun t ht => ?_) (hbehind e.body rfl)
      cases ss with
      | nil => simp [attributed] at ht
      | cons n ss =>
        -- a file that was marked is followed by the attribute now
        rw [jsonImports, attributed] at ht
        cases hmark : isJsonImport ahead e.body n.body with
        | true =>
          obtain rfl : (⟨n.quote, attributeOpening⟩ : Stretch) = t := by simpa [hmark] using ht
          exact isJsonImport_attributeOpening _ _
        | false =>
          obtain rfl : n = t := by simpa [hmark] using ht
          rw [isJsonImport_congr h, hmark]
    | true =>
      have hopening : Form.isJsonFile attributeOpening = false := by decide
      have hfile : Form.isJsonFile attributeValue = false := by decide
      have hvalue : Form.jsonImport.endsInLead none attributeValue = false := by decide
      refine not_mem_jsonImports_cons (fun t _ => ?_) (not_mem_jsonImports_cons (fun t _ => ?_)
        (not_mem_jsonImports_cons (fun t _ => ?_) (hbehind _ (endsInLead_attributeClosing e.body))))
      · exact isJsonImport_of_not_isJsonFile hopening _ _
      · exact isJsonImport_of_not_isJsonFile hfile _ _
      · simp [isJsonImport, Form.takes, hvalue]

/-- **Nothing is left to find.** -/
theorem found_addJsonAttributes (text : List Char) :
    Form.jsonImport.finder.found (addJsonAttributes text).text = [] := by
  have hcut := isCut_cut text
  set head := (cut text).1 with hhead
  set ss := (cut text).2 with hss
  have htext : (addJsonAttributes text).text =
      glue head (attributed (false :: jsonImports head ss) ss) := by
    rw [glue_attributed, ← behind, ← text_addJsonAttributes hcut, hhead, hss, glue_cut]
  have hcut' := isCut_attributed hcut (false :: jsonImports head ss)
  have hfound := Form.map_specifier_found hcut' .jsonImport
  rw [taken_jsonImport hcut'.quotes, picked_eq_nil (jsonImports_attributed false rfl ss)] at hfound
  rw [htext]
  exact List.map_eq_nil_iff.1 hfound

end EsmSource

end DualPackage
