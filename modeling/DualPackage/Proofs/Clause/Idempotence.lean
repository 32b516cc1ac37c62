import DualPackage.Proofs.Clause.Extension
import DualPackage.Proofs.Clause.Taken
/-!
# Giving extensions twice

Each half of the pass over extensions takes the same runs when it looks a
second time (`Form.taken_amend`), but the two halves together need not:
an extension that the pass over exports writes may close the lead of an
import, and the run behind that import, which its closing quote had hidden,
comes free. `appendExtensions_twice_iff` says that this is all that can
happen: the second application is idle exactly if no specifier that comes
free lacks its extension. `appendExtensions_twice_straddled` is a text on
which one does.
-/

namespace DualPackage

open Text Stretch

namespace Form

/-- For each stretch, whether its body stands between a lead and a quote,
and so is a specifier unless its opening quote closes another one. -/
def offers (form : Form) : List Char → List Stretch → List Bool
  | _, [] => []
  | _, [_] => [false]
  | ahead, s :: e :: rest =>
    form.takes ahead s.body (glue e.body rest) :: form.offers s.body (e :: rest)

/-- Of the offers, those taken from left to right, no two side by side. -/
def leftmost : Bool → List Bool → List Bool
  | _, [] => []
  | last, offer :: offers => (offer && !last) :: leftmost (offer && !last) offers

theorem offers_append_quote {form : Form} (hform : form.LeadsWithinQuotes) {x ahead : List Char}
    {q : Char} (hq : isQuote q) (ss : List Stretch) :
    form.offers (x ++ q :: ahead) ss = form.offers ahead ss := by
  match ss with
  | [] => rfl
  | [_] => rfl
  | s :: e :: rest => rw [offers, offers, takes, endsInLead_append_quote hform hq, ← takes]

/-- Where leads lie between two quotes, the scan takes each offer that does
not begin with the closing quote of another. -/
theorem taken_eq_leftmost {form : Form} (hform : form.LeadsWithinQuotes) (head : List Char)
    {ss : List Stretch} (hquotes : ∀ s ∈ ss, isQuote s.quote) :
    form.taken head ss = leftmost false (form.offers head ss) := by
  fun_induction taken form head ss with
  | case1 => rfl
  | case2 => rfl
  | case3 head s e rest htakes ih =>
    have hrest := ih fun s hs => hquotes s (by simp [hs])
    cases rest with
    | nil =>
      rw [glue_nil] at htakes
      simp [offers, leftmost, htakes, taken]
    | cons r rest =>
      simp only [offers, leftmost, htakes, Bool.not_false, Bool.and_true, Bool.not_true,
        Bool.and_false]
      rw [hrest]
  | case4 head s e rest htakes ih =>
    rw [Bool.not_eq_true] at htakes
    have hrest := ih fun s hs => hquotes s (by simp [hs])
    -- the quote of the next stretch hides what was read before it
    rw [offers_append_quote hform (hquotes s (by simp))] at hrest
    rw [hrest, offers, leftmost, htakes, Bool.false_and]

end Form

/-! ## One application -/

/-- The stretches of a cut that one of the two passes over extensions takes. -/
def reached (head : List Char) (ss : List Stretch) : List Bool :=
  let imports := Form.importFrom.taken head ss
  let exports := Form.exportFrom.taken head (amend Specifier.extended imports ss)
  List.zipWith (· || ·) imports exports

variable {head : List Char} {ss : List Stretch} {marks : List Bool} {form : Form}

@[simp] theorem length_amend (f : Specifier → Specifier) (h : marks.length = ss.length) :
    (amend f marks ss).length = ss.length := by
  simp [amend, h]

theorem isCut_extended (h : IsCut head ss) (marks : List Bool) :
    IsCut head (amend Specifier.extended marks ss) :=
  h.amend marks fun x hx => by
    by_cases hneeds : Specifier.needsExtension x
    · rw [Specifier.extended_of_needsExtension hneeds]
      have hext : ∀ c ∈ Specifier.scriptExtension, isQuote c = false :=
        List.all_iff_forall_prop.1 (by decide)
      simpa [or_imp, forall_and] using ⟨hx, hext⟩
    · rw [Bool.not_eq_true] at hneeds
      rwa [Specifier.extended_of_not_needsExtension hneeds]

/-- The pass over one form counts as a change if it takes a body that needs
its extension. -/
theorem revise_withScriptExtension (h : IsCut head ss) (form : Form) :
    form.revise Specifier.withScriptExtension? (glue head ss) =
      ⟨glue head (amend Specifier.extended (form.taken head ss) ss),
        (picked (form.taken head ss) ss).any Specifier.needsExtension⟩ := by
  rw [Form.revise_glue h]
  congr 2
  funext s
  by_cases hneeds : Specifier.needsExtension s
  · simp [Specifier.withScriptExtension?, hneeds, Specifier.scriptExtension]
  · simp [Specifier.withScriptExtension?, hneeds]

/-- One application extends the stretches reached. -/
theorem text_appendExtensions (h : IsCut head ss) :
    (appendExtensions (glue head ss)).text =
      glue head (amend Specifier.extended (reached head ss) ss) := by
  rw [appendExtensions, Revision.followedBy, revise_withScriptExtension h,
    revise_withScriptExtension (isCut_extended h _)]
  simp only
  rw [amend_amend Specifier.extended_extended (Form.length_taken ..) (by simp), reached]

/-- An application is idle if neither pass takes a body that needs its
extension. -/
theorem appendExtensions_eq_unchanged_iff (h : IsCut head ss) :
    appendExtensions (glue head ss) = .unchanged (glue head ss) ↔
      (∀ s ∈ picked (Form.importFrom.taken head ss) ss, Specifier.needsExtension s = false) ∧
        ∀ s ∈ picked (Form.exportFrom.taken head ss) ss, Specifier.needsExtension s = false := by
  have hidle : ∀ form : Form,
      (∀ s ∈ picked (form.taken head ss) ss, Specifier.needsExtension s = false) →
        amend Specifier.extended (form.taken head ss) ss = ss := fun form hform =>
    amend_eq_self (Form.length_taken ..) fun s hs =>
      Specifier.extended_of_not_needsExtension (hform s hs)
  rw [appendExtensions, Revision.followedBy, revise_withScriptExtension h,
    revise_withScriptExtension (isCut_extended h _)]
  simp only [Revision.unchanged, Revision.mk.injEq, Bool.or_eq_false_iff, List.any_eq_false,
    Bool.not_eq_true]
  -- an idle import pass hands the text on to the pass over exports as it was
  constructor
  · rintro ⟨-, himports, hexports⟩
    rw [hidle .importFrom himports] at hexports
    exact ⟨himports, hexports⟩
  · rintro ⟨himports, hexports⟩
    rw [hidle .importFrom himports, hidle .exportFrom hexports]
    exact ⟨rfl, himports, hexports⟩

/-! ## A second application -/

theorem admits_extended (hform : form = .importFrom ∨ form = .exportFrom) :
    form.Admits Specifier.extended := by
  intro s hs _
  refine ⟨(Specifier.all_inSpecifier_extended s).trans hs, ?_⟩
  rcases hform with rfl | rfl <;> rfl

/-- The stretches whose body has an extension written out. -/
def grown (reach : List Bool) (ss : List Stretch) : List Bool :=
  List.zipWith (fun reach s => reach && Specifier.needsExtension s.body) reach ss

/-- The bodies that a second application takes for specifiers and the first
did not. A body that was given an extension is no lead of what follows, so
the import pass has no offer there. -/
def freed (text : List Char) : List Specifier :=
  let head := (cut text).1
  let ss := (cut text).2
  let reach := reached head ss
  let offers := List.zipWith (fun offer grown => offer && !grown)
    (Form.importFrom.offers head ss) (false :: grown reach ss)
  picked (List.zipWith (fun again reach => again && !reach) (Form.leftmost false offers) reach) ss

/-- After one application, nothing is left to do for the pass over exports. -/
theorem appendExtensions_twice_iff_imports (h : IsCut head ss) :
    let once := amend Specifier.extended (reached head ss) ss
    appendExtensions (glue head once) = .unchanged (glue head once) ↔
      ∀ s ∈ picked (Form.importFrom.taken head once) once, Specifier.needsExtension s = false := by
  intro once
  have honce : once = amend Specifier.extended (Form.exportFrom.taken head
      (amend Specifier.extended (Form.importFrom.taken head ss) ss))
      (amend Specifier.extended (Form.importFrom.taken head ss) ss) :=
    (amend_amend Specifier.extended_extended (Form.length_taken ..) (by simp)).symm
  -- what the pass over exports takes now it took before, and extended
  have hexports : ∀ s ∈ picked (Form.exportFrom.taken head once) once,
      Specifier.needsExtension s = false := by
    rw [honce, Form.taken_amend (by decide) (admits_extended (.inr rfl)), picked_amend]
    simp
  rw [appendExtensions_eq_unchanged_iff (isCut_extended h _)]
  exact and_iff_left hexports

/-- Behind an extension no lead ends. -/
theorem endsInLead_extended (form : Form) (s : Specifier) :
    form.endsInLead none (Specifier.extended s) =
      (form.endsInLead none s && !Specifier.needsExtension s) := by
  by_cases hneeds : Specifier.needsExtension s
  · have hblank : isBlank 's' = false := by decide
    rw [hneeds, Specifier.extended_of_needsExtension hneeds, Bool.not_true, Bool.and_false]
    refine Form.endsInLead_eq_false_of_dropWhile (fun rest => ?_) form
    simp [Specifier.scriptExtension, hblank]
  · rw [Bool.not_eq_true] at hneeds
    rw [hneeds, Specifier.extended_of_not_needsExtension hneeds, Bool.not_false, Bool.and_true]

/-- On bodies that were given extensions, the import pass has the offers it
had, but for those behind such a body. -/
theorem offers_extended {head' : List Char} {closed : Bool} (hlen : marks.length = ss.length)
    (hhead : Form.importFrom.endsInLead none head' =
      (Form.importFrom.endsInLead none head && !closed)) :
    Form.importFrom.offers head' (amend Specifier.extended marks ss) =
      List.zipWith (fun offer grown => offer && !grown) (Form.importFrom.offers head ss)
        (closed :: grown marks ss) := by
  induction ss generalizing head head' closed marks with
  | nil => simp [Form.offers]
  | cons s ss ih =>
    obtain ⟨mark, marks, rfl⟩ := List.exists_cons_of_length_eq_add_one hlen
    cases ss with
    | nil => simp [Form.offers]
    | cons e ss =>
      obtain ⟨mark', marks, rfl⟩ := List.exists_cons_of_length_eq_add_one (by simpa using hlen)
      have hclosed : Form.importFrom.endsInLead none
          (if mark then { s with body := Specifier.extended s.body } else s).body =
          (Form.importFrom.endsInLead none s.body &&
            !(mark && Specifier.needsExtension s.body)) := by
        cases mark with
        | false => simp
        | true => exact endsInLead_extended .importFrom s.body
      have hbody : (if mark then { s with body := Specifier.extended s.body } else s).body.all
          inSpecifier = s.body.all inSpecifier := by
        cases mark <;> simp
      have hmarks : (mark' :: marks).length = (e :: ss).length := by simpa using hlen
      have hrest := ih hmarks hclosed
      rw [amend_cons, amend_cons] at *
      simp only [Form.offers, hrest, grown, List.zipWith_cons_cons, Form.takes, hhead, hbody,
        Form.accepts, Bool.and_true]
      rw [Bool.and_right_comm]

/-- Among the bodies a scan takes, those extended before need nothing. -/
theorem picked_needsExtension_iff {again : List Bool} (hlen : marks.length = ss.length) :
    (∀ s ∈ picked again (amend Specifier.extended marks ss), Specifier.needsExtension s = false) ↔
      ∀ s ∈ picked (List.zipWith (fun again mark => again && !mark) again marks) ss,
        Specifier.needsExtension s = false := by
  induction ss generalizing marks again with
  | nil => cases again <;> simp [picked]
  | cons s ss ih =>
    obtain ⟨mark, marks, rfl⟩ := List.exists_cons_of_length_eq_add_one hlen
    cases again with
    | nil => simp [picked]
    | cons take again =>
      have hrest : (∀ s ∈ picked again (amend Specifier.extended marks ss),
          Specifier.needsExtension s = false) ↔
            ∀ s ∈ picked (List.zipWith (fun again mark => again && !mark) again marks) ss,
              Specifier.needsExtension s = false := ih (by simpa using hlen)
      cases take
      · simpa [picked] using hrest
      · cases mark
        · simpa [picked] using fun _ => hrest
        · simpa [picked] using hrest

/-- **When giving extensions twice is giving them once.** The second
application changes nothing exactly if no specifier that it frees lacks its
extension. -/
theorem appendExtensions_twice_iff (text : List Char) :
    appendExtensions (appendExtensions text).text = .unchanged (appendExtensions text).text ↔
      ∀ s ∈ freed text, Specifier.needsExtension s = false := by
  have hcut := isCut_cut text
  have hlen : (reached (cut text).1 (cut text).2).length = (cut text).2.length := by
    simp [reached]
  have hclosed : Form.importFrom.endsInLead none (cut text).1 =
      (Form.importFrom.endsInLead none (cut text).1 && !false) := by
    simp
  have honce := text_appendExtensions hcut
  rw [glue_cut] at honce
  rw [honce]
  refine (appendExtensions_twice_iff_imports hcut).trans ?_
  rw [Form.taken_eq_leftmost (Form.leadsWithinQuotes_of_ne (by decide)) _
    (isCut_extended hcut _).quotes, offers_extended hlen hclosed, picked_needsExtension_iff hlen]
  rfl

/-- A comment in which the specifier of an export ends in the lead of an
import, and the import behind it hides another one. -/
def straddled : List Char :=
  "// export \x7b x \x7d from './a import b from 'import c from './y'\n".toList

/-- **Two applications can differ from one.** The first extends the specifier
of the export only, the second frees `./y`. -/
theorem appendExtensions_twice_straddled :
    (appendExtensions straddled).text =
        "// export \x7b x \x7d from './a import b from .js'import c from './y'\n".toList ∧
      (appendExtensions (appendExtensions straddled).text).text =
        "// export \x7b x \x7d from './a import b from .js'import c from './y.js'\n".toList ∧
      appendExtensions (appendExtensions straddled).text ≠
        .unchanged (appendExtensions straddled).text := by
  decide +kernel

end DualPackage
