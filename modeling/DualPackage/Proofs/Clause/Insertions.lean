import DualPackage.Proofs.Clause.Idempotence
import DualPackage.Proofs.Clause.Occurrences
/-!
# What the pass over extensions inserts

The two halves of the pass over extensions work on different texts, and a
clause of the one may overlap a clause of the other. Seen from the text
before them, they do nothing but insert the extension at places that lie
directly in front of the closing quote of a `from` clause, and at no place
twice (`appendExtensions_inserts`). The places are the ends of the stretches
reached whose body needs an extension (`Stretch.ends`, `grown`).
-/

namespace DualPackage

open Text Stretch

namespace Stretch

variable {head ending : List Char} {ss : List Stretch} {marks : List Bool} {k n p : ℕ}

/-- The places where the stretches end, the first of which begins at the
place `k`. -/
def ends : ℕ → List Stretch → List ℕ
  | _, [] => []
  | k, s :: ss => (k + 1 + s.body.length) :: ends (k + 1 + s.body.length) ss

@[simp] theorem length_ends (k : ℕ) (ss : List Stretch) : (ends k ss).length = ss.length := by
  induction ss generalizing k with
  | nil => rfl
  | cons s ss ih => simp [ends, ih]

theorem lt_of_mem_ends (h : p ∈ ends k ss) : k < p := by
  induction ss generalizing k with
  | nil => cases h
  | cons s ss ih =>
    rcases List.mem_cons.1 h with rfl | h
    · omega
    · have := ih h
      omega

theorem pairwise_ends (k : ℕ) (ss : List Stretch) : (ends k ss).Pairwise (· < ·) := by
  induction ss generalizing k with
  | nil => exact .nil
  | cons s ss ih => exact List.pairwise_cons.2 ⟨fun p hp => lt_of_mem_ends hp, ih _⟩

theorem exists_stretch_of_ends (h : (ends k ss)[n]? = some p) :
    ∃ pre s post, ss = pre ++ s :: post ∧ pre.length = n ∧
      p = k + (glue [] pre).length + 1 + s.body.length := by
  induction ss generalizing k n with
  | nil => cases h
  | cons s ss ih =>
    cases n with
    | zero =>
      obtain rfl : k + 1 + s.body.length = p := by simpa [ends] using h
      exact ⟨[], s, ss, rfl, rfl, by simp⟩
    | succ n =>
      obtain ⟨pre, s', post, rfl, rfl, rfl⟩ := ih (k := k + 1 + s.body.length) h
      refine ⟨s :: pre, s', post, rfl, rfl, ?_⟩
      have hglue := glue_append_head s.body [] pre
      rw [List.append_nil] at hglue
      simp only [glue_cons, List.nil_append, hglue, List.length_cons, List.length_append]
      omega

/-- **Insertions at the ends of the marked stretches** append to their
bodies. -/
theorem edited_insertions_ends (ending : List Char) (hlen : marks.length = ss.length) (k : ℕ) :
    edited k (insertions ending (selected marks (ends k ss))) (glue [] ss) =
      glue [] (amend (· ++ ending) marks ss) := by
  induction ss generalizing marks k with
  | nil => cases marks <;> simp [ends, selected, insertions]
  | cons s ss ih =>
    obtain ⟨mark, marks, rfl⟩ := List.exists_cons_of_length_eq_add_one hlen
    have hrest := ih (by simpa using hlen : marks.length = ss.length) (k + 1 + s.body.length)
    have hbody : ∀ (body : List Char) ss, glue body ss = body ++ glue [] ss := fun body ss => by
      rw [← glue_append_head, List.append_nil]
    have hplace : k + (s.quote :: s.body).length = k + 1 + s.body.length := by
      simp only [List.length_cons]
      omega
    rw [amend_cons, ends, glue_cons, glue_cons, hbody s.body, List.nil_append, List.nil_append]
    cases mark with
    | true =>
      have hedit := edited_cons ⟨k + 1 + s.body.length, 0, ending⟩
        (insertions ending (selected marks (ends (k + 1 + s.body.length) ss)))
        (s.quote :: s.body) [] (glue [] ss) hplace.symm rfl
      simp only [Nat.add_zero, hrest] at hedit
      simpa [selected, insertions, hbody (s.body ++ ending)] using hedit
    | false =>
      have hfirst : ∀ e ∈ (insertions ending
          (selected marks (ends (k + 1 + s.body.length) ss))).head?,
          k + (s.quote :: s.body).length ≤ e.place := by
        rw [hplace]
        exact le_place_of_mem_head?_insertions fun p hp =>
          (lt_of_mem_ends (mem_of_mem_selected hp)).le
      have hkept := edited_append (s.quote :: s.body) (glue [] ss) hfirst
      rw [hplace, hrest] at hkept
      simpa [selected, hbody s.body] using hkept

end Stretch

/-! ## The stretches that grow -/

variable {head : List Char} {ss pre post : List Stretch} {s : Stretch} {marks marks' : List Bool}
  {form : Form}

@[simp] theorem length_grown (hlen : marks.length = ss.length) :
    (grown marks ss).length = ss.length := by
  simp [grown, hlen]

theorem amend_extended (hlen : marks.length = ss.length) :
    amend Specifier.extended marks ss =
      amend (· ++ Specifier.scriptExtension) (grown marks ss) ss := by
  induction ss generalizing marks with
  | nil => simp
  | cons s ss ih =>
    obtain ⟨mark, marks, rfl⟩ := List.exists_cons_of_length_eq_add_one hlen
    have hrest := ih (by simpa using hlen : marks.length = ss.length)
    rw [grown] at hrest
    rw [grown, List.zipWith_cons_cons, amend_cons, amend_cons, hrest]
    cases mark with
    | false => simp
    | true =>
      by_cases hneeds : Specifier.needsExtension s.body
      · simp [hneeds, Specifier.extended_of_needsExtension hneeds]
      · rw [Bool.not_eq_true] at hneeds
        simp [hneeds, Specifier.extended_of_not_needsExtension hneeds]

/-- As many stretches grow as bodies among those marked need an extension. -/
theorem length_selected_grown (hlen : marks.length = ss.length) :
    (selected (grown marks ss) ss).length =
      (picked marks ss).countP Specifier.needsExtension := by
  induction ss generalizing marks with
  | nil => cases marks <;> simp [selected, picked, grown]
  | cons s ss ih =>
    obtain ⟨mark, marks, rfl⟩ := List.exists_cons_of_length_eq_add_one hlen
    have hrest := ih (by simpa using hlen : marks.length = ss.length)
    rw [grown] at hrest
    cases mark <;> by_cases hneeds : Specifier.needsExtension s.body <;>
      simp [grown, selected, picked, hneeds, hrest]

/-- A second choice adds those bodies that the first has not extended. -/
theorem countP_picked_or (hlen : marks.length = ss.length) (hlen' : marks'.length = ss.length) :
    (picked (List.zipWith (· || ·) marks marks') ss).countP Specifier.needsExtension =
      (picked marks ss).countP Specifier.needsExtension +
        (picked marks' (amend Specifier.extended marks ss)).countP Specifier.needsExtension := by
  induction ss generalizing marks marks' with
  | nil => cases marks <;> cases marks' <;> simp [picked]
  | cons s ss ih =>
    obtain ⟨mark, marks, rfl⟩ := List.exists_cons_of_length_eq_add_one hlen
    obtain ⟨mark', marks', rfl⟩ := List.exists_cons_of_length_eq_add_one hlen'
    have hrest := ih (by simpa using hlen : marks.length = ss.length)
      (by simpa using hlen' : marks'.length = ss.length)
    cases mark <;> cases mark' <;>
      simp only [picked, List.zipWith_cons_cons, amend_cons, List.countP_cons, hrest,
        Specifier.needsExtension_extended, Bool.or_true, Bool.or_false, Bool.false_eq_true,
        if_true, if_false] <;> omega

/-! ## What stands in front of them -/

/-- A text that ends in some lead ends in that of a `from` clause. -/
theorem Form.endsInLead_anyFrom {before : Option Char} {text : List Char}
    (h : form.endsInLead before text) : Form.anyFrom.endsInLead before text := by
  obtain ⟨x, lead, rfl, hlead, hopens⟩ := Form.endsInLead_iff.1 h
  obtain ⟨y, source, rfl, hsource, hboundary⟩ := Form.exists_fromLead_of_isLead hlead
  refine Form.endsInLead_iff.2 ⟨x ++ y, source, by simp, hsource, ?_⟩
  rw [charBefore_append]
  exact hboundary _ hopens

/-- Behind the last quote, a `from` clause does not see what is in front. -/
theorem anyFrom_endsInLead_glue {q : Char} (hq : isQuote q) (x : List Char) (ss : List Stretch)
    (body : List Char) :
    Form.anyFrom.endsInLead none (glue (x ++ q :: body) ss) =
      Form.anyFrom.endsInLead none (glue body ss) := by
  rw [show x ++ q :: body = x ++ [q] ++ body by simp, glue_append_head, List.append_assoc,
    List.singleton_append,
    Form.endsInLead_append_quote (Form.leadsWithinQuotes_of_ne (by decide)) hq]

/-- What a form takes stands between a `from` and a quote. -/
theorem Form.exists_from_of_taken (hquotes : ∀ t ∈ pre ++ s :: post, isQuote t.quote)
    (htaken : (form.taken head (pre ++ s :: post))[pre.length]? = some true) :
    ∃ e rest, post = e :: rest ∧ Form.anyFrom.endsInLead none (glue head pre) ∧
      s.body.all inSpecifier := by
  generalize hss : pre ++ s :: post = ss at htaken hquotes
  fun_induction Form.taken form head ss generalizing pre with
  | case1 => simp at hss
  | case2 =>
    cases pre with
    | nil => cases htaken
    | cons p pre => simp at hss
  | case3 head s₀ e₀ rest₀ htakes ih =>
    -- a run that is taken, its closing quote, or a later one
    rcases pre with - | ⟨p, - | ⟨p', pre⟩⟩
    · obtain ⟨rfl, rfl⟩ : s = s₀ ∧ post = e₀ :: rest₀ := by simpa using hss
      simp only [Form.takes, Bool.and_eq_true] at htakes
      exact ⟨e₀, rest₀, rfl, Form.endsInLead_anyFrom htakes.1.1, htakes.1.2⟩
    · cases htaken
    · obtain ⟨rfl, rfl, rfl⟩ : p = s₀ ∧ p' = e₀ ∧ pre ++ s :: post = rest₀ := by
        simpa using hss
      obtain ⟨e, rest, hpost, hends, hbody⟩ :=
        ih rfl htaken fun t ht => hquotes t (List.mem_cons_of_mem _ (List.mem_cons_of_mem _ ht))
      refine ⟨e, rest, hpost, ?_, hbody⟩
      rwa [glue_cons, glue_cons, ← List.cons_append, ← List.append_assoc,
        Form.endsInLead_append_quote (Form.leadsWithinQuotes_of_ne (by decide))
          (hquotes p' (by simp))]
  | case4 head s₀ e₀ rest₀ htakes ih =>
    cases pre with
    | nil => cases htaken
    | cons p pre =>
      obtain ⟨rfl, hrest⟩ : p = s₀ ∧ pre ++ s :: post = e₀ :: rest₀ := by simpa using hss
      obtain ⟨e, rest, hpost, hends, hbody⟩ :=
        ih hrest htaken fun t ht => hquotes t (List.mem_cons_of_mem _ ht)
      refine ⟨e, rest, hpost, ?_, hbody⟩
      rw [anyFrom_endsInLead_glue (hquotes p (by simp))] at hends
      rwa [glue_cons, Form.endsInLead_append_quote (Form.leadsWithinQuotes_of_ne (by decide))
        (hquotes p (by simp))]

/-- Where a `from` stands after some bodies were extended, it stood before. -/
theorem endsInLead_of_extended (hcut : IsCut head pre) (hlen : marks.length = pre.length)
    (h : Form.anyFrom.endsInLead none (glue head (amend Specifier.extended marks pre))) :
    Form.anyFrom.endsInLead none (glue head pre) := by
  rcases List.eq_nil_or_concat pre with rfl | ⟨init, l, rfl⟩
  · simpa using h
  · obtain ⟨marks, mark, rfl⟩ : ∃ ms m, marks = ms ++ [m] := by
      rcases List.eq_nil_or_concat marks with rfl | ⟨ms, m, rfl⟩
      · simp at hlen
      · exact ⟨ms, m, by simp⟩
    have hinit : marks.length = init.length := by simpa using hlen
    have hq : isQuote l.quote := hcut.quotes l (by simp)
    have hwithin : Form.anyFrom.LeadsWithinQuotes := Form.leadsWithinQuotes_of_ne (by decide)
    have hamend : amend Specifier.extended (marks ++ [mark]) (init ++ [l]) =
        amend Specifier.extended marks init ++
          [if mark then { l with body := Specifier.extended l.body } else l] := by
      simp [amend, List.zipWith_append hinit]
    rw [List.concat_eq_append, hamend, glue_append] at h
    rw [List.concat_eq_append, glue_append, Form.endsInLead_append_quote hwithin hq, glue_nil]
    cases mark with
    | false =>
      rwa [if_neg (by simp), Form.endsInLead_append_quote hwithin hq, glue_nil] at h
    | true =>
      rw [if_pos rfl, Form.endsInLead_append_quote hwithin hq, glue_nil, endsInLead_extended,
        Bool.and_eq_true] at h
      exact h.1

/-- The same where some bodies have been extended before the scan. -/
theorem Form.exists_from_of_taken_extended (hcut : IsCut head (pre ++ s :: post))
    (hlen : marks.length = (pre ++ s :: post).length)
    (htaken : (form.taken head (amend Specifier.extended marks (pre ++ s :: post)))[pre.length]? =
      some true) :
    ∃ e rest, post = e :: rest ∧ Form.anyFrom.endsInLead none (glue head pre) ∧
      s.body.all inSpecifier := by
  obtain ⟨before, mark, behind, rfl, hbefore⟩ : ∃ before mark behind,
      marks = before ++ mark :: behind ∧ before.length = pre.length := by
    have hlt : pre.length < marks.length := by simp [hlen]
    exact ⟨marks.take pre.length, marks[pre.length], marks.drop (pre.length + 1), by simp,
      by simp [hlen]⟩
  have hamend : amend Specifier.extended (before ++ mark :: behind) (pre ++ s :: post) =
      amend Specifier.extended before pre ++
        (if mark then { s with body := Specifier.extended s.body } else s) ::
          amend Specifier.extended behind post := by
    simp [amend, List.zipWith_append hbefore]
  have hcut' := isCut_extended hcut (before ++ mark :: behind)
  rw [hamend] at htaken hcut'
  rw [← length_amend Specifier.extended hbefore] at htaken
  obtain ⟨e', rest', hpost, hends, hbody⟩ := Form.exists_from_of_taken hcut'.quotes htaken
  have hpre : IsCut head pre :=
    ⟨hcut.head_free, fun t ht => hcut.quotes t (by simp [ht]),
      fun t ht => hcut.bodies_free t (by simp [ht])⟩
  obtain ⟨e, rest, rfl⟩ : ∃ e rest, post = e :: rest := List.exists_cons_of_ne_nil (by
    rintro rfl
    simp at hpost)
  refine ⟨e, rest, rfl, endsInLead_of_extended hpre hbefore hends, ?_⟩
  cases mark with
  | false => simpa using hbody
  | true => simpa using hbody

/-- **What grows is the specifier of a `from` clause.** -/
theorem exists_from_of_grown (hcut : IsCut head (pre ++ s :: post))
    (h : (grown (reached head (pre ++ s :: post)) (pre ++ s :: post))[pre.length]? = some true) :
    ∃ e rest, post = e :: rest ∧ Form.anyFrom.takes (glue head pre) s.body (glue e.body rest) ∧
      Specifier.needsExtension s.body := by
  set ss := pre ++ s :: post with hss
  set imports := Form.importFrom.taken head ss with himports
  have hlen : imports.length = ss.length := Form.length_taken ..
  -- the mark is one of the two scans, and the body needs an extension
  obtain ⟨hmarked, hneeds⟩ : (imports[pre.length]? = some true ∨
      (Form.exportFrom.taken head (amend Specifier.extended imports ss))[pre.length]? = some true) ∧
        Specifier.needsExtension s.body := by
    rw [grown, List.getElem?_zipWith, show ss[pre.length]? = some s by simp [hss]] at h
    cases hreached : (reached head ss)[pre.length]? with
    | none =>
      rw [hreached] at h
      cases h
    | some mark =>
      obtain ⟨rfl, hneeds⟩ : mark = true ∧ Specifier.needsExtension s.body := by
        simpa [hreached] using h
      exact ⟨getElem?_zipWith_or hreached, hneeds⟩
  obtain ⟨e, rest, hpost, hends, hbody⟩ : ∃ e rest, post = e :: rest ∧
      Form.anyFrom.endsInLead none (glue head pre) ∧ s.body.all inSpecifier :=
    hmarked.elim (Form.exists_from_of_taken hcut.quotes)
      (Form.exists_from_of_taken_extended hcut hlen)
  have hne : s.body.isEmpty = false := by
    cases hempty : s.body with
    | nil =>
      rw [hempty] at hneeds
      cases hneeds
    | cons c body => rfl
  exact ⟨e, rest, hpost, by simp [Form.takes, Form.accepts, hends, hbody, hne], hneeds⟩

/-! ## The places of the insertions -/

/-- The places at which the pass over extensions inserts. -/
def extensionPlaces (text : List Char) : List ℕ :=
  let head := (cut text).1
  let ss := (cut text).2
  selected (grown (reached head ss) ss) (ends head.length ss)

variable {text : List Char} {p : ℕ}

theorem text_appendExtensions_eq_edited (text : List Char) :
    (appendExtensions text).text =
      edited 0 (insertions Specifier.scriptExtension (extensionPlaces text)) text := by
  have hcut := isCut_cut text
  set head := (cut text).1 with hhead
  set ss := (cut text).2 with hss
  have hlen : (reached head ss).length = ss.length := by simp [reached]
  have hglue : ∀ ss', glue head ss' = head ++ glue [] ss' := fun ss' => by
    rw [← glue_append_head, List.append_nil]
  have hfirst : ∀ e ∈ (insertions Specifier.scriptExtension (extensionPlaces text)).head?,
      0 + head.length ≤ e.place := by
    rw [Nat.zero_add]
    exact le_place_of_mem_head?_insertions fun p hp =>
      (lt_of_mem_ends (mem_of_mem_selected hp)).le
  have htext : text = head ++ glue [] ss := by rw [← hglue, hhead, hss, glue_cut]
  calc (appendExtensions text).text
      = (appendExtensions (glue head ss)).text := by rw [hhead, hss, glue_cut]
    _ = head ++ glue [] (amend (· ++ Specifier.scriptExtension)
          (grown (reached head ss) ss) ss) := by
      rw [text_appendExtensions hcut, amend_extended hlen, hglue]
    _ = head ++ edited head.length
          (insertions Specifier.scriptExtension (extensionPlaces text)) (glue [] ss) := by
      rw [extensionPlaces, ← hhead, ← hss, edited_insertions_ends _ (length_grown hlen)]
    _ = edited 0 (insertions Specifier.scriptExtension (extensionPlaces text))
          (head ++ glue [] ss) := by rw [edited_append _ _ hfirst, Nat.zero_add]
    _ = edited 0 (insertions Specifier.scriptExtension (extensionPlaces text)) text := by
      rw [← htext]

theorem pairwise_extensionPlaces (text : List Char) :
    (extensionPlaces text).Pairwise (· < ·) :=
  (pairwise_ends _ _).sublist (selected_sublist _ _)

/-- **Each place closes the specifier of a `from` clause** that needs its
extension. -/
theorem exists_occurs_of_mem_extensionPlaces (h : p ∈ extensionPlaces text) :
    ∃ i c, Form.anyFrom.Occurs text i c ∧ c.specifier.needsExtension ∧
      p + 1 = i + c.text.length := by
  have hcut := isCut_cut text
  obtain ⟨n, hmark, hplace⟩ := exists_of_mem_selected h
  obtain ⟨pre, s, post, hss, rfl, rfl⟩ := exists_stretch_of_ends hplace
  have hglue := glue_cut text
  rw [hss] at hcut hmark hglue
  obtain ⟨e, rest, rfl, htakes, hneeds⟩ := exists_from_of_grown hcut hmark
  obtain ⟨x, lead, hx, -, hfind⟩ := Form.exists_find?_of_takes (rfl : opensWord none = true) hcut htakes
  refine ⟨x.length, ⟨lead, ⟨s.quote, s.body, e.quote⟩⟩, Form.occurs_iff.2
    ⟨x, lead ++ s.quote :: (s.body ++ e.quote :: glue e.body rest), ?_, rfl, hfind⟩, hneeds, ?_⟩
  · rw [← hglue, glue_append, glue_cons, hx, List.append_assoc]
  · have hlen := congrArg List.length hx
    have hpre := congrArg List.length (glue_append_head (cut text).1 [] pre)
    rw [List.append_nil] at hpre
    simp only [List.length_append] at hlen hpre
    simp only [Clause.text, QuotedRun.text, List.length_append, List.length_cons, List.length_nil]
    omega

theorem le_length_of_mem_extensionPlaces (h : p ∈ extensionPlaces text) : p ≤ text.length := by
  obtain ⟨i, c, ⟨x, after, rfl, rfl, -⟩, -, hp⟩ := exists_occurs_of_mem_extensionPlaces h
  simp only [List.length_append]
  omega

/-- Deleting the extensions gives the text back. -/
theorem deletions_appendExtensions (text : List Char) :
    edited 0 (deletions Specifier.scriptExtension.length 0 (extensionPlaces text))
      (appendExtensions text).text = text := by
  rw [text_appendExtensions_eq_edited]
  exact edited_deletions_insertions _ ((pairwise_extensionPlaces text).imp fun h => h.le)
    fun p hp => le_length_of_mem_extensionPlaces hp

/-- There are as many places as clauses that either half of the pass finds
in need of an extension. -/
theorem length_extensionPlaces (text : List Char) :
    (extensionPlaces text).length =
      (Form.importFrom.finder.found text).countP (·.specifier.needsExtension) +
        (Form.exportFrom.finder.found
          (Form.importFrom.revise Specifier.withScriptExtension? text).text).countP
            (·.specifier.needsExtension) := by
  have hcut := isCut_cut text
  set head := (cut text).1 with hhead
  set ss := (cut text).2 with hss
  have hlen : (reached head ss).length = ss.length := by simp [reached]
  have himports := Form.map_specifier_found hcut .importFrom
  have hexports := Form.map_specifier_found
    (isCut_extended hcut (Form.importFrom.taken head ss)) .exportFrom
  have htext := congrArg Revision.text (revise_withScriptExtension hcut .importFrom)
  have hcounts : ∀ clauses : List Clause, clauses.countP (·.specifier.needsExtension) =
      (clauses.map Clause.specifier).countP Specifier.needsExtension := fun clauses => by
    rw [List.countP_map]
    rfl
  rw [hhead, hss, glue_cut] at himports htext
  rw [htext, hcounts, hcounts, himports, ← hhead, ← hss, hexports, extensionPlaces, ← hhead, ← hss,
    length_selected_congr (length_ends _ _), length_selected_grown hlen, reached]
  exact countP_picked_or (by simp) (by simp)

/-- A change is counted exactly if something is inserted. -/
theorem changed_appendExtensions_iff (text : List Char) :
    (appendExtensions text).changed ↔ extensionPlaces text ≠ [] := by
  have hany : ∀ (form : Form) (text : List Char),
      (form.revise Specifier.withScriptExtension? text).changed ↔
        0 < (form.finder.found text).countP (·.specifier.needsExtension) := by
    intro form text
    rw [List.countP_pos_iff]
    have hrevised : ∀ c : Clause, Clause.isRevised Specifier.withScriptExtension? c =
        c.specifier.needsExtension := by
      intro c
      by_cases hneeds : c.specifier.needsExtension
      · simp [Clause.isRevised, Specifier.withScriptExtension?, hneeds, Specifier.scriptExtension]
      · simp [Clause.isRevised, Specifier.withScriptExtension?, hneeds]
    simp [Form.revise, hrevised]
  rw [← List.length_pos_iff, length_extensionPlaces, appendExtensions, Revision.followedBy,
    Bool.or_eq_true, hany, hany]
  omega

/-! ## Runs that are left alone -/

/-- A text ends where the argument of a call of `import` begins. -/
def OpensCall (x : List Char) : Prop :=
  ∃ w gap gap', x = w ++ importWord ++ gap ++ '(' :: gap' ∧ (∀ c ∈ gap, isBlank c) ∧
    ∀ c ∈ gap', isBlank c

theorem not_opensCall_of_isFromLead {x lead : List Char} (h : Form.IsFromLead lead) :
    ¬ OpensCall (x ++ lead) := by
  rintro ⟨w, gap, gap', heq, -, hgap'⟩
  have hfrom := Form.dropWhile_reverse_of_isFromLead h x
  have hparen : isBlank '(' = false := by decide
  have hcall : (w ++ importWord ++ gap ++ '(' :: gap').reverse.dropWhile isBlank =
      '(' :: (w ++ importWord ++ gap).reverse := by
    rw [List.reverse_append, List.reverse_cons, List.append_assoc, List.singleton_append]
    exact dropWhile_append_stop (by simpa using hgap') (by simpa using hparen)
  rw [heq, hcall] at hfrom
  simp at hfrom

/-- What stands behind the last quote of a text, and what in front of it. -/
theorem quote_append_inj {x x' r r' : List Char} {q q' : Char} (hq : isQuote q) (hq' : isQuote q')
    (hr : ∀ c ∈ r, isQuote c = false) (hr' : ∀ c ∈ r', isQuote c = false)
    (h : x ++ q :: r = x' ++ q' :: r') : x = x' ∧ r = r' := by
  have hlast : ∀ {q : Char} {r : List Char} (x : List Char), isQuote q →
      (∀ c ∈ r, isQuote c = false) →
        (x ++ q :: r).reverse.dropWhile (fun c => !isQuote c) = q :: x.reverse := by
    intro q r x hq hr
    rw [List.reverse_append, List.reverse_cons, List.append_assoc, List.singleton_append]
    exact dropWhile_append_stop (by simpa using hr) (by simpa using hq)
  have hreverse : q :: x.reverse = q' :: x'.reverse := by
    rw [← hlast x hq hr, ← hlast x' hq' hr', h]
  obtain ⟨rfl, rfl⟩ : q = q' ∧ x = x' := by simpa using hreverse
  simpa using h

/-- The one quote behind the opening quote of a run is that which closes it. -/
theorem eq_closing_of_quote {x r y : List Char} {o q : Char} (hr : ∀ c ∈ r, isQuote c = false)
    (hquote : (x ++ o :: (r ++ y))[p]? = some q) (hq : isQuote q) (hlo : x.length < p)
    (hhi : p ≤ x.length + 1 + r.length) : p = x.length + 1 + r.length := by
  by_contra hne
  obtain ⟨n, rfl⟩ : ∃ n, p = x.length + (n + 1) := ⟨p - x.length - 1, by omega⟩
  rw [List.getElem?_append_right (by omega), Nat.add_sub_cancel_left, List.getElem?_cons_succ,
    List.getElem?_append_left (by omega)] at hquote
  rw [hr q (List.mem_of_getElem? hquote)] at hq
  cases hq

/-- **No insertion falls into a run that needs none.** -/
theorem apart_of_mem_extensionPlaces {x y : List Char} {run : QuotedRun}
    (htext : text = x ++ (run.text ++ y)) (ho : isQuote run.openQuote)
    (hrun : ∀ c ∈ run.specifier, isQuote c = false)
    (h : run.specifier.needsExtension = false ∨ OpensCall x) (hp : p ∈ extensionPlaces text) :
    p ≤ x.length ∨ x.length + run.text.length ≤ p := by
  obtain ⟨i, c, ⟨x', after, htext', rfl, -, hlead, hproper, -⟩, hneeds, hlen⟩ :=
    exists_occurs_of_mem_extensionPlaces hp
  by_contra hinside
  simp only [Clause.text, QuotedRun.text, List.length_append, List.length_cons,
    List.length_nil] at hlen hinside
  have hclause : text = (x' ++ c.lead ++ c.quoted.openQuote :: c.quoted.specifier) ++
      c.quoted.closeQuote :: after := by
    rw [htext']
    simp [Clause.text, QuotedRun.text]
  have hquoted : text = x ++ run.openQuote :: (run.specifier ++ run.closeQuote :: y) := by
    rw [htext]
    simp [QuotedRun.text]
  have hplace : p = (x' ++ c.lead ++ c.quoted.openQuote :: c.quoted.specifier).length := by
    simp only [List.length_append, List.length_cons]
    omega
  -- the quote that closes the clause closes the run
  have hquote : text[p]? = some c.quoted.closeQuote := by
    rw [hclause, hplace, List.getElem?_append_right le_rfl]
    simp
  have hclosing : p = x.length + 1 + run.specifier.length :=
    eq_closing_of_quote hrun (hquoted ▸ hquote) hproper.closes (by omega) (by omega)
  have hprefix : x' ++ c.lead ++ c.quoted.openQuote :: c.quoted.specifier =
      x ++ run.openQuote :: run.specifier := by
    have hsplit : x ++ run.openQuote :: (run.specifier ++ run.closeQuote :: y) =
        (x ++ run.openQuote :: run.specifier) ++ run.closeQuote :: y := by simp
    refine List.append_inj_left (hclause.symm.trans (hquoted.trans hsplit)) ?_
    rw [← hplace, hclosing]
    simp only [List.length_append, List.length_cons]
    omega
  obtain ⟨rfl, hspec⟩ := quote_append_inj hproper.opens ho
    (fun c' hc' => isQuote_eq_false_of_inSpecifier (hproper.inside c' hc')) hrun hprefix
  rcases h with hneedless | hcall
  · rw [← hspec] at hneedless
    rw [Clause.specifier, hneedless] at hneeds
    cases hneeds
  · exact not_opensCall_of_isFromLead hlead hcall

/-- **The pass over extensions only inserts.** It writes `.js` at some places
of the text, at none twice, each in front of the quote that closes the
specifier of a `from` clause that lacks its extension. So deleting what was
inserted gives the text back, and nothing is inserted into a run between two
neighbouring quotes that needs no extension or is the argument of a call of
`import`. A change is counted exactly if there is an insertion, and there
are as many as clauses in need of one that the two scans find. -/
theorem appendExtensions_inserts (text : List Char) :
    ∃ places : List ℕ, places.Pairwise (· < ·) ∧
      (appendExtensions text).text =
        edited 0 (insertions Specifier.scriptExtension places) text ∧
      (∀ p ∈ places, ∃ i c, Form.anyFrom.Occurs text i c ∧ c.specifier.needsExtension ∧
        p + 1 = i + c.text.length) ∧
      (∀ (x y : List Char) (run : QuotedRun), text = x ++ (run.text ++ y) →
        isQuote run.openQuote → isQuote run.closeQuote →
        (∀ c ∈ run.specifier, isQuote c = false) →
        run.specifier.needsExtension = false ∨ OpensCall x →
        ∀ p ∈ places, p ≤ x.length ∨ x.length + run.text.length ≤ p) ∧
      edited 0 (deletions Specifier.scriptExtension.length 0 places)
        (appendExtensions text).text = text ∧
      ((appendExtensions text).changed ↔ places ≠ []) ∧
      places.length =
        (Form.importFrom.finder.found text).countP (·.specifier.needsExtension) +
          (Form.exportFrom.finder.found
            (Form.importFrom.revise Specifier.withScriptExtension? text).text).countP
              (·.specifier.needsExtension) :=
  ⟨extensionPlaces text, pairwise_extensionPlaces text, text_appendExtensions_eq_edited text,
    fun _ hp => exists_occurs_of_mem_extensionPlaces hp,
    fun _ _ _ htext ho _ hrun h _ hp => apart_of_mem_extensionPlaces htext ho hrun h hp,
    deletions_appendExtensions text, changed_appendExtensions_iff text,
    length_extensionPlaces text⟩

/-- Both scans take the specifier of the export, and it is extended once. -/
example :
    extensionPlaces "import \x7bexport \x7bx\x7d from './a'".toList = [28] ∧
      (appendExtensions "import \x7bexport \x7bx\x7d from './a'".toList).text =
        "import \x7bexport \x7bx\x7d from './a.js'".toList := by
  decide

end DualPackage
