import DualPackage.Clause.Revision
import DualPackage.Proofs.Clause.Cut
/-!
# Which quoted runs a scan takes

The scan for a form goes through a text character by character; seen on
the cut of the text it goes from quote to quote. A run is taken if what
has been read since the last clause ends in a lead (`Form.takes`), and
then the quote that closes it cannot open the next. `Form.taken` is the
list of these decisions, and `Form.revise_glue` the agreement with the
scan: a pass replaces the bodies of the stretches taken, and nothing else.

A replacement that is again a specifier leaves all decisions as they were
(`Form.taken_amend`), so a second look at the text takes the same runs.
-/

namespace DualPackage

open Text Stretch

namespace Form

/-! ## Leads and quotes -/

theorem isQuote_eq_false_of_isFromLead {lead : List Char} (h : IsFromLead lead) :
    ∀ c ∈ lead, isQuote c = false := by
  obtain ⟨gap, rfl, hgap⟩ := h
  have hword : ∀ c ∈ fromWord, isQuote c = false := List.all_iff_forall_prop.1 (by decide)
  intro c hc
  rcases List.mem_append.1 hc with hc | hc
  · exact hword c hc
  · exact isQuote_eq_false_of_isBlank (hgap c hc)

theorem isQuote_eq_false_of_isImportLead {opens : Char → Bool} {lead : List Char}
    (h : IsImportLead opens lead) : ∀ c ∈ lead, isQuote c = false := by
  obtain ⟨bindings, rfl, hin, -, -⟩ := h
  have hword : ∀ c ∈ importWord, isQuote c = false := List.all_iff_forall_prop.1 (by decide)
  intro c hc
  rcases List.mem_append.1 hc with hc | hc
  · exact hword c hc
  · exact isQuote_eq_false_of_inBindings (hin c hc)

/-- Forms whose lead lies between two quotes. An export can reach across
quotes, since its braces may hold any text. -/
def LeadsWithinQuotes (form : Form) : Prop :=
  ∀ lead, form.IsLead lead → ∀ c ∈ lead, isQuote c = false

theorem leadsWithinQuotes_of_ne {form : Form} (h : form ≠ exportFrom) : form.LeadsWithinQuotes := by
  intro lead hlead
  cases form with
  | anyFrom => exact isQuote_eq_false_of_isFromLead hlead
  | importFrom => exact isQuote_eq_false_of_isImportLead hlead
  | exportFrom => exact absurd rfl h
  | jsonImport => exact isQuote_eq_false_of_isImportLead hlead

/-- What stands in front of a quote inside the lead of an export has no
closing brace yet. -/
theorem ne_brace_of_isExportLead {x rest : List Char} {q : Char} (hq : isQuote q)
    (h : IsExportLead (x ++ q :: rest)) : ∀ c ∈ x, c ≠ '}' := by
  obtain ⟨gap, names, gap', source, heq, hgap, hnames, hgap', hsource⟩ := h
  have hafter : ∀ c ∈ '}' :: (gap' ++ source), isQuote c = false := by
    intro c hc
    simp only [List.mem_cons, List.mem_append] at hc
    rcases hc with rfl | hc | hc
    · decide
    · exact isQuote_eq_false_of_isBlank (hgap' c hc)
    · exact isQuote_eq_false_of_isFromLead hsource c hc
  have hword : ∀ c ∈ exportWord, c ≠ '}' := List.all_iff_forall_prop.1 (by decide)
  have hfront : ∀ c ∈ exportWord ++ gap ++ '{' :: names, c ≠ '}' := by
    intro c hc
    simp only [List.mem_append, List.mem_cons] at hc
    rcases hc with (hc | hc) | rfl | hc
    · exact hword c hc
    · rintro rfl
      exact absurd (hgap _ hc) (by decide)
    · decide
    · exact hnames c hc
  have hsplit : x ++ q :: rest = (exportWord ++ gap ++ '{' :: names) ++ '}' :: (gap' ++ source) := by
    simpa using heq
  rcases List.append_eq_append_iff.1 hsplit with ⟨w, hw, -⟩ | ⟨w, -, hw⟩
  · exact fun c hc => hfront c (by rw [hw]; exact List.mem_append_left _ hc)
  · -- the quote would stand behind the brace
    have := hafter q (by rw [hw]; simp)
    rw [hq] at this
    cases this

theorem brace_mem_of_isExportLead {lead : List Char} (h : IsExportLead lead) : '}' ∈ lead := by
  obtain ⟨gap, names, gap', source, rfl, -⟩ := h
  simp

/-- **A lead that reaches across a quote has none ending at that quote.** -/
theorem not_endsInLead_of_isLead {form : Form} {before : Option Char} {x rest : List Char} {q : Char}
    (hq : isQuote q) (h : form.IsLead (x ++ q :: rest)) : ¬ form.endsInLead before x := by
  rw [endsInLead_iff]
  rintro ⟨y, lead, rfl, hlead, -⟩
  by_cases hform : form = exportFrom
  · subst hform
    exact ne_brace_of_isExportLead hq h '}'
      (List.mem_append_right _ (brace_mem_of_isExportLead hlead)) rfl
  · have := leadsWithinQuotes_of_ne hform _ h q (by simp)
    rw [hq] at this
    cases this

/-- Whether a lead may begin depends on the character in front only as far
as that opens a word. -/
theorem endsInLead_congr {form : Form} {before before' : Option Char}
    (h : opensWord before = opensWord before') (text : List Char) :
    form.endsInLead before text = form.endsInLead before' text := by
  cases text with
  | nil => rfl
  | cons c text => simp [endsInLead, h]

/-- A lead between quotes does not see what stands in front of the last
quote. -/
theorem endsInLead_append_quote {form : Form} (hform : form.LeadsWithinQuotes)
    {before : Option Char} {x y : List Char} {q : Char} (hq : isQuote q) :
    form.endsInLead before (x ++ q :: y) = form.endsInLead none y := by
  rw [Bool.eq_iff_iff, endsInLead_iff, endsInLead_iff]
  constructor
  · rintro ⟨z, lead, heq, hlead, hb⟩
    rw [← List.singleton_append, ← List.append_assoc, List.append_eq_append_iff] at heq
    rcases heq with ⟨w, rfl, rfl⟩ | ⟨w, hw, rfl⟩
    · refine ⟨w, lead, rfl, hlead, ?_⟩
      rcases w with - | ⟨c, w⟩
      · rfl
      · simpa [charBefore_append] using hb
    · rcases List.eq_nil_or_concat w with rfl | ⟨w, c, rfl⟩
      · exact ⟨[], y, rfl, hlead, rfl⟩
      · -- the lead would hold the quote
        obtain rfl : q = c := by
          have := congrArg List.getLast? hw
          simpa [List.getLast?_append] using this
        have := hform _ hlead q (by simp)
        rw [hq] at this
        cases this
  · rintro ⟨z, lead, rfl, hlead, hb⟩
    refine ⟨x ++ q :: z, lead, by simp, hlead, ?_⟩
    rw [charBefore_append, charBefore_cons]
    cases z with
    | nil => simpa [opensWord] using isWord_eq_false_of_isQuote hq
    | cons c z => exact hb

/-! ## The decisions of a scan -/

/-- Whether a run is taken, when the text `sofar` has been read since the
last clause. -/
def takes (form : Form) (sofar : List Char) (body : Specifier) (after : List Char) : Bool :=
  form.endsInLead none sofar && body.all inSpecifier && form.accepts body after

/-- For each stretch, whether the scan takes its body as a specifier. The
quote that closes one specifier does not open another. -/
def taken (form : Form) : List Char → List Stretch → List Bool
  | _, [] => []
  | _, [_] => [false]
  | sofar, s :: e :: rest =>
    if form.takes sofar s.body (glue e.body rest) then true :: false :: form.taken e.body rest
    else false :: form.taken (sofar ++ s.quote :: s.body) (e :: rest)

variable {form : Form} {head : List Char} {ss pre post : List Stretch} {s e : Stretch}

@[simp] theorem length_taken (form : Form) (sofar : List Char) (ss : List Stretch) :
    (form.taken sofar ss).length = ss.length := by
  fun_induction taken form sofar ss with
  | case1 => rfl
  | case2 => rfl
  | case3 sofar s e rest h ih => simp [ih]
  | case4 sofar s e rest h ih => simp [ih]

/-- Without a run to take, none is taken. -/
theorem taken_of_none
    (h : ∀ pre s e post, ss = pre ++ s :: e :: post →
      form.takes (glue head pre) s.body (glue e.body post) = false) :
    form.taken head ss = List.replicate ss.length false := by
  fun_induction taken form head ss with
  | case1 => rfl
  | case2 => rfl
  | case3 sofar s e rest htakes ih =>
    have := h [] s e rest rfl
    rw [glue_nil, htakes] at this
    cases this
  | case4 sofar s e rest htakes ih =>
    rw [ih ?_]
    · rfl
    · rintro pre s' e' post heq
      have := h (s :: pre) s' e' post (by simp [heq])
      rwa [glue_cons, ← List.singleton_append, ← List.append_assoc, ← glue_append_head,
        List.append_assoc, List.singleton_append] at this

/-- The first run that can be taken is taken. -/
theorem taken_of_first (htakes : form.takes (glue head pre) s.body (glue e.body post))
    (hfirst : ∀ pre' s' e' post', pre ++ s :: e :: post = pre' ++ s' :: e' :: post' →
      pre'.length < pre.length → form.takes (glue head pre') s'.body (glue e'.body post') = false) :
    form.taken head (pre ++ s :: e :: post) =
      List.replicate pre.length false ++ true :: false :: form.taken e.body post := by
  induction pre generalizing head with
  | nil =>
    rw [glue_nil] at htakes
    simp [taken, htakes]
  | cons p pre ih =>
    have hglue : ∀ ss, glue (head ++ p.quote :: p.body) ss = glue head (p :: ss) := by
      intro ss
      rw [glue_cons, ← List.singleton_append, ← List.append_assoc, glue_append_head]
      simp
    have hrest : form.taken (head ++ p.quote :: p.body) (pre ++ s :: e :: post) =
        List.replicate pre.length false ++ true :: false :: form.taken e.body post :=
      ih (by rwa [hglue]) (fun pre' s' e' post' heq hlt => by
        rw [hglue]
        exact hfirst (p :: pre') s' e' post' (by simp [heq]) (by simpa using hlt))
    obtain ⟨a, as, has⟩ : ∃ a as, pre ++ s :: e :: post = a :: as := by
      cases pre with
      | nil => exact ⟨_, _, rfl⟩
      | cons b pre => exact ⟨_, _, rfl⟩
    have hp : form.takes head p.body (glue a.body as) = false :=
      hfirst [] p a as (by simp [has]) (by simp)
    rw [List.cons_append, has]
    simp only [taken, hp, Bool.false_eq_true, if_false, List.length_cons, List.replicate_succ,
      List.cons_append]
    rw [← has, hrest]

/-- A run that is taken makes a clause, and the scan would find it where its
lead begins. -/
theorem exists_find?_of_takes {before : Option Char} (hb : opensWord before)
    (hcut : IsCut head (pre ++ s :: e :: post))
    (htakes : form.takes (glue head pre) s.body (glue e.body post)) :
    ∃ x lead, glue head pre = x ++ lead ∧ form.IsLead lead ∧
      form.clause? (charBefore before x) (lead ++ s.quote :: (s.body ++ e.quote :: glue e.body post)) =
        some ⟨lead, ⟨s.quote, s.body, e.quote⟩⟩ := by
  simp only [takes, Bool.and_eq_true, List.all_eq_true] at htakes
  obtain ⟨⟨hends, hbody⟩, haccepts⟩ := htakes
  have hstart : opensWord none = opensWord before := by simpa using hb.symm
  rw [endsInLead_congr hstart, endsInLead_iff] at hends
  obtain ⟨x, lead, hx, hlead, hopens⟩ := hends
  refine ⟨x, lead, hx, hlead, clause?_eq_some_iff.2 ⟨hopens, hlead, ?_, _, ?_, haccepts⟩⟩
  · exact ⟨hcut.quotes s (by simp), hbody, hcut.quotes e (by simp)⟩
  · simp [Clause.text, QuotedRun.text]

/-- And a clause that the scan finds makes a run that is taken. -/
theorem exists_takes_of_find? {before : Option Char} (hb : opensWord before)
    (hcut : IsCut head ss) {x : List Char} {c : Char} {z : List Char} {m : Clause}
    (htext : glue head ss = x ++ c :: z) (hfind : form.clause? (charBefore before x) (c :: z) = some m) :
    ∃ pre body post, ss = pre ++ ⟨m.quoted.openQuote, m.specifier⟩ ::
        ⟨m.quoted.closeQuote, body⟩ :: post ∧
      x ++ m.lead = glue head pre ∧ c :: z = m.text ++ glue body post ∧ form.IsLead m.lead ∧
      form.takes (glue head pre) m.specifier (glue body post) := by
  obtain ⟨hopens, hlead, hproper, after, hz, haccepts⟩ := clause?_eq_some_iff.1 hfind
  have hsplit : glue head ss = (x ++ m.lead) ++ m.quoted.openQuote ::
      (m.specifier ++ m.quoted.closeQuote :: after) := by
    rw [htext, hz]
    simp [Clause.text, QuotedRun.text, Clause.specifier]
  obtain ⟨pre, body, post, rfl, hx, rfl⟩ := exists_run_of_glue_eq hcut hproper.opens hproper.closes
    (fun c hc => isQuote_eq_false_of_inSpecifier (hproper.inside c hc)) hsplit
  refine ⟨pre, body, post, rfl, hx, hz, hlead, ?_⟩
  have hstart : opensWord none = opensWord before := by simpa using hb.symm
  have hends : form.endsInLead none (glue head pre) := by
    rw [endsInLead_congr hstart, endsInLead_iff]
    exact ⟨x, m.lead, hx.symm, hlead, hopens⟩
  have hinside : m.specifier.all inSpecifier := List.all_eq_true.2 hproper.inside
  simp [takes, hends, hinside, haccepts]

/-- Where the scan finds its first clause, it takes the first run that can be
taken: an earlier one would have a lead that ends at a quote inside the lead
found. -/
theorem takes_eq_false_of_first {before : Option Char} (hb : opensWord before) {x z : List Char}
    {c : Char} {m : Clause} (hcut : IsCut head (pre ++ s :: post))
    (hx : x ++ m.lead = glue head pre) (hlead : form.IsLead m.lead)
    (htext : glue head (pre ++ s :: post) = x ++ c :: z)
    (hnone : form.finder.NoneWithin before x (c :: z)) {pre' post' : List Stretch} {s' e' : Stretch}
    (heq : pre ++ s :: post = pre' ++ s' :: e' :: post') (hlt : pre'.length < pre.length) :
    form.takes (glue head pre') s'.body (glue e'.body post') = false := by
  by_contra htakes
  rw [Bool.not_eq_false] at htakes
  obtain ⟨x', lead', hx', hlead', hfind⟩ := exists_find?_of_takes hb (heq ▸ hcut) htakes
  have hopens := (clause?_eq_some_iff.1 hfind).1
  have hpre : ∃ rest', pre = pre' ++ s' :: rest' := by
    rcases List.append_eq_append_iff.1 heq with ⟨w, hw, -⟩ | ⟨w, hw, hrest⟩
    · rw [hw, List.length_append] at hlt
      omega
    · rcases w with - | ⟨a, w⟩
      · simp [hw] at hlt
      · obtain ⟨rfl, -⟩ : s' = a ∧ e' :: post' = w ++ s :: post := by simpa using hrest
        exact ⟨w, hw⟩
  obtain ⟨rest', rfl⟩ := hpre
  have hquote : isQuote s'.quote := hcut.quotes s' (by simp)
  have hwhole : x ++ c :: z =
      x' ++ (lead' ++ s'.quote :: (s'.body ++ e'.quote :: glue e'.body post')) := by
    rw [← htext, heq, glue_append, hx', glue_cons]
    simp
  -- the lead found would reach across the earlier quote
  have hacross : ∀ w, x' = x ++ w →
      ¬ m.lead = w ++ lead' ++ s'.quote :: glue s'.body rest' := by
    rintro w rfl hm
    have hends : form.endsInLead (charBefore before x) (w ++ lead') := by
      rw [charBefore_append] at hopens
      exact endsInLead_iff.2 ⟨w, lead', rfl, hlead', hopens⟩
    exact not_endsInLead_of_isLead hquote (hm ▸ hlead) hends
  rw [glue_append, hx', List.append_assoc] at hx
  rcases List.append_eq_append_iff.1 hx with ⟨w, hw, hm⟩ | ⟨w, hw, hm⟩
  · exact hacross w hw (by simpa using hm)
  · rcases w with - | ⟨d, w⟩
    · exact hacross [] (by simpa using hw.symm) (by simpa using hm.symm)
    · have hpassed := hnone x' d w hw
      rw [hw, List.append_assoc, List.append_cancel_left_eq] at hwhole
      rw [hwhole] at hpassed
      exact absurd (hfind.symm.trans hpassed) (by simp)

/-- Where no clause is found, no run is taken. -/
theorem taken_of_noneWithin {before : Option Char} (hb : opensWord before) (hcut : IsCut head ss)
    (hnone : form.finder.NoneWithin before (glue head ss) []) :
    form.taken head ss = List.replicate ss.length false := by
  refine taken_of_none fun pre s e post heq => ?_
  by_contra htakes
  rw [Bool.not_eq_false] at htakes
  obtain ⟨x, lead, hx, hlead, hfind⟩ := exists_find?_of_takes hb (heq ▸ hcut) htakes
  obtain ⟨c, lead, rfl⟩ := List.exists_cons_of_ne_nil
    (fun h : lead = [] => not_isLead_nil form (h ▸ hlead))
  have hpassed := hnone x c (lead ++ s.quote :: (s.body ++ e.quote :: glue e.body post))
    (by rw [heq, glue_append, hx]; simp)
  rw [List.append_nil] at hpassed
  exact absurd (hfind.symm.trans hpassed) (by simp)

/-- The scan up to the first clause found and behind it. -/
theorem scan_of_clause? {before : Option Char} {x z after : List Char} {c : Char} {m : Clause}
    (hfind : form.clause? (charBefore before x) (c :: z) = some m)
    (hnone : form.finder.NoneWithin before x (c :: z)) (hz : c :: z = m.text ++ after) :
    form.finder.scan before 0 (x ++ c :: z) =
      x.map .plain ++ .found m :: form.finder.scan (some m.quoted.closeQuote) 0 after := by
  have hspan : form.finder.span m ≠ [] := by
    simp [finder, Clause.text, QuotedRun.text]
  have hlast : charBefore (charBefore before x) m.text = some m.quoted.closeQuote := by
    show charBefore _ (m.lead ++ (m.quoted.openQuote :: m.quoted.specifier ++ [_])) = _
    rw [← List.append_assoc, charBefore_concat]
  rw [Finder.scan_append_of_none hnone, hz]
  rw [hz] at hfind
  have hscan := Finder.scan_of_find? (F := form.finder) hspan hfind
  rw [show form.finder.span m = m.text from rfl, hlast] at hscan
  rw [hscan]

/-- **The scan on a cut.** Its pieces write the text back with the bodies of
the stretches taken replaced and `tail` behind their closing quotes, and its
clauses name those bodies. -/
theorem scan_glue (form : Form) (f : Specifier → Specifier) (tail : List Char) :
    ∀ (n : ℕ) (before : Option Char) (head : List Char) (ss : List Stretch), ss.length < n →
      opensWord before → IsCut head ss →
      (form.finder.scan before 0 (glue head ss)).flatMap
            (Piece.render fun c => (c.withSpecifier (f c.specifier)).text ++ tail) =
          glue head (behind tail (form.taken head ss) (amend f (form.taken head ss) ss)) ∧
        ((form.finder.scan before 0 (glue head ss)).filterMap Piece.match?).map Clause.specifier =
          picked (form.taken head ss) ss := by
  intro n
  induction n with
  | zero => intro before head ss hn; omega
  | succ n ih =>
    intro before head ss hn hb hcut
    rcases form.finder.exists_first before (glue head ss) with
      hnone | ⟨x, c, z, m, htext, hfind, hnone⟩
    · -- no clause is left, and the text is written back as it is
      have hscan := Finder.scan_append_of_none hnone
      have hamend := amend_unmarked f ss [] []
      have hbehind := behind_unmarked tail ss [] []
      have hpicked := picked_unmarked ss [] []
      simp only [List.append_nil] at hscan hamend hbehind hpicked
      rw [hscan, taken_of_noneWithin hb hcut hnone, hamend, hpicked, amend_nil_right,
        List.append_nil, hbehind]
      simp [behind, Finder.scan, List.flatMap_map, List.filterMap_map, Piece.render, Piece.match?,
        Function.comp_def, picked]
    · -- up to the first clause nothing is taken; behind it begins a shorter cut
      obtain ⟨pre, body, post, rfl, hx, hz, hlead, htakes⟩ :=
        exists_takes_of_find? hb hcut htext hfind
      have hproper := (clause?_eq_some_iff.1 hfind).2.2.1
      have htaken : form.taken head
          (pre ++ ⟨m.quoted.openQuote, m.specifier⟩ :: ⟨m.quoted.closeQuote, body⟩ :: post) =
            List.replicate pre.length false ++ true :: false :: form.taken body post :=
        taken_of_first htakes
          (fun _ _ _ _ heq hlt => takes_eq_false_of_first hb hcut hx hlead htext hnone heq hlt)
      have hcut' : IsCut body post := hcut.drop.tail
      have hb' : opensWord (some m.quoted.closeQuote) := by
        simpa [opensWord] using isWord_eq_false_of_isQuote hproper.closes
      obtain ⟨hrender, hfound⟩ := ih (some m.quoted.closeQuote) body post
        (by simp at hn; omega) hb' hcut'
      rw [htext, scan_of_clause? hfind hnone hz, htaken, amend_unmarked, picked_unmarked,
        behind_unmarked]
      simp only [amend_cons, if_true, Bool.false_eq_true, if_false]
      constructor
      · rw [behind_marked, glue_append, ← hx, List.flatMap_append, List.flatMap_cons, hrender]
        simp [List.flatMap_map, Piece.render, Clause.withSpecifier, Clause.text,
          QuotedRun.text, Clause.specifier, glue_append_head]
      · simp [List.filterMap_map, Piece.match?, Function.comp_def, hfound, picked]

/-- The specifiers of the clauses found are the bodies taken. -/
theorem map_specifier_found (hcut : IsCut head ss) (form : Form) :
    (form.finder.found (glue head ss)).map Clause.specifier =
      picked (form.taken head ss) ss := by
  rw [Finder.found, Finder.pieces_eq_scan]
  exact (scan_glue form id [] (ss.length + 1) none head ss (by omega) rfl hcut).2

/-- What a pass writes in place of the specifiers and behind the clauses is
written in place of the bodies taken and behind their closing quotes. -/
theorem replace_glue (hcut : IsCut head ss) (form : Form) (f : Specifier → Specifier)
    (tail : List Char) :
    form.finder.replace (fun c => (c.withSpecifier (f c.specifier)).text ++ tail) (glue head ss) =
      glue head (behind tail (form.taken head ss) (amend f (form.taken head ss) ss)) := by
  rw [Finder.replace, Finder.pieces_eq_scan]
  exact (scan_glue form f tail (ss.length + 1) none head ss (by omega) rfl hcut).1

/-- **A pass is an amendment of the stretches taken.** It counts as a change
if one of their bodies is answered by another text. -/
theorem revise_glue (hcut : IsCut head ss) (form : Form) (f : Specifier → Option Specifier) :
    form.revise f (glue head ss) =
      ⟨glue head (amend (fun s => (f s).getD s) (form.taken head ss) ss),
        (picked (form.taken head ss) ss).any fun s => (f s).any (· != s)⟩ := by
  have hwritten := replace_glue hcut form (fun s => (f s).getD s) []
  simp only [List.append_nil] at hwritten
  rw [behind_nil (by simp [amend])] at hwritten
  have hrevised : Clause.isRevised f = (fun s => (f s).any (· != s)) ∘ Clause.specifier := rfl
  rw [Form.revise, hrevised, ← List.any_map, map_specifier_found hcut, ← hwritten]
  rfl

/-! ## A second look -/

/-- All forms but that of a JSON import look at the specifier alone. -/
theorem accepts_congr (hform : form ≠ jsonImport) (body after after' : List Char) :
    form.accepts body after = form.accepts body after' := by
  cases form <;> first | rfl | exact absurd rfl hform

theorem takes_congr (hform : form ≠ jsonImport) (sofar body after after' : List Char) :
    form.takes sofar body after = form.takes sofar body after' := by
  rw [takes, takes, accepts_congr hform body after after']

/-- The functions on specifiers that a form can look through: what they
answer is again a specifier that the form accepts. -/
def Admits (form : Form) (f : Specifier → Specifier) : Prop :=
  ∀ s : Specifier, s.all inSpecifier → form.accepts s [] →
    (f s).all inSpecifier ∧ form.accepts (f s) []

/-- **A second look takes the same runs.** -/
theorem taken_amend (hform : form ≠ jsonImport) {f : Specifier → Specifier} (hf : form.Admits f)
    (sofar : List Char) (ss : List Stretch) :
    form.taken sofar (amend f (form.taken sofar ss) ss) = form.taken sofar ss := by
  fun_induction taken form sofar ss with
  | case1 => rfl
  | case2 => rfl
  | case3 sofar s e rest htakes ih =>
    -- a run that was taken is taken again, since its new body is admitted
    have htakes' : form.takes sofar (f s.body) (glue e.body (amend f (form.taken e.body rest) rest)) := by
      rw [takes_congr hform _ _ _ []] at htakes ⊢
      simp only [takes, Bool.and_eq_true] at htakes ⊢
      exact ⟨⟨htakes.1.1, (hf s.body htakes.1.2 htakes.2).1⟩, (hf s.body htakes.1.2 htakes.2).2⟩
    simp [taken, htakes', ih]
  | case4 sofar s e rest htakes ih =>
    obtain ⟨e', rest', hrest⟩ : ∃ e' rest', amend f (form.taken (sofar ++ s.quote :: s.body)
        (e :: rest)) (e :: rest) = e' :: rest' := by
      cases hmarks : form.taken (sofar ++ s.quote :: s.body) (e :: rest) with
      | nil => simpa [hmarks] using length_taken form (sofar ++ s.quote :: s.body) (e :: rest)
      | cons m marks => exact ⟨_, _, rfl⟩
    -- one that was passed over is passed over again, whatever is written behind it
    have htakes' : form.takes sofar s.body (glue e'.body rest') = false := by
      rw [takes_congr hform _ _ _ (glue e.body rest)]
      simpa using htakes
    rw [hrest] at ih
    simp [hrest, taken, htakes', ih]

end Form

end DualPackage
