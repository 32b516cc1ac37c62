import DualPackage.Proofs.Clause.Taken
/-!
# Texts whose quotes come in pairs

In most sources every quoted run is a run of its own: its two quotes
belong together, and what stands between one run and the next could not
be a specifier. Such a text is a head and a list of passages, each a
quoted run and what follows it. On it a scan decides once for each
passage (`Form.chosen`), and a pass replaces the specifiers of the
passages chosen (`Form.revise_text`).
-/

namespace DualPackage

open Text Stretch

/-- A quoted run, and the text behind it up to the next one. -/
structure Passage where
  run : QuotedRun
  after : List Char
  deriving DecidableEq, Repr

namespace Passage

/-- The specifier of a passage. -/
def specifier (p : Passage) : Specifier :=
  p.run.specifier

/-- The passage with another specifier. -/
def withSpecifier (p : Passage) (s : Specifier) : Passage :=
  { p with run := { p.run with specifier := s } }

/-- The text of a head and the passages behind it. -/
def text : List Char → List Passage → List Char
  | head, [] => head
  | head, p :: ps => head ++ (p.run.text ++ text p.after ps)

/-- The stretches of passages: each passage makes two. -/
def stretches : List Passage → List Stretch
  | [] => []
  | p :: ps => ⟨p.run.openQuote, p.specifier⟩ :: ⟨p.run.closeQuote, p.after⟩ :: stretches ps

/-- The passages with the specifiers of those marked replaced. -/
def reword (f : Specifier → Specifier) : List Bool → List Passage → List Passage :=
  List.zipWith fun mark p => if mark then p.withSpecifier (f p.specifier) else p

/-- The specifiers of the passages that are marked. -/
def marked : List Bool → List Passage → List Specifier
  | mark :: marks, p :: ps => if mark then p.specifier :: marked marks ps else marked marks ps
  | _, _ => []

/-- The quotes of a text come in pairs: the runs are proper, no other quote
is there, and between two runs stands a character that no specifier may
hold. -/
inductive IsPaired : List Char → List Passage → Prop
  | last {head : List Char} (hhead : ∀ c ∈ head, isQuote c = false) : IsPaired head []
  | next {head : List Char} {p : Passage} {ps : List Passage}
      (hhead : ∀ c ∈ head, isQuote c = false) (hrun : p.run.Proper)
      (hapart : ps = [] ∨ p.after.all inSpecifier = false) (h : IsPaired p.after ps) :
      IsPaired head (p :: ps)

variable {head : List Char} {p : Passage} {ps : List Passage} {marks : List Bool}
  {f : Specifier → Specifier}

@[simp] theorem specifier_withSpecifier (p : Passage) (s : Specifier) :
    (p.withSpecifier s).specifier = s := rfl

@[simp] theorem withSpecifier_specifier (p : Passage) : p.withSpecifier p.specifier = p := rfl

@[simp] theorem withSpecifier_withSpecifier (p : Passage) (s s' : Specifier) :
    (p.withSpecifier s).withSpecifier s' = p.withSpecifier s' := rfl

@[simp] theorem after_withSpecifier (p : Passage) (s : Specifier) :
    (p.withSpecifier s).after = p.after := rfl

@[simp] theorem text_nil (head : List Char) : text head [] = head := rfl

@[simp] theorem text_cons (head : List Char) (p : Passage) (ps : List Passage) :
    text head (p :: ps) = head ++ (p.run.text ++ text p.after ps) := rfl

@[simp] theorem reword_nil (f : Specifier → Specifier) (marks : List Bool) :
    reword f marks [] = [] := by
  simp [reword]

@[simp] theorem reword_cons (f : Specifier → Specifier) (mark : Bool) (marks : List Bool)
    (p : Passage) (ps : List Passage) :
    reword f (mark :: marks) (p :: ps) =
      (if mark then p.withSpecifier (f p.specifier) else p) :: reword f marks ps := rfl

theorem text_append_head (x head : List Char) (ps : List Passage) :
    text (x ++ head) ps = x ++ text head ps := by
  cases ps <;> simp

theorem glue_stretches (head : List Char) (ps : List Passage) :
    glue head (stretches ps) = text head ps := by
  induction ps generalizing head with
  | nil => rfl
  | cons p ps ih => simp [stretches, ih, QuotedRun.text, specifier]

theorem IsPaired.head_free (h : IsPaired head ps) : ∀ c ∈ head, isQuote c = false := by
  cases h <;> assumption

theorem IsPaired.append_head (h : IsPaired head ps) {x : List Char}
    (hx : ∀ c ∈ x, isQuote c = false) : IsPaired (x ++ head) ps := by
  have hfree : ∀ c ∈ x ++ head, isQuote c = false := by
    simpa [or_imp, forall_and] using ⟨hx, h.head_free⟩
  cases h with
  | last => exact .last hfree
  | next _ hrun hapart h => exact .next hfree hrun hapart h

/-- Paired quotes cut a text. -/
theorem IsPaired.isCut (h : IsPaired head ps) : IsCut head (stretches ps) := by
  induction h with
  | last hhead => exact ⟨hhead, by simp [stretches], by simp [stretches]⟩
  | @next head p ps hhead hrun hapart h ih =>
    refine ⟨hhead, ?_, ?_⟩
    · simpa [stretches, hrun.opens, hrun.closes] using ih.quotes
    · have hinside : ∀ c ∈ p.specifier, isQuote c = false := fun c hc =>
        isQuote_eq_false_of_inSpecifier (hrun.inside c hc)
      simpa [stretches] using ⟨hinside, ih.head_free, ih.bodies_free⟩

/-- Rewording replaces the passages marked. -/
theorem reword_eq_replaced (f : Specifier → Specifier) (marks : List Bool) (ps : List Passage) :
    reword f marks ps = replaced (fun p => p.withSpecifier (f p.specifier)) marks ps := rfl

theorem marked_eq_selected (marks : List Bool) (ps : List Passage) :
    marked marks ps = (selected marks ps).map specifier := by
  induction ps generalizing marks with
  | nil => cases marks <;> simp [marked, selected]
  | cons p ps ih =>
    cases marks with
    | nil => simp [marked, selected]
    | cons mark marks => cases mark <;> simp [marked, selected, ih]

theorem exists_of_mem_marked {s : Specifier} (h : s ∈ marked marks ps) :
    ∃ p ∈ ps, p.specifier = s := by
  rw [marked_eq_selected, List.mem_map] at h
  obtain ⟨p, hp, hs⟩ := h
  exact ⟨p, mem_of_mem_selected hp, hs⟩

/-- What one of two choices marks, their union marks. -/
theorem mem_marked_or {marks marks' : List Bool} (hlen : marks.length = ps.length)
    (hlen' : marks'.length = ps.length) {s : Specifier}
    (h : s ∈ marked marks ps ∨ s ∈ marked marks' ps) :
    s ∈ marked (List.zipWith (· || ·) marks marks') ps := by
  simp only [marked_eq_selected, List.mem_map] at h ⊢
  rcases h with ⟨p, hp, rfl⟩ | ⟨p, hp, rfl⟩
  · exact ⟨p, mem_selected_or hlen hlen' (.inl hp), rfl⟩
  · exact ⟨p, mem_selected_or hlen hlen' (.inr hp), rfl⟩

theorem marked_reword (f : Specifier → Specifier) (marks : List Bool) (ps : List Passage) :
    marked marks (reword f marks ps) = (marked marks ps).map f := by
  rw [marked_eq_selected, reword_eq_replaced, selected_replaced, marked_eq_selected, List.map_map,
    List.map_map]
  rfl

/-- Rewording what is marked changes nothing if it is answered by itself. -/
theorem reword_eq_self (hlen : marks.length = ps.length) (hf : ∀ s ∈ marked marks ps, f s = s) :
    reword f marks ps = ps := by
  refine replaced_eq_self hlen fun p hp => ?_
  have hspec : f p.specifier = p.specifier := by
    apply hf
    rw [marked_eq_selected]
    exact List.mem_map_of_mem hp
  rw [hspec, withSpecifier_specifier]

/-- Rewording twice is rewording once what either marks, if an answer is
answered by itself. -/
theorem reword_reword (hf : ∀ s, f (f s) = f s) {marks' : List Bool}
    (hlen : marks.length = ps.length) (hlen' : marks'.length = ps.length) :
    reword f marks' (reword f marks ps) = reword f (List.zipWith (· || ·) marks marks') ps :=
  replaced_replaced (fun p => by simp [hf]) hlen hlen'

/-- Functions that commute may reword in either order. -/
theorem reword_comm {g : Specifier → Specifier} (hfg : ∀ s, g (f s) = f (g s))
    (marks marks' : List Bool) (ps : List Passage) :
    reword g marks' (reword f marks ps) = reword f marks (reword g marks' ps) :=
  replaced_comm (fun p => by simp [hfg]) marks marks' ps

/-- Other specifiers leave the quotes in pairs. -/
theorem IsPaired.reword (h : IsPaired head ps) (hlen : marks.length = ps.length)
    (hf : ∀ s ∈ marked marks ps, (f s).all inSpecifier) : IsPaired head (reword f marks ps) := by
  induction h generalizing marks with
  | last hhead => simpa using IsPaired.last hhead
  | @next head p ps hhead hrun hapart h ih =>
    obtain ⟨mark, marks, rfl⟩ := List.exists_cons_of_length_eq_add_one hlen
    have hmarked : ∀ s ∈ marked marks ps, (f s).all inSpecifier := fun s hs =>
      hf s (by cases mark <;> simp [marked, hs])
    have hrest := ih (by simpa using hlen) hmarked
    have hapart' : Passage.reword f marks ps = [] ∨ p.after.all inSpecifier = false := by
      rcases hapart with rfl | h
      · exact .inl (by simp)
      · exact .inr h
    rw [reword_cons]
    cases mark with
    | false => exact .next hhead hrun hapart' hrest
    | true =>
      refine .next hhead ⟨hrun.opens, ?_, hrun.closes⟩ hapart' hrest
      exact List.all_eq_true.1 (hf p.specifier (by simp [marked]))

end Passage

open Passage

namespace Form

/-- For each passage, whether the scan takes its specifier, when the text
`sofar` has been read since the last clause. -/
def chosen (form : Form) : List Char → List Passage → List Bool
  | _, [] => []
  | sofar, p :: ps =>
    if form.takes sofar p.specifier (text p.after ps) then true :: form.chosen p.after ps
    else false :: form.chosen (sofar ++ (p.run.text ++ p.after)) ps

variable {form : Form} {head : List Char} {ps : List Passage}

@[simp] theorem length_chosen (form : Form) (sofar : List Char) (ps : List Passage) :
    (form.chosen sofar ps).length = ps.length := by
  fun_induction chosen form sofar ps with
  | case1 => rfl
  | case2 sofar p ps h ih => simp [ih]
  | case3 sofar p ps h ih => simp [ih]

/-- The scan never takes what stands between two runs. -/
theorem taken_stretches (h : IsPaired head ps) (form : Form) (sofar : List Char) :
    form.taken sofar (stretches ps) = (form.chosen sofar ps).flatMap fun mark => [mark, false] := by
  induction h generalizing sofar with
  | last => rfl
  | @next head p ps hhead hrun hapart h ih =>
    simp only [stretches, taken, chosen, glue_stretches]
    split
    · simp [ih]
    · -- what stands between two runs is no specifier
      have hbetween : form.taken (sofar ++ p.run.openQuote :: p.specifier)
          (⟨p.run.closeQuote, p.after⟩ :: stretches ps) =
          false :: form.taken (sofar ++ (p.run.text ++ p.after)) (stretches ps) := by
        cases ps with
        | nil => rfl
        | cons p' ps =>
          have hout : p.after.all inSpecifier = false := by simpa using hapart
          simp [stretches, taken, takes, hout, QuotedRun.text, specifier]
      rw [hbetween, ih]
      simp

/-- A passage is taken for its specifier only, so amending its stretches is
rewording it. -/
theorem amend_stretches (f : Specifier → Specifier) (marks : List Bool) (ps : List Passage) :
    amend f (marks.flatMap fun mark => [mark, false]) (stretches ps) =
      stretches (reword f marks ps) := by
  induction ps generalizing marks with
  | nil => simp [stretches]
  | cons p ps ih =>
    cases marks with
    | nil => simp [amend, reword, stretches]
    | cons mark marks =>
      cases mark <;> simp [stretches, ih, Passage.withSpecifier, specifier]

theorem picked_stretches (marks : List Bool) (ps : List Passage) :
    picked (marks.flatMap fun mark => [mark, false]) (stretches ps) = marked marks ps := by
  induction ps generalizing marks with
  | nil => cases marks <;> simp [stretches, picked, marked]
  | cons p ps ih =>
    cases marks with
    | nil => simp [picked, marked]
    | cons mark marks =>
      cases mark <;> simp [stretches, ih, picked, marked, specifier]

/-- **A pass over paired quotes replaces the specifiers of the passages
chosen.** -/
theorem revise_text (h : IsPaired head ps) (form : Form) (f : Specifier → Option Specifier) :
    form.revise f (text head ps) =
      ⟨text head (reword (fun s => (f s).getD s) (form.chosen head ps) ps),
        (marked (form.chosen head ps) ps).any fun s => (f s).any (· != s)⟩ := by
  rw [← glue_stretches, revise_glue h.isCut, taken_stretches h, amend_stretches, picked_stretches,
    glue_stretches]

/-- A pass is idle if it answers each specifier it takes by itself. -/
theorem revise_text_eq_unchanged (h : IsPaired head ps) {form : Form}
    {f : Specifier → Option Specifier}
    (hf : ∀ s ∈ marked (form.chosen head ps) ps, (f s).getD s = s) :
    form.revise f (text head ps) = .unchanged (text head ps) := by
  have hany : ((marked (form.chosen head ps) ps).any fun s => (f s).any (· != s)) = false := by
    rw [List.any_eq_false]
    intro s hs
    have hfix := hf s hs
    cases hfs : f s with
    | none => simp
    | some s' =>
      obtain rfl : s' = s := by simpa [hfs] using hfix
      simp
  rw [revise_text h, reword_eq_self (length_chosen ..) hf, hany]
  rfl

end Form

end DualPackage
