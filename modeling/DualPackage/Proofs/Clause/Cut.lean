import DualPackage.Proofs.Clause.Reading
import DualPackage.Proofs.Text.Marked
/-!
# A text cut at its quotes

A clause names its module between two neighbouring quotes. So a text is
best looked at as its head, up to the first quote, and a list of
stretches, each a quote and what follows it up to the next one. `cut`
takes a text apart in this way and `glue` puts it together again
(`glue_cut`); a quote met in the text is that of one of the stretches
(`exists_stretch_of_glue_eq`).
-/

namespace DualPackage

open Text

/-- A quote, and the text behind it up to the next one. -/
structure Stretch where
  quote : Char
  body : List Char
  deriving DecidableEq, Repr

namespace Stretch

/-- The text that begins with `head` and goes on with the stretches. -/
def glue : List Char → List Stretch → List Char
  | head, [] => head
  | head, s :: rest => head ++ s.quote :: glue s.body rest

/-- The stretches begin at quotes, and there is no other quote. -/
structure IsCut (head : List Char) (ss : List Stretch) : Prop where
  head_free : ∀ c ∈ head, isQuote c = false
  quotes : ∀ s ∈ ss, isQuote s.quote
  bodies_free : ∀ s ∈ ss, ∀ c ∈ s.body, isQuote c = false

/-- The stretches with the body of those marked replaced. -/
def amend (f : Specifier → Specifier) : List Bool → List Stretch → List Stretch :=
  List.zipWith fun taken s => if taken then { s with body := f s.body } else s

/-- The stretches with `tail` written behind the quote that closes each of
those marked, which begins the next one. -/
def behind (tail : List Char) (marks : List Bool) : List Stretch → List Stretch :=
  amend (tail ++ ·) (false :: marks)

/-- The bodies of the stretches that are marked. -/
def picked : List Bool → List Stretch → List Specifier
  | taken :: marks, s :: ss => if taken then s.body :: picked marks ss else picked marks ss
  | _, _ => []

variable {head x y : List Char} {s : Stretch} {ss pre post : List Stretch} {q : Char}

@[simp] theorem glue_nil (head : List Char) : glue head [] = head := rfl

@[simp] theorem glue_cons (head : List Char) (s : Stretch) (ss : List Stretch) :
    glue head (s :: ss) = head ++ s.quote :: glue s.body ss := rfl

theorem glue_append_head (x head : List Char) (ss : List Stretch) :
    glue (x ++ head) ss = x ++ glue head ss := by
  cases ss <;> simp

theorem glue_append (head : List Char) (pre : List Stretch) (s : Stretch) (post : List Stretch) :
    glue head (pre ++ s :: post) = glue head pre ++ s.quote :: glue s.body post := by
  induction pre generalizing head with
  | nil => rfl
  | cons p pre ih => simp [ih]

theorem IsCut.tail (h : IsCut head (s :: ss)) : IsCut s.body ss where
  head_free := h.bodies_free s (by simp)
  quotes := fun s' hs => h.quotes s' (by simp [hs])
  bodies_free := fun s' hs => h.bodies_free s' (by simp [hs])

theorem IsCut.drop (h : IsCut head (pre ++ s :: post)) : IsCut s.body post where
  head_free := h.bodies_free s (by simp)
  quotes := fun s' hs => h.quotes s' (by simp [hs])
  bodies_free := fun s' hs => h.bodies_free s' (by simp [hs])

/-- The head and the stretches of a text. -/
def cut : List Char → List Char × List Stretch
  | [] => ([], [])
  | c :: text =>
    if isQuote c then ([], ⟨c, (cut text).1⟩ :: (cut text).2)
    else (c :: (cut text).1, (cut text).2)

theorem isCut_cut (text : List Char) : IsCut (cut text).1 (cut text).2 := by
  induction text with
  | nil => exact ⟨by simp [cut], by simp [cut], by simp [cut]⟩
  | cons c text ih =>
    by_cases hc : isQuote c
    · refine ⟨by simp [cut, hc], ?_, ?_⟩
      · simpa [cut, hc] using ih.quotes
      · simpa [cut, hc] using ⟨ih.head_free, ih.bodies_free⟩
    · refine ⟨?_, by simpa [cut, hc] using ih.quotes, by simpa [cut, hc] using ih.bodies_free⟩
      simpa [cut, hc] using ih.head_free

/-- **A text is its cut, glued together again.** -/
@[simp] theorem glue_cut (text : List Char) : glue (cut text).1 (cut text).2 = text := by
  induction text with
  | nil => rfl
  | cons c text ih =>
    by_cases hc : isQuote c
    · simp [cut, hc, ih]
    · have hhead := glue_append_head [c] (cut text).1 (cut text).2
      rw [ih] at hhead
      simpa [cut, hc] using hhead

/-- **A quote of the text is that of a stretch.** -/
theorem exists_stretch_of_glue_eq (h : IsCut head ss) (hq : isQuote q)
    (heq : glue head ss = x ++ q :: y) :
    ∃ pre body post, ss = pre ++ ⟨q, body⟩ :: post ∧ x = glue head pre ∧ y = glue body post := by
  induction ss generalizing head x with
  | nil =>
    have := h.head_free q (by rw [← glue_nil head, heq]; simp)
    rw [hq] at this
    cases this
  | cons s ss ih =>
    rw [glue_cons, List.append_eq_append_iff] at heq
    -- the head is free of quotes, so this one is that of `s` or stands behind it
    rcases heq with ⟨w, rfl, heq⟩ | ⟨w, rfl, heq⟩
    · rcases w with - | ⟨c, w⟩
      · obtain ⟨rfl, rfl⟩ : s.quote = q ∧ glue s.body ss = y := by simpa using heq
        exact ⟨[], s.body, ss, rfl, by simp, rfl⟩
      · obtain ⟨rfl, hrest⟩ : s.quote = c ∧ glue s.body ss = w ++ q :: y := by simpa using heq
        obtain ⟨pre, body, post, rfl, rfl, rfl⟩ := ih h.tail hrest
        exact ⟨s :: pre, body, post, rfl, rfl, rfl⟩
    · rcases w with - | ⟨c, w⟩
      · obtain ⟨rfl, rfl⟩ : q = s.quote ∧ y = glue s.body ss := by simpa using heq
        exact ⟨[], s.body, ss, rfl, by simp, rfl⟩
      · obtain ⟨rfl, -⟩ : q = c ∧ y = w ++ s.quote :: glue s.body ss := by simpa using heq
        have := h.head_free q (by simp)
        rw [hq] at this
        cases this

/-- A text without quotes is all head. -/
theorem eq_nil_of_glue_free (h : IsCut head ss) (hfree : ∀ c ∈ glue head ss, isQuote c = false) :
    ss = [] := by
  cases ss with
  | nil => rfl
  | cons s ss =>
    have := hfree s.quote (by simp)
    rw [h.quotes s (by simp)] at this
    cases this

/-- Two quotes with none in between are those of two neighbouring
stretches. -/
theorem exists_run_of_glue_eq {e : Char} {spec after : List Char} (h : IsCut head ss)
    (hq : isQuote q) (he : isQuote e) (hspec : ∀ c ∈ spec, isQuote c = false)
    (heq : glue head ss = x ++ q :: (spec ++ e :: after)) :
    ∃ pre body post, ss = pre ++ ⟨q, spec⟩ :: ⟨e, body⟩ :: post ∧ x = glue head pre ∧
      after = glue body post := by
  obtain ⟨pre, body, post, rfl, rfl, hrest⟩ := exists_stretch_of_glue_eq h hq heq
  obtain ⟨pre', body', post', rfl, hspec', rfl⟩ :=
    exists_stretch_of_glue_eq h.drop he hrest.symm
  -- no stretch lies between the two quotes: it would begin at a third
  have hcut : IsCut body pre' :=
    ⟨h.drop.head_free, fun s hs => h.drop.quotes s (by simp [hs]),
      fun s hs => h.drop.bodies_free s (by simp [hs])⟩
  obtain rfl : pre' = [] := eq_nil_of_glue_free hcut (hspec' ▸ hspec)
  obtain rfl : spec = body := hspec'
  exact ⟨pre, body', post', rfl, rfl, rfl⟩

/-! ## Marked stretches -/

variable {f g : Specifier → Specifier} {marks : List Bool}

@[simp] theorem amend_nil_right (f : Specifier → Specifier) (marks : List Bool) :
    amend f marks [] = [] := by
  simp [amend]

@[simp] theorem amend_cons (f : Specifier → Specifier) (taken : Bool) (marks : List Bool)
    (s : Stretch) (ss : List Stretch) :
    amend f (taken :: marks) (s :: ss) =
      (if taken then { s with body := f s.body } else s) :: amend f marks ss := rfl

theorem amend_unmarked (f : Specifier → Specifier) (pre ss : List Stretch) (marks : List Bool) :
    amend f (List.replicate pre.length false ++ marks) (pre ++ ss) = pre ++ amend f marks ss := by
  induction pre with
  | nil => rfl
  | cons p pre ih => simpa [List.replicate_succ] using ih

theorem behind_unmarked (tail : List Char) (pre ss : List Stretch) (marks : List Bool) :
    behind tail (List.replicate pre.length false ++ marks) (pre ++ ss) =
      pre ++ behind tail marks ss := by
  rw [behind, ← List.cons_append, ← List.replicate_succ, List.replicate_succ', List.append_assoc,
    amend_unmarked]
  rfl

/-- A marked stretch is left alone itself, and so is one that follows no
mark. -/
theorem behind_marked (tail : List Char) (marks : List Bool) (s e : Stretch) (ss : List Stretch) :
    behind tail (true :: false :: marks) (s :: e :: ss) =
      s :: { e with body := tail ++ e.body } :: behind tail marks ss := rfl

theorem exists_quote_of_mem_behind {tail : List Char} (h : s ∈ behind tail marks ss) :
    ∃ t ∈ ss, t.quote = s.quote := by
  rw [behind] at h
  generalize false :: marks = marks at h
  induction ss generalizing marks with
  | nil => simp at h
  | cons t ss ih =>
    cases marks with
    | nil => simp [amend] at h
    | cons mark marks =>
      rcases List.mem_cons.1 (amend_cons _ mark marks t ss ▸ h) with rfl | h
      · exact ⟨t, by simp, by cases mark <;> rfl⟩
      · obtain ⟨u, hu, hquote⟩ := ih _ h
        exact ⟨u, by simp [hu], hquote⟩

theorem amend_nil_append (hlen : ss.length ≤ marks.length) : amend ([] ++ ·) marks ss = ss := by
  induction ss generalizing marks with
  | nil => simp
  | cons s ss ih =>
    cases marks with
    | nil => simp at hlen
    | cons mark marks =>
      rw [amend_cons, ih (by simpa using hlen)]
      simp

theorem behind_nil (hlen : ss.length ≤ marks.length) : behind [] marks ss = ss :=
  amend_nil_append (hlen.trans (Nat.le_succ _))

/-- Replacing bodies by texts without quotes leaves the cut where it was. -/
theorem IsCut.amend (h : IsCut head ss) (marks : List Bool)
    (hf : ∀ x : Specifier, (∀ c ∈ x, isQuote c = false) → ∀ c ∈ f x, isQuote c = false) :
    IsCut head (amend f marks ss) := by
  induction ss generalizing head marks with
  | nil => simpa using h
  | cons s ss ih =>
    cases marks with
    | nil => exact ⟨h.head_free, by simp [Stretch.amend], by simp [Stretch.amend]⟩
    | cons mark marks =>
      have hrest := ih h.tail marks
      have hquote := h.quotes s (by simp)
      have hbody := h.bodies_free s (by simp)
      rw [amend_cons]
      cases mark
      · exact ⟨h.head_free, List.forall_mem_cons.2 ⟨hquote, hrest.quotes⟩,
          List.forall_mem_cons.2 ⟨hbody, hrest.bodies_free⟩⟩
      · exact ⟨h.head_free, List.forall_mem_cons.2 ⟨hquote, hrest.quotes⟩,
          List.forall_mem_cons.2 ⟨hf _ hbody, hrest.bodies_free⟩⟩

/-- Amending replaces the stretches marked. -/
theorem amend_eq_replaced (f : Specifier → Specifier) (marks : List Bool) (ss : List Stretch) :
    amend f marks ss = replaced (fun s => { s with body := f s.body }) marks ss := rfl

theorem picked_eq_selected (marks : List Bool) (ss : List Stretch) :
    picked marks ss = (selected marks ss).map body := by
  induction ss generalizing marks with
  | nil => cases marks <;> simp [picked, selected]
  | cons s ss ih =>
    cases marks with
    | nil => simp [picked, selected]
    | cons mark marks => cases mark <;> simp [picked, selected, ih]

/-- Amending twice is amending once what either marks, if it makes no
difference to a body that it is amended again. -/
theorem amend_amend (hf : ∀ x, f (f x) = f x) {marks' : List Bool}
    (hlen : marks.length = ss.length) (hlen' : marks'.length = ss.length) :
    amend f marks' (amend f marks ss) = amend f (List.zipWith (· || ·) marks marks') ss :=
  replaced_replaced (fun s => by simp [hf]) hlen hlen'

theorem picked_amend (f : Specifier → Specifier) (marks : List Bool) (ss : List Stretch) :
    picked marks (amend f marks ss) = (picked marks ss).map f := by
  rw [picked_eq_selected, amend_eq_replaced, selected_replaced, picked_eq_selected, List.map_map,
    List.map_map]
  rfl

theorem picked_eq_nil (h : true ∉ marks) : picked marks ss = [] := by
  induction ss generalizing marks with
  | nil => cases marks <;> rfl
  | cons s ss ih =>
    rcases marks with - | ⟨- | -, marks⟩
    · rfl
    · exact ih fun hmem => h (List.mem_cons_of_mem _ hmem)
    · exact absurd List.mem_cons_self h

/-- Bodies that stay as they are. -/
theorem amend_eq_self (hlen : marks.length = ss.length) (hf : ∀ x ∈ picked marks ss, f x = x) :
    amend f marks ss = ss := by
  refine replaced_eq_self hlen fun s hs => ?_
  have hbody : f s.body = s.body := by
    apply hf
    rw [picked_eq_selected]
    exact List.mem_map_of_mem hs
  rw [hbody]

theorem picked_unmarked (pre ss : List Stretch) (marks : List Bool) :
    picked (List.replicate pre.length false ++ marks) (pre ++ ss) = picked marks ss := by
  induction pre with
  | nil => rfl
  | cons p pre ih => simpa [List.replicate_succ, picked] using ih

end Stretch

end DualPackage
