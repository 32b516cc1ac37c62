import DualPackage.Proofs.Alias.Inside
/-!
# Extensions and aliases in either order

On a well quoted text each pass replaces the specifiers of a fixed choice
of passages, and the choice does not depend on what the other pass has
written. So the order of the passes comes down to that of two functions
on one specifier, and `AliasTable.resolved_extended` settles it: the
passes commute, and together they leave nothing for either to do
(`passes_commute`).
-/

namespace DualPackage

open Text Stretch Passage

/-- A pass behind one that changed nothing. -/
theorem Revision.unchanged_followedBy (text : List Char) (second : List Char → Revision) :
    (Revision.unchanged text).followedBy second = second text := by
  simp [Revision.unchanged, Revision.followedBy]

/-- A text whose quotes come in pairs, around plain specifiers. -/
structure Passage.IsPlain (head : List Char) (ps : List Passage) : Prop where
  paired : IsPaired head ps
  plain : ∀ p ∈ ps, p.specifier.all isPlain

/-- The passages that one of the passes over extensions takes. -/
def Passage.extendible (head : List Char) (ps : List Passage) : List Bool :=
  List.zipWith (· || ·) (Form.importFrom.chosen head ps) (Form.exportFrom.chosen head ps)

/-- The passages that the pass over aliases takes. -/
def Passage.resolvable (head : List Char) (ps : List Passage) : List Bool :=
  Form.anyFrom.chosen head ps

namespace Passage

variable {head : List Char} {ps : List Passage} {marks : List Bool} {f : Specifier → Specifier}
  {table : AliasTable}

@[simp] theorem length_extendible (head : List Char) (ps : List Passage) :
    (extendible head ps).length = ps.length := by
  simp [extendible]

@[simp] theorem length_resolvable (head : List Char) (ps : List Passage) :
    (resolvable head ps).length = ps.length := by
  simp [resolvable]

theorem IsPlain.all_isPlain_of_mem_marked (h : IsPlain head ps) {s : Specifier}
    (hs : s ∈ marked marks ps) : s.all isPlain := by
  obtain ⟨p, hp, rfl⟩ := exists_of_mem_marked hs
  exact h.plain p hp

theorem keepsPlain_extended {s : Specifier} (hs : s.all isPlain) :
    Form.KeepsPlain Specifier.extended s := by
  by_cases hneeds : s.needsExtension
  · have hext : Specifier.scriptExtension.all isPlain := by decide
    rw [Form.KeepsPlain, Specifier.extended_of_needsExtension hneeds, List.all_append, hs, hext]
    refine ⟨rfl, ?_⟩
    obtain ⟨c, s, rfl⟩ : ∃ c s', s = c :: s' := by
      cases s with
      | nil => cases hneeds
      | cons c s => exact ⟨c, s, rfl⟩
    rfl
  · rw [Bool.not_eq_true] at hneeds
    rw [Form.KeepsPlain, Specifier.extended_of_not_needsExtension hneeds]
    exact ⟨hs, rfl⟩

/-- Rewording by plain specifiers keeps a text plain. -/
theorem IsPlain.reword (h : IsPlain head ps) (hlen : marks.length = ps.length)
    (hf : ∀ s ∈ marked marks ps, Form.KeepsPlain f s) : IsPlain head (reword f marks ps) where
  paired := h.paired.reword hlen fun s hs => List.all_eq_true.2 fun c hc =>
    inSpecifier_of_isPlain (List.all_eq_true.1 (hf s hs).1 c hc)
  plain := by
    have hplain := h.plain
    clear h
    induction ps generalizing marks with
    | nil => simp
    | cons p ps ih =>
      obtain ⟨mark, marks, rfl⟩ := List.exists_cons_of_length_eq_add_one hlen
      have hrest := ih (by simpa using hlen)
        (fun s hs => hf s (by cases mark <;> simp [marked, hs]))
        (fun p hp => hplain p (by simp [hp]))
      rw [reword_cons]
      cases mark with
      | false => exact List.forall_mem_cons.2 ⟨hplain p (by simp), hrest⟩
      | true =>
        exact List.forall_mem_cons.2 ⟨(hf p.specifier (by simp [marked])).1, hrest⟩

/-- And it changes no choice of passages. -/
theorem IsPlain.chosen_reword (h : IsPlain head ps) (hlen : marks.length = ps.length)
    (hf : ∀ s ∈ marked marks ps, Form.KeepsPlain f s) {form : Form} (hform : form ≠ .jsonImport) :
    form.chosen head (Passage.reword f marks ps) = form.chosen head ps :=
  Form.chosen_reword hform h.paired h.plain hf hlen (Form.Alike.refl form head)

theorem IsPlain.extendible_reword (h : IsPlain head ps) (hlen : marks.length = ps.length)
    (hf : ∀ s ∈ marked marks ps, Form.KeepsPlain f s) :
    extendible head (Passage.reword f marks ps) = extendible head ps := by
  rw [extendible, h.chosen_reword hlen hf (by decide), h.chosen_reword hlen hf (by decide),
    extendible]

/-- The specifiers that the pass over aliases takes are not empty. -/
theorem ne_nil_of_mem_resolvable {sofar : List Char} {s : Specifier}
    (hs : s ∈ marked (resolvable sofar ps) ps) : s ≠ [] := by
  unfold resolvable at hs
  fun_induction Form.chosen Form.anyFrom sofar ps with
  | case1 => simp [marked] at hs
  | case2 sofar p ps htakes ih =>
    simp only [marked, if_true, List.mem_cons] at hs
    rcases hs with rfl | hs
    · simp only [Form.takes, Form.accepts, Bool.and_eq_true, Bool.not_eq_true',
        List.isEmpty_eq_false_iff] at htakes
      exact htakes.2
    · exact ih hs
  | case3 sofar p ps htakes ih => exact ih (by simpa [marked] using hs)

/-! ## The passes on plain texts -/

section Passes

variable (h : IsPlain head ps)
include h

theorem IsPlain.keepsPlain_extended {s : Specifier} (hs : s ∈ marked marks ps) :
    Form.KeepsPlain Specifier.extended s :=
  Passage.keepsPlain_extended (h.all_isPlain_of_mem_marked hs)

theorem IsPlain.keepsPlain_resolved (htable : ∀ a ∈ table.entries, a.PointsInside) {s : Specifier}
    (hs : s ∈ marked (resolvable head ps) ps) : Form.KeepsPlain table.resolved s :=
  AliasTable.keepsPlain_resolved htable (h.all_isPlain_of_mem_marked hs)
    (ne_nil_of_mem_resolvable hs)

theorem IsPlain.text_appendExtensions :
    (appendExtensions (text head ps)).text =
      text head (Passage.reword Specifier.extended (extendible head ps) ps) := by
  have hkeeps : ∀ s ∈ marked (Form.importFrom.chosen head ps) ps,
      Form.KeepsPlain Specifier.extended s := fun s hs => h.keepsPlain_extended hs
  have himports := h.reword (by simp) hkeeps
  have hexports : Form.exportFrom.chosen head
      (Passage.reword Specifier.extended (Form.importFrom.chosen head ps) ps) =
        Form.exportFrom.chosen head ps := h.chosen_reword (by simp) hkeeps (by decide)
  rw [appendExtensions, Revision.followedBy, Form.revise_text h.paired]
  show (Form.exportFrom.revise _ (text head (Passage.reword Specifier.extended _ ps))).text = _
  rw [Form.revise_text himports.paired, hexports]
  show text head (Passage.reword Specifier.extended _ _) = _
  rw [reword_reword Specifier.extended_extended (by simp) (by simp), extendible]

theorem IsPlain.text_resolveAliases :
    (resolveAliases table true (text head ps)).text =
      text head (Passage.reword table.resolved (resolvable head ps) ps) := by
  rw [resolveAliases, Form.revise_text h.paired]
  rfl

/-- The pass over extensions is idle where the specifiers it takes have them. -/
theorem IsPlain.appendExtensions_eq_unchanged
    (hfix : ∀ s ∈ marked (extendible head ps) ps, Specifier.extended s = s) :
    appendExtensions (text head ps) = .unchanged (text head ps) := by
  have himports : Form.importFrom.revise Specifier.withScriptExtension? (text head ps) =
      .unchanged (text head ps) := Form.revise_text_eq_unchanged h.paired
    fun s hs => hfix s (mem_marked_or (by simp) (by simp) (.inl hs))
  have hexports : Form.exportFrom.revise Specifier.withScriptExtension? (text head ps) =
      .unchanged (text head ps) := Form.revise_text_eq_unchanged h.paired
    fun s hs => hfix s (mem_marked_or (by simp) (by simp) (.inr hs))
  rw [appendExtensions, himports, Revision.unchanged_followedBy, hexports]

theorem IsPlain.resolveAliases_eq_unchanged
    (hfix : ∀ s ∈ marked (resolvable head ps) ps, table.resolved s = s) :
    resolveAliases table true (text head ps) = .unchanged (text head ps) :=
  Form.revise_text_eq_unchanged h.paired hfix

end Passes

/-! ## Both passes -/

section Both

variable (h : IsPlain head ps) (htable : ∀ a ∈ table.entries, a.PointsInside)
include h

theorem IsPlain.isPlain_extended :
    IsPlain head (Passage.reword Specifier.extended (extendible head ps) ps) :=
  h.reword (by simp) fun _ hs => h.keepsPlain_extended hs

/-- Neither pass sees the extensions. -/
theorem IsPlain.extendible_extended :
    extendible head (Passage.reword Specifier.extended (extendible head ps) ps) =
      extendible head ps :=
  h.extendible_reword (by simp) fun _ hs => h.keepsPlain_extended hs

theorem IsPlain.resolvable_extended :
    resolvable head (Passage.reword Specifier.extended (extendible head ps) ps) =
      resolvable head ps :=
  h.chosen_reword (by simp) (fun _ hs => h.keepsPlain_extended hs) (by decide)

/-- What both passes come to, the extensions first. -/
theorem IsPlain.text_both :
    (resolveAliases table true (appendExtensions (text head ps)).text).text =
      text head (Passage.reword table.resolved (resolvable head ps)
        (Passage.reword Specifier.extended (extendible head ps) ps)) := by
  rw [h.text_appendExtensions, h.isPlain_extended.text_resolveAliases, h.resolvable_extended]

include htable

theorem IsPlain.isPlain_resolved :
    IsPlain head (Passage.reword table.resolved (resolvable head ps) ps) :=
  h.reword (by simp) fun _ hs => h.keepsPlain_resolved htable hs

/-- Nor does either see the resolved paths. -/
theorem IsPlain.extendible_resolved :
    extendible head (Passage.reword table.resolved (resolvable head ps) ps) =
      extendible head ps :=
  h.extendible_reword (by simp) fun _ hs => h.keepsPlain_resolved htable hs

theorem IsPlain.resolvable_resolved :
    resolvable head (Passage.reword table.resolved (resolvable head ps) ps) =
      resolvable head ps :=
  h.chosen_reword (by simp) (fun _ hs => h.keepsPlain_resolved htable hs) (by decide)

/-- So the order does not matter. -/
theorem IsPlain.text_both_comm :
    (appendExtensions (resolveAliases table true (text head ps)).text).text =
      (resolveAliases table true (appendExtensions (text head ps)).text).text := by
  rw [h.text_both, h.text_resolveAliases, (h.isPlain_resolved htable).text_appendExtensions,
    h.extendible_resolved htable, reword_comm (AliasTable.resolved_extended table)]

/-- After both, neither pass finds anything to do. -/
theorem IsPlain.both_stable :
    let both := (resolveAliases table true (appendExtensions (text head ps)).text).text
    appendExtensions both = .unchanged both ∧ resolveAliases table true both = .unchanged both := by
  intro both
  have hboth : both = text head (Passage.reword table.resolved (resolvable head ps)
      (Passage.reword Specifier.extended (extendible head ps) ps)) := h.text_both
  have hE := h.isPlain_extended
  have hfinal := hE.isPlain_resolved htable
  have hextendible := (hE.extendible_resolved htable).trans h.extendible_extended
  have hresolvable := (hE.resolvable_resolved htable).trans h.resolvable_extended
  rw [h.resolvable_extended] at hfinal hextendible hresolvable
  rw [hboth]
  constructor
  · refine hfinal.appendExtensions_eq_unchanged fun s hs => ?_
    rw [hextendible, reword_comm (AliasTable.resolved_extended table), marked_reword,
      List.mem_map] at hs
    obtain ⟨s, -, rfl⟩ := hs
    exact Specifier.extended_extended s
  · refine hfinal.resolveAliases_eq_unchanged fun s hs => ?_
    rw [hresolvable, marked_reword, List.mem_map] at hs
    obtain ⟨s, -, rfl⟩ := hs
    exact AliasTable.resolved_resolved htable s

end Both

end Passage

/-- A well quoted text is settled by both passes. -/
theorem WellQuoted.both_stable {text : List Char} {table : AliasTable} (htext : WellQuoted text)
    (htable : ∀ a ∈ table.entries, a.PointsInside) :
    let both := (resolveAliases table true (appendExtensions text).text).text
    appendExtensions both = .unchanged both ∧ resolveAliases table true both = .unchanged both := by
  obtain ⟨head, ps, hpaired, rfl, hplain⟩ := htext.exists_passages
  have h : IsPlain head ps := ⟨hpaired, hplain⟩
  exact h.both_stable htable

/-- **The passes commute, and together they are stable.** -/
theorem passes_commute {text : List Char} {table : AliasTable} (htext : WellQuoted text)
    (htable : ∀ a ∈ table.entries, a.PointsInside) :
    let both := (resolveAliases table true (appendExtensions text).text).text
    (appendExtensions (resolveAliases table true text).text).text = both ∧
      appendExtensions both = .unchanged both ∧
      resolveAliases table true both = .unchanged both := by
  obtain ⟨head, ps, hpaired, rfl, hplain⟩ := htext.exists_passages
  have h : IsPlain head ps := ⟨hpaired, hplain⟩
  exact ⟨h.text_both_comm htable, htext.both_stable htable⟩

/-- An alias and a relative path, in an import and an export. -/
theorem passes_commute_aliased :
    let text := "import a from '@app/a';\nexport \x7b b \x7d from \"./b\";\n".toList
    let table : AliasTable := ⟨[⟨"@app/*", "./src"⟩]⟩
    WellQuoted text ∧ (∀ a ∈ table.entries, a.PointsInside) ∧
      (appendExtensions (resolveAliases table true text).text).text =
        (resolveAliases table true (appendExtensions text).text).text := by
  intro text table
  have htext : WellQuoted text := by decide +kernel
  have htable : ∀ a ∈ table.entries, a.PointsInside := by decide +kernel
  exact ⟨htext, htable, (passes_commute htext htable).1⟩

end DualPackage
