import DualPackage.Proofs.Disk.Growth
import DualPackage.Proofs.Path.Normalized
/-!
# Ways without their dots

A dot among the steps of a path stays where it is, yet it is not idle: behind a
file it makes the way fail. So a path and the one that `Path.normalized` makes
of it lead to the same directory (`stat_normalized_dir`), but only one that does
not ask for a directory leads to the same file (`stat_normalized`). Together
with the path of which nothing is left this tells when the two exist alike
(`pathExists_normalized_eq_iff`).
-/

namespace DualPackage

namespace Disk

variable {d : Disk} {loc start : Location} {way : List String} {follow slash slash' : Bool}
  {links : ℕ} {content : ByteArray} {p : Path}
  {jump : Location → List String → Bool → Except DiskFault Spot}

/-! ## Dots in a way -/

/-- A way without its dots. -/
def bare (way : List String) : List String :=
  way.filter (· != ".")

theorem bare_dot (way : List String) : bare ("." :: way) = bare way := rfl

theorem bare_step {step : String} (h : step ≠ ".") (way : List String) :
    bare (step :: way) = step :: bare way :=
  List.filter_cons_of_pos (by simpa using h)

theorem bare_append_bare (target way : List String) :
    bare (target ++ bare way) = bare (target ++ way) := by
  simp [bare, List.filter_append, List.filter_filter]

/-- A way that does not end in a dot ends in the same step without its dots. -/
theorem getLast?_bare (h : way.getLast? ≠ some ".") : (bare way).getLast? = way.getLast? := by
  rcases List.eq_nil_or_concat way with rfl | ⟨front, last, rfl⟩
  · rfl
  · rw [List.concat_eq_append, List.getLast?_concat] at h
    have hlast : bare [last] = [last] := bare_step (fun heq => h (congrArg some heq)) []
    rw [List.concat_eq_append, bare, List.filter_append, List.getLast?_concat]
    show (_ ++ bare [last]).getLast? = _
    rw [hlast, List.getLast?_concat]

theorem getLast?_tail {step : String} (h : (step :: way).getLast? ≠ some ".") :
    way.getLast? ≠ some "." := by
  cases way with
  | nil => simp
  | cons next way => simpa [List.getLast?_cons_cons] using h

theorem isEmpty_bare (h : way.getLast? ≠ some ".") : (bare way).isEmpty = way.isEmpty := by
  have hlast := getLast?_bare h
  cases way with
  | nil => rfl
  | cons step way =>
    cases hbare : bare (step :: way) with
    | nil => simp [hbare, List.getLast?_cons] at hlast
    | cons next rest => rfl

/-! ## Directories -/

theorem advance_dir_iff
    (hjump : ∀ l w s s', jump l w s = .ok (.dir loc) ↔ jump l (bare w) s' = .ok (.dir loc)) :
    d.advance true jump slash start way = .ok (.dir loc) ↔
      d.advance true jump slash' start (bare way) = .ok (.dir loc) := by
  induction way generalizing start with
  | nil => rfl
  | cons step rest ih =>
    by_cases hdot : step = "."
    · subst hdot
      rw [bare_dot, advance, if_pos rfl]
      exact ih
    · rw [bare_step hdot, advance, advance, if_neg hdot, if_neg hdot]
      by_cases hup : step = ".."
      · rw [if_pos hup, if_pos hup]
        exact ih
      · rw [if_neg hup, if_neg hup]
        dsimp only
        cases d.get? (start ++ [step]) with
        | none => dsimp only; split <;> split <;> simp
        | some entry =>
          cases entry with
          | dir => exact ih
          | file content => dsimp only; split <;> split <;> simp
          | link target =>
            simp only [Bool.not_true, Bool.and_false, Bool.false_eq_true, if_false]
            -- the steps of the target come first, and keep their dots on both sides
            rw [hjump _ _ _ false, hjump _ (_ ++ bare rest) _ false, bare_append_bare]

theorem resolveFrom_dir_iff :
    d.resolveFrom true links start way slash = .ok (.dir loc) ↔
      d.resolveFrom true links start (bare way) slash' = .ok (.dir loc) := by
  induction links generalizing start way slash slash' with
  | zero => exact advance_dir_iff fun _ _ _ _ => Iff.rfl
  | succ links ih => exact advance_dir_iff fun _ _ _ _ => ih

/-! ## Files -/

/-- A way that does not end in a dot does without any. -/
theorem advance_bare (hlast : way.getLast? ≠ some ".")
    (hjump : ∀ l w s, w.getLast? ≠ some "." → jump l w s = jump l (bare w) s) :
    d.advance true jump slash start way = d.advance true jump slash start (bare way) := by
  induction way generalizing start with
  | nil => rfl
  | cons step rest ih =>
    have hrest := getLast?_tail hlast
    by_cases hdot : step = "."
    · subst hdot
      rw [bare_dot, advance, if_pos rfl]
      exact ih hrest
    · rw [bare_step hdot, advance, advance, if_neg hdot, if_neg hdot, isEmpty_bare hrest]
      by_cases hup : step = ".."
      · rw [if_pos hup, if_pos hup, ih hrest]
      · rw [if_neg hup, if_neg hup]
        dsimp only
        cases d.get? (start ++ [step]) with
        | none => rfl
        | some entry =>
          cases entry with
          | dir => exact ih hrest
          | file content => rfl
          | link target =>
            simp only [Bool.not_true, Bool.and_false, Bool.false_eq_true, if_false]
            cases rest with
            | nil => rfl
            | cons next rest =>
              have hne : bare (next :: rest) ≠ [] := by
                rw [← List.isEmpty_eq_false_iff, isEmpty_bare hrest]
                rfl
              have hends : ∀ (target rest : List String), rest ≠ [] → rest.getLast? ≠ some "." →
                  (target ++ rest).getLast? ≠ some "." := by
                intro target rest hne hrest
                rwa [List.getLast?_append_of_ne_nil _ hne]
              rw [hjump _ _ _ (hends _ _ (List.cons_ne_nil _ _) hrest),
                hjump _ (_ ++ bare _) _ (hends _ _ hne (by rwa [getLast?_bare hrest])),
                bare_append_bare]

theorem resolveFrom_bare (hlast : way.getLast? ≠ some ".") :
    d.resolveFrom true links start way slash = d.resolveFrom true links start (bare way) slash := by
  induction links generalizing start way slash with
  | zero => exact advance_bare hlast fun _ _ _ _ => rfl
  | succ links ih => exact advance_bare hlast fun _ _ _ => ih

/-- A way that ends in a dot leads to no file. -/
theorem advance_ne_file (hlast : way.getLast? = some ".")
    (hjump : ∀ l w s, w.getLast? = some "." → jump l w s ≠ .ok (.file loc content slash')) :
    d.advance true jump slash start way ≠ .ok (.file loc content slash') := by
  induction way generalizing start with
  | nil => cases hlast
  | cons step rest ih =>
    by_cases hdot : step = "."
    · subst hdot
      rw [advance, if_pos rfl]
      cases rest with
      | nil => rw [advance]; simp
      | cons next rest => exact ih (by rwa [List.getLast?_cons_cons] at hlast)
    · cases rest with
      | nil => exact absurd (by simpa using hlast) hdot
      | cons next rest =>
        rw [List.getLast?_cons_cons] at hlast
        rw [advance, if_neg hdot]
        split
        · exact ih hlast
        · dsimp only
          split
          · simp
          · exact ih hlast
          · simp
          · simp only [Bool.not_true, Bool.and_false, Bool.false_eq_true, if_false]
            refine hjump _ _ _ ?_
            rwa [List.getLast?_append_of_ne_nil _ (List.cons_ne_nil _ _)]

theorem resolveFrom_ne_file (hlast : way.getLast? = some ".") :
    d.resolveFrom true links start way slash ≠ .ok (.file loc content slash') := by
  induction links generalizing start way slash with
  | zero => exact advance_ne_file hlast fun _ _ _ _ h => by cases h
  | succ links ih => exact advance_ne_file hlast fun _ _ _ => ih

/-! ## Paths -/

theorem resolveFrom_nil : d.resolveFrom follow links start [] slash = .ok (.dir start) := by
  cases links <;> rfl

/-- A path of something else than dots is resolved along its steps, if no zero
byte stands in it. -/
theorem resolve_of_not_onlyDots (h : ¬ p.OnlyDots) :
    d.resolve true p = if p.text.toList.contains '\x00' then .error .zeroByteInName
      else d.resolveFrom true linkLimit (if p.isAbsolute then [] else d.cwd) (steps p)
        p.endsInSlash := by
  have hne : ¬ p.text.isEmpty := by
    intro hempty
    refine h ?_
    rw [show p = ⟨""⟩ from congrArg Path.mk (String.isEmpty_iff.1 hempty)]
    decide
  rw [resolve, if_neg hne]

theorem resolve_normalized (h : ¬ p.OnlyDots) :
    d.resolve true p.normalized = if p.text.toList.contains '\x00' then .error .zeroByteInName
      else d.resolveFrom true linkLimit (if p.isAbsolute then [] else d.cwd) (bare (steps p))
        p.normalized.endsInSlash := by
  have hne : ¬ p.normalized.text.isEmpty := by
    rwa [Path.isEmpty_normalized]
  have hzero : p.normalized.text.toList.contains '\x00' = p.text.toList.contains '\x00' := by
    rw [Bool.eq_iff_iff, List.contains_iff_mem, List.contains_iff_mem]
    exact Path.mem_normalized (by decide) (by decide) p
  rw [resolve, if_neg hne, hzero, Path.isAbsolute_normalized, Path.steps_normalized]
  rfl

/-- **A path leads to the same directory** without its dots. -/
theorem stat_normalized_dir (h : ¬ p.OnlyDots) :
    d.stat p.normalized = .ok (.dir loc) ↔ d.stat p = .ok (.dir loc) := by
  rw [stat_eq_dir_iff, stat_eq_dir_iff, resolve_of_not_onlyDots h, resolve_normalized h]
  split
  · rfl
  · exact resolveFrom_dir_iff.symm

/-- **A path that does not ask for a directory** leads to the same without its
dots. -/
theorem stat_normalized (h : ¬ p.OnlyDots) (hasks : ¬ p.AsksDir) :
    d.stat p.normalized = d.stat p := by
  obtain ⟨hslash, hlast⟩ := not_or.1 hasks
  have hway : ∀ links start, d.resolveFrom true links start (bare (steps p))
      p.normalized.endsInSlash = d.resolveFrom true links start (steps p) p.endsInSlash := by
    intro links start
    rw [resolveFrom_bare hlast, Bool.eq_false_of_not_eq_true hslash]
    cases hbare : bare (steps p) with
    | nil => rw [resolveFrom_nil, resolveFrom_nil]
    | cons step rest =>
      have hne : p.location ≠ [] := by
        show bare (steps p) ≠ []
        simp [hbare]
      rw [Path.endsInSlash_normalized hne]
  rw [stat, stat, resolve_of_not_onlyDots h, resolve_normalized h, hway]

/-- A path that asks for a directory leads to no file. -/
theorem stat_ne_file_of_asksDir (hasks : p.AsksDir) : d.stat p ≠ .ok (.file loc content) := by
  intro hstat
  rw [stat_eq_file_iff] at hstat
  unfold resolve at hstat
  split at hstat
  · cases hstat
  · split at hstat
    · cases hstat
    · rcases hasks with hslash | hlast
      · rw [hslash] at hstat
        exact absurd (resolveFrom_asksDir hstat) (by simp [Spot.AsksDir])
      · exact resolveFrom_ne_file hlast hstat

/-! ## Existence -/

theorem pathExists_iff : d.pathExists p ↔ ∃ standing, d.stat p = .ok standing := by
  rw [pathExists]
  cases d.stat p <;> simp [Except.isOk, Except.toBool]

/-- A path of dots leads to the working directory, if there is a text at all. -/
theorem pathExists_of_onlyDots (h : p.OnlyDots) (hne : p.text.isEmpty = false) :
    d.pathExists p := by
  obtain ⟨habs, hloc⟩ := h
  have hdots : ∀ step ∈ steps p, step = "." := by
    simpa [Path.location, List.filter_eq_nil_iff] using hloc
  have hzero : p.text.toList.contains '\x00' = false := by
    rw [← Bool.not_eq_true, List.contains_iff_mem, Path.mem_text_iff (by decide)]
    rintro ⟨step, hstep, hmem⟩
    rw [hdots step hstep] at hmem
    exact absurd (List.mem_singleton.1 hmem) (by decide)
  refine pathExists_iff.2 ⟨.dir d.cwd, stat_eq_dir_iff.2 ?_⟩
  rw [resolve, hne, if_neg (by decide), hzero, if_neg (by decide), habs, if_neg (by decide)]
  have hnone : d.resolveFrom true linkLimit d.cwd (bare (steps p)) false = .ok (.dir d.cwd) := by
    rw [show bare (steps p) = [] from hloc, resolveFrom_nil]
  exact resolveFrom_dir_iff.2 hnone

/-- Nothing is left of a path of dots, and so it leads nowhere. -/
theorem stat_normalized_of_onlyDots (h : p.OnlyDots) : d.stat p.normalized = .error .notFound := by
  rw [stat, resolve, if_pos ((Path.isEmpty_normalized p).2 h)]
  rfl

/-- It matters that a path loses its dots and the slash at its end: nothing is
left of it, or it asks for a directory where there is a file. -/
def DotsMatter (d : Disk) (p : Path) : Prop :=
  p.OnlyDots ∨ p.AsksDir ∧ ∃ loc content, d.stat p.normalized = .ok (.file loc content)

/-- **A path exists without its dots** as it does with them, but for the two
cases where they matter. There it is the other way round. -/
theorem pathExists_normalized_eq_iff (hne : p.text.isEmpty = false) :
    d.pathExists p.normalized = d.pathExists p ↔ ¬ d.DotsMatter p := by
  by_cases hdots : p.OnlyDots
  · have hmatter : d.DotsMatter p := .inl hdots
    have hexists := pathExists_of_onlyDots (d := d) hdots hne
    rw [pathExists, stat_normalized_of_onlyDots hdots, hexists]
    simpa [Except.isOk, Except.toBool] using hmatter
  · by_cases hasks : p.AsksDir
    · have hmatter :
        d.DotsMatter p ↔ ∃ loc content, d.stat p.normalized = .ok (.file loc content) :=
        ⟨fun h => (h.resolve_left hdots).2, fun h => .inr ⟨hasks, h⟩⟩
      have hexists : d.pathExists p ↔ ∃ loc, d.stat p.normalized = .ok (.dir loc) := by
        rw [pathExists_iff]
        constructor
        · rintro ⟨standing, hstanding⟩
          cases standing with
          | dir loc => exact ⟨loc, (stat_normalized_dir hdots).2 hstanding⟩
          | file loc content => exact absurd hstanding (stat_ne_file_of_asksDir hasks)
        · rintro ⟨loc, hdir⟩
          exact ⟨_, (stat_normalized_dir hdots).1 hdir⟩
      rw [Bool.eq_iff_iff, hexists, hmatter, pathExists_iff]
      cases d.stat p.normalized with
      | error fault => simp
      | ok standing => cases standing <;> simp
    · have hmatter : ¬ d.DotsMatter p := not_or.2 ⟨hdots, fun h => hasks h.1⟩
      rw [pathExists, pathExists, stat_normalized hdots hasks]
      simpa using hmatter

end Disk

end DualPackage
