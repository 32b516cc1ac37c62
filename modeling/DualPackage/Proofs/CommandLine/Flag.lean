import DualPackage.Proofs.CommandLine.Spelling
/-!
# The verbose flag among the arguments

Asking for progress messages changes nothing else about what the arguments ask
for. Arguments that ask for an invocation still do with the flag put first
(`readArguments_flag_first`), and wherever else the flag is put and accepted, the
invocation differs in its verbosity only (`ofArguments_flag_among`).
-/

namespace DualPackage

namespace CommandLine

variable {p q : Progress} {inv inv' : Invocation} {args front back : List String}
  {flag arg name value : String} {option : Valued} {level : Level}

namespace Progress

/-! ## Raised progress -/

/-- Progress messages have been asked for, on this level or above. -/
def isLoud (p : Progress) : Bool :=
  p.above.verbose || p.here.verbose

/-- The same, with progress messages asked for above and here as well. -/
def raise (p : Progress) (above here : Bool) : Progress :=
  ⟨p.level, { p.here with verbose := p.here.verbose || here },
    { p.above with verbose := p.above.verbose || above }⟩

theorem flag_raise (h : p.flag name = .proceed q) (hquiet : q.isLoud = false) :
    p.isLoud = false ∧ ∀ a b, (p.raise a b).flag name = .proceed (q.raise a b) := by
  unfold flag at h
  split_ifs at h with hhelp hverbose hhere hlevel hversion hinit hhere hforce hhere <;> cases h
  · simp [isLoud] at hquiet
  · exact ⟨hquiet, fun a b => by simp [flag, raise, hinit, hlevel, hhere]⟩
  · exact ⟨hquiet, fun a b => by simp [flag, raise, hforce, hlevel, hhere]⟩

theorem letters_raise {cluster : List Char} (h : letters cluster p = .proceed q)
    (hquiet : q.isLoud = false) :
    p.isLoud = false ∧ ∀ a b, letters cluster (p.raise a b) = .proceed (q.raise a b) := by
  induction cluster generalizing p with
  | nil =>
    cases h
    exact ⟨hquiet, fun _ _ => rfl⟩
  | cons c cluster ih =>
    rw [letters] at h
    split at h
    · rename_i p' hflag
      obtain ⟨hquiet', hrest⟩ := ih h
      obtain ⟨hquiet, hfirst⟩ := flag_raise hflag hquiet'
      refine ⟨hquiet, fun a b => ?_⟩
      rw [letters, hfirst]
      exact hrest a b
    · rename_i hother
      exact absurd h (hother q)

theorem giveValue?_raise (h : p.giveValue? option value = some q) :
    q.isLoud = p.isLoud ∧ ∀ a b, (p.raise a b).giveValue? option value = some (q.raise a b) := by
  unfold giveValue? at h ⊢
  split at h
  · cases h
  · rename_i hvalue
    cases option <;> dsimp only at h <;> split at h <;> cases h <;> rename_i hhere
    · exact ⟨rfl, fun a b => by simp [raise, hvalue, hhere]⟩
    · exact ⟨rfl, fun a b => by simp [raise, hvalue, hhere]⟩

/-- Below a subcommand, what has been asked for counts as above. -/
theorem enter_raise (p : Progress) (level : Level) :
    (p.enter level).isLoud = p.isLoud ∧
      ∀ a b, (p.raise a b).enter level = (p.enter level).raise (a || b) false := by
  refine ⟨by simp [isLoud, enter, Given.under, Given.nothing], fun a b => ?_⟩
  simp [raise, enter, Given.under, Given.nothing]
  ac_rfl

theorem finish_raise (h : p.finish = .invoke inv) :
    inv.verbose = p.isLoud ∧
      ∀ a b, (p.raise a b).finish = .invoke { inv with verbose := p.isLoud || (a || b) } := by
  have hunder : ∀ a b, (p.raise a b).above.under (p.raise a b).here =
      { p.above.under p.here with verbose := p.isLoud || (a || b) } := by
    intro a b
    simp only [Given.under, raise, isLoud, Given.mk.injEq, true_and, and_true]
    ac_rfl
  have hlevel : ∀ a b, (p.raise a b).level = p.level := fun _ _ => rfl
  unfold finish at h ⊢
  dsimp only at h ⊢
  split at h
  · cases h
  · rename_i hforce
    simp only [hunder, hlevel, hforce, Bool.false_eq_true, if_false]
    split at h
    all_goals cases h
    all_goals exact ⟨rfl, fun _ _ => rfl⟩

end Progress

/-! ## Readings -/

theorem readArguments_subcommand (hword : ∀ c cluster, arg.toList = '-' :: c :: cluster → False)
    (hlevel : p.subcommand? arg = some level) :
    readArguments p (arg :: args) = readArguments (p.enter level) args := by
  rw [readArguments]
  split
  · exact absurd ‹_› (hword _ _)
  · exact absurd ‹_› (hword _ _)
  · exact absurd ‹_› (hword _ _)
  · rw [hlevel]

/-- **A raised reading** gives the same invocation, with the verbosity asked for.
The levels above have to be quiet as well as this one, since the verbosity of
all levels ends up in the invocation. -/
theorem readArguments_raise (h : readArguments p args = .invoke inv)
    (hquiet : inv.verbose = false) :
    p.isLoud = false ∧
      ∀ a b, readArguments (p.raise a b) args = .invoke { inv with verbose := a || b } := by
  fun_induction readArguments p args <;> try cases h
  -- No more arguments, or only the two dashes that end the options.
  case case1 p =>
    obtain ⟨hloud, hraise⟩ := Progress.finish_raise h
    rw [hquiet] at hloud
    exact ⟨hloud.symm, fun a b => by rw [readArguments, hraise, ← hloud, Bool.false_or]⟩
  case case2 p arg rest harg hrest =>
    obtain ⟨hloud, hraise⟩ := Progress.finish_raise h
    rw [hquiet] at hloud
    refine ⟨hloud.symm, fun a b => ?_⟩
    simp only [readArguments, harg, hrest, if_true]
    rw [hraise, ← hloud, Bool.false_or]
  -- An option with its value, after `=` or as the next argument.
  case case4 p arg rest body hbody harg name option value hvalued q hgive hsplit ih =>
    obtain ⟨hloud, hraise⟩ := Progress.giveValue?_raise hgive
    obtain ⟨hquiet, hrest⟩ := ih h
    refine ⟨hloud ▸ hquiet, fun a b => ?_⟩
    rw [← hrest a b]
    simp [readArguments, harg, hsplit, hvalued, hraise]
  case case8 p arg body hbody harg name option hvalued value rest hvalue q hgive hsplit ih =>
    obtain ⟨hloud, hraise⟩ := Progress.giveValue?_raise hgive
    obtain ⟨hquiet, hrest⟩ := ih h
    refine ⟨hloud ▸ hquiet, fun a b => ?_⟩
    rw [← hrest a b]
    simp [readArguments, harg, hsplit, hvalued, hraise, hvalue]
  -- A flag by its name, or a cluster of letters.
  case case14 p arg rest body hbody harg name hvalued q hflag hsplit ih =>
    obtain ⟨hquiet, hrest⟩ := ih h
    obtain ⟨hloud, hraise⟩ := Progress.flag_raise hflag hquiet
    refine ⟨hloud, fun a b => ?_⟩
    rw [← hrest a b]
    simp [readArguments, harg, hsplit, hvalued, hraise]
  case case18 p arg rest c cluster hdashes hdash harg q hletters ih =>
    obtain ⟨hquiet, hrest⟩ := ih h
    obtain ⟨hloud, hraise⟩ := Progress.letters_raise hletters hquiet
    refine ⟨hloud, fun a b => ?_⟩
    rw [← hrest a b]
    simp [readArguments, harg, hraise]
  -- A subcommand.
  case case19 p arg rest level hlevel hdashes hlong hshort ih =>
    obtain ⟨hquiet, hrest⟩ := ih h
    obtain ⟨hloud, hraise⟩ := Progress.enter_raise p level
    refine ⟨hloud ▸ hquiet, fun a b => ?_⟩
    have hlevel' : (p.raise a b).subcommand? arg = some level := hlevel
    rw [readArguments_subcommand hshort hlevel', hraise, hrest, Bool.or_false]

/-! ## The flag -/

theorem readArguments_flag (hflag : flag = "--verbose" ∨ flag = "-v")
    (hhere : p.here.verbose = false) :
    readArguments p (flag :: args) = readArguments (p.raise false true) args := by
  have hverbose : p.flag "verbose" = .proceed (p.raise false true) := by
    simp [Progress.flag, Progress.raise, hhere]
  rcases hflag with rfl | rfl
  · exact readArguments_named "verbose" rfl (by decide) rfl hverbose
  · have hchars : "-v".toList = ['-', 'v'] := rfl
    simp [readArguments, hchars, Progress.letters, hverbose]

/-- Where a quiet invocation is read, the flag may stand in front of it. -/
theorem readArguments_flag_first (hflag : flag = "--verbose" ∨ flag = "-v")
    (h : readArguments p args = .invoke inv) (hquiet : inv.verbose = false) :
    readArguments p (flag :: args) = .invoke { inv with verbose := true } := by
  obtain ⟨hloud, hraise⟩ := readArguments_raise h hquiet
  have hhere : p.here.verbose = false := (Bool.or_eq_false_iff.mp hloud).2
  rw [readArguments_flag hflag hhere, hraise]
  rfl

/-- The induction is on the reading of what stands before the flag. The flag is
no value of an option before it, and what stops a reading there stops both. -/
theorem readArguments_flag_among (hflag : flag = "--verbose" ∨ flag = "-v")
    (h : readArguments p (front ++ back) = .invoke inv)
    (h' : readArguments p (front ++ flag :: back) = .invoke inv') (hquiet : inv.verbose = false) :
    inv' = { inv with verbose := true } := by
  have hoption : looksLikeOption flag = true := by
    rcases hflag with rfl | rfl <;> rfl
  fun_induction readArguments p front
  case case1 p =>
    rw [List.nil_append] at h h'
    rw [readArguments_flag_first hflag h hquiet] at h'
    cases h'
    rfl
  case case4 ih | case8 ih | case14 ih | case18 ih =>
    exact ih (by simpa [readArguments, *] using h) (by simpa [readArguments, *] using h')
  case case19 p arg rest level hlevel hdashes hlong hshort ih =>
    rw [List.cons_append, readArguments_subcommand hshort hlevel] at h h'
    exact ih h h'
  -- A word that is no subcommand asks for help or is wrong, whatever follows.
  case case20 | case21 | case22 =>
    simp only [List.cons_append, readArguments, *] at h
    split at h <;> first | cases h | (split at h <;> cases h)
  all_goals simp_all [readArguments]

/-- The second arguments are the first with the flag put in somewhere. -/
def FlagAdded (quiet loud : List String) : Prop :=
  ∃ front back flag, (flag = "--verbose" ∨ flag = "-v") ∧
    quiet = front ++ back ∧ loud = front ++ flag :: back

/-- **The flag put anywhere**, if it is accepted there, asks for the same with
progress messages. -/
theorem ofArguments_flag_among {quiet loud : List String} (hadded : FlagAdded quiet loud)
    (h : Request.ofArguments quiet = .invoke inv) (h' : Request.ofArguments loud = .invoke inv')
    (hquiet : inv.verbose = false) : inv' = { inv with verbose := true } := by
  obtain ⟨front, back, flag, hflag, rfl, rfl⟩ := hadded
  exact readArguments_flag_among hflag h h' hquiet

end CommandLine

end DualPackage
