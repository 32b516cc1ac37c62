import DualPackage.CommandLine.Arguments
import Mathlib.Data.List.TakeWhile
import Mathlib.Tactic.SplitIfs
/-!
# What arguments can ask for

A value of an option is never empty, and a template is forced only where one is
asked for (`Invocation.Proper`). Nothing else is ruled out: each invocation that
is proper has arguments that ask for it, the values behind the names of their
options, then the flags, and last the action. So these are the invocations that
arguments can ask for, and no others (`exists_ofArguments_iff`).
-/

namespace DualPackage

namespace CommandLine

variable {p q : Progress} {inv : Invocation} {args : List String} {name value : String}
  {option : Valued} {level : Level}

/-- What can be asked for. -/
structure Invocation.Proper (inv : Invocation) : Prop where
  root : inv.root ≠ some ""
  config : inv.config ≠ some ""
  force : inv.force → inv.init

/-- Arguments that ask for an invocation. -/
def Invocation.spelled (inv : Invocation) : List String :=
  (inv.root.map ("--root=" ++ ·)).toList ++ (inv.config.map ("--config=" ++ ·)).toList ++
    (if inv.verbose then ["--verbose"] else []) ++ (if inv.init then ["--init"] else []) ++
    (if inv.force then ["--force"] else []) ++
    match inv.action with
    | none => []
    | some .showConfig => ["config", "show"]
    | some .validate => ["config", "validate"]

/-! ## Nothing else is read -/

namespace Progress

/-- No value that has been given is empty. -/
def Filled (p : Progress) : Prop :=
  p.here.root ≠ some "" ∧ p.here.config ≠ some "" ∧
    p.above.root ≠ some "" ∧ p.above.config ≠ some ""

theorem Filled.flag (hp : p.Filled) (h : p.flag name = .proceed q) : q.Filled := by
  unfold Progress.flag at h
  split_ifs at h <;> cases h <;> exact hp

theorem Filled.letters {cluster : List Char} (hp : p.Filled)
    (h : Progress.letters cluster p = .proceed q) : q.Filled := by
  induction cluster generalizing p with
  | nil =>
    cases h
    exact hp
  | cons c cluster ih =>
    rw [Progress.letters] at h
    split at h
    · exact ih (hp.flag ‹_›) h
    · rename_i hother
      exact absurd h (hother q)

theorem Filled.giveValue? (hp : p.Filled) (h : p.giveValue? option value = some q) :
    q.Filled := by
  unfold Progress.giveValue? at h
  split at h
  · cases h
  · rename_i hvalue
    have hne : some value ≠ some "" := by simpa using hvalue
    obtain ⟨hroot, hconfig, habove⟩ := hp
    cases option <;> dsimp only at h <;> split at h <;> cases h
    · exact ⟨hne, hconfig, habove⟩
    · exact ⟨hroot, hne, habove⟩

theorem under_ne {upper lower : Option String} (hlower : lower ≠ some "")
    (hupper : upper ≠ some "") : lower.or upper ≠ some "" := by
  cases lower <;> assumption

theorem Filled.enter (hp : p.Filled) (level : Level) : (p.enter level).Filled := by
  obtain ⟨hroot, hconfig, hroot', hconfig'⟩ := hp
  exact ⟨nofun, nofun, under_ne hroot hroot', under_ne hconfig hconfig'⟩

theorem Filled.finish (hp : p.Filled) (h : p.finish = .invoke inv) : inv.Proper := by
  obtain ⟨hroot, hconfig, hroot', hconfig'⟩ := hp
  unfold Progress.finish at h
  dsimp only at h
  split at h
  · cases h
  · rename_i hforce
    have hinit : (p.above.under p.here).force → (p.above.under p.here).init := by simpa using hforce
    split at h <;> cases h <;>
      exact ⟨under_ne hroot hroot', under_ne hconfig hconfig', hinit⟩

end Progress

theorem readArguments_proper (hp : p.Filled) (h : readArguments p args = .invoke inv) :
    inv.Proper := by
  fun_induction readArguments p args <;> try cases h
  case case1 | case2 => exact hp.finish h
  case case4 hgive _ ih => exact ih (hp.giveValue? hgive) h
  case case8 hgive _ ih => exact ih (hp.giveValue? hgive) h
  case case14 hflag _ ih => exact ih (hp.flag hflag) h
  case case18 hletters ih => exact ih (hp.letters hletters) h
  case case19 hlevel _ _ _ ih => exact ih (hp.enter _) h

/-! ## And all of it can be spelled -/

/-- An option with its value behind its name. -/
theorem readArguments_valued (hname : valued? name = some option)
    (hgive : p.giveValue? option value = some q) :
    readArguments p (("--" ++ name ++ "=" ++ value) :: args) = readArguments q args := by
  obtain ⟨c, rest, hchars, hequals⟩ :
      ∃ c rest, name.toList = c :: rest ∧ name.toList.all (· != '=') := by
    unfold valued? at hname
    split_ifs at hname with hroot hconfig
    · exact ⟨_, _, by rw [hroot]; rfl, by rw [hroot]; rfl⟩
    · exact ⟨_, _, by rw [hconfig]; rfl, by rw [hconfig]; rfl⟩
  have harg : ("--" ++ name ++ "=" ++ value).toList =
      '-' :: '-' :: c :: (rest ++ '=' :: value.toList) := by
    simp [hchars]
  have hsplit : splitLong (c :: (rest ++ '=' :: value.toList)) = (name, some value) := by
    rw [← List.cons_append, ← hchars]
    simp [splitLong, List.takeWhile_append_of_pos (List.all_eq_true.1 hequals)]
  simp only [readArguments, harg, hsplit, hname, hgive]

/-- A flag by its name. -/
theorem readArguments_named (name : String) (hname : name.toList.all (· != '=')) (hne : name ≠ "")
    (hvalued : valued? name = none) (hflag : p.flag name = .proceed q) :
    readArguments p (("--" ++ name) :: args) = readArguments q args := by
  obtain ⟨c, rest, hchars⟩ : ∃ c rest, name.toList = c :: rest :=
    List.exists_cons_of_ne_nil fun hnil => hne (String.toList_eq_nil_iff.1 hnil)
  have harg : ("--" ++ name).toList = '-' :: '-' :: c :: rest := by simp [hchars]
  have hsplit : splitLong (c :: rest) = (name, none) := by
    have hwhole : name.toList.takeWhile (· != '=') = name.toList :=
      List.takeWhile_eq_self_iff.2 (List.all_eq_true.1 hname)
    rw [← hchars]
    simp [splitLong, hwhole]
  simp only [readArguments, harg, hsplit, hvalued, hflag]

/-- The options with a value, if any, whatever follows them. -/
theorem readArguments_options {root config : Option String} (hroot : root ≠ some "")
    (hconfig : config ≠ some "") (args : List String) :
    readArguments ⟨.top, .nothing, .nothing⟩
        ((root.map ("--root=" ++ ·)).toList ++ ((config.map ("--config=" ++ ·)).toList ++ args)) =
      readArguments ⟨.top, ⟨root, config, false, false, false⟩, .nothing⟩ args := by
  have hread : ∀ args, readArguments ⟨.top, .nothing, .nothing⟩
      ((root.map ("--root=" ++ ·)).toList ++ args) =
        readArguments ⟨.top, ⟨root, none, false, false, false⟩, .nothing⟩ args := by
    intro args
    cases root with
    | none => rfl
    | some value =>
      have hvalue : value ≠ "" := fun hempty => hroot (congrArg some hempty)
      have hname : valued? "root" = some .root := rfl
      refine readArguments_valued hname ?_
      simp [Progress.giveValue?, hvalue, Given.nothing]
  rw [hread]
  cases config with
  | none => rfl
  | some value =>
    have hvalue : value ≠ "" := fun hempty => hconfig (congrArg some hempty)
    have hname : valued? "config" = some .config := rfl
    refine readArguments_valued hname ?_
    simp [Progress.giveValue?, hvalue]

/-- A flag, if it is asked for. `q` is how far the arguments are read with it and
without. -/
theorem readArguments_flagged (name : String) (q : Bool → Progress)
    (hname : name.toList.all (· != '=')) (hne : name ≠ "") (hvalued : valued? name = none)
    (hflag : (q false).flag name = .proceed (q true)) (asked : Bool) (args : List String) :
    readArguments (q false) ((if asked then ["--" ++ name] else []) ++ args) =
      readArguments (q asked) args := by
  cases asked with
  | false => rfl
  | true => exact readArguments_named name hname hne hvalued hflag

/-- The flags that are asked for, whatever follows them. -/
theorem readArguments_flags (root config : Option String) (verbose init force : Bool)
    (args : List String) :
    readArguments ⟨.top, ⟨root, config, false, false, false⟩, .nothing⟩
        ((if verbose then ["--verbose"] else []) ++
          ((if init then ["--init"] else []) ++ ((if force then ["--force"] else []) ++ args))) =
      readArguments ⟨.top, ⟨root, config, verbose, init, force⟩, .nothing⟩ args := by
  calc
    _ = readArguments ⟨.top, ⟨root, config, verbose, false, false⟩, .nothing⟩ _ :=
      readArguments_flagged "verbose" (fun b => ⟨.top, ⟨root, config, b, false, false⟩, .nothing⟩)
        rfl (by decide) rfl rfl verbose _
    _ = readArguments ⟨.top, ⟨root, config, verbose, init, false⟩, .nothing⟩ _ :=
      readArguments_flagged "init" (fun b => ⟨.top, ⟨root, config, verbose, b, false⟩, .nothing⟩)
        rfl (by decide) rfl rfl init _
    _ = readArguments ⟨.top, ⟨root, config, verbose, init, force⟩, .nothing⟩ args :=
      readArguments_flagged "force" (fun b => ⟨.top, ⟨root, config, verbose, init, b⟩, .nothing⟩)
        rfl (by decide) rfl rfl force _

/-- The action, with all options given before it. -/
theorem readArguments_action (given : Given) (hforce : given.force → given.init)
    (action : Option Action) :
    readArguments ⟨.top, given, .nothing⟩
        (match action with
          | none => []
          | some .showConfig => ["config", "show"]
          | some .validate => ["config", "validate"]) =
      .invoke ⟨given.root, given.config, given.verbose, given.init, given.force, action⟩ := by
  have hfinish : ∀ p : Progress, p.above.under p.here = given →
      p.level = action.elim .top .action → p.finish =
        .invoke ⟨given.root, given.config, given.verbose, given.init, given.force, action⟩ := by
    intro p hall hlevel
    unfold Progress.finish
    simp only [hall, hlevel]
    rw [if_neg (by simpa using hforce)]
    cases action <;> rfl
  have hhere : Given.nothing.under given = given := by
    simp [Given.under, Given.nothing]
  have habove : ((Given.nothing.under given).under .nothing).under .nothing = given := by
    simp [Given.under, Given.nothing]
  rcases action with - | - | -
  · exact hfinish _ hhere rfl
  · exact hfinish _ habove rfl
  · exact hfinish _ habove rfl

/-- **Every proper invocation** can be asked for. -/
theorem ofArguments_spelled (h : inv.Proper) : Request.ofArguments inv.spelled = .invoke inv := by
  simp only [Request.ofArguments, Invocation.spelled, List.append_assoc]
  rw [readArguments_options h.root h.config, readArguments_flags]
  exact readArguments_action ⟨inv.root, inv.config, inv.verbose, inv.init, inv.force⟩ h.force
    inv.action

/-- **What can be asked for** are the proper invocations. -/
theorem exists_ofArguments_iff :
    (∃ args, Request.ofArguments args = .invoke inv) ↔ inv.Proper := by
  have hnothing : Progress.Filled ⟨.top, .nothing, .nothing⟩ := ⟨nofun, nofun, nofun, nofun⟩
  constructor
  · rintro ⟨args, h⟩
    exact readArguments_proper hnothing h
  · exact fun h => ⟨inv.spelled, ofArguments_spelled h⟩

end CommandLine

end DualPackage
