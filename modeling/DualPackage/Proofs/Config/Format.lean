import DualPackage.Config.Load
import Mathlib.Data.Option.Basic
/-!
# The format of a configuration

The format is told twice. `Documented` says which objects are in it, key by
key. `checks` lists what a text has to pass, each check told by itself and
in the order of the documentation; the first that does not pass decides the
failure. `ofText_format` shows that loading a text is to pass these checks,
that the objects in the format are the ones that pass them all, and that
nothing but the documented keys is looked at.
-/

namespace DualPackage

namespace Json

namespace Value

/-- The text of a string. -/
def string? : Value → Option String
  | .string s => some s
  | _ => none

/-- The items of an array. -/
def array? : Value → Option (List Value)
  | .array items => some items
  | _ => none

/-- The fields of an object. -/
def object? : Value → Option Fields
  | .object fields => some fields
  | _ => none

variable {v : Value}

@[simp] theorem kind_eq_boolean : v.kind = .boolean ↔ ∃ b, v = .bool b := by
  cases v <;> simp [kind]

@[simp] theorem kind_eq_string : v.kind = .string ↔ ∃ s, v = .string s := by
  cases v <;> simp [kind]

@[simp] theorem kind_eq_array : v.kind = .array ↔ ∃ items, v = .array items := by
  cases v <;> simp [kind]

@[simp] theorem kind_eq_object : v.kind = .object ↔ ∃ fields, v = .object fields := by
  cases v <;> simp [kind]

end Value

end Json

namespace Config

open Json (Value Fields Kind)

variable {α β : Type}

/-! ## Checks -/

/-- A check is told by the failure it reports, if it does not pass. -/
abbrev Check := Option Failure

/-- The check that a value, where there is one, is as it has to be. -/
def check (value? : Option α) (passes : α → Bool) (failure : α → Failure) : Check :=
  value?.bind fun a => if passes a then none else some (failure a)

/-- The check that a value, where there is one, is of a kind. -/
def kindCheck (value? : Option Value) (kind : Kind) (fault : Kind → ConfigFault) : Check :=
  check value? (fun v => v.kind = kind) fun v => .configInvalid (fault v.kind)

/-- What comes of checks: the failure of the first that does not pass, and
`a` if all of them pass. -/
def verdict (checks : List Check) (a : α) : Except Failure α :=
  match checks.findSome? id with
  | some failure => .error failure
  | none => .ok a

section Check

variable {value? : Option α} {passes : α → Bool} {failure : α → Failure} {a : α} {b : β}
  {list more : List Check} {e : Failure}

@[simp] theorem check_none : check none passes failure = none := rfl

theorem check_some : check (some a) passes failure = if passes a then none else some (failure a) :=
  rfl

@[simp] theorem check_eq_none :
    check value? passes failure = none ↔ ∀ a, value? = some a → passes a = true := by
  cases value? <;> simp [check]

theorem exists_of_check (h : check value? passes failure = some e) : ∃ a, e = failure a := by
  obtain ⟨a, -, ha⟩ := Option.bind_eq_some_iff.1 h
  split at ha
  · cases ha
  · exact ⟨a, (Option.some.inj ha).symm⟩

@[simp] theorem kindCheck_eq_none {v? : Option Value} {kind : Kind} {fault : Kind → ConfigFault} :
    kindCheck v? kind fault = none ↔ ∀ v, v? = some v → v.kind = kind := by
  simp [kindCheck]

@[simp] theorem verdict_nil : verdict [] a = .ok a := rfl

@[simp] theorem verdict_none_cons : verdict (none :: list) a = verdict list a := rfl

@[simp] theorem verdict_some_cons : verdict (some e :: list) a = .error e := rfl

/-- All checks pass. -/
def Pass (list : List Check) : Prop :=
  ∀ c ∈ list, c = none

@[simp] theorem pass_nil : Pass [] := by simp [Pass]

@[simp] theorem pass_cons {c : Check} : Pass (c :: list) ↔ c = none ∧ Pass list := by
  simp [Pass]

@[simp] theorem pass_append : Pass (list ++ more) ↔ Pass list ∧ Pass more := by
  simp [Pass, or_imp, forall_and]

@[simp] theorem pass_flatMap {l : List α} {f : α → List Check} :
    Pass (l.flatMap f) ↔ ∀ a ∈ l, Pass (f a) := by
  simp only [Pass, List.mem_flatMap, forall_exists_index, and_imp]
  exact ⟨fun h a ha c hc => h c a ha hc, fun h c a ha hc => h a ha c hc⟩

@[simp] theorem pass_map {l : List α} {f : α → Check} : Pass (l.map f) ↔ ∀ a ∈ l, f a = none := by
  simp [Pass]

theorem verdict_of_pass (h : Pass list) : verdict list a = .ok a := by
  induction list with
  | nil => rfl
  | cons c list ih =>
    obtain ⟨rfl, hlist⟩ := pass_cons.1 h
    exact ih hlist

theorem verdict_append_of_pass (h : Pass list) : verdict (list ++ more) a = verdict more a := by
  induction list with
  | nil => rfl
  | cons c list ih =>
    obtain ⟨rfl, hlist⟩ := pass_cons.1 h
    exact ih hlist

/-- Checks that do not all pass come to a failure, whatever is checked after
them and for whatever value. -/
theorem exists_verdict_append (h : ¬ Pass list) :
    ∃ e, some e ∈ list ∧ ∀ (α : Type) (a : α) (more), verdict (list ++ more) a = .error e := by
  induction list with
  | nil => exact absurd pass_nil h
  | cons c list ih =>
    cases c with
    | some e => exact ⟨e, by simp, fun _ _ _ => rfl⟩
    | none =>
      obtain ⟨e, he, hall⟩ := ih fun hlist => h (pass_cons.2 ⟨rfl, hlist⟩)
      exact ⟨e, by simp [he], hall⟩

/-- **Checking in two steps** is to pass the checks of both. The second step
is asked for only where the first has passed. -/
theorem bind_eq_verdict {x : Except Failure α} {f : α → Except Failure β}
    (hx : x = verdict list a) (hf : Pass list → f a = verdict more b) :
    (x >>= f) = verdict (list ++ more) b := by
  by_cases h : Pass list
  · rw [hx, verdict_of_pass h, verdict_append_of_pass h, ← hf h]
    rfl
  · obtain ⟨e, -, hall⟩ := exists_verdict_append h
    have hhere := hall α a []
    rw [List.append_nil] at hhere
    rw [hx, hhere, hall]
    rfl

theorem ok_bind {f : α → Except Failure β} : (Except.ok a >>= f) = f a := rfl

theorem map_eq_verdict {x : Except Failure α} {f : α → β} (hx : x = verdict list a) :
    (x >>= fun a => .ok (f a)) = verdict list (f a) := by
  have h := bind_eq_verdict (f := fun a => .ok (f a)) hx fun _ => (verdict_nil (a := f a)).symm
  rwa [List.append_nil] at h

theorem verdict_eq_ok {b : α} : verdict list a = .ok b ↔ Pass list ∧ b = a := by
  by_cases h : Pass list
  · simp [verdict_of_pass h, h, eq_comm]
  · obtain ⟨e, -, hall⟩ := exists_verdict_append h
    have hhere := hall α a []
    rw [List.append_nil] at hhere
    simp [hhere, h]

end Check

/-! ## The checks of the format -/

variable (disk : Disk) (root : Path)

/-- The checks of a string that must not be blank. -/
def textChecks (key : String) (value? : Option Value) : List Check :=
  [kindCheck value? .string (.notString key),
    check (value?.bind Value.string?) (fun s => !Text.allBlank s.toList) fun _ =>
      .configInvalid (.blankString key)]

/-- The check that a path exists. -/
def existsCheck (key : String) (path? : Option Path) : Check :=
  check path? disk.pathExists (.pathNotFound key)

/-- The check of a flag. -/
def flagCheck (fields : Fields) (key : String) : Check :=
  kindCheck (fields.get? key) .boolean (.notBoolean key)

/-- The checks of an output directory: only one that is not `auto` has to be
there. -/
def dirChecks (fields : Fields) (kind : ModuleKind) : List Check :=
  let text? := (fields.get? kind.configKey).bind Value.string?
  textChecks kind.configKey (fields.get? kind.configKey) ++
    [existsCheck disk kind.configKey
      ((text?.filter fun s => s ≠ autoDir).map fun s => resolvePath root ⟨s⟩)]

/-- The checks of one entry of `exclude`. -/
def endingChecks (entry : Value) : List Check :=
  textChecks "copyFiles.exclude" (some entry) ++
    [check entry.string? (fun s => s.toList.head? == some '.') fun s =>
      .configInvalid (.badEnding s)]

/-- The entries of `exclude`. -/
def excluded (policy : Fields) : List Value :=
  ((policy.get? "exclude").bind Value.array?).getD []

/-- The directory that a policy copies from. -/
def sourceOf (policy : Fields) : Path :=
  resolvePath root (((policy.get? "from").bind Value.string?).elim defaultSource Path.mk)

/-- The checks of a copy policy. -/
def policyChecks (policy : Fields) : List Check :=
  kindCheck (policy.get? "exclude") .array .excludeNotArray ::
    ((excluded policy).flatMap endingChecks ++
      (textChecks "copyFiles.from" (policy.get? "from") ++
        [existsCheck disk "copyFiles.from" (some (sourceOf root policy))]))

/-- The checks of `copyFiles`. -/
def copyChecks (fields : Fields) : List Check :=
  kindCheck (fields.get? "copyFiles") .object .copyFilesNotObject ::
    ((fields.get? "copyFiles").bind Value.object?).elim [] (policyChecks disk root)

/-- The entries of `aliases`. -/
def aliasesOf? (fields : Fields) : Option Fields :=
  (fields.get? "aliases").bind Value.object?

/-- The checks of `aliases`. -/
def aliasChecks (fields : Fields) : List Check :=
  kindCheck (fields.get? "aliases") .object .aliasesNotObject ::
    ((aliasesOf? fields).getD []).map fun entry =>
      kindCheck (some entry.2) .string (.aliasNotString entry.1)

/-- The checks of an object, in the order in which they are made. -/
def fieldChecks (fields : Fields) : List Check :=
  flagCheck fields "verbose" ::
    (dirChecks disk root fields .esm ++
      (dirChecks disk root fields .cjs ++
        (copyChecks disk root fields ++
          (flagCheck fields "addExtensions" ::
            aliasChecks fields))))

/-- The object that a text holds. -/
def object? (text : String) : Option Fields :=
  (Json.parse text).toOption.bind Value.object?

/-- The check that a text is JSON. -/
def jsonCheck (text : String) (path : Path) : Check :=
  match Json.parse text with
  | .error fault => some (.configNotJson path fault)
  | .ok _ => none

/-- The checks of a text, in the order in which they are made. -/
def checks (text : String) (path : Path) : List Check :=
  jsonCheck text path ::
    kindCheck (Json.parse text).toOption .object .notObject ::
      (object? text).elim [] (fieldChecks disk root)

/-! ## What an object describes -/

/-- Whether a flag is set. -/
def isSet (fields : Fields) (key : String) : Bool :=
  match fields.get? key with
  | some (.bool b) => b
  | _ => false

/-- The output directory of a tree. -/
def dirOf? (fields : Fields) (kind : ModuleKind) : Option Path :=
  ((fields.get? kind.configKey).bind Value.string?).map fun s =>
    resolvePath root (if s = autoDir then kind.defaultDir else ⟨s⟩)

/-- The copy policy. -/
def policyOf? (fields : Fields) : Option CopyPolicy :=
  ((fields.get? "copyFiles").bind Value.object?).map fun policy =>
    .ofEndings (sourceOf root policy) ((excluded policy).filterMap Value.string?)

/-- The pairs of names and paths among the entries of `aliases`. -/
def pairs (entries : Fields) : List (String × String) :=
  entries.filterMap fun entry => entry.2.string?.map (entry.1, ·)

/-- The configuration that the values of the documented keys describe. -/
def described (fields : Fields) : Config where
  root := root
  esmDir := dirOf? root fields .esm
  cjsDir := dirOf? root fields .cjs
  copyFiles := policyOf? root fields
  addExtensions := isSet fields "addExtensions"
  aliases := (aliasesOf? fields).map fun entries => .ofList (pairs entries)
  verbose := isSet fields "verbose"

/-! ## Loading is checking -/

variable {disk root} {fields policy : Fields} {key : String} {value : Value} {kind : ModuleKind}

theorem textChecks_none : textChecks key none = [none, none] := rfl

theorem pass_textChecks_some : Pass (textChecks key (some value)) ↔
    ∃ s, value = .string s ∧ Text.allBlank s.toList = false := by
  cases value <;> simp [textChecks, Value.string?]

theorem flag_eq_verdict : flag fields key = verdict [flagCheck fields key] (isSet fields key) := by
  unfold flag flagCheck isSet
  cases fields.get? key with
  | none => rfl
  | some value => cases value <;> rfl

theorem nonBlank_eq_verdict :
    nonBlank key value = verdict (textChecks key (some value)) (value.string?.getD "") := by
  cases value with
  | string s =>
    by_cases h : Text.allBlank s.toList = true <;>
      simp [nonBlank, textChecks, kindCheck, check_some, Value.string?, Value.kind, h]
  | _ => rfl

theorem existing_eq_verdict {p : Path} :
    existing disk key p = verdict [existsCheck disk key (some p)] p := by
  cases h : disk.pathExists p <;> simp [existing, existsCheck, check_some, h]

theorem loadDir_eq_verdict :
    loadDir disk root fields kind = verdict (dirChecks disk root fields kind)
      (dirOf? root fields kind) := by
  unfold loadDir dirChecks dirOf?
  cases fields.get? kind.configKey with
  | none => rfl
  | some value =>
    refine bind_eq_verdict nonBlank_eq_verdict fun hpass => ?_
    obtain ⟨s, rfl, -⟩ := pass_textChecks_some.1 hpass
    by_cases hauto : s = autoDir
    · simp [Value.string?, existsCheck, Option.filter, hauto]
    · simp only [Value.string?, Option.getD_some, Option.bind_some, Option.filter_some, hauto,
        ne_eq, not_false_eq_true, decide_true, if_true, if_false, Option.map_some]
      exact map_eq_verdict existing_eq_verdict

theorem loadEndings_eq_verdict {entries : List Value} :
    loadEndings entries = verdict (entries.flatMap endingChecks)
      (entries.filterMap Value.string?) := by
  induction entries with
  | nil => rfl
  | cons entry rest ih =>
    rw [List.flatMap_cons, endingChecks, List.append_assoc]
    refine bind_eq_verdict nonBlank_eq_verdict fun hpass => ?_
    obtain ⟨s, rfl, -⟩ := pass_textChecks_some.1 hpass
    by_cases hdot : (s.toList.head? == some '.') = true
    · simp only [Value.string?, Option.getD_some, hdot, if_true, check_some, List.cons_append,
        List.nil_append, verdict_none_cons, List.filterMap_cons]
      exact map_eq_verdict ih
    · simp only [Value.string?, Option.getD_some, hdot, check_some, List.cons_append]
      rfl

theorem loadExclude_eq_verdict :
    loadExclude policy = verdict (kindCheck (policy.get? "exclude") .array .excludeNotArray ::
      (excluded policy).flatMap endingChecks) ((excluded policy).filterMap Value.string?) := by
  unfold loadExclude excluded
  cases policy.get? "exclude" with
  | none => rfl
  | some value =>
    cases value with
    | array entries => exact loadEndings_eq_verdict
    | _ => rfl

theorem loadSource_eq_verdict :
    loadSource disk root policy = verdict
      (textChecks "copyFiles.from" (policy.get? "from") ++
        [existsCheck disk "copyFiles.from" (some (sourceOf root policy))])
      (sourceOf root policy) := by
  unfold loadSource sourceOf
  cases policy.get? "from" with
  | none =>
    simp only [textChecks_none, List.cons_append, List.nil_append, verdict_none_cons,
      Option.bind_none, Option.elim_none, ok_bind, existing_eq_verdict]
  | some value =>
    refine bind_eq_verdict nonBlank_eq_verdict fun hpass => ?_
    obtain ⟨s, rfl, -⟩ := pass_textChecks_some.1 hpass
    simp only [Value.string?, Option.getD_some, Option.bind_some, Option.elim_some, ok_bind,
      existing_eq_verdict]

theorem loadCopyFiles_eq_verdict :
    loadCopyFiles disk root fields = verdict (copyChecks disk root fields)
      (policyOf? root fields) := by
  unfold loadCopyFiles copyChecks policyOf?
  cases fields.get? "copyFiles" with
  | none => rfl
  | some value =>
    cases value with
    | object policy =>
      rw [Option.bind_some, Value.object?, Option.elim_some, policyChecks, ← List.cons_append]
      exact bind_eq_verdict loadExclude_eq_verdict fun _ => map_eq_verdict loadSource_eq_verdict
    | _ => rfl

theorem loadEntries_eq_verdict {table : AliasTable} {entries : Fields} :
    loadEntries table entries = verdict
      (entries.map fun entry => kindCheck (some entry.2) .string (.aliasNotString entry.1))
      ((pairs entries).foldl (fun table pair => table.insert pair.1 pair.2) table) := by
  induction entries generalizing table with
  | nil => rfl
  | cons entry rest ih =>
    obtain ⟨name, value⟩ := entry
    cases value with
    | string resolved => exact ih
    | _ => rfl

theorem loadAliases_eq_verdict :
    loadAliases fields = verdict (aliasChecks fields)
      ((aliasesOf? fields).map fun entries => .ofList (pairs entries)) := by
  unfold loadAliases aliasChecks aliasesOf?
  cases fields.get? "aliases" with
  | none => rfl
  | some value =>
    cases value with
    | object entries => exact map_eq_verdict loadEntries_eq_verdict
    | _ => rfl

theorem bind_flag_eq_verdict {f : Bool → Except Failure β} {b : β} {more : List Check}
    (h : f (isSet fields key) = verdict more b) :
    (flag fields key >>= f) = verdict (flagCheck fields key :: more) b := by
  have hboth := bind_eq_verdict flag_eq_verdict fun _ => h
  exact hboth

/-- **Loading an object** is to pass its checks, and then it is what it
describes. -/
theorem ofFields_eq_verdict :
    ofFields disk root fields = verdict (fieldChecks disk root fields) (described root fields) :=
  bind_flag_eq_verdict <|
    bind_eq_verdict loadDir_eq_verdict fun _ =>
      bind_eq_verdict loadDir_eq_verdict fun _ =>
        bind_eq_verdict loadCopyFiles_eq_verdict fun _ =>
          bind_flag_eq_verdict <|
            map_eq_verdict loadAliases_eq_verdict

/-- **Loading a text** is to pass its checks. -/
theorem ofText_eq_verdict {text : String} {path : Path} :
    ofText disk root text path = verdict (checks disk root text path)
      (described root ((object? text).getD [])) := by
  unfold ofText checks jsonCheck object?
  cases Json.parse text with
  | error fault => rfl
  | ok value =>
    cases value with
    | object fields => exact ofFields_eq_verdict
    | _ => rfl

/-! ## The objects in the format -/

variable (disk root) in
/-- A copy policy in the format. -/
structure DocumentedPolicy (policy : Fields) : Prop where
  exclude : ∀ v, policy.get? "exclude" = some v → ∃ entries, v = .array entries ∧
    ∀ entry ∈ entries, ∃ s, entry = .string s ∧ Text.allBlank s.toList = false ∧
      s.toList.head? = some '.'
  source : ∀ v, policy.get? "from" = some v → ∃ s, v = .string s ∧ Text.allBlank s.toList = false
  exists_source : disk.pathExists (sourceOf root policy) = true

variable (disk root) in
/-- An object in the format. A key that is absent is in the format, and what
stands under a key that is not named here does not matter. -/
structure Documented (fields : Fields) : Prop where
  flags : ∀ key ∈ ["verbose", "addExtensions"], ∀ v, fields.get? key = some v → ∃ b, v = .bool b
  dirs : ∀ kind : ModuleKind, ∀ v, fields.get? kind.configKey = some v → ∃ s, v = .string s ∧
    Text.allBlank s.toList = false ∧
      (s = autoDir ∨ disk.pathExists (resolvePath root ⟨s⟩) = true)
  copyFiles : ∀ v, fields.get? "copyFiles" = some v → ∃ policy, v = .object policy ∧
    DocumentedPolicy disk root policy
  aliases : ∀ v, fields.get? "aliases" = some v → ∃ entries, v = .object entries ∧
    ∀ entry ∈ entries, ∃ s, entry.2 = .string s

theorem pass_textChecks {value? : Option Value} : Pass (textChecks key value?) ↔
    ∀ v, value? = some v → ∃ s, v = .string s ∧ Text.allBlank s.toList = false := by
  cases value? with
  | none => simp [textChecks, kindCheck]
  | some value => simp [pass_textChecks_some]

theorem flagCheck_eq_none : flagCheck fields key = none ↔
    ∀ v, fields.get? key = some v → ∃ b, v = .bool b := by
  rw [flagCheck, kindCheck_eq_none]
  simp only [Value.kind_eq_boolean]

theorem pass_dirChecks : Pass (dirChecks disk root fields kind) ↔
    ∀ v, fields.get? kind.configKey = some v → ∃ s, v = .string s ∧
      Text.allBlank s.toList = false ∧
        (s = autoDir ∨ disk.pathExists (resolvePath root ⟨s⟩) = true) := by
  unfold dirChecks
  cases fields.get? kind.configKey with
  | none => simp [pass_textChecks, existsCheck]
  | some value =>
    cases value with
    | string s =>
      by_cases hauto : s = autoDir <;>
        simp [pass_textChecks, existsCheck, Value.string?, Option.filter, hauto]
    | _ => simp [pass_textChecks]

theorem pass_endingChecks : Pass (endingChecks value) ↔
    ∃ s, value = .string s ∧ Text.allBlank s.toList = false ∧ s.toList.head? = some '.' := by
  cases value with
  | string s => simp [endingChecks, pass_textChecks, Value.string?]
  | _ => simp [endingChecks, pass_textChecks]

theorem pass_excluded : (kindCheck (policy.get? "exclude") .array .excludeNotArray = none ∧
    Pass ((excluded policy).flatMap endingChecks)) ↔
    ∀ v, policy.get? "exclude" = some v → ∃ entries, v = .array entries ∧
      ∀ entry ∈ entries, ∃ s, entry = .string s ∧ Text.allBlank s.toList = false ∧
        s.toList.head? = some '.' := by
  unfold excluded
  cases policy.get? "exclude" with
  | none => simp
  | some value => cases value <;> simp [Value.array?, pass_endingChecks]

theorem pass_policyChecks :
    Pass (policyChecks disk root policy) ↔ DocumentedPolicy disk root policy := by
  rw [policyChecks, pass_cons, pass_append, ← and_assoc, pass_excluded, pass_append,
    pass_textChecks, pass_cons, existsCheck, check_eq_none]
  constructor
  · rintro ⟨hexclude, hsource, hexists, -⟩
    exact ⟨hexclude, hsource, hexists _ rfl⟩
  · intro h
    exact ⟨h.exclude, h.source, fun p hp => Option.some.inj hp ▸ h.exists_source, pass_nil⟩

theorem pass_copyChecks : Pass (copyChecks disk root fields) ↔
    ∀ v, fields.get? "copyFiles" = some v → ∃ policy, v = .object policy ∧
      DocumentedPolicy disk root policy := by
  unfold copyChecks
  cases fields.get? "copyFiles" with
  | none => simp
  | some value => cases value <;> simp [Value.object?, pass_policyChecks]

theorem pass_aliasChecks : Pass (aliasChecks fields) ↔
    ∀ v, fields.get? "aliases" = some v → ∃ entries, v = .object entries ∧
      ∀ entry ∈ entries, ∃ s, entry.2 = .string s := by
  unfold aliasChecks aliasesOf?
  cases fields.get? "aliases" with
  | none => simp
  | some value => cases value <;> simp [Value.object?]

/-- **The objects in the format** are the ones that pass all checks. -/
theorem pass_fieldChecks : Pass (fieldChecks disk root fields) ↔ Documented disk root fields := by
  simp only [fieldChecks, pass_cons, pass_append, flagCheck_eq_none, pass_dirChecks,
    pass_copyChecks, pass_aliasChecks]
  constructor
  · rintro ⟨hverbose, hesm, hcjs, hcopy, hextensions, haliases⟩
    exact ⟨List.forall_mem_cons.2 ⟨hverbose, List.forall_mem_singleton.2 hextensions⟩,
      fun | .esm => hesm | .cjs => hcjs, hcopy, haliases⟩
  · intro h
    exact ⟨h.flags _ (by simp), h.dirs .esm, h.dirs .cjs, h.copyFiles, h.flags _ (by simp),
      h.aliases⟩

theorem pass_checks {text : String} {path : Path} : Pass (checks disk root text path) ↔
    ∃ fields, Json.parse text = .ok (.object fields) ∧ Documented disk root fields := by
  unfold checks jsonCheck object?
  cases Json.parse text with
  | error fault => simp
  | ok value =>
    cases value <;> simp [Except.toOption, Value.object?, pass_fieldChecks]

/-! ## What the failures are about -/

/-- A check whose failures are about the configuration. -/
def OfConfig (c : Check) : Prop :=
  ∀ e ∈ c, e.isConfig = true

theorem ofConfig_check {value? : Option α} {passes : α → Bool} {failure : α → Failure}
    (h : ∀ a, (failure a).isConfig = true) : OfConfig (check value? passes failure) := by
  intro e he
  obtain ⟨a, rfl⟩ := exists_of_check he
  exact h a

/-- The checks of a text, with one more. -/
theorem ofConfig_textChecks_concat {value? : Option Value} {c : Check} (hc : OfConfig c) :
    ∀ c' ∈ textChecks key value? ++ [c], OfConfig c' :=
  List.forall_mem_cons.2 ⟨ofConfig_check fun _ => rfl,
    List.forall_mem_cons.2 ⟨ofConfig_check fun _ => rfl, List.forall_mem_singleton.2 hc⟩⟩

theorem ofConfig_dirChecks : ∀ c ∈ dirChecks disk root fields kind, OfConfig c :=
  ofConfig_textChecks_concat (ofConfig_check fun _ => rfl)

theorem ofConfig_policyChecks : ∀ c ∈ policyChecks disk root policy, OfConfig c := by
  refine List.forall_mem_cons.2 ⟨ofConfig_check fun _ => rfl, List.forall_mem_append.2 ⟨?_, ?_⟩⟩
  · intro c hc
    obtain ⟨entry, -, hc⟩ := List.mem_flatMap.1 hc
    exact ofConfig_textChecks_concat (ofConfig_check fun _ => rfl) c hc
  · exact ofConfig_textChecks_concat (ofConfig_check fun _ => rfl)

theorem ofConfig_copyChecks : ∀ c ∈ copyChecks disk root fields, OfConfig c := by
  refine List.forall_mem_cons.2 ⟨ofConfig_check fun _ => rfl, ?_⟩
  cases (fields.get? "copyFiles").bind Value.object? with
  | none => exact List.forall_mem_nil _
  | some policy => exact ofConfig_policyChecks

theorem ofConfig_aliasChecks : ∀ c ∈ aliasChecks fields, OfConfig c := by
  refine List.forall_mem_cons.2 ⟨ofConfig_check fun _ => rfl, List.forall_mem_map.2 ?_⟩
  exact fun entry _ => ofConfig_check fun _ => rfl

theorem ofConfig_checks {text : String} {path : Path} :
    ∀ c ∈ checks disk root text path, OfConfig c := by
  refine List.forall_mem_cons.2 ⟨?_, List.forall_mem_cons.2 ⟨ofConfig_check fun _ => rfl, ?_⟩⟩
  · unfold jsonCheck
    split
    · intro e he
      cases he
      rfl
    · intro e he
      cases he
  · cases object? text with
    | none => exact List.forall_mem_nil _
    | some fields =>
      exact List.forall_mem_cons.2 ⟨ofConfig_check fun _ => rfl,
        List.forall_mem_append.2 ⟨ofConfig_dirChecks, List.forall_mem_append.2 ⟨ofConfig_dirChecks,
          List.forall_mem_append.2 ⟨ofConfig_copyChecks,
            List.forall_mem_cons.2 ⟨ofConfig_check fun _ => rfl, ofConfig_aliasChecks⟩⟩⟩⟩⟩

/-! ## What a configuration depends on -/

/-- Policies with the same values under the keys of a policy. -/
def SamePolicy (policy policy' : Fields) : Prop :=
  ∀ key ∈ ["exclude", "from"], policy.get? key = policy'.get? key

/-- Objects with the same values under the documented keys, in whatever order
and with whatever other keys. Only the entries of `aliases` are the same in
their order too. -/
structure SameOptions (fields fields' : Fields) : Prop where
  options : ∀ key ∈ ["verbose", "esmDir", "cjsDir", "addExtensions", "aliases"],
    fields.get? key = fields'.get? key
  copyFiles : fields.get? "copyFiles" = fields'.get? "copyFiles" ∨
    ∃ policy policy', fields.get? "copyFiles" = some (.object policy) ∧
      fields'.get? "copyFiles" = some (.object policy') ∧ SamePolicy policy policy'

namespace SameOptions

variable {fields' : Fields}

theorem get?_configKey (h : SameOptions fields fields') (kind : ModuleKind) :
    fields.get? kind.configKey = fields'.get? kind.configKey :=
  h.options kind.configKey (by cases kind <;> simp [ModuleKind.configKey])

theorem copyChecks_eq (h : SameOptions fields fields') :
    copyChecks disk root fields = copyChecks disk root fields' := by
  rcases h.copyFiles with heq | ⟨policy, policy', hget, hget', hsame⟩
  · rw [copyChecks, copyChecks, heq]
  · simp only [copyChecks, hget, hget', Option.bind_some, Value.object?, Option.elim_some,
      policyChecks, excluded, sourceOf, hsame "exclude" (by simp), hsame "from" (by simp)]
    rfl

theorem policyOf?_eq (h : SameOptions fields fields') :
    policyOf? root fields = policyOf? root fields' := by
  rcases h.copyFiles with heq | ⟨policy, policy', hget, hget', hsame⟩
  · rw [policyOf?, policyOf?, heq]
  · simp only [policyOf?, hget, hget', Option.bind_some, Value.object?, Option.map_some,
      excluded, sourceOf, hsame "exclude" (by simp), hsame "from" (by simp)]

theorem fieldChecks_eq (h : SameOptions fields fields') :
    fieldChecks disk root fields = fieldChecks disk root fields' := by
  simp only [fieldChecks, flagCheck, dirChecks, aliasChecks, aliasesOf?, h.copyChecks_eq,
    h.get?_configKey, h.options "verbose" (by simp), h.options "addExtensions" (by simp),
    h.options "aliases" (by simp)]

theorem described_eq (h : SameOptions fields fields') :
    described root fields = described root fields' := by
  simp only [described, dirOf?, isSet, aliasesOf?, h.policyOf?_eq, h.get?_configKey,
    h.options "verbose" (by simp), h.options "addExtensions" (by simp),
    h.options "aliases" (by simp)]

end SameOptions

/-- **The format of a configuration.** A text is loaded if and only if it is
JSON for an object in the format, and then the configuration is the one the
object describes. Otherwise the failure is that of the first check that does
not pass, and it is about the configuration. Texts for objects with the same
options come to the same. -/
theorem ofText_format (disk : Disk) (root : Path) (text : String) (path : Path) :
    (∀ config, ofText disk root text path = .ok config ↔
      ∃ fields, Json.parse text = .ok (.object fields) ∧ Documented disk root fields ∧
        config = described root fields) ∧
    (∀ e, ofText disk root text path = .error e ↔
      (checks disk root text path).findSome? id = some e) ∧
    (∀ e, ofText disk root text path = .error e → e.isConfig = true) ∧
    ∀ fields fields' text' path', Json.parse text = .ok (.object fields) →
      Json.parse text' = .ok (.object fields') → SameOptions fields fields' →
        ofText disk root text path = ofText disk root text' path' := by
  have herror (e : Failure) : ofText disk root text path = .error e ↔
      (checks disk root text path).findSome? id = some e := by
    rw [ofText_eq_verdict, verdict]
    split <;> simp [*]
  refine ⟨fun config => ?_, herror, fun e he => ?_, ?_⟩
  · rw [ofText_eq_verdict, verdict_eq_ok, pass_checks]
    constructor
    · rintro ⟨⟨fields, hparse, hdocumented⟩, hconfig⟩
      refine ⟨fields, hparse, hdocumented, ?_⟩
      rw [hconfig, object?, hparse]
      rfl
    · rintro ⟨fields, hparse, hdocumented, hconfig⟩
      refine ⟨⟨fields, hparse, hdocumented⟩, ?_⟩
      rw [hconfig, object?, hparse]
      rfl
  · obtain ⟨c, hc, he⟩ := List.exists_of_findSome?_eq_some ((herror e).1 he)
    exact ofConfig_checks c hc e he
  · intro fields fields' text' path' hparse hparse' hsame
    simp only [ofText, hparse, hparse']
    rw [ofFields_eq_verdict, ofFields_eq_verdict, hsame.fieldChecks_eq, hsame.described_eq]

/-- Of a repeated key the last value counts, and other keys do not. -/
example : ofText ⟨[], []⟩ ⟨"/p"⟩
    "\x7b\"verbose\": 1, \"later\": null, \"verbose\": true\x7d" fileName =
      .ok { Config.empty ⟨"/p"⟩ with verbose := true } := by
  rfl

/-- The order is that of the checks, not that of the text. -/
example : ofText ⟨[], []⟩ ⟨"/p"⟩
    "\x7b\"aliases\": 1, \"esmDir\": \" \", \"verbose\": null\x7d" fileName =
      .error (.configInvalid (.notBoolean "verbose" .null)) := by
  rfl

end Config

end DualPackage
