/-!
# Command line arguments

Arguments are read from left to right, on three levels: before any
subcommand, after `config`, and after its action. `--root`, `--config` and
`--verbose` may stand on every level, and the deepest one that gives a
value decides; on one level each may stand once. The first argument that
asks for help or for the version settles the matter, unless an argument
before it was wrong. Whatever else is not understood is a usage error.
-/

namespace DualPackage

namespace CommandLine

/-- What can be done with a configuration besides running it. -/
inductive Action where
  | showConfig
  | validate
  deriving DecidableEq, Repr

/-- What the arguments ask for. -/
structure Invocation where
  root : Option String
  config : Option String
  verbose : Bool
  init : Bool
  force : Bool
  action : Option Action
  deriving DecidableEq, Repr

/-- The outcome of reading the arguments. -/
inductive Request where
  | usageError
  | help
  | version
  | invoke (invocation : Invocation)
  deriving DecidableEq, Repr

/-- How far the subcommand is known. -/
inductive Level where
  | top
  | config
  | action (a : Action)
  deriving DecidableEq, Repr

/-- The options given on one level. -/
structure Given where
  root : Option String
  config : Option String
  verbose : Bool
  init : Bool
  force : Bool
  deriving DecidableEq, Repr

/-- A level on which nothing has been given. -/
def Given.nothing : Given := ⟨none, none, false, false, false⟩

/-- The options of a level, together with those of the levels below. -/
def Given.under (upper lower : Given) : Given where
  root := lower.root.or upper.root
  config := lower.config.or upper.config
  verbose := upper.verbose || lower.verbose
  init := upper.init || lower.init
  force := upper.force || lower.force

/-- How far the arguments are read: the level, the options given on it, and
those given on the levels above. -/
structure Progress where
  level : Level
  here : Given
  above : Given
  deriving DecidableEq, Repr

/-- The options that take a value. -/
inductive Valued where
  | root
  | config
  deriving DecidableEq, Repr

/-- What one argument means on its own. -/
inductive Meaning where
  | wrong
  | help
  | version
  | proceed (progress : Progress)

namespace Progress

variable (p : Progress)

/-- Goes down to a subcommand. -/
def enter (level : Level) : Progress :=
  ⟨level, .nothing, p.above.under p.here⟩

/-- Gives an option its value, unless it has one on this level. A value may
not be empty. -/
def giveValue? (option : Valued) (value : String) : Option Progress :=
  if value.isEmpty then none
  else
    match option with
    | .root =>
      if p.here.root.isSome then none else some { p with here.root := some value }
    | .config =>
      if p.here.config.isSome then none else some { p with here.config := some value }

/-- The meaning of a flag, by its long name. -/
def flag (name : String) : Meaning :=
  if name = "help" then .help
  else if name = "verbose" then
    if p.here.verbose then .wrong else .proceed { p with here.verbose := true }
  else if p.level ≠ .top then .wrong
  else if name = "version" then .version
  else if name = "init" then
    if p.here.init then .wrong else .proceed { p with here.init := true }
  else if name = "force" then
    if p.here.force then .wrong else .proceed { p with here.force := true }
  else .wrong

/-- The meaning of a cluster of one-letter flags. -/
def letters : List Char → Progress → Meaning
  | [], p => .proceed p
  | c :: rest, p =>
    let name := if c = 'v' then "verbose" else if c = 'h' then "help"
      else if c = 'V' then "version" else ""
    match p.flag name with
    | .proceed p' => letters rest p'
    | other => other

/-- The level that a subcommand leads to. -/
def subcommand? (word : String) : Option Level :=
  match p.level with
  | .top => if word = "config" then some .config else none
  | .config =>
    if word = "show" then some (.action .showConfig)
    else if word = "validate" then some (.action .validate)
    else none
  | .action _ => none

/-- The request made when the arguments end here. A configuration action
has to be named, and a template may be forced only where one is asked
for. -/
def finish : Request :=
  let all := p.above.under p.here
  if all.force && !all.init then .usageError
  else
    match p.level with
    | .top => .invoke ⟨all.root, all.config, all.verbose, all.init, all.force, none⟩
    | .config => .usageError
    | .action a => .invoke ⟨all.root, all.config, all.verbose, all.init, all.force, some a⟩

end Progress

/-- Whether there is help on a chain of subcommands. -/
def isHelpTopic : Level → List String → Bool
  | _, [] => true
  | .top, word :: rest =>
    if word = "config" then isHelpTopic .config rest else word = "help" && rest.isEmpty
  | .config, word :: rest =>
    (word = "show" || word = "validate" || word = "help") && rest.isEmpty
  | .action _, _ :: _ => false

/-- Whether an argument can only be an option, and so is no value of the one
before it. -/
def looksLikeOption (arg : String) : Bool :=
  match arg.toList with
  | '-' :: _ :: _ => true
  | _ => false

/-- The option that takes a value, by its long name. -/
def valued? (name : String) : Option Valued :=
  if name = "root" then some .root else if name = "config" then some .config else none

/-- The name of a long option, and the value written after its `=`. -/
def splitLong (body : List Char) : String × Option String :=
  let name := body.takeWhile (· != '=')
  (String.ofList name,
    if name.length < body.length then some (String.ofList (body.drop (name.length + 1))) else none)

/-- Reads the arguments that are left. -/
def readArguments : Progress → List String → Request
  | p, [] => p.finish
  | p, arg :: rest =>
    match arg.toList with
    | ['-', '-'] => if rest.isEmpty then p.finish else .usageError
    | '-' :: '-' :: body =>
      let (name, value?) := splitLong body
      match valued? name, value? with
      | some option, some value =>
        match p.giveValue? option value with
        | some p' => readArguments p' rest
        | none => .usageError
      | some option, none =>
        match rest with
        | [] => .usageError
        | value :: rest =>
          if looksLikeOption value then .usageError
          else
            match p.giveValue? option value with
            | some p' => readArguments p' rest
            | none => .usageError
      | none, some _ => .usageError
      | none, none =>
        match p.flag name with
        | .wrong => .usageError
        | .help => .help
        | .version => .version
        | .proceed p' => readArguments p' rest
    | '-' :: c :: cluster =>
      match Progress.letters (c :: cluster) p with
      | .wrong => .usageError
      | .help => .help
      | .version => .version
      | .proceed p' => readArguments p' rest
    | _ =>
      match p.subcommand? arg with
      | some level => readArguments (p.enter level) rest
      | none =>
        if arg = "help" && p.level matches .top | .config then
          if isHelpTopic p.level rest then .help else .usageError
        else .usageError

/-- What the arguments of the program ask for. -/
def Request.ofArguments (args : List String) : Request :=
  readArguments ⟨.top, .nothing, .nothing⟩ args

end CommandLine

end DualPackage
