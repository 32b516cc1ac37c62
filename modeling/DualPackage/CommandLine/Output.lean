import DualPackage.Config.Basic
import DualPackage.Run.World
import DualPackage.Text.Quoted
/-!
# What the program prints

The lines of the program: its log, the description of a configuration, and
errors with the chain of their causes. Progress is printed only when it is
asked for, warnings always. How long a run took is known only when it is
over, so a line of the log stays an event until it is printed.
-/

namespace DualPackage

namespace CommandLine

/-- A line of the standard output. -/
inductive Line where
  | text (s : String)
  | event (e : Event)
  deriving DecidableEq, Repr

/-- What an invocation prints, and the code it ends with. -/
structure Outcome where
  code : Nat
  stdout : List Line
  stderr : List String
  deriving DecidableEq, Repr

/-- An invocation that went well. -/
def Outcome.success (stdout : List Line) : Outcome := ⟨0, stdout, []⟩

/-- The wording of an event. `elapsed` is how long the run took, in
milliseconds. -/
def eventText (elapsed : String) : Event → String
  | .creatingMarker kind => "Creating package.json for \"" ++ kind.label ++ "\"..."
  | .copying kind => "Copying files to " ++ kind.label ++ "..."
  | .adjusting => "Adjusting ESM sources (JSON imports, __dirname)..."
  | .addingExtensions kind => "Adding extensions to " ++ kind.label ++ "..."
  | .resolvingAliases kind => "Resolving aliases in " ++ kind.label ++ "..."
  | .finished => "PostBuild finished in " ++ elapsed ++ " milliseconds"
  | .invalidText path => "not valid UTF-8, left unchanged path=" ++ path.text
  | .linkLoop path => "skipping symlink loop path=Some(" ++ Text.quote path.text ++ ")"

/-- A line as it is printed. -/
def Line.print (elapsed : String) : Line → String
  | text s => s
  | event e => (if e.isWarning then " WARN " else " INFO ") ++ eventText elapsed e

/-- The standard output as it is printed. -/
def Outcome.printed (elapsed : String) (outcome : Outcome) : List String :=
  outcome.stdout.map (Line.print elapsed)

/-- The lines of a log: all of them, or the warnings only. -/
def logLines (verbose : Bool) (log : List Event) : List Line :=
  (log.filter fun event => verbose || event.isWarning).map Line.event

/-- A text whose lines after the first are indented. -/
def indentLines (indent : String) (text : String) : String :=
  String.ofList (text.toList.flatMap fun c => if c = '\n' then c :: indent.toList else [c])

/-- The line of a cause, numbered if there are several. -/
def causeLine (number : Option Nat) (cause : String) : String :=
  match number with
  | none => "    " ++ indentLines "    " cause
  | some n => "    " ++ toString n ++ ": " ++ indentLines "       " cause

/-- The lines of an error and its causes. -/
def errorLines (message : String) (causes : List String) : List String :=
  ("error: " ++ message) ::
    match causes with
    | [] => []
    | [cause] => ["", "Caused by:", causeLine none cause]
    | _ => "" :: "Caused by:" :: causes.mapIdx fun n cause => causeLine (some n) cause

/-- An invocation that failed on the way to `message`. -/
def Outcome.failure (stdout : List Line) (message : String) (causes : List String) : Outcome :=
  ⟨1, stdout, errorLines message causes⟩

/-- One line for each stage that a configuration asks for. -/
def describe (config : Config) : List String :=
  (config.outputs.map fun (kind, dir) => kind.label ++ " output: " ++ dir.text) ++
    (match config.copyFiles with
      | none => []
      | some policy =>
        ["copy from: " ++ policy.source.text ++ " (excluding " ++
          ", ".intercalate policy.exclude ++ ")"]) ++
    (if config.addExtensions then ["add extensions: yes"] else []) ++
    (match config.aliases with
      | none => []
      | some table => ["aliases: " ++ toString table.size])

end CommandLine

end DualPackage
