import DualPackage.CommandLine.Arguments
import DualPackage.CommandLine.Output
import DualPackage.Config.Json
import DualPackage.Config.Load
import DualPackage.Run.Stages
/-!
# Invocations

What the program does when it is invoked, as a function of its arguments
and a disk. The project root is the working directory or the directory
given; the configuration file is looked up from there. Asking for a
template comes first, then an action on the configuration, and last the
run. Which paths are valid UTF-8 is told by the predicate `isText`; only
showing a configuration asks for it.
-/

namespace DualPackage

namespace CommandLine

variable (invocation : Invocation) (disk : Disk) (isText : Path → Bool)

/-- The project root. -/
def projectRoot : Path :=
  match invocation.root with
  | some dir => (Path.mk dir).absolute disk.cwd.path
  | none => disk.cwd.path

/-- The configuration file. -/
def configPath : Path :=
  let root := projectRoot invocation disk
  match invocation.config with
  | some file => root.join ⟨file⟩
  | none => root.join Config.fileName

/-- The configuration that an invocation is about. -/
def loadConfig : Except Failure Config :=
  Config.ofFile disk (projectRoot invocation disk) (configPath invocation disk)

/-- An invocation that could not load its configuration. -/
def loadFailed (failure : Failure) : Outcome :=
  .failure [] "Failed to load configuration" (failure.message :: failure.causes)

/-- Writes the template of a configuration file. One that exists is replaced
only by force. -/
def writeTemplate (path : Path) (force : Bool) : Outcome × Disk :=
  if disk.pathExists path && !force then
    (.failure [] (path.text ++ " already exists. Use --force to overwrite.") [], disk)
  else
    match disk.writeFile path Config.template.toUTF8 with
    | .ok disk' => (.success [.text ("Created " ++ path.text)], disk')
    | .error fault => (.failure [] ("Failed to write " ++ path.text) [fault.message], disk)

/-- Shows the configuration as it was resolved. Where it comes from is printed
before it turns out whether it can be rendered. -/
def showConfig : Outcome :=
  match loadConfig invocation disk with
  | .ok config =>
    let source : Line := .text ("# Source: " ++ (configPath invocation disk).text)
    match config.render isText with
    | .ok text => .success [source, .text text]
    | .error reason => .failure [source] "Failed to render configuration" [reason]
  | .error failure => loadFailed failure

/-- Tells whether the configuration is valid, and what it asks for. -/
def validate : Outcome :=
  match loadConfig invocation disk with
  | .ok config =>
    .success (.text ("Configuration is valid: " ++ (configPath invocation disk).text) ::
      (describe config).map fun line => .text ("  " ++ line))
  | .error failure => ⟨1, [], ["Configuration error: " ++ failure.message]⟩

/-- Runs the project. -/
def runProject : Outcome × Disk :=
  match loadConfig invocation disk with
  | .error failure => (loadFailed failure, disk)
  | .ok config =>
    let verbose := invocation.verbose || config.verbose
    match Run.run config ⟨disk, []⟩ with
    | .ok _ world => (.success (logLines verbose world.log), world.disk)
    | .error failure world =>
      (.failure (logLines verbose world.log) "Post-build pipeline failed"
        (failure.message :: failure.causes), world.disk)

/-- Carries out an invocation. -/
def execute : Outcome × Disk :=
  if invocation.init then writeTemplate disk (configPath invocation disk) invocation.force
  else
    match invocation.action with
    | some .showConfig => (showConfig invocation disk isText, disk)
    | some .validate => (validate invocation disk, disk)
    | none => runProject invocation disk

/-- What `--version` prints. -/
def versionLine : String := "postbuild 0.1.0"

/-- What `--help` prints. -/
def helpLines : List String :=
  ["Usage: postbuild [OPTIONS] [COMMAND]",
    "",
    "Commands:",
    "  config show      Display the resolved configuration",
    "  config validate  Check the config file for errors without running anything",
    "",
    "Options:",
    "      --root <DIR>     Project root that relative config paths resolve against",
    "      --config <FILE>  Config file to use, relative to the project root",
    "  -v, --verbose        Print progress messages",
    "      --init           Create a template postbuild.config.json in the project root",
    "      --force          Overwrite an existing config when using --init",
    "  -h, --help           Print help",
    "  -V, --version        Print version"]

/-- Carries out what the arguments ask for. Unless told otherwise, all paths are
text. -/
def respond (args : List String) (isText : Path → Bool := fun _ => true) : Outcome × Disk :=
  match Request.ofArguments args with
  | .usageError => (⟨2, [], ["error: invalid arguments; try --help"]⟩, disk)
  | .help => (.success (helpLines.map .text), disk)
  | .version => (.success [.text versionLine], disk)
  | .invoke invocation => execute invocation disk isText

end CommandLine

end DualPackage
