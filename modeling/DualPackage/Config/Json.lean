import DualPackage.Config.Basic
import DualPackage.Json.Printer
/-!
# Configurations as JSON

`Config.toJson` is the resolved configuration as it is shown, all paths
resolved and nothing left out. A JSON text is UTF-8, so only a configuration
whose paths are can be shown (`Config.render`). `Config.template` is the
configuration file that a new project starts from.
-/

namespace DualPackage

open Json (Value)

/-- A value that may be absent. -/
def Json.Value.ofOption {α : Type} (f : α → Value) : Option α → Value
  | none => .null
  | some a => f a

/-- A path as a JSON string. -/
def Path.toJson (p : Path) : Value :=
  .string p.text

/-- A copy policy as a JSON object. -/
def CopyPolicy.toJson (policy : CopyPolicy) : Value :=
  .object [("from", policy.source.toJson), ("exclude", .array (policy.exclude.map .string))]

/-- An alias as a JSON object. -/
def Alias.toJson (a : Alias) : Value :=
  .object [("alias", .string a.name), ("resolved", .string a.resolved)]

/-- An alias table as a JSON array. -/
def AliasTable.toJson (table : AliasTable) : Value :=
  .array (table.entries.map Alias.toJson)

namespace Config

/-- A configuration as a JSON object. -/
def toJson (config : Config) : Value :=
  .object
    [("root", config.root.toJson),
      ("esmDir", .ofOption Path.toJson config.esmDir),
      ("cjsDir", .ofOption Path.toJson config.cjsDir),
      ("copyFiles", .ofOption CopyPolicy.toJson config.copyFiles),
      ("addExtensions", .bool config.addExtensions),
      ("aliases", .ofOption AliasTable.toJson config.aliases),
      ("verbose", .bool config.verbose)]

/-- The text that shows a configuration, or why there is none. `isText` tells
which paths are valid UTF-8. -/
def render (config : Config) (isText : Path → Bool) : Except String String :=
  if config.paths.all isText then .ok config.toJson.pretty
  else .error "path contains invalid UTF-8 characters"

/-- The configuration a new project starts from. -/
def templateJson : Value :=
  .object
    [("esmDir", .string "auto"),
      ("cjsDir", .string "auto"),
      ("verbose", .bool true),
      ("copyFiles", .object [("from", .string "src"), ("exclude", .array [.string ".js"])]),
      ("addExtensions", .bool true)]

/-- The text of the configuration file that a new project starts from. -/
def template : String :=
  templateJson.pretty ++ "\n"

end Config

end DualPackage
