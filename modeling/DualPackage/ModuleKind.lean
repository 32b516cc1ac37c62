import DualPackage.Path.Basic
/-!
# The two trees of a package

A package ships its modules twice: as ESM and as CJS. Each tree has its
own output directory, and a marker file there tells a loader of which kind
the files below it are.
-/

namespace DualPackage

/-- One of the two output trees. -/
inductive ModuleKind where
  | esm
  | cjs
  deriving DecidableEq, Repr

namespace ModuleKind

/-- Both trees, in the order in which they are treated. -/
def all : List ModuleKind := [esm, cjs]

@[simp] theorem mem_all (kind : ModuleKind) : kind ∈ all := by
  cases kind <;> decide

/-- The `type` a marker declares for the tree. -/
def packageType : ModuleKind → String
  | esm => "module"
  | cjs => "commonjs"

/-- What a tree is called in messages. -/
def label : ModuleKind → String
  | esm => "ESM"
  | cjs => "CJS"

/-- The configuration key of the tree's output directory. -/
def configKey : ModuleKind → String
  | esm => "esmDir"
  | cjs => "cjsDir"

/-- The output directory used for `auto`, seen from the project root. -/
def defaultDir : ModuleKind → Path
  | esm => ⟨"dist/esm"⟩
  | cjs => ⟨"dist/cjs"⟩

end ModuleKind

end DualPackage
