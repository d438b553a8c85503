import WasmBuild.Path.Basic
import WasmBuild.Toml.Value

/-! How documents are read. Which table a text holds, and what is said of a text that does not
hold what is asked for, is up to the dialect that is spoken. -/

namespace WasmBuild.Toml

/-- What is asked of a document. -/
inductive Format where
  | manifest
  | package
deriving DecidableEq

class Dialect where
  read? : String → Option Table
  /-- Where and why a text does not hold what is asked for. -/
  complaint : Format → String → String

/-- A file in which the document that is asked for does not stand. -/
structure Refusal where
  path : Path
  reason : String
deriving DecidableEq

/-- A refusal stands for its file where that is shown. -/
instance : Coe Refusal Path := ⟨Refusal.path⟩

end WasmBuild.Toml
