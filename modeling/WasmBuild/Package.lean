import WasmBuild.Manifest

/-! The description of a package, from which the name of its artifact is guessed: the
name of the library if it has one, and otherwise that of the package. -/

namespace WasmBuild

structure Package where
  packageName : Option String
  libraryName : Option String
deriving DecidableEq

namespace Package

open Toml

/-- A package must have a name. -/
def packageName? : Value → Option String
  | .table entries => (entries.lookup "name").bind Value.string?
  | .array (name :: _) => name.string?
  | _ => none

/-- A library may do without a name, and so may a moment of time in the place of one. -/
def libraryName? : Value → Option (Option String)
  | .table entries => Table.entry? entries "name" Value.string?
  | .array (name :: _) => name.string?.map some
  | .moment _ => some none
  | _ => none

def ofTable? (entries : Table) : Option Package := do
  return ⟨← entries.entry? "package" packageName?,
    (← entries.entry? "lib" libraryName?).join⟩

def name? (p : Package) : Option String := p.libraryName <|> p.packageName

def artifactFor (name : String) : String :=
  String.ofList (name.toList.map fun c => if c = '-' then '_' else c) ++ ".wasm"

variable [Dialect]

def artifactOf (p : Path) (text : String) : Except BuildError String :=
  match (Dialect.read? text).bind ofTable? with
  | none => .error (.invalidToml ⟨p, Dialect.complaint .package text⟩)
  | some package =>
    match package.name? with
    | some name => .ok (artifactFor name)
    | none => .error (.noArtifactName p)

def loadArtifact (d : Disk) (p : Path) : Except BuildError String :=
  match d.readText p with
  | .ok text => artifactOf p text
  | .error e => .error (.io p e)

end Package

end WasmBuild
