import WasmBuild.BuildError
import WasmBuild.FileSystem.Disk
import WasmBuild.Optimize
import WasmBuild.Toml.Document

/-! The manifest of a project, which may decide anew what the project does not leave to
the defaults. Every entry may be absent, and no other entry is allowed. -/

namespace WasmBuild

structure OptimizeSection where
  enabled : Bool
  tool : Option String
  args : Option (List String)
deriving DecidableEq

structure Manifest where
  artifact : Option String
  target : Option String
  resDir : Option String
  flagsFile : Option String
  coverageDir : Option String
  optimize : Option OptimizeSection
deriving DecidableEq

namespace Toml

def Table.entry? {α : Type} (entries : Table) (key : String) (read : Value → Option α) :
    Option (Option α) :=
  match entries.lookup key with
  | none => some none
  | some value => (read value).map some

def Table.hasOnly (entries : Table) (keys : List String) : Bool :=
  entries.all fun e => keys.contains e.1

end Toml

namespace OptimizeSection

open Toml

def keys : List String := ["enabled", "tool", "args"]

def ofTable? (entries : Table) : Option OptimizeSection := do
  guard (entries.hasOnly keys)
  let enabled ← entries.entry? "enabled" Value.boolean?
  return ⟨enabled.getD false, ← entries.entry? "tool" Value.string?,
    ← entries.entry? "args" Value.strings?⟩

/-- In an array the entries stand in their order, and what follows them is ignored. -/
def ofItems? : List Value → Option OptimizeSection
  | enabled :: tool :: args :: _ => do
    return ⟨← enabled.boolean?, some (← tool.string?), some (← args.strings?)⟩
  | _ => none

def ofValue? : Value → Option OptimizeSection
  | .table entries => ofTable? entries
  | .array items => ofItems? items
  | _ => none

end OptimizeSection

namespace Manifest

open Toml

def empty : Manifest := ⟨none, none, none, none, none, none⟩

def keys : List String :=
  ["artifact", "target", "res_dir", "flags_file", "coverage_dir", "optimize"]

def ofTable? (entries : Table) : Option Manifest := do
  guard (entries.hasOnly keys)
  return {
    artifact := ← entries.entry? "artifact" Value.string?
    target := ← entries.entry? "target" Value.string?
    resDir := ← entries.entry? "res_dir" Value.string?
    flagsFile := ← entries.entry? "flags_file" Value.string?
    coverageDir := ← entries.entry? "coverage_dir" Value.string?
    optimize := ← entries.entry? "optimize" OptimizeSection.ofValue? }

variable [Dialect]

def parse (p : Path) (text : String) : Except BuildError Manifest :=
  match (Dialect.read? text).bind ofTable? with
  | some manifest => .ok manifest
  | none => .error (.invalidToml ⟨p, Dialect.complaint .manifest text⟩)

/-- Loads a manifest that must be there. -/
def load (d : Disk) (p : Path) : Except BuildError Manifest :=
  match d.readText p with
  | .ok text => parse p text
  | .error e => .error (.io p e)

/-- Loads a manifest, which is empty when there is no file. -/
def loadOrEmpty (d : Disk) (p : Path) : Except BuildError Manifest :=
  match d.readText p with
  | .ok text => parse p text
  | .error e => if e = .os .noEntry then .ok empty else .error (.io p e)

end Manifest

def Optimize.ofSection : Option OptimizeSection → Optimize
  | none => standard
  | some s => ⟨s.enabled, s.tool.getD standard.tool, s.args.getD standard.args⟩

end WasmBuild
