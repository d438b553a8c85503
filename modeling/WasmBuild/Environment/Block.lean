import WasmBuild.Bytes

/-! The variables of a process, as the texts `name=value` with which it is started. A name
is not empty, so it ends at the first equals sign after its first byte. When a variable is
set under a name that holds an equals sign, its text is read as that of a shorter name. -/

namespace WasmBuild.Environment

abbrev Binding := ByteArray × ByteArray

def lastOfEach : List Binding → List Binding
  | [] => []
  | binding :: rest =>
    if rest.any fun later => later.1 = binding.1 then lastOfEach rest
    else binding :: lastOfEach rest

structure Block where
  entries : List (List UInt8)

namespace Block

/-- The texts stand in the order of the names under which the variables were set. -/
def ofBindings (bindings : List Binding) : Block :=
  let pairs := (lastOfEach bindings).map fun (name, value) => (name.data.toList, value.data.toList)
  ⟨(pairs.mergeSort fun a b => a.1 ≤ b.1).map fun (name, value) => name ++ 0x3D :: value⟩

def binding? : List UInt8 → Option Binding
  | [] => none
  | first :: rest =>
    match rest.dropWhile (· ≠ 0x3D) with
    | [] => none
    | _ :: value =>
      some (⟨(first :: rest.takeWhile (· ≠ 0x3D)).toArray⟩, ⟨value.toArray⟩)

def bindings (block : Block) : List Binding := block.entries.filterMap binding?

def first? (block : Block) (name : ByteArray) : Option ByteArray :=
  (block.bindings.find? fun binding => binding.1 = name).map (·.2)

def last? (block : Block) (name : ByteArray) : Option ByteArray :=
  (block.bindings.reverse.find? fun binding => binding.1 = name).map (·.2)

end Block

end WasmBuild.Environment
