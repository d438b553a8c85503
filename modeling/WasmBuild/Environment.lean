import WasmBuild.Environment.Block

/-! A snapshot of environment variables. The last pair of a name decides its value,
and an empty value counts as none. -/

namespace WasmBuild

structure Environment where
  vars : List (String × String)
deriving Inhabited

namespace Environment

/-- The value last given to `key`, empty or not. -/
def last? (env : Environment) (key : String) : Option String := env.vars.reverse.lookup key

def get? (env : Environment) (key : String) : Option String :=
  (env.last? key).filter fun value => !value.isEmpty

/-- Adds pairs that win over those present. -/
def overlay (env : Environment) (pairs : List (String × String)) : Environment :=
  ⟨env.vars ++ pairs⟩

/-- The variables of a process, of which those are left out that are not text. -/
def ofProcess (block : Block) : Environment :=
  ⟨block.bindings.filterMap fun (key, value) => do
    return (← String.fromUTF8? key, ← String.fromUTF8? value)⟩

end Environment

end WasmBuild
