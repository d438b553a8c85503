import WasmBuild.BuildError

/-! Why an invocation fails: an error of the build, or a plain message, inside the
contexts that were added around it. -/

namespace WasmBuild

inductive Cause where
  | build (error : BuildError)
  | plain (text : String)
deriving DecidableEq

structure Failure where
  /-- The outermost context first. -/
  contexts : List String
  cause : Cause
deriving DecidableEq

namespace Failure

def ofError (e : BuildError) : Failure := ⟨[], .build e⟩

def within (context : String) (f : Failure) : Failure := ⟨context :: f.contexts, f.cause⟩

def chain (f : Failure) : List String :=
  f.contexts ++
    match f.cause with
    | .build e => e.message :: e.cause?.toList
    | .plain text => [text]

def exitCode (f : Failure) : Nat :=
  match f.cause with
  | .build e => e.exitCode
  | .plain _ => 1

/-- The failure of a tool, which has spoken for itself. -/
def toolError? (f : Failure) : Option BuildError :=
  match f.cause with
  | .build e => if e.isCommandFailure then some e else none
  | .plain _ => none

def text (f : Failure) : String := "✖ " ++ ": ".intercalate f.chain ++ "\n"

end Failure

end WasmBuild
