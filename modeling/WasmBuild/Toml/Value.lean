/-! The values of a TOML document. Numbers with a fraction or an exponent, and moments of
time, are kept as they were written. -/

namespace WasmBuild.Toml

inductive Value where
  | string (s : String)
  | integer (n : Int)
  | float (text : String)
  | boolean (b : Bool)
  | moment (text : String)
  | array (items : List Value)
  | table (entries : List (String × Value))
deriving Inhabited

/-- Entries with distinct keys, in the order in which they were made. -/
abbrev Table := List (String × Value)

namespace Value

def string? : Value → Option String
  | .string s => some s
  | _ => none

def boolean? : Value → Option Bool
  | .boolean b => some b
  | _ => none

def strings? : Value → Option (List String)
  | .array items => items.mapM string?
  | _ => none

end Value

end WasmBuild.Toml
