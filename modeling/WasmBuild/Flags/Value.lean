import WasmBuild.Text.Blank

/-! The value of an assignment in a flags file: shell words without expansion. A value
is made of bare characters, of characters after a backslash, and of runs between
apostrophes or double quotes; it ends at a blank, which only a comment may follow. -/

namespace WasmBuild.Flags

inductive ValueFault where
  | openApostrophe
  | openQuote
  | endingBackslash
  | unexpected (rest : List Char)
deriving DecidableEq

def ValueFault.message : ValueFault → String
  | .openApostrophe => "apostrophe non fermée"
  | .openQuote => "guillemet non fermé"
  | .endingBackslash => "`\\` en fin de ligne non supporté"
  | .unexpected rest => "contenu inattendu après la valeur: `" ++ String.ofList rest ++ "`"

inductive Quoting where
  | bare
  | single
  | double
deriving DecidableEq

/-- Between double quotes a backslash is removed only before these. -/
def isEscapable (c : Char) : Bool := c == '"' || c == '\\' || c == '$' || c == '`'

def readValue : Quoting → List Char → Except ValueFault (List Char)
  | .bare, [] => .ok []
  | .bare, ['\\'] => .error .endingBackslash
  | .bare, '\\' :: c :: rest => (readValue .bare rest).map (c :: ·)
  | .bare, '\'' :: rest => readValue .single rest
  | .bare, '"' :: rest => readValue .double rest
  | .bare, c :: rest =>
    if Text.isBlank c then
      match Text.trimStart rest with
      | [] | '#' :: _ => .ok []
      | tail => .error (.unexpected tail)
    else (readValue .bare rest).map (c :: ·)
  | .single, [] => .error .openApostrophe
  | .single, '\'' :: rest => readValue .bare rest
  | .single, c :: rest => (readValue .single rest).map (c :: ·)
  | .double, [] => .error .openQuote
  | .double, '"' :: rest => readValue .bare rest
  | .double, ['\\'] => .error .openQuote
  | .double, '\\' :: c :: rest =>
    (readValue .double rest).map fun value =>
      if isEscapable c then c :: value else '\\' :: c :: value
  | .double, c :: rest => (readValue .double rest).map (c :: ·)

end WasmBuild.Flags
