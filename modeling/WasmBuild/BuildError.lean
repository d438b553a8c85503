import WasmBuild.IoError
import WasmBuild.Text.Lossy
import WasmBuild.Toml.Dialect

/-! Why a build fails. Every error is fatal, and its wording is in one place. -/

namespace WasmBuild

inductive BuildError where
  /-- A tool ended badly; there is no code when a signal killed it. -/
  | commandFailed (command : String) (code : Option Int)
  | notStarted (program : String) (cause : IoError)
  | artifactMissing (path : Path)
  | io (path : Path) (cause : IoError)
  | invalidToml (refusal : Toml.Refusal)
  | noArtifactName (path : Path)
  | invalidFlags (path : Path) (line : Nat) (detail : String)
  | pathNotText (path : ByteArray)
  | projectNotFound (start : Path)
deriving DecidableEq

namespace BuildError

def describeCode : Option Int → String
  | some code => "exit " ++ toString code
  | none => "tué par un signal"

def message : BuildError → String
  | commandFailed command code => "`" ++ command ++ "` a échoué (" ++ describeCode code ++ ")"
  | notStarted program _ => "impossible de lancer `" ++ program ++ "`"
  | artifactMissing path => "artefact introuvable après le build: " ++ path.text
  | io path _ => "E/S sur " ++ path.text
  | invalidToml refusal => "TOML invalide dans " ++ refusal.path.text
  | noArtifactName path =>
    path.text ++ ": pas de [package] name, précise l'artefact explicitement"
  | invalidFlags path line detail => path.text ++ ":" ++ toString line ++ ": " ++ detail
  | pathNotText path => "chemin non UTF-8: " ++ Text.lossy path
  | projectNotFound start => "aucun Cargo.toml trouvé depuis " ++ start.text

def cause? : BuildError → Option String
  | notStarted _ cause => some cause.message
  | io _ cause => some cause.message
  | invalidToml refusal => some refusal.reason
  | _ => none

/-- The status for the calling shell: that of the tool that failed where it is one of
1 to 255, and otherwise 1. -/
def exitCode : BuildError → Nat
  | commandFailed _ (some code) => if 0 < code ∧ code < 256 then code.toNat else 1
  | _ => 1

/-- Whether the tool that failed has spoken for itself. -/
def isCommandFailure : BuildError → Bool
  | commandFailed _ _ => true
  | _ => false

end BuildError

end WasmBuild
