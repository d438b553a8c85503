import WasmBuild.Errno

/-! Why an operation on files, or the start of a program, did not succeed: an error of
the operating system, or something refused before or after the system was asked. -/

namespace WasmBuild

inductive IoError where
  | os (errno : Errno)
  | nulInPath
  | nulInCommand
  | notText
  | notRegularFile
deriving DecidableEq, Inhabited

namespace IoError

def message : IoError → String
  | .os errno => errno.text ++ " (os error " ++ toString errno.code ++ ")"
  | .nulInPath => "file name contained an unexpected NUL byte"
  | .nulInCommand => "nul byte found in provided data"
  | .notText => "stream did not contain valid UTF-8"
  | .notRegularFile => "the source path is neither a regular file nor a symlink to a regular file"

end IoError

end WasmBuild
