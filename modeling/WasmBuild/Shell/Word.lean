/-! Words as a POSIX shell reads them. A word of harmless characters stands as it
is; any other is put between apostrophes, an apostrophe inside it being written
outside of them after a backslash. -/

namespace WasmBuild.Shell

def isPlain (c : Char) : Bool :=
  c.isAlphanum || ['-', '_', '.', '/', '=', ':', ',', '+', '@'].contains c

def escapeApostrophe (c : Char) : List Char :=
  if c = '\'' then ['\'', '\\', '\'', '\''] else [c]

def quoteChars (cs : List Char) : List Char :=
  if !cs.isEmpty && cs.all isPlain then cs
  else '\'' :: (cs.flatMap escapeApostrophe ++ ['\''])

def quote (s : String) : String := String.ofList (quoteChars s.toList)

end WasmBuild.Shell
