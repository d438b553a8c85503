/-! Byte strings: two are equal when their bytes are, and many can be put together. -/

namespace WasmBuild

instance decidableEqBytes : DecidableEq ByteArray := fun a b =>
  decidable_of_iff (a.data = b.data) ⟨ByteArray.ext, congrArg ByteArray.data⟩

def Bytes.concat (texts : List ByteArray) : ByteArray := texts.foldl (· ++ ·) ⟨#[]⟩

end WasmBuild
