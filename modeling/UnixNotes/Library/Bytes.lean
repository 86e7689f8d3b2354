import Mathlib.Data.List.Basic

namespace UnixNotes

abbrev ByteString := List UInt8

/-- The bytes of an ASCII text. -/
def ascii (text : String) : ByteString := text.toList.map fun c => c.toNat.toUInt8

@[simp] theorem length_ascii (text : String) : (ascii text).length = text.toList.length := by
  simp [ascii]

/-- `memcpy(data + dest, bytes.data(), bytes.size())`. -/
def memcpy (data : ByteString) (dest : Nat) (bytes : ByteString) : ByteString :=
  data.take dest ++ bytes ++ data.drop (dest + bytes.length)

theorem length_memcpy {data bytes : ByteString} {dest : Nat}
    (h : dest + bytes.length ≤ data.length) : (memcpy data dest bytes).length = data.length := by
  simp only [memcpy, List.length_append, List.length_take, List.length_drop]
  omega

theorem take_memcpy {data bytes : ByteString} {dest : Nat}
    (h : dest + bytes.length ≤ data.length) :
    (memcpy data dest bytes).take (dest + bytes.length) = data.take dest ++ bytes := by
  have hlength : (data.take dest ++ bytes).length = dest + bytes.length := by
    rw [List.length_append, List.length_take]
    omega
  rw [memcpy, ← hlength, List.take_left]

end UnixNotes
