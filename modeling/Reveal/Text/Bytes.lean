/-!
# The order of texts

Names are listed in the order of their UTF-8 bytes.
-/
namespace Reveal.Text

/-- The UTF-8 bytes of a text. -/
def bytes (s : String) : List UInt8 :=
  s.toByteArray.data.toList

theorem bytes_injective {s t : String} (h : bytes s = bytes t) : s = t := by
  have h : s.toByteArray.data = t.toByteArray.data := Array.toList_inj.1 h
  exact String.toByteArray_inj.1 (ByteArray.ext h)

/-- Compares two texts by their bytes. -/
def byteOrder : String → String → Ordering :=
  compareOn bytes

instance : Std.TransCmp byteOrder :=
  inferInstanceAs (Std.TransCmp (compareOn bytes))

instance : Std.LawfulEqCmp byteOrder where
  eq_of_compare h := bytes_injective (Std.LawfulEqOrd.eq_of_compare h)

end Reveal.Text
