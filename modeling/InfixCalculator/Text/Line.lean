/-!
# Lines of bytes

Text arrives and leaves as UTF-8. A line ends after a newline byte, which belongs to it; a nonempty
rest after the last newline is a line too. Cutting happens before decoding, so a line that is not
valid UTF-8 spoils no other.
-/

namespace InfixCalculator.Text

/-- The byte that ends a line. -/
def newline : UInt8 := 10

/-- Cuts bytes after each newline. -/
def cutLines : List UInt8 → List (List UInt8)
  | [] => []
  | b :: bs =>
    if b = newline then [b] :: cutLines bs
    else
      match cutLines bs with
      | [] => [[b]]
      | line :: lines => (b :: line) :: lines

/-- The text that bytes encode in UTF-8, if they do. -/
def decode? (bytes : List UInt8) : Option String := String.fromUTF8? bytes.toByteArray

/-- The UTF-8 encoding of a text. -/
def encode (text : String) : List UInt8 := text.toUTF8.data.toList

/-- Cutting loses nothing and adds nothing. -/
theorem flatten_cutLines (bytes : List UInt8) : (cutLines bytes).flatten = bytes := by
  fun_induction cutLines bytes with
  | case1 => rfl
  | case2 bs ih => simp [ih]
  | case3 b bs _ hnil ih => simp_all
  | case4 b bs _ line lines hcons ih => simp_all

theorem toByteArray_encode (text : String) : (encode text).toByteArray = text.toUTF8 := by
  apply ByteArray.ext
  simp [encode]

/-- A text comes back from its encoding. -/
@[simp] theorem decode?_encode (text : String) : decode? (encode text) = some text := by
  rw [decode?, toByteArray_encode, String.fromUTF8?, dif_pos (by exact text.isValidUTF8)]
  rfl

theorem encode_append (s t : String) : encode (s ++ t) = encode s ++ encode t := by
  simp [encode]

end InfixCalculator.Text
