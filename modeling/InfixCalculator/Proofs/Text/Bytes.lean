import InfixCalculator.Text.Line
import InfixCalculator.Proofs.Span

/-!
# Texts read byte by byte

The UTF-8 encoding of a text may be read byte by byte, each byte as a character of its own. An ASCII
character is then read as it stands, and in place of any other character there is at least one, but
none of them ASCII. So a class of ASCII characters is met by the bytes where it is met by the text.

* `bytewise`: a text read byte by byte, and `map_byteChar_encode`: it is the encoding that is read.
* `bytewise_eq_self`: an ASCII text is read as it stands.
* `eq_false_of_mem_bytewise`, `misses_bytewise`: what a class of ASCII characters makes of it.
-/

namespace InfixCalculator.Text

/-- Whether a character is encoded as one byte. -/
def IsAscii (c : Char) : Prop := c.toNat < 128

instance (c : Char) : Decidable (IsAscii c) := inferInstanceAs (Decidable (_ < _))

theorem forall_isAscii_of_all {cs : List Char} (h : cs.all fun c => IsAscii c) :
    ∀ c ∈ cs, IsAscii c := fun c hc => of_decide_eq_true (List.all_eq_true.mp h c hc)

/-- A byte as a character of its own. -/
def byteChar (b : UInt8) : Char := Char.ofNat b.toNat

/-- What is read in place of a character, byte by byte. -/
def byteChars (c : Char) : List Char := (String.utf8EncodeChar c).map byteChar

/-- A text read byte by byte. -/
def bytewise (cs : List Char) : List Char := cs.flatMap byteChars

@[simp] theorem bytewise_nil : bytewise [] = [] := rfl

@[simp] theorem bytewise_cons (c : Char) (cs : List Char) :
    bytewise (c :: cs) = byteChars c ++ bytewise cs := rfl

@[simp] theorem bytewise_append (cs ds : List Char) :
    bytewise (cs ++ ds) = bytewise cs ++ bytewise ds := List.flatMap_append

/-- Read byte by byte, a text is its encoding. -/
theorem map_byteChar_encode (text : String) : (encode text).map byteChar = bytewise text.toList := by
  have hencode : encode text = text.toList.flatMap String.utf8EncodeChar := by
    rw [encode, String.toUTF8_eq_toByteArray, ← String.utf8Encode_toList, List.utf8Encode,
      List.data_toByteArray]
  rw [hencode, List.map_flatMap]
  rfl

/-! ## Single characters -/

theorem toNat_byteChar (b : UInt8) : (byteChar b).toNat = b.toNat := by
  have hb : b.toNat < 256 := b.toNat_lt
  have hvalid : b.toNat.isValidChar := .inl (by omega)
  rw [byteChar, Char.ofNat, dif_pos hvalid]
  rfl

theorem byteChars_of_isAscii {c : Char} (h : IsAscii c) : byteChars c = [c] := by
  have hc : c.val.toNat < 128 := h
  rw [byteChars, String.utf8EncodeChar, if_pos (by omega), List.map_singleton, byteChar,
    UInt8.toNat_ofNat_of_lt' (by rw [UInt8.size]; omega)]
  exact congrArg (fun d => [d]) (Char.ofNat_toNat c)

theorem byteChars_ne_nil (c : Char) : byteChars c ≠ [] := by
  rw [byteChars, String.utf8EncodeChar]
  split
  · simp
  · split
    · simp
    · split <;> simp

/-- No byte of any other character is one of an ASCII character. -/
theorem not_isAscii_of_mem_byteChars {c d : Char} (h : ¬ IsAscii c) (hd : d ∈ byteChars c) :
    ¬ IsAscii d := by
  have hc : ¬ c.val.toNat ≤ 127 := fun hle => h (Nat.lt_succ_of_le hle)
  have hbytes : ∀ b ∈ String.utf8EncodeChar c, 128 ≤ b.toNat := by
    rw [String.utf8EncodeChar, if_neg hc]
    split
    · simp only [List.forall_mem_cons, UInt8.toNat_ofNat']
      exact ⟨by omega, by omega, nofun⟩
    · split
      · simp only [List.forall_mem_cons, UInt8.toNat_ofNat']
        exact ⟨by omega, by omega, by omega, nofun⟩
      · simp only [List.forall_mem_cons, UInt8.toNat_ofNat']
        exact ⟨by omega, by omega, by omega, by omega, nofun⟩
  obtain ⟨b, hb, rfl⟩ := List.mem_map.mp hd
  rw [IsAscii, toNat_byteChar]
  exact Nat.not_lt.mpr (hbytes b hb)

/-! ## Classes of ASCII characters -/

theorem bytewise_eq_self {cs : List Char} (h : ∀ c ∈ cs, IsAscii c) : bytewise cs = cs := by
  induction cs with
  | nil => rfl
  | cons c cs ih =>
    rw [List.forall_mem_cons] at h
    rw [bytewise_cons, byteChars_of_isAscii h.1, ih h.2, List.singleton_append]

variable {p : Char → Bool} {cs : List Char}

theorem eq_false_of_mem_byteChars (hp : ∀ c, p c → IsAscii c) {c d : Char} (hc : p c = false)
    (hd : d ∈ byteChars c) : p d = false := by
  by_cases hascii : IsAscii c
  · rw [byteChars_of_isAscii hascii, List.mem_singleton] at hd
    rw [hd, hc]
  · by_contra hpd
    exact not_isAscii_of_mem_byteChars hascii hd (hp d (by simpa using hpd))

/-- A text outside a class of ASCII characters is outside of it byte by byte. -/
theorem eq_false_of_mem_bytewise (hp : ∀ c, p c → IsAscii c) (h : ∀ c ∈ cs, p c = false) :
    ∀ d ∈ bytewise cs, p d = false := by
  intro d hd
  obtain ⟨c, hc, hdc⟩ := List.mem_flatMap.mp hd
  exact eq_false_of_mem_byteChars hp (h c hc) hdc

/-- The first byte misses a class of ASCII characters if the first character does. -/
theorem misses_bytewise (hp : ∀ c, p c → IsAscii c) (h : Misses p cs) : Misses p (bytewise cs) := by
  cases cs with
  | nil => exact h
  | cons c cs =>
    obtain ⟨first, rest, hbytes⟩ := List.exists_cons_of_ne_nil (byteChars_ne_nil c)
    intro d hd
    rw [bytewise_cons, hbytes] at hd
    obtain rfl : first = d := Option.some.inj hd
    exact eq_false_of_mem_byteChars hp (h c rfl) (hbytes ▸ List.mem_cons_self)

end InfixCalculator.Text
