import InfixCalculator.Numeral.Value
import InfixCalculator.Text.Blank
import Mathlib.Data.List.Basic

/-!
# The characters of written values

The text of a value, in whichever form it is written, consists of ASCII letters and digits, points
and minus signs. So it holds no blank, no equals sign and no character that ends a line.
-/

namespace InfixCalculator.Numeral

/-- Whether a written value may hold a character. -/
def isWritten (c : Char) : Bool := c.isAlphanum || c == '-' || c == '.'

theorem isWritten_of_mem_toDigits {n : Nat} : ∀ c ∈ Nat.toDigits 10 n, isWritten c := by
  intro c hc
  have hdigit : c.isDigit := Nat.isDigit_of_mem_toDigits (by decide) (by decide) hc
  rw [isWritten, Char.isAlphanum, hdigit, Bool.or_true, Bool.true_or, Bool.true_or]

theorem isWritten_of_mem_replicate {n : Nat} : ∀ c ∈ List.replicate n '0', isWritten c := by
  intro c hc
  rw [List.eq_of_mem_replicate hc]
  decide

theorem isWritten_of_mem_intChars (i : Int) : ∀ c ∈ intChars i, isWritten c := by
  unfold intChars
  split
  · exact List.forall_mem_cons.mpr ⟨by decide, isWritten_of_mem_toDigits⟩
  · exact isWritten_of_mem_toDigits

theorem isWritten_of_mem_positional (d : Decimal) : ∀ c ∈ positional d, isWritten c := by
  have hdigits : ∀ c ∈ d.digitChars, isWritten c := isWritten_of_mem_toDigits
  unfold positional
  dsimp only
  split
  · simp only [List.forall_mem_append]
    exact ⟨⟨hdigits, isWritten_of_mem_replicate⟩, List.all_eq_true.mp rfl⟩
  · split
    · simp only [List.forall_mem_append, List.forall_mem_cons]
      exact ⟨fun c hc => hdigits c (List.mem_of_mem_take hc), by decide,
        fun c hc => hdigits c (List.mem_of_mem_drop hc)⟩
    · simp only [List.forall_mem_append, List.forall_mem_cons]
      exact ⟨⟨by decide, by decide, isWritten_of_mem_replicate⟩, hdigits⟩

theorem isWritten_of_mem_scientific (d : Decimal) : ∀ c ∈ scientific d, isWritten c := by
  have hdigits : ∀ c ∈ d.digitChars, isWritten c := isWritten_of_mem_toDigits
  unfold scientific
  dsimp only
  rw [List.forall_mem_append, List.forall_mem_cons]
  refine ⟨?_, by decide, isWritten_of_mem_intChars _⟩
  split
  · next first second rest heq =>
    rw [heq, List.forall_mem_cons] at hdigits
    rw [List.forall_mem_cons, List.forall_mem_cons]
    exact ⟨hdigits.1, by decide, hdigits.2⟩
  · exact hdigits

theorem isWritten_of_mem_writePattern (pattern : Nat) :
    ∀ c ∈ writePattern pattern, isWritten c := by
  unfold writePattern
  split
  · exact List.all_eq_true.mp rfl
  · split
    · unfold Layout.write
      split
      · exact isWritten_of_mem_positional _
      · exact isWritten_of_mem_scientific _
    · split
      · exact List.all_eq_true.mp rfl
      · exact List.all_eq_true.mp rfl

/-- What a written value consists of. -/
theorem isWritten_of_mem_write (x : Float) : ∀ c ∈ (write x).toList, isWritten c := by
  unfold write
  rw [String.toList_ofList]
  split
  · exact List.forall_mem_cons.mpr ⟨by decide, isWritten_of_mem_writePattern _⟩
  · exact isWritten_of_mem_writePattern _

theorem isBlank_eq_false_of_isWritten {c : Char} (h : isWritten c) : Text.isBlank c = false := by
  have hcode : 45 ≤ c.toNat ∧ c.toNat ≤ 122 := by
    rw [isWritten] at h
    delta Char.isAlphanum Char.isAlpha Char.isUpper Char.isLower Char.isDigit at h
    simp only [Bool.or_eq_true, Bool.and_eq_true, decide_eq_true_eq, beq_iff_eq, ge_iff_le,
      UInt32.le_iff_toNat_le] at h
    change ((((65 ≤ c.toNat ∧ c.toNat ≤ 90) ∨ (97 ≤ c.toNat ∧ c.toNat ≤ 122)) ∨
      (48 ≤ c.toNat ∧ c.toNat ≤ 57)) ∨ c = '-') ∨ c = '.' at h
    rcases h with (h | rfl) | rfl
    · omega
    · decide
    · decide
  simp only [Text.isBlank, Text.blankRanges, Text.Ranges.cover, List.any_cons, List.any_nil,
    Bool.or_eq_false_iff, Bool.and_eq_false_iff, decide_eq_false_iff_not, and_true]
  omega

end InfixCalculator.Numeral
