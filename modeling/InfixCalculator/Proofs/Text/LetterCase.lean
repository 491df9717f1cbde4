import Mathlib.Data.List.Forall2

/-!
# Letter case

Small letters are compared to tell whether a text is a word. A character has the small letter of a
capital one only if it is one of the two, so a text has the small letters of a word exactly if each
of its characters is one of the two forms of a letter.

* `toLower_eq_toLower_iff`: the characters with a given small letter.
* `map_toLower_eq_iff`: the texts with given small letters.
-/

namespace InfixCalculator.Text

theorem toNat_toLower (c : Char) :
    c.toLower.toNat = if c.isUpper then c.toNat + 32 else c.toNat := by
  have hupper : c.isUpper = decide ('A'.val ≤ c.val ∧ c.val ≤ 'Z'.val) := rfl
  rw [hupper]
  unfold Char.toLower
  by_cases h : 'A'.val ≤ c.val ∧ c.val ≤ 'Z'.val
  · have hlast : c.val.toNat ≤ 90 := UInt32.le_iff_toNat_le.mp h.2
    rw [dif_pos h, if_pos (decide_eq_true h)]
    show (c.val + 32).toNat = c.val.toNat + 32
    rw [UInt32.toNat_add]
    exact Nat.mod_eq_of_lt (show c.val.toNat + 32 < 2 ^ 32 by omega)
  · rw [dif_neg h, if_neg (by simpa using h)]

/-- A capital letter and its small letter are the only characters with this small letter. -/
theorem toLower_eq_toLower_iff {c capital : Char} (h : capital.isUpper) :
    c.toLower = capital.toLower ↔ c ∈ [capital.toLower, capital] := by
  have hrange : ∀ d : Char, d.isUpper = true ↔ 65 ≤ d.toNat ∧ d.toNat ≤ 90 := by
    intro d
    have hupper : d.isUpper = decide ('A'.val ≤ d.val ∧ d.val ≤ 'Z'.val) := rfl
    rw [hupper, decide_eq_true_iff, UInt32.le_iff_toNat_le, UInt32.le_iff_toNat_le]
    rfl
  have hcapital := (hrange capital).mp h
  simp only [List.mem_cons, List.not_mem_nil, or_false, ← Char.toNat_inj, toNat_toLower, if_pos h]
  split
  · next hc =>
    have := (hrange c).mp hc
    omega
  · next hc =>
    rw [hrange] at hc
    omega

theorem map_toLower_eq_iff {word capitals : List Char} (h : ∀ c ∈ capitals, c.isUpper) :
    word.map Char.toLower = capitals.map Char.toLower ↔
      List.Forall₂ (· ∈ ·) word (capitals.map fun c => [c.toLower, c]) := by
  induction capitals generalizing word with
  | nil => simp
  | cons capital capitals ih =>
    rw [List.forall_mem_cons] at h
    cases word with
    | nil => simp
    | cons c word =>
      rw [List.map_cons, List.map_cons, List.map_cons, List.cons.injEq, List.forall₂_cons,
        toLower_eq_toLower_iff h.1, ih h.2]

end InfixCalculator.Text
