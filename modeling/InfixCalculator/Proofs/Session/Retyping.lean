import InfixCalculator.Proofs.Numeral.Notation
import InfixCalculator.Proofs.Numeral.Written
import InfixCalculator.Proofs.Postfix.Rendering
import InfixCalculator.Proofs.Session.Grammar

/-!
# Answers typed back

The answer to an assignment is itself a line in the form of an assignment, with a written value for
its expression. A value without a sign that is written in plain notation is a single number there,
and reads back as it was. So the answer, typed back, has the same answer and changes nothing.

* `Numeral.isPlainNumber_write`: the values that are written as plain numbers.
* `Session.evaluate_write`: such a value is the value of its own text.
* `Command.isAssignment_text`: the answer to an assignment is an assignment.
* `Session.retype_assignment`: what the answer to an assignment gives as a line.
-/

namespace InfixCalculator

open Binary64 (pattern isNegative)

variable {x : Float}

/-! ## Plain values -/

namespace Numeral

theorem lt_infinity_of_magnitude_lt {p : Nat} (h : Binary64.magnitude p < 10 ^ 16) :
    p < Binary64.infinity := by
  have hpower : Decimal.toRat ⟨1, 16⟩ ≤ Binary64.magnitude Binary64.infinity := by
    rw [Decimal.toRat_le_magnitude_iff]
    decide +kernel
  rw [Decimal.toRat_one] at hpower
  exact Binary64.strictMono_magnitude.lt_iff_lt.mp (h.trans_le hpower)

/-- Zero and the values in the decades of plain notation are written as plain numbers. -/
theorem isPlainNumber_write (hpositive : isNegative x = false)
    (hrange : pattern x = 0 ∨
      1 / 10 ^ 4 ≤ Binary64.magnitude (pattern x) ∧ Binary64.magnitude (pattern x) < 10 ^ 16) :
    Token.IsPlainNumber (write x).toList := by
  by_cases hzero : pattern x = 0
  · have htext : (write x).toList = ['0'] ++ '.' :: ['0'] := by
      rw [write, hpositive, hzero, if_neg fun h => Bool.false_ne_true h.1, writePattern,
        if_pos rfl, String.toList_ofList]
      rfl
    rw [htext]
    exact .fractional (by decide) (by decide)
  · have hplain := hrange.resolve_left hzero
    have hfinite := lt_infinity_of_magnitude_lt hplain.2
    have hlayout := (layout_iff (Decimal.isShortest_shortest hzero hfinite)).mpr hplain
    have htext := toList_write hzero hfinite
    rw [hpositive, if_neg Bool.false_ne_true, List.nil_append, Layout.write, if_pos hlayout] at htext
    rw [htext]
    exact isPlainNumber_positional _

end Numeral

/-- A value that is written as a plain number is the value of its text. -/
theorem Session.evaluate_write (h : Token.IsPlainNumber (Numeral.write x).toList) (s : Session) :
    (s.evaluate (Numeral.write x)).result = .ok x := by
  have htokens : Token.tokenize (Numeral.write x) = [⟨.number, Numeral.write x⟩] :=
    @Token.tokenize_text ⟨.number, Numeral.write x⟩ (.inl h)
  rw [result_evaluate_eq_bind, htokens, Postfix.result_ofTokens_number (Numeral.read?_write x)]
  rfl

/-! ## Answers as lines -/

namespace Command

theorem isPart_write (x : Float) : IsPart (Numeral.write x).toList := by
  have hwritten := Numeral.isWritten_of_mem_write x
  have hne : Numeral.write x ≠ "" := Numeral.write_ne_of_read?_eq_none (by decide) x
  refine ⟨by simpa using hne, fun hequals => absurd (hwritten '=' hequals) (by decide), ?_, ?_⟩
  · intro c hc
    exact Numeral.isBlank_eq_false_of_isWritten (hwritten c (List.mem_of_mem_head? hc))
  · intro c hc
    exact Numeral.isBlank_eq_false_of_isWritten (hwritten c (List.mem_of_mem_getLast? hc))

/-- The text of an answer to an assignment is an assignment. -/
theorem isAssignment_text {name : String} (hname : IsKey name) (x : Float) :
    IsAssignment (Answer.bound name x).text name (Numeral.write x) := by
  have hspace : Text.Blank [' '] := List.forall_mem_singleton.mpr (by decide)
  refine IsEquation.isAssignment ⟨[], [' '], [' '], [], nofun, hspace, hspace, nofun,
    isPart_iff_isKey.mpr hname, isPart_write x, ?_⟩
  simp [Answer.text, String.toList_append]

end Command

namespace Session

variable {s : Session} {line name : String}

theorem next_of_bound (h : (s.step line).1.result = .ok (.bound name x)) :
    s.next line = ⟨s.table.insert name x⟩ := by
  have hanswer : (s.answer line).result = .ok (.bound name x) := h
  rw [next, step, hanswer, after]

/-- To bind a name again to the value that it has changes nothing. -/
theorem insert_insert (table : Variables) (name : String) (x : Float) :
    (table.insert name x).insert name x = table.insert name x := by
  refine Std.ExtTreeMap.ext_getElem? fun other => ?_
  simp only [Std.ExtTreeMap.getElem?_insert]
  split
  · rfl
  · rfl

/-- The answer to an assignment can be typed back: whatever the name is, if the value has no sign
and is zero or lies in the decades of plain notation, the text of the answer as the next line has
the same answer, and the session stays as it is. -/
theorem retype_assignment (hbound : (s.step line).1.result = .ok (.bound name x))
    (hpositive : isNegative x = false)
    (hrange : pattern x = 0 ∨
      1 / 10 ^ 4 ≤ Binary64.magnitude (pattern x) ∧ Binary64.magnitude (pattern x) < 10 ^ 16) :
    ((s.next line).step (Answer.bound name x).text).1.result = .ok (.bound name x) ∧
      ((s.next line).step (Answer.bound name x).text).2 = s.next line := by
  obtain ⟨expression, hline, -⟩ := answer_eq_bound_iff.mp hbound
  have hplain := Numeral.isPlainNumber_write hpositive hrange
  have hanswer : ((s.next line).step (Answer.bound name x).text).1.result =
      .ok (.bound name x) := answer_eq_bound_iff.mpr
    ⟨Numeral.write x, Command.isAssignment_text hline.isKey x, evaluate_write hplain _⟩
  refine ⟨hanswer, ?_⟩
  calc
    ((s.next line).step (Answer.bound name x).text).2
      = ⟨(s.next line).table.insert name x⟩ := next_of_bound hanswer
    _ = ⟨(s.table.insert name x).insert name x⟩ := by rw [next_of_bound hbound]
    _ = ⟨s.table.insert name x⟩ := by rw [insert_insert]
    _ = s.next line := (next_of_bound hbound).symm

/-- The name of a third is no identifier. -/
theorem retype_assignment_third :
    let s := fresh.next "three = 3"
    let line := "two words = 1 / three"
    (s.step line).1.result = .ok (.bound "two words" (1 / 3)) ∧
      (Answer.bound "two words" (1 / 3)).text = "two words = 0.3333333333333333" ∧
      ((s.next line).step "two words = 0.3333333333333333").1.result =
        .ok (.bound "two words" (1 / 3)) ∧
      ((s.next line).step "two words = 0.3333333333333333").2 = s.next line := by
  intro s line
  have hbound : (s.step line).1.result = .ok (.bound "two words" (1 / 3)) := by decide +kernel
  have htext : (Answer.bound "two words" (1 / 3)).text = "two words = 0.3333333333333333" := by
    decide +kernel
  have hpattern : pattern (1 / 3) = 0x3FD5555555555555 := by decide +kernel
  have hlow : Decimal.toRat ⟨1, -4⟩ ≤ Binary64.magnitude 0x3FD5555555555555 :=
    Decimal.toRat_le_magnitude_iff.mpr (by decide +kernel)
  have hhigh : Binary64.magnitude 0x3FD5555555555555 < Decimal.toRat ⟨1, 16⟩ :=
    not_le.mp (Decimal.toRat_le_magnitude_iff.not.mpr (by decide +kernel))
  rw [Decimal.toRat_one, ← hpattern] at hlow hhigh
  have hretyped := retype_assignment hbound (by decide +kernel)
    (.inr ⟨by simpa using hlow, by simpa using hhigh⟩)
  rw [htext] at hretyped
  exact ⟨hbound, htext, hretyped⟩

end Session

end InfixCalculator
