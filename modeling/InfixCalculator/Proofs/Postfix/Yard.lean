import InfixCalculator.Postfix.Yard
import InfixCalculator.Proofs.Span

/-!
# What a yard does with one symbol

Each lemma names what a symbol adds to the output and what it leaves on the stack. Operators and
closing parentheses send the upper part of the stack to the output; how far, is said by a split of
the stack into a part that leaves and a part whose top stays.
-/

namespace InfixCalculator.Postfix

namespace Pending

@[simp] theorem items_nil : items [] = [] := rfl

@[simp] theorem items_operator (op : Operator) (stack : List Pending) :
    items (.operator op :: stack) = .operator op :: items stack := rfl

@[simp] theorem items_paren (stack : List Pending) : items (.paren :: stack) = items stack := rfl

theorem items_append (above below : List Pending) :
    items (above ++ below) = items above ++ items below := by
  simp [items]

/-- Every operator ranks above every parenthesis. -/
theorem ne_paren_of_rank_pos {entry : Pending} (h : 0 < entry.rank) : entry ≠ .paren := by
  intro heq
  subst heq
  cases h

end Pending

namespace Yard

variable {above below : List Pending} {y : Yard}

theorem eq_of_toList_eq {y y' : Yard} (houtput : y.output.toList = y'.output.toList)
    (hstack : y.stack = y'.stack) : y = y' := by
  obtain ⟨output, stack⟩ := y
  obtain ⟨output', stack'⟩ := y'
  cases Array.toList_inj.mp houtput
  cases hstack
  rfl

theorem output_popWhile {p : Pending → Bool} (hstack : y.stack = above ++ below)
    (habove : ∀ entry ∈ above, p entry) (hbelow : Misses p below) :
    (y.popWhile p).output.toList = y.output.toList ++ Pending.items above := by
  simp [popWhile, hstack, takeWhile_eq_of_misses habove hbelow]

theorem stack_popWhile {p : Pending → Bool} (hstack : y.stack = above ++ below)
    (habove : ∀ entry ∈ above, p entry) (hbelow : Misses p below) :
    (y.popWhile p).stack = below := by
  simp [popWhile, hstack, dropWhile_eq_of_misses habove hbelow]

@[simp] theorem output_value (x : Float) :
    (y.take (.value x)).output.toList = y.output.toList ++ [.value x] := by
  simp [take, value]

@[simp] theorem stack_value (x : Float) : (y.take (.value x)).stack = y.stack := rfl

@[simp] theorem output_opening : (y.take .opening).output = y.output := rfl

@[simp] theorem stack_opening : (y.take .opening).stack = .paren :: y.stack := rfl

theorem output_operator {op : Operator} (hstack : y.stack = above ++ below)
    (habove : ∀ entry ∈ above, op.precedence ≤ entry.rank)
    (hbelow : ∀ entry ∈ below.head?, entry.rank < op.precedence) :
    (y.take (.operator op)).output.toList = y.output.toList ++ Pending.items above :=
  output_popWhile hstack (by simpa using habove) (by simpa [Misses] using hbelow)

theorem stack_operator {op : Operator} (hstack : y.stack = above ++ below)
    (habove : ∀ entry ∈ above, op.precedence ≤ entry.rank)
    (hbelow : ∀ entry ∈ below.head?, entry.rank < op.precedence) :
    (y.take (.operator op)).stack = .operator op :: below :=
  congrArg (_ :: ·)
    (stack_popWhile hstack (by simpa using habove) (by simpa [Misses] using hbelow))

theorem output_closing (hstack : y.stack = above ++ below) (habove : ∀ entry ∈ above, entry ≠ .paren)
    (hbelow : ∀ entry ∈ below.head?, entry = .paren) :
    (y.take .closing).output.toList = y.output.toList ++ Pending.items above :=
  output_popWhile hstack (by simpa using habove) (by simpa [Misses] using hbelow)

theorem stack_closing (hstack : y.stack = above ++ below) (habove : ∀ entry ∈ above, entry ≠ .paren)
    (hbelow : ∀ entry ∈ below.head?, entry = .paren) : (y.take .closing).stack = below.tail :=
  congrArg List.tail
    (stack_popWhile hstack (by simpa using habove) (by simpa [Misses] using hbelow))

/-! ## How far the stack is sent to the output -/

/-- Before an operator, up to the first entry that binds less tightly. -/
theorem exists_split_operator (y : Yard) (op : Operator) :
    ∃ above below, y.stack = above ++ below ∧ (∀ entry ∈ above, op.precedence ≤ entry.rank) ∧
      ∀ entry ∈ below.head?, entry.rank < op.precedence := by
  obtain ⟨above, below, hstack, habove, hbelow⟩ :=
    exists_span (fun entry : Pending => decide (op.precedence ≤ entry.rank)) y.stack
  exact ⟨above, below, hstack, by simpa using habove, by simpa [Misses] using hbelow⟩

/-- Before a closing parenthesis, up to the nearest opening one. -/
theorem exists_split_closing (y : Yard) :
    ∃ above below, y.stack = above ++ below ∧ (∀ entry ∈ above, entry ≠ .paren) ∧
      ∀ entry ∈ below.head?, entry = .paren := by
  obtain ⟨above, below, hstack, habove, hbelow⟩ :=
    exists_span (fun entry : Pending => decide (entry ≠ .paren)) y.stack
  exact ⟨above, below, hstack, by simpa using habove, by simpa [Misses] using hbelow⟩

end Yard

end InfixCalculator.Postfix
