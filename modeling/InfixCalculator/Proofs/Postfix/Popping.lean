import InfixCalculator.Proofs.Postfix.Yard

/-!
# Popping entry by entry

A yard sends a part of its stack to the output at once. The same comes about entry by entry: before an
operator, operators are popped as long as they bind at least as tightly, and a closing parenthesis
pops everything up to the nearest opening one, which goes with it.

* `popHigher`, `popHigher_cases`: one entry, and what can come of it.
* `sendHigher`, `sendGroup`: the two loops.
* `sendHigher_eq`, `sendGroup_eq`: what a loop does is what the yard does at once.
-/

namespace InfixCalculator.Postfix.Yard

variable {y : Yard}

/-! ## One entry -/

/-- Pops the top of the stack if it ranks at least as high as a precedence, and tells which operator
that was. A parenthesis would be popped as well, and be no operator. -/
def popHigher (precedence : Nat) (y : Yard) : Option Operator × Yard :=
  match y.stack with
  | [] => (none, y)
  | top :: below =>
    if precedence ≤ top.rank then (top.operator?, ⟨y.output, below⟩) else (none, y)

/-- Since no parenthesis ranks as high as an operator, either nothing is popped or an operator. -/
theorem popHigher_cases {precedence : Nat} (hpos : 0 < precedence) (y : Yard) :
    (y.popHigher precedence = (none, y) ∧ ∀ top ∈ y.stack.head?, top.rank < precedence) ∨
      ∃ op below, y.stack = .operator op :: below ∧ precedence ≤ op.precedence ∧
        y.popHigher precedence = (some op, ⟨y.output, below⟩) := by
  unfold popHigher
  split
  · next hstack =>
    rw [hstack]
    exact .inl ⟨rfl, nofun⟩
  · next top below hstack =>
    rw [hstack]
    split
    · next hle =>
      cases top with
      | operator op => exact .inr ⟨op, below, rfl, hle, rfl⟩
      | paren => exact absurd hpos (Nat.not_lt_of_le hle)
    · next hlt =>
      refine .inl ⟨rfl, fun entry hentry => ?_⟩
      cases hentry
      exact Nat.not_le.mp hlt

theorem length_popHigher_lt {precedence : Nat} {op : Operator} {rest : Yard}
    (h : y.popHigher precedence = (some op, rest)) : rest.stack.length < y.stack.length := by
  unfold popHigher at h
  split at h
  · cases h
  · next top below hstack =>
    split at h
    · obtain ⟨-, rfl⟩ := Prod.mk.inj h
      rw [hstack]
      exact Nat.lt_succ_self _
    · cases h

/-! ## The loops -/

/-- Sends operators to the output as long as one is popped. -/
def sendHigher (precedence : Nat) (y : Yard) : Yard :=
  match _h : y.popHigher precedence with
  | (some op, rest) => sendHigher precedence ⟨rest.output.push (.operator op), rest.stack⟩
  | (none, rest) => rest
termination_by y.stack.length
decreasing_by exact length_popHigher_lt _h

/-- Sends a stack to the output up to the nearest parenthesis, which is dropped. -/
def sendGroup (output : Array Item) : List Pending → Yard
  | [] => ⟨output, []⟩
  | .paren :: below => ⟨output, below⟩
  | .operator op :: below => sendGroup (output.push (.operator op)) below

/-- An operator that is sent to the output may be sent there before all that follows it. -/
theorem popWhile_operator {p : Pending → Bool} {op : Operator} (hop : p (.operator op))
    (output : Array Item) (below : List Pending) :
    popWhile p ⟨output, .operator op :: below⟩ =
      popWhile p ⟨output.push (.operator op), below⟩ := by
  apply eq_of_toList_eq
  · simp [popWhile, hop]
  · simp [popWhile, hop]

theorem popWhile_of_misses {p : Pending → Bool} (h : Misses p y.stack) : y.popWhile p = y := by
  have habove : ∀ entry ∈ ([] : List Pending), p entry := nofun
  apply eq_of_toList_eq
  · rw [output_popWhile (List.nil_append _).symm habove h, Pending.items_nil, List.append_nil]
  · exact stack_popWhile (List.nil_append _).symm habove h

/-- Popping operators one by one sends the part of the stack that ranks as high. -/
theorem sendHigher_eq {precedence : Nat} (hpos : 0 < precedence) (y : Yard) :
    y.sendHigher precedence = y.popWhile fun entry => precedence ≤ entry.rank := by
  fun_induction sendHigher precedence y with
  | case1 y op rest hpop ih =>
    rcases popHigher_cases hpos y with ⟨hnone, -⟩ | ⟨op', below, hstack, hle, hsome⟩
    · rw [hnone] at hpop
      cases hpop
    · rw [hsome] at hpop
      obtain ⟨hop, rfl⟩ := Prod.mk.inj hpop
      obtain rfl := Option.some.inj hop
      have hy : y = ⟨y.output, .operator op' :: below⟩ := eq_of_toList_eq rfl hstack
      rw [ih, hy, popWhile_operator (decide_eq_true hle)]
  | case2 y rest hpop =>
    rcases popHigher_cases hpos y with ⟨hnone, hlow⟩ | ⟨op', below, -, -, hsome⟩
    · rw [hnone] at hpop
      obtain ⟨-, rfl⟩ := Prod.mk.inj hpop
      exact (popWhile_of_misses (by simpa [Misses] using hlow)).symm
    · rw [hsome] at hpop
      cases hpop

theorem take_operator_eq (op : Operator) (y : Yard) :
    y.take (.operator op) = (y.sendHigher op.precedence).push (.operator op) := by
  rw [sendHigher_eq op.precedence_pos]
  rfl

/-- Popping up to the nearest parenthesis is what a closing one does. -/
theorem sendGroup_eq (y : Yard) : sendGroup y.output y.stack = y.take .closing := by
  obtain ⟨output, stack⟩ := y
  induction stack generalizing output with
  | nil => exact eq_of_toList_eq (by simp [sendGroup, take, closing, popWhile]) rfl
  | cons top below ih =>
    cases top with
    | paren => exact eq_of_toList_eq (by simp [sendGroup, take, closing, popWhile]) rfl
    | operator op =>
      have hop : decide (Pending.operator op ≠ .paren) = true := rfl
      simp only [take, closing] at ih ⊢
      rw [sendGroup, popWhile_operator hop]
      exact ih _

end InfixCalculator.Postfix.Yard
