import InfixCalculator.Proofs.Postfix.Frame

/-!
# Groups and closers

When the values and operators of a list of symbols are sent to the output, said without a yard and
for every list, also one whose parentheses do not match. A value is sent when it is read. An operator
is sent when its `closer` is read: the first symbol after it that ends it in its own group.

* `LeavesBefore`: the order of two positions in a program.
* `closer_eq_iff`: which of the operators that still wait are sent by a symbol.
-/

namespace InfixCalculator.Postfix

/-! ## Groups and closers -/

/-- The positions of the parentheses that are open before a position, the innermost first. A closing
parenthesis with none open is passed over. -/
def openBefore (symbols : List Symbol) : Nat → List Nat
  | 0 => []
  | i + 1 =>
    match symbols[i]? with
    | some .opening => i :: openBefore symbols i
    | some .closing => (openBefore symbols i).tail
    | _ => openBefore symbols i

/-- The innermost parenthesis open at a position; none at the top level. A closing parenthesis is in
the group that it closes. -/
def group (symbols : List Symbol) (i : Nat) : Option Nat := (openBefore symbols i).head?

/-- Whether an operator waits no longer than up to a symbol of its group. -/
def Symbol.ends (op : Operator) : Symbol → Bool
  | closing => true
  | operator op' => op'.precedence ≤ op.precedence
  | _ => false

/-- Whether the symbol at `j` ends an operator at `i`. -/
def endsAt (symbols : List Symbol) (op : Operator) (i j : Nat) : Bool :=
  i < j && group symbols i = group symbols j && symbols[j]?.any (Symbol.ends op)

/-- The first position that ends an operator at `i`, or else the end of the list. -/
def closer (symbols : List Symbol) (op : Operator) (i : Nat) : Nat :=
  ((List.range symbols.length).find? (endsAt symbols op i)).getD symbols.length

/-- When what stands at a position is sent to the output: a value at once, an operator at its
closer. -/
def moment (symbols : List Symbol) (i : Nat) : Nat :=
  match symbols[i]? with
  | some (.operator op) => closer symbols op i
  | _ => i

/-- Whether position `i` comes before position `j` in the program. Of operators with one closer the
last comes first. -/
def LeavesBefore (symbols : List Symbol) (i j : Nat) : Prop :=
  moment symbols i < moment symbols j ∨ moment symbols i = moment symbols j ∧ j < i

instance (symbols : List Symbol) (i j : Nat) : Decidable (LeavesBefore symbols i j) :=
  inferInstanceAs (Decidable (_ ∨ _))

theorem LeavesBefore.ne {symbols : List Symbol} {i j : Nat} (h : LeavesBefore symbols i j) :
    i ≠ j := by
  intro heq
  subst heq
  rcases h with hlt | ⟨-, hlt⟩
  · exact Nat.lt_irrefl _ hlt
  · exact Nat.lt_irrefl _ hlt

/-- The item that a position contributes to the program, if there is a value or an operator. -/
def itemAt (symbols : List Symbol) (i : Nat) : Option Item := symbols[i]?.bind Symbol.item?

variable {symbols : List Symbol} {op : Operator} {i j k : Nat}

theorem lt_of_mem_openBefore (h : j ∈ openBefore symbols i) : j < i := by
  induction i with
  | zero => cases h
  | succ i ih =>
    simp only [openBefore] at h
    split at h
    · rcases List.mem_cons.mp h with rfl | hmem
      · exact Nat.lt_succ_self _
      · exact Nat.lt_succ_of_lt (ih hmem)
    · exact Nat.lt_succ_of_lt (ih (List.mem_of_mem_tail h))
    · exact Nat.lt_succ_of_lt (ih h)

theorem openBefore_succ_of_opening (h : symbols[i]? = some .opening) :
    openBefore symbols (i + 1) = i :: openBefore symbols i := by
  rw [openBefore, h]

theorem openBefore_succ_of_closing (h : symbols[i]? = some .closing) :
    openBefore symbols (i + 1) = (openBefore symbols i).tail := by
  rw [openBefore, h]

theorem openBefore_succ_of_item {symbol : Symbol} (h : symbols[i]? = some symbol)
    (hitem : symbol.item?.isSome) : openBefore symbols (i + 1) = openBefore symbols i := by
  rw [openBefore, h]
  cases symbol with
  | value x => rfl
  | operator op => rfl
  | opening => cases hitem
  | closing => cases hitem

theorem lt_of_group_eq_some (h : group symbols i = some j) : j < i :=
  lt_of_mem_openBefore (List.mem_of_mem_head? h)

theorem endsAt_eq_true_iff : endsAt symbols op i j = true ↔
    i < j ∧ group symbols i = group symbols j ∧ ∃ symbol ∈ symbols[j]?, symbol.ends op := by
  simp [endsAt, Option.any_eq_true, and_assoc]

theorem moment_of_operator (h : symbols[i]? = some (.operator op)) :
    moment symbols i = closer symbols op i := by
  rw [moment, h]

theorem moment_of_not_operator (h : ∀ op, symbols[i]? ≠ some (.operator op)) :
    moment symbols i = i := by
  rw [moment]
  split
  · next op hop => exact absurd hop (h op)
  · rfl

theorem closer_le : closer symbols op i ≤ symbols.length := by
  rw [closer]
  cases hfind : (List.range symbols.length).find? (endsAt symbols op i) with
  | none => exact Nat.le_refl _
  | some j =>
    have hmem : j ∈ List.range symbols.length := List.mem_of_find?_eq_some hfind
    exact Nat.le_of_lt (List.mem_range.mp hmem)

theorem endsAt_closer (h : closer symbols op i < symbols.length) :
    endsAt symbols op i (closer symbols op i) = true := by
  rw [closer] at h ⊢
  cases hfind : (List.range symbols.length).find? (endsAt symbols op i) with
  | none =>
    rw [hfind] at h
    exact absurd h (Nat.lt_irrefl _)
  | some j => exact List.find?_some hfind

theorem not_endsAt_of_lt_closer (h : j < closer symbols op i) :
    endsAt symbols op i j = false := by
  rw [closer] at h
  cases hfind : (List.range symbols.length).find? (endsAt symbols op i) with
  | none =>
    rw [hfind] at h
    simpa using List.find?_range_eq_none.mp hfind j h
  | some j' =>
    rw [hfind] at h
    simpa using (List.find?_range_eq_some.mp hfind).2.2 j h

theorem lt_closer (h : i < symbols.length) : i < closer symbols op i := by
  by_cases hclosed : closer symbols op i < symbols.length
  · exact (endsAt_eq_true_iff.mp (endsAt_closer hclosed)).1
  · omega

/-- Of the operators that still wait at a position, those leave there that end there. -/
theorem closer_eq_iff {symbol : Symbol} (hk : symbols[k]? = some symbol) (hlt : i < k)
    (hle : k ≤ closer symbols op i) :
    closer symbols op i = k ↔ group symbols i = group symbols k ∧ symbol.ends op = true := by
  obtain ⟨hlength, -⟩ := List.getElem?_eq_some_iff.mp hk
  have hends : endsAt symbols op i k = true ↔
      group symbols i = group symbols k ∧ symbol.ends op = true := by
    simp [endsAt_eq_true_iff, hk, hlt]
  rw [← hends]
  constructor
  · intro heq
    have hcloser : closer symbols op i < symbols.length := by omega
    have hends := endsAt_closer hcloser
    rwa [heq] at hends
  · intro hends
    rcases Nat.lt_or_eq_of_le hle with hlt | heq
    · rw [not_endsAt_of_lt_closer hlt] at hends
      cases hends
    · exact heq.symm

end InfixCalculator.Postfix
