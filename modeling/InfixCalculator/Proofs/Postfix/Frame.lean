import InfixCalculator.Postfix.Run
import InfixCalculator.Proofs.Postfix.Role
import InfixCalculator.Proofs.Postfix.Yard

/-!
# Frames

What lies deep on a stack takes no part in what happens above it.

* `run_append_stack`: a program that runs on a stack runs on top of any other in the same way.
* `Yard.take_onto`: a yard on top of another, closed off by a parenthesis, works on its own.
* `Yard.foldl_group`: a balanced list between parentheses adds exactly its own program to the
  output, whatever waits around it.
* `ofSymbols_perm`: a program holds the values and operators of its symbols, each once.
-/

namespace InfixCalculator.Postfix

/-! ## The value stack -/

theorem step_append_stack {item : Item} {stack stack' : List Float}
    (h : step item stack = .ok stack') (base : List Float) :
    step item (stack ++ base) = .ok (stack' ++ base) := by
  cases item with
  | value x =>
    cases h
    rfl
  | operator op =>
    match stack, h with
    | right :: left :: stack, h =>
      cases h
      rfl

theorem run_append_stack {items : List Item} {stack stack' : List Float}
    (h : run items stack = .ok stack') (base : List Float) :
    run items (stack ++ base) = .ok (stack' ++ base) := by
  induction items generalizing stack with
  | nil =>
    cases h
    rfl
  | cons item items ih =>
    simp only [run] at h ⊢
    cases hstep : step item stack with
    | error fault =>
      rw [hstep] at h
      cases h
    | ok next =>
      rw [hstep] at h
      rw [step_append_stack hstep]
      exact ih h

/-- Whether an item is an operator. -/
def Item.isOperator : Item → Bool
  | value _ => false
  | operator _ => true

theorem length_of_step {item : Item} {stack stack' : List Float}
    (h : step item stack = .ok stack') :
    stack'.length + [item].countP Item.isOperator = stack.length + [item].countP (!·.isOperator) := by
  cases item with
  | value x =>
    cases h
    rfl
  | operator op =>
    match stack, h with
    | right :: left :: stack, h =>
      cases h
      rfl

/-- Every value adds a slot to the stack and every operator takes one away. -/
theorem length_of_run {items : List Item} {stack stack' : List Float}
    (h : run items stack = .ok stack') :
    stack'.length + items.countP Item.isOperator = stack.length + items.countP (!·.isOperator) := by
  induction items generalizing stack with
  | nil =>
    cases h
    rfl
  | cons item items ih =>
    simp only [run] at h
    cases hstep : step item stack with
    | error fault =>
      rw [hstep] at h
      cases h
    | ok next =>
      rw [hstep] at h
      have hlength := length_of_step hstep
      have hrest := ih h
      rw [← List.singleton_append, List.countP_append, List.countP_append]
      omega

/-! ## The yard -/

namespace Yard

/-- The yard on top of another one. -/
def onto (y base : Yard) : Yard := ⟨base.output ++ y.output, y.stack ++ base.stack⟩

variable {y base : Yard}

/-- A symbol does to a yard on top of another what it does to the yard alone, if the other one is
closed off by a parenthesis and the symbol does not close it. -/
theorem take_onto {symbol : Symbol} (hbase : ∀ top ∈ base.stack.head?, top = .paren)
    (hclosing : symbol = .closing → .paren ∈ y.stack ∨ base.stack = []) :
    (y.onto base).take symbol = (y.take symbol).onto base := by
  cases symbol with
  | value x => exact eq_of_toList_eq (by simp [onto]) rfl
  | opening => rfl
  | operator op =>
    obtain ⟨above, below, hstack, habove, hbelow⟩ := y.exists_split_operator op
    have hstack' : (y.onto base).stack = above ++ (below ++ base.stack) := by simp [onto, hstack]
    have hbelow' : ∀ entry ∈ (below ++ base.stack).head?, entry.rank < op.precedence := by
      cases below with
      | nil =>
        intro entry hentry
        rw [hbase entry hentry]
        exact op.precedence_pos
      | cons top below => exact hbelow
    apply eq_of_toList_eq
    · rw [output_operator hstack' habove hbelow']
      simp [onto, output_operator hstack habove hbelow]
    · rw [stack_operator hstack' habove hbelow']
      simp [onto, stack_operator hstack habove hbelow]
  | closing =>
    obtain ⟨above, below, hstack, habove, hbelow⟩ := y.exists_split_closing
    have hstack' : (y.onto base).stack = above ++ (below ++ base.stack) := by simp [onto, hstack]
    have hbelow' : ∀ entry ∈ (below ++ base.stack).head?, entry = .paren := by
      cases below with
      | nil => exact hbase
      | cons top below => exact hbelow
    have htail : (below ++ base.stack).tail = below.tail ++ base.stack := by
      cases below with
      | nil =>
        rcases hclosing rfl with hmem | hempty
        · rw [hstack, List.append_nil] at hmem
          exact absurd rfl (habove _ hmem)
        · simp [hempty]
      | cons top below => rfl
    apply eq_of_toList_eq
    · rw [output_closing hstack' habove hbelow']
      simp [onto, output_closing hstack habove hbelow]
    · rw [stack_closing hstack' habove hbelow', htail]
      simp [onto, stack_closing hstack habove hbelow]

theorem foldl_onto_output (symbols : List Symbol) (y : Yard) (output : Array Item) :
    symbols.foldl take (y.onto ⟨output, []⟩) = (symbols.foldl take y).onto ⟨output, []⟩ := by
  induction symbols generalizing y with
  | nil => rfl
  | cons symbol symbols ih =>
    rw [List.foldl_cons, take_onto (by simp) fun _ => .inr rfl, ih]
    rfl

/-- What stands in the output before has no part in what is added. -/
theorem program_foldl_take (symbols : List Symbol) (output : Array Item) (stack : List Pending) :
    (symbols.foldl take ⟨output, stack⟩).program =
      output.toList ++ (symbols.foldl take ⟨#[], stack⟩).program := by
  have h : (⟨output, stack⟩ : Yard) = (⟨#[], stack⟩ : Yard).onto ⟨output, []⟩ :=
    eq_of_toList_eq (by simp [onto]) (by simp [onto])
  rw [h, foldl_onto_output]
  simp [program, onto]

/-! ## Nesting in the yard -/

theorem count_paren_operator (op : Operator) (y : Yard) :
    (y.take (.operator op)).stack.count .paren = y.stack.count .paren := by
  obtain ⟨above, below, hstack, habove, hbelow⟩ := y.exists_split_operator op
  have hnone : above.count .paren = 0 := by
    apply List.count_eq_zero.mpr
    intro hmem
    have hrank : op.precedence ≤ 0 := habove _ hmem
    have hpos := op.precedence_pos
    omega
  rw [stack_operator hstack habove hbelow, hstack, List.count_append, hnone, Nat.zero_add]
  exact List.count_cons_of_ne (by simp)

theorem count_paren_closing (y : Yard) :
    (y.take .closing).stack.count .paren = y.stack.count .paren - 1 := by
  obtain ⟨above, below, hstack, habove, hbelow⟩ := y.exists_split_closing
  have hnone : above.count .paren = 0 :=
    List.count_eq_zero.mpr fun hmem => habove _ hmem rfl
  rw [stack_closing hstack habove hbelow, hstack, List.count_append, hnone, Nat.zero_add]
  cases below with
  | nil => rfl
  | cons top below =>
    rw [hbelow top rfl, List.count_cons_self]
    rfl

/-- The depth of nesting is the number of parentheses that wait. -/
theorem nesting_take {symbol : Symbol} {rs : List Role} {y : Yard} {depth : Nat}
    (h : Role.nesting (y.stack.count .paren) (symbol.role :: rs) = some depth) :
    Role.nesting ((y.take symbol).stack.count .paren) rs = some depth ∧
      (symbol = .closing → .paren ∈ y.stack) := by
  cases symbol with
  | value x => exact ⟨h, nofun⟩
  | operator op =>
    rw [count_paren_operator]
    exact ⟨h, nofun⟩
  | opening =>
    rw [stack_opening, List.count_cons_self]
    exact ⟨h, nofun⟩
  | closing =>
    rw [count_paren_closing]
    cases hcount : y.stack.count .paren with
    | zero =>
      rw [hcount] at h
      cases h
    | succ n =>
      rw [hcount] at h
      exact ⟨h, fun _ => List.count_pos_iff.mp (hcount ▸ Nat.succ_pos n)⟩

/-- Symbols that close no parenthesis but their own work on top of another yard as they do alone. -/
theorem foldl_onto {symbols : List Symbol} {y base : Yard} {depth : Nat}
    (hbase : ∀ top ∈ base.stack.head?, top = .paren)
    (h : Role.nesting (y.stack.count .paren) (symbols.map Symbol.role) = some depth) :
    symbols.foldl take (y.onto base) = (symbols.foldl take y).onto base ∧
      (symbols.foldl take y).stack.count .paren = depth := by
  induction symbols generalizing y with
  | nil => exact ⟨rfl, Option.some.inj h⟩
  | cons symbol symbols ih =>
    obtain ⟨hrest, hclosing⟩ := nesting_take h
    rw [List.foldl_cons, List.foldl_cons, take_onto hbase fun hs => .inl (hclosing hs)]
    exact ih hrest

/-- A balanced list between parentheses adds its own program to the output and nothing to the
stack. -/
theorem foldl_group {symbols : List Symbol}
    (h : Role.nesting 0 (symbols.map Symbol.role) = some 0) (y : Yard) :
    (Symbol.opening :: (symbols ++ [.closing])).foldl take y =
      ⟨y.output ++ ofSymbols symbols, y.stack⟩ := by
  have hopening : y.take .opening = Yard.empty.onto ⟨y.output, .paren :: y.stack⟩ :=
    eq_of_toList_eq (by simp [onto, empty]) rfl
  have hbase : ∀ top ∈ (⟨y.output, .paren :: y.stack⟩ : Yard).stack.head?, top = .paren := by simp
  obtain ⟨honto, hcount⟩ := foldl_onto (y := Yard.empty) hbase h
  rw [List.foldl_cons, hopening, List.foldl_append, honto]
  have hne : ∀ entry ∈ (symbols.foldl take Yard.empty).stack, entry ≠ .paren := by
    intro entry hentry heq
    subst heq
    exact List.count_eq_zero.mp hcount hentry
  have hparen : ∀ entry ∈ (Pending.paren :: y.stack).head?, entry = .paren := by simp
  apply eq_of_toList_eq
  · refine (output_closing rfl hne hparen).trans ?_
    simp [onto, ofSymbols, program]
  · exact stack_closing rfl hne hparen

end Yard

/-- A balanced list between parentheses stands in a program where a value would stand. -/
theorem ofSymbols_group {symbols : List Symbol}
    (h : Role.nesting 0 (symbols.map Symbol.role) = some 0) (before after : List Symbol) :
    ∃ items items', ofSymbols (before ++ .opening :: (symbols ++ .closing :: after)) =
        items ++ ofSymbols symbols ++ items' ∧
      ∀ x, ofSymbols (before ++ .value x :: after) = items ++ [.value x] ++ items' := by
  let y := before.foldl Yard.take Yard.empty
  refine ⟨y.output.toList, (after.foldl Yard.take ⟨#[], y.stack⟩).program, ?_, ?_⟩
  · have happend : before ++ .opening :: (symbols ++ .closing :: after) =
        before ++ (.opening :: (symbols ++ [.closing])) ++ after := by simp
    rw [happend, ofSymbols, List.foldl_append, List.foldl_append, Yard.foldl_group h,
      Yard.program_foldl_take]
    simp [y]
  · intro x
    rw [ofSymbols, List.foldl_append, List.foldl_cons]
    have hvalue : y.take (.value x) = ⟨y.output ++ [Item.value x], y.stack⟩ :=
      Yard.eq_of_toList_eq (by simp) rfl
    show (after.foldl Yard.take (y.take (.value x))).program = _
    rw [hvalue, Yard.program_foldl_take]
    simp

/-! ## Nothing is lost and nothing is added -/

/-- The item that a symbol contributes to a program, if it is a value or an operator. -/
def Symbol.item? : Symbol → Option Item
  | value x => some (.value x)
  | operator op => some (.operator op)
  | _ => none

/-- What a closing parenthesis sends to the output would be sent there at the end in the same
order. -/
theorem Yard.program_take_closing (y : Yard) : (y.take .closing).program = y.program := by
  obtain ⟨above, below, hstack, habove, hbelow⟩ := y.exists_split_closing
  have htail : Pending.items below.tail = Pending.items below := by
    cases below with
    | nil => rfl
    | cons top below =>
      rw [hbelow top rfl]
      rfl
  rw [program, output_closing hstack habove hbelow, stack_closing hstack habove hbelow, program,
    hstack, Pending.items_append, htail, List.append_assoc]

theorem Yard.program_take_perm (y : Yard) (symbol : Symbol) :
    (y.take symbol).program.Perm (y.program ++ symbol.item?.toList) := by
  cases symbol with
  | value x =>
    rw [program, output_value, stack_value, program, List.append_assoc, List.append_assoc]
    exact List.perm_append_comm.append_left _
  | operator op =>
    obtain ⟨above, below, hstack, habove, hbelow⟩ := y.exists_split_operator op
    rw [program, output_operator hstack habove hbelow, stack_operator hstack habove hbelow, program,
      hstack, Pending.items_append, Pending.items_operator, ← List.append_assoc]
    exact (List.perm_append_singleton _ _).symm.append_left _ |>.trans (by simp [Symbol.item?])
  | opening =>
    rw [program, output_opening, stack_opening, Pending.items_paren]
    simp [program, Symbol.item?]
  | closing =>
    rw [program_take_closing]
    simp [Symbol.item?]

theorem Yard.program_foldl_perm (symbols : List Symbol) (y : Yard) :
    (symbols.foldl Yard.take y).program.Perm (y.program ++ symbols.filterMap Symbol.item?) := by
  induction symbols generalizing y with
  | nil => simp
  | cons symbol symbols ih =>
    refine (ih (y.take symbol)).trans (((program_take_perm y symbol).append_right _).trans ?_)
    rw [List.append_assoc, List.filterMap_cons]
    cases symbol.item? with
    | none => exact .refl _
    | some item => exact .refl _

/-- A program is made of the values and operators of its symbols, each as often as among them. -/
theorem ofSymbols_perm (symbols : List Symbol) :
    (ofSymbols symbols).Perm (symbols.filterMap Symbol.item?) :=
  Yard.program_foldl_perm symbols Yard.empty

end InfixCalculator.Postfix
