import InfixCalculator.Proofs.Postfix.Frame

/-!
# Programs that lack operands

Whether a program has a value is seen by counting: it has none if it is empty, or if at some point
as many operators as values have gone by. The values themselves play no part, neither in the count
nor in the order that a yard makes of them.

* `run_eq_error_iff`, `result_eq_error_iff`: the programs that have no value.
* `ofSymbols_map`: a yard moves values, whatever they are.
* `LacksOperands.of_map_eq`: programs with operators in the same places lack operands together.
-/

namespace InfixCalculator.Postfix

/-! ## Counting -/

/-- There is nothing at all, or the program begins with some items among which there are no more
values than operators. -/
def LacksOperands (items : List Item) : Prop :=
  items = [] ∨ ∃ part, part <+: items ∧ part ≠ [] ∧
    part.countP (!·.isOperator) ≤ part.countP Item.isOperator

variable {items : List Item} {fault : Fault}

/-- A list with a first element begins with that alone, or goes on as its tail begins. -/
theorem exists_prefix_cons_iff {α : Type} {a : α} {as : List α} {p : List α → Prop} :
    (∃ part, part <+: a :: as ∧ part ≠ [] ∧ p part) ↔
      p [a] ∨ ∃ part, part <+: as ∧ part ≠ [] ∧ p (a :: part) := by
  constructor
  · intro h
    obtain ⟨part, hpart, hne, hp⟩ := h
    rcases List.prefix_cons_iff.mp hpart with rfl | ⟨rest, rfl, hrest⟩
    · exact absurd rfl hne
    · by_cases hempty : rest = []
      · subst hempty
        exact .inl hp
      · exact .inr ⟨rest, hrest, hempty, hp⟩
  · intro h
    rcases h with hp | ⟨rest, hrest, -, hp⟩
    · exact ⟨[a], List.prefix_cons_iff.mpr (.inr ⟨[], rfl, List.nil_prefix⟩), by simp, hp⟩
    · exact ⟨a :: rest, List.prefix_cons_iff.mpr (.inr ⟨rest, rfl, hrest⟩), by simp, hp⟩

/-- A run breaks off where the operators that went by are no fewer than the values, those on the
stack at the start included. -/
theorem run_eq_error_iff {stack : List Float} :
    run items stack = .error .missingOperand ↔
      ∃ part, part <+: items ∧ part ≠ [] ∧
        stack.length + part.countP (!·.isOperator) ≤ part.countP Item.isOperator := by
  induction items generalizing stack with
  | nil =>
    constructor
    · nofun
    · intro h
      obtain ⟨part, hpart, hne, -⟩ := h
      exact absurd (List.prefix_nil.mp hpart) hne
  | cons item items ih =>
    rw [exists_prefix_cons_iff]
    cases item with
    | value x =>
      -- a value alone is no such beginning, and before any other it counts like one on the stack
      have hvalues : ∀ part, (Item.value x :: part).countP (!·.isOperator) =
          part.countP (!·.isOperator) + 1 := fun _ => List.countP_cons_of_pos rfl
      have hoperators : ∀ part, (Item.value x :: part).countP Item.isOperator =
          part.countP Item.isOperator := fun _ => List.countP_cons_of_neg nofun
      rw [run_value, ih, hvalues, hoperators, or_iff_right (by simp)]
      refine exists_congr fun part => and_congr_right' (and_congr_right' ?_)
      rw [hvalues, hoperators, List.length_cons]
      omega
    | operator op =>
      have hvalues : ∀ part, (Item.operator op :: part).countP (!·.isOperator) =
          part.countP (!·.isOperator) := fun _ => List.countP_cons_of_neg nofun
      have hoperators : ∀ part, (Item.operator op :: part).countP Item.isOperator =
          part.countP Item.isOperator + 1 := fun _ => List.countP_cons_of_pos rfl
      rw [hvalues, hoperators]
      match stack with
      | right :: left :: stack =>
        rw [run_operator, ih, or_iff_right (by simp)]
        refine exists_congr fun part => and_congr_right' (and_congr_right' ?_)
        rw [hvalues, hoperators, List.length_cons, List.length_cons, List.length_cons]
        omega
      | [right] => exact iff_of_true rfl (.inl (by simp))
      | [] => exact iff_of_true rfl (.inl (by simp))

theorem result_eq_error (h : result items = .error fault) : fault = .missingOperand := by
  unfold result at h
  cases hrun : run items [] with
  | error fault' =>
    rw [hrun] at h
    cases h
    exact run_eq_error hrun
  | ok stack =>
    rw [hrun] at h
    cases stack with
    | nil =>
      cases h
      rfl
    | cons x stack => cases h

/-- A program has no value exactly if it lacks operands. -/
theorem result_eq_error_iff : result items = .error .missingOperand ↔ LacksOperands items := by
  have hparts : run items [] = .error .missingOperand ↔ _ := run_eq_error_iff
  simp only [List.length_nil, Nat.zero_add] at hparts
  unfold result LacksOperands
  rw [← hparts]
  cases hrun : run items [] with
  | error fault =>
    rw [run_eq_error hrun]
    simp
  | ok stack =>
    cases stack with
    | cons x stack =>
      have hne : items ≠ [] := by
        rintro rfl
        cases hrun
      simp [hne]
    | nil =>
      -- as many operators as values have gone by, so the program breaks off unless it is empty
      have hlength := length_of_run hrun
      simp only [List.length_nil, Nat.zero_add] at hlength
      by_cases hempty : items = []
      · simp [hempty]
      · have herror := hparts.mpr ⟨items, List.prefix_rfl, hempty, hlength.ge⟩
        rw [hrun] at herror
        cases herror

theorem exists_result (h : ¬ LacksOperands items) : ∃ x, result items = .ok x := by
  cases hresult : result items with
  | ok x => exact ⟨x, rfl⟩
  | error fault =>
    rw [result_eq_error hresult] at hresult
    exact absurd (result_eq_error_iff.mp hresult) h

theorem LacksOperands.of_map_eq {items' : List Item}
    (hmap : items.map Item.isOperator = items'.map Item.isOperator) (h : LacksOperands items) :
    LacksOperands items' := by
  rcases h with rfl | ⟨part, hpart, hne, hcount⟩
  · exact .inl (List.map_eq_nil_iff.mp hmap.symm)
  · have hpart' : (items'.take part.length).map Item.isOperator = part.map Item.isOperator := by
      rw [List.map_take, ← hmap, ← List.map_take, ← List.prefix_iff_eq_take.mp hpart]
    have hcounts : ∀ p : Bool → Bool, (items'.take part.length).countP (p ∘ Item.isOperator) =
        part.countP (p ∘ Item.isOperator) := by
      intro p
      rw [← List.countP_map, hpart', List.countP_map]
    refine .inr ⟨items'.take part.length, List.take_prefix _ _, ?_, ?_⟩
    · intro hempty
      rw [hempty] at hpart'
      exact hne (List.map_eq_nil_iff.mp hpart'.symm)
    · exact (hcounts not).trans_le (hcount.trans_eq (hcounts id).symm)

/-! ## Values play no part -/

/-- A symbol with its value, if it has one, replaced. -/
def Symbol.map (f : Float → Float) : Symbol → Symbol
  | value x => value (f x)
  | operator op => operator op
  | opening => opening
  | closing => closing

/-- An item with its value, if it is one, replaced. -/
def Item.map (f : Float → Float) : Item → Item
  | value x => value (f x)
  | operator op => operator op

theorem Item.isOperator_map (f : Float → Float) (item : Item) :
    (item.map f).isOperator = item.isOperator := by
  cases item <;> rfl

namespace Yard

variable (f : Float → Float) (y : Yard)

/-- A yard with all values in it replaced. -/
def map : Yard := ⟨y.output.map (Item.map f), y.stack⟩

theorem map_items (stack : List Pending) :
    (Pending.items stack).map (Item.map f) = Pending.items stack := by
  rw [Pending.items, List.map_map]
  rfl

theorem map_popWhile (p : Pending → Bool) :
    (y.map f).popWhile p = (y.popWhile p).map f := by
  apply eq_of_toList_eq
  · simp [map, popWhile, map_items]
  · rfl

theorem map_take (symbol : Symbol) : (y.map f).take (symbol.map f) = (y.take symbol).map f := by
  cases symbol with
  | value x =>
    apply eq_of_toList_eq
    · simp [map, Symbol.map, take, value, Item.map]
    · rfl
  | operator op => exact congrArg (push (.operator op)) (map_popWhile f y _)
  | opening => rfl
  | closing =>
    show Yard.mk ((y.map f).popWhile _).output ((y.map f).popWhile _).stack.tail = _
    rw [map_popWhile]
    rfl

theorem map_foldl_take (symbols : List Symbol) :
    (symbols.map (Symbol.map f)).foldl take (y.map f) = (symbols.foldl take y).map f := by
  induction symbols generalizing y with
  | nil => rfl
  | cons symbol symbols ih =>
    rw [List.map_cons, List.foldl_cons, map_take, ih, List.foldl_cons]

end Yard

theorem ofSymbols_map (f : Float → Float) (symbols : List Symbol) :
    ofSymbols (symbols.map (Symbol.map f)) = (ofSymbols symbols).map (Item.map f) := by
  have hfold := Yard.map_foldl_take f Yard.empty symbols
  have hempty : Yard.empty.map f = Yard.empty := by simp [Yard.map, Yard.empty]
  rw [hempty] at hfold
  rw [ofSymbols, ofSymbols, hfold]
  simp [Yard.program, Yard.map, Yard.map_items]

/-- Lists of symbols that differ in their values only have programs with operators in the same
places. -/
theorem map_isOperator_ofSymbols {f : Float → Float} {symbols symbols' : List Symbol}
    (h : symbols.map (Symbol.map f) = symbols'.map (Symbol.map f)) :
    (ofSymbols symbols).map Item.isOperator = (ofSymbols symbols').map Item.isOperator := by
  have hforget : ∀ items : List Item,
      (items.map (Item.map f)).map Item.isOperator = items.map Item.isOperator := by
    intro items
    rw [List.map_map]
    exact List.map_congr_left fun item _ => item.isOperator_map f
  rw [← hforget, ← hforget (ofSymbols symbols'), ← ofSymbols_map, ← ofSymbols_map, h]

end InfixCalculator.Postfix
