import InfixCalculator.Proofs.Postfix.Expression
import InfixCalculator.Proofs.Postfix.Shortage

/-!
# Programs as forests

A program that has a value writes down one expression after the other, each in postorder, and its
value is that of the last one. The expressions are found by running the program on a stack that
holds expressions in place of their values: each slot is one expression that is complete.

* `Expression.assemble_postorders`: the expressions that a program writes down are those left on the
  stack, so there is only one way to read it (`Expression.postorders_injective`).
* `Expression.postorders_of_assemble`: what is left on the stack is what the program writes down.
* `Expression.run_map_value`: a run on values is a run on expressions, seen through their values.
* `result_forest`: which programs have a value, and which value it is.
-/

namespace InfixCalculator

open Postfix

namespace Expression

/-- The program that writes down expressions one after the other. -/
def postorders (es : List (Expression Float)) : List Item := es.flatMap postorder

/-- What one item does to a stack of expressions. -/
def grow : Item → List (Expression Float) → Option (List (Expression Float))
  | .value x, stack => some (.leaf x :: stack)
  | .operator op, right :: left :: stack => some (.node op left right :: stack)
  | .operator _, _ => none

/-- Runs a program on a stack of expressions, held with its top first. -/
def assemble : List Item → List (Expression Float) → Option (List (Expression Float))
  | [], stack => some stack
  | item :: items, stack => (grow item stack).bind (assemble items)

/-! ## Reading what was written down -/

/-- The program of an expression puts it on the stack. -/
theorem assemble_postorder (e : Expression Float) (items : List Item)
    (stack : List (Expression Float)) :
    assemble (e.postorder ++ items) stack = assemble items (e :: stack) := by
  induction e generalizing items stack with
  | leaf x => rfl
  | node op left right ihl ihr =>
    rw [postorder, List.append_assoc, List.append_assoc, ihl, ihr]
    rfl

theorem assemble_postorders (es : List (Expression Float)) (stack : List (Expression Float)) :
    assemble (postorders es) stack = some (es.reverse ++ stack) := by
  induction es generalizing stack with
  | nil => rfl
  | cons e es ih =>
    rw [postorders, List.flatMap_cons, assemble_postorder]
    refine (ih (e :: stack)).trans ?_
    rw [List.reverse_cons, List.append_assoc, List.singleton_append]

/-- A program is read in one way only. -/
theorem postorders_injective {es es' : List (Expression Float)}
    (h : postorders es = postorders es') : es = es' := by
  have hstack := assemble_postorders es []
  rw [h, assemble_postorders, List.append_nil, List.append_nil] at hstack
  exact (List.reverse_inj.mp (Option.some.inj hstack)).symm

/-! ## Writing down what is on the stack -/

theorem postorders_append (es es' : List (Expression Float)) :
    postorders (es ++ es') = postorders es ++ postorders es' := List.flatMap_append

@[simp] theorem postorders_singleton (e : Expression Float) : postorders [e] = e.postorder := by
  rw [postorders, List.flatMap_singleton]

/-- An item adds itself to what the stack writes down, its bottom first. -/
theorem postorders_of_grow {item : Item} {stack stack' : List (Expression Float)}
    (h : grow item stack = some stack') :
    postorders stack'.reverse = postorders stack.reverse ++ [item] := by
  cases item with
  | value x =>
    cases h
    rw [List.reverse_cons, postorders_append, postorders_singleton, postorder]
  | operator op =>
    cases stack with
    | nil => cases h
    | cons right stack =>
      cases stack with
      | nil => cases h
      | cons left stack =>
        cases h
        simp only [List.reverse_cons, postorders_append, postorders_singleton, postorder,
          List.append_assoc]

/-- What a program leaves on the stack writes down what was on it before, and then the program. -/
theorem postorders_of_assemble {items : List Item} {stack es : List (Expression Float)}
    (h : assemble items stack = some es) :
    postorders es.reverse = postorders stack.reverse ++ items := by
  induction items generalizing stack with
  | nil =>
    cases h
    rw [List.append_nil]
  | cons item items ih =>
    obtain ⟨stack', hgrow, hrest⟩ := Option.bind_eq_some_iff.mp h
    rw [ih hrest, postorders_of_grow hgrow, List.append_assoc, List.singleton_append]

/-! ## Values -/

theorem step_map_value (item : Item) (stack : List (Expression Float)) :
    step item (stack.map value) =
      (grow item stack).elim (.error .missingOperand) fun stack' => .ok (stack'.map value) := by
  cases item with
  | value x => rfl
  | operator op =>
    match stack with
    | _ :: _ :: _ => rfl
    | [_] => rfl
    | [] => rfl

/-- A run on the values of some expressions leaves the values of the expressions that the program
leaves on the stack, and breaks off where there are none. -/
theorem run_map_value (items : List Item) (stack : List (Expression Float)) :
    run items (stack.map value) =
      (assemble items stack).elim (.error .missingOperand) fun es => .ok (es.map value) := by
  induction items generalizing stack with
  | nil => rfl
  | cons item items ih =>
    rw [run, step_map_value, assemble]
    cases grow item stack with
    | none => rfl
    | some stack' => exact ih stack'

/-! ## Counting -/

theorem countP_postorder (e : Expression Float) :
    e.postorder.countP (!·.isOperator) = e.postorder.countP Item.isOperator + 1 := by
  induction e with
  | leaf x => rfl
  | node op left right ihl ihr =>
    have hvalue : [Item.operator op].countP (!·.isOperator) = 0 := rfl
    have hoperator : [Item.operator op].countP Item.isOperator = 1 := rfl
    rw [postorder, List.countP_append, List.countP_append, List.countP_append, List.countP_append,
      ihl, ihr, hvalue, hoperator]
    omega

/-- A program has as many values more than operators as it writes down expressions. -/
theorem countP_postorders (es : List (Expression Float)) :
    (postorders es).countP (!·.isOperator) =
      (postorders es).countP Item.isOperator + es.length := by
  induction es with
  | nil => rfl
  | cons e es ih =>
    have hcons : postorders (e :: es) = e.postorder ++ postorders es := List.flatMap_cons
    rw [hcons, List.countP_append, List.countP_append, ih, countP_postorder, List.length_cons]
    omega

end Expression

namespace Postfix

open Expression

/-- A program of at least one expression has the value of the last. -/
theorem result_postorders (es : List (Expression Float)) (e : Expression Float) :
    result (postorders (es ++ [e])) = .ok e.value := by
  have hrun := run_map_value (postorders (es ++ [e])) []
  rw [assemble_postorders, List.reverse_append, List.append_nil] at hrun
  rw [result, ← List.map_nil (f := value), hrun]
  rfl

/-- A program that has a value writes down at least one expression. -/
theorem exists_postorders {items : List Item} {x : Float} (h : result items = .ok x) :
    ∃ es e, items = postorders (es ++ [e]) := by
  have hrun := run_map_value items []
  rw [List.map_nil] at hrun
  rw [result, hrun] at h
  cases hassemble : assemble items [] with
  | none =>
    rw [hassemble] at h
    cases h
  | some stack =>
    rw [hassemble] at h
    cases stack with
    | nil => cases h
    | cons e es =>
      have hitems := postorders_of_assemble hassemble
      rw [List.reverse_cons] at hitems
      exact ⟨es.reverse, e, hitems.symm⟩

/-- A program has a value exactly if it writes down one or more expressions, each in postorder, and
it is the value of the last. It does so in one way only, and has as many values more than operators
as there are expressions. Every other program lacks an operand, which is its only fault; and it does
so exactly if it is empty or begins with some items among which the values are no more than the
operators. -/
theorem result_forest (items : List Item) :
    (∀ x, result items = .ok x ↔ ∃ es e, items = postorders (es ++ [e]) ∧ x = e.value) ∧
    (∀ es es', items = postorders es → items = postorders es' → es = es') ∧
    (∀ es, items = postorders es →
      items.countP (!·.isOperator) = items.countP Item.isOperator + es.length) ∧
    ((¬ ∃ es e, items = postorders (es ++ [e])) → result items = .error .missingOperand) ∧
    (∀ fault, result items = .error fault → fault = .missingOperand) ∧
    ((∃ x, result items = .ok x) ↔
      items ≠ [] ∧ ∀ part, part <+: items → part ≠ [] →
        part.countP Item.isOperator < part.countP (!·.isOperator)) := by
  refine ⟨fun x => ⟨?_, ?_⟩, ?_, ?_, ?_, fun fault => result_eq_error, ?_⟩
  · intro h
    obtain ⟨es, e, rfl⟩ := exists_postorders h
    rw [result_postorders] at h
    exact ⟨es, e, rfl, (Except.ok.inj h).symm⟩
  · rintro ⟨es, e, rfl, rfl⟩
    exact result_postorders es e
  · rintro es es' rfl h
    exact postorders_injective h
  · rintro es rfl
    exact countP_postorders es
  · intro hnone
    cases hresult : result items with
    | ok x => exact absurd (exists_postorders hresult) hnone
    | error fault => rw [result_eq_error hresult]
  · have henough : (items ≠ [] ∧ ∀ part, part <+: items → part ≠ [] →
        part.countP Item.isOperator < part.countP (!·.isOperator)) ↔ ¬ LacksOperands items := by
      simp only [LacksOperands, not_or, not_exists, not_and, not_le, ne_eq]
    rw [henough]
    constructor
    · intro h hlacks
      obtain ⟨x, hx⟩ := h
      rw [result_eq_error_iff.mpr hlacks] at hx
      cases hx
    · exact exists_result

/-- The first of two expressions plays no part in the value. -/
example (x y z : Float) :
    result [.value x, .value y, .value z, .operator .sub] = .ok (Operator.sub.apply y z) := rfl

end Postfix

end InfixCalculator
