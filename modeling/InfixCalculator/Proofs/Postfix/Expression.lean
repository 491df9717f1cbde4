import InfixCalculator.Postfix.Run

/-!
# Expressions

An expression is a tree of binary operators. Its program in postorder computes its value, on any
stack and before any rest of a program.
-/

namespace InfixCalculator

/-- A tree of binary operators over leaves of any kind. -/
inductive Expression (α : Type) where
  | leaf (a : α)
  | node (op : Operator) (left right : Expression α)

namespace Expression

variable {α β : Type}

def map (f : α → β) : Expression α → Expression β
  | leaf a => leaf (f a)
  | node op left right => node op (left.map f) (right.map f)

/-- The leaves from left to right. -/
def leaves : Expression α → List α
  | leaf a => [a]
  | node _ left right => left.leaves ++ right.leaves

/-- The program that writes each operator after its two operands. -/
def postorder : Expression Float → List Postfix.Item
  | leaf x => [.value x]
  | node op left right => left.postorder ++ right.postorder ++ [.operator op]

/-- The value of an expression, each operator applied to the values of its operands. -/
def value : Expression Float → Float
  | leaf x => x
  | node op left right => op.apply left.value right.value

/-- The program of an expression pushes its value and touches nothing else. -/
theorem run_postorder (e : Expression Float) (items : List Postfix.Item) (stack : List Float) :
    Postfix.run (e.postorder ++ items) stack = Postfix.run items (e.value :: stack) := by
  induction e generalizing items stack with
  | leaf x => rfl
  | node op left right ihl ihr =>
    simp only [postorder, List.append_assoc]
    rw [ihl, ihr]
    rfl

theorem result_postorder (e : Expression Float) : Postfix.result e.postorder = .ok e.value := by
  have h := e.run_postorder [] []
  rw [List.append_nil] at h
  simp only [Postfix.result, h, Postfix.run_nil]

/-- A function that has a value on every leaf has a tree of values. -/
theorem exists_map_eq_map_some {f : α → Option β} (e : Expression α)
    (h : ∀ a ∈ e.leaves, ∃ b, f a = some b) : ∃ e' : Expression β, e.map f = e'.map some := by
  induction e with
  | leaf a =>
    obtain ⟨b, hb⟩ := h a List.mem_cons_self
    exact ⟨leaf b, congrArg leaf hb⟩
  | node op left right ihl ihr =>
    obtain ⟨left', hl⟩ := ihl fun a ha => h a (List.mem_append_left _ ha)
    obtain ⟨right', hr⟩ := ihr fun a ha => h a (List.mem_append_right _ ha)
    exact ⟨node op left' right', by rw [map, map, hl, hr]⟩

end Expression

end InfixCalculator
