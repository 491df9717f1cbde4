import InfixCalculator.Proofs.Infix.Names
import InfixCalculator.Proofs.Session.History

/-!
# Independent assignments

Assignments of which none sets what another reads or sets may be made in any order. In every order
each line is answered as if it came first, also a line that fails, and the session at the end is the
same.

* `Assignment.Independent`: two lines that do not meet.
* `Session.evaluate_next_of_not_mem`: a line is noticed only by expressions that contain its name.
* `Session.next_comm`: two independent lines, one after the other.
* `Session.answers_of_independent`: what independent lines are answered, in one order.
* `Session.independent_assignments_perm`: any two orders.
-/

namespace InfixCalculator

/-- A line in the form of an assignment, with its parts. -/
structure Assignment where
  line : String
  name : String
  expression : String
  form : IsAssignment line name expression

namespace Assignment

variable {a b : Assignment}

/-- The names of the two lines are different, and neither stands in the expression of the other
line. -/
structure Independent (a b : Assignment) : Prop where
  name_ne : a.name ≠ b.name
  left : ⟨.identifier, b.name⟩ ∉ Token.tokenize a.expression
  right : ⟨.identifier, a.name⟩ ∉ Token.tokenize b.expression

theorem Independent.symm (h : a.Independent b) : b.Independent a :=
  ⟨h.name_ne.symm, h.right, h.left⟩

instance : Std.Symm Independent := ⟨fun _ _ => Independent.symm⟩

theorem ofLine_line (a : Assignment) : Command.ofLine a.line = .assign a.name a.expression :=
  Command.ofLine_eq_assign_iff.mpr a.form

end Assignment

open Assignment (Independent)

namespace Session

variable {a b : Assignment} {s s' : Session} {expression : String}

/-! ## One line -/

/-- The table after an assignment: its name is bound if its expression has a value. -/
theorem table_next_line (s : Session) (a : Assignment) :
    (s.next a.line).table =
      match (s.evaluate a.expression).result with
      | .ok x => s.table.insert a.name x
      | .error _ => s.table := by
  have hanswer : (s.answer a.line).result =
      (s.evaluate a.expression).result.map (Answer.bound a.name) := by
    rw [result_answer, a.ofLine_line]
  rw [table_next, hanswer]
  cases (s.evaluate a.expression).result <;> rfl

/-- An assignment is answered alike where its expression gives the same. -/
theorem answer_line_congr (h : s.evaluate a.expression = s'.evaluate a.expression) :
    s.answer a.line = s'.answer a.line := by
  simp only [answer, a.ofLine_line, h]

/-- Expressions without its name do not notice that a line was executed. -/
theorem evaluate_next_of_not_mem (h : ⟨.identifier, a.name⟩ ∉ Token.tokenize expression)
    (s : Session) : (s.next a.line).evaluate expression = s.evaluate expression := by
  have htable := table_next_line s a
  cases hvalue : (s.evaluate a.expression).result with
  | error fault =>
    rw [hvalue] at htable
    exact congrArg (evaluate · expression) (congrArg Session.mk htable)
  | ok x =>
    rw [hvalue] at htable
    exact (congrArg (fun table => evaluate ⟨table⟩ expression) htable).trans (evaluate_insert h s x)

/-! ## Two lines -/

theorem answer_next (h : a.Independent b) (s : Session) :
    (s.next a.line).answer b.line = s.answer b.line :=
  answer_line_congr (evaluate_next_of_not_mem h.right s)

theorem insert_comm {name name' : String} (h : name ≠ name') (table : Variables) (x y : Float) :
    (table.insert name x).insert name' y = (table.insert name' y).insert name x := by
  refine Std.ExtTreeMap.ext_getElem? fun other => ?_
  simp only [Std.ExtTreeMap.getElem?_insert, Std.compare_eq_iff_eq]
  by_cases hname : name = other
  · have hother : name' ≠ other := fun heq => h (hname.trans heq.symm)
    simp only [hother, if_false]
  · simp only [hname, if_false]

/-- Independent assignments commute. -/
theorem next_comm (h : a.Independent b) (s : Session) :
    (s.next a.line).next b.line = (s.next b.line).next a.line := by
  have htable : ((s.next a.line).next b.line).table = ((s.next b.line).next a.line).table := by
    rw [table_next_line (s.next a.line) b, table_next_line (s.next b.line) a,
      evaluate_next_of_not_mem h.right, evaluate_next_of_not_mem h.left, table_next_line s a,
      table_next_line s b]
    cases (s.evaluate a.expression).result with
    | error fault => rfl
    | ok x =>
      cases (s.evaluate b.expression).result with
      | error fault => rfl
      | ok y => exact insert_comm h.name_ne s.table x y
  exact congrArg Session.mk htable

/-! ## Any number of lines -/

/-- What some lines are answered, each by the session to which the lines before it led. -/
def answers (s : Session) : List String → List (Traced Answer)
  | [] => []
  | line :: lines => (s.step line).1 :: (s.next line).answers lines

/-- Independent lines are all answered as if each of them came first. -/
theorem answers_of_independent {as : List Assignment} (h : as.Pairwise Independent) (s : Session) :
    s.answers (as.map Assignment.line) = as.map fun a => s.answer a.line := by
  induction as generalizing s with
  | nil => rfl
  | cons a as ih =>
    obtain ⟨hhead, htail⟩ := List.pairwise_cons.mp h
    rw [List.map_cons, List.map_cons, answers, ih htail]
    refine congrArg (s.answer a.line :: ·) ?_
    exact List.map_congr_left fun b hb => answer_next (hhead b hb) s

/-- Independent assignments may be made in any order. The table at the end is the same, and every
line has in both orders the answer, or the fault, and the records that it would have if it came
first. -/
theorem independent_assignments_perm {as bs : List Assignment} (h : as.Pairwise Independent)
    (hperm : as.Perm bs) (s : Session) :
    ((as.map Assignment.line).foldl next s).table = ((bs.map Assignment.line).foldl next s).table ∧
      s.answers (as.map Assignment.line) = (as.map fun a => (s.step a.line).1) ∧
      s.answers (bs.map Assignment.line) = bs.map fun a => (s.step a.line).1 := by
  have hpairwise : bs.Pairwise Independent := (hperm.pairwise_iff Independent.symm).mp h
  refine ⟨?_, answers_of_independent h s, answers_of_independent hpairwise s⟩
  rw [List.foldl_map, List.foldl_map]
  refine congrArg Session.table (hperm.foldl_eq' ?_ s)
  intro a ha b hb s
  by_cases heq : a = b
  · rw [heq]
  · exact next_comm (h.forall ha hb heq) s

/-- One line reads its own name, one has a name that is not bound, and one lacks an operand. -/
theorem independent_assignments_perm_with_faults :
    let s : Session := ⟨(∅ : Variables).insert "x" 1⟩
    (["x = x + 1", "y = z / 2", "two words = 4 -"].foldl next s).table =
        (["two words = 4 -", "x = x + 1", "y = z / 2"].foldl next s).table ∧
      s.answers ["x = x + 1", "y = z / 2", "two words = 4 -"] =
        [(s.step "x = x + 1").1, (s.step "y = z / 2").1, (s.step "two words = 4 -").1] ∧
      s.answers ["two words = 4 -", "x = x + 1", "y = z / 2"] =
        [(s.step "two words = 4 -").1, (s.step "x = x + 1").1, (s.step "y = z / 2").1] := by
  intro s
  let a : Assignment := ⟨"x = x + 1", "x", "x + 1", Command.ofLine_eq_assign_iff.mp (by decide +kernel)⟩
  let b : Assignment := ⟨"y = z / 2", "y", "z / 2", Command.ofLine_eq_assign_iff.mp (by decide +kernel)⟩
  let c : Assignment :=
    ⟨"two words = 4 -", "two words", "4 -", Command.ofLine_eq_assign_iff.mp (by decide +kernel)⟩
  have hab : a.Independent b := ⟨by decide, by decide +kernel, by decide +kernel⟩
  have hac : a.Independent c := ⟨by decide, by decide +kernel, by decide +kernel⟩
  have hbc : b.Independent c := ⟨by decide, by decide +kernel, by decide +kernel⟩
  have hpairwise : [a, b, c].Pairwise Independent := by simp [hab, hac, hbc]
  have hperm : ([a, b] ++ [c]).Perm ([c] ++ [a, b]) := List.perm_append_comm
  exact independent_assignments_perm hpairwise hperm s

end Session

end InfixCalculator
