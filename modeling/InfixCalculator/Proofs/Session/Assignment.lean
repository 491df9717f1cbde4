import InfixCalculator.Proofs.Text.Trim
import InfixCalculator.Session.Basic

/-!
# Assignments

Which lines are assignments, what a successful one binds, and that nothing else changes a table.

* `Command.ofLine_eq_assign_iff`: the form of an assignment.
* `Session.answer_eq_bound_iff`: when an assignment succeeds.
* `Session.table_next`: the table after a line.
-/

namespace InfixCalculator

/-- A line in the form of an assignment: trimmed, it has exactly one equals sign, and the trimmed
parts before and after it are the name and the expression, neither of them empty. -/
def IsAssignment (line name expression : String) : Prop :=
  ∃ left right, (Text.trim line).toList = left ++ '=' :: right ∧ '=' ∉ left ∧ '=' ∉ right ∧
    name = String.ofList (Text.trimChars left) ∧
    expression = String.ofList (Text.trimChars right) ∧ name ≠ "" ∧ expression ≠ ""

/-- What every name in a table is like: it is not empty, has no equals sign, and neither starts nor
ends with a blank. -/
structure IsKey (name : String) : Prop where
  ne_empty : name ≠ ""
  not_mem : '=' ∉ name.toList
  head : ∀ c ∈ name.toList.head?, Text.isBlank c = false
  last : ∀ c ∈ name.toList.getLast?, Text.isBlank c = false

theorem IsAssignment.isKey {line name expression : String} (h : IsAssignment line name expression) :
    IsKey name := by
  obtain ⟨left, right, -, hleft, -, rfl, -, hname, -⟩ := h
  refine ⟨hname, ?_, ?_, ?_⟩
  · rw [String.toList_ofList]
    intro hmem
    exact hleft (Text.mem_of_mem_trimChars hmem)
  · rw [String.toList_ofList]
    exact Text.misses_trimChars left
  · rw [String.toList_ofList]
    intro c hc
    exact Text.isBlank_getLast?_trimChars hc

/-! ## Commands -/

namespace Command

theorem ofTrimmed_of_not_mem {cs : List Char} (h : '=' ∉ cs) :
    ofTrimmed cs = .evaluate (String.ofList cs) := by
  have hdrop : cs.dropWhile (· ≠ '=') = [] := by
    apply List.dropWhile_eq_nil_iff.mpr
    intro c hc
    apply decide_eq_true
    intro heq
    subst heq
    exact h hc
  rw [ofTrimmed, hdrop]

theorem ofTrimmed_of_split {left right : List Char} (h : '=' ∉ left) :
    ofTrimmed (left ++ '=' :: right) =
      if '=' ∈ right ∨ Text.trimChars left = [] ∨ Text.trimChars right = [] then .malformed
      else .assign (String.ofList (Text.trimChars left)) (String.ofList (Text.trimChars right)) := by
  have hleft : ∀ c ∈ left, decide (c ≠ '=') = true := by
    intro c hc
    apply decide_eq_true
    intro heq
    subst heq
    exact h hc
  have hright : Misses (fun c => decide (c ≠ '=')) ('=' :: right) := by
    intro c hc
    cases hc
    rfl
  rw [ofTrimmed, takeWhile_eq_of_misses hleft hright, dropWhile_eq_of_misses hleft hright]

/-- The word to leave is no assignment, and neither is a blank line. -/
theorem ofLine_of_mem {line : String} (h : '=' ∈ Text.trimChars line.toList) :
    ofLine line = ofTrimmed (Text.trimChars line.toList) := by
  have hleave : (Text.trimChars line.toList).map Char.toLower ≠ leaveWord := by
    intro heq
    have hmem := List.mem_map_of_mem (f := Char.toLower) h
    rw [heq] at hmem
    revert hmem
    decide
  have hne : Text.trimChars line.toList ≠ [] := List.ne_nil_of_mem h
  simp only [ofLine, if_neg hleave, if_neg hne]

theorem ofLine_eq_assign_iff {line name expression : String} :
    ofLine line = .assign name expression ↔ IsAssignment line name expression := by
  rw [IsAssignment, Text.toList_trim]
  constructor
  · intro h
    by_cases hmem : '=' ∈ Text.trimChars line.toList
    · rw [ofLine_of_mem hmem] at h
      obtain ⟨left, right, hsplit, hleft⟩ := List.eq_append_cons_of_mem hmem
      rw [hsplit, ofTrimmed_of_split hleft] at h
      split at h
      · cases h
      · next hparts =>
        obtain ⟨hright, hname, hexpression⟩ : '=' ∉ right ∧ Text.trimChars left ≠ [] ∧
            Text.trimChars right ≠ [] := by simpa using hparts
        cases h
        exact ⟨left, right, hsplit, hleft, hright, rfl, rfl, by simpa using hname,
          by simpa using hexpression⟩
    · simp only [ofLine, ofTrimmed_of_not_mem hmem] at h
      split at h
      · cases h
      · split at h <;> cases h
  · intro hline
    obtain ⟨left, right, hsplit, hleft, hright, rfl, rfl, hname, hexpression⟩ := hline
    have hparts : ¬ ('=' ∈ right ∨ Text.trimChars left = [] ∨ Text.trimChars right = []) := by
      simp_all
    rw [ofLine_of_mem (by simp [hsplit]), hsplit, ofTrimmed_of_split hleft, if_neg hparts]

end Command

/-! ## Sessions -/

/-- The binding that an answer makes, if it is that of a successful assignment. -/
def Answer.binding? : Except Fault Answer → Option (String × Float)
  | .ok (.bound name x) => some (name, x)
  | _ => none

theorem Answer.binding?_eq_some_iff {answer : Except Fault Answer} {name : String} {x : Float} :
    binding? answer = some (name, x) ↔ answer = .ok (.bound name x) := by
  fun_cases binding? answer <;> simp_all

namespace Session

variable {s : Session} {line name : String} {x : Float}

theorem result_answer (s : Session) (line : String) :
    (s.answer line).result =
      match Command.ofLine line with
      | .leave => .ok .farewell
      | .nothing => .ok .silence
      | .assign name expression => (s.evaluate expression).result.map (.bound name)
      | .malformed => .ok .malformed
      | .evaluate expression => (s.evaluate expression).result.map .value := by
  rw [answer]
  cases Command.ofLine line with
  | leave => rfl
  | nothing => rfl
  | malformed => rfl
  | assign name expression =>
    refine (Traced.result_bind _ _).trans ?_
    show _ = (s.evaluate expression).result.map (Answer.bound name)
    cases (s.evaluate expression).result <;> rfl
  | evaluate expression =>
    refine (Traced.result_bind _ _).trans ?_
    show _ = (s.evaluate expression).result.map Answer.value
    cases (s.evaluate expression).result <;> rfl

theorem answer_eq_bound_iff :
    (s.answer line).result = .ok (.bound name x) ↔
      ∃ expression, IsAssignment line name expression ∧
        (s.evaluate expression).result = .ok x := by
  rw [result_answer]
  constructor
  · intro h
    cases hcommand : Command.ofLine line with
    | leave => simp [hcommand] at h
    | nothing => simp [hcommand] at h
    | malformed => simp [hcommand] at h
    | assign name' expression =>
      have hline := Command.ofLine_eq_assign_iff.mp hcommand
      cases hvalue : (s.evaluate expression).result with
      | error fault => simp [hcommand, hvalue, Except.map] at h
      | ok x' =>
        obtain ⟨rfl, rfl⟩ : name' = name ∧ x' = x := by
          simpa [hcommand, hvalue, Except.map] using h
        exact ⟨expression, hline, hvalue⟩
    | evaluate expression =>
      cases hvalue : (s.evaluate expression).result with
      | error fault => simp [hcommand, hvalue, Except.map] at h
      | ok x' => simp [hcommand, hvalue, Except.map] at h
  · intro hbound
    obtain ⟨expression, hline, hvalue⟩ := hbound
    rw [Command.ofLine_eq_assign_iff.mpr hline]
    simp [hvalue, Except.map]

/-- The session after a line. -/
def next (s : Session) (line : String) : Session := (s.step line).2

theorem table_next (s : Session) (line : String) :
    (s.next line).table =
      match Answer.binding? (s.answer line).result with
      | some (name, x) => s.table.insert name x
      | none => s.table := by
  simp only [next, step]
  rcases (s.answer line).result with fault | _ | _ | _ | _ | _ <;> rfl

end Session

end InfixCalculator
