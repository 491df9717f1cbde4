import InfixCalculator.Proofs.Infix.Names
import InfixCalculator.Proofs.Session.Dialogue

/-!
# What is read back

A value stays bound to its name until a later assignment binds the name again, whatever else is done
with the session. If the name has the shape of an identifier, it is read back by the name, also when
it is a value that no numeral in an expression denotes. If it has not, no expression ever reads it.

* `Session.getElem?_foldl_bind`: the value that was bound last.
* `Command.ofLine_of_isKey`: what a line asks for that is a name and nothing else.
* `Session.recall_assigned`: reading after any calls what was assigned in them.
-/

namespace InfixCalculator

open Command (IsLeave)

/-- A name that stands alone on a line is an expression, unless it is the word to leave. -/
theorem Command.ofLine_of_isKey {name : String} (h : IsKey name) :
    ofLine name = if IsLeave name then .leave else .evaluate name := by
  by_cases hleave : IsLeave name
  · rw [if_pos hleave, ofLine_eq_leave_iff.mpr hleave]
  · have htrim : Text.trimChars name.toList = name.toList := Text.trimChars_eq_self h.head h.last
    have hne : name.toList ≠ [] := by simpa using h.ne_empty
    have hword : (Text.trimChars name.toList).map Char.toLower ≠ leaveWord := by
      rwa [IsLeave, Text.toList_trim] at hleave
    rw [if_neg hleave]
    simp only [ofLine, if_neg hword]
    rw [htrim, if_neg hne, ofTrimmed_of_not_mem h.not_mem, String.ofList_toList]

namespace Session

/-- Later bindings of other names do not touch a value. -/
theorem getElem?_foldl_bind {name : String} {x : Float} {before after : List (String × Float)}
    (hlast : ∀ binding ∈ after, binding.1 ≠ name) (table : Variables) :
    ((before ++ (name, x) :: after).foldl bind table)[name]? = some x := by
  rw [List.foldl_append, List.foldl_cons]
  have hbound : (bind (before.foldl bind table) (name, x))[name]? = some x :=
    Std.ExtTreeMap.getElem?_insert_self
  revert hbound
  generalize bind (before.foldl bind table) (name, x) = table'
  induction after generalizing table' with
  | nil => exact id
  | cons binding after ih =>
    intro hbound
    obtain ⟨hne, hlast⟩ := List.forall_mem_cons.mp hlast
    refine ih hlast (bind table' binding) ?_
    simp only [bind, Std.ExtTreeMap.getElem?_insert, Std.compare_eq_iff_eq, hne, if_false, hbound]

/-- Read your writes. Let `x` be the last value that was assigned to a name in some calls. If the
name has the shape of an identifier, it has the value `x` after the calls, both as an expression and
as a line, unless the line asks to leave. If it has another shape, its entry is dead: every
expression gives the same, with the same records, as if it were not in the table. -/
theorem recall_assigned (cs : List Call) {before after : List (String × Float)} {name : String}
    {x : Float} (hassigned : fresh.assignments (fresh.history cs) = before ++ (name, x) :: after)
    (hlast : ∀ binding ∈ after, binding.1 ≠ name) :
    (Token.isName name.toList →
      ((fresh.calls cs).evaluate name).result = .ok x ∧
      ((fresh.calls cs).step name).1.result =
        .ok (if IsLeave name then .farewell else .value x)) ∧
    (¬ Token.isName name.toList →
      (fresh.calls cs).table[name]? = some x ∧
      ∀ text, (fresh.calls cs).evaluate text =
        (⟨(fresh.calls cs).table.erase name⟩ : Session).evaluate text) := by
  have hbound : (fresh.calls cs).table[name]? = some x := by
    rw [calls_eq_foldl, table_foldl_next, hassigned]
    exact getElem?_foldl_bind hlast fresh.table
  constructor
  · intro hname
    have hvalue := evaluate_name hname hbound
    have hkey : IsKey name := by
      have hkeyed := keyed_fresh.foldl_next (fresh.history cs)
      rw [← calls_eq_foldl] at hkeyed
      exact hkeyed name (Std.ExtTreeMap.mem_iff_isSome_getElem?.mpr (by rw [hbound]; rfl))
    refine ⟨hvalue, ?_⟩
    show ((fresh.calls cs).answer name).result = _
    rw [result_answer, Command.ofLine_of_isKey hkey]
    by_cases hleave : IsLeave name
    · rw [if_pos hleave, if_pos hleave]
    · rw [if_neg hleave, if_neg hleave]
      exact congrArg (Except.map Answer.value) hvalue
  · intro hname
    refine ⟨hbound, fun text => ?_⟩
    exact (evaluate_erase (fun hmem => hname (Token.isName_of_mem_tokenize hmem)) _).symm

/-- The conversation breaks off in its second reply, after a negative value was assigned. -/
theorem recall_assigned_broken_off :
    let cs : List Call := [.execute "two words = 7", .execute "x = 9",
      .converse (some 20) (Text.encode "x = 1 - 4\nexit\nx = 5\n"), .execute "y = x + nowhere"]
    ((fresh.calls cs).evaluate "x").result = .ok (-3) ∧
      ((fresh.calls cs).step "x").1.result = .ok (.value (-3)) ∧
      ∀ text, (fresh.calls cs).evaluate text =
        (⟨(fresh.calls cs).table.erase "two words"⟩ : Session).evaluate text := by
  intro cs
  have hx : fresh.assignments (fresh.history cs) =
      [("two words", 7), ("x", 9)] ++ ("x", -3) :: [] := by decide +kernel
  have hwords : fresh.assignments (fresh.history cs) =
      [] ++ ("two words", 7) :: [("x", 9), ("x", -3)] := hx
  obtain ⟨hvalue, hanswer⟩ := (recall_assigned cs hx nofun).1 (by decide)
  refine ⟨hvalue, ?_, ?_⟩
  · rwa [if_neg (by decide)] at hanswer
  · exact ((recall_assigned cs hwords (by simp)).2 (by decide)).2

end Session

end InfixCalculator
