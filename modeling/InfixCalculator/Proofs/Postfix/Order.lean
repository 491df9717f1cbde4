import InfixCalculator.Proofs.Postfix.Tracks

/-!
# The order of a program

Where the values and operators of any list of tokens stand in its program.

* `exists_tracks`: a yard is tracked after any number of symbols.
* `exists_order_ofSymbols`, `ofTokens_order`: the program of a list, by position.
-/

namespace InfixCalculator.Postfix

variable {symbols : List Symbol} {i k : Nat}

theorem exists_tracks (hk : k ≤ symbols.length) :
    ∃ sent waiting, Tracks symbols k ((symbols.take k).foldl Yard.take Yard.empty) sent waiting := by
  induction k with
  | zero => exact ⟨[], [], tracks_empty⟩
  | succ k ih =>
    obtain ⟨sent, waiting, h⟩ := ih (Nat.le_of_succ_le hk)
    rw [List.take_succ_eq_append_getElem hk, List.foldl_append]
    exact h.take (List.getElem?_eq_getElem hk)

/-- What waits is an operator or contributes nothing. -/
theorem Tracks.exists_operator {y : Yard} {sent waiting : List Nat}
    (h : Tracks symbols k y sent waiting) (hi : i ∈ waiting) (hitem : (itemAt symbols i).isSome) :
    ∃ op, symbols[i]? = some (.operator op) := by
  obtain ⟨entry, -, hpending⟩ := exists_entry h.stack hi
  cases entry with
  | operator op => exact ⟨op, pendingAt_eq_operator_iff.mp hpending⟩
  | paren =>
    rw [itemAt_of_opensAt (pendingAt_eq_paren_iff.mp hpending)] at hitem
    cases hitem

/-- At the end the positions in the output and those that wait make up the whole program. -/
theorem Tracks.exists_order {y : Yard} {sent waiting : List Nat}
    (h : Tracks symbols symbols.length y sent waiting) :
    ∃ order : List Nat,
      order.Perm ((List.range symbols.length).filter fun i => (itemAt symbols i).isSome) ∧
      order.Pairwise (LeavesBefore symbols) ∧ y.program = order.filterMap (itemAt symbols) := by
  have hmoment : ∀ i ∈ waiting.filter (fun i => (itemAt symbols i).isSome),
      moment symbols i = symbols.length := by
    intro i hi
    obtain ⟨hmem, hitem⟩ := List.mem_filter.mp hi
    obtain ⟨op, hop⟩ := h.exists_operator hmem hitem
    rw [moment_of_operator hop]
    exact Nat.le_antisymm closer_le (h.le_closer hmem hop)
  have hordered : (sent ++ waiting.filter (fun i => (itemAt symbols i).isSome)).Pairwise
      (LeavesBefore symbols) := by
    apply List.pairwise_append.mpr
    refine ⟨h.ordered, ?_, ?_⟩
    · apply (h.nested.pairwise.filter _).imp_of_mem
      intro i j hi hj hgt
      exact .inr ⟨(hmoment i hi).trans (hmoment j hj).symm, hgt⟩
    · intro i hi j hj
      have hlt := ((h.mem_sent i).mp hi).2.2
      exact .inl (by rwa [hmoment j hj])
  refine ⟨_, ?_, hordered, ?_⟩
  · have hnodup := hordered.imp LeavesBefore.ne
    apply (List.perm_ext_iff_of_nodup hnodup (List.nodup_range.filter _)).mpr
    intro i
    rw [List.mem_append, List.mem_filter, List.mem_filter, List.mem_range, h.mem_sent]
    constructor
    · intro hi
      rcases hi with ⟨hlt, hitem, -⟩ | ⟨hmem, hitem⟩
      · exact ⟨hlt, hitem⟩
      · exact ⟨h.lt_of_mem i hmem, hitem⟩
    · intro hi
      obtain ⟨hlt, hitem⟩ := hi
      by_cases hsent : moment symbols i < symbols.length
      · exact .inl ⟨hlt, hitem, hsent⟩
      · by_cases hop : ∃ op, symbols[i]? = some (.operator op)
        · obtain ⟨op, hop⟩ := hop
          rw [moment_of_operator hop] at hsent
          exact .inr ⟨(h.mem_waiting i op hop).mpr ⟨hlt, by omega⟩, hitem⟩
        · rw [moment_of_not_operator (not_exists.mp hop)] at hsent
          omega
  · rw [Yard.program, h.output, items_eq_filterMap_itemAt h.stack, List.filterMap_append,
      List.filterMap_filter]
    congr 2
    funext i
    cases itemAt symbols i <;> rfl

/-- The program of a list of symbols holds the item of each position that has one, in the order of
the moments at which they leave. -/
theorem exists_order_ofSymbols (symbols : List Symbol) :
    ∃ order : List Nat,
      order.Perm ((List.range symbols.length).filter fun i => (itemAt symbols i).isSome) ∧
      order.Pairwise (LeavesBefore symbols) ∧
      ofSymbols symbols = order.filterMap (itemAt symbols) := by
  obtain ⟨sent, waiting, h⟩ := exists_tracks (Nat.le_refl symbols.length)
  rw [List.take_length] at h
  exact h.exists_order

/-- The program of any tokens that all mean something: the values and operators that they mean, each
once, a value where it stands and an operator at its closer. -/
theorem ofTokens_order {table : Variables} {ts : List Token}
    (h : ∀ t ∈ ts, ∃ symbol, Symbol.ofToken table t = .ok symbol) :
    ∃ symbols, ts.map (Symbol.ofToken table) = symbols.map .ok ∧
      ∃ order : List Nat,
        order.Perm ((List.range ts.length).filter fun i => (itemAt symbols i).isSome) ∧
        order.Pairwise (LeavesBefore symbols) ∧
        (ofTokens table ts).result = .ok (order.filterMap (itemAt symbols)) := by
  obtain ⟨symbols, hmeanings⟩ := exists_meanings h
  have hmap := meanings_eq_ok_iff.mp hmeanings
  have hlength : ts.length = symbols.length := by simpa using congrArg List.length hmap
  obtain ⟨order, hperm, hordered, hprogram⟩ := exists_order_ofSymbols symbols
  refine ⟨symbols, hmap, order, hlength ▸ hperm, hordered, ?_⟩
  rw [result_ofTokens, hmeanings, ← hprogram]
  rfl

theorem ofTokens_order_unmatched :
    ∃ symbols, (Token.tokenize "* a ) ( - 2").map (Symbol.ofToken ((∅ : Variables).insert "a" 4)) =
        symbols.map .ok ∧
      ∃ order : List Nat,
        order.Perm ((List.range (Token.tokenize "* a ) ( - 2").length).filter
          fun i => (itemAt symbols i).isSome) ∧
        order.Pairwise (LeavesBefore symbols) ∧
        (ofTokens ((∅ : Variables).insert "a" 4) (Token.tokenize "* a ) ( - 2")).result =
          .ok (order.filterMap (itemAt symbols)) := by
  apply ofTokens_order
  intro t ht
  have hall : ∀ t ∈ Token.tokenize "* a ) ( - 2",
      (Symbol.ofToken ((∅ : Variables).insert "a" 4) t).toOption.isSome := by decide +kernel
  have hsome := hall t ht
  cases hmeaning : Symbol.ofToken ((∅ : Variables).insert "a" 4) t with
  | ok symbol => exact ⟨symbol, rfl⟩
  | error fault =>
    rw [hmeaning] at hsome
    cases hsome

/-- `* + ) ^ ( -` leaves as `* + - ^`. -/
example :
    (List.range 6).map (moment [.operator .mul, .operator .add, .closing, .operator .pow, .opening,
      .operator .sub]) = [1, 2, 2, 6, 4, 6] := by decide

end InfixCalculator.Postfix
