import InfixCalculator.Proofs.Postfix.Closer

/-!
# The positions in a yard

What the output and the stack of a yard hold, as positions in the list of symbols that it took.

* `Nested`: on the stack, the parentheses below a position are those open there.
* `Tracks`: which positions were sent, in which order, and which still wait.
* `Tracks.take`: one symbol more keeps a yard tracked.
-/

namespace InfixCalculator.Postfix

variable {symbols : List Symbol} {op : Operator} {i j k : Nat}

/-! ## The positions that wait -/

/-- What waits on the stack when the symbol at a position was taken, if it was put there. -/
def pendingAt (symbols : List Symbol) (i : Nat) : Option Pending :=
  match symbols[i]? with
  | some (.operator op) => some (.operator op)
  | some .opening => some .paren
  | _ => none

/-- Whether a parenthesis opens at a position. -/
def opensAt (symbols : List Symbol) (i : Nat) : Bool := symbols[i]? = some .opening

theorem filter_opensAt_eq_nil {positions : List Nat}
    (h : ∀ j ∈ positions, opensAt symbols j = false) : positions.filter (opensAt symbols) = [] :=
  List.filter_eq_nil_iff.mpr fun j hj => by simp [h j hj]

/-- Positions on a stack, the latest first: those that open parentheses below a position are the
parentheses that are open there. -/
inductive Nested (symbols : List Symbol) : List Nat → Prop where
  | nil : Nested symbols []
  | cons {i : Nat} {below : List Nat} (hlt : ∀ j ∈ below, j < i)
      (hopen : openBefore symbols i = below.filter (opensAt symbols)) (h : Nested symbols below) :
      Nested symbols (i :: below)

namespace Nested

variable {above below : List Nat}

theorem pairwise (h : Nested symbols below) : below.Pairwise (· > ·) := by
  induction h with
  | nil => exact .nil
  | cons hlt _ _ ih => exact .cons hlt ih

theorem of_append (h : Nested symbols (above ++ below)) : Nested symbols below := by
  induction above with
  | nil => exact h
  | cons i above ih =>
    cases h with
    | cons _ _ h => exact ih h

theorem tail (h : Nested symbols below) : Nested symbols below.tail := by
  cases h with
  | nil => exact .nil
  | cons _ _ h => exact h

/-- Above the parentheses there is one group. -/
theorem openBefore_of_mem (h : Nested symbols (above ++ below))
    (habove : ∀ j ∈ above, opensAt symbols j = false) (hi : i ∈ above) :
    openBefore symbols i = below.filter (opensAt symbols) := by
  induction above with
  | nil => cases hi
  | cons j above ih =>
    have hcons : Nested symbols (j :: (above ++ below)) := h
    cases hcons with
    | cons _ hopen h =>
      have hrest := fun j' hj' => habove j' (List.mem_cons_of_mem _ hj')
      rcases List.mem_cons.mp hi with rfl | hmem
      · rw [hopen, List.filter_append, filter_opensAt_eq_nil hrest, List.nil_append]
      · exact ih h hrest hmem

/-- Below a parenthesis nothing is in its group. -/
theorem group_ne (h : Nested symbols (j :: below)) (hi : i ∈ below) : group symbols i ≠ some j := by
  intro hgroup
  cases h with
  | cons hlt _ _ =>
    have := hlt i hi
    have := lt_of_group_eq_some hgroup
    omega

end Nested

/-- What a yard holds before the symbol at position `k`: in its output, the positions that were sent
there, in their order; on its stack, those that wait. -/
structure Tracks (symbols : List Symbol) (k : Nat) (y : Yard) (sent waiting : List Nat) : Prop where
  output : y.output.toList = sent.filterMap (itemAt symbols)
  stack : waiting.map (pendingAt symbols) = y.stack.map some
  nested : Nested symbols waiting
  opened : openBefore symbols k = waiting.filter (opensAt symbols)
  ordered : sent.Pairwise (LeavesBefore symbols)
  mem_sent : ∀ i, i ∈ sent ↔ i < k ∧ (itemAt symbols i).isSome ∧ moment symbols i < k
  lt_of_mem : ∀ i ∈ waiting, i < k
  mem_waiting : ∀ i op, symbols[i]? = some (.operator op) →
    (i ∈ waiting ↔ i < k ∧ k ≤ closer symbols op i)

theorem tracks_empty : Tracks symbols 0 Yard.empty [] [] where
  output := rfl
  stack := rfl
  nested := .nil
  opened := rfl
  ordered := .nil
  mem_sent := by simp
  lt_of_mem := by simp
  mem_waiting := by simp

theorem pendingAt_eq_operator_iff :
    pendingAt symbols i = some (.operator op) ↔ symbols[i]? = some (.operator op) := by
  rw [pendingAt]
  split <;> simp_all

theorem pendingAt_eq_paren_iff : pendingAt symbols i = some .paren ↔ opensAt symbols i = true := by
  rw [pendingAt, opensAt]
  split <;> simp_all

theorem ne_of_operator {symbol : Symbol} (hk : symbols[k]? = some symbol)
    (hsymbol : ∀ op, symbol ≠ .operator op) (hop : symbols[i]? = some (.operator op)) : i ≠ k := by
  intro heq
  subst heq
  rw [hk] at hop
  exact hsymbol op (Option.some.inj hop)

theorem itemAt_eq {symbol : Symbol} (h : symbols[i]? = some symbol) :
    itemAt symbols i = symbol.item? := by
  rw [itemAt, h]
  rfl

theorem itemAt_of_operator (h : symbols[i]? = some (.operator op)) :
    itemAt symbols i = some (.operator op) := itemAt_eq h

theorem itemAt_of_opensAt (h : opensAt symbols i = true) : itemAt symbols i = none := by
  have hopening : symbols[i]? = some .opening := by simpa [opensAt] using h
  exact itemAt_eq hopening

theorem items_eq_filterMap_itemAt {positions : List Nat} {stack : List Pending}
    (h : positions.map (pendingAt symbols) = stack.map some) :
    Pending.items stack = positions.filterMap (itemAt symbols) := by
  induction positions generalizing stack with
  | nil =>
    cases stack with
    | nil => rfl
    | cons => cases h
  | cons i positions ih =>
    cases stack with
    | nil => cases h
    | cons entry stack =>
      obtain ⟨hentry, hstack⟩ := List.cons.inj h
      cases entry with
      | operator op =>
        rw [pendingAt_eq_operator_iff] at hentry
        rw [List.filterMap_cons_some (itemAt_of_operator hentry), ← ih hstack]
        rfl
      | paren =>
        have hnone := itemAt_of_opensAt (pendingAt_eq_paren_iff.mp hentry)
        rw [List.filterMap_cons_none hnone, ← ih hstack]
        rfl

/-! ## What a symbol sends -/

/-- The positions before `k` once the symbol at `k` has sent what it ends: in `sent` all that is sent
up to then, in its order, and in `waiting` the operators that still wait. -/
structure Settled (symbols : List Symbol) (k : Nat) (sent waiting : List Nat) : Prop where
  ordered : sent.Pairwise (LeavesBefore symbols)
  mem_sent : ∀ i, i ∈ sent ↔ i < k ∧ (itemAt symbols i).isSome ∧ moment symbols i ≤ k
  mem_waiting : ∀ i op, symbols[i]? = some (.operator op) →
    (i ∈ waiting ↔ i < k ∧ k + 1 ≤ closer symbols op i)

/-- If nothing at `k` itself is sent at once, then that is all that is sent before `k + 1`. -/
theorem Settled.mem_sent_succ {sent waiting : List Nat} (h : Settled symbols k sent waiting)
    (hk : (itemAt symbols k).isSome → k < moment symbols k) (i : Nat) :
    i ∈ sent ↔ i < k + 1 ∧ (itemAt symbols i).isSome ∧ moment symbols i < k + 1 := by
  rw [h.mem_sent]
  constructor
  · intro hsent
    obtain ⟨hlt, hsome, hle⟩ := hsent
    exact ⟨by omega, hsome, by omega⟩
  · intro hsent
    obtain ⟨hlt, hsome, hle⟩ := hsent
    have hne : i ≠ k := by
      intro heq
      subst heq
      have hlater := hk hsome
      omega
    exact ⟨by omega, hsome, by omega⟩

namespace Tracks

variable {y : Yard} {sent above below waiting : List Nat} {entries entries' : List Pending}

theorem le_closer (h : Tracks symbols k y sent waiting) (hi : i ∈ waiting)
    (hop : symbols[i]? = some (.operator op)) : k ≤ closer symbols op i :=
  ((h.mem_waiting i op hop).mp hi).2

/-- Every position that waits has its entry on the stack. -/
theorem exists_entry (h : waiting.map (pendingAt symbols) = entries.map some) (hi : i ∈ waiting) :
    ∃ entry ∈ entries, pendingAt symbols i = some entry := by
  have hmem := List.mem_map_of_mem (f := pendingAt symbols) hi
  rw [h] at hmem
  obtain ⟨entry, hentry, hpending⟩ := List.mem_map.mp hmem
  exact ⟨entry, hentry, hpending.symm⟩

/-- A split of the stack is a split of the positions that wait. -/
theorem exists_split (h : Tracks symbols k y sent waiting)
    (hstack : y.stack = entries ++ entries') :
    ∃ above below, waiting = above ++ below ∧
      above.map (pendingAt symbols) = entries.map some ∧
      below.map (pendingAt symbols) = entries'.map some := by
  have hmap := h.stack
  rw [hstack, List.map_append, List.map_eq_append_iff] at hmap
  obtain ⟨above, below, hwaiting, habove, hbelow⟩ := hmap
  exact ⟨above, below, hwaiting, habove, hbelow⟩

theorem opened_below (h : Tracks symbols k y sent (above ++ below))
    (habove : ∀ j ∈ above, opensAt symbols j = false) :
    openBefore symbols k = below.filter (opensAt symbols) := by
  rw [h.opened, List.filter_append, filter_opensAt_eq_nil habove, List.nil_append]

/-- The operators above the nearest parenthesis are in the group of the symbol to come. -/
theorem openBefore_of_mem (h : Tracks symbols k y sent (above ++ below))
    (habove : ∀ j ∈ above, opensAt symbols j = false) (hi : i ∈ above) :
    openBefore symbols i = openBefore symbols k := by
  rw [h.nested.openBefore_of_mem habove hi, h.opened_below habove]

/-- No operator below the nearest parenthesis ends with the symbol to come. -/
theorem closer_ne_of_paren {symbol : Symbol} (h : Tracks symbols k y sent (above ++ j :: below))
    (hk : symbols[k]? = some symbol) (habove : ∀ j ∈ above, opensAt symbols j = false)
    (hj : opensAt symbols j = true) (hi : i ∈ j :: below)
    (hop : symbols[i]? = some (.operator op)) : closer symbols op i ≠ k := by
  intro hcloser
  have hgroup : group symbols k = some j := by
    rw [group, h.opened_below habove, List.filter_cons_of_pos hj]
    rfl
  have hmem := List.mem_append_right above hi
  have hsame := ((closer_eq_iff hk (h.lt_of_mem i hmem) (h.le_closer hmem hop)).mp hcloser).1
  rcases List.mem_cons.mp hi with rfl | hrest
  · simp [opensAt, hop] at hj
  · exact h.nested.of_append.group_ne hrest (hsame.trans hgroup)

/-- If the upper positions are those that end at `k`, then sending them settles what is before. -/
theorem send (h : Tracks symbols k y sent (above ++ below))
    (habove : ∀ i ∈ above, ∃ op, symbols[i]? = some (.operator op) ∧ closer symbols op i = k)
    (hbelow : ∀ i ∈ below, ∀ op, symbols[i]? = some (.operator op) → closer symbols op i ≠ k) :
    Settled symbols k (sent ++ above) below := by
  have hmoment : ∀ i ∈ above, moment symbols i = k := by
    intro i hi
    obtain ⟨op, hop, hcloser⟩ := habove i hi
    rw [moment_of_operator hop, hcloser]
  refine ⟨?_, ?_, ?_⟩
  · apply List.pairwise_append.mpr
    refine ⟨h.ordered, ?_, ?_⟩
    · apply (List.pairwise_append.mp h.nested.pairwise).1.imp_of_mem
      intro i j hi hj hgt
      exact .inr ⟨(hmoment i hi).trans (hmoment j hj).symm, hgt⟩
    · intro i hi j hj
      have hlt := ((h.mem_sent i).mp hi).2.2
      exact .inl (by rwa [hmoment j hj])
  · intro i
    constructor
    · intro hi
      rcases List.mem_append.mp hi with hsent | hi
      · obtain ⟨hlt, hitem, hle⟩ := (h.mem_sent i).mp hsent
        exact ⟨hlt, hitem, Nat.le_of_lt hle⟩
      · obtain ⟨op, hop, -⟩ := habove i hi
        refine ⟨h.lt_of_mem i (List.mem_append_left _ hi), ?_, Nat.le_of_eq (hmoment i hi)⟩
        rw [itemAt_of_operator hop]
        rfl
    · intro hsent
      obtain ⟨hlt, hitem, hle⟩ := hsent
      rcases Nat.lt_or_eq_of_le hle with hbefore | heq
      · exact List.mem_append_left _ ((h.mem_sent i).mpr ⟨hlt, hitem, hbefore⟩)
      · by_cases hop : ∃ op, symbols[i]? = some (.operator op)
        · obtain ⟨op, hop⟩ := hop
          rw [moment_of_operator hop] at heq
          have hmem := (h.mem_waiting i op hop).mpr ⟨hlt, Nat.le_of_eq heq.symm⟩
          rcases List.mem_append.mp hmem with hi | hi
          · exact List.mem_append_right _ hi
          · exact absurd heq (hbelow i hi op hop)
        · rw [moment_of_not_operator (not_exists.mp hop)] at heq
          omega
  · intro i op hop
    constructor
    · intro hi
      have hmem := List.mem_append_right above hi
      have hle := h.le_closer hmem hop
      have hne := hbelow i hi op hop
      exact ⟨h.lt_of_mem i hmem, by omega⟩
    · intro hwaits
      obtain ⟨hlt, hle⟩ := hwaits
      have hmem := (h.mem_waiting i op hop).mpr ⟨hlt, by omega⟩
      rcases List.mem_append.mp hmem with hi | hi
      · have hmoment := hmoment i hi
        rw [moment_of_operator hop] at hmoment
        omega
      · exact hi

/-- A symbol that ends no operator sends nothing that waits. -/
theorem send_nothing {symbol : Symbol} (h : Tracks symbols k y sent waiting)
    (hk : symbols[k]? = some symbol) (hends : ∀ op, symbol.ends op = false) :
    Settled symbols k sent waiting := by
  have hsplit : Tracks symbols k y sent ([] ++ waiting) := h
  have hstays : ∀ i ∈ waiting, ∀ op, symbols[i]? = some (.operator op) →
      closer symbols op i ≠ k := by
    intro i hi op hop hcloser
    have hend := ((closer_eq_iff hk (h.lt_of_mem i hi) (h.le_closer hi hop)).mp hcloser).2
    rw [hends op] at hend
    cases hend
  have hsettled := hsplit.send nofun hstays
  rwa [List.append_nil] at hsettled

theorem value {x : Float} (h : Tracks symbols k y sent waiting)
    (hk : symbols[k]? = some (.value x)) :
    Tracks symbols (k + 1) (y.take (.value x)) (sent ++ [k]) waiting := by
  have hitem : itemAt symbols k = some (.value x) := itemAt_eq hk
  have hmoment : moment symbols k = k := moment_of_not_operator (by simp [hk])
  have hsettled : Settled symbols k sent waiting := h.send_nothing hk fun _ => rfl
  refine ⟨?_, h.stack, h.nested, ?_, ?_, ?_, ?_, ?_⟩
  · rw [Yard.output_value, h.output, List.filterMap_append, List.filterMap_cons_some hitem]
    rfl
  · rw [openBefore_succ_of_item hk rfl, h.opened]
  · apply List.pairwise_append.mpr
    refine ⟨h.ordered, List.pairwise_singleton _ _, ?_⟩
    intro i hi j hj
    have hlt := ((h.mem_sent i).mp hi).2.2
    rw [List.mem_singleton.mp hj]
    exact .inl (by rwa [hmoment])
  · intro i
    rw [List.mem_append, List.mem_singleton, hsettled.mem_sent]
    constructor
    · intro hi
      rcases hi with ⟨hlt, hsome, hle⟩ | rfl
      · exact ⟨by omega, hsome, by omega⟩
      · exact ⟨by omega, by simp [hitem], by omega⟩
    · intro hi
      obtain ⟨hlt, hsome, hle⟩ := hi
      rcases Nat.lt_or_eq_of_le (Nat.le_of_lt_succ hlt) with hbefore | heq
      · exact .inl ⟨hbefore, hsome, by omega⟩
      · exact .inr heq
  · intro i hi
    exact Nat.lt_succ_of_lt (h.lt_of_mem i hi)
  · intro i op hop
    have hne := ne_of_operator hk nofun hop
    rw [hsettled.mem_waiting i op hop]
    omega

theorem opening (h : Tracks symbols k y sent waiting) (hk : symbols[k]? = some .opening) :
    Tracks symbols (k + 1) (y.take .opening) sent (k :: waiting) := by
  have hitem : itemAt symbols k = none := itemAt_eq hk
  have hopens : opensAt symbols k = true := by simp [opensAt, hk]
  have hsettled : Settled symbols k sent waiting := h.send_nothing hk fun _ => rfl
  refine ⟨h.output, ?_, .cons h.lt_of_mem h.opened h.nested, ?_, h.ordered,
    hsettled.mem_sent_succ (by simp [hitem]), ?_, ?_⟩
  · rw [List.map_cons, pendingAt_eq_paren_iff.mpr hopens, h.stack, Yard.stack_opening, List.map_cons]
  · rw [openBefore_succ_of_opening hk, h.opened, List.filter_cons_of_pos hopens]
  · intro i hi
    rcases List.mem_cons.mp hi with rfl | hmem
    · exact Nat.lt_succ_self _
    · exact Nat.lt_succ_of_lt (h.lt_of_mem i hmem)
  · intro i op hop
    have hne := ne_of_operator hk nofun hop
    rw [List.mem_cons, hsettled.mem_waiting i op hop]
    omega

/-- The operators that a symbol sends to the output, if all above the nearest parenthesis end with
it. -/
theorem closer_eq_of_mem {symbol : Symbol} (h : Tracks symbols k y sent (above ++ below))
    (hk : symbols[k]? = some symbol) (habove : ∀ j ∈ above, opensAt symbols j = false)
    (hi : i ∈ above) (hop : symbols[i]? = some (.operator op)) (hends : symbol.ends op = true) :
    closer symbols op i = k := by
  have hmem := List.mem_append_left below hi
  have hgroup : group symbols i = group symbols k :=
    congrArg List.head? (h.openBefore_of_mem habove hi)
  exact (closer_eq_iff hk (h.lt_of_mem i hmem) (h.le_closer hmem hop)).mpr ⟨hgroup, hends⟩

/-- Within a group the operators that wait bind the tighter the later they stand, so if the first of
them does not end with an operator then no other one does. -/
theorem closer_ne_of_operator {op op' op₀ : Operator}
    (h : Tracks symbols k y sent (above ++ j :: below))
    (hk : symbols[k]? = some (.operator op')) (habove : ∀ j ∈ above, opensAt symbols j = false)
    (hj : symbols[j]? = some (.operator op₀)) (hlt : op₀.precedence < op'.precedence)
    (hi : i ∈ j :: below) (hop : symbols[i]? = some (.operator op)) : closer symbols op i ≠ k := by
  intro hcloser
  have hmem := List.mem_append_right above hi
  obtain ⟨hgroup, hends⟩ :=
    (closer_eq_iff hk (h.lt_of_mem i hmem) (h.le_closer hmem hop)).mp hcloser
  have hle : op'.precedence ≤ op.precedence := of_decide_eq_true hends
  rcases List.mem_cons.mp hi with rfl | hrest
  · rw [hj] at hop
    cases hop
    omega
  · have hjk : j < k := h.lt_of_mem j (List.mem_append_right above List.mem_cons_self)
    have hnested := h.nested.of_append
    have hsame : group symbols j = group symbols k := by
      have h' : Tracks symbols k y sent ((above ++ [j]) ++ below) := by simpa using h
      apply congrArg List.head?
      apply h'.openBefore_of_mem _ (by simp)
      intro j' hj'
      rcases List.mem_append.mp hj' with hmem' | hmem'
      · exact habove j' hmem'
      · rw [List.mem_singleton.mp hmem']
        simp [opensAt, hj]
    cases hnested with
    | cons hbelow _ _ =>
      -- `op` still waited after `op₀` was read in its group, so it binds less tightly
      have hij := hbelow i hrest
      have hnot := not_endsAt_of_lt_closer (hcloser ▸ hjk : j < closer symbols op i)
      have hends₀ : Symbol.ends op (.operator op₀) = true :=
        decide_eq_true (by omega : op₀.precedence ≤ op.precedence)
      have hat : endsAt symbols op i j = true :=
        endsAt_eq_true_iff.mpr ⟨hij, hgroup.trans hsame.symm, _, hj, hends₀⟩
      rw [hnot] at hat
      cases hat

/-- What a symbol does to the positions that wait, if it sends a part of the stack down to a
parenthesis or an operator that binds less tightly. -/
theorem leave {symbol : Symbol} (h : Tracks symbols k y sent waiting)
    (hk : symbols[k]? = some symbol) (hstack : y.stack = entries ++ entries')
    (hentries : ∀ entry ∈ entries, ∃ op, entry = .operator op ∧ symbol.ends op = true)
    (htop : ∀ top ∈ entries'.head?, top = .paren ∨ ∃ op₀ op', top = .operator op₀ ∧
      symbol = .operator op' ∧ op₀.precedence < op'.precedence) :
    ∃ above below, waiting = above ++ below ∧
      Pending.items entries = above.filterMap (itemAt symbols) ∧
      below.map (pendingAt symbols) = entries'.map some ∧
      openBefore symbols k = below.filter (opensAt symbols) ∧
      Settled symbols k (sent ++ above) below := by
  obtain ⟨above, below, rfl, habove, hbelow⟩ := h.exists_split hstack
  have hoperators : ∀ i ∈ above, ∃ op, symbols[i]? = some (.operator op) ∧
      symbol.ends op = true := by
    intro i hi
    obtain ⟨entry, hentry, hpending⟩ := exists_entry habove hi
    obtain ⟨op, rfl, hends⟩ := hentries entry hentry
    exact ⟨op, pendingAt_eq_operator_iff.mp hpending, hends⟩
  have hclosed : ∀ i ∈ above, opensAt symbols i = false := by
    intro i hi
    obtain ⟨op, hop, -⟩ := hoperators i hi
    simp [opensAt, hop]
  have hends : ∀ i ∈ above, ∃ op, symbols[i]? = some (.operator op) ∧ closer symbols op i = k := by
    intro i hi
    obtain ⟨op, hop, hends⟩ := hoperators i hi
    exact ⟨op, hop, h.closer_eq_of_mem hk hclosed hi hop hends⟩
  have hstays : ∀ i ∈ below, ∀ op, symbols[i]? = some (.operator op) →
      closer symbols op i ≠ k := by
    intro i hi op hop
    cases below with
    | nil => cases hi
    | cons j below =>
      cases entries' with
      | nil => cases hbelow
      | cons top entries' =>
        have hpending := (List.cons.inj hbelow).1
        rcases htop top rfl with rfl | ⟨op₀, op', rfl, rfl, hlt⟩
        · exact h.closer_ne_of_paren hk hclosed (pendingAt_eq_paren_iff.mp hpending) hi hop
        · exact h.closer_ne_of_operator hk hclosed (pendingAt_eq_operator_iff.mp hpending) hlt hi hop
  exact ⟨above, below, rfl, items_eq_filterMap_itemAt habove, hbelow, h.opened_below hclosed,
    h.send hends hstays⟩

theorem operator {op' : Operator} (h : Tracks symbols k y sent waiting)
    (hk : symbols[k]? = some (.operator op')) :
    ∃ sent' waiting', Tracks symbols (k + 1) (y.take (.operator op')) sent' waiting' := by
  obtain ⟨entries, entries', hstack, hentries, hentries'⟩ := y.exists_split_operator op'
  have hends : ∀ entry ∈ entries, ∃ op, entry = .operator op ∧
      Symbol.ends op (.operator op') = true := by
    intro entry hentry
    have hle := hentries entry hentry
    cases entry with
    | operator op => exact ⟨op, rfl, decide_eq_true hle⟩
    | paren => exact absurd op'.precedence_pos (Nat.not_lt_of_le hle)
  have htop : ∀ top ∈ entries'.head?, top = .paren ∨ ∃ op₀ op'', top = .operator op₀ ∧
      Symbol.operator op' = .operator op'' ∧ op₀.precedence < op''.precedence := by
    intro top hmem
    have hlt := hentries' top hmem
    cases top with
    | operator op₀ => exact .inr ⟨op₀, op', rfl, rfl, hlt⟩
    | paren => exact .inl rfl
  obtain ⟨above, below, rfl, hitems, hbelow, hopened, hsettled⟩ := h.leave hk hstack hends htop
  have hlt : ∀ i ∈ below, i < k := fun i hi => h.lt_of_mem i (List.mem_append_right _ hi)
  have hcloser : k < closer symbols op' k := lt_closer (List.getElem?_eq_some_iff.mp hk).1
  refine ⟨sent ++ above, k :: below, ?_, ?_, .cons hlt hopened h.nested.of_append, ?_,
    hsettled.ordered, hsettled.mem_sent_succ ?_, ?_, ?_⟩
  · rw [Yard.output_operator hstack hentries hentries', h.output, List.filterMap_append, hitems]
  · rw [Yard.stack_operator hstack hentries hentries', List.map_cons, List.map_cons, hbelow,
      pendingAt_eq_operator_iff.mpr hk]
  · have hopens : ¬ opensAt symbols k = true := by simp [opensAt, hk]
    rw [openBefore_succ_of_item hk rfl, hopened, List.filter_cons_of_neg hopens]
  · intro _
    rwa [moment_of_operator hk]
  · intro i hi
    rcases List.mem_cons.mp hi with rfl | hmem
    · exact Nat.lt_succ_self _
    · exact Nat.lt_succ_of_lt (hlt i hmem)
  · intro i op hop
    rw [List.mem_cons, hsettled.mem_waiting i op hop]
    by_cases heq : i = k
    · subst heq
      rw [hk] at hop
      cases hop
      simp [Nat.succ_le_of_lt hcloser]
    · omega

theorem closing (h : Tracks symbols k y sent waiting) (hk : symbols[k]? = some .closing) :
    ∃ sent' waiting', Tracks symbols (k + 1) (y.take .closing) sent' waiting' := by
  obtain ⟨entries, entries', hstack, hentries, hentries'⟩ := y.exists_split_closing
  have hends : ∀ entry ∈ entries, ∃ op, entry = .operator op ∧ Symbol.closing.ends op = true := by
    intro entry hentry
    cases entry with
    | operator op => exact ⟨op, rfl, rfl⟩
    | paren => exact absurd rfl (hentries _ hentry)
  obtain ⟨above, below, rfl, hitems, hbelow, hopened, hsettled⟩ :=
    h.leave hk hstack hends fun top hmem => .inl (hentries' top hmem)
  have hitem : itemAt symbols k = none := itemAt_eq hk
  have hparen : ∀ j ∈ below.head?, opensAt symbols j = true := by
    intro j hj
    cases below with
    | nil => cases hj
    | cons j' below =>
      cases hj
      cases entries' with
      | nil => cases hbelow
      | cons top entries' =>
        have hpending := (List.cons.inj hbelow).1
        rw [hentries' top rfl] at hpending
        exact pendingAt_eq_paren_iff.mp hpending
  refine ⟨sent ++ above, below.tail, ?_, ?_, h.nested.of_append.tail, ?_, hsettled.ordered,
    hsettled.mem_sent_succ (by simp [hitem]), ?_, ?_⟩
  · rw [Yard.output_closing hstack hentries hentries', h.output, List.filterMap_append, hitems]
  · rw [Yard.stack_closing hstack hentries hentries', List.map_tail, List.map_tail, hbelow]
  · rw [openBefore_succ_of_closing hk, hopened]
    cases below with
    | nil => rfl
    | cons j below => rw [List.filter_cons_of_pos (hparen j rfl), List.tail_cons, List.tail_cons]
  · intro i hi
    have hmem := List.mem_append_right above (List.mem_of_mem_tail hi)
    exact Nat.lt_succ_of_lt (h.lt_of_mem i hmem)
  · intro i op hop
    have hne := ne_of_operator hk nofun hop
    have hmem : i ∈ below.tail ↔ i ∈ below := by
      cases below with
      | nil => exact .rfl
      | cons j below =>
        have hij : i ≠ j := by
          intro heq
          subst heq
          simpa [opensAt, hop] using hparen i rfl
        simp [hij]
    rw [hmem, hsettled.mem_waiting i op hop]
    omega

/-- A yard that is tracked takes one symbol more. -/
theorem take {symbol : Symbol} (h : Tracks symbols k y sent waiting)
    (hk : symbols[k]? = some symbol) :
    ∃ sent' waiting', Tracks symbols (k + 1) (y.take symbol) sent' waiting' := by
  cases symbol with
  | value x => exact ⟨_, _, h.value hk⟩
  | operator op => exact h.operator hk
  | opening => exact ⟨_, _, h.opening hk⟩
  | closing => exact h.closing hk

end Tracks

end InfixCalculator.Postfix
