import InfixCalculator.Proofs.Postfix.Popping
import InfixCalculator.Proofs.Postfix.Rejection
import InfixCalculator.Proofs.Postfix.Tracks
import Mathlib.Data.List.Perm.Subperm

/-!
# What a yard represents

After any symbols, matched or not, the stack of a yard falls into segments between its parentheses, in
each of which the precedences increase from the bottom to the top. Its parentheses are those that are
open, and nothing is lost: values are in the output in their order, and each operator is either in
the output or on the stack.

* `Yard.Represents`: these facts about a yard and the symbols that it took.
* `Represents.popWhile`: popping down to a parenthesis at most keeps them.
* `Represents.take`: one symbol more keeps them.
* `represents_handled`: the yards reached while tokens are handled, and the loops in between.
-/

namespace InfixCalculator.Postfix

/-! ## Values and operators -/

/-- The value, if the item is one. -/
def Item.value? : Item → Option Float
  | value x => some x
  | operator _ => none

/-- The operator, if the item is one. -/
def Item.operator? : Item → Option Operator
  | value _ => none
  | operator op => some op

/-- The value that the symbol brings, if it does. -/
def Symbol.value? : Symbol → Option Float
  | value x => some x
  | _ => none

/-- The operator that the symbol brings, if it does. -/
def Symbol.operator? : Symbol → Option Operator
  | operator op => some op
  | _ => none

theorem filterMap_value?_items (stack : List Pending) :
    (Pending.items stack).filterMap Item.value? = [] := by
  rw [Pending.items, List.filterMap_map, List.filterMap_eq_nil_iff]
  exact fun _ _ => rfl

theorem filterMap_operator?_items (stack : List Pending) :
    (Pending.items stack).filterMap Item.operator? = stack.filterMap Pending.operator? := by
  rw [Pending.items, List.filterMap_map]
  exact List.filterMap_some

/-! ## One symbol more -/

variable {symbols rest : List Symbol} {i : Nat}

theorem openBefore_append (h : i ≤ symbols.length) :
    openBefore (symbols ++ rest) i = openBefore symbols i := by
  induction i with
  | zero => rfl
  | succ i ih =>
    rw [openBefore, openBefore, ih (Nat.le_of_succ_le h), List.getElem?_append_left h]

theorem pendingAt_append {entry : Pending} (h : pendingAt symbols i = some entry) :
    pendingAt (symbols ++ rest) i = some entry := by
  cases entry with
  | operator op =>
    rw [pendingAt_eq_operator_iff] at h ⊢
    rw [List.getElem?_append_left (List.getElem?_eq_some_iff.mp h).1, h]
  | paren =>
    rw [pendingAt_eq_paren_iff, opensAt, decide_eq_true_iff] at h ⊢
    rw [List.getElem?_append_left (List.getElem?_eq_some_iff.mp h).1, h]

theorem lt_length_of_pendingAt {entry : Pending} (h : pendingAt symbols i = some entry) :
    i < symbols.length := by
  by_contra hge
  rw [pendingAt, List.getElem?_eq_none (Nat.not_lt.mp hge)] at h
  cases h

/-! ## Positions of entries -/

/-- The positions of the symbols by which the entries of a stack were put there, the latest first. -/
structure Positions (symbols : List Symbol) (stack : List Pending) (positions : List Nat) : Prop where
  latest : positions.Pairwise (· > ·)
  entries : positions.map (pendingAt symbols) = stack.map some

namespace Positions

variable {stack above below : List Pending} {positions : List Nat} {entry : Pending}

theorem lt_length (h : Positions symbols stack positions) (hi : i ∈ positions) :
    i < symbols.length := by
  obtain ⟨entry, -, hentry⟩ := Tracks.exists_entry h.entries hi
  exact lt_length_of_pendingAt hentry

/-- Symbols that come later do not move the entries. -/
theorem append (h : Positions symbols stack positions) (rest : List Symbol) :
    Positions (symbols ++ rest) stack positions := by
  refine ⟨h.latest, h.entries ▸ List.map_congr_left fun i hi => ?_⟩
  obtain ⟨entry, -, hentry⟩ := Tracks.exists_entry h.entries hi
  rw [hentry, pendingAt_append hentry]

theorem filter_append (h : Positions symbols stack positions) (rest : List Symbol) :
    positions.filter (opensAt (symbols ++ rest)) = positions.filter (opensAt symbols) := by
  refine List.filter_congr fun i hi => ?_
  rw [opensAt, opensAt, List.getElem?_append_left (h.lt_length hi)]

/-- The entry that the last symbol put on the stack. -/
theorem push {symbol : Symbol} (h : Positions symbols stack positions)
    (hentry : pendingAt (symbols ++ [symbol]) symbols.length = some entry) :
    Positions (symbols ++ [symbol]) (entry :: stack) (symbols.length :: positions) := by
  refine ⟨.cons (fun i hi => h.lt_length hi) h.latest, ?_⟩
  rw [List.map_cons, List.map_cons, hentry, (h.append [symbol]).entries]

theorem exists_split (h : Positions symbols (above ++ below) positions) :
    ∃ upper lower, positions = upper ++ lower ∧ Positions symbols above upper ∧
      Positions symbols below lower := by
  have hentries := h.entries
  rw [List.map_append, List.map_eq_append_iff] at hentries
  obtain ⟨upper, lower, rfl, hupper, hlower⟩ := hentries
  obtain ⟨habove, hbelow, -⟩ := List.pairwise_append.mp h.latest
  exact ⟨upper, lower, rfl, ⟨habove, hupper⟩, hbelow, hlower⟩

/-- A part of the stack without parentheses has no position at which one opens. -/
theorem filter_eq_nil (h : Positions symbols stack positions) (hstack : .paren ∉ stack) :
    positions.filter (opensAt symbols) = [] := by
  refine filter_opensAt_eq_nil fun i hi => ?_
  obtain ⟨entry, hentry, hpending⟩ := Tracks.exists_entry h.entries hi
  by_contra hopens
  rw [Bool.not_eq_false, ← pendingAt_eq_paren_iff, hpending, Option.some.injEq] at hopens
  exact hstack (hopens ▸ hentry)

end Positions

/-! ## The invariant -/

namespace Yard

/-- What a yard holds after some symbols. -/
structure Represents (y : Yard) (symbols : List Symbol) : Prop where
  /-- Between parentheses the precedences increase from the bottom to the top. -/
  increasing : ∀ segment, segment <:+: y.stack → .paren ∉ segment →
    segment.Pairwise fun upper lower => lower.rank < upper.rank
  /-- Every entry was put on the stack by a symbol, and the parentheses are those that are open. -/
  opened : ∃ positions, Positions symbols y.stack positions ∧
    positions.filter (opensAt symbols) = openBefore symbols symbols.length
  /-- The values are in the output, in the order in which they came. -/
  values : y.output.toList.filterMap Item.value? = symbols.filterMap Symbol.value?
  /-- Each operator is in the output or on the stack. -/
  operators : (y.output.toList.filterMap Item.operator? ++
    y.stack.filterMap Pending.operator?).Perm (symbols.filterMap Symbol.operator?)

theorem represents_empty : empty.Represents [] where
  increasing := by
    intro segment hsegment _
    rw [List.infix_nil.mp hsegment]
    exact .nil
  opened := ⟨[], ⟨.nil, rfl⟩, rfl⟩
  values := rfl
  operators := .refl _

namespace Represents

variable {y : Yard}

/-- Popping that stops at every parenthesis. -/
theorem popWhile (h : y.Represents symbols) {p : Pending → Bool} (hp : p .paren = false) :
    (y.popWhile p).Represents symbols := by
  have hsplit : y.stack.takeWhile p ++ y.stack.dropWhile p = y.stack :=
    List.takeWhile_append_dropWhile
  have habove : .paren ∉ y.stack.takeWhile p := by
    intro hmem
    rw [List.mem_takeWhile_imp hmem] at hp
    cases hp
  have houtput : (y.popWhile p).output.toList =
      y.output.toList ++ Pending.items (y.stack.takeWhile p) :=
    output_popWhile hsplit.symm (fun _ => List.mem_takeWhile_imp) (misses_dropWhile p _)
  constructor
  · intro segment hsegment hparen
    exact h.increasing segment (hsegment.trans (List.dropWhile_suffix p).isInfix) hparen
  · obtain ⟨positions, hpositions, hopen⟩ := h.opened
    rw [← hsplit] at hpositions
    obtain ⟨upper, lower, rfl, hupper, hlower⟩ := hpositions.exists_split
    rw [List.filter_append, hupper.filter_eq_nil habove, List.nil_append] at hopen
    exact ⟨lower, hlower, hopen⟩
  · rw [houtput, List.filterMap_append, filterMap_value?_items, List.append_nil, h.values]
  · have hoperators := h.operators
    rw [← hsplit, List.filterMap_append, ← List.append_assoc] at hoperators
    rw [houtput, List.filterMap_append, filterMap_operator?_items]
    exact hoperators

theorem value (h : y.Represents symbols) (x : Float) :
    (y.take (.value x)).Represents (symbols ++ [.value x]) := by
  have hlast : (symbols ++ [Symbol.value x])[symbols.length]? = some (.value x) := by simp
  constructor
  · exact h.increasing
  · obtain ⟨positions, hpositions, hopen⟩ := h.opened
    refine ⟨positions, hpositions.append _, ?_⟩
    rw [hpositions.filter_append, List.length_append, List.length_singleton,
      openBefore_succ_of_item hlast rfl, openBefore_append le_rfl, hopen]
  · rw [output_value, List.filterMap_append, List.filterMap_append, h.values]
    rfl
  · have hitem : [Item.value x].filterMap Item.operator? = [] := rfl
    have hsymbol : [Symbol.value x].filterMap Symbol.operator? = [] := rfl
    rw [output_value, stack_value, List.filterMap_append, List.filterMap_append, hitem, hsymbol,
      List.append_nil, List.append_nil]
    exact h.operators

theorem opening (h : y.Represents symbols) :
    (y.take .opening).Represents (symbols ++ [.opening]) := by
  have hlast : (symbols ++ [Symbol.opening])[symbols.length]? = some .opening := by simp
  have hopens : opensAt (symbols ++ [.opening]) symbols.length = true := by simp [opensAt]
  constructor
  · intro segment hsegment hparen
    rcases List.infix_cons_iff.mp hsegment with hprefix | hbelow
    · cases segment with
      | nil => exact .nil
      | cons top segment =>
        obtain ⟨rfl, -⟩ := List.cons_prefix_cons.mp hprefix
        exact absurd List.mem_cons_self hparen
    · exact h.increasing segment hbelow hparen
  · obtain ⟨positions, hpositions, hopen⟩ := h.opened
    refine ⟨_, hpositions.push (pendingAt_eq_paren_iff.mpr hopens), ?_⟩
    rw [List.filter_cons_of_pos hopens, hpositions.filter_append, List.length_append,
      List.length_singleton, openBefore_succ_of_opening hlast, openBefore_append le_rfl, hopen]
  · rw [output_opening, List.filterMap_append, h.values]
    exact (List.append_nil _).symm
  · rw [output_opening, List.filterMap_append]
    exact h.operators.trans (.of_eq (List.append_nil _).symm)

/-- An operator on top of one that binds less tightly, of a parenthesis or of nothing. -/
theorem push (h : y.Represents symbols) {op : Operator}
    (htop : ∀ top ∈ y.stack.head?, top.rank < op.precedence) :
    (y.push (.operator op)).Represents (symbols ++ [.operator op]) := by
  have hlast : (symbols ++ [Symbol.operator op])[symbols.length]? = some (.operator op) := by simp
  have hopens : ¬ opensAt (symbols ++ [.operator op]) symbols.length = true := by simp [opensAt]
  constructor
  · intro segment hsegment hparen
    rcases List.infix_cons_iff.mp hsegment with hprefix | hbelow
    · cases segment with
      | nil => exact .nil
      | cons top segment =>
        obtain ⟨rfl, hbelow⟩ := List.cons_prefix_cons.mp hprefix
        have hrest := h.increasing segment hbelow.isInfix
          fun hmem => hparen (List.mem_cons_of_mem _ hmem)
        refine .cons (fun entry hentry => ?_) hrest
        -- the highest of the others stands right below the operator
        cases segment with
        | nil => cases hentry
        | cons next segment =>
          obtain ⟨stack, hstack⟩ := hbelow
          have hnext : next.rank < op.precedence := htop next (by rw [← hstack]; rfl)
          rcases List.mem_cons.mp hentry with rfl | hentry
          · exact hnext
          · exact (List.rel_of_pairwise_cons hrest hentry).trans hnext
    · exact h.increasing segment hbelow hparen
  · obtain ⟨positions, hpositions, hopen⟩ := h.opened
    refine ⟨_, hpositions.push (pendingAt_eq_operator_iff.mpr hlast), ?_⟩
    rw [List.filter_cons_of_neg hopens, hpositions.filter_append, List.length_append,
      List.length_singleton, openBefore_succ_of_item hlast rfl, openBefore_append le_rfl, hopen]
  · rw [List.filterMap_append]
    exact h.values.trans (List.append_nil _).symm
  · rw [List.filterMap_append]
    exact List.perm_middle.trans ((h.operators.cons op).trans (List.perm_append_singleton op _).symm)

/-- A closing parenthesis takes the one that is on top of the stack, if there is any. -/
theorem tail (h : y.Represents symbols) (htop : ∀ top ∈ y.stack.head?, top = .paren) :
    Represents ⟨y.output, y.stack.tail⟩ (symbols ++ [.closing]) := by
  have hlast : (symbols ++ [Symbol.closing])[symbols.length]? = some .closing := by simp
  constructor
  · intro segment hsegment hparen
    exact h.increasing segment (hsegment.trans (List.tail_suffix _).isInfix) hparen
  · obtain ⟨positions, hpositions, hopen⟩ := h.opened
    have htail : positions.tail.filter (opensAt symbols) =
        (positions.filter (opensAt symbols)).tail := by
      cases positions with
      | nil => rfl
      | cons i positions =>
        obtain ⟨entry, hentry, -⟩ := Tracks.exists_entry hpositions.entries List.mem_cons_self
        cases hstack : y.stack with
        | nil =>
          rw [hstack] at hentry
          cases hentry
        | cons top below =>
          obtain rfl := htop top (by rw [hstack]; rfl)
          have hentries := hpositions.entries
          rw [hstack, List.map_cons, List.map_cons] at hentries
          have hopens := pendingAt_eq_paren_iff.mp (List.cons.inj hentries).1
          rw [List.filter_cons_of_pos hopens, List.tail_cons, List.tail_cons]
    have hlower : Positions symbols y.stack.tail positions.tail := by
      refine ⟨hpositions.latest.tail, ?_⟩
      rw [List.map_tail, List.map_tail, hpositions.entries]
    refine ⟨positions.tail, hlower.append _, ?_⟩
    rw [hlower.filter_append, htail, hopen, List.length_append, List.length_singleton,
      openBefore_succ_of_closing hlast, openBefore_append le_rfl]
  · rw [List.filterMap_append]
    exact h.values.trans (List.append_nil _).symm
  · have hoperators : y.stack.tail.filterMap Pending.operator? =
        y.stack.filterMap Pending.operator? := by
      cases hstack : y.stack with
      | nil => rfl
      | cons top below =>
        obtain rfl := htop top (by rw [hstack]; rfl)
        rfl
    rw [hoperators, List.filterMap_append]
    exact h.operators.trans (.of_eq (List.append_nil _).symm)

theorem sendHigher (h : y.Represents symbols) (op : Operator) :
    (y.sendHigher op.precedence).Represents symbols := by
  rw [sendHigher_eq op.precedence_pos]
  exact h.popWhile (decide_eq_false (Nat.not_le.mpr op.precedence_pos))

theorem operator (h : y.Represents symbols) (op : Operator) :
    (y.take (.operator op)).Represents (symbols ++ [.operator op]) := by
  rw [take_operator_eq]
  refine (h.sendHigher op).push fun top htop => ?_
  rw [sendHigher_eq op.precedence_pos] at htop
  have hlow := misses_dropWhile _ y.stack top htop
  exact Nat.not_le.mp (of_decide_eq_false hlow)

theorem closing (h : y.Represents symbols) :
    (y.take .closing).Represents (symbols ++ [.closing]) := by
  refine (h.popWhile (p := (· ≠ .paren)) rfl).tail fun top htop => ?_
  have hparen := misses_dropWhile _ y.stack top htop
  simpa using hparen

/-- A yard takes one symbol more. -/
theorem take (h : y.Represents symbols) (symbol : Symbol) :
    (y.take symbol).Represents (symbols ++ [symbol]) := by
  cases symbol with
  | value x => exact h.value x
  | operator op => exact h.operator op
  | opening => exact h.opening
  | closing => exact h.closing

theorem foldl_take (h : y.Represents symbols) (rest : List Symbol) :
    (rest.foldl Yard.take y).Represents (symbols ++ rest) := by
  induction rest generalizing y symbols with
  | nil => rwa [List.append_nil]
  | cons symbol rest ih =>
    have hrest := ih (h.take symbol)
    rwa [List.append_assoc] at hrest

/-- There are three precedences, so a segment has no more than three operators. -/
theorem length_le_three (h : y.Represents symbols) {segment : List Pending}
    (hsegment : segment <:+: y.stack) (hparen : .paren ∉ segment) : segment.length ≤ 3 := by
  have hincreasing := h.increasing segment hsegment hparen
  have hbounds : ∀ entry ∈ segment, 0 < entry.rank ∧ entry.rank ≤ 3 := by
    intro entry hentry
    cases entry with
    | paren => exact absurd hentry hparen
    | operator op => cases op <;> decide
  have hranks : (segment.map Pending.rank).Nodup :=
    List.pairwise_map.mpr (hincreasing.imp fun hlt => hlt.ne')
  have hsubset : segment.map Pending.rank ⊆ [1, 2, 3] := by
    intro rank hrank
    obtain ⟨entry, hentry, rfl⟩ := List.mem_map.mp hrank
    have hrange := hbounds entry hentry
    have hcases : entry.rank = 1 ∨ entry.rank = 2 ∨ entry.rank = 3 := by omega
    simpa using hcases
  have hlength := (List.subperm_of_subset hranks hsubset).length_le
  rwa [List.length_map] at hlength

end Represents

/-! ## Tokens -/

/-- Takes the symbol that a token means, if it means something. -/
def handle (table : Variables) (y : Yard) (t : Token) : Except Fault Yard :=
  (Symbol.ofToken table t).map y.take

theorem foldlM_handle (table : Variables) (ts : List Token) (y : Yard) :
    ts.foldlM (handle table) y = (meanings table ts).map fun symbols => symbols.foldl take y := by
  induction ts generalizing y with
  | nil => rfl
  | cons t ts ih =>
    rw [List.foldlM_cons, handle, meanings_cons]
    cases Symbol.ofToken table t with
    | error fault => rfl
    | ok symbol =>
      refine (ih (y.take symbol)).trans ?_
      cases meanings table ts <;> rfl

/-- What holds of a yard while tokens are handled. After any beginning of any tokens, handled without
a fault, the yard represents the symbols that these tokens mean, no segment of its stack has more than
three operators, and the tokens that are left are handled from there. Before an operator, popping an
entry takes an operator off the stack or nothing, never a parenthesis. And the loops before an operator
and at a closing parenthesis, which do all that the yard does, lead from a yard that represents some
symbols to one that does. -/
theorem represents_handled (table : Variables) :
    (∀ (ts : List Token) (k : Nat) (y : Yard), (ts.take k).foldlM (handle table) empty = .ok y →
      (∃ symbols, (ts.take k).map (Symbol.ofToken table) = symbols.map .ok ∧ y.Represents symbols) ∧
      (∀ segment, segment <:+: y.stack → .paren ∉ segment → segment.length ≤ 3) ∧
      (ofTokens table ts).result = (ofTokensFrom table (ts.drop k) y).result) ∧
    (∀ (y : Yard) (op : Operator),
      y.popHigher op.precedence = (none, y) ∨
      ∃ op' below, y.stack = .operator op' :: below ∧
        y.popHigher op.precedence = (some op', ⟨y.output, below⟩)) ∧
    (∀ (y : Yard) (op : Operator),
      y.take (.operator op) = (y.sendHigher op.precedence).push (.operator op) ∧
      y.take .closing = sendGroup y.output y.stack) ∧
    ∀ (y : Yard) (symbols : List Symbol), y.Represents symbols →
      (∀ op, (y.sendHigher op.precedence).Represents symbols ∧
        ((y.sendHigher op.precedence).push (.operator op)).Represents (symbols ++ [.operator op])) ∧
      (sendGroup y.output y.stack).Represents (symbols ++ [.closing]) := by
  refine ⟨?_, ?_, ?_, ?_⟩
  · intro ts k y hy
    rw [foldlM_handle] at hy
    cases hmeanings : meanings table (ts.take k) with
    | error fault =>
      rw [hmeanings] at hy
      cases hy
    | ok symbols =>
      rw [hmeanings] at hy
      obtain rfl := Except.ok.inj hy
      have hrepresents : (symbols.foldl take empty).Represents symbols :=
        represents_empty.foldl_take symbols
      refine ⟨⟨symbols, meanings_eq_ok_iff.mp hmeanings, hrepresents⟩,
        fun _ => hrepresents.length_le_three, ?_⟩
      have hread := ofTokensFrom_append hmeanings (ts.drop k) empty
      rw [List.take_append_drop] at hread
      rw [ofTokens, hread]
  · intro y op
    rcases popHigher_cases op.precedence_pos y with ⟨hnone, -⟩ | ⟨op', below, hstack, -, hsome⟩
    · exact .inl hnone
    · exact .inr ⟨op', below, hstack, hsome⟩
  · exact fun y op => ⟨take_operator_eq op y, (sendGroup_eq y).symm⟩
  · intro y symbols h
    refine ⟨fun op => ⟨h.sendHigher op, ?_⟩, ?_⟩
    · rw [← take_operator_eq]
      exact h.operator op
    · rw [sendGroup_eq]
      exact h.closing

end Yard

end InfixCalculator.Postfix
