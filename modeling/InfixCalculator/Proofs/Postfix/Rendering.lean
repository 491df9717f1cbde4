import InfixCalculator.Proofs.Numeral.Recovery
import InfixCalculator.Proofs.Numeral.Written
import InfixCalculator.Proofs.Postfix.Meanings

/-!
# The texts of programs are read back

A text of a program is cut at its spaces, and each piece stands for one item: the operator that the
piece is the symbol of, or else the value that the piece has as a number.

* `read?`: the program that a text stands for.
* `Item.read?_text`: the text of an item is a piece that stands for this item.
* `pieces_text`: the pieces of the text of a program are the texts of its items.
* `read?_text`, `text_injective`: reading inverts writing, so the text of a program tells the program.
* `text_uniquely_readable`: all of this, together with what holds of the single values.
-/

namespace InfixCalculator

/-! ## Values and symbols -/

theorem Numeral.write_ne_of_read?_eq_none {text : String} (h : read? text = none) (x : Float) :
    write x ≠ text := by
  rintro rfl
  rw [read?_write] at h
  cases h

/-- No symbol of an operator is a numeral. -/
theorem Operator.read?_symbol (op : Operator) : Numeral.read? op.symbol = none := by
  cases op <;> decide

theorem Numeral.write_ne_symbol (x : Float) (op : Operator) : write x ≠ op.symbol :=
  write_ne_of_read?_eq_none op.read?_symbol x

theorem Numeral.space_notMem_write (x : Float) : ' ' ∉ (write x).toList := by
  intro hspace
  exact absurd (isWritten_of_mem_write x ' ' hspace) (by decide)

theorem Numeral.ofSymbol?_write (x : Float) : Operator.ofSymbol? (write x) = none := by
  cases h : Operator.ofSymbol? (write x) with
  | none => rfl
  | some op => exact absurd (Operator.ofSymbol?_eq_some_iff.mp h) (write_ne_symbol x op)

namespace Postfix

variable {table : Variables}

/-! ## Items -/

/-- The item a piece of a text stands for. A piece that is no symbol is taken as a number. -/
def Item.read? (table : Variables) (piece : String) : Option Item :=
  match Operator.ofSymbol? piece with
  | some op => some (.operator op)
  | none =>
    match (ofTokens table [(⟨.number, piece⟩ : Token)]).result with
    | .ok [item] => some item
    | _ => none

/-- A number by itself is a program of one value. -/
theorem result_ofTokens_number {piece : String} {x : Float} (h : Numeral.read? piece = some x) :
    (ofTokens table [(⟨.number, piece⟩ : Token)]).result = .ok [.value x] := by
  have hmeaning : Symbol.ofToken table ⟨.number, piece⟩ = .ok (.value x) := by
    simp only [Symbol.ofToken, h]
  rw [result_ofTokens, meanings_cons, hmeaning]
  rfl

theorem Item.read?_text (item : Item) : Item.read? table item.text = some item := by
  cases item with
  | value x =>
    have hnumber : (ofTokens table [(⟨.number, Numeral.write x⟩ : Token)]).result =
        .ok [.value x] := result_ofTokens_number (Numeral.read?_write x)
    simp only [Item.read?, Item.text, Numeral.ofSymbol?_write, hnumber]
  | operator op => simp only [Item.read?, Item.text, Operator.ofSymbol?_symbol]

theorem Item.space_notMem_text (item : Item) : ' ' ∉ item.text.toList := by
  cases item with
  | value x => exact Numeral.space_notMem_write x
  | operator op => cases op <;> decide

theorem Item.text_ne_empty (item : Item) : item.text ≠ "" := by
  cases item with
  | value x => exact Numeral.write_ne_of_read?_eq_none (by decide) x
  | operator op => cases op <;> decide

/-! ## Programs -/

/-- The pieces between the spaces of a text. -/
def pieces (text : String) : List String := (text.toList.splitOn ' ').map String.ofList

/-- The program that a text stands for. -/
def read? (table : Variables) (text : String) : Option (List Item) :=
  if text = "" then some [] else (pieces text).mapM (Item.read? table)

theorem pieces_text {items : List Item} (h : items ≠ []) :
    pieces (text items) = items.map Item.text := by
  have hspaces : ∀ cs ∈ (items.map Item.text).map String.toList, ' ' ∉ cs := by
    intro cs hcs
    rw [List.map_map, List.mem_map] at hcs
    obtain ⟨item, -, rfl⟩ := hcs
    exact item.space_notMem_text
  have hnonempty : (items.map Item.text).map String.toList ≠ [] := by simpa using h
  have hsplit := List.splitOn_intercalate ' ' hspaces hnonempty
  unfold pieces text
  rw [String.toList_intercalate]
  refine (congrArg (List.map String.ofList) hsplit).trans ?_
  rw [List.map_map]
  exact (List.map_congr_left fun piece _ => String.ofList_toList).trans (List.map_id _)

theorem text_ne_empty {items : List Item} (h : items ≠ []) : text items ≠ "" := by
  intro hempty
  -- the empty text has one piece, which is empty
  have hpieces := pieces_text h
  rw [hempty] at hpieces
  obtain ⟨item, rest, rfl⟩ := List.exists_cons_of_ne_nil h
  exact item.text_ne_empty (List.cons.inj hpieces).1.symm

/-- Reading inverts writing, whatever the table. -/
theorem read?_text (items : List Item) : read? table (text items) = some items := by
  by_cases h : items = []
  · subst h
    rfl
  · have hitems : Item.read? table ∘ Item.text = pure := funext Item.read?_text
    rw [read?, if_neg (text_ne_empty h), pieces_text h, List.mapM_map, hitems, List.mapM_pure,
      List.map_id']
    rfl

theorem text_injective : Function.Injective text := by
  intro items items' h
  have hread : read? ∅ (text items) = some items := read?_text items
  rw [h, read?_text] at hread
  exact (Option.some.inj hread).symm

/-- The text of a program tells the program, and every value in it to the last bit. -/
theorem text_uniquely_readable (items : List Item) (table : Variables) :
    read? table (text items) = some items ∧
      (∀ items', text items' = text items → items' = items) ∧
      ∀ x : Float, Numeral.read? (Numeral.write x) = some x ∧ ' ' ∉ (Numeral.write x).toList ∧
        ∀ op : Operator, Numeral.write x ≠ op.symbol :=
  ⟨read?_text items, fun _ h => text_injective h, fun x =>
    ⟨Numeral.read?_write x, Numeral.space_notMem_write x, Numeral.write_ne_symbol x⟩⟩

end Postfix

end InfixCalculator
