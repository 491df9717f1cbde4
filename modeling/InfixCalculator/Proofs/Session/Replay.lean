import InfixCalculator.Proofs.Numeral.Written
import InfixCalculator.Proofs.Postfix.Meanings
import InfixCalculator.Proofs.Session.History

/-!
# The journal of a session

Every assignment is recorded with its name and the text of its value, and no other record looks like
that of an assignment. So the table of a session can be told from its journal alone, whatever was
done with the session and however its conversations ended.

* `Text.cutAtLast?_eq_some_iff`: cutting a text at the last occurrence of a separator.
* `Journal.Record.binding?`, `Journal.replay`: the binding that a record tells of, and the table that
  a journal tells of.
* `Session.isQuiet_evaluate`: evaluating writes nothing that could be taken for an assignment.
* `Session.bindings_answer`, `Conversation.bindings_ofInput`: what is recorded of a line and of a
  conversation.
* `Session.bindings_journal`: what is recorded of a sequence of calls.
* `Session.replay_journal`: the journal tells every assignment, and so the table.
-/

namespace InfixCalculator

open Journal (Level Record)

/-! ## The last occurrence of a separator -/

namespace Text

/-- The parts before and after the last occurrence of a separator. -/
def cutAtLast? (sep : List Char) : List Char → Option (List Char × List Char)
  | [] => none
  | c :: cs =>
    match cutAtLast? sep cs with
    | some (before, after) => some (c :: before, after)
    | none => if sep <+: c :: cs then some ([], (c :: cs).drop sep.length) else none

/-- A text is cut at an occurrence of the separator that no other one comes after. -/
structure IsLastCut (sep cs before after : List Char) : Prop where
  split : cs = before ++ sep ++ after
  last : ∀ left right, cs = left ++ sep ++ right → left.length ≤ before.length

variable {sep cs before after : List Char}

theorem IsLastCut.unique {before' after' : List Char} (h : IsLastCut sep cs before after)
    (h' : IsLastCut sep cs before' after') : before = before' ∧ after = after' := by
  have hlength : before.length = before'.length :=
    Nat.le_antisymm (h'.last _ _ h.split) (h.last _ _ h'.split)
  have hsplit := h.split.symm.trans h'.split
  rw [List.append_assoc, List.append_assoc] at hsplit
  obtain ⟨hbefore, hrest⟩ := List.append_inj hsplit hlength
  exact ⟨hbefore, List.append_cancel_left hrest⟩

/-- What is found is the last occurrence, and nothing is found only where there is none. -/
theorem cutAtLast?_spec (hsep : sep ≠ []) (cs : List Char) :
    (∀ before after, cutAtLast? sep cs = some (before, after) → IsLastCut sep cs before after) ∧
      (cutAtLast? sep cs = none → ∀ left right, cs ≠ left ++ sep ++ right) := by
  induction cs with
  | nil =>
    refine ⟨nofun, fun _ left right h => hsep ?_⟩
    exact (List.append_eq_nil_iff.mp (List.append_eq_nil_iff.mp h.symm).1).2
  | cons c cs ih =>
    obtain ⟨hsome, hnone⟩ := ih
    rw [cutAtLast?]
    cases hcut : cutAtLast? sep cs with
    | some parts =>
      obtain ⟨before, after⟩ := parts
      obtain ⟨rfl, hlast⟩ := hsome before after hcut
      refine ⟨?_, nofun⟩
      rintro _ _ ⟨⟩
      refine ⟨rfl, fun left right hsplit => ?_⟩
      cases left with
      | nil => exact Nat.zero_le _
      | cons d left =>
        have hrest := (List.cons.inj hsplit).2
        exact Nat.succ_le_succ (hlast left right hrest)
    | none =>
      have hfirst : ∀ left right, c :: cs = left ++ sep ++ right → left = [] := by
        intro left right hsplit
        cases left with
        | nil => rfl
        | cons d left => exact absurd (List.cons.inj hsplit).2 (hnone hcut left right)
      dsimp only
      split
      · next hprefix =>
        refine ⟨?_, nofun⟩
        rintro _ _ ⟨⟩
        refine ⟨(List.prefix_iff_eq_append.mp hprefix).symm, fun left right hsplit => ?_⟩
        rw [hfirst left right hsplit]
      · next hprefix =>
        refine ⟨nofun, fun _ left right hsplit => hprefix ?_⟩
        rw [hsplit, hfirst left right hsplit]
        exact List.prefix_append sep right

theorem cutAtLast?_eq_some_iff (hsep : sep ≠ []) :
    cutAtLast? sep cs = some (before, after) ↔ IsLastCut sep cs before after := by
  obtain ⟨hsome, hnone⟩ := cutAtLast?_spec hsep cs
  refine ⟨hsome before after, fun h => ?_⟩
  cases hcut : cutAtLast? sep cs with
  | none => exact absurd h.split (hnone hcut before after)
  | some parts =>
    obtain ⟨rfl, rfl⟩ := h.unique (hsome parts.1 parts.2 hcut)
    rfl

/-- An occurrence is the last one if the last character of the separator does not come again. -/
theorem isLastCut_of_not_mem {c : Char} (h : c ∉ after) (before sep : List Char) :
    IsLastCut (sep ++ [c]) (before ++ (sep ++ [c]) ++ after) before after := by
  refine ⟨rfl, fun left right hsplit => ?_⟩
  have hsplit' : before ++ (sep ++ [c]) ++ after = (left ++ sep) ++ (c :: right) := by
    rw [hsplit]
    simp
  rcases List.append_eq_append_iff.mp hsplit' with ⟨between, -, hafter⟩ | ⟨between, hbefore, hright⟩
  · exact absurd (by simp [hafter]) h
  · have hne : between ≠ [] := by
      rintro rfl
      rw [List.nil_append] at hright
      exact h (hright ▸ List.mem_cons_self)
    have hlength := congrArg List.length hbefore
    have hpos := List.length_pos_iff.mpr hne
    simp only [List.length_append, List.length_cons, List.length_nil] at hlength
    omega

theorem cutAtLast?_eq_none_of_not_mem {c : Char} (hsep : c ∈ sep) (h : c ∉ cs) :
    cutAtLast? sep cs = none := by
  cases hcut : cutAtLast? sep cs with
  | none => rfl
  | some parts =>
    have hsplit := ((cutAtLast?_eq_some_iff (List.ne_nil_of_mem hsep)).mp hcut).split
    exact absurd (by simp [hsplit, hsep]) h

end Text

/-! ## Reading a journal -/

namespace Journal

/-- What stands between the name and the value in the record of an assignment. -/
def arrow : List Char := " <- ".toList

/-- The name and the text that a record tells of: those around the last arrow in its message, if it
is written at the level of an assignment and has an arrow at all. -/
def Record.binding? (record : Record) : Option (String × String) :=
  match record.level with
  | .info =>
    (Text.cutAtLast? arrow record.message.toList).map fun parts =>
      (String.ofList parts.1, String.ofList parts.2)
  | _ => none

/-- The table that a journal tells of, the last record of each name holding. -/
def replay (log : List Record) : Std.ExtTreeMap String String :=
  (log.filterMap Record.binding?).foldl (fun table binding => table.insert binding.1 binding.2) ∅

/-- A binding as it is recorded. -/
def recorded (binding : String × Float) : String × String := (binding.1, Numeral.write binding.2)

/-- The record of an assignment is read back as it was written, whatever the name. -/
theorem binding?_assignment (name : String) (x : Float) :
    Record.binding? ⟨.info, name ++ " <- " ++ Numeral.write x⟩ = some (recorded (name, x)) := by
  have hblank : ' ' ∉ (Numeral.write x).toList := fun hmem =>
    absurd (Numeral.isWritten_of_mem_write x ' ' hmem) (by decide)
  have hcut : Text.cutAtLast? arrow (name ++ " <- " ++ Numeral.write x).toList =
      some (name.toList, (Numeral.write x).toList) := by
    rw [Text.cutAtLast?_eq_some_iff (by decide), String.toList_append, String.toList_append]
    exact Text.isLastCut_of_not_mem hblank name.toList [' ', '<', '-']
  show (Text.cutAtLast? arrow (name ++ " <- " ++ Numeral.write x).toList).map _ = _
  rw [hcut]
  simp [recorded]

example : Record.binding? ⟨.info, "a <- b <- 2"⟩ = some ("a <- b", "2") := by decide +kernel

theorem binding?_of_level_ne {record : Record} (h : record.level ≠ .info) :
    record.binding? = none := by
  unfold Record.binding?
  split
  · next hlevel => exact absurd hlevel h
  · rfl

/-- A message without an arrow tells of no binding. -/
theorem binding?_of_not_mem {level : Level} {message : String} (h : '<' ∉ message.toList) :
    Record.binding? ⟨level, message⟩ = none := by
  have hcut : Text.cutAtLast? arrow message.toList = none :=
    Text.cutAtLast?_eq_none_of_not_mem (c := '<') (by decide) h
  unfold Record.binding?
  split
  · rw [hcut]
    rfl
  · rfl

/-- Records none of which is of the level of an assignment. -/
def IsQuiet (log : List Record) : Prop := ∀ record ∈ log, record.level ≠ .info

theorem IsQuiet.append {log log' : List Record} (h : IsQuiet log) (h' : IsQuiet log') :
    IsQuiet (log ++ log') := List.forall_mem_append.mpr ⟨h, h'⟩

theorem isQuiet_singleton {level : Level} (h : level ≠ .info) (message : String) :
    IsQuiet [⟨level, message⟩] := List.forall_mem_singleton.mpr h

theorem IsQuiet.bindings {log : List Record} (h : IsQuiet log) :
    log.filterMap Record.binding? = [] :=
  List.filterMap_eq_nil_iff.mpr fun record hrecord => binding?_of_level_ne (h record hrecord)

end Journal

open Journal (IsQuiet recorded)

/-! ## What a calculation records -/

namespace Traced

variable {α β : Type}

/-- A fault keeps what was recorded before and adds nothing. -/
theorem isQuiet_bind {x : Traced α} {f : α → Traced β} (hx : IsQuiet x.log)
    (hf : ∀ a, IsQuiet (f a).log) : IsQuiet (x >>= f).log := by
  cases hresult : x.result with
  | ok a =>
    rw [bind_of_ok hresult]
    exact hx.append (hf a)
  | error fault =>
    rw [bind_of_error hresult]
    exact hx

theorem isQuiet_note {level : Level} (h : level ≠ .info) (message : String) :
    IsQuiet (note level message).log := Journal.isQuiet_singleton h message

theorem isQuiet_ofExcept (result : Except Fault α) : IsQuiet (ofExcept result).log := nofun

end Traced

namespace Postfix

theorem isQuiet_ofTokensFrom (table : Variables) (ts : List Token) (yard : Yard) :
    IsQuiet (ofTokensFrom table ts yard).log := by
  induction ts generalizing yard with
  | nil =>
    rw [ofTokensFrom_of_none rfl]
    exact nofun
  | cons t ts ih =>
    rw [ofTokensFrom_of_some (t := t) rfl]
    refine Traced.isQuiet_bind (Traced.isQuiet_note (by decide) _) fun _ => ?_
    exact Traced.isQuiet_bind (Traced.isQuiet_ofExcept _) fun symbol => ih (yard.take symbol)

end Postfix

namespace Session

/-- To evaluate an expression is not recorded like an assignment, wherever it fails. -/
theorem isQuiet_evaluate (s : Session) (expression : String) :
    IsQuiet (s.evaluate expression).log := by
  refine Traced.isQuiet_bind (Traced.isQuiet_note (by decide) _) fun _ => ?_
  refine Traced.isQuiet_bind (Postfix.isQuiet_ofTokensFrom _ _ _) fun program => ?_
  refine Traced.isQuiet_bind (Traced.isQuiet_note (by decide) _) fun _ => ?_
  refine Traced.isQuiet_bind (Traced.isQuiet_ofExcept _) fun value => ?_
  exact Traced.isQuiet_bind (Traced.isQuiet_note (by decide) _) fun _ => nofun

/-- The records of a line tell of the binding that its answer makes, and of nothing else. -/
theorem bindings_answer (s : Session) (line : String) :
    (s.answer line).log.filterMap Record.binding? =
      (Answer.binding? (s.answer line).result).toList.map recorded := by
  rw [answer]
  cases Command.ofLine line with
  | leave => rfl
  | nothing => rfl
  | malformed => exact (Journal.isQuiet_singleton (by decide) _).bindings
  | assign name expression =>
    have hquiet := (isQuiet_evaluate s expression).bindings
    dsimp only
    cases hvalue : (s.evaluate expression).result with
    | error fault =>
      rw [Traced.bind_of_error hvalue]
      exact hquiet
    | ok x =>
      rw [Traced.bind_of_ok hvalue]
      show ((s.evaluate expression).log ++ [_]).filterMap Record.binding? = [recorded (name, x)]
      rw [List.filterMap_append, hquiet, List.nil_append,
        List.filterMap_cons_some (Journal.binding?_assignment name x), List.filterMap_nil]
  | evaluate expression =>
    have hquiet := (isQuiet_evaluate s expression).bindings
    dsimp only
    cases hvalue : (s.evaluate expression).result with
    | error fault =>
      rw [Traced.bind_of_error hvalue]
      exact hquiet
    | ok x =>
      rw [Traced.bind_of_ok hvalue]
      show ((s.evaluate expression).log ++ []).filterMap Record.binding? = []
      rw [List.append_nil, hquiet]

theorem bindings_turn (s : Session) (line : String) :
    (s.turn line).log.filterMap Record.binding? =
      (Answer.binding? (s.answer line).result).toList.map recorded := by
  have hfault : IsQuiet (Turn.faultLog line (s.answer line).result) := by
    cases (s.answer line).result with
    | ok answer => exact nofun
    | error fault => exact Journal.isQuiet_singleton (by decide) _
  show ((s.answer line).log ++ Turn.faultLog line (s.answer line).result).filterMap _ = _
  rw [List.filterMap_append, hfault.bindings, List.append_nil, bindings_answer]

/-- The records of some lines that are answered one after another in a conversation. -/
def turnRecords (s : Session) : List String → List Record
  | [] => []
  | line :: lines => (s.turn line).log ++ (s.next line).turnRecords lines

theorem bindings_turnRecords (s : Session) (lines : List String) :
    (s.turnRecords lines).filterMap Record.binding? = (s.assignments lines).map recorded := by
  induction lines generalizing s with
  | nil => rfl
  | cons line lines ih =>
    rw [turnRecords, assignments, List.filterMap_append, List.map_append, bindings_turn, ih]

end Session

/-! ## What a conversation records -/

namespace Conversation

theorem log_writing (room : Room) (text : String) (s : Session) (next : Room → Conversation) :
    (writing room text s next).log =
      match room.after? (Text.encode text) with
      | some room => (next room).log
      | none => [] := by
  simp only [writing]
  cases room.after? (Text.encode text) <;> rfl

/-- A conversation records what the lines do that it answers, however it ends. -/
theorem log_ofLines (room : Room) (s : Session) (lines : List (List UInt8)) :
    (ofLines room s lines).log = s.turnRecords (answered room s lines) := by
  induction lines generalizing room s with
  | nil =>
    rw [ofLines_nil, log_writing]
    cases room.after? (Text.encode prompt) <;> rfl
  | cons bytes lines ih =>
    rw [ofLines_cons, log_writing, answered]
    cases room.after? (Text.encode prompt) with
    | none => rfl
    | some room =>
      cases Text.decode? bytes with
      | none => rfl
      | some line =>
        refine congrArg ((s.turn line).log ++ ·) ((log_writing room _ _ _).trans ?_)
        cases room.after? (Text.encode (s.turn line).reply) with
        | none => rfl
        | some room =>
          show (if (s.turn line).ends then stop (.ok ()) (s.turn line).session
            else ofLines room (s.turn line).session lines).log = _
          cases (s.turn line).ends with
          | true => rfl
          | false => exact ih room (s.next line)

theorem bindings_closing (c : Conversation) : c.closing.filterMap Record.binding? = [] := by
  unfold closing
  split
  · next hending =>
    have hsize : '<' ∉ (toString c.session.table.size).toList := by
      intro hmem
      rw [Nat.toString_eq_ofList_toDigits, String.toList_ofList] at hmem
      exact absurd (Numeral.isWritten_of_mem_toDigits '<' hmem) (by decide)
    have hmessage : '<' ∉ ("session finished with " ++ toString c.session.table.size ++
        " variable(s)").toList := by
      rw [String.toList_append, String.toList_append, List.mem_append, List.mem_append]
      rintro ((hmem | hmem) | hmem)
      · exact absurd hmem (by decide)
      · exact hsize hmem
      · exact absurd hmem (by decide)
    rw [List.filterMap_cons_none (Journal.binding?_of_not_mem hmessage), List.filterMap_nil]
  · rfl

/-- The records of the beginning and of the end of a conversation are not taken for assignments. -/
theorem bindings_ofInput (room : Room) (s : Session) (input : List UInt8) :
    (ofInput room s input).log.filterMap Record.binding? =
      (s.assignments (answered room s (Text.cutLines input))).map recorded := by
  have hstarted : Record.binding? ⟨.info, "session started"⟩ = none :=
    Journal.binding?_of_not_mem (by decide)
  simp only [ofInput]
  rw [List.cons_append, List.filterMap_cons_none hstarted, List.filterMap_append, bindings_closing,
    List.append_nil, log_ofLines, Session.bindings_turnRecords]

end Conversation

/-! ## Calls -/

namespace Session

/-- The records that are written in a call. -/
def records (s : Session) : Call → List Record
  | .execute line => (s.step line).1.log
  | .evaluate expression => (s.evaluate expression).log
  | .converse room input => (Conversation.ofInput room s input).log

/-- The records that are written in a sequence of calls. -/
def journal (s : Session) : List Call → List Record
  | [] => []
  | c :: cs => s.records c ++ (s.call c).journal cs

theorem assignments_append (s : Session) (lines lines' : List String) :
    s.assignments (lines ++ lines') =
      s.assignments lines ++ (lines.foldl next s).assignments lines' := by
  induction lines generalizing s with
  | nil => rfl
  | cons line lines ih =>
    rw [List.cons_append, assignments, assignments, ih, List.append_assoc, List.foldl_cons]

theorem bindings_records (s : Session) (c : Call) :
    (s.records c).filterMap Record.binding? = (s.assignments (s.linesOf c)).map recorded := by
  cases c with
  | execute line =>
    refine (bindings_answer s line).trans (congrArg (List.map recorded) ?_)
    exact (List.append_nil _).symm
  | evaluate expression => exact (isQuiet_evaluate s expression).bindings
  | converse room input => exact Conversation.bindings_ofInput room s input

theorem bindings_journal (s : Session) (cs : List Call) :
    (s.journal cs).filterMap Record.binding? = (s.assignments (s.history cs)).map recorded := by
  induction cs generalizing s with
  | nil => rfl
  | cons c cs ih =>
    rw [journal, List.filterMap_append, bindings_records, ih, history, assignments_append,
      ← call_eq_foldl, List.map_append]

end Session

namespace Journal

/-- A table with its values written. -/
def written (table : Variables) : Std.ExtTreeMap String String :=
  table.map fun _ => Numeral.write

theorem getElem?_written (table : Variables) (name : String) :
    (written table)[name]? = table[name]?.map Numeral.write := Std.ExtTreeMap.getElem?_map

theorem written_empty : written ∅ = ∅ := by
  refine Std.ExtTreeMap.ext_getElem? fun name => ?_
  rw [getElem?_written]
  rfl

theorem written_bind (table : Variables) (binding : String × Float) :
    written (Session.bind table binding) =
      (written table).insert (recorded binding).1 (recorded binding).2 := by
  refine Std.ExtTreeMap.ext_getElem? fun name => ?_
  simp only [getElem?_written, recorded, Session.bind, Std.ExtTreeMap.getElem?_insert,
    apply_ite (Option.map Numeral.write), Option.map_some]

/-- To bind the values as they are recorded is to bind them and write the table. -/
theorem foldl_recorded (bindings : List (String × Float)) (table : Variables) :
    (bindings.map recorded).foldl (fun table binding => table.insert binding.1 binding.2)
        (written table) =
      written (bindings.foldl Session.bind table) := by
  induction bindings generalizing table with
  | nil => rfl
  | cons binding bindings ih =>
    rw [List.map_cons, List.foldl_cons, List.foldl_cons, ← written_bind, ih]

end Journal

/-- The records of any calls tell every assignment that is made in them, in order, each with its
whole name and its value as it is written, and no other. So the table after the calls is the one
that their journal tells of, with its values written. -/
theorem Session.replay_journal (cs : List Call) :
    (fresh.journal cs).filterMap Record.binding? =
      (fresh.assignments (fresh.history cs)).map (fun (name, x) => (name, Numeral.write x)) ∧
    Journal.replay (fresh.journal cs) = Journal.written (fresh.calls cs).table := by
  have hbindings := bindings_journal fresh cs
  refine ⟨hbindings, ?_⟩
  rw [Journal.replay, hbindings, ← Journal.written_empty, Journal.foldl_recorded, calls_eq_foldl,
    table_foldl_next]
  rfl

end InfixCalculator
