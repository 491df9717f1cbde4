import InfixCalculator.Conversation
import InfixCalculator.Proofs.Session.Assignment

/-!
# Histories

A session is used by lines, by expressions and by whole conversations. All that they do to its table
is done by the lines that are answered, one after another.

* `Session.table_foldl_next`: the table after some lines.
* `Conversation.session_ofLines`: a conversation is the lines that it answers, however it ends.
* `Session.calls_eq_foldl`: so is a sequence of calls.
* `Session.table_history`: tables change by successful assignments alone.
-/

namespace InfixCalculator

/-! ## Lines -/

namespace Session

/-- Binds a name in a table. -/
def bind (table : Variables) (binding : String × Float) : Variables :=
  table.insert binding.1 binding.2

/-- The bindings that the successful assignments among some lines make, in order. -/
def assignments (s : Session) : List String → List (String × Float)
  | [] => []
  | line :: lines =>
    (Answer.binding? (s.answer line).result).toList ++ (s.next line).assignments lines

/-- The names in a table are as assignments make them. -/
def Keyed (s : Session) : Prop := ∀ name ∈ s.table, IsKey name

variable {s : Session} {line name : String}

theorem table_foldl_next (lines : List String) (s : Session) :
    (lines.foldl next s).table = (s.assignments lines).foldl bind s.table := by
  induction lines generalizing s with
  | nil => rfl
  | cons line lines ih =>
    rw [List.foldl_cons, ih, assignments, List.foldl_append, table_next]
    cases Answer.binding? (s.answer line).result <;> rfl

theorem mem_table_next (h : name ∈ s.table) : name ∈ (s.next line).table := by
  rw [table_next]
  cases Answer.binding? (s.answer line).result with
  | none => exact h
  | some binding => exact Std.ExtTreeMap.mem_insert.mpr (.inr h)

theorem mem_table_foldl_next (lines : List String) (h : name ∈ s.table) :
    name ∈ (lines.foldl next s).table := by
  induction lines generalizing s with
  | nil => exact h
  | cons line lines ih => exact ih (mem_table_next h)

theorem keyed_fresh : fresh.Keyed := fun _ h => absurd h Std.ExtTreeMap.not_mem_empty

/-- What holds of the names in a table, and of a name that a line binds, holds of those after the
line. -/
theorem forall_mem_table_next {P : String → Prop} (h : ∀ name ∈ s.table, P name)
    (hline : ∀ name expression, IsAssignment line name expression → P name) :
    ∀ name ∈ (s.next line).table, P name := by
  intro name hname
  rw [table_next] at hname
  cases hbinding : Answer.binding? (s.answer line).result with
  | none =>
    rw [hbinding] at hname
    exact h name hname
  | some binding =>
    obtain ⟨bound, x⟩ := binding
    rw [hbinding] at hname
    rcases Std.ExtTreeMap.mem_insert.mp hname with heq | hmem
    · obtain ⟨expression, hassignment, -⟩ :=
        answer_eq_bound_iff.mp (Answer.binding?_eq_some_iff.mp hbinding)
      rw [← Std.compare_eq_iff_eq.mp heq]
      exact hline bound expression hassignment
    · exact h name hmem

theorem Keyed.next (h : s.Keyed) (line : String) : (s.next line).Keyed :=
  forall_mem_table_next h fun _ _ hassignment => hassignment.isKey

theorem Keyed.foldl_next (h : s.Keyed) (lines : List String) : (lines.foldl Session.next s).Keyed := by
  induction lines generalizing s with
  | nil => exact h
  | cons line lines ih => exact ih (h.next line)

end Session

/-! ## Conversations -/

namespace Conversation

/-- The lines that a conversation answers. It goes on to a line if the prompt fits, and from there
to the next if the line can be decoded, its reply fits and it is not the last. -/
def answered (room : Room) (s : Session) : List (List UInt8) → List String
  | [] => []
  | bytes :: lines =>
    match room.after? (Text.encode prompt), Text.decode? bytes with
    | some room, some line =>
      line ::
        match room.after? (Text.encode (s.turn line).reply) with
        | some room => if (s.turn line).ends then [] else answered room (s.next line) lines
        | none => []
    | _, _ => []

theorem session_writing (room : Room) (text : String) (s : Session) (go : Room → Conversation) :
    (writing room text s go).session =
      match room.after? (Text.encode text) with
      | some room => (go room).session
      | none => s := by
  simp only [writing]
  cases room.after? (Text.encode text) <;> rfl

/-- A conversation does what the lines do that it answers, however it ends. -/
theorem session_ofLines (room : Room) (s : Session) (lines : List (List UInt8)) :
    (ofLines room s lines).session = (answered room s lines).foldl Session.next s := by
  induction lines generalizing room s with
  | nil =>
    rw [ofLines_nil, session_writing]
    cases room.after? (Text.encode prompt) <;> rfl
  | cons bytes lines ih =>
    rw [ofLines_cons, session_writing, answered]
    cases room.after? (Text.encode prompt) with
    | none => rfl
    | some room =>
      cases Text.decode? bytes with
      | none => rfl
      | some line =>
        refine (session_writing room (s.turn line).reply (s.turn line).session _).trans ?_
        show _ = List.foldl Session.next (s.next line) _
        cases room.after? (Text.encode (s.turn line).reply) with
        | none => rfl
        | some room =>
          show (if (s.turn line).ends then stop (.ok ()) (s.turn line).session
            else ofLines room (s.turn line).session lines).session = _
          cases (s.turn line).ends with
          | true => rfl
          | false => exact ih room (s.next line)

/-- What is answered are the first lines of the input. -/
theorem answered_isPrefix_decoded (room : Room) (s : Session) (lines : List (List UInt8)) :
    (answered room s lines).map some <+: lines.map Text.decode? := by
  induction lines generalizing room s with
  | nil => exact List.nil_prefix
  | cons bytes lines ih =>
    rw [answered]
    split
    · next room' line _ hdecode =>
      rw [List.map_cons, List.map_cons, hdecode]
      refine (List.prefix_cons_inj _).mpr ?_
      split
      · split
        · exact List.nil_prefix
        · exact ih _ _
      · exact List.nil_prefix
    · exact List.nil_prefix

end Conversation

/-! ## Calls -/

/-- One use of a session: a line, an expression, or a conversation over some bytes on a terminal. -/
inductive Call where
  | execute (line : String)
  | evaluate (expression : String)
  | converse (room : Room) (input : List UInt8)

namespace Session

/-- The session after a call. -/
def call (s : Session) : Call → Session
  | .execute line => (s.step line).2
  | .evaluate _ => s
  | .converse room input => (Conversation.ofInput room s input).session

def calls (s : Session) (cs : List Call) : Session := cs.foldl call s

/-- The lines that are answered in a call. -/
def linesOf (s : Session) : Call → List String
  | .execute line => [line]
  | .evaluate _ => []
  | .converse room input => Conversation.answered room s (Text.cutLines input)

/-- The lines that are answered in a sequence of calls. -/
def history (s : Session) : List Call → List String
  | [] => []
  | c :: cs => s.linesOf c ++ (s.call c).history cs

theorem call_eq_foldl (s : Session) (c : Call) : s.call c = (s.linesOf c).foldl next s := by
  cases c with
  | execute line => rfl
  | evaluate expression => rfl
  | converse room input => exact Conversation.session_ofLines room s (Text.cutLines input)

theorem calls_eq_foldl (s : Session) (cs : List Call) : s.calls cs = (s.history cs).foldl next s := by
  induction cs generalizing s with
  | nil => rfl
  | cons c cs ih =>
    rw [history, List.foldl_append, ← call_eq_foldl]
    exact ih (s.call c)

/-- A table changes by successful assignments alone, each with the value that its expression has in
the table before. So after any calls the table holds the assignments made in them, the last to each
name; no name is ever removed, and every name is as an assignment makes it. -/
theorem table_history :
    (∀ (s : Session) (line : String),
      (∃ name expression value, (s.step line).1.result = .ok (.bound name value) ∧
        IsAssignment line name expression ∧ (s.evaluate expression).result = .ok value ∧
        ∀ other, (s.step line).2.table[other]? =
          if other = name then some value else s.table[other]?) ∨
      (∀ name value, (s.step line).1.result ≠ .ok (.bound name value)) ∧
        (s.step line).2.table = s.table) ∧
    ∀ cs : List Call,
      (fresh.calls cs).table = (fresh.assignments (fresh.history cs)).foldl bind ∅ ∧
      (∀ cs' name, name ∈ (fresh.calls cs).table → name ∈ (fresh.calls (cs ++ cs')).table) ∧
      ∀ name ∈ (fresh.calls cs).table, IsKey name := by
  constructor
  · intro s line
    have htable := table_next s line
    cases hbinding : Answer.binding? (s.answer line).result with
    | none =>
      rw [hbinding] at htable
      refine .inr ⟨?_, htable⟩
      intro name value hbound
      have hsome := Answer.binding?_eq_some_iff.mpr hbound
      exact absurd (hbinding.symm.trans hsome) nofun
    | some binding =>
      obtain ⟨name, value⟩ := binding
      rw [hbinding] at htable
      have hbound := Answer.binding?_eq_some_iff.mp hbinding
      obtain ⟨expression, hline, hvalue⟩ := answer_eq_bound_iff.mp hbound
      refine .inl ⟨name, expression, value, hbound, hline, hvalue, ?_⟩
      intro other
      show (s.next line).table[other]? = _
      rw [htable, Std.ExtTreeMap.getElem?_insert]
      simp only [Std.compare_eq_iff_eq, eq_comm (a := name)]
  · intro cs
    refine ⟨?_, ?_, ?_⟩
    · rw [calls_eq_foldl, table_foldl_next]
      rfl
    · intro cs' name hname
      have happend : fresh.calls (cs ++ cs') = (fresh.calls cs).calls cs' := List.foldl_append
      rw [happend, calls_eq_foldl (fresh.calls cs)]
      exact mem_table_foldl_next _ hname
    · rw [calls_eq_foldl]
      exact keyed_fresh.foldl_next _

end Session

end InfixCalculator
