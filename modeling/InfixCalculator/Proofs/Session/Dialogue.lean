import InfixCalculator.Proofs.Session.History
import InfixCalculator.Proofs.Text.Lines

/-!
# Dialogues

On a terminal that takes everything, a conversation shows a prompt before each line and a reply after
it, and each line is answered by the session to which the lines before it have led. It is over after
a line that asks to leave, at a line that is no text, or at the end of the input, and what comes
later in the input has no part in it.

* `Session.reply`, `Session.dialogue`: what is said to a line, and what is shown for some lines.
* `Finish`: how a conversation that has answered some lines comes to its end.
* `Conversation.exists_finish`: a conversation over lines is the dialogue of those it answers.
* `Conversation.ofLines_eq_of_endsAt`: nothing matters after a line that ends the conversation.
* `Conversation.ofInput_dialogue`: the conversation over an input.
-/

namespace InfixCalculator

/-! ## Lines that are not evaluated -/

namespace Command

variable {line : String}

/-- Trimmed, the line is the word `exit`, in any letter case. -/
def IsLeave (line : String) : Prop := (Text.trim line).toList.map Char.toLower = "exit".toList

instance (line : String) : Decidable (IsLeave line) := inferInstanceAs (Decidable (_ = _))

theorem ofTrimmed_ne (cs : List Char) : ofTrimmed cs ≠ .leave ∧ ofTrimmed cs ≠ .nothing := by
  fun_cases ofTrimmed cs <;> simp

theorem ofLine_eq_leave_iff : ofLine line = .leave ↔ IsLeave line := by
  rw [IsLeave, Text.toList_trim]
  fun_cases ofLine line with
  | case1 cs hleave => exact iff_of_true rfl hleave
  | case2 cs hleave hblank => exact iff_of_false nofun hleave
  | case3 cs hleave hblank => exact iff_of_false (ofTrimmed_ne cs).1 hleave

theorem ofLine_eq_nothing_iff : ofLine line = .nothing ↔ Text.trim line = "" := by
  rw [← String.toList_inj, Text.toList_trim]
  fun_cases ofLine line with
  | case1 cs hleave =>
    refine iff_of_false nofun fun hblank => ?_
    rw [show cs = [] from hblank] at hleave
    cases hleave
  | case2 cs hleave hblank => exact iff_of_true rfl hblank
  | case3 cs hleave hblank => exact iff_of_false (ofTrimmed_ne cs).2 hblank

end Command

open Command (IsLeave)

/-! ## Replies -/

namespace Session

/-- What is said to a line. A blank line is told nothing, any other is told one line: the last word
of the session, an answer, or what went wrong. -/
def reply (s : Session) (line : String) : String :=
  if IsLeave line then "Session finished.\n"
  else if Text.trim line = "" then ""
  else
    match (s.step line).1.result with
    | .ok answer => answer.text ++ "\n"
    | .error fault => "Error, " ++ fault.message ++ "\n"

/-- What is shown for some lines, each answered by the session that the lines before it led to. -/
def dialogue (s : Session) : List String → List UInt8
  | [] => []
  | line :: lines =>
    Text.encode Conversation.prompt ++ Text.encode (s.reply line) ++ (s.next line).dialogue lines

/-- The two answers that only a line that asks to leave and a blank line have. -/
theorem answer_eq_iff (s : Session) (line : String) :
    ((s.answer line).result = .ok .farewell ↔ IsLeave line) ∧
      ((s.answer line).result = .ok .silence ↔ Text.trim line = "") := by
  rw [← Command.ofLine_eq_leave_iff, ← Command.ofLine_eq_nothing_iff, result_answer]
  cases Command.ofLine line with
  | leave => simp
  | nothing => simp
  | malformed => simp
  | assign name expression =>
    cases hvalue : (s.evaluate expression).result <;> simp [hvalue, Except.map]
  | evaluate expression =>
    cases hvalue : (s.evaluate expression).result <;> simp [hvalue, Except.map]

@[simp] theorem reply_turn (s : Session) (line : String) : (s.turn line).reply = s.reply line := by
  obtain ⟨hfarewell, hsilence⟩ := s.answer_eq_iff line
  show Turn.replyTo (s.answer line).result = s.reply line
  unfold reply
  by_cases hleave : IsLeave line
  · rw [if_pos hleave, hfarewell.mpr hleave]
    rfl
  · rw [if_neg hleave]
    by_cases hblank : Text.trim line = ""
    · rw [if_pos hblank, hsilence.mpr hblank]
      rfl
    · rw [if_neg hblank]
      have hne := mt hsilence.mp hblank
      show _ = match (s.answer line).result with
        | .ok answer => answer.text ++ "\n"
        | .error fault => "Error, " ++ fault.message ++ "\n"
      revert hne
      fun_cases Turn.replyTo (s.answer line).result <;> simp_all

@[simp] theorem ends_turn (s : Session) (line : String) :
    (s.turn line).ends = decide (IsLeave line) := by
  have hfarewell := (s.answer_eq_iff line).1
  show Turn.isLast (s.answer line).result = _
  by_cases hleave : IsLeave line
  · rw [hfarewell.mpr hleave, decide_eq_true hleave]
    rfl
  · have hne := mt hfarewell.mp hleave
    rw [decide_eq_false hleave]
    revert hne
    fun_cases Turn.isLast (s.answer line).result <;> simp_all

@[simp] theorem session_turn (s : Session) (line : String) : (s.turn line).session = s.next line :=
  rfl

end Session

/-! ## How a conversation ends -/

/-- How a conversation that has answered some lines comes to its end before the others, and what is
shown last: a line asked to leave, or after one more prompt there is no line, or none that is
text. -/
inductive Finish : List String → List (List UInt8) → Ending → List UInt8 → Prop
  | left {lines : List String} {line : String} {rest : List (List UInt8)}
      (hlines : ∀ line ∈ lines, ¬ IsLeave line) (hline : IsLeave line) :
      Finish (lines ++ [line]) rest (.ok ()) []
  | exhausted {lines : List String} (hlines : ∀ line ∈ lines, ¬ IsLeave line) :
      Finish lines [] (.ok ()) (Text.encode Conversation.prompt)
  | undecodable {lines : List String} {bytes : List UInt8} {rest : List (List UInt8)}
      (hlines : ∀ line ∈ lines, ¬ IsLeave line) (hbytes : Text.decode? bytes = none) :
      Finish lines (bytes :: rest) (.error .invalidUtf8) (Text.encode Conversation.prompt)

theorem Finish.cons {line : String} (hline : ¬ IsLeave line) {lines : List String}
    {rest : List (List UInt8)} {ending : Ending} {last : List UInt8}
    (h : Finish lines rest ending last) : Finish (line :: lines) rest ending last := by
  have hcons : ∀ {lines : List String}, (∀ line ∈ lines, ¬ IsLeave line) →
      ∀ line' ∈ line :: lines, ¬ IsLeave line' := fun hlines =>
    List.forall_mem_cons.mpr ⟨hline, hlines⟩
  cases h with
  | left hlines hlast => exact Finish.left (hcons hlines) hlast
  | exhausted hlines => exact .exhausted (hcons hlines)
  | undecodable hlines hbytes => exact .undecodable (hcons hlines) hbytes

/-- A conversation that breaks off does so at a line that is no text. -/
theorem Finish.of_error {lines : List String} {rest : List (List UInt8)} {fault : TerminalFault}
    {last : List UInt8} (h : Finish lines rest (.error fault) last) :
    fault = .invalidUtf8 ∧ (∀ line ∈ lines, ¬ IsLeave line) ∧
      ∃ bytes rest', rest = bytes :: rest' ∧ Text.decode? bytes = none := by
  cases h with
  | undecodable hlines hbytes => exact ⟨rfl, hlines, _, _, rfl, hbytes⟩

theorem Ending.status_eq_one_iff {ending : Ending} :
    ending.status = 1 ↔ ∃ fault, ending = .error fault := by
  cases ending with
  | ok => exact iff_of_false (show (0 : UInt32) ≠ 1 by decide) nofun
  | error fault => exact iff_of_true rfl ⟨fault, rfl⟩

namespace Conversation

/-- The line asks to leave or is no text. -/
def EndsAt (bytes : List UInt8) : Prop := ∀ line, Text.decode? bytes = some line → IsLeave line

/-! ## Lines -/

theorem ofLines_none_nil (s : Session) : ofLines none s [] = ⟨Text.encode prompt, .ok (), s, []⟩ := by
  simp [ofLines_nil, writing, Room.after?, Room.shown, stop, after]

theorem ofLines_none_undecodable {bytes : List UInt8} (h : Text.decode? bytes = none) (s : Session)
    (rest : List (List UInt8)) :
    ofLines none s (bytes :: rest) = ⟨Text.encode prompt, .error .invalidUtf8, s, []⟩ := by
  simp [ofLines_cons, writing, Room.after?, Room.shown, stop, after, h]

theorem ofLines_none_leave {line : String} (h : IsLeave line) (s : Session)
    (rest : List (List UInt8)) :
    ofLines none s (Text.encode line :: rest) =
      ⟨Text.encode prompt ++ Text.encode (s.reply line), .ok (), s.next line, (s.turn line).log⟩ := by
  simp [ofLines_cons, writing, Room.after?, Room.shown, stop, after, h]

theorem ofLines_none_stay {line : String} (h : ¬ IsLeave line) (s : Session)
    (rest : List (List UInt8)) :
    ofLines none s (Text.encode line :: rest) =
      (ofLines none (s.next line) rest).after
        (Text.encode prompt ++ Text.encode (s.reply line)) (s.turn line).log := by
  simp [ofLines_cons, writing, Room.after?, Room.shown, after, h]

theorem answered_none_undecodable {bytes : List UInt8} (h : Text.decode? bytes = none) (s : Session)
    (rest : List (List UInt8)) : answered none s (bytes :: rest) = [] := by
  simp [answered, Room.after?, h]

theorem answered_none_leave {line : String} (h : IsLeave line) (s : Session)
    (rest : List (List UInt8)) : answered none s (Text.encode line :: rest) = [line] := by
  simp [answered, Room.after?, h]

theorem answered_none_stay {line : String} (h : ¬ IsLeave line) (s : Session)
    (rest : List (List UInt8)) :
    answered none s (Text.encode line :: rest) = line :: answered none (s.next line) rest := by
  simp [answered, Room.after?, h]

/-- The lines answered are the first ones, and what is shown is their dialogue with its end. -/
theorem exists_finish (s : Session) (lines : List (List UInt8)) :
    ∃ rest last, lines = (answered none s lines).map Text.encode ++ rest ∧
      Finish (answered none s lines) rest (ofLines none s lines).ending last ∧
      (ofLines none s lines).output = s.dialogue (answered none s lines) ++ last := by
  induction lines generalizing s with
  | nil =>
    rw [ofLines_none_nil]
    exact ⟨[], _, rfl, .exhausted nofun, rfl⟩
  | cons bytes lines ih =>
    cases hdecode : Text.decode? bytes with
    | none =>
      rw [ofLines_none_undecodable hdecode, answered_none_undecodable hdecode]
      exact ⟨bytes :: lines, _, rfl, .undecodable nofun hdecode, rfl⟩
    | some line =>
      obtain rfl := Text.decode?_eq_some_iff.mp hdecode
      by_cases hleave : IsLeave line
      · rw [ofLines_none_leave hleave, answered_none_leave hleave]
        exact ⟨lines, [], rfl, @Finish.left [] line lines nofun hleave, by simp [Session.dialogue]⟩
      · obtain ⟨rest, last, hlines, hfinish, houtput⟩ := ih (s.next line)
        rw [ofLines_none_stay hleave, answered_none_stay hleave]
        refine ⟨rest, last, congrArg (_ :: ·) hlines, hfinish.cons hleave, ?_⟩
        simp only [after, Session.dialogue, houtput, List.append_assoc]

theorem ending_of_undecodable {lines : List String} (hlines : ∀ line ∈ lines, ¬ IsLeave line)
    {bytes : List UInt8} (hbytes : Text.decode? bytes = none) (s : Session)
    (rest : List (List UInt8)) :
    (ofLines none s (lines.map Text.encode ++ bytes :: rest)).ending = .error .invalidUtf8 := by
  induction lines generalizing s with
  | nil =>
    rw [List.map_nil, List.nil_append, ofLines_none_undecodable hbytes]
  | cons line lines ih =>
    obtain ⟨hline, hlines⟩ := List.forall_mem_cons.mp hlines
    rw [List.map_cons, List.cons_append, ofLines_none_stay hline]
    exact ih hlines (s.next line)

/-- A line that ends the conversation is the last one that matters, on any terminal. -/
theorem ofLines_eq_of_endsAt {bytes : List UInt8} (h : EndsAt bytes) (room : Room) (s : Session)
    (lines rest : List (List UInt8)) :
    ofLines room s (lines ++ bytes :: rest) = ofLines room s (lines ++ [bytes]) := by
  induction lines generalizing room s with
  | nil =>
    rw [List.nil_append, List.nil_append, ofLines_cons, ofLines_cons]
    cases hdecode : Text.decode? bytes with
    | none => rfl
    | some line => simp only [Session.ends_turn, decide_eq_true (h line hdecode), if_true]
  | cons first lines ih =>
    rw [List.cons_append, List.cons_append, ofLines_cons, ofLines_cons]
    simp only [ih]

/-! ## Inputs -/

/-- The conversation over an input is that over its lines. -/
theorem exists_finish_ofInput (s : Session) (input : List UInt8) :
    ∃ rest last,
      Text.IsCut input ((answered none s (Text.cutLines input)).map Text.encode ++ rest) ∧
      Finish (answered none s (Text.cutLines input)) rest (ofInput none s input).ending last ∧
      (ofInput none s input).output = s.dialogue (answered none s (Text.cutLines input)) ++ last := by
  obtain ⟨rest, last, hlines, hfinish, houtput⟩ := exists_finish s (Text.cutLines input)
  refine ⟨rest, last, ?_, hfinish, houtput⟩
  rw [← hlines]
  exact Text.isCut_cutLines input

/-- The conversation over an input on a terminal that takes everything. The lines that it answers
are the first ones of the input, up to the one that asks to leave or to the first that is no text;
what it shows is their dialogue with its end, and the session is the one to which they lead. What
comes after a line that ends it changes nothing. The exit status tells whether a line was no
text. -/
theorem ofInput_dialogue (s : Session) (input : List UInt8) :
    (∃ (lines : List String) (rest : List (List UInt8)) (last : List UInt8),
      Text.IsCut input (lines.map Text.encode ++ rest) ∧
      Finish lines rest (ofInput none s input).ending last ∧
      (ofInput none s input).output = s.dialogue lines ++ last ∧
      (ofInput none s input).session = lines.foldl Session.next s) ∧
    (∀ fault, (ofInput none s input).ending = .error fault →
      fault.message = "could not talk to the terminal: stream did not contain valid UTF-8") ∧
    (∀ room before body after, Text.IsWhole before → Text.newline ∉ body →
      EndsAt (body ++ [Text.newline]) →
      ofInput room s (before ++ (body ++ Text.newline :: after)) =
        ofInput room s (before ++ (body ++ [Text.newline]))) ∧
    ((ofInput none s input).ending.status = 1 ↔
      ∃ (lines : List String) (bytes : List UInt8) (rest : List (List UInt8)),
        Text.IsCut input (lines.map Text.encode ++ bytes :: rest) ∧
        (∀ line ∈ lines, ¬ IsLeave line) ∧ Text.decode? bytes = none) ∧
    ((ofInput none s input).ending.status ≠ 1 → (ofInput none s input).ending.status = 0) := by
  obtain ⟨rest, last, hcut, hfinish, houtput⟩ := exists_finish_ofInput s input
  refine ⟨⟨_, rest, last, hcut, hfinish, houtput, session_ofLines none s _⟩, ?_, ?_, ?_, ?_⟩
  · intro fault hfault
    rw [hfault] at hfinish
    rw [hfinish.of_error.1]
    rfl
  · intro room before body after hbefore hbody hends
    have hwhole : ∀ after, Text.cutLines (before ++ (body ++ Text.newline :: after)) =
        Text.cutLines before ++ (body ++ [Text.newline]) :: Text.cutLines after := by
      intro after
      rw [Text.cutLines_append hbefore, Text.cutLines_line hbody]
    simp only [ofInput, hwhole, ofLines_eq_of_endsAt hends room s _ (Text.cutLines _)]
  · rw [Ending.status_eq_one_iff]
    constructor
    · intro h
      obtain ⟨fault, hfault⟩ := h
      rw [hfault] at hfinish
      obtain ⟨-, hstay, bytes, rest', rfl, hbytes⟩ := hfinish.of_error
      exact ⟨_, bytes, rest', hcut, hstay, hbytes⟩
    · intro h
      obtain ⟨lines, bytes, rest, hcut, hstay, hbytes⟩ := h
      refine ⟨.invalidUtf8, ?_⟩
      show (ofLines none s (Text.cutLines input)).ending = _
      rw [hcut.cutLines_eq]
      exact ending_of_undecodable hstay hbytes s rest
  · intro hstatus
    cases h : (ofInput none s input).ending with
    | ok => rfl
    | error fault => exact absurd (Ending.status_eq_one_iff.mpr ⟨fault, h⟩) hstatus

/-- A blank line has no reply, and what comes after the last line need not be text. -/
example :
    (ofInput none .fresh (Text.encode "x = 5\n\n eXit\r\n" ++ [0xFF])).output =
      Text.encode "> x = 5.0\n> > Session finished.\n" := by decide +kernel

end Conversation

end InfixCalculator
