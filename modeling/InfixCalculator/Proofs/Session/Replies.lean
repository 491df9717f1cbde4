import InfixCalculator.Proofs.Infix.Faults
import InfixCalculator.Proofs.Infix.Names
import InfixCalculator.Proofs.Numeral.Written
import InfixCalculator.Proofs.Session.Dialogue
import InfixCalculator.Proofs.Text.Newlines

/-!
# Replies are lines

What a conversation shows is cut into lines by its replies alone. A line that was cut out of an input
has no newline left once it is trimmed; so neither has the name that it assigns, and a fault names
only what has the shape of an identifier. Every reply is therefore one line, except that a blank line
has none, and the prompts before it stand on that line too.

* `unbroken_text_answer`, `unbroken_message_of_evaluate`: answers and faults have no newline.
* `Session.exists_reply`: the reply to a line that is not blank.
* `Session.Unbroken.converse`, `Session.Unbroken.calls`: the names in a table after conversations.
* `Session.count_newline_dialogue`, `Session.between_newlines`: the newlines of a dialogue.
* `Conversation.ofInput_newlines`: the newlines of a conversation.
-/

namespace InfixCalculator

open Text (Unbroken newline encode)

/-- The line is not blank. -/
def IsSpoken (line : String) : Prop := Text.trim line ≠ ""

instance (line : String) : Decidable (IsSpoken line) := inferInstanceAs (Decidable (_ ≠ _))

/-! ## Texts of answers and faults -/

theorem unbroken_write (x : Float) : Unbroken (Numeral.write x) :=
  Text.unbroken_of_forall rfl (Numeral.isWritten_of_mem_write x)

theorem unbroken_of_isName {name : String} (h : Token.isName name.toList) : Unbroken name := by
  refine Text.unbroken_of_forall (p := Token.isNameRest) rfl ?_
  cases hname : name.toList with
  | nil => nofun
  | cons c cs =>
    rw [hname, Token.isName, Bool.and_eq_true, List.all_eq_true] at h
    exact List.forall_mem_cons.mpr ⟨Token.isNameRest_of_isNameStart h.1, h.2⟩

/-- A name is a part of the line that assigns it. -/
theorem IsAssignment.unbroken {line name expression : String}
    (h : IsAssignment line name expression) (hline : Unbroken (Text.trim line)) :
    Unbroken name := by
  obtain ⟨left, right, hsplit, -, -, rfl, -⟩ := h
  rw [Text.unbroken_ofList]
  intro hmem
  refine hline ?_
  rw [hsplit]
  exact List.mem_append_left _ (Text.mem_of_mem_trimChars hmem)

namespace Session

variable {s : Session} {line : String}

/-- A fault of an expression names an identifier or nothing. -/
theorem unbroken_message_of_evaluate {expression : String} {fault : Fault}
    (h : (s.evaluate expression).result = .error fault) : Unbroken fault.message := by
  rcases fault_cases h with ⟨t, hfind, rfl⟩ | ⟨-, rfl⟩
  · obtain ⟨kind, name⟩ := t
    have hmem := List.mem_of_find?_eq_some hfind
    have hunbound : IsUnbound s.table ⟨kind, name⟩ := by simpa using List.find?_some hfind
    obtain rfl : kind = .identifier := hunbound.1
    have hname : Unbroken name := unbroken_of_isName (Token.isName_of_mem_tokenize hmem)
    have hbefore : Unbroken "unknown variable, '" := by decide
    have hafter : Unbroken "'" := by decide
    exact (hbefore.append hname).append hafter
  · exact (by decide : Unbroken "not enough operands on the stack")

/-- An answer is the text of a value, with the name before it if there is one, or a fixed text. -/
theorem unbroken_text_answer (hline : Unbroken (Text.trim line)) {answer : Answer}
    (h : (s.answer line).result = .ok answer) : Unbroken answer.text := by
  cases answer with
  | farewell => exact (by decide : Unbroken "Session finished.")
  | silence => exact (by decide : Unbroken "")
  | malformed => exact (by decide : Unbroken "Malformed assignment.")
  | value x =>
    have hbefore : Unbroken "Result: " := by decide
    exact hbefore.append (unbroken_write x)
  | bound name x =>
    obtain ⟨expression, hassignment, -⟩ := answer_eq_bound_iff.mp h
    have hmiddle : Unbroken " = " := by decide
    exact ((hassignment.unbroken hline).append hmiddle).append (unbroken_write x)

/-- A fault of a line is one of its expression. -/
theorem exists_evaluate_of_answer {fault : Fault} (h : (s.answer line).result = .error fault) :
    ∃ expression, (s.evaluate expression).result = .error fault := by
  rw [result_answer] at h
  cases hcommand : Command.ofLine line with
  | leave => simp [hcommand] at h
  | nothing => simp [hcommand] at h
  | malformed => simp [hcommand] at h
  | assign name expression =>
    refine ⟨expression, ?_⟩
    cases hvalue : (s.evaluate expression).result <;> simp_all [Except.map]
  | evaluate expression =>
    refine ⟨expression, ?_⟩
    cases hvalue : (s.evaluate expression).result <;> simp_all [Except.map]

/-- The reply to a line that is not blank is one line. -/
theorem exists_reply (s : Session) (hline : Unbroken (Text.trim line)) (hspoken : IsSpoken line) :
    ∃ text, s.reply line = text ++ "\n" ∧ Unbroken text := by
  unfold reply
  by_cases hleave : Command.IsLeave line
  · rw [if_pos hleave]
    exact ⟨"Session finished.", rfl, by decide⟩
  · rw [if_neg hleave, if_neg hspoken]
    cases hresult : (s.step line).1.result with
    | ok answer => exact ⟨answer.text, rfl, unbroken_text_answer hline hresult⟩
    | error fault =>
      obtain ⟨expression, hfault⟩ := exists_evaluate_of_answer hresult
      have hbefore : Unbroken "Error, " := by decide
      exact ⟨_, rfl, hbefore.append (unbroken_message_of_evaluate hfault)⟩

theorem reply_of_not_isSpoken (s : Session) (hblank : ¬ IsSpoken line) : s.reply line = "" := by
  have hblank : Text.trim line = "" := Decidable.not_not.mp hblank
  have hleave : ¬ Command.IsLeave line := by
    rw [Command.IsLeave, hblank]
    decide
  rw [reply, if_neg hleave, if_pos hblank]

/-! ## The names in a table -/

/-- No name in the table has a newline. -/
def Unbroken (s : Session) : Prop := ∀ name ∈ s.table, Text.Unbroken name

theorem unbroken_fresh : fresh.Unbroken := fun _ h => absurd h Std.ExtTreeMap.not_mem_empty

theorem Unbroken.next (h : s.Unbroken) (hline : Text.Unbroken (Text.trim line)) :
    (s.next line).Unbroken :=
  forall_mem_table_next h fun _ _ hassignment => hassignment.unbroken hline

theorem Unbroken.foldl_next {lines : List String} (h : s.Unbroken)
    (hlines : ∀ line ∈ lines, Text.Unbroken (Text.trim line)) :
    (lines.foldl Session.next s).Unbroken := by
  induction lines generalizing s with
  | nil => exact h
  | cons line lines ih =>
    obtain ⟨hline, hlines⟩ := List.forall_mem_cons.mp hlines
    exact ih (h.next hline) hlines

end Session

/-- The lines that a conversation answers have no newline left, on any terminal. -/
theorem Conversation.unbroken_of_mem_answered {room : Room} {s : Session} {input : List UInt8}
    {line : String} (h : line ∈ answered room s (Text.cutLines input)) :
    Unbroken (Text.trim line) := by
  have hmem : some line ∈ (Text.cutLines input).map Text.decode? :=
    (answered_isPrefix_decoded room s (Text.cutLines input)).subset (List.mem_map_of_mem h)
  obtain ⟨bytes, hbytes, hdecode⟩ := List.mem_map.mp hmem
  rw [Text.decode?_eq_some_iff.mp hdecode] at hbytes
  exact Text.unbroken_trim_of_isCut (Text.isCut_cutLines input) hbytes

namespace Session

variable {s : Session}

theorem Unbroken.converse (h : s.Unbroken) (room : Room) (input : List UInt8) :
    (Conversation.ofInput room s input).session.Unbroken := by
  rw [show (Conversation.ofInput room s input).session = _ from
    Conversation.session_ofLines room s (Text.cutLines input)]
  exact h.foldl_next fun _ => Conversation.unbroken_of_mem_answered

/-- Conversations never leave a name with a newline behind. -/
theorem Unbroken.calls (h : s.Unbroken) (runs : List (Room × List UInt8)) :
    (s.calls (runs.map fun run => .converse run.1 run.2)).Unbroken := by
  induction runs generalizing s with
  | nil => exact h
  | cons run runs ih => exact ih (h.converse run.1 run.2)

/-! ## The newlines of a dialogue -/

theorem newline_not_mem_prompt : newline ∉ encode Conversation.prompt := by
  rw [Text.newline_not_mem_encode_iff]
  decide

/-- Some prompts in a row. -/
def prompts (n : Nat) : List UInt8 := (List.replicate n (encode Conversation.prompt)).flatten

theorem prompts_succ (n : Nat) : prompts (n + 1) = prompts n ++ encode Conversation.prompt := by
  rw [prompts, List.replicate_succ', List.flatten_append, List.flatten_singleton, prompts]

theorem newline_not_mem_prompts (n : Nat) : newline ∉ prompts n := by
  intro hmem
  obtain ⟨bytes, hbytes, hnewline⟩ := List.mem_flatten.mp hmem
  rw [List.eq_of_mem_replicate hbytes] at hnewline
  exact newline_not_mem_prompt hnewline

theorem encode_newline (text : String) : encode (text ++ "\n") = encode text ++ [newline] := by
  rw [Text.encode_append]
  rfl

/-- There are as many newlines in a dialogue as lines in it that are not blank. -/
theorem count_newline_dialogue (s : Session) {lines : List String}
    (hlines : ∀ line ∈ lines, Text.Unbroken (Text.trim line)) :
    (s.dialogue lines).count newline = lines.countP fun line => IsSpoken line := by
  induction lines generalizing s with
  | nil => rfl
  | cons line lines ih =>
    obtain ⟨hline, hlines⟩ := List.forall_mem_cons.mp hlines
    rw [dialogue, List.count_append, List.count_append, List.count_eq_zero.mpr newline_not_mem_prompt,
      ih _ hlines, List.countP_cons]
    by_cases hspoken : IsSpoken line
    · obtain ⟨text, hreply, htext⟩ := s.exists_reply hline hspoken
      rw [hreply, encode_newline, List.count_append,
        List.count_eq_zero.mpr (Text.newline_not_mem_encode_iff.mpr htext), List.count_singleton_self,
        if_pos (decide_eq_true hspoken)]
      omega
    · rw [s.reply_of_not_isSpoken hspoken, if_neg (by simpa using hspoken)]
      show 0 + 0 + _ = _
      omega

/-- What is shown between two newlines, or before the first one, is prompts and the reply to one
line. Some prompts may have been shown before, for blank lines. -/
theorem between_newlines (s : Session) {lines : List String}
    (hlines : ∀ line ∈ lines, Text.Unbroken (Text.trim line)) {last : List UInt8}
    (hlast : newline ∉ last) (shown : Nat) {before middle after : List UInt8}
    (h : prompts shown ++ (s.dialogue lines ++ last) = before ++ (middle ++ newline :: after))
    (hbefore : Text.IsWhole before) (hmiddle : newline ∉ middle) :
    ∃ earlier line later text n, lines = earlier ++ line :: later ∧ IsSpoken line ∧
      (earlier.countP fun line => IsSpoken line) = before.count newline ∧
      (earlier.foldl next s).reply line = text ++ "\n" ∧ 0 < n ∧
      middle = prompts n ++ encode text := by
  induction lines generalizing s shown before with
  | nil =>
    -- there is no newline at all
    have hnot : newline ∉ prompts shown ++ (s.dialogue [] ++ last) :=
      List.not_mem_append (newline_not_mem_prompts shown) hlast
    rw [h] at hnot
    exact absurd (by simp) hnot
  | cons line lines ih =>
    obtain ⟨hline, hlines⟩ := List.forall_mem_cons.mp hlines
    by_cases hspoken : IsSpoken line
    · obtain ⟨text, hreply, htext⟩ := s.exists_reply hline hspoken
      have hfirst : newline ∉ prompts (shown + 1) ++ encode text :=
        List.not_mem_append (newline_not_mem_prompts _) (Text.newline_not_mem_encode_iff.mpr htext)
      have houtput : prompts shown ++ (s.dialogue (line :: lines) ++ last) =
          (prompts (shown + 1) ++ encode text) ++
            newline :: ((s.next line).dialogue lines ++ last) := by
        rw [dialogue, hreply, encode_newline, prompts_succ]
        simp only [List.append_assoc, List.cons_append, List.nil_append]
      rw [houtput] at h
      by_cases hempty : before = []
      · -- this is the first newline
        subst hempty
        obtain ⟨rfl, -⟩ := Text.first_newline_unique hfirst hmiddle h
        exact ⟨[], line, lines, text, shown + 1, rfl, hspoken, rfl, hreply, Nat.succ_pos shown, rfl⟩
      · obtain ⟨body, rest, rfl, hbody, hrest⟩ := Text.exists_first_line hbefore hempty
        rw [List.append_assoc body] at h
        obtain ⟨-, htail⟩ := Text.first_newline_unique hfirst hbody h
        obtain ⟨earlier, line', later, text', n, rfl, hspoken', hcount, hreply', hn, hmiddle'⟩ :=
          ih (s.next line) hlines 0 htail hrest
        refine ⟨line :: earlier, line', later, text', n, rfl, hspoken', ?_, hreply', hn, hmiddle'⟩
        rw [List.countP_cons, if_pos (decide_eq_true hspoken), hcount, List.count_append,
          List.count_eq_zero.mpr hbody, List.count_cons_self, Nat.zero_add]
    · have houtput : prompts shown ++ (s.dialogue (line :: lines) ++ last) =
          prompts (shown + 1) ++ ((s.next line).dialogue lines ++ last) := by
        rw [dialogue, s.reply_of_not_isSpoken hspoken, prompts_succ]
        simp only [List.append_assoc]
        rfl
      rw [houtput] at h
      obtain ⟨earlier, line', later, text', n, rfl, hspoken', hcount, hreply', hn, hmiddle'⟩ :=
        ih (s.next line) hlines (shown + 1) h hbefore
      refine ⟨line :: earlier, line', later, text', n, rfl, hspoken', ?_, hreply', hn, hmiddle'⟩
      rw [List.countP_cons, if_neg (by simpa using hspoken), hcount, Nat.add_zero]

end Session

/-! ## Conversations -/

/-- After the last reply at most a prompt is shown. -/
theorem Finish.newline_not_mem_last {lines : List String} {rest : List (List UInt8)}
    {ending : Ending} {last : List UInt8} (h : Finish lines rest ending last) : newline ∉ last := by
  cases h with
  | left => exact List.not_mem_nil
  | exhausted => exact Session.newline_not_mem_prompt
  | undecodable => exact Session.newline_not_mem_prompt

namespace Conversation

open Session (prompts)

/-- The newlines of a conversation on a terminal that takes everything, in a session to which
conversations of any kind have led. No name in the table has a newline, before or afterwards. There
are as many newlines in the output as lines were answered that are not blank, each such line having
one line for a reply, and what stands before a newline, back to the one before it or to the
beginning, is one prompt or more and then the reply to one of these lines, in their order. -/
theorem ofInput_newlines (runs : List (Room × List UInt8)) (input : List UInt8) :
    let s := Session.fresh.calls (runs.map fun run => .converse run.1 run.2)
    s.Unbroken ∧ (ofInput none s input).session.Unbroken ∧
    ∃ (lines : List String) (rest : List (List UInt8)) (last : List UInt8),
      Text.IsCut input (lines.map encode ++ rest) ∧
      Finish lines rest (ofInput none s input).ending last ∧
      (ofInput none s input).session = lines.foldl Session.next s ∧
      (ofInput none s input).output.count newline = (lines.countP fun line => IsSpoken line) ∧
      (∀ earlier line later, lines = earlier ++ line :: later → IsSpoken line →
        ∃ text, (earlier.foldl Session.next s).reply line = text ++ "\n" ∧ Unbroken text) ∧
      ∀ before middle after,
        (ofInput none s input).output = before ++ (middle ++ newline :: after) →
        Text.IsWhole before → newline ∉ middle →
        ∃ earlier line later text n, lines = earlier ++ line :: later ∧ IsSpoken line ∧
          (earlier.countP fun line => IsSpoken line) = before.count newline ∧
          (earlier.foldl Session.next s).reply line = text ++ "\n" ∧ 0 < n ∧
          middle = prompts n ++ encode text := by
  intro s
  have hs : s.Unbroken := Session.unbroken_fresh.calls runs
  refine ⟨hs, hs.converse none input, ?_⟩
  obtain ⟨rest, last, hcut, hfinish, houtput⟩ := exists_finish_ofInput s input
  have hlines : ∀ line ∈ answered none s (Text.cutLines input), Unbroken (Text.trim line) :=
    fun _ => unbroken_of_mem_answered
  have hlast := hfinish.newline_not_mem_last
  refine ⟨_, rest, last, hcut, hfinish, session_ofLines none s _, ?_, ?_, ?_⟩
  · rw [houtput, List.count_append, List.count_eq_zero.mpr hlast]
    exact s.count_newline_dialogue hlines
  · intro earlier line later hsplit hspoken
    refine Session.exists_reply _ (hlines line ?_) hspoken
    rw [hsplit]
    exact List.mem_append_right _ List.mem_cons_self
  · intro before middle after hshown hbefore hmiddle
    rw [houtput] at hshown
    exact s.between_newlines hlines hlast 0 hshown hbefore hmiddle

/-- A carriage return in a name is shown, and blank lines leave their prompts on the next line. -/
example :
    (ofInput none .fresh (Text.encode "a\rb = 1\n\n \ny\n")).output =
      Text.encode "> a\rb = 1.0\n> > > Error, unknown variable, 'y'\n> " := by decide +kernel

end Conversation

end InfixCalculator
