import InfixCalculator.Proofs.Session.Dialogue

/-!
# Conversations that break off

A terminal that takes only so many bytes sees the beginning of the conversation that it would see
without a limit. If that does not fit, the conversation breaks off with the first byte too many, in
a prompt or in a reply; by then the lines before which the prompt still fitted have been executed,
and no others.

* `Truncated`: one conversation is what a limit makes of another.
* `Conversation.truncated_ofLines`: limits do nothing else.
* `Conversation.exists_reached`: the lines that are executed under a limit.
* `Conversation.ofInput_truncated`: the conversation over an input under a limit.
-/

namespace InfixCalculator

open Command (IsLeave)

/-- The second conversation is what becomes of the first one on a terminal that takes only so many
bytes. -/
structure Truncated (limit : Nat) (full cut : Conversation) : Prop where
  fits : full.output.length ≤ limit → cut = full
  breaks : limit < full.output.length →
    cut.ending = .error .closed ∧ cut.output = full.output.take limit

namespace Truncated

variable {limit : Nat} {full cut : Conversation} {s : Session}

theorem stop (ending : Ending) (s : Session) :
    Truncated limit (Conversation.stop ending s) (Conversation.stop ending s) :=
  ⟨fun _ => rfl, fun h => absurd h (Nat.not_lt_zero limit)⟩

/-- Records written before do not matter. -/
theorem after_log (h : Truncated limit full cut) (log : List Journal.Record) :
    Truncated limit (full.after [] log) (cut.after [] log) :=
  ⟨fun hfits => congrArg (Conversation.after [] log) (h.fits hfits), fun hbreaks => h.breaks hbreaks⟩

/-- Writing a text leaves so much less room for what follows. -/
theorem writing {next : Room → Conversation}
    (h : ∀ rest, Truncated rest (next none) (next (some rest))) (text : String) :
    Truncated limit (Conversation.writing none text s next)
      (Conversation.writing (some limit) text s next) := by
  have hfull : Conversation.writing none text s next = (next none).after (Text.encode text) [] := rfl
  by_cases hroom : (Text.encode text).length ≤ limit
  · have hcut : Conversation.writing (some limit) text s next =
        (next (some (limit - (Text.encode text).length))).after (Text.encode text) [] := by
      simp [Conversation.writing, Room.after?, Room.shown, hroom, List.take_of_length_le]
    have hrest := h (limit - (Text.encode text).length)
    rw [hfull, hcut]
    constructor
    · intro hfits
      simp only [Conversation.after, List.length_append] at hfits
      rw [hrest.fits (by omega)]
    · intro hbreaks
      simp only [Conversation.after, List.length_append] at hbreaks
      obtain ⟨hending, houtput⟩ := hrest.breaks (by omega)
      refine ⟨hending, ?_⟩
      simp only [Conversation.after, houtput, List.take_append, List.take_of_length_le hroom]
  · have hcut : Conversation.writing (some limit) text s next =
        (Conversation.stop (.error .closed) s).after ((Text.encode text).take limit) [] := by
      simp [Conversation.writing, Room.after?, Room.shown, hroom]
    rw [hfull, hcut]
    constructor
    · intro hfits
      simp only [Conversation.after, List.length_append] at hfits
      omega
    · intro _
      refine ⟨rfl, ?_⟩
      simp only [Conversation.after, Conversation.stop, List.append_nil]
      exact (List.take_append_of_le_length (by omega)).symm

end Truncated

namespace Conversation

/-- Under a limit a conversation over lines is truncated, and nothing else. -/
theorem truncated_ofLines (limit : Nat) (s : Session) (lines : List (List UInt8)) :
    Truncated limit (ofLines none s lines) (ofLines (some limit) s lines) := by
  induction lines generalizing limit s with
  | nil =>
    rw [ofLines_nil, ofLines_nil]
    exact Truncated.writing (fun _ => .stop _ _) prompt
  | cons bytes lines ih =>
    rw [ofLines_cons, ofLines_cons]
    refine Truncated.writing (fun rest => ?_) prompt
    cases Text.decode? bytes with
    | none => exact .stop _ _
    | some line =>
      refine (Truncated.writing (fun rest => ?_) (s.turn line).reply).after_log (s.turn line).log
      cases (s.turn line).ends with
      | true => exact .stop _ _
      | false => exact ih rest (s.turn line).session

/-- What is shown up to and including the prompt before a line, if the given lines come first. -/
def untilPrompt (s : Session) (lines : List String) : List UInt8 :=
  s.dialogue lines ++ Text.encode prompt

theorem length_untilPrompt_cons (s : Session) (line : String) (lines : List String) :
    (untilPrompt s (line :: lines)).length = (Text.encode prompt).length +
      (Text.encode (s.reply line)).length + (untilPrompt (s.next line) lines).length := by
  simp only [untilPrompt, Session.dialogue, List.length_append]
  omega

theorem answered_of_prompt_fits {limit : Nat} (hprompt : (Text.encode prompt).length ≤ limit)
    (s : Session) (line : String) (lines : List (List UInt8)) :
    answered (some limit) s (Text.encode line :: lines) =
      line ::
        let room := limit - (Text.encode prompt).length
        if (Text.encode (s.reply line)).length ≤ room then
          if IsLeave line then []
          else answered (some (room - (Text.encode (s.reply line)).length)) (s.next line) lines
        else [] := by
  simp only [answered, Room.after?, hprompt, if_true, Text.decode?_encode, Session.reply_turn,
    Session.ends_turn, decide_eq_true_eq]
  by_cases hreply : (Text.encode (s.reply line)).length ≤ limit - (Text.encode prompt).length
  · simp only [hreply, if_true]
  · simp only [hreply, if_false]

/-- The lines executed under a limit are those before which the prompt still fits. -/
theorem exists_reached (limit : Nat) (s : Session) (lines : List (List UInt8)) :
    ∃ reached, answered (some limit) s lines = (answered none s lines).take reached ∧
      ∀ k < (answered none s lines).length,
        k < reached ↔ (untilPrompt s ((answered none s lines).take k)).length ≤ limit := by
  induction lines generalizing limit s with
  | nil => exact ⟨0, rfl, nofun⟩
  | cons bytes lines ih =>
    by_cases hprompt : (Text.encode prompt).length ≤ limit
    · cases hdecode : Text.decode? bytes with
      | none =>
        rw [answered_none_undecodable hdecode]
        exact ⟨0, by simp [answered, Room.after?, hprompt, hdecode], nofun⟩
      | some line =>
        obtain rfl := Text.decode?_eq_some_iff.mp hdecode
        rw [answered_of_prompt_fits hprompt]
        by_cases hleave : IsLeave line
        · rw [answered_none_leave hleave]
          refine ⟨1, by simp [hleave], ?_⟩
          intro k hk
          obtain rfl : k = 0 := by simpa using hk
          exact iff_of_true Nat.zero_lt_one hprompt
        · rw [answered_none_stay hleave]
          by_cases hreply :
              (Text.encode (s.reply line)).length ≤ limit - (Text.encode prompt).length
          · obtain ⟨reached, hanswered, hreached⟩ := ih (limit - (Text.encode prompt).length -
              (Text.encode (s.reply line)).length) (s.next line)
            refine ⟨reached + 1, ?_, ?_⟩
            · simp only [hreply, hleave, if_true, if_false, hanswered, List.take_succ_cons]
            · intro k hk
              cases k with
              | zero => exact iff_of_true (Nat.succ_pos reached) hprompt
              | succ k =>
                have hk := hreached k (Nat.lt_of_succ_lt_succ hk)
                rw [List.take_succ_cons, length_untilPrompt_cons]
                omega
          · refine ⟨1, by simp [hreply], ?_⟩
            intro k _
            cases k with
            | zero => exact iff_of_true Nat.zero_lt_one hprompt
            | succ k =>
              rw [List.take_succ_cons, length_untilPrompt_cons]
              omega
    · refine ⟨0, by simp [answered, Room.after?, hprompt], ?_⟩
      intro k _
      simp only [untilPrompt, List.length_append]
      omega

/-! ## Inputs -/

/-- The conversation over an input is truncated, with its records, if all of it fits. -/
theorem truncated_ofInput (limit : Nat) (s : Session) (input : List UInt8) :
    Truncated limit (ofInput none s input) (ofInput (some limit) s input) := by
  have h := truncated_ofLines limit s (Text.cutLines input)
  constructor
  · intro hfits
    rw [ofInput, ofInput, h.fits hfits]
  · exact h.breaks

/-- The conversation over an input under a limit, compared with the one without. What fits is the
same in every respect. Otherwise the conversation breaks off, with just as many bytes shown as fit,
and of the lines that would be answered those are executed before which the prompt fits; so a line
whose reply is cut is executed too, and no line after it. -/
theorem ofInput_truncated (s : Session) (input : List UInt8) (limit : Nat) :
    ((ofInput none s input).output.length ≤ limit →
      ofInput (some limit) s input = ofInput none s input) ∧
    (limit < (ofInput none s input).output.length →
      (∃ fault, (ofInput (some limit) s input).ending = .error fault ∧ fault.cause = "closed") ∧
      (ofInput (some limit) s input).output = (ofInput none s input).output.take limit ∧
      ∃ (lines : List String) (rest : List (List UInt8)) (last : List UInt8) (reached : Nat),
        Text.IsCut input (lines.map Text.encode ++ rest) ∧
        Finish lines rest (ofInput none s input).ending last ∧
        (ofInput none s input).output = s.dialogue lines ++ last ∧
        (∀ k < lines.length, k < reached ↔ (untilPrompt s (lines.take k)).length ≤ limit) ∧
        (ofInput (some limit) s input).session = (lines.take reached).foldl Session.next s ∧
        ∀ k < lines.length, (untilPrompt s (lines.take k)).length ≤ limit →
          limit < (s.dialogue (lines.take (k + 1))).length →
          (ofInput (some limit) s input).session =
            (lines.take (k + 1)).foldl Session.next s) := by
  have h := truncated_ofInput limit s input
  refine ⟨h.fits, fun hbreaks => ?_⟩
  obtain ⟨hending, houtput⟩ := h.breaks hbreaks
  refine ⟨⟨.closed, hending, rfl⟩, houtput, ?_⟩
  obtain ⟨rest, last, hcut, hfinish, hdialogue⟩ := exists_finish_ofInput s input
  obtain ⟨reached, hanswered, hreached⟩ := exists_reached limit s (Text.cutLines input)
  have hsession := session_ofLines (some limit) s (Text.cutLines input)
  rw [hanswered] at hsession
  refine ⟨_, rest, last, reached, hcut, hfinish, hdialogue, hreached, hsession, ?_⟩
  intro k hk hprompt hreply
  refine hsession.trans (congrArg (List.foldl Session.next s) ?_)
  have hlt := (hreached k hk).mpr hprompt
  by_cases hnext : k + 1 < (answered none s (Text.cutLines input)).length
  · -- the prompt before the next line does not fit either
    have hlonger : ¬ (untilPrompt s ((answered none s (Text.cutLines input)).take (k + 1))).length
        ≤ limit := by
      simp only [untilPrompt, List.length_append]
      omega
    have hstop := mt (hreached (k + 1) hnext).mp hlonger
    obtain rfl : reached = k + 1 := by omega
    rfl
  · rw [List.take_of_length_le (by omega), List.take_of_length_le (by omega)]

/-- The reply to the first line is cut, and the second line is not read. -/
example :
    (ofInput (some 4) .fresh (Text.encode "x = 5\nx = 6\n")).output = Text.encode "> x " ∧
      (ofInput (some 4) .fresh (Text.encode "x = 5\nx = 6\n")).session.table["x"]? = some 5 := by
  decide +kernel

end Conversation

end InfixCalculator
