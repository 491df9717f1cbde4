import InfixCalculator.Proofs.Session.Dialogue
import InfixCalculator.Proofs.Text.LetterCase

/-!
# The grammar of lines

What a line asks for is told by its form alone. Blanks may stand at both ends of the line, and at
both ends of the name and of the expression of an assignment; they have no part in what the line
asks for.

* `IsLeaveWord`, `IsPart`, `IsEquation`: the pieces of which lines are made.
* `Form`: the lines for each command.
* `ofLine_of_form`, `form_ofLine`: a line asks for the command whose form it has, and has one.
* `ofLine_grammar`: both directions, and what follows for blanks and for the parts of an assignment.
-/

namespace InfixCalculator.Command

open Text (Blank Trimmed)

/-! ## Words and parts -/

/-- The word to leave, each of its letters small or capital. -/
def IsLeaveWord (word : List Char) : Prop :=
  List.Forall₂ (· ∈ ·) word [['e', 'E'], ['x', 'X'], ['i', 'I'], ['t', 'T']]

/-- A name or an expression, as it stands between blanks. -/
structure IsPart (part : List Char) : Prop where
  ne_nil : part ≠ []
  no_equals : '=' ∉ part
  trimmed : Trimmed part

/-- A name and an expression with an equals sign between them, and blanks around all three. -/
def IsEquation (line name expression : List Char) : Prop :=
  ∃ w₁ w₂ w₃ w₄, Blank w₁ ∧ Blank w₂ ∧ Blank w₃ ∧ Blank w₄ ∧ IsPart name ∧ IsPart expression ∧
    line = w₁ ++ name ++ w₂ ++ '=' :: (w₃ ++ expression ++ w₄)

/-- The form of the lines that ask for a command. -/
inductive Form : List Char → Command → Prop
  | leave {w word w' : List Char} (hw : Blank w) (hw' : Blank w') (hword : IsLeaveWord word) :
      Form (w ++ word ++ w') .leave
  | nothing {w : List Char} (hw : Blank w) : Form w .nothing
  | assign {line : List Char} {name expression : String}
      (hline : IsEquation line name.toList expression.toList) : Form line (.assign name expression)
  | malformed {line : List Char} (hequals : '=' ∈ line)
      (hline : ∀ name expression, ¬ IsEquation line name expression) : Form line .malformed
  | evaluate {w w' : List Char} {expression : String} (hw : Blank w) (hw' : Blank w')
      (hpart : IsPart expression.toList) (hword : ¬ IsLeaveWord expression.toList) :
      Form (w ++ expression.toList ++ w') (.evaluate expression)

/-! ## Parts of a line -/

variable {cs word : List Char} {line name expression : String}

theorem isLeaveWord_iff : IsLeaveWord word ↔ word.map Char.toLower = leaveWord :=
  (@Text.map_toLower_eq_iff word "EXIT".toList (List.all_eq_true.mp (by decide))).symm

theorem mem_flatten_of_forall₂ {classes : List (List Char)}
    (h : List.Forall₂ (· ∈ ·) word classes) : ∀ c ∈ word, c ∈ classes.flatten := by
  induction h with
  | nil => nofun
  | cons hc _ ih =>
    rw [List.forall_mem_cons, List.flatten_cons]
    exact ⟨List.mem_append_left _ hc, fun c hmem => List.mem_append_right _ (ih c hmem)⟩

/-- The word to leave is a part of a line like any other. -/
theorem IsLeaveWord.isPart (h : IsLeaveWord word) : IsPart word := by
  have hletters : ['e', 'E', 'x', 'X', 'i', 'I', 't', 'T'].all
      (fun c => c ≠ '=' ∧ Text.isBlank c = false) := by decide
  have hclass : ∀ c ∈ word, c ≠ '=' ∧ Text.isBlank c = false := fun c hc =>
    of_decide_eq_true (List.all_eq_true.mp hletters c (mem_flatten_of_forall₂ h c hc))
  refine ⟨?_, fun hequals => (hclass '=' hequals).1 rfl, ?_, ?_⟩
  · rintro rfl
    cases h
  · exact fun c hc => (hclass c (List.mem_of_mem_head? hc)).2
  · exact fun c hc => (hclass c (List.mem_of_mem_getLast? hc)).2

theorem isPart_iff_isKey : IsPart name.toList ↔ IsKey name := by
  constructor
  · intro h
    exact ⟨by simpa using h.ne_nil, h.no_equals, h.trimmed.first, h.trimmed.last⟩
  · intro h
    exact ⟨by simpa using h.ne_empty, h.not_mem, h.head, h.last⟩

theorem equals_not_mem_of_blank {w : List Char} (hw : Blank w) : '=' ∉ w := fun hmem =>
  absurd (hw '=' hmem) (by decide)

/-- Trimming keeps an equals sign. -/
theorem mem_trimChars_iff : '=' ∈ Text.trimChars cs ↔ '=' ∈ cs := by
  refine ⟨Text.mem_of_mem_trimChars, fun h => ?_⟩
  obtain ⟨w, w', hw, hw', hcs⟩ := Text.exists_blank_append_trimChars cs
  rw [hcs, List.mem_append, List.mem_append] at h
  exact (h.resolve_right (equals_not_mem_of_blank hw')).resolve_left (equals_not_mem_of_blank hw)

theorem isPart_trimChars (hne : Text.trimChars cs ≠ []) (hequals : '=' ∉ cs) :
    IsPart (Text.trimChars cs) :=
  ⟨hne, fun hmem => hequals (Text.mem_of_mem_trimChars hmem), Text.trimmed_trimChars cs⟩

/-! ## The parts of an assignment -/

theorem IsEquation.isAssignment (h : IsEquation line.toList name.toList expression.toList) :
    IsAssignment line name expression := by
  obtain ⟨w₁, w₂, w₃, w₄, hw₁, hw₂, hw₃, hw₄, hname, hexpression, hline⟩ := h
  have hcore : Trimmed (name.toList ++ (w₂ ++ '=' :: w₃) ++ expression.toList) :=
    hname.trimmed.append hexpression.trimmed hname.ne_nil hexpression.ne_nil _
  have htrim : Text.trimChars line.toList =
      name.toList ++ (w₂ ++ '=' :: w₃) ++ expression.toList := by
    refine Text.trimChars_eq_iff.mpr ⟨hcore, w₁, w₄, hw₁, hw₄, ?_⟩
    rw [hline]
    simp only [List.append_assoc, List.cons_append]
  refine ⟨name.toList ++ w₂, w₃ ++ expression.toList, ?_, ?_, ?_, ?_, ?_, ?_, ?_⟩
  · rw [Text.toList_trim, htrim]
    simp only [List.append_assoc, List.cons_append]
  · exact List.not_mem_append hname.no_equals (equals_not_mem_of_blank hw₂)
  · exact List.not_mem_append (equals_not_mem_of_blank hw₃) hexpression.no_equals
  · rw [Text.trimChars_append_blank hw₂, hname.trimmed.trimChars_eq, String.ofList_toList]
  · rw [Text.trimChars_blank_append hw₃, hexpression.trimmed.trimChars_eq, String.ofList_toList]
  · simpa using hname.ne_nil
  · simpa using hexpression.ne_nil

theorem isEquation_of_isAssignment (h : IsAssignment line name expression) :
    IsEquation line.toList name.toList expression.toList := by
  obtain ⟨left, right, hline, hleft, hright, rfl, rfl, hname, hexpression⟩ := h
  obtain ⟨w₁, w₄, hw₁, hw₄, hcore⟩ := Text.exists_blank_append_trimChars line.toList
  obtain ⟨u₁, w₂, hu₁, hw₂, hparts⟩ := Text.exists_blank_append_trimChars left
  obtain ⟨w₃, u₄, hw₃, hu₄, hparts'⟩ := Text.exists_blank_append_trimChars right
  rw [Text.toList_trim] at hline
  refine ⟨w₁ ++ u₁, w₂, w₃, u₄ ++ w₄, hw₁.append hu₁, hw₂, hw₃, hu₄.append hw₄, ?_, ?_, ?_⟩
  · rw [String.toList_ofList]
    exact isPart_trimChars (by simpa using hname) hleft
  · rw [String.toList_ofList]
    exact isPart_trimChars (by simpa using hexpression) hright
  · rw [String.toList_ofList, String.toList_ofList, hcore, hline]
    nth_rewrite 1 [hparts]
    nth_rewrite 1 [hparts']
    simp only [List.append_assoc, List.cons_append]

/-! ## From the form to the command, and back -/

/-- A line of any form asks for the command of this form. -/
theorem ofLine_of_form {command : Command} (h : Form line.toList command) :
    ofLine line = command := by
  generalize hcs : line.toList = cs at h
  cases h with
  | @leave w word w' hw hw' hword =>
    rw [ofLine_eq_leave_iff, IsLeave, Text.toList_trim, hcs, Text.trimChars_surrounded hw hw',
      hword.isPart.trimmed.trimChars_eq]
    exact isLeaveWord_iff.mp hword
  | nothing hw =>
    have htrim := Text.trimChars_append_blank hw []
    rw [List.nil_append, Text.trimChars_nil] at htrim
    rw [ofLine_eq_nothing_iff, ← String.toList_inj, Text.toList_trim, hcs, htrim]
    rfl
  | assign hline =>
    rw [← hcs] at hline
    exact ofLine_eq_assign_iff.mpr hline.isAssignment
  | malformed hequals hline =>
    rw [← hcs] at hequals hline
    have hmem := mem_trimChars_iff.mpr hequals
    have hline' := ofLine_of_mem hmem
    obtain ⟨left, right, hsplit, hleft⟩ := List.eq_append_cons_of_mem hmem
    rw [hsplit, ofTrimmed_of_split hleft] at hline'
    split at hline'
    · exact hline'
    · -- the line would be an assignment with these parts
      exact absurd (isEquation_of_isAssignment (ofLine_eq_assign_iff.mp hline')) (hline _ _)
  | @evaluate w w' expression hw hw' hpart hword =>
    have htrim : Text.trimChars line.toList = expression.toList := by
      rw [hcs, Text.trimChars_surrounded hw hw', hpart.trimmed.trimChars_eq]
    rw [isLeaveWord_iff] at hword
    simp only [ofLine, htrim]
    rw [if_neg hword, if_neg hpart.ne_nil, ofTrimmed_of_not_mem hpart.no_equals,
      String.ofList_toList]

/-- Every line has a form. -/
theorem exists_form (cs : List Char) : ∃ command, Form cs command := by
  by_cases hequals : '=' ∈ cs
  · by_cases hline : ∃ name expression, IsEquation cs name expression
    · obtain ⟨name, expression, hline⟩ := hline
      exact ⟨.assign (String.ofList name) (String.ofList expression), .assign (by simpa using hline)⟩
    · exact ⟨.malformed, .malformed hequals (by simpa using hline)⟩
  · obtain ⟨w, w', hw, hw', hcs⟩ := Text.exists_blank_append_trimChars cs
    by_cases hblank : Text.trimChars cs = []
    · rw [hblank, List.append_nil] at hcs
      exact ⟨.nothing, .nothing (hcs ▸ hw.append hw')⟩
    · have hpart := isPart_trimChars hblank hequals
      rw [hcs]
      generalize Text.trimChars cs = word at hpart
      by_cases hword : IsLeaveWord word
      · exact ⟨.leave, .leave hw hw' hword⟩
      · rw [← String.toList_ofList (l := word)] at hpart hword ⊢
        exact ⟨.evaluate (String.ofList word), .evaluate hw hw' hpart hword⟩

theorem form_ofLine (line : String) : Form line.toList (ofLine line) := by
  obtain ⟨command, hform⟩ := exists_form line.toList
  rwa [ofLine_of_form hform]

/-- What a line asks for. It asks for a command exactly if it has the form of this command: the word
to leave in any letter case, nothing, an assignment, any other line with an equals sign, or any
other line without one. Blanks around a line do not matter, and the name and the expression of an
assignment are the ones of which it was put together, with or without blanks around them; no other
two parts would make up the same line. -/
theorem ofLine_grammar (line : String) :
    (∀ command, ofLine line = command ↔ Form line.toList command) ∧
    (∀ w w', Blank w → Blank w' →
      ofLine (String.ofList w ++ line ++ String.ofList w') = ofLine line) ∧
    (∀ name expression w₁ w₂ w₃ w₄, Blank w₁ → Blank w₂ → Blank w₃ → Blank w₄ →
      IsPart name → IsPart expression →
      ofLine (String.ofList (w₁ ++ name ++ w₂ ++ '=' :: (w₃ ++ expression ++ w₄))) =
        .assign (String.ofList name) (String.ofList expression)) ∧
    ∀ name expression name' expression', IsEquation line.toList name expression →
      IsEquation line.toList name' expression' → name = name' ∧ expression = expression' := by
  refine ⟨?_, ?_, ?_, ?_⟩
  · intro command
    constructor
    · rintro rfl
      exact form_ofLine line
    · exact ofLine_of_form
  · intro w w' hw hw'
    simp only [ofLine, String.toList_append, String.toList_ofList, Text.trimChars_surrounded hw hw']
  · intro name expression w₁ w₂ w₃ w₄ hw₁ hw₂ hw₃ hw₄ hname hexpression
    refine ofLine_of_form (.assign ?_)
    simp only [String.toList_ofList]
    exact ⟨w₁, w₂, w₃, w₄, hw₁, hw₂, hw₃, hw₄, hname, hexpression, rfl⟩
  · intro name expression name' expression' h h'
    have hassign : ∀ {name expression}, IsEquation line.toList name expression →
        ofLine line = .assign (String.ofList name) (String.ofList expression) := fun h =>
      ofLine_of_form (.assign (by simpa using h))
    obtain ⟨hname, hexpression⟩ := Command.assign.inj ((hassign h).symm.trans (hassign h'))
    exact ⟨String.ofList_injective hname, String.ofList_injective hexpression⟩

end InfixCalculator.Command
