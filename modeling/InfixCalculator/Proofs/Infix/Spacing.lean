import InfixCalculator.Proofs.Infix.Substitution
import InfixCalculator.Proofs.Token.Layout

/-!
# Separators and spacing

A character that is in no token separates the texts before and after it, whatever they are: their
tokens are cut out as if each text stood alone. The one exception is the point, which may join two
numbers. So the texts of tokens with single spaces between them are a text with just these tokens,
and every text may be replaced by such a one.

* `separates_iff`: the characters that separate all texts.
* `spaced`, `tokenize_spaced`: tokens with single spaces between them.
* `tokenize_separated`: separation, and the spaced form of a text.
-/

namespace InfixCalculator

namespace Token

variable {c : Char} {ts : List Token}

/-! ## Separators -/

/-- Texts on both sides of the character have the tokens that they have by themselves. -/
def Separates (c : Char) : Prop :=
  ∀ a b : String, tokenize (a ++ String.singleton c ++ b) = tokenize a ++ tokenize b

theorem isGap_singleton_iff : IsGap [c] ↔ isStart c = false := by
  rw [isGap_iff, Gap, List.forall_mem_singleton]

theorem separates_of_isStart_eq_false (hc : isStart c = false) (hpoint : c ≠ '.') :
    Separates c := by
  intro a b
  have hstops : Stops (c :: b.toList) :=
    stops_cons (isNameRest_eq_false_of_isStart_eq_false hc) hpoint b.toList
  have hgap : Gap [c] := List.forall_mem_singleton.mpr hc
  have htext : (a ++ String.singleton c ++ b).toList = a.toList ++ c :: b.toList := by simp
  rw [tokenize, htext, tokenizeChars_append _ hstops]
  exact congrArg (tokenize a ++ ·) (tokenizeChars_gap_append hgap b.toList)

/-- A character that starts a token is a token by itself or part of one. -/
theorem tokenize_singleton_ne_nil (hc : isStart c) : tokenize (String.singleton c) ≠ [] := by
  have hcut : cut? [c] = some (cutAt c []) := by simp [cut?, hc]
  rw [tokenize, String.toList_singleton, tokenizeChars_of_some hcut]
  exact List.cons_ne_nil _ _

theorem not_separates_point : ¬ Separates '.' := by
  intro h
  exact absurd (h "1" "5") (by decide +kernel)

theorem separates_iff : Separates c ↔ IsGap [c] ∧ c ≠ '.' := by
  rw [isGap_singleton_iff]
  constructor
  · intro h
    refine ⟨?_, ?_⟩
    · by_contra hc
      have hsingle := h "" ""
      have hempty : tokenize "" = [] := tokenizeChars_nil
      rw [String.empty_append, String.append_empty, hempty, List.append_nil] at hsingle
      exact tokenize_singleton_ne_nil (by simpa using hc) hsingle
    · rintro rfl
      exact not_separates_point h
  · intro h
    exact separates_of_isStart_eq_false h.1 h.2

/-! ## Spaced tokens -/

/-- The texts of tokens, with single spaces between them. -/
def spaced (ts : List Token) : String := " ".intercalate (ts.map text)

/-- Tokens are recovered from their spaced text. -/
theorem tokenize_spaced (h : ∀ t ∈ ts, t.IsOperand ∨ t.IsSign) : tokenize (spaced ts) = ts := by
  induction ts with
  | nil => exact tokenizeChars_nil
  | cons t ts ih =>
    obtain ⟨ht, hts⟩ := List.forall_mem_cons.mp h
    cases ts with
    | nil =>
      have htext : spaced [t] = t.text := by simp [spaced]
      rw [htext, tokenize_text ht]
    | cons u us =>
      have htext : (spaced (t :: u :: us)).toList =
          t.text.toList ++ ' ' :: (spaced (u :: us)).toList := by
        simp [spaced, String.toList_intercalate]
      rw [tokenize, htext, tokenizeChars_text_append ht (stops_blank _), tokenizeChars_blank]
      exact congrArg (t :: ·) (ih hts)

end Token

/-! ## The spaced form of a text -/

/-- Expressions with the same tokens have the same value or fault, with the same records. -/
theorem Session.evaluate_eq_of_tokenize_eq {text text' : String}
    (h : Token.tokenize text = Token.tokenize text') (s : Session) :
    s.evaluate text = s.evaluate text' := by
  simp only [evaluate, h]

/-- Exactly the characters that are in no token and are no point separate the texts around them.
The tokens of operands and signs are recovered from their spaced text, so the spaced form of a text
has the tokens of the text, and gives the same in every session. -/
theorem Token.tokenize_separated :
    (∀ c, (∀ a b : String, tokenize (a ++ String.singleton c ++ b) = tokenize a ++ tokenize b) ↔
      IsGap [c] ∧ c ≠ '.') ∧
    (∀ ts : List Token, (∀ t ∈ ts, t.IsOperand ∨ t.IsSign) → tokenize (spaced ts) = ts) ∧
    ∀ text, tokenize (spaced (tokenize text)) = tokenize text ∧
      ∀ s : Session, s.evaluate (spaced (tokenize text)) = s.evaluate text := by
  have hrespaced : ∀ text, tokenize (spaced (tokenize text)) = tokenize text := fun text =>
    tokenize_spaced fun _ => isOperand_or_isSign_of_mem_tokenize
  refine ⟨fun c => separates_iff, fun ts => tokenize_spaced, fun text => ⟨hrespaced text, ?_⟩⟩
  exact Session.evaluate_eq_of_tokenize_eq (hrespaced text)

end InfixCalculator
