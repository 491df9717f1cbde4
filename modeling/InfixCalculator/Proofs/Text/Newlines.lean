import InfixCalculator.Proofs.Text.Bytes
import InfixCalculator.Proofs.Text.Lines
import InfixCalculator.Proofs.Text.Trim
import Mathlib.Data.List.Count

/-!
# Newlines in texts and in their encodings

The newline byte encodes the newline character and is part of no other encoding. So a line that is
cut out of an input has its newline, if any, as the last character, and has none once it is trimmed.

* `Unbroken`: texts without a newline.
* `count_newline_encode`: newlines are counted among bytes as among characters.
* `unbroken_trim_of_isCut`: trimmed lines.
* `first_newline_unique`: the first newline cuts bytes in one way only.
-/

namespace InfixCalculator.Text

/-! ## Texts without a newline -/

/-- No character of the text is a newline. -/
def Unbroken (text : String) : Prop := '\n' ∉ text.toList

instance (text : String) : Decidable (Unbroken text) := inferInstanceAs (Decidable (¬ _))

theorem Unbroken.append {s t : String} (hs : Unbroken s) (ht : Unbroken t) : Unbroken (s ++ t) := by
  rw [Unbroken, String.toList_append]
  exact List.not_mem_append hs ht

theorem unbroken_ofList {cs : List Char} : Unbroken (String.ofList cs) ↔ '\n' ∉ cs := by
  rw [Unbroken, String.toList_ofList]

/-- A class of characters without the newline is one of texts without it. -/
theorem unbroken_of_forall {p : Char → Bool} (hp : p '\n' = false) {text : String}
    (h : ∀ c ∈ text.toList, p c) : Unbroken text := fun hmem =>
  absurd (h '\n' hmem) (by rw [hp]; exact Bool.false_ne_true)

/-! ## Encodings -/

theorem byteChar_injective : Function.Injective byteChar := by
  intro b b' h
  have hcodes := congrArg Char.toNat h
  rw [toNat_byteChar, toNat_byteChar] at hcodes
  exact UInt8.toNat_inj.mp hcodes

theorem isAscii_newline : IsAscii '\n' := by decide

theorem count_newline_byteChars (c : Char) : (byteChars c).count '\n' = [c].count '\n' := by
  by_cases hc : IsAscii c
  · rw [byteChars_of_isAscii hc]
  · have hne : '\n' ∉ [c] := fun hmem => hc (List.mem_singleton.mp hmem ▸ isAscii_newline)
    rw [List.count_eq_zero.mpr hne, List.count_eq_zero]
    exact fun hmem => not_isAscii_of_mem_byteChars hc hmem isAscii_newline

theorem count_newline_bytewise (cs : List Char) : (bytewise cs).count '\n' = cs.count '\n' := by
  induction cs with
  | nil => rfl
  | cons c cs ih =>
    rw [bytewise_cons, List.count_append, count_newline_byteChars, ih, ← List.count_append,
      List.singleton_append]

/-- There are as many newline bytes in an encoding as newlines in the text. -/
theorem count_newline_encode (text : String) :
    (encode text).count newline = text.toList.count '\n' := by
  rw [← count_newline_bytewise, ← map_byteChar_encode]
  exact (List.count_map_of_injective (encode text) byteChar byteChar_injective newline).symm

theorem newline_not_mem_encode_iff {text : String} : newline ∉ encode text ↔ Unbroken text := by
  rw [← List.count_eq_zero, count_newline_encode, List.count_eq_zero, Unbroken]

/-! ## Lines that are cut out of an input -/

theorem IsCut.exists_body {bytes line : List UInt8} {lines : List (List UInt8)}
    (h : IsCut bytes lines) (hline : line ∈ lines) :
    ∃ body, newline ∉ body ∧ (line = body ∨ line = body ++ [newline]) := by
  induction h with
  | nil => cases hline
  | @rest bytes _ hbytes =>
    rw [List.mem_singleton] at hline
    exact ⟨bytes, hbytes, .inl hline⟩
  | @line body _ _ hbody _ ih =>
    rcases List.mem_cons.mp hline with rfl | hline
    · exact ⟨body, hbody, .inr rfl⟩
    · exact ih hline

/-- An encoding that ends with the newline byte is that of a text that ends with a newline. -/
theorem toList_of_encode_eq {line : String} {body : List UInt8}
    (h : encode line = body ++ [newline]) : ∃ cs, line.toList = cs ++ ['\n'] := by
  have hbytes := map_byteChar_encode line
  rw [h, List.map_append] at hbytes
  have hbytes : bytewise line.toList = body.map byteChar ++ ['\n'] := hbytes.symm
  rcases List.eq_nil_or_concat line.toList with hnil | ⟨cs, c, hline⟩
  · rw [hnil, bytewise_nil] at hbytes
    cases List.append_ne_nil_of_right_ne_nil _ (List.cons_ne_nil _ _) hbytes.symm
  · -- the last byte belongs to the last character, which is ASCII then and encoded as itself
    rw [List.concat_eq_append] at hline
    rw [hline, bytewise_append, bytewise_cons, bytewise_nil, List.append_nil] at hbytes
    have hlast : (byteChars c).getLast? = some '\n' := by
      have := congrArg List.getLast? hbytes
      rwa [List.getLast?_append_of_ne_nil _ (byteChars_ne_nil c), List.getLast?_concat] at this
    have hmem := List.mem_of_mem_getLast? (Option.mem_def.mpr hlast)
    have hc : IsAscii c := by
      by_contra hc
      exact not_isAscii_of_mem_byteChars hc hmem isAscii_newline
    rw [byteChars_of_isAscii hc, List.mem_singleton] at hmem
    exact ⟨cs, by rw [hline, hmem]⟩

/-- A line without its end has no newline. -/
theorem unbroken_trim_of_isCut {bytes : List UInt8} {lines : List (List UInt8)} {line : String}
    (h : IsCut bytes lines) (hline : encode line ∈ lines) : Unbroken (trim line) := by
  rw [Unbroken, toList_trim]
  obtain ⟨body, hbody, hencode | hencode⟩ := h.exists_body hline
  · have hunbroken := newline_not_mem_encode_iff.mp (hencode ▸ hbody)
    exact fun hmem => hunbroken (mem_of_mem_trimChars hmem)
  · obtain ⟨cs, hcs⟩ := toList_of_encode_eq hencode
    have hcount := count_newline_encode line
    rw [hencode, hcs, List.count_append, List.count_append, List.count_eq_zero.mpr hbody] at hcount
    have hnot : '\n' ∉ cs := List.count_eq_zero.mp (Nat.add_right_cancel hcount).symm
    have hblank : Blank ['\n'] := by
      intro c hc
      rw [List.mem_singleton.mp hc]
      decide
    rw [hcs, trimChars_append_blank hblank]
    exact fun hmem => hnot (mem_of_mem_trimChars hmem)

/-! ## The first newline -/

theorem first_newline_unique {x y x' y' : List UInt8} (hx : newline ∉ x) (hy : newline ∉ y)
    (h : x ++ newline :: x' = y ++ newline :: y') : x = y ∧ x' = y' := by
  have hcut := congrArg cutLines h
  rw [cutLines_line hx, cutLines_line hy] at hcut
  obtain rfl := List.append_cancel_right (List.cons.inj hcut).1
  exact ⟨rfl, (List.cons.inj (List.append_cancel_left h)).2⟩

/-- Whole lines that are not empty start with a first line. -/
theorem exists_first_line {bytes : List UInt8} (h : IsWhole bytes) (hne : bytes ≠ []) :
    ∃ body rest, bytes = body ++ newline :: rest ∧ newline ∉ body ∧ IsWhole rest := by
  have hlast : bytes.getLast hne = newline := h _ (List.getLast?_eq_some_getLast hne)
  obtain ⟨body, rest, rfl, hbody⟩ :=
    List.eq_append_cons_of_mem (hlast ▸ List.getLast_mem hne : newline ∈ bytes)
  refine ⟨body, rest, rfl, hbody, fun b hb => h b ?_⟩
  rw [List.getLast?_append, List.getLast?_cons, hb]
  rfl

end InfixCalculator.Text
