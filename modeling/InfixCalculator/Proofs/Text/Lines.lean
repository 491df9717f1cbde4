import InfixCalculator.Text.Line
import Mathlib.Data.List.Basic

/-!
# How bytes are cut into lines

Bytes are cut in exactly one way: after each newline, and at the end if something is left. Bytes that
consist of whole lines are cut as they are, whatever comes after them.

* `IsCut`: bytes and the lines they are cut into.
* `cutLines_eq_iff`: cutting finds these lines and no others.
* `cutLines_append`: bytes after whole lines.
* `decode?_eq_some_iff`: the bytes that encode a text.
-/

namespace InfixCalculator.Text

/-! ## Cutting -/

/-- The lines follow one another in the bytes. Each ends with the only newline in it; the last one
may have none, but is not empty then. -/
inductive IsCut : List UInt8 → List (List UInt8) → Prop
  | nil : IsCut [] []
  | rest {bytes : List UInt8} (hne : bytes ≠ []) (hbytes : newline ∉ bytes) : IsCut bytes [bytes]
  | line {body bytes : List UInt8} {lines : List (List UInt8)} (hbody : newline ∉ body)
      (hlines : IsCut bytes lines) : IsCut (body ++ newline :: bytes) ((body ++ [newline]) :: lines)

theorem cutLines_rest {bytes : List UInt8} (hne : bytes ≠ []) (hbytes : newline ∉ bytes) :
    cutLines bytes = [bytes] := by
  induction bytes with
  | nil => exact absurd rfl hne
  | cons b bytes ih =>
    obtain ⟨hb, hbytes⟩ := List.ne_and_not_mem_of_not_mem_cons hbytes
    rw [cutLines, if_neg hb.symm]
    by_cases hempty : bytes = []
    · subst hempty
      rfl
    · rw [ih hempty hbytes]

theorem cutLines_line {body : List UInt8} (hbody : newline ∉ body) (bytes : List UInt8) :
    cutLines (body ++ newline :: bytes) = (body ++ [newline]) :: cutLines bytes := by
  induction body with
  | nil => rw [List.nil_append, cutLines, if_pos rfl, List.nil_append]
  | cons b body ih =>
    obtain ⟨hb, hbody⟩ := List.ne_and_not_mem_of_not_mem_cons hbody
    rw [List.cons_append, cutLines, if_neg hb.symm, ih hbody]
    rfl

theorem IsCut.cutLines_eq {bytes : List UInt8} {lines : List (List UInt8)} (h : IsCut bytes lines) :
    cutLines bytes = lines := by
  induction h with
  | nil => rfl
  | rest hne hbytes => exact cutLines_rest hne hbytes
  | line hbody _ ih => rw [cutLines_line hbody, ih]

/-- A byte that is no newline goes to the first line, or becomes a line of its own. -/
theorem IsCut.cons {b : UInt8} (hb : b ≠ newline) {bytes line : List UInt8}
    {lines : List (List UInt8)} (h : IsCut bytes (line :: lines)) :
    IsCut (b :: bytes) ((b :: line) :: lines) := by
  have hnot : ∀ {bs : List UInt8}, newline ∉ bs → newline ∉ b :: bs := fun hbs =>
    List.not_mem_cons_of_ne_of_not_mem hb.symm hbs
  cases h with
  | rest _ hbytes => exact .rest (List.cons_ne_nil _ _) (hnot hbytes)
  | line hbody hlines => exact IsCut.line (hnot hbody) hlines

theorem isCut_cutLines (bytes : List UInt8) : IsCut bytes (cutLines bytes) := by
  fun_induction cutLines bytes with
  | case1 => exact .nil
  | case2 bytes ih => exact IsCut.line List.not_mem_nil ih
  | case3 b bytes hb hnil ih =>
    rw [hnil] at ih
    cases ih
    exact .rest (List.cons_ne_nil _ _) (by simpa using Ne.symm hb)
  | case4 b bytes hb line lines hcons ih =>
    rw [hcons] at ih
    exact ih.cons hb

theorem cutLines_eq_iff {bytes : List UInt8} {lines : List (List UInt8)} :
    cutLines bytes = lines ↔ IsCut bytes lines :=
  ⟨fun h => h ▸ isCut_cutLines bytes, IsCut.cutLines_eq⟩

/-! ## Whole lines -/

/-- The last line is ended by a newline, if there is a line at all. -/
def IsWhole (bytes : List UInt8) : Prop := ∀ b ∈ bytes.getLast?, b = newline

theorem IsCut.append {before after : List UInt8} {lines lines' : List (List UInt8)}
    (h : IsCut before lines) (hwhole : IsWhole before) (h' : IsCut after lines') :
    IsCut (before ++ after) (lines ++ lines') := by
  induction h with
  | nil => exact h'
  | rest hne hbytes =>
    have hlast := hwhole _ (List.getLast?_eq_some_getLast hne)
    exact absurd (hlast ▸ List.getLast_mem hne) hbytes
  | @line body bytes lines hbody _ ih =>
    have hrest : IsWhole bytes := by
      intro b hb
      refine hwhole b ?_
      rw [List.getLast?_append, List.getLast?_cons, hb]
      rfl
    rw [List.append_assoc, List.cons_append, List.cons_append]
    exact IsCut.line hbody (ih hrest)

theorem cutLines_append {before : List UInt8} (h : IsWhole before) (after : List UInt8) :
    cutLines (before ++ after) = cutLines before ++ cutLines after :=
  ((isCut_cutLines before).append h (isCut_cutLines after)).cutLines_eq

/-! ## Decoding -/

/-- The bytes of a text are those that encode it. -/
theorem decode?_eq_some_iff {bytes : List UInt8} {text : String} :
    decode? bytes = some text ↔ bytes = encode text := by
  constructor
  · intro h
    unfold decode? String.fromUTF8? at h
    split at h
    · cases h
      simp [encode, String.fromUTF8]
    · cases h
  · rintro rfl
    exact decode?_encode text

end InfixCalculator.Text
