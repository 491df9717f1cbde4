import InfixCalculator.Proofs.Span
import InfixCalculator.Text.Blank

/-!
# Trimmed texts

What is left of a text by trimming is a part of it that neither starts nor ends with a blank. It is
the only such part with nothing but blanks around it.

* `Blank`, `Trimmed`: the two classes of texts.
* `trimChars_surrounded`: blanks around a text do not matter.
* `trimChars_eq_iff`: the part that is left.
-/

namespace InfixCalculator.Text

variable {cs : List Char} {c : Char}

theorem trimChars_isPrefix_dropWhile (cs : List Char) : trimChars cs <+: cs.dropWhile isBlank := by
  have h := List.dropWhile_suffix (l := (cs.dropWhile isBlank).reverse) isBlank
  rw [← List.reverse_prefix, List.reverse_reverse] at h
  exact h

theorem mem_of_mem_trimChars (h : c ∈ trimChars cs) : c ∈ cs :=
  (List.dropWhile_suffix isBlank).subset ((trimChars_isPrefix_dropWhile cs).subset h)

theorem misses_trimChars (cs : List Char) : Misses isBlank (trimChars cs) := by
  intro c hc
  obtain ⟨rest, hrest⟩ := trimChars_isPrefix_dropWhile cs
  refine misses_dropWhile isBlank cs c ?_
  rw [← hrest, List.head?_append, hc]
  rfl

theorem isBlank_getLast?_trimChars (h : c ∈ (trimChars cs).getLast?) : isBlank c = false := by
  rw [trimChars, List.getLast?_reverse] at h
  exact misses_dropWhile isBlank _ c h

theorem dropWhile_isBlank_of_misses (h : Misses isBlank cs) : cs.dropWhile isBlank = cs :=
  (dropWhile_eq_of_misses (by simp) h : ([] ++ cs).dropWhile isBlank = cs)

/-- A text that neither starts nor ends with a blank is trimmed. -/
theorem trimChars_eq_self (hfirst : Misses isBlank cs)
    (hlast : ∀ c ∈ cs.getLast?, isBlank c = false) : trimChars cs = cs := by
  have hreverse : Misses isBlank cs.reverse := by
    intro c hc
    rw [List.head?_reverse] at hc
    exact hlast c hc
  rw [trimChars, dropWhile_isBlank_of_misses hfirst, dropWhile_isBlank_of_misses hreverse,
    List.reverse_reverse]

/-! ## Blanks around a text -/

/-- Blanks and nothing else. -/
def Blank (w : List Char) : Prop := ∀ c ∈ w, isBlank c

/-- No blank at either end. -/
structure Trimmed (cs : List Char) : Prop where
  first : Misses isBlank cs
  last : ∀ c ∈ cs.getLast?, isBlank c = false

variable {w w' core : List Char}

theorem Blank.append (hw : Blank w) (hw' : Blank w') : Blank (w ++ w') := fun c hc =>
  (List.mem_append.mp hc).elim (hw c) (hw' c)

theorem trimmed_trimChars (cs : List Char) : Trimmed (trimChars cs) :=
  ⟨misses_trimChars cs, fun _ => isBlank_getLast?_trimChars⟩

theorem Trimmed.trimChars_eq (h : Trimmed cs) : trimChars cs = cs :=
  trimChars_eq_self h.first h.last

/-- What stands between two trimmed texts is at neither end. -/
theorem Trimmed.append (h : Trimmed cs) (h' : Trimmed core) (hne : cs ≠ []) (hne' : core ≠ [])
    (middle : List Char) : Trimmed (cs ++ middle ++ core) := by
  constructor
  · obtain ⟨c, cs, rfl⟩ := List.exists_cons_of_ne_nil hne
    exact h.first
  · have hlast := h'.last
    rw [List.getLast?_eq_some_getLast hne'] at hlast
    rwa [List.getLast?_append, List.getLast?_eq_some_getLast hne', Option.some_or]

theorem trimChars_blank_append (hw : Blank w) (cs : List Char) :
    trimChars (w ++ cs) = trimChars cs := by
  rw [trimChars, List.dropWhile_append_of_pos hw, trimChars]

theorem trimChars_append_blank (hw : Blank w) (cs : List Char) :
    trimChars (cs ++ w) = trimChars cs := by
  obtain ⟨above, below, rfl, habove, hbelow⟩ := exists_span isBlank cs
  rw [List.append_assoc, trimChars_blank_append habove, trimChars_blank_append habove]
  cases below with
  | nil =>
    rw [List.nil_append, ← List.append_nil w, trimChars_blank_append hw]
  | cons c below =>
    -- nothing is dropped in front of the first character, and the blanks after it are
    have hmiss : Misses isBlank (c :: below ++ w) := hbelow
    have hreverse : ∀ c ∈ w.reverse, isBlank c := fun c hc => hw c (List.mem_reverse.mp hc)
    rw [trimChars, dropWhile_isBlank_of_misses hmiss, List.reverse_append,
      List.dropWhile_append_of_pos hreverse, trimChars, dropWhile_isBlank_of_misses hbelow]

theorem trimChars_surrounded (hw : Blank w) (hw' : Blank w') (cs : List Char) :
    trimChars (w ++ cs ++ w') = trimChars cs := by
  rw [trimChars_append_blank hw', trimChars_blank_append hw]

/-- Around what trimming leaves there are only blanks. -/
theorem exists_blank_append_trimChars (cs : List Char) :
    ∃ w w', Blank w ∧ Blank w' ∧ cs = w ++ trimChars cs ++ w' := by
  refine ⟨cs.takeWhile isBlank, ((cs.dropWhile isBlank).reverse.takeWhile isBlank).reverse,
    fun c hc => List.mem_takeWhile_imp hc,
    fun c hc => List.mem_takeWhile_imp (List.mem_reverse.mp hc), ?_⟩
  rw [trimChars, List.append_assoc, ← List.reverse_append, List.takeWhile_append_dropWhile,
    List.reverse_reverse, List.takeWhile_append_dropWhile]

/-- What trimming leaves is the one part of a text that has no blank at its ends and nothing but
blanks around it. -/
theorem trimChars_eq_iff :
    trimChars cs = core ↔ Trimmed core ∧ ∃ w w', Blank w ∧ Blank w' ∧ cs = w ++ core ++ w' := by
  constructor
  · rintro rfl
    exact ⟨trimmed_trimChars cs, exists_blank_append_trimChars cs⟩
  · intro h
    obtain ⟨hcore, w, w', hw, hw', rfl⟩ := h
    rw [trimChars_surrounded hw hw', hcore.trimChars_eq]

end InfixCalculator.Text
