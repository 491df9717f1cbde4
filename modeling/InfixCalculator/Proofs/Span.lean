import Mathlib.Data.List.TakeWhile

/-!
# Spans

A scan takes the elements of a list while they are in a class. Where it stops is known as soon as
the list is seen as a part inside the class, followed by a part that misses it.
-/

namespace InfixCalculator

variable {α : Type} {p : α → Bool} {xs ys : List α}

/-- The first element, if there is one, is not in the class. -/
def Misses (p : α → Bool) (xs : List α) : Prop := ∀ a ∈ xs.head?, p a = false

theorem Misses.mono {q : α → Bool} (h : Misses q xs) (hpq : ∀ a, q a = false → p a = false) :
    Misses p xs := fun a ha => hpq a (h a ha)

theorem Misses.append (hxs : Misses p xs) (hys : Misses p ys) : Misses p (xs ++ ys) := by
  cases xs with
  | nil => exact hys
  | cons a xs => exact hxs

theorem misses_dropWhile (p : α → Bool) (xs : List α) : Misses p (xs.dropWhile p) := by
  intro a ha
  have h := List.head?_dropWhile_not p xs
  rw [ha] at h
  exact h

theorem takeWhile_eq_of_misses (hxs : ∀ a ∈ xs, p a) (hys : Misses p ys) :
    (xs ++ ys).takeWhile p = xs := by
  rw [List.takeWhile_append_of_pos hxs]
  cases ys with
  | nil => simp
  | cons a ys => simp [hys a rfl]

theorem dropWhile_eq_of_misses (hxs : ∀ a ∈ xs, p a) (hys : Misses p ys) :
    (xs ++ ys).dropWhile p = ys := by
  rw [List.dropWhile_append_of_pos hxs]
  cases ys with
  | nil => rfl
  | cons a ys => simp [hys a rfl]

/-- Every list is seen so. -/
theorem exists_span (p : α → Bool) (xs : List α) :
    ∃ above below, xs = above ++ below ∧ (∀ a ∈ above, p a) ∧ Misses p below :=
  ⟨xs.takeWhile p, xs.dropWhile p, List.takeWhile_append_dropWhile.symm,
    fun _ ha => List.mem_takeWhile_imp ha, misses_dropWhile p xs⟩

end InfixCalculator
