import InfixCalculator.Fault

/-!
# The journal

What happens while a line is answered is written down as records, each with a level. A `Traced`
calculation is its result, a value or a fault, together with the records it wrote; what was written
before a fault stays written.

The lemmas at the end say how the result and the records of a calculation in sequence arise from
those of its parts.
-/

namespace InfixCalculator

namespace Journal

/-- How much a record matters. -/
inductive Level where
  | trace
  | debug
  | info
  | warn
deriving DecidableEq, Repr

structure Record where
  level : Level
  message : String
deriving DecidableEq, Repr

end Journal

open Journal (Level Record)

/-- A calculation: its result and the records it wrote, the earliest first. -/
structure Traced (α : Type) where
  result : Except Fault α
  log : List Record

namespace Traced

variable {α β : Type}

/-- The calculation that gives a value and writes nothing. -/
def succeed (a : α) : Traced α := ⟨.ok a, []⟩

/-- The calculation that writes one record. -/
def note (level : Level) (message : String) : Traced Unit := ⟨.ok (), [⟨level, message⟩]⟩

/-- The calculation with the given result that writes nothing. -/
def ofExcept (result : Except Fault α) : Traced α := ⟨result, []⟩

/-- Goes on with the value of the first calculation; a fault ends the sequence. -/
def bind (x : Traced α) (f : α → Traced β) : Traced β :=
  match x.result with
  | .ok a => ⟨(f a).result, x.log ++ (f a).log⟩
  | .error fault => ⟨.error fault, x.log⟩

instance : Monad Traced where
  pure := succeed
  bind := bind

@[simp] theorem log_pure (a : α) : (pure a : Traced α).log = [] := rfl

theorem bind_of_ok {x : Traced α} {a : α} (h : x.result = .ok a) (f : α → Traced β) :
    x >>= f = ⟨(f a).result, x.log ++ (f a).log⟩ := by
  show bind x f = _
  simp only [bind, h]

theorem bind_of_error {x : Traced α} {fault : Fault} (h : x.result = .error fault)
    (f : α → Traced β) : x >>= f = ⟨.error fault, x.log⟩ := by
  show bind x f = _
  simp only [bind, h]

@[simp] theorem result_bind (x : Traced α) (f : α → Traced β) :
    (x >>= f).result = x.result.bind fun a => (f a).result := by
  cases h : x.result with
  | ok a => rw [bind_of_ok h]; rfl
  | error fault => rw [bind_of_error h]; rfl

end Traced

end InfixCalculator
