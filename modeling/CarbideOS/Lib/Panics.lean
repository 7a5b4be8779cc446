import Mathlib

namespace Panics

/-- Why a program has no result. -/
inductive Halt where
  | panic
  /-- The rounds are used up. -/
  | running
  deriving DecidableEq, Repr

/-- A program over what there is around it. -/
abbrev Work (σ α : Type) := StateT σ (Except Halt) α

variable {σ α β : Type}

def Work.panic : Work σ α := fun _ => .error .panic

def Work.running : Work σ α := fun _ => .error .running

/-- A value that is not there is a panic. -/
def Work.expect : Option α → Work σ α
  | some a => pure a
  | none => Work.panic

/-- A program that never panics, and whose results are so. -/
def Never (x : Work σ α) (P : α → Prop) : Prop :=
  ∀ s, x s ≠ .error .panic ∧ ∀ a s', x s = .ok (a, s') → P a

variable {x : Work σ α} {f : α → Work σ β} {P : α → Prop} {Q : β → Prop}

theorem Never.pure {a : α} (h : P a) : Never (Pure.pure a : Work σ α) P := by
  intro s
  refine ⟨nofun, fun b s' same => ?_⟩
  cases same
  exact h

theorem Never.bind (h : Never x P) (next : ∀ a, P a → Never (f a) Q) : Never (x >>= f) Q := by
  intro s
  have step : (x >>= f) s = match x s with
      | .ok (a, s') => f a s'
      | .error e => .error e := by
    change Except.bind (x s) _ = _
    cases x s <;> rfl
  rw [step]
  cases done : x s with
  | error e =>
    refine ⟨fun same => ?_, nofun⟩
    exact (h s).1 (by rw [done]; exact congrArg Except.error (Except.error.inj same))
  | ok p => exact next p.1 ((h s).2 p.1 p.2 done) p.2

theorem Never.weaken {P' : α → Prop} (h : Never x P) (sub : ∀ a, P a → P' a) : Never x P' :=
  fun s => ⟨(h s).1, fun a s' done => sub a ((h s).2 a s' done)⟩

theorem Never.running : Never (Work.running : Work σ α) P := fun _ => ⟨nofun, nofun⟩

/-- A value that is there. -/
theorem Never.expect {o : Option α} (there : o.isSome = true) :
    Never (Work.expect o : Work σ α) fun a => o = some a := by
  cases o with
  | none => cases there
  | some a => exact Never.pure rfl

end Panics
