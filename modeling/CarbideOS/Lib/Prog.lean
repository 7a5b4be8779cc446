import Mathlib

namespace Interruptible

/-- How a run ends: with a value, with an error, or cut off while it still had
steps to take. The state it had reached is kept in all three cases. -/
inductive Outcome (σ ε α : Type) where
  | ok (value : α) (state : σ)
  | error (why : ε) (state : σ)
  | halt (state : σ)

/-- The state a run left behind, whichever way it ended. -/
def Outcome.state {σ ε α : Type} : Outcome σ ε α → σ
  | .ok _ s => s
  | .error _ s => s
  | .halt s => s

def Outcome.isOk {σ ε α : Type} : Outcome σ ε α → Bool
  | .ok _ _ => true
  | _ => false

/-- Why a run failed, if it did. -/
def Outcome.failure {σ ε α : Type} : Outcome σ ε α → Option ε
  | .error e _ => some e
  | _ => none

/-- The value a run returned, if it did. -/
def Outcome.value {σ ε α : Type} : Outcome σ ε α → Option α
  | .ok a _ => some a
  | _ => none

theorem Outcome.eq_ok {σ ε α : Type} {o : Outcome σ ε α} {a : α} (h : o.value = some a) :
    o = .ok a o.state := by
  cases o <;> cases h
  rfl

theorem Outcome.eq_error {σ ε α : Type} {o : Outcome σ ε α} {e : ε} (h : o.failure = some e) :
    o = .error e o.state := by
  cases o <;> cases h
  rfl

theorem Outcome.ok_of_isOk {σ ε α : Type} {o : Outcome σ ε α} (h : o.isOk = true) :
    ∃ a, o = .ok a o.state := by
  cases o with
  | ok a s => exact ⟨a, rfl⟩
  | error e s => cases h
  | halt s => cases h

/-- A program over a state that may fail, and may be cut off between two steps. -/
def Prog (σ ε α : Type) : Type := σ → Outcome σ ε α

namespace Prog

variable {σ ε ε' α β : Type}

protected def pure (a : α) : Prog σ ε α := fun s => .ok a s

/-- Only a value lets the next program start. -/
protected def bind (m : Prog σ ε α) (f : α → Prog σ ε β) : Prog σ ε β := fun s =>
  match m s with
  | .ok a t => f a t
  | .error e t => .error e t
  | .halt t => .halt t

instance : Monad (Prog σ ε) where
  pure := Prog.pure
  bind := Prog.bind

/-- Fail without taking a step. -/
def fail (e : ε) : Prog σ ε α := fun s => .error e s

/-- Run a program that may fail and hand its error to the caller as a value.
Nothing can be done about a halt. -/
def attempt (m : Prog σ ε α) : Prog σ ε' (Except ε α) := fun s =>
  match m s with
  | .ok a t => .ok (.ok a) t
  | .error e t => .ok (.error e) t
  | .halt t => .halt t

/-- Restate the error of a program for its caller. -/
def mapError (f : ε → ε') (m : Prog σ ε α) : Prog σ ε' α := fun s =>
  match m s with
  | .ok a t => .ok a t
  | .error e t => .error (f e) t
  | .halt t => .halt t

def read : Prog σ ε σ := fun s => .ok s s

def change (f : σ → σ) : Prog σ ε Unit := fun s => .ok () (f s)

/-- Refuse to go on unless a condition holds. -/
def demand (c : Bool) (e : ε) : Prog σ ε Unit := if c then pure () else fail e

theorem bind_apply (m : Prog σ ε α) (f : α → Prog σ ε β) (s : σ) :
    (m >>= f) s = match m s with
      | .ok a t => f a t
      | .error e t => .error e t
      | .halt t => .halt t := rfl

theorem bind_of_ok {m : Prog σ ε α} {s t : σ} {a : α} (h : m s = .ok a t)
    (f : α → Prog σ ε β) : (m >>= f) s = f a t := by
  rw [bind_apply, h]

theorem bind_of_error {m : Prog σ ε α} {s t : σ} {e : ε} (h : m s = .error e t)
    (f : α → Prog σ ε β) : (m >>= f) s = .error e t := by
  rw [bind_apply, h]

theorem bind_of_halt {m : Prog σ ε α} {s t : σ} (h : m s = .halt t)
    (f : α → Prog σ ε β) : (m >>= f) s = .halt t := by
  rw [bind_apply, h]

theorem bind_assoc {γ : Type} (m : Prog σ ε α) (f : α → Prog σ ε β) (g : β → Prog σ ε γ) :
    (m >>= f) >>= g = m >>= fun a => f a >>= g := by
  funext s
  simp only [bind_apply]
  cases m s <;> rfl

/-- What follows a program matters only where it returned a value. -/
theorem bind_congr {m : Prog σ ε α} {f g : α → Prog σ ε β} {s : σ}
    (h : ∀ a t, m s = .ok a t → f a t = g a t) : (m >>= f) s = (m >>= g) s := by
  rw [bind_apply, bind_apply]
  cases he : m s with
  | ok a t => exact h a t he
  | error e t => rfl
  | halt t => rfl

/-- A sequence that returned a value did so through both of its programs. -/
theorem bind_eq_ok {m : Prog σ ε α} {f : α → Prog σ ε β} {s u : σ} {b : β} :
    (m >>= f) s = .ok b u ↔ ∃ a t, m s = .ok a t ∧ f a t = .ok b u := by
  rw [bind_apply]
  cases h : m s <;> simp

/-- A sequence that failed did so in one of its programs. -/
theorem bind_eq_error {m : Prog σ ε α} {f : α → Prog σ ε β} {s u : σ} {e : ε} :
    (m >>= f) s = .error e u ↔
      m s = .error e u ∨ ∃ a t, m s = .ok a t ∧ f a t = .error e u := by
  rw [bind_apply]
  cases h : m s <;> simp

/-- What holds where the first program ends, and where the rest ends after it, holds
where the sequence ends. -/
theorem bind_state {P : σ → Prop} {m : Prog σ ε α} {f : α → Prog σ ε β} {s : σ}
    (first : P (m s).state) (rest : ∀ a t, m s = .ok a t → P (f a t).state) :
    P ((m >>= f) s).state := by
  rw [bind_apply]
  cases he : m s <;> rw [he] at first
  case ok a t => exact rest a t he
  case error e t => exact first
  case halt t => exact first

theorem attempt_eq_ok {m : Prog σ ε α} {s t : σ} {r : Except ε α} :
    (attempt m : Prog σ ε' _) s = .ok r t ↔
      (∃ a, r = .ok a ∧ m s = .ok a t) ∨ (∃ e, r = .error e ∧ m s = .error e t) := by
  unfold attempt
  cases h : m s <;> simp [eq_comm]

theorem attempt_ne_error {m : Prog σ ε α} {s t : σ} {e : ε'} :
    (attempt m : Prog σ ε' _) s ≠ .error e t := by
  unfold attempt
  cases h : m s <;> simp

theorem attempt_eq_halt {m : Prog σ ε α} {s t : σ} :
    (attempt m : Prog σ ε' _) s = .halt t ↔ m s = .halt t := by
  unfold attempt
  cases h : m s <;> simp

theorem mapError_eq_ok {m : Prog σ ε α} {f : ε → ε'} {s t : σ} {a : α} :
    mapError f m s = .ok a t ↔ m s = .ok a t := by
  unfold mapError
  cases h : m s <;> simp

theorem mapError_eq_error {m : Prog σ ε α} {f : ε → ε'} {s t : σ} {e : ε'} :
    mapError f m s = .error e t ↔ ∃ d, m s = .error d t ∧ f d = e := by
  unfold mapError
  cases h : m s <;> simp [and_comm]

@[simp] theorem attempt_state (m : Prog σ ε α) (s : σ) :
    (attempt m s : Outcome σ ε' (Except ε α)).state = (m s).state := by
  unfold attempt
  cases m s <;> rfl

@[simp] theorem mapError_state (f : ε → ε') (m : Prog σ ε α) (s : σ) :
    (mapError f m s).state = (m s).state := by
  unfold mapError
  cases m s <;> rfl

theorem demand_apply (c : Bool) (e : ε) (s : σ) :
    (demand c e : Prog σ ε Unit) s = if c then .ok () s else .error e s := by
  cases c <;> rfl

end Prog
end Interruptible
