import CarbideOS.Lib.Panics
import CarbideOS.Agent.Config

namespace CarbideOS.Agent.Health
open Panics

/-- A reading of the monotonic clock. -/
structure Instant where
  secs : Nat
  nanos : Nat
  deriving DecidableEq, Repr

/-- An instant so many seconds later, where the clock's 64 bits have one. -/
def Instant.add (t : Instant) (seconds : Nat) : Option Instant :=
  if t.secs + seconds < 2 ^ 63 then some { t with secs := t.secs + seconds } else none

def Instant.total (t : Instant) : Nat := t.secs * 10 ^ 9 + t.nanos

/-- How a command ended. -/
structure ExitStatus where
  success : Bool
  shown : String
  deriving DecidableEq, Repr

/-- What there is around the checks: the clock, the units and the command that is run. -/
structure Host (σ : Type) where
  now : σ → Instant × σ
  /-- Sleep so many nanoseconds. -/
  sleep : Nat → σ → σ
  startUnit : String → σ → Except String Unit × σ
  stopUnit : String → σ → σ
  unitIsActive : String → σ → Bool × σ
  unitFailed : String → σ → Bool × σ
  spawn : String → List String → σ → Except String Unit × σ
  tryWait : σ → Except String (Option ExitStatus) × σ
  kill : σ → σ

section
variable {σ : Type} (h : Host σ) (r : Ruleset)

/-- What is asked of the host. -/
def ask {α : Type} (f : σ → α × σ) : Work σ α := fun s => .ok (f s)

def tell (f : σ → σ) : Work σ Unit := fun s => .ok ((), f s)

/-- The end of a time that starts now. -/
def deadline (seconds : Nat) : Work σ Instant := do
  let now ← ask h.now
  Work.expect (now.add seconds)

/-- Look at the unit again and again, until it is active, has failed, or the time is over. -/
def poll (until_ : Instant) : Nat → Work σ Bool
  | 0 => Work.running
  | rounds + 1 => do
    let now ← ask h.now
    if now.total < until_.total then
      if ← ask (h.unitIsActive r.unit) then pure true
      else if ← ask (h.unitFailed r.unit) then pure false
      else
        tell (h.sleep (500 * 10 ^ 6))
        poll until_ rounds
    else pure false

/-- The attempts that are left. -/
def attempts (rounds : Nat) : Nat → Work σ (Except String Unit)
  | 0 => pure (.error (s!"{r.unit} did not become ready within {r.readyTimeout}s " ++
      s!"across {r.startAttempts} attempts"))
  | left + 1 => do
    match ← ask (h.startUnit r.unit) with
    | .error error => pure (.error error)
    | .ok () =>
      let until_ ← deadline h r.readyTimeout
      if ← poll h r until_ rounds then pure (.ok ())
      else if ← ask (h.unitIsActive r.unit) then pure (.ok ())
      else
        if 0 < left then tell (h.stopUnit r.unit)
        attempts rounds left

def waitUntilReady (rounds : Nat) : Work σ (Except String Unit) :=
  attempts h r rounds r.startAttempts

/-- Wait for the command to exit, or for its time to be over. -/
def reap (until_ : Instant) : Nat → Work σ (Except String Unit)
  | 0 => Work.running
  | rounds + 1 => do
    match ← ask h.tryWait with
    | .ok (some status) =>
      if status.success then pure (.ok ())
      else pure (.error s!"health command exited with {status.shown}")
    | .ok none =>
      let now ← ask h.now
      if until_.total ≤ now.total then
        tell h.kill
        pure (.error s!"health command exceeded {r.healthTimeout}s")
      else
        tell (h.sleep (200 * 10 ^ 6))
        reap until_ rounds
    | .error error => pure (.error s!"health command failed: {error}")

def probe (rounds : Nat) : Work σ (Except String Unit) :=
  match r.healthCommand with
  | none => pure (.ok ())
  | some command => do
    let program ← Work.expect command.head?
    match ← ask (h.spawn program command.tail) with
    | .error error => pure (.error s!"health command failed to start: {error}")
    | .ok () =>
      let until_ ← deadline h r.healthTimeout
      reap h r until_ rounds

/-- The rounds of a soak, and the last look at its end. -/
def keepHealthy (until_ : Instant) (probing : Nat) : Nat → Work σ (Except String Unit)
  | 0 => Work.running
  | rounds + 1 => do
    let now ← ask h.now
    if now.total < until_.total then
      if ← ask (h.unitIsActive r.unit) then
        match ← probe h r probing with
        | .error error => pure (.error error)
        | .ok () =>
          let now ← ask h.now
          tell (h.sleep (min (r.healthInterval * 10 ^ 9) (until_.total - now.total)))
          keepHealthy until_ probing rounds
      else pure (.error s!"{r.unit} stopped during soak")
    else if ← ask (h.unitIsActive r.unit) then probe h r probing
    else pure (.error s!"{r.unit} stopped during soak")

def soak (rounds : Nat) : Work σ (Except String Unit) :=
  if r.soak = 0 then probe h r rounds
  else do
    let until_ ← deadline h r.soak
    keepHealthy h r until_ rounds rounds

end
end CarbideOS.Agent.Health
