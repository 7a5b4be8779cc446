import CarbideOS.Agent.Commands

namespace CarbideOS.Agent
open Interruptible

/-- The fields of the reply to an activation that worked. -/
structure ActivationReply where
  name : String
  version : String
  phase : String
  replayed : Bool
  knownGood : Option String
  deriving DecidableEq, Repr

section
variable (env : Environment) {α : Type}

/-- The handler of `activate-extension` with what it replies. -/
def replyActivateExtension (r : Request) : Act Failure ActivationReply :=
  match r.name, r.version with
  | none, _ => Prog.fail (Failure.new .malformed "activate-extension needs a name")
  | some _, none => Prog.fail (Failure.new .malformed "activate-extension needs a version")
  | some name, some version => do
    Prog.demand (versionValid name && versionValid version)
      (Failure.new .malformed "unusable name or version")
    let activation ← activateExtension env name version r.requestId
    pure ⟨name, activation.version, "active", activation.replayed, activation.knownGood⟩

/-- `exclusive` for a handler with a reply. -/
def exclusively (operation : Act Failure α) : Act Failure α := do
  tryLock env
  Prog.mapError (fun error =>
      Failure.new .failed s!"could not reconcile interrupted work: {error}")
    (reconcileState env)
  operation

/-- What the socket answers to an `activate-extension` request. -/
def activationAnswer (r : Request) : Act Failure ActivationReply :=
  exclusively env (replyActivateExtension env r)

/-- The call is the answer without its reply. -/
theorem activationAnswer_call (r : Request) :
    Call.activateExtension.run env r = activationAnswer env r >>= fun _ => pure () := by
  have handler : answerActivateExtension env r =
      replyActivateExtension env r >>= fun _ => pure () := by
    unfold answerActivateExtension replyActivateExtension
    cases r.name with
    | none => rfl
    | some name =>
      cases r.version with
      | none => rfl
      | some version =>
        simp only [Prog.bind_assoc]
        rfl
  change exclusive env (answerActivateExtension env r) = _
  rw [handler]
  unfold exclusive activationAnswer exclusively
  simp only [Prog.bind_assoc]

end
end CarbideOS.Agent
