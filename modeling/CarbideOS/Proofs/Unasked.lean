import CarbideOS.Proofs.Guard

namespace CarbideOS.Agent
open Interruptible

/-- The same surroundings, but for what the ruleset file of one extension holds. Its unit is
named there and nowhere else. -/
def Environment.withRuleset (env : Environment) (name : String)
    (contents : Node → Except String String) : Environment :=
  { env with ruleset := fun other w => if other = name then contents w else env.ruleset other w }

section
variable {env : Environment} {name other : String} {contents : Node → Except String String}
  {ε : Type}

theorem pollReady_unread (unit : String) (looks : Nat) :
    (pollReady (env.withRuleset name contents) unit looks : Act ε Bool) =
      pollReady env unit looks := by
  induction looks with
  | zero => rfl
  | succ looks ih =>
    unfold pollReady
    rw [ih]
    rfl

theorem startRemaining_unread (ruleset : Ruleset) (remaining : Nat) :
    startRemaining (env.withRuleset name contents) ruleset remaining =
      startRemaining env ruleset remaining := by
  induction remaining with
  | zero => rfl
  | succ remaining ih =>
    unfold startRemaining
    simp only [pollReady_unread, ih]
    rfl

theorem soakRounds_unread (ruleset : Ruleset) (rounds : Nat) :
    soakRounds (env.withRuleset name contents) ruleset rounds = soakRounds env ruleset rounds := by
  induction rounds with
  | zero => rfl
  | succ rounds ih =>
    unfold soakRounds
    rw [ih]
    rfl

theorem waitUntilReady_unread (ruleset : Ruleset) :
    waitUntilReady (env.withRuleset name contents) ruleset = waitUntilReady env ruleset :=
  startRemaining_unread ruleset _

theorem healthyNow_unread (ruleset : Ruleset) :
    healthyNow (env.withRuleset name contents) ruleset = healthyNow env ruleset := by
  unfold healthyNow
  rw [waitUntilReady_unread]
  rfl

theorem soak_unread (ruleset : Ruleset) :
    soak (env.withRuleset name contents) ruleset = soak env ruleset := by
  unfold soak
  simp only [soakRounds_unread]
  rfl

theorem loadNamed_other (h : other ≠ name) :
    loadNamed (env.withRuleset name contents) other = loadNamed env other := by
  unfold loadNamed Environment.withRuleset
  simp only [if_neg h]
  rfl

theorem stopMerged_other (h : other ≠ name) :
    (stopMerged (env.withRuleset name contents) other : Act ε Unit) = stopMerged env other := by
  unfold stopMerged
  rw [loadNamed_other h]
  rfl

theorem restoreKnownGood_other (h : other ≠ name) (reason version : String) (image : Path) :
    restoreKnownGood (env.withRuleset name contents) other reason version image =
      restoreKnownGood env other reason version image := by
  unfold restoreKnownGood
  simp only [loadNamed_other h, stopMerged_other h, healthyNow_unread]
  rfl

theorem recover_other (h : other ≠ name) (reason : String) :
    recover (env.withRuleset name contents) other reason = recover env other reason := by
  unfold recover revertTo
  simp only [restoreKnownGood_other h]
  rfl

theorem adoptActive_other (h : other ≠ name) (version : String) :
    adoptActive (env.withRuleset name contents) other version = adoptActive env other version := by
  unfold adoptActive
  simp only [loadNamed_other h, healthyNow_unread]
  rfl

theorem verifyOrRecover_other (h : other ≠ name) (merged : List String) :
    verifyOrRecover (env.withRuleset name contents) other merged =
      verifyOrRecover env other merged := by
  unfold verifyOrRecover retainMerged retainHealthy
  simp only [loadNamed_other h, recover_other h, healthyNow_unread, soak_unread]
  rfl

theorem completeRemoval_other (h : other ≠ name) :
    completeRemoval (env.withRuleset name contents) other = completeRemoval env other := by
  unfold completeRemoval
  simp only [stopMerged_other h]
  rfl

theorem reconcilePhase_other {s : Snapshot} (h : s.name ≠ name) :
    (reconcilePhase (env.withRuleset name contents) s : Act ε _) = reconcilePhase env s := by
  unfold reconcilePhase reconcileActive
  simp only [recover_other h, completeRemoval_other h]
  rfl

theorem reconcileEntry_other {s : Snapshot} (h : s.name ≠ name) :
    (reconcileEntry (env.withRuleset name contents) s : Act ε _) = reconcileEntry env s := by
  unfold reconcileEntry
  simp only [reconcilePhase_other h]
  rfl

theorem activateExtension_other (h : other ≠ name) (version : String) (requestId : Option String) :
    activateExtension (env.withRuleset name contents) other version requestId =
      activateExtension env other version requestId := by
  have prove : ∀ image ruleset, prove (env.withRuleset name contents) other image ruleset =
      prove env other image ruleset := by
    intro image ruleset
    unfold Agent.prove
    simp only [waitUntilReady_unread, soak_unread]
    rfl
  unfold activateExtension activateCandidate adoptUnrecorded activateRecorded tryCandidate promote
    stopCurrent revertSetback
  simp only [loadNamed_other h, adoptActive_other h, recover_other h, prove]
  rfl

theorem stageSource_other (h : other ≠ name) (arguments : List String) (source : Source) :
    stageSource (env.withRuleset name contents) other arguments source =
      stageSource env other arguments source := by
  unfold stageSource activateStaged
  simp only [activateExtension_other h]
  rfl

theorem verifyEach_unread (pending : String) (names : List String) :
    verifyEach (env.withRuleset name contents) pending names = verifyEach env pending names := by
  induction names with
  | nil => rfl
  | cons first rest ih =>
    unfold verifyEach
    rw [ih]
    rfl

theorem verifyExtensionsFor_unread (pending : String) :
    verifyExtensionsFor (env.withRuleset name contents) pending =
      verifyExtensionsFor env pending := by
  unfold verifyExtensionsFor
  simp only [verifyEach_unread]
  rfl

theorem stageTarget_unread (target : String) :
    stageTarget (env.withRuleset name contents) target = stageTarget env target := by
  unfold stageTarget
  simp only [verifyExtensionsFor_unread]
  rfl

theorem stageBase_unread (version : Option String) :
    stageBase (env.withRuleset name contents) version = stageBase env version := by
  unfold stageBase
  simp only [stageTarget_unread]
  rfl

theorem stageExtensionCommand_other {rest : List String} (h : other ≠ name) :
    stageExtensionCommand (env.withRuleset name contents) (other :: rest) =
      stageExtensionCommand env (other :: rest) := by
  unfold stageExtensionCommand
  rw [List.head?_cons, Option.filter_some]
  cases Text.startsWith other "--" with
  | true => rfl
  | false => simp only [Bool.not_false, if_true, stageSource_other h]

theorem activate_other {rest : List String} (h : other ≠ name) :
    activate (env.withRuleset name contents) (other :: rest) = activate env (other :: rest) := by
  cases rest with
  | nil => simp only [activate]
  | cons version rest =>
    unfold activate
    dsimp only
    rw [activateExtension_other h]

theorem adopt_other {rest : List String} (h : other ≠ name) :
    adopt (env.withRuleset name contents) (other :: rest) = adopt env (other :: rest) := by
  cases rest with
  | nil => simp only [adopt]
  | cons version rest =>
    unfold adopt
    dsimp only
    rw [adoptActive_other h]
    rfl

theorem rollbackCommand_other {rest : List String} (h : other ≠ name) :
    rollbackCommand (env.withRuleset name contents) (other :: rest) =
      rollbackCommand env (other :: rest) := by
  unfold rollbackCommand named
  simp only [recover_other h]
  rfl

theorem removeExtension_other {rest : List String} (h : other ≠ name) :
    removeExtension (env.withRuleset name contents) (other :: rest) =
      removeExtension env (other :: rest) := by
  unfold removeExtension named
  simp only [completeRemoval_other h]
  rfl

theorem setRequired_unread (arguments : List String) (required : Bool) :
    setRequired (env.withRuleset name contents) arguments required =
      setRequired env arguments required := by
  unfold setRequired
  rfl

theorem reset_unread (arguments : List String) :
    reset (env.withRuleset name contents) arguments = reset env arguments := by
  unfold reset
  rfl

theorem stageBaseCommand_unread (arguments : List String) :
    stageBaseCommand (env.withRuleset name contents) arguments =
      stageBaseCommand env arguments := by
  unfold stageBaseCommand
  rw [stageBase_unread]

/-- A command that is neither the gate nor about this extension. -/
theorem operation_other {c : Command} {arguments : List String} (gate : c ≠ .healthGate)
    (h : c.subject arguments ≠ some name) :
    c.operation (env.withRuleset name contents) arguments = c.operation env arguments := by
  cases c with
  | healthGate => exact absurd rfl gate
  | stageBase => exact stageBaseCommand_unread arguments
  | require => exact setRequired_unread arguments true
  | unrequire => exact setRequired_unread arguments false
  | reset => exact reset_unread arguments
  | _ =>
    rcases arguments with _ | ⟨first, rest⟩
    · simp only [Command.operation, activate, adopt, stageExtensionCommand, rollbackCommand,
        removeExtension, named, List.head?_nil, Option.filter_none]
    have apart : first ≠ name := fun same => h (congrArg some same)
    first
      | exact activate_other apart
      | exact stageExtensionCommand_other apart
      | exact adopt_other apart
      | exact rollbackCommand_other apart
      | exact removeExtension_other apart

/-- A request that is not about this extension. -/
theorem request_other {c : Call} {r : Request} (h : c.subject r ≠ some name) :
    c.operation (env.withRuleset name contents) r = c.operation env r := by
  cases c with
  | stageExtension => rfl
  | activateExtension =>
    change answerActivateExtension (env.withRuleset name contents) r = answerActivateExtension env r
    unfold answerActivateExtension
    cases hn : r.name with
    | none => rfl
    | some first =>
      have apart : first ≠ name := by
        rintro rfl
        exact h hn
      cases r.version with
      | none => rfl
      | some version => simp only [activateExtension_other apart]
  | stageBase =>
    change answerStageBase (env.withRuleset name contents) r = answerStageBase env r
    unfold answerStageBase
    rw [stageBase_unread]

end
end CarbideOS.Agent
