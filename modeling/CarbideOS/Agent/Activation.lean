import CarbideOS.Agent.Protocol
import CarbideOS.Agent.Recovery

namespace CarbideOS.Agent
open Interruptible

/-- What an activation settled on. -/
structure Activation where
  version : String
  knownGood : Option String
  /-- True when the request was a replay of one already applied. -/
  replayed : Bool
  deriving DecidableEq, Repr

/-- An activation that went wrong after it was recorded, and the unit it had
started if it got that far. -/
structure Setback where
  reason : String
  stage : Stage
  unit : Option String
  deriving DecidableEq, Repr

section
variable (env : Environment) {ε : Type}

/-- A plain failure of a preparing step. -/
def failedAt (stage : Stage) (m : Act String α) : Act Failure α :=
  Prog.mapError (fun error => (Failure.new .failed error).atStage stage) m

/-- Adopt an active image that has no known-good yet. One without a ruleset can
never be adopted and is replaced as a first install would. -/
def adoptUnrecorded (name : String) : Act Failure Unit := do
  let w ← Prog.read
  if ((w.memory.get name).bind ExtensionState.knownGoodVersion).isNone &&
      w.fileExists (w.activePath name) then do
    match ← mergedVersion env name with
    | none => pure ()
    | some current =>
      match ← Prog.attempt (adoptActive env name current) with
      | .ok () => pure ()
      | .error (.noRuleset _) => pure ()
      | .error error => do
        let shown := error.display
        Prog.fail
          ((Failure.new .failed s!"could not adopt the active image: {shown}").atStage .checking)
  else pure ()

/-- The size of the copy that retaining the outgoing image will take. -/
def outgoingSize (name : String) (previous : Option String) : Act Failure Nat := do
  let w ← Prog.read
  match previous with
  | none => pure 0
  | some version =>
    if w.fileExists (w.rollbackPath name version) then pure 0
    else failedAt .checking (fileSize env (w.activePath name))

def requireActivationSpace (required : Nat) : Act Failure Unit := do
  let available ← failedAt .checking (availableBytes env)
  Prog.demand (required ≤ available)
    ((Failure.new .noSpace
      s!"insufficient space: transaction needs {required} bytes, {available} available").atStage
        .checking)

/-- Retain the outgoing image before it is overwritten. -/
def retainOutgoing (name : String) (previous : Option String) : Act Failure Unit := do
  let w ← Prog.read
  match previous with
  | none => pure ()
  | some version =>
    if w.fileExists (w.activePath name) && !(w.fileExists (w.rollbackPath name version)) then
      Prog.mapError (fun error =>
          (Failure.new .failed s!"could not retain the outgoing image: {error}").atStage .staging)
        (durableCopy env (w.activePath name) (w.rollbackPath name version))
    else pure ()

def recordActivating (name version : String) (requestId previous : Option String) :
    Act Failure Unit := do
  Act.entry name fun e =>
    { e with
      candidateVersion := some version
      requestId := requestId
      phase := .activating
      knownGoodVersion := match previous with
        | some p => some p
        | none => e.knownGoodVersion }
  failedAt .staging (store env)

/-- Stop the running unit, which unlike in a recovery has to work. -/
def stopCurrent (name : String) : Act String Unit := do
  match ← Prog.attempt (loadNamed env name) with
  | .ok current => stopUnit env current.unit
  | .error _ => pure ()

/-- Replace the active image by the candidate, merge it and read its ruleset. -/
def promote (name : String) (candidate : Path) : Act Setback Ruleset := do
  Prog.mapError (fun error => ⟨error, .activating, none⟩) (stopCurrent env name)
  Prog.mapError (fun error => ⟨s!"could not install the image: {error}", .activating, none⟩)
    (installActive env candidate name)
  Prog.mapError (fun error => ⟨s!"could not merge the image: {error}", .activating, none⟩)
    (sysextRefresh env)
  Prog.mapError (fun error => ⟨s!"could not reload systemd: {error}", .activating, none⟩)
    (daemonReload env)
  Prog.mapError (fun error => ⟨s!"candidate supplied no usable ruleset: {error}",
    .activating, none⟩)
    (loadNamed env name)

/-- Note how the image being tried did at a check, and fail with it if it failed. -/
def judged (name : String) (image : Option Bytes) (m : Act String Unit)
    (setback : String → Setback) : Act Setback Unit := do
  match ← Prog.attempt m with
  | .ok () => pure ()
  | .error reason => do
    Act.note name image .failed
    Prog.fail (setback reason)

/-- The candidate's way from started to proven. -/
def prove (name : String) (image : Option Bytes) (ruleset : Ruleset) : Act Setback Unit := do
  let unit := ruleset.unit
  Act.entry name fun e => { e with phase := .starting }
  Prog.mapError (fun error => ⟨s!"could not record starting phase: {error}",
    .activating, some unit⟩)
    (store env)
  judged name image (waitUntilReady env ruleset) fun reason => ⟨reason, .activating, some unit⟩
  Act.entry name fun e => { e with phase := .soaking }
  Prog.mapError (fun error => ⟨s!"could not record soaking phase: {error}", .soaking, some unit⟩)
    (store env)
  judged name image (soak env ruleset) fun reason => ⟨reason, .soaking, some unit⟩
  Act.note name image .soaked

/-- Commit a proven candidate. The record in memory changes only if the commit
reached the disk. -/
def commit (name version : String) (requestId : Option String) (unit : String) :
    Act Setback Unit := do
  let w ← Prog.read
  Act.entry name fun e =>
    let e := { e with
      phase := .active
      terminalOsVersion := none
      activeVersion := some version
      candidateVersion := none
      lastHealth := some "healthy"
      lastFailure := none
      required := true }
    match requestId with
    | some id => e.recordCompleted id
    | none => e
  match ← Prog.attempt (store env) with
  | .ok () => pure ()
  | .error error => do
    Act.hold w.memory
    Prog.fail ⟨s!"could not commit active state: {error}", .activating, some unit⟩

/-- Everything between the record of an activation and its commit. -/
def tryCandidate (name version : String) (requestId : Option String) (candidate : Path) :
    Act Setback Unit := do
  let w ← Prog.read
  let image := w.readFile candidate
  Act.note name image .attempted
  let ruleset ← promote env name candidate
  prove env name image ruleset
  commit env name version requestId ruleset.unit

/-- The last journal lines of a unit, if there are any to be had. -/
def journalLines : Option String → Act ε (List String)
  | none => pure []
  | some unit => Act.ask fun w => (env.journal unit w).getD []

/-- Go back to the known-good image and say so. -/
def revertSetback (name : String) (setback : Setback) : Act Failure Activation := do
  let log ← journalLines env setback.unit
  let reason := setback.reason
  match ← Prog.attempt (recover env name reason) with
  | .ok () =>
    let failure := ((Failure.new .failed s!"{reason}; reverted").atStage .reverting).withLog log
    Prog.fail { failure with unit := setback.unit }
  | .error error =>
    let failure := ((Failure.new .failed error).atStage setback.stage).withLog log
    Prog.fail { failure with unit := setback.unit }

/-- From the record of the activation to its result. -/
def activateRecorded (name version : String) (requestId previous : Option String)
    (candidate : Path) : Act Failure Activation := do
  match ← Prog.attempt (tryCandidate env name version requestId candidate) with
  | .error setback => revertSetback env name setback
  | .ok () => do
    let _ ← Prog.attempt (pruneCandidates env name none)
    let _ ← Prog.attempt (pruneRollbacks env name previous)
    pure ⟨version, previous, false⟩

/-- Activation of a candidate that is there, by a request not seen before. -/
def activateCandidate (name version : String) (requestId : Option String) :
    Act Failure Activation := do
  adoptUnrecorded env name
  let w ← Prog.read
  let candidate := w.candidatePath name version
  let previous := (w.memory.get name).bind ExtensionState.activeVersion
  let candidateSize ← failedAt .checking (fileSize env candidate)
  let rollbackSize ← outgoingSize env name previous
  requireActivationSpace env (activationSpace candidateSize rollbackSize)
  retainOutgoing env name previous
  recordActivating env name version requestId previous
  activateRecorded env name version requestId previous candidate

/-- Whether a request has been applied to an extension before. -/
def isReplay (entry : Option ExtensionState) (requestId : Option String) : Bool :=
  match requestId, entry with
  | some id, some e => e.alreadyCompleted id
  | _, _ => false

/-- Promote a staged candidate, reverting if it does not prove itself. -/
def activateExtension (name version : String) (requestId : Option String) :
    Act Failure Activation := do
  let state ← Prog.mapError (fun error =>
      Failure.new .failed s!"could not read agent state: {error}") (loadState env)
  Act.hold state
  let w ← Prog.read
  if isReplay (state.get name) requestId then
    pure ⟨version, (state.get name).bind ExtensionState.knownGoodVersion, true⟩
  else
    let candidate := w.candidatePath name version
    if w.fileExists candidate then activateCandidate env name version requestId
    else
      let shown := candidate.display
      Prog.fail
        ((Failure.new .notFound s!"no staged candidate at {shown}").atStage .checking)

end
end CarbideOS.Agent
