import CarbideOS.Agent.System

namespace CarbideOS.Agent
open Interruptible

section
variable (env : Environment) {ε : Type}

/-- Record that the agent gives up on an extension. The base is stamped so that a
rollback onto a different one can tell that this refusal belonged to the other. -/
def recordFailure (name reason : String) : Act ε Unit := do
  let w ← Prog.read
  Act.entry name fun e =>
    { e with
      phase := .unrecoverable
      lastFailure := some reason
      lastHealth := none
      terminalOsVersion := w.osVersion }

def terminal (name reason : String) : Act String Unit := do
  recordFailure name reason
  Prog.mapError (fun error => s!"{reason}; could not record terminal state: {error}") (store env)
  Prog.fail reason

/-- Stop whatever the merged image declares, if it declares anything. A unit that
never loaded cannot be stopped, which must not strand a valid known-good image. -/
def stopMerged (name : String) : Act ε Unit := do
  match ← Prog.attempt (loadNamed env name) with
  | .ok current => do
    let _ ← Prog.attempt (stopUnit env current.unit)
    pure ()
  | .error _ => pure ()

/-- Put a retained image back and see it work. The ruleset is read only after the
refresh: it arrives with the image, so it is the restored version's own. -/
def restoreKnownGood (name reason version : String) (image : Path) : Act String Unit := do
  stopMerged env name
  Prog.mapError (fun error => s!"{reason}; could not restore known-good {version}: {error}")
    (installActive env image name)
  Prog.mapError (fun error =>
      s!"{reason}; restored {version} but could not refresh extensions: {error}")
    (sysextRefresh env)
  Prog.mapError (fun error =>
      s!"{reason}; restored {version} but could not reload systemd: {error}")
    (daemonReload env)
  let ruleset ← Prog.mapError (fun error =>
      s!"{reason}; restored {version} has no usable ruleset: {error}")
    (loadNamed env name)
  Prog.mapError (fun error => s!"{reason}; known-good {version} also failed: {error}")
    (healthyNow env ruleset)

/-- Record a recovery and discard the candidate that caused it. -/
def concludeRecovery (name reason version : String) : Act String Unit := do
  Act.entry name fun e =>
    { e with
      phase := .recovered
      activeVersion := some version
      candidateVersion := none
      lastHealth := some "recovered"
      lastFailure := some reason
      terminalOsVersion := none }
  Prog.mapError (fun error => s!"recovered onto {version}, but could not record it: {error}")
    (store env)
  let _ ← Prog.attempt (pruneCandidates env name none)
  let _ ← Prog.attempt (pruneRollbacks env name (some version))
  pure ()

/-- Recovery once there is an image to go back to. -/
def revertTo (name reason version : String) (image : Path) : Act String Unit := do
  Act.entry name fun e => { e with phase := .reverting, lastFailure := some reason }
  Prog.mapError (fun error =>
      s!"{reason}; could not record recovery before replacing the image: {error}")
    (store env)
  match ← Prog.attempt (restoreKnownGood env name reason version image) with
  | .error message => terminal env name message
  | .ok () => concludeRecovery env name reason version

/-- Restore the retained known-good image and confirm it works. -/
def recover (name reason : String) : Act String Unit := do
  let w ← Prog.read
  match (w.memory.get name).bind ExtensionState.knownGoodVersion with
  | none => terminal env name s!"{reason}; no known-good image to fall back to"
  | some version =>
    let image := w.rollbackPath name version
    if w.fileExists image then revertTo env name reason version image
    else terminal env name s!"{reason}; known-good image {version} is missing"

/-- Why an active image could not be adopted. -/
inductive AdoptError where
  | noRuleset (error : String)
  | failed (error : String)
  deriving DecidableEq, Repr

def AdoptError.display : AdoptError → String
  | .noRuleset error => s!"active image has no usable ruleset: {error}"
  | .failed error => error

/-- Retain the active image under a version unless that version has an image already. -/
def retainActive (name version : String) : Act String Unit := do
  let w ← Prog.read
  if w.fileExists (w.rollbackPath name version) then pure ()
  else durableCopy env (w.activePath name) (w.rollbackPath name version)

/-- Take the image that is active, and healthy right now, as known-good. -/
def adoptActive (name version : String) : Act AdoptError Unit := do
  let ruleset ← Prog.mapError .noRuleset (loadNamed env name)
  let w ← Prog.read
  let active := w.activePath name
  Prog.demand (w.fileExists active) (.failed ("no active image at " ++ active.display))
  Prog.mapError .failed (healthyNow env ruleset)
  Prog.mapError .failed (retainActive env name version)
  Act.entry name fun e =>
    { e with
      required := true
      activeVersion := some version
      knownGoodVersion := some version
      phase := .active
      terminalOsVersion := none
      lastHealth := some "healthy"
      lastFailure := none }
  Prog.mapError .failed (store env)

/-- Soak the merged image and retain it under the version it was merged as. -/
def retainHealthy (name version : String) (ruleset : Ruleset) : Act String Unit := do
  soak env ruleset
  let w ← Prog.read
  Act.note name (w.mergedImage name) .soaked
  Prog.mapError (fun error => s!"could not retain healthy {version}: {error}")
    (durableCopy env (w.activePath name) (w.rollbackPath name version))
  Act.entry name fun e =>
    { e with
      activeVersion := some version
      knownGoodVersion := some version
      candidateVersion := none }

/-- Adopt the image that proved healthy under this base, if it is not retained yet. -/
def retainMerged (name : String) (ruleset : Ruleset) : Act String Unit := do
  match ← mergedVersion env name with
  | none => pure ()
  | some version => do
    let w ← Prog.read
    let changed :=
      ((w.memory.get name).bind ExtensionState.activeVersion != some version) ||
        !(w.fileExists (w.rollbackPath name version))
    if changed then retainHealthy env name version ruleset else pure ()

def recordHealthy (name : String) : Act ε Unit :=
  Act.entry name fun e =>
    { e with
      phase := .active
      terminalOsVersion := none
      lastHealth := some "healthy"
      lastFailure := none }

/-- Check one required extension, falling back to its known-good image. -/
def verifyOrRecover (name : String) (merged : List String) : Act String Unit := do
  let w ← Prog.read
  if (w.memory.get name).any fun e => e.phase.isTerminal then
    Prog.fail "in a terminal state; not retrying automatically"
  else
    match ← Prog.attempt (loadNamed env name) with
    | .error error => recover env name s!"no usable ruleset: {error}"
    | .ok ruleset =>
      if !merged.isEmpty && !merged.contains name then
        recover env name "required extension is not merged"
      else
        match ← Prog.attempt (healthyNow env ruleset) with
        | .error reason => recover env name reason
        | .ok () => do
          retainMerged env name ruleset
          recordHealthy name

/-- The required extensions that fail the gate, in the order they are examined. -/
def examineRequired (merged : List String) : List String → Act ε (List String)
  | [] => pure []
  | name :: rest => do
    match ← Prog.attempt (verifyOrRecover env name merged) with
    | .ok () => examineRequired merged rest
    | .error _ => do
      let failures ← examineRequired merged rest
      pure (name :: failures)

/-- Take the record from disk, without the refusals of another base. -/
def loadForgetting : Act String Unit := do
  let state ← loadState env
  let w ← Prog.read
  match w.osVersion with
  | some version => Act.hold (state.forgetStaleTerminals version).1
  | none => Act.hold state

/-- Gate boot assessment on the node actually being able to do its job. -/
def healthGate : Act String Unit := do
  loadForgetting env
  let w ← Prog.read
  let required := w.memory.required
  if required.isEmpty then pure ()
  else do
    let merged ← mergedExtensions env
    let failures ← examineRequired env merged required
    store env
    Prog.demand failures.isEmpty
      ("required extensions unhealthy: " ++ ", ".intercalate failures)

end
end CarbideOS.Agent
