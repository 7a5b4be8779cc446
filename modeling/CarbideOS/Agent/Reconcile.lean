import CarbideOS.Agent.Recovery

namespace CarbideOS.Agent
open Interruptible

section
variable (env : Environment) {ε : Type}

def forgetVersions (e : ExtensionState) : ExtensionState :=
  { e with activeVersion := none, knownGoodVersion := none, candidateVersion := none }

/-- Remove everything an extension has for the running base. -/
def completeRemoval (name : String) : Act String Unit := do
  stopMerged env name
  removeActive env name
  sysextRefresh env
  daemonReload env
  pruneCandidates env name none
  pruneRollbacks env name none
  Act.entry name fun e =>
    { e with
      phase := .idle
      activeVersion := none
      knownGoodVersion := none
      candidateVersion := none
      lastHealth := none
      lastFailure := none }

/-- Run a step of the reconcile that reports its failure instead of stopping. -/
def report (message : String → String) (m : Act String Unit) : Act ε (List String) := do
  match ← Prog.attempt m with
  | .ok () => pure []
  | .error error => pure [message error]

/-- An entry as it was when the reconcile started. -/
structure Snapshot where
  name : String
  phase : Phase
  candidate : Option String
  knownGood : Option String
  deriving DecidableEq, Repr

def State.snapshots (s : State) : List Snapshot :=
  s.extensions.toList.map fun p =>
    ⟨p.1, p.2.phase, p.2.candidateVersion, p.2.knownGoodVersion⟩

/-- A staged candidate that is gone leaves the phase that fits what is active. -/
def reconcileStaged (name : String) (candidate : Option String) : Act ε (List String) := do
  let w ← Prog.read
  if candidate.any fun version => w.fileExists (w.candidatePath name version) then pure []
  else do
    let active := w.fileExists (w.activePath name)
    Act.entry name fun e =>
      { e with
        candidateVersion := none
        phase := if active then .active else .idle
        activeVersion := if !active && !e.required then none else e.activeVersion
        knownGoodVersion := if !active && !e.required then none else e.knownGoodVersion
        lastFailure := some "staged candidate disappeared before activation" }
    pure []

def reportCandidates (name : String) : Act ε (List String) :=
  report (fun error => s!"{name}: could not prune candidates: {error}")
    (pruneCandidates env name none)

/-- An active image that is gone is restored if required, and forgotten if not. -/
def reconcileActive (name : String) : Act ε (List String) := do
  let w ← Prog.read
  if w.fileExists (w.activePath name) then reportCandidates env name
  else if (w.memory.get name).any ExtensionState.required then do
    let restored ← report (fun error => s!"{name}: {error}")
      (recover env name "active image disappeared between operations")
    let pruned ← reportCandidates env name
    pure (restored ++ pruned)
  else do
    Act.entry name fun e => { forgetVersions e with phase := .idle }
    reportCandidates env name

def reconcileIdle (name : String) : Act ε (List String) := do
  let w ← Prog.read
  if !(w.fileExists (w.activePath name)) && (w.memory.get name).any (!·.required) then do
    Act.entry name forgetVersions
    reportCandidates env name
  else reportCandidates env name

/-- What one phase needs after an interruption. -/
def reconcilePhase (s : Snapshot) : Act ε (List String) :=
  let name := s.name
  match s.phase with
  | .staged => reconcileStaged name s.candidate
  | .activating | .starting | .soaking | .reverting =>
    let phase := s.phase.debug
    report (fun error => s!"{name}: {error}")
      (recover env name s!"interrupted while in phase {phase}")
  | .removing =>
    report (fun error => s!"{name}: could not finish removal: {error}")
      (completeRemoval env name)
  | .active | .recovered => reconcileActive env name
  | .idle => reconcileIdle env name
  | .unrecoverable => reportCandidates env name

def reconcileEntry (s : Snapshot) : Act ε (List String) := do
  let failures ← reconcilePhase env s
  let name := s.name
  let pruned ← report (fun error => s!"{name}: could not prune rollbacks: {error}")
    (pruneRollbacks env name s.knownGood)
  pure (failures ++ pruned)

def reconcileEntries : List Snapshot → Act ε (List String)
  | [] => pure []
  | s :: rest => do
    let failures ← reconcileEntry env s
    let others ← reconcileEntries rest
    pure (failures ++ others)

/-- The candidate an entry keeps through the reconcile. -/
def Snapshot.keptCandidate (w : Node) (s : Snapshot) : Option Path :=
  if s.phase = .staged then s.candidate.map (w.candidatePath s.name) else none

def removeOrphans (kept : List Path) : List Path → Act ε (List String)
  | [] => pure []
  | candidate :: rest => do
    if kept.contains candidate then removeOrphans kept rest
    else do
      let shown := candidate.display
      let failures ← report (fun error =>
          s!"could not remove orphan candidate {shown}: {error}")
        (durableRemove env candidate)
      let others ← removeOrphans kept rest
      pure (failures ++ others)

/-- Candidate files no staged entry names. -/
def reconcileOrphans (kept : List Path) : Act ε (List String) := do
  match ← Prog.attempt (candidateFiles env) with
  | .ok candidates => removeOrphans env kept candidates
  | .error error => pure [s!"could not enumerate candidates: {error}"]

/-- The reconcile once the record is in memory. -/
def reconcileRecord : Act String Unit := do
  let w ← Prog.read
  let entries := w.memory.snapshots
  let failures ← reconcileEntries env entries
  let orphans ← reconcileOrphans env (entries.filterMap (·.keptCandidate w))
  store env
  Prog.demand (failures ++ orphans).isEmpty ("; ".intercalate (failures ++ orphans))

/-- Resolve transactions interrupted by a crash or power loss before a new command
is allowed to mutate anything. -/
def reconcileState : Act String Unit := do
  Prog.mapError (fun error => s!"could not clean interrupted staging files: {error}")
    (pruneTransactionFiles env)
  loadForgetting env
  reconcileRecord env

end
end CarbideOS.Agent
