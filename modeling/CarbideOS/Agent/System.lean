import CarbideOS.Agent.Node
import CarbideOS.Agent.Config

namespace CarbideOS.Agent
open Interruptible

/-! Slot naming. Only an image meant to merge may end in `.raw`. -/

def legacyActivePath (name : String) : Path := ⟨.extensions, name ++ ".raw"⟩

def scopedActivePath (name osVersion : String) : Path :=
  ⟨.extensions, name ++ "_" ++ osVersion ++ ".raw"⟩

/-- The start of every retained or staged image name of an extension under a base. -/
def slotPrefix (name osVersion : String) : String := name ++ "_" ++ osVersion ++ ".raw."

namespace Node

/-- A node provisioned before scoping carries an unscoped image; it is read until
something installs a scoped one. -/
def activePath (w : Node) (name : String) : Path :=
  let slot := scopedActivePath name w.scope
  if w.fileExists slot then slot
  else if w.fileExists (legacyActivePath name) then legacyActivePath name
  else slot

def rollbackPath (w : Node) (name version : String) : Path :=
  ⟨.extensions, slotPrefix name w.scope ++ version ++ ".rollback"⟩

def candidatePath (w : Node) (name version : String) : Path :=
  ⟨.extensions, slotPrefix name w.scope ++ version ++ ".candidate"⟩

/-- The bytes of the image in the active slot. -/
def activeImage (w : Node) (name : String) : Option Bytes := w.readFile (w.activePath name)

/-- The bytes retained for a version. -/
def rollbackImage (w : Node) (name version : String) : Option Bytes :=
  w.readFile (w.rollbackPath name version)

/-- The bytes staged for a version. -/
def candidateImage (w : Node) (name version : String) : Option Bytes :=
  w.readFile (w.candidatePath name version)

end Node

/-- A copy is published from a sibling that `systemd-sysext` can never merge. -/
def temporaryName (name : String) : String := "." ++ name ++ ".new"

/-- Only a plain version may be interpolated into a path. -/
def versionValid (version : String) : Bool :=
  (version.toList.head?.any Char.isAlphanum) &&
    version.toList.all fun c => c.isAlphanum || c == '.' || c == '_' || c == '-'

def saturatingAdd (a b : Nat) : Nat := min (a + b) (2 ^ 64 - 1)

def saturatingMul (a b : Nat) : Nat := min (a * b) (2 ^ 64 - 1)

def spaceMargin : Nat := 16 * 1024 * 1024

/-- Additional free bytes required after a candidate already exists. -/
def activationSpace (candidateSize missingRollbackSize : Nat) : Nat :=
  saturatingAdd (saturatingAdd candidateSize missingRollbackSize) spaceMargin

/-- Free bytes required before a supplied image is copied into local staging. -/
def stagingSpace (imageSize missingRollbackSize : Nat) : Nat :=
  saturatingAdd (saturatingAdd (saturatingMul imageSize 2) missingRollbackSize) spaceMargin

/-- Whether a directory entry belongs to what a prune removes. -/
def prunable (start finish : String) (keep : Option String) (file : String) : Bool :=
  Text.startsWith file start && Text.endsWith file finish && keep != some file

namespace Node

/-- A published copy: the sibling is gone and the target holds all of the bytes. -/
def publish (w : Node) (target : Path) (bytes : Bytes) : Node :=
  w.setDir target.place
    (((w.dir target.place).erase (temporaryName target.name)).insert target.name bytes)

/-- An unpublished copy: at most a part of the bytes in the sibling. -/
def leaveBehind (w : Node) (target : Path) (bytes : Bytes) : Option Nat → Node
  | none => w.setDir target.place ((w.dir target.place).erase (temporaryName target.name))
  | some n =>
    w.setDir target.place ((w.dir target.place).insert (temporaryName target.name) (bytes.take n))

def unlink (w : Node) (p : Path) : Node := w.setDir p.place ((w.dir p.place).erase p.name)

/-- Remove the files of a directory that satisfy a test. -/
def sweep (w : Node) (place : Place) (test : String → Bool) : Node :=
  w.setDir place ((w.dir place).eraseAll ((w.dir place).keys.filter test))

end Node

section Operations
variable (env : Environment)

/-- Publish bytes under a name, completely or not at all. -/
def durablePublish (bytes : Bytes) (target : Path) : Act String Unit :=
  Act.durable env (.copy target)
    (fun reached w => if reached target.name then w.publish target bytes else w)
    (fun leftover w => w.leaveBehind target bytes leftover)

/-- Publish a complete file atomically and durably. -/
def durableCopy (source target : Path) : Act String Unit := do
  let w ← Prog.read
  match w.readFile source with
  | none => Prog.fail "No such file or directory (os error 2)"
  | some bytes => durablePublish env bytes target

/-- Removing a file that is not there succeeds. -/
def durableRemove (p : Path) : Act String Unit := do
  let w ← Prog.read
  if w.fileExists p then
    Act.durable env (.remove p) (fun reached w => if reached p.name then w.unlink p else w)
      (fun _ w => w)
  else pure ()

/-- The mode of a staged image. Nothing the agent does depends on it. -/
def durableMode (p : Path) : Act String Unit :=
  Act.durable env (.mode p) (fun _ w => w) (fun _ w => w)

/-- Move a file without ever copying into its final visible name. -/
def durableMove (source target : Path) : Act String Unit := do
  durableCopy env source target
  durableRemove env source

def pruneMatchingIn (place : Place) (start finish : String) (keep : Option String) :
    Act String Unit :=
  Act.durable env (.prune place start finish)
    (fun reached w => w.sweep place fun f => prunable start finish keep f && reached f)
    (fun _ w => w)

def pruneRollbacks (name : String) (keepVersion : Option String) : Act String Unit := do
  let w ← Prog.read
  pruneMatchingIn env .extensions (slotPrefix name w.scope) ".rollback"
    (keepVersion.map fun version => (w.rollbackPath name version).name)

def pruneCandidates (name : String) (keepVersion : Option String) : Act String Unit := do
  let w ← Prog.read
  pruneMatchingIn env .extensions (slotPrefix name w.scope) ".candidate"
    (keepVersion.map fun version => (w.candidatePath name version).name)

/-- The candidate files of the running base, including ones whose record was lost. -/
def candidateFiles : Act String (List Path) := fun w =>
  match env.unreadable .candidates w with
  | some e => .error e w.tick
  | none =>
    .ok ((w.extensions.keys.filter fun f =>
      Text.contains f ("_" ++ w.scope ++ ".raw.") && Text.endsWith f ".candidate").map
        fun f => ⟨.extensions, f⟩) w.tick

/-- Unpublished copies, and everything in the staging directory. -/
def pruneTransactionFiles : Act String Unit := do
  pruneMatchingIn env .extensions "." ".new" none
  pruneMatchingIn env .staging "" "" none

/-- Remove whatever was left for a name in the staging directory. -/
def clearStaged (name : String) : Act String Unit :=
  pruneMatchingIn env .staging (name ++ "_") ".raw" none

def removeActive (name : String) : Act String Unit := do
  let w ← Prog.read
  durableRemove env (scopedActivePath name w.scope)
  durableRemove env (legacyActivePath name)

def hideLegacy (name : String) : Act String Unit := do
  let w ← Prog.read
  let legacy := legacyActivePath name
  if legacy ≠ scopedActivePath name w.scope && w.fileExists legacy then durableRemove env legacy
  else pure ()

/-- Replace the active image. A legacy image is hidden before the scoped one is
published, so that there are never two merge-visible copies. -/
def installActive (source : Path) (name : String) : Act String Unit := do
  let w ← Prog.read
  hideLegacy env name
  durableCopy env source (scopedActivePath name w.scope)

/-- The record on disk. -/
def loadState : Act String State := fun w =>
  match env.unreadable .state w with
  | some e => .error e w.tick
  | none => .ok w.stored w.tick

/-- Put the record in memory on disk: either the old record or the new one is there. -/
def store : Act String Unit :=
  Act.durable env .store
    (fun reached w => if reached "state.json" then { w with stored := w.memory } else w)
    (fun _ w => w)

def fileSize (p : Path) : Act String Nat := fun w =>
  match env.unreadable (.metadata p) w, w.readFile p with
  | some e, _ => .error e w.tick
  | none, none => .error "No such file or directory (os error 2)" w.tick
  | none, some bytes => .ok bytes.length w.tick

def availableBytes : Act String Nat := Act.askFor env.available

/-- Re-merge extensions. -/
def sysextRefresh : Act String Unit := fun w =>
  let answer := env.refresh w
  let w' := { w with merged := answer.2 }.tick
  match answer.1 with
  | .ok () => .ok () w'
  | .error e => .error e w'

def daemonReload : Act String Unit := Act.askFor (env.systemctl .daemonReload)

def startUnit (unit : String) : Act String Unit := Act.askFor (env.systemctl (.start unit))

def stopUnit (unit : String) : Act String Unit := Act.askFor (env.systemctl (.stop unit))

variable {ε : Type}

def unitIsActive (unit : String) : Act ε Bool := Act.ask (env.isActive unit)

def unitFailed (unit : String) : Act ε Bool := Act.ask (env.isFailed unit)

/-- The merged extensions by name; a status that cannot be read lists none. -/
def mergedExtensions : Act ε (List String) := fun w =>
  .ok ((((env.sysextStatus w).getD []).map Node.extensionName).dedup) w.tick

/-- Load the ruleset for a single named extension. -/
def loadNamed (name : String) : Act String Ruleset := fun w =>
  match env.ruleset name w with
  | .error e => .error e w.tick
  | .ok contents =>
    match Ruleset.load contents with
    | .ok r => .ok r w.tick
    | .error reason => .error ("/usr/lib/carbide/health.d/" ++ name ++ ".conf: " ++ reason) w.tick

/-- The extension version an extension-release file declares. -/
def mergedVersionIn (contents : String) : Option String :=
  (Text.lines contents).findSome? fun line =>
    ((Text.stripPrefix line "SYSEXT_VERSION_ID=").map fun value =>
      Text.trimBy (· == '"') (Text.trim value)).filter versionValid

/-- The version of an extension currently merged into the running base. -/
def mergedVersion (name : String) : Act ε (Option String) :=
  Act.ask fun w => (env.extensionRelease name w).bind mergedVersionIn

/-- Look for readiness until the deadline or until the unit has failed. -/
def pollReady (unit : String) : Nat → Act ε Bool
  | 0 => pure false
  | looks + 1 => do
    if ← unitIsActive env unit then pure true
    else if ← unitFailed env unit then pure false
    else pollReady unit looks

/-- A unit that has another attempt coming is stopped first. -/
def stopBetween (unit : String) (remaining : Nat) : Act ε Unit :=
  if remaining = 0 then pure ()
  else do
    let _ ← Prog.attempt (stopUnit env unit)
    pure ()

/-- The start attempts still permitted, counted down. -/
def startRemaining (ruleset : Ruleset) : Nat → Act String Unit
  | 0 => Prog.fail (ruleset.unit ++ " did not become ready within " ++
      toString ruleset.readyTimeout ++ "s across " ++ toString ruleset.startAttempts ++
      " attempts")
  | remaining + 1 => do
    startUnit env ruleset.unit
    let looks ← Act.ask env.polls
    if ← pollReady env ruleset.unit looks then pure ()
    else if ← unitIsActive env ruleset.unit then pure ()
    else do
      stopBetween env ruleset.unit remaining
      startRemaining ruleset remaining

/-- Wait for a unit to report active, restarting it up to the permitted number of
attempts. -/
def waitUntilReady (ruleset : Ruleset) : Act String Unit :=
  startRemaining env ruleset ruleset.startAttempts

/-- Run the ruleset's deeper probe once, if it defines one. -/
def probe (ruleset : Ruleset) : Act String Unit :=
  match ruleset.healthCommand with
  | none => pure ()
  | some command => Act.askFor (env.healthCommand command)

def requireActive (ruleset : Ruleset) : Act String Unit := do
  let active ← unitIsActive env ruleset.unit
  Prog.demand active (ruleset.unit ++ " stopped during soak")

def soakRounds (ruleset : Ruleset) : Nat → Act String Unit
  | 0 => pure ()
  | rounds + 1 => do
    requireActive env ruleset
    probe env ruleset
    soakRounds ruleset rounds

/-- Require the extension to stay healthy for the soak period before it is trusted. -/
def soak (ruleset : Ruleset) : Act String Unit :=
  if ruleset.soak = 0 then probe env ruleset
  else do
    let rounds ← Act.ask env.rounds
    soakRounds env ruleset rounds
    requireActive env ruleset
    probe env ruleset

def healthyNow (ruleset : Ruleset) : Act String Unit := do
  waitUntilReady env ruleset
  probe env ruleset

end Operations
end CarbideOS.Agent
