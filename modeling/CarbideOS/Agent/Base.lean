import CarbideOS.Agent.Staging

namespace CarbideOS.Agent
open Interruptible

/-- What a caller of a base staging is told. -/
structure StagedBase where
  version : Option String
  pending : Bool
  bootEntry : Option String
  deriving DecidableEq, Repr

section
variable (env : Environment) {ε : Type}

/-- The extension images present for a base version. A directory that cannot be
listed shows none. -/
def installedExtensionsFor (base : String) : Act ε (List String) := fun w =>
  match env.unreadable .installed w with
  | some _ => .ok [] w.tick
  | none =>
    let suffix := "_" ++ base ++ ".raw"
    .ok (w.extensions.keys.filterMap fun f =>
      (Text.stripSuffix f suffix).filter fun name => !name.isEmpty) w.tick

/-- The image identifier the boot entries of this node start with. -/
def imageId (w : Node) : Option String :=
  (w.osReleaseValue "IMAGE_ID").map (Text.trimBy (· == '"'))

/-- The version a counted boot entry would boot. An uncounted entry is the image
already blessed and is not pending. -/
def countedVersion (id entry : String) : Option String :=
  (Text.stripPrefix entry (id ++ "_")).bind fun rest =>
    (Text.splitOnce rest '+').bind fun (version, counter) =>
      if Text.endsWith counter ".efi" && versionValid version then some version else none

/-- The base version an installed but not yet booted image would boot into. More
than one is refused: guessing would boot into an image nothing supports. -/
def pendingBaseVersion : Act String (Option String) := fun w =>
  match imageId w with
  | none => .error "could not read IMAGE_ID from /etc/os-release" w.tick
  | some id =>
    if env.bootEntriesReadable w then
      match w.bootEntries.filterMap (countedVersion id) with
      | [] => .ok none w.tick
      | [version] => .ok (some version) w.tick
      | _ => .error "more than one counted base image is pending" w.tick
    else .error "could not read pending UKIs" w.tick

/-- The counted boot entry for a pending base version. -/
def pendingBootEntry (version : String) : Act ε (Option String) := fun w =>
  .ok ((imageId w).bind fun id =>
    if env.bootEntriesReadable w then
      w.bootEntries.find? fun entry =>
        Text.startsWith entry (id ++ "_" ++ version ++ "+") && Text.endsWith entry ".efi"
    else none) w.tick

/-- Install a base; the boot entries are what the installer makes of them. -/
def installBase (version : String) : Act String Finished := fun w =>
  let answer := env.stageBase version w
  let w' := { w with bootEntries := answer.2 }.tick
  match answer.1 with
  | .ok finished => .ok finished w'
  | .error e => .error e w'

/-- Check the image one extension has staged for a base. -/
def verifyExtensionFor (pending name : String) : Act Failure Unit := do
  let image := scopedActivePath name pending
  let shown := image.display
  let w ← Prog.read
  match w.readFile image with
  | none =>
    Prog.fail ((Failure.new .precondition
      s!"{name} is installed but has no image staged for {pending}").atStage .checking)
  | some bytes => do
    let validated ← Prog.mapError (fun error =>
        (Failure.new .failed s!"could not validate {shown}: {error}").atStage .validating)
      (Act.askFor (env.dissectValidate bytes))
    Prog.demand validated.ok
      (finishedFailure .untrusted s!"{name} has an untrusted image staged for {pending}"
        .validating validated)
    let assignments ← Prog.mapError (fun error =>
        (Failure.new .failed s!"could not inspect {shown}: {error}").atStage .validating)
      (Act.askFor (env.dissectRelease bytes))
    let release := parseSysextRelease assignments
    Prog.demand (release.name == some name && release.base == some pending)
      ((Failure.new .baseMismatch
        s!"{name} has an incompatible image staged for {pending}").atStage .validating)

def verifyEach (pending : String) : List String → Act Failure Unit
  | [] => pure ()
  | name :: rest => do
    verifyExtensionFor env pending name
    verifyEach pending rest

/-- The required extensions of the record on disk, if it can be read. -/
def requiredOnDisk : Act ε (List String) := do
  match ← Prog.attempt (loadState env) with
  | .ok state => pure state.required
  | .error _ => pure []

/-- Every extension this node has or needs must have an image for the base that is
about to boot. -/
def verifyExtensionsFor (pending : String) : Act Failure Unit := do
  let w ← Prog.read
  match w.osVersion with
  | none => Prog.fail (Failure.new .failed "could not read the running base version")
  | some running =>
    if running = pending then pure ()
    else do
      let installed ← installedExtensionsFor env running
      let merged ← mergedExtensions env
      let required ← requiredOnDisk env
      verifyEach env pending ((installed ++ merged ++ required).mergeSort (· ≤ ·)).dedup

/-- Select the boot entry of a base that is ready to boot. -/
def selectBase (pending : String) : Act Failure StagedBase := do
  match ← pendingBootEntry env pending with
  | none =>
    Prog.fail ((Failure.new .failed
      s!"no counted boot entry was written for {pending}").atStage .staging)
  | some entry => do
    let selected ← Prog.mapError (fun error =>
        (Failure.new .failed s!"could not run bootctl: {error}").atStage .staging)
      (Act.askFor (env.setOneshot entry))
    Prog.demand selected.ok
      (finishedFailure .failed "could not select the staged boot entry" .staging selected)
    pure ⟨some pending, true, some entry⟩

/-- Install a base all extensions are ready for, and see what it left pending. The
extensions are checked again before the boot entry is set. -/
def stageTarget (target : String) : Act Failure StagedBase := do
  verifyExtensionsFor env target
  let finished ← Prog.mapError (fun error =>
      (Failure.new .failed s!"could not run systemd-sysupdate: {error}").atStage .staging)
    (installBase env target)
  Prog.demand finished.ok
    (finishedFailure .failed "could not stage the base image" .staging finished)
  match ← failedAt .checking (pendingBaseVersion env) with
  | none => pure ⟨some target, false, none⟩
  | some pending => do
    Prog.demand (pending == target)
      ((Failure.new .precondition
        s!"requested base {target}, but sysupdate left {pending} pending").atStage .checking)
    verifyExtensionsFor env pending
    selectBase env pending

/-- The base to stage: the one asked for, else what the feed offers. -/
def targetVersion : Option String → Act Failure (Option String)
  | some version => pure (some version)
  | none => failedAt .checking (Act.askFor env.availableBaseVersion)

/-- Download and stage a base image, then select its boot entry. -/
def stageBase (version : Option String) : Act Failure StagedBase := do
  Prog.demand (version.all versionValid)
    (Failure.new .malformed ("unusable base version " ++ (version.getD "").quote))
  match ← targetVersion env version with
  | none => pure ⟨none, false, none⟩
  | some target => stageTarget env target

end
end CarbideOS.Agent
