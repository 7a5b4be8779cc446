import CarbideOS.Agent.Activation

namespace CarbideOS.Agent
open Interruptible

/-- Where an image is coming from. -/
inductive Source where
  /-- The agent fetches it through its own sealed configuration. -/
  | acquire (version : Option String)
  /-- The caller already holds it, because the agent cannot reach it. -/
  | supplied (path digest : String)
  deriving DecidableEq, Repr

structure Staged where
  name : String
  /-- The base version this image is for. -/
  version : String
  path : Path
  acquired : Bool
  /-- The extension's own version, as the image declares it. -/
  extensionVersion : Option String
  forRunningBase : Bool
  deriving DecidableEq, Repr

structure Placed where
  path : Path
  base : String
  extensionVersion : Option String
  forRunningBase : Bool
  deriving DecidableEq, Repr

/-- The versions an image declares. -/
structure ImageRelease where
  name : Option String := none
  base : Option String := none
  version : Option String := none
  deriving DecidableEq, Repr

def maxAcquiredImage : Nat := 1024 * 1024 * 1024

/-- One assignment of a release. The first of each key counts, and a key is matched
from the start: `VERSION_ID` is also how `SYSEXT_VERSION_ID` ends. -/
def ImageRelease.assign (r : ImageRelease) (assignment : String) : ImageRelease :=
  let unquoted := Text.trimBy (· == '"')
  match Text.stripPrefix assignment "VERSION_ID=" with
  | some value => { r with base := r.base.or (some (unquoted value)) }
  | none =>
    match Text.stripPrefix assignment "SYSEXT_VERSION_ID=" with
    | some value => { r with version := r.version.or (some (unquoted value)) }
    | none =>
      match Text.stripPrefix assignment "SYSEXT_ID=" with
      | some value => { r with name := r.name.or (some (unquoted value)) }
      | none => r

def parseSysextRelease (assignments : Option (List String)) : ImageRelease :=
  (assignments.getD []).foldl ImageRelease.assign {}

/-- Canonical positive decimal only, so `-1` and `-01` cannot both exist. -/
def revisionNumber (revision : String) : Option Nat :=
  if revision.isEmpty || Text.startsWith revision "0" || !(revision.toList.all Char.isDigit) then
    none
  else Text.parseUnsigned 64 revision

/-- The revision a feed version is of a base, the bare base counting as 0. -/
def revisionOf (base version : String) : Option Nat :=
  if version = base then some 0
  else
    (Text.stripPrefix version base).bind fun rest =>
      (Text.stripPrefix rest "-").bind revisionNumber

/-- The last of the greatest elements, as an iterator maximum takes it. -/
def lastMax : Option (Nat × String) → List (Nat × String) → Option (Nat × String)
  | best, [] => best
  | none, p :: ps => lastMax (some p) ps
  | some best, p :: ps => lastMax (some (if best.1 ≤ p.1 then p else best)) ps

/-- Pick `<base>` or the highest `<base>-<n>` from a list of feed versions. -/
def newestForBase (base : String) (versions : List String) : Option String :=
  (lastMax none (versions.filterMap fun version =>
    (revisionOf base version).map fun revision => (revision, version))).map Prod.snd

section
variable (env : Environment) {ε : Type}

/-- A subprocess that finished without success, reported whole. -/
def finishedFailure (code : Code) (message : String) (stage : Stage) (f : Finished) : Failure :=
  ((((Failure.new code message).atStage stage).withCommand f.command).withExitCode
    f.code).withStderr f.stderr

/-- Resolve the base version an image is being staged for. -/
def targetBase : Option String → Act Failure String
  | some base =>
    if versionValid base then pure base
    else Prog.fail (Failure.new .malformed ("unusable base version " ++ base.quote))
  | none => do
    let w ← Prog.read
    match w.osVersion with
    | some version => pure version
    | none => Prog.fail (Failure.new .failed "could not read the running base version")

def requireSpace (required : Nat) : Act Failure Unit := requireActivationSpace env required

/-- What retaining the active image would take, judged by the known-good version. -/
def missingRollbackSize (name : String) : Act String Nat := do
  let state ← loadState env
  let w ← Prog.read
  let retained := ((state.get name).bind ExtensionState.knownGoodVersion).any fun version =>
    w.fileExists (w.rollbackPath name version)
  if retained then pure 0
  else if w.fileExists (w.activePath name) then fileSize env (w.activePath name)
  else pure 0

/-- Signature and verity validation under the policy the merge will use. -/
def validateImage (name : String) (bytes : Bytes) : Act Failure Unit := do
  let validated ← Prog.mapError (fun error =>
      (Failure.new .failed s!"could not validate the image: {error}").atStage .validating)
    (Act.askFor (env.dissectValidate bytes))
  Prog.demand validated.ok
    (finishedFailure .untrusted s!"{name} failed signed image validation" .validating validated)

def imageRelease (bytes : Bytes) : Act Failure ImageRelease := do
  let assignments ← Prog.mapError (fun error =>
      (Failure.new .failed s!"could not read the image: {error}").atStage .validating)
    (Act.askFor (env.dissectRelease bytes))
  pure (parseSysextRelease assignments)

/-- The base a validated image is for: the one it declares, and no other than the
requested one. -/
def checkRelease (name : String) (requested : Option String) (release : ImageRelease) :
    Act Failure String := do
  let declared := (release.name.getD "none").quote
  Prog.demand (release.name == some name)
    ((Failure.new .untrusted
      s!"image declares extension {declared}, staging was requested for {name}").atStage
        .validating)
  match release.base.filter versionValid with
  | none =>
    Prog.fail
      ((Failure.new .baseMismatch s!"{name} declares no usable base version").atStage .validating)
  | some base =>
    let wanted := requested.getD base
    if wanted = base then pure base
    else
      Prog.fail ((Failure.new .baseMismatch
        s!"{name} declares base {base}, staging was requested for {wanted}").atStage .validating)

/-- Where an image goes: for the running base it becomes a candidate, for another
one it is simply placed and merges when that base boots. -/
def placement (name base : String) (version : Option String) (running : Bool) :
    Act Failure Path := do
  let w ← Prog.read
  if running then
    match version with
    | some version => pure (w.candidatePath name version)
    | none =>
      Prog.fail ((Failure.new .failed
        s!"{name} declares no usable extension version").atStage .validating)
  else pure (scopedActivePath name base)

/-- Record a placed candidate. If that fails the candidate is taken away again. -/
def recordStaged (name version : String) (target : Path) : Act Failure Unit := do
  let state ← Prog.mapError (fun error =>
      (Failure.new .failed s!"could not read agent state: {error}").atStage .staging)
    (loadState env)
  Act.hold state
  Act.entry name fun e => { e with candidateVersion := some version, phase := .staged }
  match ← Prog.attempt (store env) with
  | .ok () => pure ()
  | .error error => do
    let _ ← Prog.attempt (durableRemove env target)
    Prog.fail ((Failure.new .failed s!"could not record staged image: {error}").atStage .staging)

/-- Only an image for the running base is recorded. -/
def recordPlaced (name : String) (version : Option String) (running : Bool) (target : Path) :
    Act Failure Unit :=
  match running, version with
  | true, some version => recordStaged env name version target
  | _, _ => pure ()

/-- The space an image will take once it is activated. -/
def requirePlacementSpace (name : String) (staging : Path) (running : Bool) :
    Act Failure Unit := do
  let imageSize ← failedAt .staging (fileSize env staging)
  let rollbackSize ←
    (if running then failedAt .checking (missingRollbackSize env name) else pure 0)
  requireSpace env (activationSpace imageSize rollbackSize)

/-- Older candidates make room only once the new image is known to be good. -/
def clearCandidates (name : String) (running : Bool) : Act Failure Unit :=
  if running then
    Prog.mapError (fun error =>
        (Failure.new .failed s!"could not prune old candidates: {error}").atStage .staging)
      (pruneCandidates env name none)
  else pure ()

def moveIntoPlace (staging target : Path) : Act Failure Unit := do
  Prog.mapError (fun error =>
      (Failure.new .failed s!"could not set staged image mode: {error}").atStage .staging)
    (durableMode env staging)
  Prog.mapError (fun error =>
      (Failure.new .failed s!"could not place the image: {error}").atStage .staging)
    (durableMove env staging target)

/-- Validate a private staged copy and place it for the base it declares. -/
def validateAndPlace (name : String) (requested : Option String) (staging : Path) :
    Act Failure Placed := do
  let w ← Prog.read
  let bytes := (w.readFile staging).getD []
  validateImage env name bytes
  let release ← imageRelease env bytes
  let base ← checkRelease name requested release
  let w ← Prog.read
  let running := w.osVersion == some base
  let version := release.version.filter versionValid
  let target ← placement name base version running
  requirePlacementSpace env name staging running
  clearCandidates env name running
  moveIntoPlace env staging target
  recordPlaced env name version running target
  pure ⟨target, base, version, running⟩

/-- The newest image the feed offers for a base. -/
def resolveRevision (name base : String) : Act Failure String := do
  let (listed, versions) ← Prog.mapError (fun error =>
      (Failure.new .failed s!"could not run systemd-sysupdate: {error}").atStage .staging)
    (Act.askFor (env.listComponent name))
  Prog.demand listed.ok
    (finishedFailure .failed s!"could not list {name} versions" .staging listed)
  match versions with
  | none =>
    Prog.fail ((((Failure.new .failed
      s!"could not read the {name} versions systemd-sysupdate listed").atStage .staging).withCommand
        listed.command).withStderr listed.stdout)
  | some versions =>
    match newestForBase base versions with
    | some version => pure version
    | none =>
      Prog.fail (((Failure.new .failed
        s!"the feed offers no {name} image for {base}").atStage .staging).withCommand
          listed.command)

/-- Run the component's update; it writes into the staging directory. -/
def acquireComponent (name version : String) : Act String Finished := fun w =>
  match env.acquire name version w with
  | .ok (finished, staging) => .ok finished { w with staging := staging }.tick
  | .error e => .error e w.tick

/-- Treat acquired bytes exactly like a caller-supplied image. -/
def placeAcquired (name base selected : String) (finished : Finished) : Act Failure Placed := do
  let staged : Path := ⟨.staging, name ++ "_" ++ selected ++ ".raw"⟩
  let w ← Prog.read
  Prog.demand (w.fileExists staged)
    ((((Failure.new .failed
      s!"{name} was acquired but no image for {selected} is present").atStage .staging).withCommand
        finished.command).withStderr finished.stdout)
  let size ← failedAt .staging (fileSize env staged)
  let limit := maxAcquiredImage
  Prog.demand (size ≤ limit)
    ((Failure.new .noSpace s!"acquired image is {size} bytes; limit is {limit}").atStage .staging)
  validateAndPlace env name (some base) staged

def acquireVersion (name base : String) (version : Option String) : Act Failure String := do
  Prog.demand (version.all versionValid)
    (Failure.new .malformed ("unusable extension version " ++ (version.getD "").quote))
  let components ← Act.ask env.components
  Prog.demand (components.contains name)
    ((Failure.new .notFound
      s!"no source is configured for {name}; supply an image instead").atStage .checking)
  requireSpace env (saturatingAdd maxAcquiredImage spaceMargin)
  match version with
  | some version => pure version
  | none => resolveRevision env name base

def acquire (name base : String) (version : Option String) : Act Failure Staged := do
  let selected ← acquireVersion env name base version
  let finished ← Prog.mapError (fun error =>
      (Failure.new .failed s!"could not run systemd-sysupdate: {error}").atStage .staging)
    (acquireComponent env name selected)
  if finished.ok then do
    let placed ← Prog.attempt (placeAcquired env name base selected finished)
    let _ ← Prog.attempt (clearStaged env name)
    match placed with
    | .ok p => pure ⟨name, p.base, p.path, true, p.extensionVersion, p.forRunningBase⟩
    | .error e => Prog.fail e
  else do
    let _ ← Prog.attempt (clearStaged env name)
    Prog.fail (finishedFailure .failed s!"could not acquire {name}" .staging finished)

/-- Open a caller's file and note its size. -/
def openSource (path : String) : Act Failure Nat := fun w =>
  match env.source path w with
  | none => .error ((Failure.new .notFound s!"no image at {path}").atStage .checking) w.tick
  | some (.error e) => .error ((Failure.new .failed e).atStage .checking) w.tick
  | some (.ok (size, _)) => .ok size w.tick

/-- Copy an open file, refusing growth beyond the size budgeted for it. The caller
may be writing to it meanwhile. -/
def copySource (path : String) (target : Path) (maximum : Nat) : Act String Unit := fun w =>
  match env.source path w with
  | none => .error "the source disappeared" w.tick
  | some (.error e) => .error e w.tick
  | some (.ok (_, bytes)) =>
    if bytes.length ≤ maximum then durablePublish env bytes target w.tick
    else .error "source grew beyond its reserved size" w.tick

/-- Check a private copy against the digest its caller declared. -/
def checkDigest (staging : Path) (digest : String) : Act Failure Unit := do
  let expected := (Text.stripPrefix digest "sha256:").getD digest
  let w ← Prog.read
  match ← Prog.attempt (Act.askFor (env.sha256sum ((w.readFile staging).getD []))) with
  | .error error => do
    let _ ← Prog.attempt (durableRemove env staging)
    Prog.fail
      ((Failure.new .failed s!"could not digest the staged image: {error}").atStage .validating)
  | .ok actual =>
    if Text.eqIgnoreAsciiCase actual expected then pure ()
    else do
      let _ ← Prog.attempt (durableRemove env staging)
      Prog.fail ((Failure.new .digestMismatch
        s!"image digest is {actual}, caller declared {expected}").atStage .validating)

def supplied (name : String) (base : Option String) (path digest : String) :
    Act Failure Staged := do
  Prog.demand (Text.startsWith path "/")
    (Failure.new .malformed "an image path must be absolute")
  let imageSize ← openSource env path
  let w ← Prog.read
  let running := base.all fun requested => w.osVersion == some requested
  let rollbackSize ←
    (if running then failedAt .checking (missingRollbackSize env name) else pure 0)
  requireSpace env (stagingSpace imageSize rollbackSize)
  let staging : Path := ⟨.staging, name ++ ".raw"⟩
  Prog.mapError (fun error =>
      (Failure.new .failed s!"could not stage the image: {error}").atStage .staging)
    (copySource env path staging imageSize)
  checkDigest env staging digest
  let placed ← Prog.attempt (validateAndPlace env name base staging)
  let _ ← Prog.attempt (durableRemove env staging)
  match placed with
  | .ok p => pure ⟨name, p.base, p.path, false, p.extensionVersion, p.forRunningBase⟩
  | .error e => Prog.fail e

/-- Place an image for a base version. -/
def stageExtension (name : String) (base : Option String) (source : Source) :
    Act Failure Staged := do
  Prog.demand (versionValid name)
    (Failure.new .malformed ("unusable extension name " ++ name.quote))
  match source with
  | .acquire version => do
    let base ← (match base with
      | some base => pure base
      | none => targetBase none)
    acquire env name base version
  | .supplied path digest => supplied env name base path digest

end
end CarbideOS.Agent
