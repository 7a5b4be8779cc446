import CarbideOS.Lib.Grep
import CarbideOS.Lib.Prog
import CarbideOS.Agent.Commands

namespace CarbideOS.Ops.Broker
open Interruptible

def isVersionChar (c : Char) : Bool := c.isAlphanum || c == '.' || c == '_' || c == '-'

def isLowerHex (c : Char) : Bool := c.isDigit || (decide ('a' ≤ c) && decide (c ≤ 'f'))

def versionPattern : List Grep.Piece := [.times 1 Char.isAlphanum, .star isVersionChar]

def jobPattern : List Grep.Piece :=
  [.times 8 isLowerHex, .times 1 (· == '-'), .times 4 isLowerHex, .times 1 (· == '-'),
    .times 4 isLowerHex, .times 1 (· == '-'), .times 4 isLowerHex, .times 1 (· == '-'),
    .times 12 isLowerHex]

/-- Only a plain version may be interpolated into a path. -/
def versionValid (version : String) : Bool := Grep.quiet versionPattern version

/-- The unit of a job. -/
def jobUnit (job : String) : Option String :=
  if Grep.quiet jobPattern job then some ("ace@" ++ job ++ ".service") else none

/-- What the script does that is seen from outside. -/
inductive Action where
  | call (argv : List String)
  /-- Standard input, or nothing, goes to a file. -/
  | write (path : String)
  deriving DecidableEq, Repr

/-- What the script finds, given what it has done by then. -/
structure Answers where
  isRoot : Bool
  sudoUser : String
  /-- The exit status of a program. -/
  status : List Action → List String → Nat
  output : List Action → List String → String
  /-- The status with which the shell cannot open a file for writing, if it cannot. -/
  refused : List Action → String → Option Nat
  /-- A file is there and not empty. -/
  filled : List Action → String → Bool
  pendingExtensions : List Action → Bool

/-- What was done, and the exit status with which a script ends before its end. -/
abbrev Script (α : Type) := Prog (List Action) Nat α

def usage {α : Type} : Script α := Prog.fail 2

section
variable (answers : Answers)

def call (argv : List String) : Script Nat := fun done =>
  .ok (answers.status done argv) (done ++ [.call argv])

/-- A command under `set -e`. -/
def must (argv : List String) : Script Unit := do
  let status ← call answers argv
  if status = 0 then pure () else Prog.fail status

def exec (argv : List String) : Script Unit := do
  let status ← call answers argv
  Prog.fail status

def writeTo (path : String) : Script Unit := fun done =>
  match answers.refused done path with
  | some status => .error status done
  | none => .ok () (done ++ [.write path])

def isFilled (path : String) : Script Bool := fun done => .ok (answers.filled done path) done

def outputOf (argv : List String) : Script String := fun done =>
  .ok (answers.output done argv) done

/-- `trap ... EXIT`, where the script ends inside. -/
def trapped {α : Type} (argv : List String) (m : Script α) : Script α := fun done =>
  match m done with
  | .error status done => .error status (done ++ [.call argv])
  | o => o

def searchPath : String := "PATH=/usr/sbin:/usr/bin"

/-- With an empty environment but for the search path. -/
def clean (argv : List String) : List String := ["/usr/bin/env", "-i", searchPath] ++ argv

def systemctl (arguments : List String) : List String :=
  clean ("/usr/bin/systemctl" :: arguments)

def journalctl (arguments : List String) : List String :=
  clean ("/usr/bin/journalctl" :: arguments)

def lockLifecycle : Script Unit := do
  must answers ["/usr/bin/install", "-d", "-m", "0755", "/var/lib/carbide/agent"]
  writeTo answers "/var/lib/carbide/agent/operation.lock"
  let status ← call answers ["/usr/bin/flock", "-n", "9"]
  if status = 0 then pure () else Prog.fail 1

/-- `unit=$(job_unit "$1")` -/
def unitOf (job : String) : Script String :=
  match jobUnit job with
  | some unit => pure unit
  | none => Prog.fail 2

def credentials : List String :=
  ["GITHUB_TOKEN", "REDIS_URL", "ABLY_API_KEY", "GCP_KMS_CREDENTIALS_B64", "OPENAI_API_KEY",
    "OPENROUTER_API_KEY", "GOOGLE_GENERATIVE_AI_API_KEY", "CONVEX_SERVER_SECRET_DEV",
    "CONVEX_SERVER_SECRET_PROD"]

def credentialPermitted (name : String) : Bool := credentials.contains name

/-- Extensions a node may be given directly. -/
def extensions : List String := ["watchtower", "chrome", "rat-game-16"]

def extensionPermitted (name : String) : Bool := extensions.contains name

/-- Extensions that are in the update feed. -/
def fed : List String := ["chrome", "rat-game-16"]

def health (arguments : List String) : Script Unit :=
  if !arguments.isEmpty then usage
  else do
    must answers (systemctl ["--failed", "--no-pager"])
    must answers (systemctl ["is-system-running", "--wait"])

def logs : List String → Script Unit
  | [] | "" :: _ =>
    exec answers (journalctl ["--boot", "--priority=warning..alert", "--lines=300", "--no-pager"])
  | ["watchtower"] =>
    exec answers (journalctl ["--boot", "--unit=watchtower.service", "--lines=500", "--no-pager"])
  | ["job", job] => do
    let unit ← unitOf job
    exec answers (journalctl ["--boot", "--unit=" ++ unit, "--lines=500", "--no-pager"])
  | _ => usage

def stopJob : List String → Script Unit
  | [job] => do
    let unit ← unitOf job
    let _ ← call answers ["/usr/bin/systemctl", "list-units", "--all", "--no-legend", unit]
    let known ← call answers ["/usr/bin/grep", "-q", "."]
    if known = 0 then must answers (systemctl ["stop", unit]) else Prog.fail 1
  | _ => usage

def reboot (arguments : List String) : Script Unit :=
  if !arguments.isEmpty then usage
  else do
    lockLifecycle answers
    let pending ← call answers ["/usr/lib/systemd/systemd-sysupdate", "pending"]
    if pending = 0 then do
      let done ← Prog.read
      if answers.pendingExtensions done then
        exec answers (clean ["/usr/lib/systemd/systemd-sysupdate", "reboot"])
      else Prog.fail 1
    else exec answers (systemctl ["reboot"])

def poweroff (arguments : List String) : Script Unit :=
  if !arguments.isEmpty then usage
  else do
    lockLifecycle answers
    exec answers (systemctl ["poweroff"])

def agentPath : String := "/usr/bin/carbide-agent"

/-- Delegated to the agent. -/
def update : List String → Script Unit
  | [] => exec answers [agentPath, "stage-base"]
  | [version] =>
    if !versionValid version then Prog.fail 2
    else exec answers [agentPath, "stage-base", version]
  | _ => usage

def nodeIdPath : String := "/var/lib/watchtower/node-id"

def nodeId (arguments : List String) : Script Unit :=
  if !arguments.isEmpty then usage
  else do
    let known ← isFilled answers nodeIdPath
    if known then exec answers ["/usr/bin/cat", nodeIdPath] else Prog.fail 1

def credentialDirectory : String := "/var/lib/watchtower/credentials"

/-- The value arrives on standard input. -/
def credential : List String → Script Unit
  | [name] =>
    if !credentialPermitted name then Prog.fail 2
    else do
      let staging := credentialDirectory ++ "/." ++ name ++ ".staging"
      must answers ["/usr/bin/install", "-d", "-m", "0700", "-o", "root", "-g", "root",
        credentialDirectory]
      writeTo answers staging
      must answers ["/usr/bin/head", "-c", "65536"]
      let some_ ← isFilled answers staging
      if some_ then do
        must answers ["/usr/bin/chmod", "0600", staging]
        must answers ["/usr/bin/mv", "-f", staging, credentialDirectory ++ "/" ++ name]
      else do
        must answers ["/usr/bin/rm", "-f", staging]
        Prog.fail 1
  | _ => usage

def extensionAcquire : List String → Script Unit
  | [name] =>
    if !extensionPermitted name then Prog.fail 2
    else exec answers [agentPath, "stage-extension", name, "--activate"]
  | [name, base] =>
    if !extensionPermitted name then Prog.fail 2
    else if !versionValid base then Prog.fail 2
    else exec answers [agentPath, "stage-extension", name, "--base", base]
  | _ => usage

/-- A signed image supplied on standard input. -/
def installExtension : List String → Script Unit
  | [name] =>
    if !extensionPermitted name then Prog.fail 2
    else do
      let staging := "/run/carbide/staging/" ++ name ++ ".upload.raw"
      must answers ["/usr/bin/install", "-d", "-m", "0700", "/run/carbide/staging"]
      let digest ← trapped ["/usr/bin/rm", "-f", staging] do
        writeTo answers staging
        must answers ["/usr/bin/head", "-c", "1073741824"]
        let some_ ← isFilled answers staging
        if some_ then do
          let _ ← call answers ["/usr/bin/sha256sum", staging]
          let digest ← outputOf answers ["/usr/bin/cut", "-d ", "-f1"]
          must answers ["/usr/bin/cut", "-d ", "-f1"]
          pure digest
        else Prog.fail 1
      exec answers
        [agentPath, "stage-extension", name, "--path", staging, "--digest", digest, "--activate"]
  | _ => usage

/-- The recovery component's own controls. -/
def agent : List String → Script Unit
  | "status" :: rest =>
    if !rest.isEmpty then usage else exec answers (clean [agentPath, "status"])
  | [verb, name] =>
    if ["require", "unrequire", "reset"].contains verb then
      if !extensionPermitted name then Prog.fail 2
      else exec answers (clean [agentPath, verb, name])
    else usage
  | _ => usage

def extension : List String → Script Unit
  | [verb, name] =>
    if ["install:chrome", "remove:chrome", "install:rat-game-16", "remove:rat-game-16"].contains
        (verb ++ ":" ++ name) then
      exec answers (clean ["/usr/sbin/carbideos-extension", verb, name])
    else usage
  | _ => usage

def perform (operation : String) (arguments : List String) : Script Unit :=
  if operation = "health" then health answers arguments
  else if operation = "logs" then logs answers arguments
  else if operation = "stop-job" then stopJob answers arguments
  else if operation = "reboot" then reboot answers arguments
  else if operation = "poweroff" then poweroff answers arguments
  else if operation = "update" then update answers arguments
  else if operation = "node-id" then nodeId answers arguments
  else if operation = "credential" then credential answers arguments
  else if operation = "extension-acquire" then extensionAcquire answers arguments
  else if operation = "install-extension" then installExtension answers arguments
  else if operation = "agent" then agent answers arguments
  else if operation = "extension" then extension answers arguments
  else usage

/-- `$*` -/
def joined (arguments : List String) : String := String.intercalate " " arguments

def logger (operation : String) (arguments : List String) : List String :=
  ["/usr/bin/logger", "--priority=authpriv.notice", "--tag=carbideos-ops", "--",
    "operator=" ++ answers.sudoUser ++ " operation=" ++ operation ++ " arguments=" ++
      joined arguments]

def carbideosOps : List String → Script Unit
  | arguments =>
    if !answers.isRoot then Prog.fail 1
    else
      match arguments with
      | [] => usage
      | operation :: arguments => do
        must answers (logger answers operation arguments)
        perform answers operation arguments

/-- `carbideos-extension` -/
def carbideosExtension : List String → Script Unit
  | [action, name] =>
    if !answers.isRoot then Prog.fail 1
    else if !fed.contains name then Prog.fail 1
    else if action = "install" then must answers [agentPath, "stage-extension", name, "--activate"]
    else if action = "remove" then must answers [agentPath, "remove", name]
    else Prog.fail 2
  | _ => if !answers.isRoot then Prog.fail 1 else Prog.fail 2

end

def commandNamed (name : String) : Option Agent.Command :=
  match name with
  | "health-gate" => some .healthGate
  | "activate" => some .activate
  | "stage-extension" => some .stageExtension
  | "stage-base" => some .stageBase
  | "adopt" => some .adopt
  | "rollback" => some .rollback
  | "remove" => some .remove
  | "require" => some .require
  | "unrequire" => some .unrequire
  | "reset" => some .reset
  | _ => none

/-- What a call comes to without `env`. -/
def program : List String → List String
  | "/usr/bin/env" :: "-i" :: _ :: argv => argv
  | argv => argv

def agentEvents : Action → List Agent.Event
  | .call argv =>
    match program argv with
    | path :: name :: arguments =>
      if path = agentPath then
        ((commandNamed name).map fun c => .command c arguments).toList
      else []
    | _ => []
  | .write _ => []

/-- Those of a call, directly and by the script it calls. -/
def Action.events (answers : Answers) (a : Action) : List Agent.Event :=
  agentEvents a ++
    match a with
    | .call argv =>
      match program argv with
      | path :: arguments =>
        if path = "/usr/sbin/carbideos-extension" then
          (carbideosExtension answers arguments []).state.flatMap agentEvents
        else []
      | [] => []
    | .write _ => []

/-- What happens to a node that is operated by this script alone. -/
inductive Happening where
  | operator (answers : Answers) (arguments : List String)
  | boot (osRelease : Option String) (bootEntries : List String)
  /-- The unit that checks the extensions of a boot. -/
  | healthGate

def Happening.events : Happening → List Agent.Event
  | .operator answers arguments =>
    (carbideosOps answers arguments []).state.flatMap (Action.events answers)
  | .boot osRelease bootEntries => [.boot osRelease bootEntries]
  | .healthGate => [.command .healthGate []]

end CarbideOS.Ops.Broker
