import CarbideOS.Lib.Runs
import CarbideOS.Agent.Reconcile
import CarbideOS.Agent.Base

namespace CarbideOS.Agent
open Interruptible

/-- What the command line accepts. `status` and `serve` change nothing by
themselves and are not listed. -/
inductive Command where
  | healthGate | activate | stageExtension | stageBase | adopt | rollback | remove
  | require | unrequire | reset
  deriving DecidableEq, Repr

/-- The text fields of a socket request, trimmed and not empty. -/
structure Request where
  name : Option String := none
  version : Option String := none
  base : Option String := none
  path : Option String := none
  digest : Option String := none
  requestId : Option String := none
  deriving DecidableEq, Repr

/-- The socket commands that take the lock. -/
inductive Call where
  | stageExtension | activateExtension | stageBase
  deriving DecidableEq, Repr

/-- The argument after the first occurrence of an option. -/
def option (name : String) : List String → Option String
  | [] => none
  | argument :: rest => if argument = name then rest.head? else option name rest

def describeCommand : Option String → String
  | some command => s!"\n  command: {command}"
  | none => ""

def describeExit : Option Int → String
  | some code => s!"\n  exit: {code}"
  | none => ""

def describeStderr : Option String → String
  | some stderr => "\n  stderr: " ++ Text.trim stderr
  | none => ""

/-- Flatten a structured failure for a human at a terminal. -/
def describe (f : Failure) : String :=
  f.message ++ describeCommand f.command ++ describeExit f.exitCode ++ describeStderr f.stderr

section
variable (env : Environment) {ε : Type}

/-- The first argument of a command, or how to use it. -/
def named (arguments : List String) (usage : String) (m : String → Act String Unit) :
    Act String Unit :=
  match arguments with
  | [] => Prog.fail usage
  | name :: _ => m name

/-- Record an image that is already active, and healthy, as known-good. -/
def adopt (arguments : List String) : Act String Unit :=
  match arguments with
  | name :: version :: _ => do
    let state ← loadState env
    Act.hold state
    Prog.mapError AdoptError.display (adoptActive env name version)
  | _ => Prog.fail "usage: carbide-agent adopt NAME VERSION"

def activate (arguments : List String) : Act String Unit :=
  match arguments with
  | name :: version :: rest => do
    let _ ← Prog.mapError Failure.message (activateExtension env name version rest.head?)
    pure ()
  | _ => Prog.fail "usage: carbide-agent activate NAME VERSION"

/-- Activate what has just been staged. -/
def activateStaged (name : String) : Option String → Act String Unit
  | none => Prog.fail s!"{name} declares no usable extension version"
  | some version => do
    let requestId ← Act.ask env.randomUuid
    let _ ← Prog.mapError describe (activateExtension env name version (requestId.map Text.trim))
    pure ()

/-- Stage, and activate if that was asked for. An image for a base this node has
not booted is only placed. -/
def stageSource (name : String) (arguments : List String) (source : Source) :
    Act String Unit := do
  let staged ← Prog.mapError describe
    (Agent.stageExtension env name (option "--base" arguments) source)
  if !(arguments.contains "--activate") || !staged.forRunningBase then pure ()
  else activateStaged env name staged.extensionVersion

def stageExtensionCommand (arguments : List String) : Act String Unit :=
  match arguments.head?.filter fun name => !(Text.startsWith name "--") with
  | none => Prog.fail "usage: carbide-agent stage-extension NAME [options]"
  | some name =>
    match option "--path" arguments, option "--digest" arguments with
    | some path, some digest => stageSource env name arguments (.supplied path digest)
    | some _, none => Prog.fail "a supplied image must declare --digest"
    | none, _ => stageSource env name arguments (.acquire (option "--version" arguments))

def stageBaseCommand (arguments : List String) : Act String Unit := do
  let _ ← Prog.mapError describe
    (Agent.stageBase env (arguments.head?.filter fun value => !(Text.startsWith value "--")))
  pure ()

/-- Return an extension to its known-good image. The record is written whether or
not that worked. -/
def rollbackCommand (arguments : List String) : Act String Unit :=
  named arguments "usage: carbide-agent rollback NAME" fun name => do
    let state ← loadState env
    Act.hold state
    let result ← Prog.attempt (recover env name "operator requested rollback")
    store env
    match result with
    | .ok () => pure ()
    | .error error => Prog.fail error

/-- Removal is recorded before it starts, so that it can be finished later. -/
def removeExtension (arguments : List String) : Act String Unit :=
  named arguments "usage: carbide-agent remove NAME" fun name => do
    let state ← loadState env
    Act.hold state
    Act.entry name fun e => { e with required := false, phase := .removing }
    store env
    completeRemoval env name
    store env

def setRequired (arguments : List String) (required : Bool) : Act String Unit :=
  named arguments "usage: carbide-agent require|unrequire NAME" fun name => do
    let state ← loadState env
    Act.hold state
    Act.entry name fun e => { e with required := required }
    store env

/-- Return an extension to a checkable state. -/
def reset (arguments : List String) : Act String Unit :=
  named arguments "usage: carbide-agent reset NAME" fun name => do
    let state ← loadState env
    Act.hold state
    Act.entry name fun e => { e with phase := .idle, lastFailure := none, lastHealth := none }
    store env

/-- Take the operation lock. -/
def acquireLock : Act String Unit := fun w =>
  match env.unreadable .lock w with
  | some error => .error s!"could not acquire operation lock: {error}" w.tick
  | none => .ok () w.tick

/-- Run a command with interrupted work resolved first. -/
def locked (operation : Act String Unit) : Act String Unit := do
  acquireLock env
  reconcileState env
  operation

def Command.operation : Command → List String → Act String Unit
  | .healthGate, _ => Agent.healthGate env
  | .activate, arguments => Agent.activate env arguments
  | .stageExtension, arguments => stageExtensionCommand env arguments
  | .stageBase, arguments => stageBaseCommand env arguments
  | .adopt, arguments => Agent.adopt env arguments
  | .rollback, arguments => rollbackCommand env arguments
  | .remove, arguments => removeExtension env arguments
  | .require, arguments => setRequired env arguments true
  | .unrequire, arguments => setRequired env arguments false
  | .reset, arguments => Agent.reset env arguments

def Command.run (c : Command) (arguments : List String) : Act String Unit :=
  locked env (c.operation env arguments)

/-- The image source a request names. -/
def Request.source (r : Request) : Except Failure Source :=
  match r.path, r.digest with
  | some path, some digest => .ok (.supplied path digest)
  | some _, none => .error (Failure.new .malformed "a supplied image must declare a digest")
  | none, _ => .ok (.acquire r.version)

/-- The base is left as the caller sent it: absent means what the image says. -/
def answerStageExtension (r : Request) : Act Failure Unit :=
  match r.name, r.source with
  | none, _ => Prog.fail (Failure.new .malformed "stage-extension needs a name")
  | some name, source => do
    Prog.demand (r.base.all versionValid)
      (Failure.new .malformed ("unusable base version " ++ (r.base.getD "").quote))
    match source with
    | .error failure => Prog.fail failure
    | .ok source => do
      let _ ← Agent.stageExtension env name r.base source
      pure ()

def answerActivateExtension (r : Request) : Act Failure Unit :=
  match r.name, r.version with
  | none, _ => Prog.fail (Failure.new .malformed "activate-extension needs a name")
  | some _, none => Prog.fail (Failure.new .malformed "activate-extension needs a version")
  | some name, some version => do
    Prog.demand (versionValid name && versionValid version)
      (Failure.new .malformed "unusable name or version")
    let _ ← activateExtension env name version r.requestId
    pure ()

def answerStageBase (r : Request) : Act Failure Unit := do
  let _ ← Agent.stageBase env r.version
  pure ()

/-- A request finds the lock free or is turned away. -/
def tryLock : Act Failure Unit := fun w =>
  match env.unreadable .busy w, env.unreadable .lock w with
  | some _, _ => .error (Failure.new .busy "another privileged operation is in flight") w.tick
  | none, some error =>
    .error (Failure.new .failed s!"could not acquire operation lock: {error}") w.tick
  | none, none => .ok () w.tick

def exclusive (operation : Act Failure Unit) : Act Failure Unit := do
  tryLock env
  Prog.mapError (fun error =>
      Failure.new .failed s!"could not reconcile interrupted work: {error}")
    (reconcileState env)
  operation

def Call.operation : Call → Request → Act Failure Unit
  | .stageExtension, r => answerStageExtension env r
  | .activateExtension, r => answerActivateExtension env r
  | .stageBase, r => answerStageBase env r

def Call.run (c : Call) (r : Request) : Act Failure Unit := exclusive env (c.operation env r)

end

/-- What happens to a node: a command or a request runs, whole or until the machine
stops, or the machine boots. -/
inductive Event where
  | command (c : Command) (arguments : List String)
  | request (c : Call) (r : Request)
  | boot (osRelease : Option String) (bootEntries : List String)
  deriving DecidableEq, Repr

/-- A boot loses what is in memory and merges anew. -/
def Node.boot (env : Environment) (w : Node) (osRelease : Option String)
    (bootEntries : List String) : Node :=
  { w with
    osRelease := osRelease
    bootEntries := bootEntries
    memory := {}
    merged := env.mergeAtBoot { w with osRelease := osRelease } }.tick

/-- A new process has no record of its own. -/
def Node.process (w : Node) : Node := { w with memory := {} }

def Event.after (env : Environment) : Event → Node → Node
  | .command c arguments, w => (c.run env arguments w.process).state
  | .request c r, w => (c.run env r w.process).state
  | .boot osRelease bootEntries, w => w.boot env osRelease bootEntries

/-- The node after a sequence of events. -/
def run (env : Environment) (events : List Event) (w : Node) : Node :=
  runAll (Event.after env) events w

end CarbideOS.Agent
