import CarbideOS.Lib.Prog
import CarbideOS.Lib.Text
import CarbideOS.Agent.State

namespace CarbideOS.Agent
open Interruptible

abbrev Bytes := List UInt8

/-- The files of one directory by name. -/
abbrev Dir := Std.ExtTreeMap String Bytes

/-- Remove every listed file that is there. -/
def Dir.eraseAll (d : Dir) (names : List String) : Dir := names.foldl (fun d name => d.erase name) d

/-- The two directories that hold images: the one `systemd-sysext` scans and the
hidden child in which images are staged. -/
inductive Place where
  | extensions | staging
  deriving DecidableEq, Repr

structure Path where
  place : Place
  name : String
  deriving DecidableEq, Repr

def extensionsDir : String := "/var/lib/extensions"

def stagingDir : String := "/var/lib/extensions/.carbide-staging"

def Path.display (p : Path) : String :=
  match p.place with
  | .extensions => extensionsDir ++ "/" ++ p.name
  | .staging => stagingDir ++ "/" ++ p.name

/-- What has been seen of an image while it was the one being tried. -/
inductive Verdict where
  | attempted | failed | soaked
  deriving DecidableEq, Repr

structure Trial where
  name : String
  image : Bytes
  verdict : Verdict
  deriving DecidableEq, Repr

/-- The node as the agent sees it. `memory` is the record the running command
works on; it is lost with the command, `stored` is the one on disk (a missing
file reads as the empty record). `history` is written by no part of the program:
it notes, newest first, what activations and soaks observed. -/
structure Node where
  osRelease : Option String
  extensions : Dir := ∅
  staging : Dir := ∅
  stored : State := {}
  merged : List (String × Bytes) := []
  bootEntries : List String := []
  memory : State := {}
  history : List Trial := []
  now : Nat := 0

/-- A durable change of the disk, the only kind of step that can be cut off half way. -/
inductive Durable where
  | copy (target : Path)
  | remove (target : Path)
  | prune (place : Place) (start finish : String)
  | mode (target : Path)
  | store
  deriving DecidableEq, Repr

/-- A durable step going wrong: how far it got, and whether the call reports an
error or the machine stops under it. -/
structure Fault where
  halts : Bool
  /-- Which file names had their change applied by then. -/
  reached : String → Bool
  /-- How many bytes of an unpublished copy are left behind. -/
  leftover : Option Nat
  message : String

/-- A read of the file system that can fail. -/
inductive Access where
  | lock | busy | state | metadata (path : Path) | candidates | installed
  deriving DecidableEq, Repr

inductive Systemctl where
  | daemonReload | start (unit : String) | stop (unit : String)
  deriving DecidableEq, Repr

/-- A finished command, kept whole. -/
structure Finished where
  command : String
  code : Option Int
  stdout : String
  stderr : String
  ok : Bool
  deriving DecidableEq, Repr

/-- Everything that is not the agent: what goes wrong, what other programs answer
and what they leave behind. Each answer may depend on the whole node, its clock
included, so two questions never have to be answered alike. -/
structure Environment where
  fault : Durable → Node → Option Fault
  unreadable : Access → Node → Option String
  available : Node → Except String Nat
  /-- A refresh of the merge, and what is merged after it. -/
  refresh : Node → Except String Unit × List (String × Bytes)
  /-- What a boot merges. -/
  mergeAtBoot : Node → List (String × Bytes)
  /-- The image names `systemd-sysext status` lists, if it can be read. -/
  sysextStatus : Node → Option (List String)
  systemctl : Systemctl → Node → Except String Unit
  isActive : String → Node → Bool
  isFailed : String → Node → Bool
  /-- How often a readiness wait looks before its deadline. -/
  polls : Node → Nat
  /-- How many rounds of a soak fit before its deadline. -/
  rounds : Node → Nat
  healthCommand : List String → Node → Except String Unit
  /-- The ruleset file of an extension in the merged tree. -/
  ruleset : String → Node → Except String String
  /-- The extension-release file of an extension in the merged tree. -/
  extensionRelease : String → Node → Option String
  journal : String → Node → Option (List String)
  /-- A caller's file: its size when opened and the bytes then read from it. -/
  source : String → Node → Option (Except String (Nat × Bytes))
  dissectValidate : Bytes → Node → Except String Finished
  /-- The `sysextRelease` assignments of an image, when dissect reports any. -/
  dissectRelease : Bytes → Node → Except String (Option (List String))
  sha256sum : Bytes → Node → Except String String
  components : Node → List String
  /-- The versions a component lists, when the output can be read. -/
  listComponent : String → Node → Except String (Finished × Option (List String))
  /-- Acquiring a component version, and the staging directory after it. -/
  acquire : String → String → Node → Except String (Finished × Dir)
  availableBaseVersion : Node → Except String (Option String)
  /-- Installing a base, and the boot entries after it. -/
  stageBase : String → Node → Except String Finished × List String
  bootEntriesReadable : Node → Bool
  setOneshot : String → Node → Except String Finished
  randomUuid : Node → Option String

namespace Node

def tick (w : Node) : Node := { w with now := w.now + 1 }

def dir (w : Node) : Place → Dir
  | .extensions => w.extensions
  | .staging => w.staging

def setDir (w : Node) : Place → Dir → Node
  | .extensions, d => { w with extensions := d }
  | .staging, d => { w with staging := d }

def readFile (w : Node) (p : Path) : Option Bytes := (w.dir p.place)[p.name]?

def fileExists (w : Node) (p : Path) : Bool := (w.readFile p).isSome

/-- `KEY=value` in `/etc/os-release`, first match. -/
def osReleaseValue (w : Node) (key : String) : Option String :=
  w.osRelease.bind fun contents =>
    (Text.lines contents).findSome? fun line => Text.stripPrefix line (key ++ "=")

/-- The running base image version, as the agent should record it. -/
def osVersion (w : Node) : Option String :=
  (w.osReleaseValue "VERSION_ID").map fun value => Text.trimBy (· == '"') (Text.trim value)

/-- The base version image slots are scoped to. -/
def scope (w : Node) : String := w.osVersion.getD "unknown"

/-- The extension name behind an image name: everything from the first
underscore is the version. -/
def extensionName (image : String) : String :=
  match Text.splitOnce image '_' with
  | some (name, _) => name
  | none => image

/-- The image merged for an extension. -/
def mergedImage (w : Node) (name : String) : Option Bytes :=
  (w.merged.find? fun m => extensionName m.1 == name).map Prod.snd

/-- The last thing seen of an image. -/
def standing (w : Node) (name : String) (image : Bytes) : Option Verdict :=
  (w.history.find? fun t => t.name == name && t.image == image).map Trial.verdict

end Node

/-- A program of the agent. -/
abbrev Act (ε α : Type) := Prog Node ε α

namespace Act

variable {ε α : Type}

/-- Ask the environment. Time passes. -/
def ask (f : Node → α) : Act ε α := fun w => .ok (f w) w.tick

/-- Ask the environment for something it may fail to give. -/
def askFor (f : Node → Except String α) : Act String α := fun w =>
  match f w with
  | .ok a => .ok a w.tick
  | .error e => .error e w.tick

/-- Edit the record in memory. -/
def entry (name : String) (f : ExtensionState → ExtensionState) : Act ε Unit :=
  Prog.change fun w => { w with memory := w.memory.entry name f }

/-- Take a record into memory. -/
def hold (s : State) : Act ε Unit := Prog.change fun w => { w with memory := s }

def note (name : String) (image : Option Bytes) (verdict : Verdict) : Act ε Unit :=
  Prog.change fun w =>
    match image with
    | some x => { w with history := ⟨name, x, verdict⟩ :: w.history }
    | none => w

/-- A durable step. `effect reached` is the change applied to the files reached,
`residue` what an unfinished step leaves besides. -/
def durable (env : Environment) (step : Durable) (effect : (String → Bool) → Node → Node)
    (residue : Option Nat → Node → Node) : Act String Unit := fun w =>
  match env.fault step w with
  | none => .ok () (effect (fun _ => true) w).tick
  | some f =>
    let w' := (effect f.reached (residue f.leftover w)).tick
    if f.halts then .halt w' else .error f.message w'

end Act
end CarbideOS.Agent
