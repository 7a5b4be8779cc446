import CarbideOS.Lib.Pretty
import CarbideOS.Agent.Api
import CarbideOS.Agent.Publication

namespace CarbideOS.Agent

def Phase.wire : Phase → String
  | .idle => "idle"
  | .staged => "staged"
  | .activating => "activating"
  | .starting => "starting"
  | .soaking => "soaking"
  | .active => "active"
  | .reverting => "reverting"
  | .recovered => "recovered"
  | .removing => "removing"
  | .unrecoverable => "unrecoverable"

def phases : List Phase :=
  [.idle, .staged, .activating, .starting, .soaking, .active, .reverting, .recovered, .removing,
    .unrecoverable]

instance : ToJson Phase := ⟨fun phase => toJson phase.wire⟩

def ExtensionState.members (e : ExtensionState) : List (String × Json.Value) :=
  [("required", toJson e.required)] ++ optional "active_version" e.activeVersion ++
    optional "known_good_version" e.knownGoodVersion ++
    optional "candidate_version" e.candidateVersion ++ [("phase", toJson e.phase)] ++
    optional "request_id" e.requestId ++ optional "last_health" e.lastHealth ++
    optional "last_failure" e.lastFailure ++ optional "terminal_os_version" e.terminalOsVersion ++
    unlessEmpty "completed_requests" e.completedRequests

instance : ToJson ExtensionState := ⟨fun e => .object e.members⟩

instance : ToJson State where
  toJson s :=
    .object [("extensions", .object (s.extensions.toList.map fun p => (p.1, toJson p.2)))]

/-- What is read from JSON. -/
class FromJson (α : Type) where
  fromJson : Json.Value → Option α

export FromJson (fromJson)

instance : FromJson Bool where
  fromJson
    | .bool b => some b
    | _ => none

instance : FromJson String := ⟨Json.Value.asStr⟩

instance {α : Type} [FromJson α] : FromJson (Option α) where
  fromJson
    | .null => some none
    | v => (fromJson v).map some

instance {α : Type} [FromJson α] : FromJson (List α) where
  fromJson
    | .array items => items.mapM fromJson
    | _ => none

/-- A variant without data, by its name alone or as a member without a value. -/
instance : FromJson Phase where
  fromJson
    | .string name => phases.find? fun phase => phase.wire == name
    | .object [(name, .null)] => phases.find? fun phase => phase.wire == name
    | _ => none

/-- A map. Of members with one key the last one counts. -/
instance {α : Type} [FromJson α] : FromJson (Std.ExtTreeMap String α) where
  fromJson
    | .object members => do
      let entries ← members.mapM fun m => (fromJson m.2).map fun a => (m.1, a)
      pure (entries.foldl (fun map p => map.insert p.1 p.2) ∅)
    | _ => none

/-- A field, by its key in an object or its position in an array, and its default where it is
left out. An object that has it twice is refused. -/
def field {α : Type} [FromJson α] (v : Json.Value) (position : Nat) (key : String) (default : α) :
    Option α :=
  match v with
  | .object members =>
    match members.filter fun m => m.1 == key with
    | [] => some default
    | [m] => fromJson m.2
    | _ => none
  | .array items =>
    match items[position]? with
    | none => some default
    | some item => fromJson item
  | _ => none

/-- An array has no more items than the struct has fields. -/
def fits (v : Json.Value) (fields : Nat) : Bool :=
  match v with
  | .array items => items.length ≤ fields
  | _ => true

instance : FromJson ExtensionState where
  fromJson v := do
    let required ← field v 0 "required" false
    let activeVersion ← field v 1 "active_version" none
    let knownGoodVersion ← field v 2 "known_good_version" none
    let candidateVersion ← field v 3 "candidate_version" none
    let phase ← field v 4 "phase" .idle
    let requestId ← field v 5 "request_id" none
    let lastHealth ← field v 6 "last_health" none
    let lastFailure ← field v 7 "last_failure" none
    let terminalOsVersion ← field v 8 "terminal_os_version" none
    let completedRequests ← field v 9 "completed_requests" []
    if fits v 10 then
      some { required, activeVersion, knownGoodVersion, candidateVersion, phase, requestId,
             lastHealth, lastFailure, terminalOsVersion, completedRequests }
    else none

instance : FromJson State where
  fromJson v := do
    let extensions ← field v 0 "extensions" ∅
    if fits v 1 then some { extensions } else none

/-- The record over several lines. -/
def State.toVecPretty (s : State) : Bytes := Text.utf8 (Json.pretty (toJson s))

def State.fromSlice (bytes : Bytes) : Option State :=
  ((Text.decode bytes).bind Json.read).bind fromJson

end CarbideOS.Agent

namespace CarbideOS.Publication
open Interruptible Storage

section
variable (faults : Faults)

def readFile (p : Path) : Io Bytes := perform faults fun d =>
  match d.content p with
  | none => .error .notFound
  | some bytes => .ok (bytes, d)

/-- The record on disk, given what the reader says of bytes that are none. No state yet is the
normal first boot, not an error. -/
def load (reason : Bytes → String) : Io Agent.State := do
  match ← Prog.attempt (readFile faults statePath) with
  | .ok bytes =>
    match Agent.State.fromSlice bytes with
    | some s => pure s
    | none => Prog.fail ⟨.invalidData, "corrupt agent state: " ++ reason bytes⟩
  | .error error => if error.kind = .notFound then pure {} else Prog.fail error

end
end CarbideOS.Publication
