import CarbideOS.Lib.Json
import CarbideOS.Lib.Utf8
import CarbideOS.Agent.Base
import CarbideOS.Agent.Activation

namespace CarbideOS.Agent

def protocolVersion : Nat := 1

def commands : List String :=
  ["hello", "update-status", "stage-extension", "activate-extension", "stage-base", "logs"]

def Stage.wire : Stage → String
  | .checking => "checking"
  | .validating => "validating"
  | .staging => "staging"
  | .activating => "activating"
  | .soaking => "soaking"
  | .reverting => "reverting"

def Code.wire : Code → String
  | .unsupported => "unsupported"
  | .malformed => "malformed"
  | .notFound => "not_found"
  | .digestMismatch => "digest_mismatch"
  | .untrusted => "untrusted"
  | .baseMismatch => "base_mismatch"
  | .busy => "busy"
  | .noSpace => "no_space"
  | .precondition => "precondition"
  | .failed => "failed"

/-- What is made into JSON. -/
class ToJson (α : Type) where
  toJson : α → Json.Value

export ToJson (toJson)

instance : ToJson Bool := ⟨.bool⟩

instance : ToJson String := ⟨.string⟩

instance : ToJson Nat := ⟨fun n => .number (.ofNat n)⟩

instance : ToJson Int := ⟨fun n => .number (.ofInt n)⟩

instance : ToJson (List String) := ⟨fun items => .array (items.map .string)⟩

/-- A member that is left out when there is no value. -/
def optional {α : Type} [ToJson α] (key : String) (value : Option α) : List (String × Json.Value) :=
  (value.map fun value => (key, toJson value)).toList

/-- A member that is left out when it is empty. -/
def unlessEmpty (key : String) (items : List String) : List (String × Json.Value) :=
  if items.isEmpty then [] else [(key, toJson items)]

instance : ToJson Failure where
  toJson f := .object ([("code", toJson f.code.wire), ("message", toJson f.message)] ++
    optional "stage" (f.stage.map Stage.wire) ++ optional "command" f.command ++
    optional "exit_code" f.exitCode ++ optional "stderr" f.stderr ++ optional "unit" f.unit ++
    unlessEmpty "log" f.log ++ unlessEmpty "supported" f.supported)

/-- A map with a key set to a value, in the order of the keys. -/
def insertKey (key : String) (value : Json.Value) :
    List (String × Json.Value) → List (String × Json.Value)
  | [] => [(key, value)]
  | (other, old) :: rest =>
    if key = other then (key, value) :: rest
    else if key < other then (key, value) :: (other, old) :: rest
    else (other, old) :: insertKey key value rest

structure Reply where
  isOk : Bool
  protocol : Nat
  error : Option Failure
  data : List (String × Json.Value)

namespace Reply

def ok : Reply := ⟨true, protocolVersion, none, []⟩

/-- A reply with a field more. -/
def also {α : Type} [ToJson α] (r : Reply) (key : String) (value : α) : Reply :=
  { r with data := insertKey key (toJson value) r.data }

/-- Omits the key entirely rather than writing null. -/
def maybe {α : Type} [ToJson α] (r : Reply) (key : String) (value : Option α) : Reply :=
  match value with
  | some value => r.also key value
  | none => r

def failed (f : Failure) : Reply := ⟨false, protocolVersion, some f, []⟩

end Reply

/-- The fields of a handler beside those of every reply. -/
instance : ToJson Reply where
  toJson r := .object ([("ok", toJson r.isOk), ("protocol", toJson r.protocol)] ++
    optional "error" r.error ++ r.data)

/-- What the socket takes from the libraries it is built on. -/
structure Formats where
  /-- The value that a text is the JSON of. -/
  fromStr : List Char → Except String Json.Value
  /-- The JSON of a value. -/
  toVec : Json.Value → List UInt8
  /-- A text as a programmer would write it. -/
  debug : String → String

/-- What the socket takes from the rest of the agent. An operation that aborts the agent comes
to nothing. -/
structure Services where
  agentVersion : String
  components : List String
  osVersion : Option String
  availableBaseVersion : Except String (Option String)
  updatePending : Bool
  /-- No, when another operation holds the lock. -/
  tryAcquire : Except String Bool
  reconcileState : Option (Except String Unit)
  stageExtension : String → Option String → Source → Option (Except Failure Staged)
  activateExtension : String → String → Option String → Option (Except Failure Activation)
  stageBase : Option String → Option (Except Failure StagedBase)
  /-- Lines and a cursor, for a unit, a number of lines, a cursor and a priority. -/
  journal : Option String → Nat → Option String → Option String →
    Except String (List String × Option String)

def Failure.unknown (formats : Formats) (command : String) : Failure :=
  { Failure.new .unsupported s!"unknown command {formats.debug command}" with
    supported := commands }

section
variable (request : Json.Value)

/-- A text field, unless it is empty. -/
def text (key : String) : Option String :=
  (((request.get key).bind Json.Value.asStr).map Text.trim).filter fun value => !value.isEmpty

def number (key : String) : Option Nat := (request.get key).bind Json.Value.asU64

end

section
variable (formats : Formats) (services : Services) (request : Json.Value)

def busy : Reply := .failed (Failure.new .busy "another privileged operation is in flight")

/-- An operation under the lock, on a state without interrupted work. -/
def exclusiveReply (operation : Option Reply) : Option Reply :=
  match services.tryAcquire with
  | .ok true =>
    match services.reconcileState with
    | none => none
    | some (.error error) =>
      some (.failed (Failure.new .failed s!"could not reconcile interrupted work: {error}"))
    | some (.ok ()) => operation
  | .ok false => some busy
  | .error error =>
    some (.failed (Failure.new .failed s!"could not acquire operation lock: {error}"))

def hello : Reply :=
  (((Reply.ok.also "agent_version" services.agentVersion).also "capabilities" commands).also
    "components" services.components).maybe "base_version" services.osVersion

def updateStatus : Reply :=
  match services.availableBaseVersion with
  | .ok available =>
    (Reply.ok.maybe "available" available).also "pending" services.updatePending
  | .error error => .failed ((Failure.new .failed error).atStage .checking)

/-- The image that a request names. -/
def requestedSource : Except Failure Source :=
  match text request "path" with
  | some path =>
    match text request "digest" with
    | none => .error (Failure.new .malformed "a supplied image must declare a digest")
    | some digest => .ok (.supplied path digest)
  | none => .ok (.acquire (text request "version"))

def stageExtensionReply : Option Reply :=
  match text request "name" with
  | none => some (.failed (Failure.new .malformed "stage-extension needs a name"))
  | some name =>
    let base := text request "base"
    -- Left as the caller sent it: absent means what the image says.
    if base.any fun base => !versionValid base then
      some (.failed
        (Failure.new .malformed ("unusable base version " ++ formats.debug (base.getD ""))))
    else
      match requestedSource request with
      | .error failure => some (.failed failure)
      | .ok source =>
        (services.stageExtension name base source).map fun
          | .error failure => .failed failure
          | .ok staged =>
            (((((Reply.ok.also "name" staged.name).also "version" staged.version).also
              "staged" staged.path.display).also "acquired" staged.acquired).also
                "for_running_base" staged.forRunningBase).maybe
                  "extension_version" staged.extensionVersion

def activateExtensionReply : Option Reply :=
  match text request "name" with
  | none => some (.failed (Failure.new .malformed "activate-extension needs a name"))
  | some name =>
    match text request "version" with
    | none => some (.failed (Failure.new .malformed "activate-extension needs a version"))
    | some version =>
      if !versionValid name || !versionValid version then
        some (.failed (Failure.new .malformed "unusable name or version"))
      else
        (services.activateExtension name version (text request "request_id")).map fun
          | .error failure => .failed failure
          | .ok activation =>
            ((((Reply.ok.also "name" name).also "version" activation.version).also
              "phase" "active").also "replayed" activation.replayed).maybe
                "known_good" activation.knownGood

def stageBaseReply : Option Reply :=
  (services.stageBase (text request "version")).map fun
    | .error failure => .failed failure
    | .ok staged =>
      ((Reply.ok.maybe "version" staged.version).also "pending" staged.pending).maybe
        "boot_entry" staged.bootEntry

/-- So that one reply cannot outgrow what the caller has to carry it over. -/
def maxLines : Nat := 2000

/-- The number of lines that a request for logs asks for, within bounds. -/
def requestedLines : Nat := min (max ((number request "lines").getD 200) 1) maxLines

def logs : Reply :=
  let lines := requestedLines request
  match services.journal (text request "unit") lines (text request "cursor")
    (text request "priority") with
  | .ok (collected, next) =>
    let complete := decide (collected.length < lines)
    ((Reply.ok.also "lines" collected).maybe "cursor" next).also "eof" complete
  | .error error =>
    .failed ((Failure.new .failed s!"could not read the journal: {error}").atStage .checking)

def dispatch : Option Reply :=
  match text request "command" with
  | none => some (.failed (Failure.new .malformed "request has no command"))
  | some command =>
    if command = "hello" then some (hello services)
    else if command = "update-status" then some (updateStatus services)
    else if command = "stage-extension" then
      exclusiveReply services (stageExtensionReply formats services request)
    else if command = "activate-extension" then
      exclusiveReply services (activateExtensionReply services request)
    else if command = "stage-base" then exclusiveReply services (stageBaseReply services request)
    else if command = "logs" then some (logs services request)
    else some (.failed (Failure.unknown formats command))

/-- What a client sends, up to and with the first newline. -/
def firstLine (sent : List UInt8) : List UInt8 :=
  sent.takeWhile (· != 10) ++ (sent.dropWhile (· != 10)).take 1

/-- The first line that a client sends, when it is text. -/
def readLine (sent : List UInt8) : Option (List Char) := Text.decode (firstLine sent)

/-- What a connection writes before it is closed, by the agent or with it. -/
def serveConnection (sent : List UInt8) : List UInt8 :=
  match readLine sent with
  | none => []
  | some line =>
    let reply := match formats.fromStr (Text.trim (String.ofList line)).toList with
      | .ok request => dispatch formats services request
      | .error error => some (.failed (Failure.new .malformed s!"unreadable request: {error}"))
    match reply with
    | some reply => formats.toVec (toJson reply) ++ [10]
    | none => []

end
end CarbideOS.Agent
