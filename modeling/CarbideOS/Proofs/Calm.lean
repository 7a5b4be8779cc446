import CarbideOS.Proofs.Beside
import CarbideOS.Agent.Commands

namespace CarbideOS.Agent
open Interruptible

/-- What is inside an image. -/
structure Make where
  name : String
  base : String
  version : String
  healthy : Bool

def unitOf (name : String) : String := name ++ ".service"

/-- The active images for the running base, which is what a merge takes. -/
def mergeActive (make : Bytes → Make) (w : Node) : List (String × Bytes) :=
  w.extensions.toList.filterMap fun p =>
    (Text.stripSuffix p.1 ".raw").bind fun image =>
      if (w.activePath (Node.extensionName image)).name = p.1 ∧ (make p.2).base = w.scope then
        some (image, p.2)
      else none

/-- Every call works, every file can be read, there is room, and a unit is up exactly
while a healthy image of its extension is merged. A caller's file `/k` has the one
byte `k`. -/
def calm (make : Bytes → Make) : Environment where
  fault _ _ := none
  unreadable _ _ := none
  available _ := .ok (2 ^ 40)
  refresh w := (.ok (), mergeActive make w)
  mergeAtBoot := mergeActive make
  sysextStatus w := some (w.merged.map Prod.fst)
  systemctl _ _ := .ok ()
  isActive unit w := w.merged.any fun m => unitOf (make m.2).name == unit && (make m.2).healthy
  isFailed _ _ := false
  polls _ := 1
  rounds _ := 1
  healthCommand _ _ := .ok ()
  ruleset name w :=
    match w.mergedImage name with
    | some _ => .ok ("[Extension]\nUnit=" ++ unitOf name)
    | none => .error "not found"
  extensionRelease name w :=
    (w.mergedImage name).map fun x => "SYSEXT_VERSION_ID=" ++ (make x).version
  journal _ _ := none
  source path _ :=
    ((Text.stripPrefix path "/").bind (Text.parseUnsigned 8)).map fun n => .ok (1, [UInt8.ofNat n])
  dissectValidate _ _ := .ok ⟨"systemd-dissect", some 0, "", "", true⟩
  dissectRelease x _ := .ok (some ["VERSION_ID=" ++ (make x).base,
    "SYSEXT_VERSION_ID=" ++ (make x).version, "SYSEXT_ID=" ++ (make x).name])
  sha256sum _ _ := .ok "d"
  components _ := []
  listComponent _ _ := .error "no feed"
  acquire _ _ _ := .error "no feed"
  availableBaseVersion _ := .ok none
  stageBase _ w := (.error "no feed", w.bootEntries)
  bootEntriesReadable _ := true
  setOneshot _ _ := .error "nothing to boot"
  randomUuid _ := none

/-- Two healthy versions of one extension for one base. -/
def twoVersions : Bytes → Make
  | [1] => ⟨"n", "1", "a", true⟩
  | _ => ⟨"n", "1", "b", true⟩

/-- A node of a base with images put in place. -/
def Node.with (base : String) (images : List (String × Bytes)) : Node :=
  { osRelease := some ("VERSION_ID=" ++ base),
    extensions := images.foldl (fun d p => d.insert p.1 p.2) ∅ }

/-- Stage a caller's file. -/
def stageFile (name path : String) : Event :=
  .command .stageExtension [name, "--path", path, "--digest", "d"]

end CarbideOS.Agent
