import CarbideOS.Installer.Screens
import CarbideOS.Installer.Write

namespace CarbideOS.Installer

/-! The installer as a whole: its window, the decoder that runs from the start, and the writes
that the window starts one after another. -/

/-- What another write starts from: the image, as far as it is decoded. -/
def Write.State.renew {job : Write.Job} (s : Write.State job) : Write.State job where
  decoder := s.decoder
  memory := s.memory
  produced := s.produced
  ready := s.ready
  failed := s.failed

structure Session (job : Write.Job) where
  window : AppWindow
  write : Write.State job := {}
  /-- What the last write to each device has put there. -/
  devices : String → Nat → Option UInt8 := fun _ _ => none

namespace Session

variable {job : Write.Job}

/-- The disk of the last write. -/
def target (s : Session job) : Option Disk := s.window.started.getLast?

def put (s : Session job) (device : Nat → Option UInt8) : String → Nat → Option UInt8 :=
  match s.target with
  | none => s.devices
  | some d => Function.update s.devices d.node device

/-- The window takes an event, and the host starts the write that it asks for. -/
def shows (t : Texts) (e : Event) (s : Session job) : Session job :=
  let window := AppWindow.after t e s.window
  if window.started = s.window.started then { s with window }
  else
    let s := { s with window, write := s.write.renew }
    { s with devices := s.put fun _ => none }

/-- One step of the window, of a thread or of the host, where the disks are as a scan may find
them. -/
inductive Step (t : Texts) (found : List Disk → Prop) : Session job → Session job → Prop where
  | window (s : Session job) (e : Event) (scanned : ∀ disks, e = .attach disks → found disks)
      (own : ∀ failed, e ≠ .finish failed) : Step t found s (s.shows t e)
  /-- Before the first write there is only the decoder. -/
  | work (s : Session job) (e : Write.Event job) (w : Write.State job)
      (step : Write.Step s.write e w) (carried : s.window.image = true)
      (only : s.window.started = [] → w.main = .preparing) :
    Step t found s { s with write := w, devices := s.put w.device }
  /-- The host's timer sees that the write has ended. -/
  | poll (s : Session job) (error : Option String) (ended : s.write.main = .finished error)
      (writing : s.window.writing = true) :
    Step t found s { s with window := s.window.finish error.isSome }

inductive Reachable (t : Texts) (found : List Disk → Prop) : Session job → Prop where
  | start (image : Bool) (attached : List Disk) (scanned : found attached) :
    Reachable t found { window := .start image attached }
  | step {s s' : Session job} (before : Reachable t found s) (last : Step t found s s') :
    Reachable t found s'

end Session
end CarbideOS.Installer
