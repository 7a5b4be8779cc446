import CarbideOS.Installer.Image
import CarbideOS.Installer.Session

namespace CarbideOS.Installer
open Streaming

/-! The installer with the decoder it decodes the carried image with: what a call of the decoder
does to the buffer that the writes read from. -/

/-- The carried image: its payload, and the writes of what the sidecar declares. -/
structure Carried where
  payload : List UInt8
  job : Write.Job
  whole : job.source = payload.length
  usable : 0 < job.total

/-- What a call is fed: what is left of the slice that starts at a place in the payload. -/
def Carried.input (image : Carried) (consumed pos : Nat) : List UInt8 :=
  (image.payload.take (image.job.fed consumed)).drop pos

/-- The buffer with some bytes more, from a place on. -/
def fill (memory : Nat → UInt8) (start : Nat) (given : List UInt8) : Nat → UInt8 := fun i =>
  if start ≤ i then given[i - start]?.getD (memory i) else memory i

/-- What is next for the decoder thread is to make its context or to use it. -/
def Write.Decoder.calls : Write.Decoder → Bool
  | .starting | .calling .. => true
  | _ => false

section
variable (D : Decoder UInt8 UInt8) (image : Carried)

/-- The step of a thread, with the context of the decoder thread before and after it. -/
inductive Works : Write.State image.job → Option D.State → Write.Event image.job →
    Write.State image.job → Option D.State → Prop where
  | refuse (s : Write.State image.job) (dctx : Option D.State) (h : s.decoder = .starting)
      (refused : D.create = none) :
    Works s dctx .other
      { s with decoder := .failing "could not raise the zstd window limit" } dctx
  | create (s : Write.State image.job) (dctx : Option D.State) (z : D.State)
      (h : s.decoder = .starting) (created : D.create = some z) :
    Works s dctx .other { s with
      decoder := if 0 < image.job.source then .calling 0 0
        else Write.decodeOn image.job 0 s.produced } (some z)
  | call_failed (s : Write.State image.job) (z : D.State) (consumed pos : Nat) (code : String)
      (h : s.decoder = .calling consumed pos)
      (called : D.decompress z (image.input consumed pos) (image.job.total - s.produced) =
        .error code) :
    Works s (some z) .other
      { s with decoder := .failing ("image decode failed: " ++ code) } (some z)
  | call (s : Write.State image.job) (z : D.State) (consumed pos : Nat) (call : Call D.State UInt8)
      (h : s.decoder = .calling consumed pos)
      (called : D.decompress z (image.input consumed pos) (image.job.total - s.produced) = .ok call)
      (moves : 0 < call.taken ∨ 0 < call.given.length ∨ Write.Leaves image.job consumed
        (pos + call.taken) call.hint (s.produced + call.given.length)) :
    Works s (some z) .other { s with
      decoder := .storing consumed (pos + call.taken) call.hint
      memory := fill s.memory s.produced call.given
      produced := s.produced + call.given.length } (some call.state)
  | stall (s : Write.State image.job) (z : D.State) (consumed pos : Nat)
      (call : Call D.State UInt8) (h : s.decoder = .calling consumed pos)
      (called : D.decompress z (image.input consumed pos) (image.job.total - s.produced) = .ok call)
      (nothing : call.taken = 0 ∧ call.given = [])
      (on : ¬ Write.Leaves image.job consumed pos call.hint s.produced) :
    Works s (some z) .idle s (some call.state)
  /-- All other steps have nothing to do with the context. -/
  | other (s : Write.State image.job) (dctx : Option D.State) (e : Write.Event image.job)
      (w : Write.State image.job) (step : Write.Step s e w)
      (apart : s.decoder.calls = true → w.decoder = s.decoder) : Works s dctx e w dctx

/-- The threads of one write, from their start. -/
inductive Running : Write.State image.job → Option D.State → Prop where
  | start : Running {} none
  | step {s w : Write.State image.job} {dctx dctx' : Option D.State} {e : Write.Event image.job}
      (before : Running s dctx) (last : Works D image s dctx e w dctx') : Running w dctx'

structure Installation where
  session : Session image.job
  dctx : Option D.State := none

end

namespace Installation
variable {D : Decoder UInt8 UInt8} {image : Carried}

/-- One step of the window, of a thread or of the host. -/
inductive Step (t : Texts) (found : List Disk → Prop) :
    Installation D image → Installation D image → Prop where
  | window (s : Installation D image) (e : Event)
      (scanned : ∀ disks, e = .attach disks → found disks) (own : ∀ failed, e ≠ .finish failed) :
    Step t found s { s with session := s.session.shows t e }
  | work (s : Installation D image) (e : Write.Event image.job) (w : Write.State image.job)
      (dctx : Option D.State) (works : Works D image s.session.write s.dctx e w dctx)
      (carried : s.session.window.image = true)
      (only : s.session.window.started = [] → w.main = .preparing) :
    Step t found s
      { session := { s.session with write := w, devices := s.session.put w.device }, dctx }
  | poll (s : Installation D image) (error : Option String)
      (ended : s.session.write.main = .finished error) (writing : s.session.window.writing = true) :
    Step t found s { s with session :=
      { s.session with window := s.session.window.finish error.isSome } }

inductive Reachable (t : Texts) (found : List Disk → Prop) : Installation D image → Prop where
  | start (carried : Bool) (attached : List Disk) (scanned : found attached) :
    Reachable t found { session := { window := .start carried attached } }
  | step {s s' : Installation D image} (before : Reachable t found s) (last : Step t found s s') :
    Reachable t found s'

end Installation
end CarbideOS.Installer
