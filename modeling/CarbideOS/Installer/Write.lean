import Mathlib

namespace CarbideOS.Installer.Write

/-! The write of an image: a decoder, the workers that write what it has decoded, and the
run that waits for them. Each step is one access to what they share. -/

/-- The bytes a worker claims at once. -/
def spanSize : Nat := 32 * 2 ^ 20

/-- The bytes of the payload that the decoder is fed at once. -/
def feed : Nat := 4 * 2 ^ 20

/-- The places that are read back, and how much is read at each. -/
def samples : Nat := 12

def window : Nat := 2 ^ 20

/-- An image to write, and the threads it is written with. -/
structure Job where
  total : Nat
  /-- The length of the compressed payload. -/
  source : Nat
  workers : Nat
  some_worker : 0 < workers
  /-- How sizes are shown. -/
  formatSize : Nat → String

def Job.spans (job : Job) : Nat := (job.total + spanSize - 1) / spanSize

def offset (index : Nat) : Nat := index * spanSize

def Job.len (job : Job) (index : Nat) : Nat := min spanSize (job.total - offset index)

/-- What is compared of the image at a place that is read back. -/
def Job.sample (job : Job) (i : Nat) : Nat × Nat :=
  let offset := i * (job.total / samples)
  (offset - offset % 4096, min window (job.total - offset))

inductive Decoder where
  | starting
  /-- About to decode on from a place in the payload, fed from another place on. -/
  | calling (consumed pos : Nat)
  /-- A call has returned, and its bytes are not published yet. -/
  | storing (consumed pos hint : Nat)
  | failing (message : String)
  | ended
  deriving DecidableEq

inductive Worker where
  | checking
  | claiming
  | waiting (index : Nat)
  | asking (index : Nat)
  | writing (index done : Nat)
  | counting (index : Nat)
  | failing (message : String)
  | exited
  deriving DecidableEq

inductive Main where
  | preparing | opening | sizing | discarding | writing | joined | flushing | verifying
  | finished (error : Option String)
  deriving DecidableEq

structure State (job : Job) where
  decoder : Decoder := .starting
  memory : Nat → UInt8 := fun _ => 0
  /-- The bytes that are decoded, and those that are known to be. -/
  produced : Nat := 0
  ready : Nat := 0
  failed : Option String := none
  main : Main := .preparing
  worker : Fin job.workers → Worker := fun _ => .checking
  next : Nat := 0
  failure : Option String := none
  written : Nat := 0
  /-- The bytes this run has written to the device. -/
  device : Nat → Option UInt8 := fun _ => none

/-- What a step is: a claim of a span, a look or a call without any effect, or another. -/
inductive Event (job : Job) where
  | claim (worker : Fin job.workers) (index : Nat)
  | idle
  | other

/-- The end of the payload's part that is fed. -/
def Job.fed (job : Job) (consumed : Nat) : Nat := min (consumed + feed) job.source

variable {job : Job}

/-- The part that is fed, or the buffer, is used up. -/
def Leaves (job : Job) (consumed pos hint produced : Nat) : Prop :=
  pos = job.fed consumed ∨ hint = 0 ∨ produced = job.total

/-- What follows the decoding of so much of the payload. -/
def decodeOn (job : Job) (consumed produced : Nat) : Decoder :=
  if consumed < job.source ∧ produced ≠ job.total then .calling consumed consumed
  else if produced ≠ job.total then
    .failing s!"image decoded to {produced} bytes, expected {job.total}"
  else .ended

def State.setWorker (s : State job) (w : Fin job.workers) (p : Worker) : State job :=
  { s with worker := Function.update s.worker w p }

def State.finish (s : State job) (context message : String) : State job :=
  { s with main := .finished (some (context ++ ": " ++ message)) }

/-- What a write leaves on the device: so many bytes of the image at their own offset. -/
def State.put (s : State job) (start count : Nat) : Nat → Option UInt8 := fun i =>
  if start ≤ i ∧ i < start + count then some (s.memory i) else s.device i

inductive Step : State job → Event job → State job → Prop where
  /- The decoder. -/
  | start_failed (s : State job) (message : String) (h : s.decoder = .starting) :
    Step s .other { s with decoder := .failing message }
  | start_decoding (s : State job) (h : s.decoder = .starting) :
    Step s .other { s with decoder :=
      if 0 < job.source then .calling 0 0 else decodeOn job 0 s.produced }
  | call_failed (s : State job) (consumed pos : Nat) (message : String)
      (h : s.decoder = .calling consumed pos) :
    Step s .other { s with decoder := .failing ("image decode failed: " ++ message) }
  /-- A call decodes into the buffer behind what is decoded. -/
  | call (s : State job) (consumed pos pos' hint produced' : Nat) (memory' : Nat → UInt8)
      (h : s.decoder = .calling consumed pos) (input : pos ≤ pos' ∧ pos' ≤ job.fed consumed)
      (output : s.produced ≤ produced' ∧ produced' ≤ job.total)
      (kept : ∀ i, i < s.produced ∨ produced' ≤ i → memory' i = s.memory i)
      (moves : pos < pos' ∨ s.produced < produced' ∨ Leaves job consumed pos' hint produced') :
    Step s .other { s with
      decoder := .storing consumed pos' hint, memory := memory', produced := produced' }
  /-- A call comes back without having done anything, and is made again. -/
  | stall (s : State job) (consumed pos : Nat) (h : s.decoder = .calling consumed pos) :
    Step s .idle s
  | store (s : State job) (consumed pos hint : Nat) (h : s.decoder = .storing consumed pos hint)
      (on : ¬ Leaves job consumed pos hint s.produced) :
    Step s .other { s with ready := s.produced, decoder := .calling consumed pos }
  | store_left (s : State job) (consumed pos hint : Nat)
      (h : s.decoder = .storing consumed pos hint)
      (left : Leaves job consumed pos hint s.produced) :
    Step s .other { s with
      ready := s.produced, decoder := decodeOn job (job.fed consumed) s.produced }
  | fail_decoding (s : State job) (message : String) (h : s.decoder = .failing message) :
    Step s .other { s with failed := some message, decoder := .ended }
  /- The run up to the workers. -/
  | prepare_failed (s : State job) (message : String) (h : s.main = .preparing)
      (failed : s.failed = some message) : Step s .other (s.finish "preparing image" message)
  | prepare (s : State job) (h : s.main = .preparing) (fine : s.failed = none) :
    Step s .other { s with main := .opening }
  | open_failed (s : State job) (message : String) (h : s.main = .opening) :
    Step s .other (s.finish "opening target device" message)
  | open_block (s : State job) (h : s.main = .opening) : Step s .other { s with main := .sizing }
  | size_failed (s : State job) (message : String) (h : s.main = .sizing) :
    Step s .other (s.finish "querying device size" message)
  | too_small (s : State job) (size : Nat) (h : s.main = .sizing) (small : size < job.total) :
    Step s .other (s.finish "target device is too small"
      (job.formatSize size ++ " available, " ++ job.formatSize job.total ++ " required"))
  | device_size (s : State job) (size : Nat) (h : s.main = .sizing) (fits : job.total ≤ size) :
    Step s .other { s with main := .discarding }
  | discard (s : State job) (h : s.main = .discarding) : Step s .other { s with main := .writing }
  /- The workers. -/
  | check (s : State job) (w : Fin job.workers) (on : s.main = .writing)
      (h : s.worker w = .checking) (fine : s.failure = none) :
    Step s .other (s.setWorker w .claiming)
  | check_failed (s : State job) (w : Fin job.workers) (on : s.main = .writing)
      (h : s.worker w = .checking) (failed : s.failure ≠ none) :
    Step s .other (s.setWorker w .exited)
  | claim (s : State job) (w : Fin job.workers) (on : s.main = .writing)
      (h : s.worker w = .claiming) (left : s.next < job.spans) :
    Step s (.claim w s.next) { s.setWorker w (.waiting s.next) with next := s.next + 1 }
  | claim_none (s : State job) (w : Fin job.workers) (on : s.main = .writing)
      (h : s.worker w = .claiming) (none_ : job.spans ≤ s.next) :
    Step s .other { s.setWorker w .exited with next := s.next + 1 }
  | wait_over (s : State job) (w : Fin job.workers) (index : Nat) (on : s.main = .writing)
      (h : s.worker w = .waiting index) (there : offset index + job.len index ≤ s.ready) :
    Step s .other (s.setWorker w (.writing index 0))
  | wait (s : State job) (w : Fin job.workers) (index : Nat) (on : s.main = .writing)
      (h : s.worker w = .waiting index) (missing : s.ready < offset index + job.len index) :
    Step s .idle (s.setWorker w (.asking index))
  | ask_failed (s : State job) (w : Fin job.workers) (index : Nat) (message : String)
      (on : s.main = .writing) (h : s.worker w = .asking index) (failed : s.failed = some message) :
    Step s .other (s.setWorker w (.failing message))
  | ask (s : State job) (w : Fin job.workers) (index : Nat) (on : s.main = .writing)
      (h : s.worker w = .asking index) (fine : s.failed = none) :
    Step s .idle (s.setWorker w (.waiting index))
  /-- Some of what is left of the span is written. -/
  | pwrite (s : State job) (w : Fin job.workers) (index done count : Nat) (on : s.main = .writing)
      (h : s.worker w = .writing index done) (some_ : 0 < count)
      (part : done + count ≤ job.len index) :
    Step s .other { s.setWorker w (.writing index (done + count)) with
      device := s.put (offset index + done) count }
  | interrupted (s : State job) (w : Fin job.workers) (index done : Nat) (on : s.main = .writing)
      (h : s.worker w = .writing index done) (left : done < job.len index) : Step s .idle s
  | short_write (s : State job) (w : Fin job.workers) (index done : Nat) (on : s.main = .writing)
      (h : s.worker w = .writing index done) (left : done < job.len index) :
    Step s .other (s.setWorker w (.failing "short write"))
  | write_failed (s : State job) (w : Fin job.workers) (index done : Nat) (message : String)
      (on : s.main = .writing) (h : s.worker w = .writing index done)
      (left : done < job.len index) : Step s .other (s.setWorker w (.failing message))
  | write_over (s : State job) (w : Fin job.workers) (index done : Nat) (on : s.main = .writing)
      (h : s.worker w = .writing index done) (whole : done = job.len index) :
    Step s .other (s.setWorker w (.counting index))
  | count (s : State job) (w : Fin job.workers) (index : Nat) (on : s.main = .writing)
      (h : s.worker w = .counting index) :
    Step s .other { s.setWorker w .checking with written := s.written + job.len index }
  | fail_writing (s : State job) (w : Fin job.workers) (message : String) (on : s.main = .writing)
      (h : s.worker w = .failing message) :
    Step s .other { s.setWorker w .exited with failure := some message }
  /- The run after the workers. -/
  | join (s : State job) (h : s.main = .writing) (gone : ∀ w, s.worker w = .exited) :
    Step s .other { s with main := .joined }
  | join_failed (s : State job) (message : String) (h : s.main = .joined)
      (failed : s.failure = some message) :
    Step s .other { s.finish "writing image" message with failure := none }
  | join_done (s : State job) (h : s.main = .joined) (fine : s.failure = none) :
    Step s .other { s with main := .flushing }
  | flush_failed (s : State job) (message : String) (h : s.main = .flushing) :
    Step s .other (s.finish "flushing to device" message)
  | fdatasync (s : State job) (h : s.main = .flushing) :
    Step s .other { s with main := .verifying }
  | verify_failed (s : State job) (message : String) (h : s.main = .verifying) :
    Step s .other (s.finish "verifying written image" message)
  | spot_check (s : State job) (h : s.main = .verifying) :
    Step s .other { s with main := .finished none }

/-- The span of a claim. -/
def Event.span : Event job → Option Nat
  | .claim _ index => some index
  | _ => none

def Event.idles : Event job → Bool
  | .idle => true
  | _ => false

/-- The bytes of the buffer that are looked at in a state, by a worker or to verify. -/
inductive Reads (s : State job) (x : Nat) : Prop where
  | span (w : Fin job.workers) (index done : Nat) (on : s.main = .writing)
      (h : s.worker w = .writing index done)
      (inside : offset index ≤ x ∧ x < offset index + job.len index)
  | sample (i : Nat) (h : s.main = .verifying) (some_ : i < samples)
      (inside : (job.sample i).1 ≤ x ∧ x < (job.sample i).1 + (job.sample i).2)

/-- The steps of a run from its start, the last one last. -/
inductive Run : List (Event job) → State job → Prop where
  | start : Run [] {}
  | step {events : List (Event job)} {s s' : State job} {e : Event job} (before : Run events s)
      (last : Step s e s') : Run (events ++ [e]) s'

end CarbideOS.Installer.Write
