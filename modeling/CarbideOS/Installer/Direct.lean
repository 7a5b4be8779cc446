import CarbideOS.Installer.Write

namespace CarbideOS.Installer.Write

structure Transfer where
  /-- Where on the device. -/
  offset : Nat
  len : Nat
  /-- Where in memory. -/
  address : Nat
  deriving DecidableEq, Repr

/-- A buffer starts at a page. -/
structure AlignedBuf where
  address : Nat
  aligned : 4096 ∣ address

/-- What the device asks of a transfer. -/
def Transfer.Aligned (t : Transfer) : Prop := 512 ∣ t.offset ∧ 512 ∣ t.len ∧ 512 ∣ t.address

instance (t : Transfer) : Decidable t.Aligned := inferInstanceAs (Decidable (_ ∧ _))

/-- A transfer of nothing is not made. -/
def pwriteAll (offset len address : Nat) : List Transfer :=
  if len = 0 then [] else [⟨offset, len, address⟩]

/-- The writes of a run, in the order of the spans. -/
def Job.writes (job : Job) (image : AlignedBuf) : List Transfer :=
  (List.range job.spans).flatMap fun index =>
    pwriteAll (offset index) (job.len index) (image.address + offset index)

def slice (content : Nat → UInt8) (offset len : Nat) : List UInt8 :=
  (List.range len).map fun k => content (offset + k)

/-- What a read gives, or how it fails. -/
abbrev Device := Transfer → Except String (List UInt8)

/-- Reading a device that holds some content. -/
def direct (content : Nat → UInt8) : Device := fun t =>
  if t.Aligned then .ok (slice content t.offset t.len)
  else .error "Invalid argument (os error 22)"

/-- The places that are still to be read back. -/
def Job.compare (job : Job) (image : Nat → UInt8) (pread : Device) (buf : AlignedBuf) :
    List Nat → List Transfer × Except String Unit
  | [] => ([], .ok ())
  | i :: rest =>
    let (offset, len) := job.sample i
    let t : Transfer := ⟨offset, len, buf.address⟩
    match pread t with
    | .error e => ([t], .error e)
    | .ok bytes =>
      if bytes ≠ slice image offset len then
        ([t], .error s!"data at offset {offset} did not read back as written")
      else
        let (read, result) := compare job image pread buf rest
        (t :: read, result)

/-- The reads of a verification, and what it comes to. -/
def Job.spotCheck (job : Job) (image : Nat → UInt8) (pread : Device) (buf : AlignedBuf) :
    List Transfer × Except String Unit :=
  if job.total = 0 then ([], .ok ()) else job.compare image pread buf (List.range samples)

end CarbideOS.Installer.Write
