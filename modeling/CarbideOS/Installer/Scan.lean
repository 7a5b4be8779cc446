import CarbideOS.Installer.Screens
import CarbideOS.Lib.Sorting
import CarbideOS.Lib.Text
import CarbideOS.Lib.Utf16
import CarbideOS.Lib.Utf8

namespace CarbideOS.Installer

/-- What the system shows, for as long as one scan takes. -/
structure Sysfs where
  /-- The entries of the directory of block devices in the order they are read. A read may
  fail. -/
  entries : Option (List (Option String))
  read : String → Option (List UInt8)
  readLink : String → Option String
  isThere : String → Bool

/-- A disk with all that the picker shows of it. -/
structure FoundDisk extends Disk where
  model : String
  bus : String
  kind : String
  deriving DecidableEq, Repr

def skipPrefixes : List String := ["loop", "ram", "zram", "sr", "fd", "dm-", "md", "nbd"]

def join (base name : String) : String :=
  if Text.startsWith name "/" then name
  else if Text.endsWith base "/" then base ++ name
  else base ++ "/" ++ name

def fileName (path : String) : Option String :=
  match ((path.toList.splitOn '/').filter fun c => c ≠ [] ∧ c ≠ ['.']).getLast? with
  | none => none
  | some name => if name = ['.', '.'] then none else some (String.ofList name)

def busOf (link : String) : String :=
  if Text.contains link "/usb" then "USB"
  else if Text.contains link "/nvme/" || Text.contains link "nvme" then "NVME"
  else if Text.contains link "/ata" then "SATA"
  else if Text.contains link "virtio" then "VIRTIO"
  else if Text.contains link "/mmc" then "MMC"
  else if Text.contains link "/scsi" then "SCSI"
  else "—"

def loaderVariable : String :=
  "/sys/firmware/efi/efivars/LoaderDevicePartUUID-4a67b082-0a4c-41cf-b6c7-440b29bb8c4f"

def blockDevices : String := "/sys/block"

namespace Sysfs

section
variable (t : Texts) (s : Sysfs)

def readTrimmed (path : String) : Option String :=
  match (s.read path).bind Text.decode with
  | none => none
  | some text =>
    let text := Text.trim (String.ofList text)
    if text = "" then none else some text

/-- The partition that the boot loader was loaded from. -/
def bootPartition : Option String := do
  let raw ← s.read loaderVariable
  if raw.length < 6 then none
  else
    -- Attributes come first, and a null character last.
    let units := (Text.units (raw.drop 4)).takeWhile (· != 0)
    let uuid ← Text.decode16 units
    let link ← s.readLink (join "/dev/disk/by-partuuid" (t.toLowercase (String.ofList uuid)))
    fileName link

def contains (disk part : String) : Bool := s.isThere (join (join blockDevices disk) part)

/-- The first disk that has the partition, unless an entry before it cannot be read. -/
def holder (part : String) : List (Option String) → Option String
  | [] => none
  | none :: _ => none
  | some disk :: rest => if s.contains disk part then some disk else holder part rest

def bootDisk : Option String := do
  let part ← s.bootPartition t
  let entries ← s.entries
  s.holder part entries

def flag (path : String) : Bool :=
  match s.readTrimmed path with
  | none => false
  | some text => text == "1"

/-- A disk as one entry shows it, unless it is passed over. -/
def examine (boot : Option String) (name : String) : Option FoundDisk :=
  if skipPrefixes.any (Text.startsWith name) then none
  else
    let base := join blockDevices name
    let sectors := ((s.readTrimmed (join base "size")).bind (Text.parseUnsigned 64)).getD 0
    if sectors = 0 then none
    else
      let link := (s.readLink base).getD ""
      let rotational := s.flag (join base "queue/rotational")
      let model := ((s.readTrimmed (join base "device/model")).or
        (s.readTrimmed (join base "device/name"))).getD name
      let serial := ((s.readTrimmed (join base "device/serial")).or
        (s.readTrimmed (join base "device/wwid"))).getD ""
      some {
        node := "/dev/" ++ name
        model
        serial := String.ofList (serial.toList.take 20)
        bus := busOf link
        kind := if rotational then "HDD" else "SSD"
        bytes := sectors * 512 % 2 ^ 64
        readOnly := s.flag (join base "ro")
        bootMedia := boot == some name }

/-- What can be written to comes first, then what is larger. -/
def order : FoundDisk → FoundDisk → Ordering :=
  compareLex (Sorting.descending fun d => d.eligible) <|
    compareLex (Sorting.descending fun d => d.bytes) (compareOn fun d => d.node)

def enumerate : List FoundDisk :=
  match s.entries with
  | none => []
  | some entries =>
    ((entries.filterMap id).filterMap (s.examine (s.bootDisk t))).mergeSort
      (Sorting.notAfter order)

end

end Sysfs
end CarbideOS.Installer
