import CarbideOS.Lib.Runs
import CarbideOS.Lib.Shell

namespace CarbideOS.Installer

/-! The installer's screens and the host behind them, from the first screen to the end
of a write. An erase is confirmed by typing the code of the disk. -/

structure Disk where
  node : String
  serial : String
  bytes : Nat
  readOnly : Bool
  bootMedia : Bool
  deriving DecidableEq, Repr

def minBytes : Nat := 5 * 1024 * 1024 * 1024

def Disk.eligible (d : Disk) : Bool := !d.readOnly && !d.bootMedia && decide (minBytes ≤ d.bytes)

/-- What is typed to confirm that a disk is erased: the end of its serial, or of the name
of its device where the serial is of no use. -/
def Disk.confirmCode (d : Disk) : List String :=
  let serial := d.serial.toList
  let last := serial.drop (serial.length - 4)
  if 4 ≤ serial.length ∧ last.all Char.isAlphanum then last.map fun c => c.toUpper.toString
  else
    let name := (Shell.afterLast d.node '/').toList
    (name.drop (name.length - 4)).map fun c => c.toUpper.toString

/-- A disk as the interface has it. -/
structure DiskInfo where
  codeChars : List String
  eligible : Bool
  deriving DecidableEq, Repr

def toRow (d : Disk) : DiskInfo := ⟨d.confirmCode, d.eligible⟩

inductive Phase where
  | attract | target | confirm | install | summary | failure
  deriving DecidableEq, Repr

inductive Power where
  | reboot | powerOff
  deriving DecidableEq, Repr

/-- What the toolkit does with texts. -/
structure Texts where
  toUppercase : String → String
  toLowercase : String → String
  isFloat : String → Bool

namespace Key
def enter : String := "\n"

def escape : String := "\x1b"

def backspace : String := "\x08"

def upArrow : String := "\uF700"

def downArrow : String := "\uF701"

end Key

/-- Milliseconds that a screen takes to fade out. -/
def normal : Nat := 260

/-- Milliseconds that a confirmed erase is shown before the write starts. -/
def commitHold : Nat := 450

/-- The window, and what its host keeps. -/
structure AppWindow where
  phase : Phase := .attract
  rows : List DiskInfo := []
  selected : Nat := 0
  typed : Nat := 0
  committed : Bool := false
  miss : Nat := 0
  /-- What is left of the picker's fading out. -/
  fade : Nat := 0
  /-- What is left until the commit timer triggers, while it runs. -/
  hold : Nat := commitHold
  disks : List Disk := []
  /-- The carried image could be opened. -/
  image : Bool
  /-- The disks a scan finds. -/
  attached : List Disk
  /-- The disks that writes were started on. -/
  started : List Disk := []
  /-- A write is going on, as far as the host has seen. -/
  writing : Bool := false
  power : List Power := []
  deriving DecidableEq, Repr

inductive Event where
  | key (text : String)
  /-- A mouse click on the card of a disk. -/
  | click (index : Nat)
  | pass (ms : Nat)
  /-- Disks come and go. -/
  | attach (disks : List Disk)
  /-- The host sees that a write has ended. -/
  | finish (failed : Bool)
  deriving DecidableEq, Repr

namespace AppWindow

/-- The picker starts fading out when its phase is left. -/
def setPhase (p : Phase) (s : AppWindow) : AppWindow :=
  { s with phase := p, fade := if s.phase = .target ∧ p ≠ .target then normal else s.fade }

def refresh (s : AppWindow) : AppWindow :=
  { s with
    rows := s.attached.map toRow
    disks := s.attached
    selected := (s.attached.findIdx? Disk.eligible).getD 0 }

/-- The installer as its window opens. -/
def start (image : Bool) (attached : List Disk) : AppWindow :=
  let s := refresh { image, attached }
  if image then s else s.setPhase .failure

def beginInstall (s : AppWindow) : AppWindow :=
  match s.disks[s.selected]? with
  | none => s
  | some target =>
    if !target.eligible then s
    else if !s.image then s
    else { s.setPhase .install with started := s.started ++ [target], writing := true }

def finish (failed : Bool) (s : AppWindow) : AppWindow :=
  if s.writing then { s.setPhase (if failed then .failure else .summary) with writing := false }
  else s

def systemKeys (s : AppWindow) : Bool := s.phase != .install && s.phase != .confirm

def moveSelection (step : Int) (s : AppWindow) : AppWindow :=
  if s.rows.length = 0 then s
  else { s with selected := (min (max (s.selected + step) 0) (s.rows.length - 1)).toNat }

def selectedEligible (s : AppWindow) : Bool := (s.rows[s.selected]?).any DiskInfo.eligible

def enterConfirm (s : AppWindow) : AppWindow :=
  { s with typed := 0, committed := false }.setPhase .confirm

def commit (s : AppWindow) : AppWindow := { s with committed := true, hold := commitHold }

def typeKey (t : Texts) (text : String) (s : AppWindow) : AppWindow :=
  if text = Key.backspace then { s with typed := s.typed - 1 }
  -- What neither changes case nor parses is a modifier, not a typo.
  else if !t.isFloat text && t.toUppercase text == t.toLowercase text then s
  else
    let code := ((s.rows[s.selected]?).map DiskInfo.codeChars).getD []
    if code[s.typed]? = some (t.toUppercase text) then
      let s := { s with typed := s.typed + 1 }
      if code.length ≤ s.typed then s.commit else s
    else { s with typed := 0, miss := s.miss + 1 }

def keyPressed (t : Texts) (text : String) (s : AppWindow) : AppWindow :=
  if s.systemKeys && (text == "r" || text == "R") then { s with power := s.power ++ [.reboot] }
  else if s.systemKeys && (text == "p" || text == "P") then
    { s with power := s.power ++ [.powerOff] }
  else
    match s.phase with
    | .attract => if text = Key.enter then s.setPhase .target else s
    | .target =>
      if text = Key.upArrow then s.moveSelection (-1)
      else if text = Key.downArrow then s.moveSelection 1
      else if text = Key.enter then if s.selectedEligible then s.enterConfirm else s
      else if text = "s" ∨ text = "S" then s.refresh
      else s
    | .confirm =>
      if s.committed then s
      else if text = Key.escape then s.setPhase .target
      else s.typeKey t text
    | .install => s
    | .summary | .failure =>
      if text = Key.enter then { s with power := s.power ++ [.reboot] }
      else if text = Key.escape ∧ s.phase = .failure then s.setPhase .target
      else s

/-- The picker takes clicks for as long as anything of it is on screen. -/
def pickerVisible (s : AppWindow) : Bool := s.phase == .target || 0 < s.fade

def pick (index : Nat) (s : AppWindow) : AppWindow :=
  let s := { s with selected := index }
  if s.selectedEligible then s.enterConfirm else s

/-- The commit timer runs while a confirmed erase is on screen, and triggers again and
again. -/
def pass (ms : Nat) (s : AppWindow) : AppWindow :=
  let s := { s with fade := s.fade - ms }
  if s.committed && s.phase == .confirm then
    if s.hold ≤ ms then { s with hold := commitHold }.beginInstall
    else { s with hold := s.hold - ms }
  else s

def after (t : Texts) : Event → AppWindow → AppWindow
  | .key text, s => s.keyPressed t text
  | .click index, s => if s.pickerVisible then s.pick index else s
  | .pass ms, s => s.pass ms
  | .attach disks, s => { s with attached := disks }
  | .finish failed, s => s.finish failed

/-- What the window and its host have come to after some events. -/
def run (t : Texts) (events : List Event) (s : AppWindow) : AppWindow :=
  Interruptible.runAll (after t) events s

end AppWindow
end CarbideOS.Installer
