import CarbideOS.Lib.Disk
import CarbideOS.Lib.Prog
import CarbideOS.Agent.System

namespace CarbideOS.Publication
open Interruptible Storage

inductive ErrorKind where
  | notFound | alreadyExists | invalidData | other
  deriving DecidableEq, Repr

structure IoError where
  kind : ErrorKind
  message : String
  deriving DecidableEq, Repr

def IoError.notFound : IoError := ⟨.notFound, "No such file or directory (os error 2)"⟩

def IoError.alreadyExists : IoError := ⟨.alreadyExists, "File exists (os error 17)"⟩

/-- A system call is made, fails without an effect, or is never reached. -/
inductive Fate where
  | done
  | fails (error : IoError)
  | stops

/-- What happens to each call, and how many bytes a write takes after the first one. -/
structure Faults where
  fate : Nat → Fate
  chunk : Nat → Nat

structure Machine where
  disk : Disk
  time : Nat := 0

abbrev Io (α : Type) := Prog Machine IoError α

section
variable (faults : Faults)

def perform {α : Type} (call : Disk → Except IoError (α × Disk)) : Io α := fun m =>
  match faults.fate m.time with
  | .stops => .halt m
  | .fails error => .error error { m with time := m.time + 1 }
  | .done =>
    match call m.disk with
    | .ok (a, d) => .ok a ⟨d, m.time + 1⟩
    | .error error => .error error { m with time := m.time + 1 }

/-- A call that leaves names and bytes as they are. -/
def inspect : Io Unit := perform faults fun d => .ok ((), d)

def mkdir (f : Folder) : Io Unit := perform faults fun d =>
  if d.made f then .error .alreadyExists
  else
    match f with
    | [] => .error .alreadyExists
    | _ :: up => if d.made up then .ok ((), d.mkdir f) else .error .notFound

def isDir (f : Folder) : Io Bool := fun m => .ok (m.disk.made f) m

/-- What a failed `mkdir` means where somebody else may have made the directory. -/
def unlessDir (f : Folder) (error : IoError) : Io Unit := do
  let there ← isDir f
  if there then pure () else Prog.fail error

def createDirAll : Folder → Io Unit
  | [] => do
    match ← Prog.attempt (mkdir faults []) with
    | .ok () => pure ()
    | .error error => unlessDir [] error
  | c :: up => do
    match ← Prog.attempt (mkdir faults (c :: up)) with
    | .ok () => pure ()
    | .error error =>
      if error.kind = .notFound then do
        createDirAll up
        match ← Prog.attempt (mkdir faults (c :: up)) with
        | .ok () => pure ()
        | .error error => unlessDir (c :: up) error
      else unlessDir (c :: up) error

def removeFile (p : Path) : Io Unit := perform faults fun d =>
  match d.lookup p with
  | none => .error .notFound
  | some _ => .ok ((), d.record p.folder (.unlink p.name))

/-- `create_new` -/
def createNew (p : Path) : Io Nat := perform faults fun d =>
  match d.lookup p with
  | some _ => .error .alreadyExists
  | none => if d.made p.folder then .ok (d.next, d.create p) else .error .notFound

/-- `File::create`: what is there already is emptied. -/
def createFile (p : Path) : Io Nat := perform faults fun d =>
  match d.lookup p with
  | some i => .ok (i, d.setFile i ⟨[], false⟩)
  | none => if d.made p.folder then .ok (d.next, d.create p) else .error .notFound

def write (i : Nat) (bytes : Bytes) : Io Unit := perform faults fun d =>
  .ok ((), d.setFile i ⟨(d.file i).data ++ bytes, false⟩)

def writeAll (i : Nat) : Bytes → Io Unit
  | [] => pure ()
  | b :: rest => do
    let m ← Prog.read
    write faults i (b :: rest.take (faults.chunk m.time))
    writeAll i (rest.drop (faults.chunk m.time))
termination_by bytes => bytes.length

/-- The number of bytes copied. -/
def copy (input : Bytes) (output : Nat) : Io Nat := do
  inspect faults
  writeAll faults output input
  pure input.length

def setPermissions : Io Unit := inspect faults

def syncAll (i : Nat) : Io Unit := perform faults fun d =>
  .ok ((), d.setFile i ⟨(d.file i).data, true⟩)

/-- Within one directory. -/
def rename (f : Folder) (old new : String) : Io Unit := perform faults fun d =>
  match d.lookup ⟨f, old⟩ with
  | none => .error .notFound
  | some i => .ok ((), d.record f (.rename old new i))

def syncFolder (f : Folder) : Io Unit := perform faults fun d =>
  if d.made f then .ok ((), d.syncFolder f) else .error .notFound

def temporaryPath (target : Path) : Path := ⟨target.folder, Agent.temporaryName target.name⟩

/-- The bytes of a file, whose length fits in 64 bits. -/
abbrev Source := { bytes : Bytes // bytes.length < 2 ^ 64 }

/-- From the new file to the synced directory. -/
def copyIntoPlace (source : Source) (target : Path) (maximum : UInt64) : Io Unit := do
  let output ← createNew faults (temporaryPath target)
  let copied ← copy faults (source.val.take (Agent.saturatingAdd maximum.toNat 1)) output
  Prog.demand (copied ≤ maximum.toNat) ⟨.invalidData, "source grew beyond its reserved size"⟩
  setPermissions faults
  syncAll faults output
  rename faults target.folder (temporaryPath target).name target.name
  syncFolder faults target.folder

/-- Publish from one already-open file, refusing growth beyond the bytes the caller budgeted. -/
def durableCopyFile (source : Source) (target : Path) (maximum : UInt64) : Io Unit := do
  createDirAll faults target.folder
  let _ ← (Prog.attempt (removeFile faults (temporaryPath target)) : Io (Except IoError Unit))
  inspect faults
  match ← Prog.attempt (copyIntoPlace faults source target maximum) with
  | .ok () => pure ()
  | .error error => do
    let _ ← (Prog.attempt (removeFile faults (temporaryPath target)) : Io (Except IoError Unit))
    Prog.fail error

def stateDir : Folder := ["agent", "carbide", "lib", "var"]

def statePath : Path := ⟨stateDir, "state.json"⟩

def newline : UInt8 := 10

/-- The encoded record and a newline. -/
def store (encoded : Bytes) : Io Unit := do
  createDirAll faults stateDir
  let staging := temporaryPath statePath
  let file ← createFile faults staging
  writeAll faults file (encoded ++ [newline])
  syncAll faults file
  rename faults stateDir staging.name statePath.name
  syncFolder faults stateDir

end

/-- Everything that can happen to a file system between two publications. -/
inductive History (start : Disk) : Disk → Prop where
  | start : History start start
  | copied {d : Disk} (before : History start d) (faults : Faults) (time : Nat) (source : Source)
      (target : Path) (maximum : UInt64) :
      History start (durableCopyFile faults source target maximum ⟨d, time⟩).state.disk
  | stored {d : Disk} (before : History start d) (faults : Faults) (time : Nat) (encoded : Bytes) :
      History start (store faults encoded ⟨d, time⟩).state.disk
  | removed {d : Disk} (before : History start d) (p : Path) :
      History start (d.record p.folder (.unlink p.name))
  | synced {d : Disk} (before : History start d) (f : Folder) : History start (d.syncFolder f)
  | crashed {d e : Disk} (before : History start d) (crash : d.Crash e) : History start e

end CarbideOS.Publication
