import CarbideOS.Lib.Flock

/-! The operation lock: any number of agent processes with any number of threads, and the
children they start. -/

namespace CarbideOS.OperationLock
open Flock

/-- A thread of an agent, with the descriptor of its lock file. -/
inductive Thread where
  | idle
  /-- The lock file is open, and the lock asked for. -/
  | opened (fd : Nat)
  /-- The lock is granted, and `own` still to come. -/
  | granted (fd : Nat)
  | operating (fd : Nat)
  /-- `retain_operation_lock` has read the variable for the command about to be started. -/
  | retaining (fd : Nat) (descriptor : Option Nat)
  /-- `drop` has reset the variable, and the file is still open. -/
  | dropping (fd : Nat)
  deriving DecidableEq, Repr

def Thread.file : Thread → Option Nat
  | .idle => none
  | .opened fd => some fd
  | .granted fd => some fd
  | .operating fd => some fd
  | .retaining fd _ => some fd
  | .dropping fd => some fd

/-- Between acquiring the lock and releasing it. -/
def Thread.inside : Thread → Bool
  | .idle => false
  | .opened _ => false
  | _ => true

/-- How far a child is: between fork and exec the code of the agent still runs in it. -/
inductive Stage where
  | forked | prepared | running
  deriving DecidableEq, Repr

/-- `OPERATION_LOCK_FD` and the threads. -/
structure Agent where
  operationLockFd : Option Nat := none
  threads : Nat → Thread := fun _ => .idle

def Agent.at (a : Agent) (tid : Nat) (t : Thread) : Agent :=
  { a with threads := Function.update a.threads tid t }

inductive Role where
  | agent (a : Agent)
  /-- A child of an operation, with the descriptor its start retained. -/
  | mutating (operation : Nat) (descriptor : Option Nat) (stage : Stage)
  | readOnly (stage : Stage)

structure Process where
  table : Table
  role : Role

/-- The processes there are, the description that holds the lock, and how many
descriptions of the lock file there have been. -/
structure Machine where
  process : Nat → Option Process := fun _ => none
  holder : Option Nat := none
  descriptions : Nat := 0

namespace Machine

def tables (m : Machine) : Nat → Option Table := fun pid => (m.process pid).map Process.table

def put (m : Machine) (pid : Nat) (p : Process) : Machine :=
  { m with process := Function.update m.process pid (some p) }

/-- A process that ends, or is killed, is gone with all its descriptors. -/
def remove (m : Machine) (pid : Nat) : Machine :=
  { m with process := Function.update m.process pid none }

/-- Descriptors were closed: the lock is free if that was the last one of its holder. -/
noncomputable def settle (m : Machine) : Machine :=
  { m with holder := holderAfter m.tables m.holder }

end Machine

/-- One step of one process. Any process can end at any moment. -/
inductive Step : Machine → Machine → Prop where
  | start {m : Machine} {pid : Nat} (unused : m.process pid = none) :
      Step m (m.put pid ⟨Table.empty, .agent {}⟩)
  /-- `open_at` -/
  | openLock {m : Machine} {pid tid fd : Nat} {t : Table} {a : Agent}
      (alive : m.process pid = some ⟨t, .agent a⟩) (thread : a.threads tid = .idle)
      (unused : t fd = none) :
      Step m { m.put pid ⟨t.install fd ⟨some m.descriptions, true⟩,
        .agent (a.at tid (.opened fd))⟩ with
        descriptions := m.descriptions + 1 }
  /-- `lock` or `try_lock` finds the lock free. -/
  | grant {m : Machine} {pid tid fd o : Nat} {c : Bool} {t : Table} {a : Agent}
      (alive : m.process pid = some ⟨t, .agent a⟩) (thread : a.threads tid = .opened fd)
      (refers : t fd = some ⟨some o, c⟩) (free : m.holder = none) :
      Step m { m.put pid ⟨t, .agent (a.at tid (.granted fd))⟩ with holder := some o }
  /-- `try_lock` would block, or locking fails: the file is closed again. -/
  | giveUp {m : Machine} {pid tid fd : Nat} {t : Table} {a : Agent}
      (alive : m.process pid = some ⟨t, .agent a⟩) (thread : a.threads tid = .opened fd) :
      Step m (m.put pid ⟨t.close fd, .agent (a.at tid .idle)⟩).settle
  /-- `own` -/
  | own {m : Machine} {pid tid fd : Nat} {t : Table} {a : Agent}
      (alive : m.process pid = some ⟨t, .agent a⟩) (thread : a.threads tid = .granted fd) :
      Step m (m.put pid ⟨t, .agent { a.at tid (.operating fd) with operationLockFd := some fd }⟩)
  /-- `retain_operation_lock` of `run_mutating` -/
  | retain {m : Machine} {pid tid fd : Nat} {t : Table} {a : Agent}
      (alive : m.process pid = some ⟨t, .agent a⟩) (thread : a.threads tid = .operating fd) :
      Step m (m.put pid ⟨t, .agent (a.at tid (.retaining fd a.operationLockFd))⟩)
  | forkMutating {m : Machine} {pid tid fd o child : Nat} {c : Bool} {d : Option Nat} {t : Table}
      {a : Agent} (alive : m.process pid = some ⟨t, .agent a⟩)
      (thread : a.threads tid = .retaining fd d) (refers : t fd = some ⟨some o, c⟩)
      (unused : m.process child = none) :
      Step m ((m.put pid ⟨t, .agent (a.at tid (.operating fd))⟩).put child ⟨t,
        .mutating o d .forked⟩)
  /-- `run`, or a health probe, of any thread -/
  | forkReadOnly {m : Machine} {pid child : Nat} {t : Table} {a : Agent}
      (alive : m.process pid = some ⟨t, .agent a⟩) (unused : m.process child = none) :
      Step m (m.put child ⟨t, .readOnly .forked⟩)
  /-- A thread opens some other file. -/
  | openOther {m : Machine} {pid fd : Nat} {c : Bool} {t : Table} {a : Agent}
      (alive : m.process pid = some ⟨t, .agent a⟩) (unused : t fd = none) :
      Step m (m.put pid ⟨t.install fd ⟨none, c⟩, .agent a⟩)
  | closeOther {m : Machine} {pid fd : Nat} {c : Bool} {t : Table} {a : Agent}
      (alive : m.process pid = some ⟨t, .agent a⟩) (refers : t fd = some ⟨none, c⟩) :
      Step m (m.put pid ⟨t.close fd, .agent a⟩)
  /-- The `pre_exec` hook clears close-on-exec; it fails for a descriptor that is not open. -/
  | prepare {m : Machine} {pid fd o : Nat} {d : Descriptor} {t : Table}
      (alive : m.process pid = some ⟨t, .mutating o (some fd) .forked⟩) (refers : t fd = some d) :
      Step m (m.put pid ⟨t.install fd { d with closeOnExec := false },
        .mutating o (some fd) .prepared⟩)
  /-- Without a descriptor no hook is installed. -/
  | prepareNothing {m : Machine} {pid o : Nat} {t : Table}
      (alive : m.process pid = some ⟨t, .mutating o none .forked⟩) :
      Step m (m.put pid ⟨t, .mutating o none .prepared⟩)
  | execMutating {m : Machine} {pid o : Nat} {d : Option Nat} {t : Table}
      (alive : m.process pid = some ⟨t, .mutating o d .prepared⟩) :
      Step m (m.put pid ⟨t.exec, .mutating o d .running⟩).settle
  | execReadOnly {m : Machine} {pid : Nat} {t : Table}
      (alive : m.process pid = some ⟨t, .readOnly .forked⟩) :
      Step m (m.put pid ⟨t.exec, .readOnly .running⟩).settle
  /-- `drop`: the variable is reset if it is still this lock's. -/
  | drop {m : Machine} {pid tid fd : Nat} {t : Table} {a : Agent}
      (alive : m.process pid = some ⟨t, .agent a⟩) (thread : a.threads tid = .operating fd) :
      Step m (m.put pid ⟨t, .agent { a.at tid (.dropping fd) with
        operationLockFd := if a.operationLockFd = some fd then none else a.operationLockFd }⟩)
  /-- The file of a dropped lock is closed. -/
  | close {m : Machine} {pid tid fd : Nat} {t : Table} {a : Agent}
      (alive : m.process pid = some ⟨t, .agent a⟩) (thread : a.threads tid = .dropping fd) :
      Step m (m.put pid ⟨t.close fd, .agent (a.at tid .idle)⟩).settle
  | exit {m : Machine} {pid : Nat} {p : Process} (alive : m.process pid = some p) :
      Step m (m.remove pid).settle

/-- The machines a run can lead to. -/
inductive Reachable : Machine → Prop where
  | boot : Reachable {}
  | step {m m' : Machine} (before : Reachable m) (s : Step m m') : Reachable m'

end CarbideOS.OperationLock
