import Mathlib

/-! Advisory locks on a file: a lock belongs to an open file description, and is held while
any descriptor of any process refers to that description. -/

namespace Flock

/-- A descriptor refers to an open file description of the lock file, numbered in the order of
opening, or to some other file. -/
structure Descriptor where
  lock : Option Nat
  closeOnExec : Bool
  deriving DecidableEq, Repr

/-- The descriptors of a process. -/
abbrev Table := Nat → Option Descriptor

namespace Table

def empty : Table := fun _ => none

def install (t : Table) (fd : Nat) (d : Descriptor) : Table := Function.update t fd (some d)

def close (t : Table) (fd : Nat) : Table := Function.update t fd none

/-- What a program starts with. -/
def exec (t : Table) : Table := fun fd => (t fd).filter fun d => !d.closeOnExec

/-- A description of the lock file is open in a process. -/
def Has (t : Table) (o : Nat) : Prop := ∃ fd c, t fd = some ⟨some o, c⟩

theorem install_eq {t : Table} {fd fd' : Nat} {d e : Descriptor} :
    t.install fd d fd' = some e ↔ fd' = fd ∧ e = d ∨ fd' ≠ fd ∧ t fd' = some e := by
  unfold Table.install
  by_cases same : fd' = fd
  · subst same
    simp [eq_comm]
  · simp [same]

theorem close_eq {t : Table} {fd fd' : Nat} {e : Descriptor} :
    t.close fd fd' = some e ↔ fd' ≠ fd ∧ t fd' = some e := by
  unfold Table.close
  by_cases same : fd' = fd
  · subst same
    simp
  · simp [same]

theorem exec_eq {t : Table} {fd : Nat} {e : Descriptor} :
    t.exec fd = some e ↔ t fd = some e ∧ e.closeOnExec = false := by
  simp [Table.exec, Option.filter_eq_some_iff]

end Table

/-- Some process has the description open. -/
def Copied (tables : Nat → Option Table) (o : Nat) : Prop := ∃ pid t, tables pid = some t ∧ t.Has o

open Classical in
/-- Who holds the lock after descriptors were closed. -/
noncomputable def holderAfter (tables : Nat → Option Table) (holder : Option Nat) : Option Nat :=
  holder.filter fun o => Copied tables o

theorem holderAfter_eq_some {tables : Nat → Option Table} {holder : Option Nat} {o : Nat} :
    holderAfter tables holder = some o ↔ holder = some o ∧ Copied tables o := by
  simp [holderAfter, Option.filter_eq_some_iff]

end Flock
