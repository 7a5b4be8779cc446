import CarbideOS.Lib.Shell
import CarbideOS.Agent.Base

/-! The reboot check of `carbideos-ops`. `running` and `id` are the values the script reads
from `/etc/os-release`. -/

namespace CarbideOS.Ops
open Agent

section
variable (running id : String)

/-- The images the loop goes through. -/
def isImage (file : String) : Bool := Shell.glob "" [".raw"] file

/-- A scoped image carries the base version after the final underscore; an unscoped one
merges into whatever is running. -/
def nameAndBase (file : String) : String × String :=
  let stem := Shell.withoutSuffix file ".raw"
  if '_' ∈ stem.toList then (Shell.beforeLast stem '_', Shell.afterLast stem '_')
  else (stem, running)

/-- The names found installed, kept in one text. -/
def installed (files : List String) : String :=
  files.foldl (fun found file =>
    if isImage file && (nameAndBase running file).2 == running then
      found ++ " " ++ (nameAndBase running file).1
    else found) ""

/-- A counted boot entry. -/
def isCounted (entry : String) : Bool := Shell.glob (id ++ "_") ["+", "-", ".efi"] entry

/-- The version of the one pending counted boot entry; none or several is an error. -/
def pendingBaseVersion (isFile : String → Bool) (entries : List String) : Option String :=
  match entries.filter (isCounted id) with
  | [entry] =>
    if isFile entry then some (Shell.beforeFirst (Shell.withoutPrefix entry (id ++ "_")) '+')
    else none
  | _ => none

/-- Whether the script lets a pending update reboot. `expand` is what pathname expansion makes
of a field in the directory the script is run from. -/
def requirePendingExtensions (expand : String → List String) (isFile : String → Bool) (w : Node) :
    Bool :=
  let found := installed running w.extensions.keys
  if found.isEmpty then true
  else
    match pendingBaseVersion id isFile w.bootEntries with
    | none => false
    | some pending =>
      ((Shell.fields found).flatMap expand).all fun name =>
        w.fileExists (scopedActivePath name pending)

end
end CarbideOS.Ops
