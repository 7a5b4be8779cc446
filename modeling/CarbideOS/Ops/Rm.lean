import CarbideOS.Lib.Getopt
import CarbideOS.Lib.Shell

namespace CarbideOS.Ops

namespace Rm

def options : Getopt.Options where
  short := ['d', 'f', 'i', 'r', 'v', 'I', 'R']
  long := [("force", false), ("interactive", true), ("one-file-system", false),
    ("no-preserve-root", false), ("preserve-root", true), ("-presume-input-tty", false),
    ("recursive", false), ("dir", false), ("verbose", false), ("help", false), ("version", false)]

/-- What an interactive run may be asked for, and what it comes to. -/
def whens : List (String × Nat) :=
  [("never", 0), ("no", 0), ("none", 0), ("once", 1), ("always", 2), ("yes", 2)]

/-- A value is one of those there are, or a start of some that come to the same. -/
def isWhen (value : String) : Bool :=
  whens.any (·.1 == value) ||
    match (whens.filter fun w => Text.startsWith w.1 value).map Prod.snd with
    | [] => false
    | n :: more => more.all (· == n)

/-- An option with which `rm` goes on to remove. -/
def accepts : Getopt.Flag → Bool
  | .short _ => true
  | .long "help" _ _ | .long "version" _ _ => false
  | .long "interactive" _ (some value) => isWhen value
  | .long "preserve-root" _ (some value) => value == "all"
  | .long "no-preserve-root" spelled _ => spelled == "no-preserve-root"
  | .long _ _ _ => true

def isRecursive : Getopt.Flag → Bool
  | .short letter => letter == 'r' || letter == 'R'
  | .long name _ _ => name == "recursive"

/-- What `rm` removes, when it removes recursively. -/
def recursively (args : List String) : Option (List String) :=
  match options.parse args with
  | some (flags, operands) =>
    if flags.all accepts && flags.any isRecursive then some operands else none
  | none => none

end Rm

namespace Guard

def protectedPaths : List String := ["/", "/boot", "/efi", "/etc", "/usr"]

/-- The argument is a dash, and then somewhere a character. -/
def dashWith (c : Char) (arg : String) : Bool :=
  Text.startsWith arg "-" && (arg.toList.drop 1).contains c

/-- The first pass over the arguments. -/
def recursive : List String → Bool
  | [] => false
  | arg :: rest =>
    if arg = "--" then false
    else if arg = "--recursive" ∨ dashWith 'r' arg ∨ dashWith 'R' arg then true
    else recursive rest

/-- What a command prints, when it is substituted. -/
def substituted (printed : String) : String :=
  String.ofList (printed.toList.rdropWhile (· == '\n'))

def isProtected (resolved : String) : Bool :=
  protectedPaths.any fun path => resolved == path ||
    (path != "/" && Shell.withoutPrefix resolved (path ++ "/") != resolved)

inductive Outcome where
  /-- The real program is run. -/
  | passed
  | refused (resolved : String)
  /-- A path cannot be resolved. -/
  | failed
  deriving DecidableEq, Repr

/-- An argument is resolved, and the pass goes on if it is none of what is protected. -/
def resolve (realpath : String → Option String) (arg : String) (next : Outcome) : Outcome :=
  match realpath arg with
  | none => .failed
  | some path =>
    let resolved := substituted (path ++ "\n")
    if isProtected resolved then .refused resolved else next

/-- The second pass over the arguments. -/
def check (realpath : String → Option String) (options : Bool) : List String → Outcome
  | [] => .passed
  | arg :: rest =>
    if options && arg == "--" then check realpath false rest
    else if options && Text.startsWith arg "-" then check realpath options rest
    else resolve realpath arg (check realpath options rest)

/-- `carbideos-rm` -/
def run (realpath : String → Option String) (args : List String) : Outcome :=
  if recursive args then check realpath true args else .passed

end Guard
end CarbideOS.Ops
