import CarbideOS.Lib.Text
import CarbideOS.Lib.Utf8

namespace CarbideOS.Agent

/-- How far the agent got before it failed. -/
inductive Stage where
  | checking | validating | staging | activating | soaking | reverting
  deriving DecidableEq, Repr

/-- What a caller may branch on. -/
inductive Code where
  | unsupported | malformed | notFound | digestMismatch | untrusted | baseMismatch
  | busy | noSpace | precondition | failed
  deriving DecidableEq, Repr

structure Failure where
  code : Code
  message : String
  stage : Option Stage := none
  command : Option String := none
  exitCode : Option Int := none
  stderr : Option String := none
  unit : Option String := none
  log : List String := []
  supported : List String := []
  deriving DecidableEq, Repr

/-- Enough of an error output to explain a failure, in bytes. -/
def stderrLimit : Nat := 4096

/-- The part of a text from the first character boundary at or after a byte offset. -/
def textFrom (start : Nat) : Nat → List Char → List Char
  | _, [] => []
  | offset, c :: cs =>
    if start ≤ offset then c :: cs else textFrom start (offset + c.utf8Size) cs

namespace Failure

def new (code : Code) (message : String) : Failure := { code, message }

/-- The stage at which the failure happened. -/
def atStage (f : Failure) (stage : Stage) : Failure := { f with stage := some stage }

def withCommand (f : Failure) (command : String) : Failure := { f with command := some command }

def withExitCode (f : Failure) (code : Option Int) : Failure := { f with exitCode := code }

/-- Keeps the tail, which is where a program says why it gave up. -/
def withStderr (f : Failure) (stderr : String) : Failure :=
  let text := Text.trim stderr
  if text.isEmpty then f
  else
    let trimmed :=
      if stderrLimit < text.utf8ByteSize then
        "..." ++ String.ofList (textFrom (text.utf8ByteSize - stderrLimit) 0 text.toList)
      else text
    { f with stderr := some trimmed }

/-- The offset at which the kept part of an error output starts. -/
def keptFrom (text : String) : Nat :=
  let start := text.utf8ByteSize - stderrLimit
  ((Text.charIndices 0 text.toList).find? fun index => decide (start ≤ index)).getD
    text.utf8ByteSize

/-- `withStderr` with its slice of the text, and nothing where the slice is a panic. -/
def tryStderr (f : Failure) (stderr : String) : Option Failure :=
  let text := Text.trim stderr
  if text.isEmpty then some f
  else if stderrLimit < text.utf8ByteSize then
    (Text.splitAtByte (keptFrom text) text.toList).map fun parts =>
      { f with stderr := some ("..." ++ String.ofList parts.2) }
  else some { f with stderr := some text }

def withLog (f : Failure) (lines : List String) : Failure := { f with log := lines }

end Failure
end CarbideOS.Agent
