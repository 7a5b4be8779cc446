import CarbideOS.Lib.Text

namespace CarbideOS.Agent

/-- A health ruleset. Durations are in seconds. -/
structure Ruleset where
  unit : String := ""
  readyTimeout : Nat := 90
  startAttempts : Nat := 3
  healthCommand : Option (List String) := none
  healthInterval : Nat := 10
  healthTimeout : Nat := 15
  soak : Nat := 120
  deriving DecidableEq, Repr

/-- A command named by a ruleset must live under one of these prefixes. -/
def executablePrefixes : List String := ["/usr/", "/opt/"]

def parseSeconds (value : String) : Except String Nat :=
  match Text.parseUnsigned 64 ((Text.stripSuffix value "s").getD value) with
  | some n => .ok n
  | none => .error ("invalid duration " ++ value.quote)

namespace Ruleset

/-- The keys of the `[Extension]` section, in the spelling they are matched in. -/
def set (r : Ruleset) (key value : String) : Except String Ruleset :=
  match key with
  | "unit" => .ok { r with unit := value }
  | "readytimeoutsec" => (parseSeconds value).map fun n => { r with readyTimeout := n }
  | "startattempts" =>
    match Text.parseUnsigned 32 value with
    | some n => .ok { r with startAttempts := n }
    | none => .error ("invalid StartAttempts " ++ value.quote)
  | "healthcommand" =>
    let parts := Text.splitWhitespace value
    if parts.isEmpty then .error "empty HealthCommand"
    else .ok { r with healthCommand := some parts }
  | "healthintervalsec" => (parseSeconds value).map fun n => { r with healthInterval := n }
  | "healthtimeoutsec" => (parseSeconds value).map fun n => { r with healthTimeout := n }
  | "soaksec" => (parseSeconds value).map fun n => { r with soak := n }
  | other => .error ("unknown key " ++ other.quote)

/-- Read the lines of a ruleset file. Only the `[Extension]` section counts. -/
def parse (r : Ruleset) (inSection : Bool) : List String → Except String Ruleset
  | [] => .ok r
  | raw :: rest =>
    let line := Text.trim raw
    if line.isEmpty || Text.startsWith line "#" || Text.startsWith line ";" then
      parse r inSection rest
    else if Text.startsWith line "[" then
      parse r (Text.eqIgnoreAsciiCase line "[Extension]") rest
    else if !inSection then parse r inSection rest
    else
      match Text.splitOnce line '=' with
      | none => .error ("expected KEY=VALUE, found " ++ line.quote)
      | some (key, value) =>
        match r.set (Text.toAsciiLowercase (Text.trim key)) (Text.trim value) with
        | .error e => .error e
        | .ok r => parse r inSection rest

/-- The first word of a health command is the program it runs. -/
def validateCommand : Option (List String) → Except String Unit
  | none => .ok ()
  | some command =>
    let program := command.headD ""
    if !(executablePrefixes.any (Text.startsWith program)) then
      .error ("HealthCommand " ++ program.quote ++ " is not on a verity-backed path")
    else if Text.contains program ".." then .error "HealthCommand must not traverse"
    else .ok ()

def validate (r : Ruleset) : Except String Unit :=
  let unit := r.unit
  if unit.isEmpty then .error "Unit is required"
  else if Text.contains unit "/" || Text.startsWith unit "-" then
    .error ("implausible unit name " ++ unit.quote)
  else if r.startAttempts = 0 then .error "StartAttempts must be at least 1"
  else validateCommand r.healthCommand

/-- Parse and check the contents of a ruleset file. -/
def load (contents : String) : Except String Ruleset :=
  match parse {} false (Text.lines contents) with
  | .error e => .error e
  | .ok r =>
    match r.validate with
    | .error e => .error e
    | .ok () => .ok r

end Ruleset
end CarbideOS.Agent
