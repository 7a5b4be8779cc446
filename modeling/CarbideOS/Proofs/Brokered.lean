import CarbideOS.Lib.Shell
import CarbideOS.Ops.Dispatch
import CarbideOS.Proofs.Calm
import CarbideOS.Proofs.Fenced
import CarbideOS.Proofs.Piped

namespace CarbideOS.Ops.Broker
open Interruptible

abbrev Version := { version : String // versionValid version = true }

abbrev Job := { job : String // Grep.quiet jobPattern job = true }

abbrev Permitted (names : List String) := { name : String // name ∈ names }

/-- What may be asked of the script. -/
inductive Request where
  | health | logs | watchtowerLogs | jobLogs (job : Job) | stopJob (job : Job) | reboot | poweroff
  | update (version : Option Version)
  | nodeId
  | credential (name : Permitted credentials)
  | acquire (name : Permitted extensions) (base : Option Version)
  | install (name : Permitted extensions)
  | status
  | control (verb : Permitted ["require", "unrequire", "reset"]) (name : Permitted extensions)
  | extension (verb : Permitted ["install", "remove"]) (name : Permitted fed)

def unit (job : Job) : String := "ace@" ++ job.val ++ ".service"

def locking : List Action :=
  [.call ["/usr/bin/install", "-d", "-m", "0755", "/var/lib/carbide/agent"],
    .write "/var/lib/carbide/agent/operation.lock", .call ["/usr/bin/flock", "-n", "9"]]

/-- The staging file of a credential. -/
def stagingOf (name : String) : String := credentialDirectory ++ "/." ++ name ++ ".staging"

def uploadOf (name : String) : String := "/run/carbide/staging/" ++ name ++ ".upload.raw"

def receiving (name : String) : List Action :=
  [.call ["/usr/bin/install", "-d", "-m", "0700", "/run/carbide/staging"],
    .write (uploadOf name), .call ["/usr/bin/head", "-c", "1073741824"],
    .call ["/usr/bin/sha256sum", uploadOf name], .call ["/usr/bin/cut", "-d ", "-f1"],
    .call ["/usr/bin/rm", "-f", uploadOf name]]

/-- What is done for a request, at most. -/
def Request.Does : Request → Action → Prop
  | .health, a => a ∈ [.call (systemctl ["--failed", "--no-pager"]),
      .call (systemctl ["is-system-running", "--wait"])]
  | .logs, a => a = .call (journalctl ["--boot", "--priority=warning..alert", "--lines=300",
      "--no-pager"])
  | .watchtowerLogs, a => a = .call (journalctl ["--boot", "--unit=watchtower.service",
      "--lines=500", "--no-pager"])
  | .jobLogs job, a => a = .call (journalctl ["--boot", "--unit=" ++ unit job, "--lines=500",
      "--no-pager"])
  | .stopJob job, a => a ∈ [.call ["/usr/bin/systemctl", "list-units", "--all", "--no-legend",
      unit job], .call ["/usr/bin/grep", "-q", "."], .call (systemctl ["stop", unit job])]
  | .reboot, a => a ∈ locking ++ [.call ["/usr/lib/systemd/systemd-sysupdate", "pending"],
      .call (clean ["/usr/lib/systemd/systemd-sysupdate", "reboot"]),
      .call (systemctl ["reboot"])]
  | .poweroff, a => a ∈ locking ++ [.call (systemctl ["poweroff"])]
  | .update version, a =>
    a = .call ([agentPath, "stage-base"] ++ (version.map Subtype.val).toList)
  | .nodeId, a => a = .call ["/usr/bin/cat", nodeIdPath]
  | .credential name, a => a ∈ [.call ["/usr/bin/install", "-d", "-m", "0700", "-o", "root", "-g",
      "root", credentialDirectory], .write (stagingOf name), .call ["/usr/bin/head", "-c", "65536"],
      .call ["/usr/bin/chmod", "0600", stagingOf name],
      .call ["/usr/bin/mv", "-f", stagingOf name, credentialDirectory ++ "/" ++ name],
      .call ["/usr/bin/rm", "-f", stagingOf name]]
  | .acquire name none, a => a = .call [agentPath, "stage-extension", name, "--activate"]
  | .acquire name (some base), a => a = .call [agentPath, "stage-extension", name, "--base", base]
  | .install name, a => a ∈ receiving name ∨
      ∃ digest, a = .call [agentPath, "stage-extension", name, "--path", uploadOf name, "--digest",
        digest, "--activate"]
  | .status, a => a = .call (clean [agentPath, "status"])
  | .control verb name, a => a = .call (clean [agentPath, verb, name])
  | .extension verb name, a => a = .call (clean ["/usr/sbin/carbideos-extension", verb, name])

/-- No operand has a part that was not checked. -/
def Request.Whole : Request → Prop
  | .jobLogs job | .stopJob job => IsJob job
  | .update (some version) => Agent.versionValid version = true
  | .acquire _ (some base) => Agent.versionValid base = true
  | _ => True

/-- Nothing was done but to log the invocation and what a request asks for. -/
def Only (log : Action) (r : Option Request) (done : List Action) : Prop :=
  ∀ a ∈ done, a = log ∨ ∃ q ∈ r, q.Does a

section
variable (answers : Answers) {log : Action} {r : Request} {argv : List String} {path : String}
  {α : Type}

theorem only_append {o : Option Request} {done : List Action} {a : Action} (h : Only log o done)
    (does : ∃ q ∈ o, q.Does a) : Only log o (done ++ [a]) := by
  intro b member
  rcases List.mem_append.mp member with old | new
  · exact h b old
  · rw [List.mem_singleton.mp new]
    exact Or.inr does

theorem call_only (does : r.Does (.call argv)) : Keeps (Only log (some r)) (call answers argv) :=
  fun _ h => only_append h ⟨r, rfl, does⟩

theorem fail_only {o : Option Request} (status : Nat) :
    Keeps (Only log o) (Prog.fail status : Script α) := fun _ h => h

theorem pure_only {o : Option Request} (a : α) : Keeps (Only log o) (pure a : Script α) :=
  fun _ h => h

theorem must_only (does : r.Does (.call argv)) : Keeps (Only log (some r)) (must answers argv) := by
  refine Triple.bind (call_only answers does) fun status => ?_
  split
  · exact pure_only ()
  · exact fail_only status

theorem exec_only (does : r.Does (.call argv)) : Keeps (Only log (some r)) (exec answers argv) :=
  Triple.bind (call_only answers does) fun status => fail_only status

theorem writeTo_only (does : r.Does (.write path)) :
    Keeps (Only log (some r)) (writeTo answers path) := by
  intro done h
  unfold writeTo
  cases answers.refused done path with
  | some status => exact h
  | none => exact only_append h ⟨r, rfl, does⟩

theorem isFilled_only {o : Option Request} (path : String) :
    Keeps (Only log o) (isFilled answers path) := fun _ h => h

theorem outputOf_only {o : Option Request} (argv : List String) :
    Keeps (Only log o) (outputOf answers argv) := fun _ h => h

theorem trapped_only {m : Script α} (does : r.Does (.call argv)) (h : Keeps (Only log (some r)) m) :
    Keeps (Only log (some r)) (trapped argv m) := by
  intro done only
  have inside := Outcome.meets_always.mp (h done only)
  unfold trapped
  cases ended : m done with
  | ok a done' =>
    rw [ended] at inside
    exact inside
  | error status done' =>
    rw [ended] at inside
    exact only_append inside ⟨r, rfl, does⟩
  | halt done' =>
    rw [ended] at inside
    exact inside

theorem lockLifecycle_only (does : ∀ a ∈ locking, r.Does a) :
    Keeps (Only log (some r)) (lockLifecycle answers) := by
  refine Triple.bind (must_only answers (does _ (by simp [locking]))) fun _ => ?_
  refine Triple.bind (writeTo_only answers (does _ (by simp [locking]))) fun _ => ?_
  refine Triple.bind (call_only answers (does _ (by simp [locking]))) fun status => ?_
  split
  · exact pure_only ()
  · exact fail_only 1

/-- A program does what one request asks for at most, and the operands of that are whole if
those of the program are single lines. -/
def Confined (log : Action) (arguments : List String) (m : Script Unit) : Prop :=
  ∃ o : Option Request, Keeps (Only log o) m ∧
    ((∀ argument ∈ arguments, '\n' ∉ argument.toList) → ∀ q ∈ o, q.Whole)

theorem fail_confined (arguments : List String) (status : Nat) :
    Confined log arguments (Prog.fail status) :=
  ⟨none, fail_only status, fun _ _ none_ => nomatch none_⟩

/-- A request without operands that need a check. -/
theorem Confined.of_keeps {arguments : List String} {m : Script Unit}
    (h : Keeps (Only log (some r)) m)
    (whole : r.Whole) : Confined log arguments m := by
  refine ⟨some r, h, fun _ q same => ?_⟩
  obtain rfl : r = q := Option.some.inj same
  exact whole

variable (arguments : List String)

theorem health_confined : Confined log arguments (health answers arguments) := by
  unfold health
  split
  · exact fail_confined arguments 2
  · refine .of_keeps (r := .health) (Triple.bind (must_only answers ?_) fun _ =>
      must_only answers ?_)
      trivial
    · exact List.mem_cons_self
    · exact List.mem_cons_of_mem _ List.mem_cons_self

theorem jobUnit_eq_some {job unit : String} (h : jobUnit job = some unit) :
    ∃ valid : Grep.quiet jobPattern job = true, unit = Broker.unit ⟨job, valid⟩ := by
  unfold jobUnit at h
  split at h
  · rename_i valid
    exact ⟨valid, (Option.some.inj h).symm⟩
  · cases h

/-- A single line that passes the check is a job identifier. -/
theorem isJob_of_single {job : String} (valid : Grep.quiet jobPattern job = true)
    (single : '\n' ∉ job.toList) : IsJob job := by
  rw [quiet_single single jobPattern rfl] at valid
  exact valid

theorem version_of_single {version : String} (valid : versionValid version = true)
    (single : '\n' ∉ version.toList) : Agent.versionValid version = true := by
  rw [versionValid, quiet_single single versionPattern rfl] at valid
  have whole := matches_version.mp valid
  rwa [String.ofList_toList] at whole

theorem logs_confined : Confined log arguments (logs answers arguments) := by
  unfold logs
  split
  · exact .of_keeps (r := .logs) (exec_only answers rfl) trivial
  · exact .of_keeps (r := .logs) (exec_only answers rfl) trivial
  · exact .of_keeps (r := .watchtowerLogs) (exec_only answers rfl) trivial
  · rename_i job
    cases checked : jobUnit job with
    | none =>
      rw [unitOf, checked]
      exact fail_confined _ 2
    | some unit =>
      obtain ⟨valid, rfl⟩ := jobUnit_eq_some checked
      rw [unitOf, checked]
      refine ⟨some (.jobLogs ⟨job, valid⟩), exec_only answers rfl, fun single q same => ?_⟩
      obtain rfl := Option.some.inj same
      exact isJob_of_single valid (single job (by simp))
  · exact fail_confined arguments 2

theorem stopUnit_only (job : Job) :
    Keeps (Only log (some (.stopJob job))) (do
      let _ ← call answers ["/usr/bin/systemctl", "list-units", "--all", "--no-legend", unit job]
      let known ← call answers ["/usr/bin/grep", "-q", "."]
      if known = 0 then must answers (systemctl ["stop", unit job]) else Prog.fail 1) := by
  refine Triple.bind (call_only answers (by simp [Request.Does])) fun _ => ?_
  refine Triple.bind (call_only answers (by simp [Request.Does])) fun known => ?_
  split
  · exact must_only answers (by simp [Request.Does])
  · exact fail_only 1

theorem stopJob_confined : Confined log arguments (stopJob answers arguments) := by
  unfold stopJob
  split
  · rename_i job
    cases checked : jobUnit job with
    | none =>
      rw [unitOf, checked]
      exact fail_confined _ 2
    | some unit =>
      obtain ⟨valid, rfl⟩ := jobUnit_eq_some checked
      rw [unitOf, checked]
      refine ⟨some (.stopJob ⟨job, valid⟩), stopUnit_only answers ⟨job, valid⟩,
        fun single q same => ?_⟩
      obtain rfl := Option.some.inj same
      exact isJob_of_single valid (single job (by simp))
  · exact fail_confined arguments 2

theorem reboot_confined : Confined log arguments (reboot answers arguments) := by
  unfold reboot
  split
  · exact fail_confined arguments 2
  · refine .of_keeps (r := .reboot) ?_ trivial
    refine Triple.bind (lockLifecycle_only answers fun a member => List.mem_append_left _ member)
      fun _ => Triple.bind (call_only answers (by simp [Request.Does])) fun pending => ?_
    split
    · refine Triple.read fun done only => ?_
      split
      · exact (exec_only answers (by simp [Request.Does])).weaken fun _ same => same ▸ only
      · exact (fail_only 1).weaken fun _ same => same ▸ only
    · exact exec_only answers (by simp [Request.Does])

theorem poweroff_confined : Confined log arguments (poweroff answers arguments) := by
  unfold poweroff
  split
  · exact fail_confined arguments 2
  · refine .of_keeps (r := .poweroff) ?_ trivial
    exact Triple.bind (lockLifecycle_only answers fun a member => List.mem_append_left _ member)
      fun _ => exec_only answers (by simp [Request.Does])

theorem update_confined : Confined log arguments (update answers arguments) := by
  unfold update
  split
  · exact .of_keeps (r := .update none) (exec_only answers rfl) trivial
  · rename_i version
    split
    · exact fail_confined _ 2
    · rename_i checked
      have valid : versionValid version = true := by simpa using checked
      refine ⟨some (.update (some ⟨version, valid⟩)), exec_only answers rfl,
        fun single q same => ?_⟩
      obtain rfl := Option.some.inj same
      exact version_of_single valid (single version (by simp))
  · exact fail_confined arguments 2

theorem nodeId_confined : Confined log arguments (nodeId answers arguments) := by
  unfold nodeId
  split
  · exact fail_confined arguments 2
  · refine .of_keeps (r := .nodeId) (Triple.bind (isFilled_only answers _) fun known => ?_) trivial
    split
    · exact exec_only answers rfl
    · exact fail_only 1

theorem credential_confined : Confined log arguments (credential answers arguments) := by
  unfold credential
  split
  · rename_i name
    split
    · exact fail_confined _ 2
    · rename_i checked
      have permitted : name ∈ credentials := by simpa [credentialPermitted] using checked
      refine .of_keeps (r := .credential ⟨name, permitted⟩) ?_ trivial
      refine Triple.bind (must_only answers (by simp [Request.Does])) fun _ => ?_
      refine Triple.bind (writeTo_only answers (by simp [Request.Does, stagingOf])) fun _ => ?_
      refine Triple.bind (must_only answers (by simp [Request.Does])) fun _ => ?_
      refine Triple.bind (isFilled_only answers _) fun some_ => ?_
      split
      · refine Triple.bind (must_only answers (by simp [Request.Does, stagingOf])) fun _ => ?_
        exact must_only answers (by simp [Request.Does, stagingOf])
      · refine Triple.bind (must_only answers (by simp [Request.Does, stagingOf])) fun _ => ?_
        exact fail_only 1
  · exact fail_confined arguments 2

theorem extensionAcquire_confined :
    Confined log arguments (extensionAcquire answers arguments) := by
  unfold extensionAcquire
  split
  · rename_i name
    split
    · exact fail_confined _ 2
    · rename_i checked
      have permitted : name ∈ extensions := by simpa [extensionPermitted] using checked
      exact .of_keeps (r := .acquire ⟨name, permitted⟩ none) (exec_only answers rfl) trivial
  · rename_i name base
    split
    · exact fail_confined _ 2
    split
    · exact fail_confined _ 2
    · rename_i checked plain
      have permitted : name ∈ extensions := by simpa [extensionPermitted] using checked
      have valid : versionValid base = true := by simpa using plain
      refine ⟨some (.acquire ⟨name, permitted⟩ (some ⟨base, valid⟩)), exec_only answers rfl,
        fun single q same => ?_⟩
      obtain rfl := Option.some.inj same
      exact version_of_single valid (single base (by simp))
  · exact fail_confined arguments 2

theorem installExtension_confined :
    Confined log arguments (installExtension answers arguments) := by
  unfold installExtension
  split
  · rename_i name
    split
    · exact fail_confined _ 2
    · rename_i checked
      have permitted : name ∈ extensions := by simpa [extensionPermitted] using checked
      have does : ∀ a ∈ receiving name, (Request.install ⟨name, permitted⟩).Does a :=
        fun a member => Or.inl member
      refine .of_keeps (r := .install ⟨name, permitted⟩) ?_ trivial
      refine Triple.bind (must_only answers (does _ (by simp [receiving]))) fun _ => ?_
      refine Triple.bind (trapped_only (does _ (List.mem_of_getElem? (i := 5) rfl)) ?_)
        fun digest => exec_only answers (Or.inr ⟨digest, rfl⟩)
      refine Triple.bind (writeTo_only answers (does _ (List.mem_of_getElem? (i := 1) rfl)))
        fun _ => ?_
      refine Triple.bind (must_only answers (does _ (by simp [receiving]))) fun _ => ?_
      refine Triple.bind (isFilled_only answers _) fun some_ => ?_
      split
      · refine Triple.bind (call_only answers (does _ (List.mem_of_getElem? (i := 3) rfl)))
          fun _ => ?_
        refine Triple.bind (outputOf_only answers _) fun digest => ?_
        exact Triple.bind (must_only answers (does _ (by simp [receiving]))) fun _ =>
          pure_only digest
      · exact fail_only 1
  · exact fail_confined arguments 2

theorem agent_confined : Confined log arguments (agent answers arguments) := by
  unfold agent
  split
  · split
    · exact fail_confined _ 2
    · exact .of_keeps (r := .status) (exec_only answers rfl) trivial
  · rename_i verb name _
    split
    · rename_i listed
      split
      · exact fail_confined _ 2
      · rename_i checked
        have permitted : name ∈ extensions := by simpa [extensionPermitted] using checked
        exact .of_keeps (r := .control ⟨verb, List.contains_iff_mem.mp listed⟩ ⟨name, permitted⟩)
          (exec_only answers rfl) trivial
    · exact fail_confined _ 2
  · exact fail_confined arguments 2

/-- Two texts around a colon are told apart where neither has another one. -/
theorem colon_inj {a b verb name : String} (plain : ':' ∉ a.toList) (plain' : ':' ∉ b.toList)
    (h : a ++ ":" ++ b = verb ++ ":" ++ name) : verb = a ∧ name = b := by
  have counted := congrArg (fun s => s.toList.count ':') h
  have one : (":" : String).toList.count ':' = 1 := by decide
  simp only [String.toList_append, List.count_append, one, List.count_eq_zero.mpr plain,
    List.count_eq_zero.mpr plain'] at counted
  have none_ : ':' ∉ name.toList := List.count_eq_zero.mp (by omega)
  have colon : (":" : String) = String.ofList [':'] := rfl
  rw [colon] at h
  constructor
  · calc
      verb = Shell.beforeLast (verb ++ String.ofList [':'] ++ name) ':' :=
        (Shell.beforeLast_append none_).symm
      _ = Shell.beforeLast (a ++ String.ofList [':'] ++ b) ':' := by rw [h]
      _ = a := Shell.beforeLast_append plain'
  · calc
      name = Shell.afterLast (verb ++ String.ofList [':'] ++ name) ':' :=
        (Shell.afterLast_append none_).symm
      _ = Shell.afterLast (a ++ String.ofList [':'] ++ b) ':' := by rw [h]
      _ = b := Shell.afterLast_append plain'

theorem extension_confined : Confined log arguments (extension answers arguments) := by
  unfold extension
  split
  · rename_i verb name
    split
    · rename_i listed
      obtain ⟨verbed, named⟩ : verb ∈ ["install", "remove"] ∧ name ∈ fed := by
        simp only [List.contains_iff_mem, List.mem_cons, List.not_mem_nil, or_false] at listed
        rcases listed with same | same | same | same
        · obtain ⟨rfl, rfl⟩ := @colon_inj "install" "chrome" _ _ (by decide) (by decide) same.symm
          exact ⟨by decide, by decide⟩
        · obtain ⟨rfl, rfl⟩ := @colon_inj "remove" "chrome" _ _ (by decide) (by decide) same.symm
          exact ⟨by decide, by decide⟩
        · obtain ⟨rfl, rfl⟩ :=
            @colon_inj "install" "rat-game-16" _ _ (by decide) (by decide) same.symm
          exact ⟨by decide, by decide⟩
        · obtain ⟨rfl, rfl⟩ :=
            @colon_inj "remove" "rat-game-16" _ _ (by decide) (by decide) same.symm
          exact ⟨by decide, by decide⟩
      exact .of_keeps (r := .extension ⟨verb, verbed⟩ ⟨name, named⟩) (exec_only answers rfl) trivial
    · exact fail_confined _ 2
  · exact fail_confined arguments 2

theorem Confined.ite {c : Prop} [Decidable c] {m k : Script Unit} (h : Confined log arguments m)
    (h' : Confined log arguments k) : Confined log arguments (if c then m else k) := by
  split
  · exact h
  · exact h'

theorem perform_confined (operation : String) :
    Confined log arguments (perform answers operation arguments) :=
  .ite _ (health_confined answers _) <| .ite _ (logs_confined answers _) <|
    .ite _ (stopJob_confined answers _) <| .ite _ (reboot_confined answers _) <|
    .ite _ (poweroff_confined answers _) <| .ite _ (update_confined answers _) <|
    .ite _ (nodeId_confined answers _) <| .ite _ (credential_confined answers _) <|
    .ite _ (extensionAcquire_confined answers _) <| .ite _ (installExtension_confined answers _) <|
    .ite _ (agent_confined answers _) <| .ite _ (extension_confined answers _) <|
    fail_confined _ 2

theorem must_logged {o : Option Request} (argv : List String) :
    Keeps (Only (.call argv) o) (must answers argv) := by
  have called : Keeps (Only (.call argv) o) (call answers argv) := by
    intro done only a member
    rcases List.mem_append.mp member with old | new
    · exact only a old
    · exact Or.inl (List.mem_singleton.mp new)
  refine Triple.bind called fun status => ?_
  split
  · exact pure_only ()
  · exact fail_only status

end

/-- Whatever the operator asks for, and whatever the programs called answer, all that is done is
to log the invocation and to do what one request needs, with operands from the lists of those
permitted and, where the arguments are single lines, versions and jobs that are such as a whole. -/
theorem carbideosOps_confined (answers : Answers) (arguments : List String) :
    ∃ r : Option Request,
      Only (.call (logger answers (arguments.headD "") arguments.tail)) r
        (carbideosOps answers arguments []).state ∧
      ((∀ argument ∈ arguments, '\n' ∉ argument.toList) → ∀ q ∈ r, q.Whole) := by
  have refused : ∀ {log : Action}, Only log none [] := fun a member => nomatch member
  unfold carbideosOps
  split
  · exact ⟨none, refused, fun _ _ none_ => nomatch none_⟩
  cases arguments with
  | nil => exact ⟨none, refused, fun _ _ none_ => nomatch none_⟩
  | cons operation arguments =>
    have confined : Confined (.call (logger answers operation arguments)) arguments
        (perform answers operation arguments) := perform_confined answers arguments operation
    obtain ⟨r, keeps, whole⟩ := confined
    have started : Only (.call (logger answers operation arguments)) r [] :=
      fun a member => nomatch member
    refine ⟨r,
      Outcome.meets_always.mp ((Triple.bind (must_logged answers _) fun _ => keeps) [] started),
      fun single => whole fun argument member => single argument (List.mem_cons_of_mem _ member)⟩

open Agent

section
variable (answers : Answers) {argv : List String} {a : Action}

/-- Events that are about extensions a node may be given, if about any. -/
def AboutPermitted (events : List Event) : Prop := ∀ e ∈ events, e.About (· ∈ extensions)

theorem agentEvents_other {path : String} {arguments : List String}
    (program_ : program argv = path :: arguments) (other : path ≠ agentPath) :
    agentEvents (.call argv) = [] := by
  simp only [agentEvents, program_]
  cases arguments with
  | nil => rfl
  | cons name arguments => exact if_neg other

/-- A program that is neither the agent nor the script that calls it. -/
theorem events_other {path : String} {arguments : List String}
    (program_ : program argv = path :: arguments) (other : path ≠ agentPath)
    (script : path ≠ "/usr/sbin/carbideos-extension") : (Action.call argv).events answers = [] := by
  rw [Action.events, agentEvents_other program_ other, program_]
  simp [script]

theorem agentEvents_agent {name : String} {arguments : List String}
    (program_ : program argv = agentPath :: name :: arguments) :
    agentEvents (.call argv) = ((commandNamed name).map fun c =>
      Event.command c arguments).toList := by
  simp only [agentEvents, program_, if_true]

theorem events_agent {name : String} {arguments : List String}
    (program_ : program argv = agentPath :: name :: arguments) :
    (Action.call argv).events answers =
      ((commandNamed name).map fun c => Event.command c arguments).toList := by
  have script : agentPath ≠ "/usr/sbin/carbideos-extension" := by decide
  rw [Action.events, agentEvents_agent program_, program_]
  simp [script]

/-- A command about a permitted extension, or about none. -/
theorem about_command {name : String} {arguments : List String}
    (subject : ∀ c, commandNamed name = some c → ∀ n, c.subject arguments = some n →
      n ∈ extensions) :
    AboutPermitted ((commandNamed name).map fun c => Event.command c arguments).toList := by
  intro e member
  obtain ⟨c, known, rfl⟩ := Option.map_eq_some_iff.mp (Option.mem_toList.mp member)
  exact subject c known

theorem about_first {name first : String} {arguments : List String}
    (permitted : first ∈ extensions) :
    AboutPermitted
      ((commandNamed name).map fun c => Event.command c (first :: arguments)).toList := by
  refine about_command fun c known n subject => ?_
  cases c
  case healthGate => cases subject
  case stageBase => cases subject
  all_goals
    obtain rfl : first = n := Option.some.inj subject
    exact permitted

theorem fed_subset {name : String} (h : name ∈ fed) : name ∈ extensions :=
  (by decide : ∀ n ∈ fed, n ∈ extensions) name h

theorem carbideosExtension_about (arguments : List String) :
    AboutPermitted ((carbideosExtension answers arguments []).state.flatMap agentEvents) := by
  have called : ∀ {name verb : String} {rest : List String}, name ∈ extensions →
      AboutPermitted
        ((must answers (agentPath :: verb :: name :: rest) []).state.flatMap agentEvents) := by
    intro name verb rest permitted
    have trace : (must answers (agentPath :: verb :: name :: rest) []).state =
        [.call (agentPath :: verb :: name :: rest)] := by
      rw [must, Prog.bind_apply, call]
      dsimp only
      split <;> rfl
    rw [trace, List.flatMap_singleton, agentEvents_agent rfl]
    exact about_first permitted
  have nothing : ∀ {status : Nat}, AboutPermitted
      (((Prog.fail status : Script Unit) []).state.flatMap agentEvents) :=
        fun e member => nomatch member
  unfold carbideosExtension
  split
  · split
    · exact nothing
    split
    · exact nothing
    · rename_i listed
      have permitted := fed_subset (List.contains_iff_mem.mp (by simpa using listed))
      split
      · exact called permitted
      split
      · exact called permitted
      · exact nothing
  · split
    · exact nothing
    · exact nothing

/-- The calls that do not reach the agent. -/
theorem about_other {path : String} {arguments : List String}
    (program_ : program argv = path :: arguments) (other : path ≠ agentPath)
    (script : path ≠ "/usr/sbin/carbideos-extension") :
    AboutPermitted ((Action.call argv).events answers) := by
  rw [events_other answers program_ other script]
  exact fun e member => nomatch member

theorem about_write (path : String) : AboutPermitted ((Action.write path).events answers) :=
  fun _ member => nomatch member

theorem about_all {actions : List Action} (h : ∀ a ∈ actions, AboutPermitted (a.events answers)) :
    AboutPermitted (actions.flatMap (Action.events answers)) := by
  intro e member
  obtain ⟨a, listed, event⟩ := List.mem_flatMap.mp member
  exact h a listed e event

theorem locking_about (member : a ∈ locking) : AboutPermitted (a.events answers) := by
  simp only [locking, List.mem_cons, List.not_mem_nil, or_false] at member
  rcases member with rfl | rfl | rfl
  · exact about_other answers rfl (by decide) (by decide)
  · exact about_write answers _
  · exact about_other answers rfl (by decide) (by decide)

/-- What is done for a request has the agent work on permitted extensions only. -/
theorem Request.Does.about {r : Request} (h : r.Does a) : AboutPermitted (a.events answers) := by
  cases r with
  | health =>
    simp only [Request.Does, List.mem_cons, List.not_mem_nil, or_false] at h
    rcases h with rfl | rfl <;> exact about_other answers rfl (by decide) (by decide)
  | logs =>
    cases h
    exact about_other answers rfl (by decide) (by decide)
  | watchtowerLogs =>
    cases h
    exact about_other answers rfl (by decide) (by decide)
  | jobLogs job =>
    cases h
    exact about_other answers rfl (by decide) (by decide)
  | stopJob job =>
    simp only [Request.Does, List.mem_cons, List.not_mem_nil, or_false] at h
    rcases h with rfl | rfl | rfl <;> exact about_other answers rfl (by decide) (by decide)
  | reboot =>
    rcases List.mem_append.mp h with lock | h
    · exact locking_about answers lock
    · simp only [List.mem_cons, List.not_mem_nil, or_false] at h
      rcases h with rfl | rfl | rfl <;> exact about_other answers rfl (by decide) (by decide)
  | poweroff =>
    rcases List.mem_append.mp h with lock | h
    · exact locking_about answers lock
    · cases List.mem_singleton.mp h
      exact about_other answers rfl (by decide) (by decide)
  | update version =>
    cases h
    rw [events_agent answers rfl]
    refine about_command fun c known n subject => ?_
    obtain rfl : Command.stageBase = c := Option.some.inj known
    cases subject
  | nodeId =>
    cases h
    exact about_other answers rfl (by decide) (by decide)
  | credential name =>
    simp only [Request.Does, List.mem_cons, List.not_mem_nil, or_false] at h
    rcases h with rfl | rfl | rfl | rfl | rfl | rfl
    case inr.inl => exact about_write answers _
    all_goals exact about_other answers rfl (by decide) (by decide)
  | acquire name base =>
    cases base with
    | none =>
      cases h
      rw [events_agent answers rfl]
      exact about_first name.property
    | some base =>
      cases h
      rw [events_agent answers rfl]
      exact about_first name.property
  | install name =>
    rcases h with h | ⟨digest, rfl⟩
    · simp only [receiving, List.mem_cons, List.not_mem_nil, or_false] at h
      rcases h with rfl | rfl | rfl | rfl | rfl | rfl
      case inr.inl => exact about_write answers _
      all_goals exact about_other answers rfl (by decide) (by decide)
    · rw [events_agent answers rfl]
      exact about_first name.property
  | status =>
    cases h
    rw [events_agent answers rfl]
    exact about_command fun c known => nomatch known
  | control verb name =>
    cases h
    rw [events_agent answers rfl]
    exact about_first name.property
  | extension verb name =>
    cases h
    have other : ("/usr/sbin/carbideos-extension" : String) ≠ agentPath := by decide
    rw [Action.events, agentEvents_other rfl other, List.nil_append]
    exact carbideosExtension_about answers [verb, name]

theorem events_about (h : Happening) : ∀ e ∈ h.events, e.About (· ∈ extensions) := by
  cases h with
  | operator answers arguments =>
    obtain ⟨r, only, -⟩ := carbideosOps_confined answers arguments
    refine about_all answers fun a member => ?_
    rcases only a member with rfl | ⟨q, -, does⟩
    · exact about_other answers rfl (by decide) (by decide)
    · exact does.about answers
  | boot osRelease bootEntries =>
    intro e member
    rw [List.mem_singleton.mp member]
    exact fun name none_ => nomatch none_
  | healthGate =>
    intro e member
    rw [List.mem_singleton.mp member]
    exact fun name none_ => nomatch none_

/-- A file whose name starts with none of the permitted names and that no cleaning takes. -/
structure Unrelated (f : String) : Prop where
  names : ∀ name ∈ extensions, Text.startsWith f name = false
  candidate : Text.endsWith f ".candidate" = false
  new : Text.endsWith f ".new" = false

theorem Unrelated.outside {f : String} (h : Unrelated f) : Outside (· ∈ extensions) f := by
  have apart : ∀ {name}, name ∈ extensions → ∀ rest, f ≠ name ++ rest := by
    rintro name permitted rest rfl
    have start := h.names name permitted
    rw [Text.startsWith_append] at start
    cases start
  refine ⟨fun name base permitted touches => ?_,
    fun name base permitted retained => ?_, h.candidate,
    h.new⟩
  · cases touches with
    | legacy => exact apart permitted ".raw" rfl
    | active base' =>
      exact apart permitted ("_" ++ base' ++ ".raw")
        (by simp [scopedActivePath, String.append_assoc])
    | candidate start finish =>
      rw [h.candidate] at finish
      cases finish
    | temporary h' =>
      have finish := h'.2
      rw [h.new] at finish
      cases finish
  · obtain ⟨rest, split⟩ := Text.startsWith_iff.mp retained.1
    refine apart permitted ("_" ++ base ++ ".raw." ++ String.ofList rest) ?_
    rw [← String.toList_inj, ← split]
    simp [slotPrefix]

end

/-- On a node that is operated by the script alone, over any boots, whatever the operator asks
for, whatever programs answer and wherever the agent is cut off: each invocation does what one
request needs at most, only permitted extensions are ever on record, and no file of another one
is touched. -/
theorem operated_confined (env : Environment) (w : Node) (new : w.stored = {})
    (blank : w.memory = {})
    (session : List Happening) :
    (∀ answers arguments, .operator answers arguments ∈ session → ∃ r : Option Request,
      Only (.call (logger answers (arguments.headD "") arguments.tail)) r
        (carbideosOps answers arguments []).state ∧
      ((∀ argument ∈ arguments, '\n' ∉ argument.toList) → ∀ q ∈ r, q.Whole)) ∧
    let u := run env (session.flatMap Happening.events) w
    (∀ name e, u.stored.get name = some e → name ∈ extensions) ∧
      ∀ f, Unrelated f → u.extensions[f]? = w.extensions[f]? := by
  have about : ∀ e ∈ session.flatMap Happening.events, e.About (· ∈ extensions) := by
    intro e member
    obtain ⟨h, _, event⟩ := List.mem_flatMap.mp member
    exact events_about h e event
  have fenced : ∀ f, Unrelated f → Fenced (· ∈ extensions) f w.extensions[f]?
      (run env (session.flatMap Happening.events) w) := by
    refine fun f unrelated => run_fenced env unrelated.outside about ⟨?_, rfl⟩
    rintro name e (he | he)
    · rw [blank] at he
      simp [State.get] at he
    · rw [new] at he
      simp [State.get] at he
  refine ⟨fun answers arguments _ => carbideosOps_confined answers arguments, fun name e he => ?_,
    fun f unrelated => (fenced f unrelated).content⟩
  exact (fenced "" ⟨by decide, by decide, by decide⟩).recorded name e (Or.inr he)

/-- A script in whose run every program succeeds. -/
def willing : Answers where
  isRoot := true
  sudoUser := "operator"
  status _ _ := 0
  output _ _ := "digest"
  refused _ _ := none
  filled _ _ := true
  pendingExtensions _ := true

/-- A node with an image of an extension that the script does not permit, and one staged. -/
def furnishedNode : Node :=
  .with "1" [("foo_1.raw", [1]), ("foo_1.raw.b.candidate", [2]), ("chrome_1.raw", [3])]

theorem operated_confined_require :
    let session : List Happening := [.boot (some "VERSION_ID=1") [],
      .operator willing ["agent", "require", "chrome"], .healthGate]
    (∀ answers arguments, .operator answers arguments ∈ session → ∃ r : Option Request,
      Only (.call (logger answers (arguments.headD "") arguments.tail)) r
        (carbideosOps answers arguments []).state ∧
      ((∀ argument ∈ arguments, '\n' ∉ argument.toList) → ∀ q ∈ r, q.Whole)) ∧
    let u := run (calm twoVersions) (session.flatMap Happening.events) furnishedNode
    (∀ name e, u.stored.get name = some e → name ∈ extensions) ∧
      u.extensions["foo_1.raw"]? = some [1] := by
  intro session
  obtain ⟨needed, recorded, spared⟩ :=
    operated_confined (calm twoVersions) furnishedNode rfl rfl session
  have there : furnishedNode.extensions["foo_1.raw"]? = some [1] := by decide +kernel
  exact ⟨needed, recorded, (spared "foo_1.raw" ⟨by decide, by decide, by decide⟩).trans there⟩

end CarbideOS.Ops.Broker
