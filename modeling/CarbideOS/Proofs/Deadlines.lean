import CarbideOS.Agent.Health

namespace CarbideOS.Agent.Health
open Panics

/-- The clock of the host does not get past a second. -/
def Realistic {σ : Type} (latest : Nat) (h : Host σ) : Prop := ∀ s, (h.now s).1.secs ≤ latest

section
variable {σ : Type} {h : Host σ} {r : Ruleset} {latest : Nat}

theorem ask_never {α : Type} {f : σ → α × σ} {P : α → Prop} (all : ∀ s, P (f s).1) :
    Never (ask f) P := by
  intro s
  refine ⟨nofun, fun a s' done => ?_⟩
  have same : f s = (a, s') := Except.ok.inj done
  have here := all s
  rwa [same] at here

theorem ask_then {α β : Type} {f : σ → α × σ} {next : α → Work σ β} {Q : β → Prop}
    (all : ∀ a, Never (next a) Q) : Never (ask f >>= next) Q :=
  Never.bind (P := fun _ => True) (ask_never fun _ => trivial) fun a _ => all a

theorem tell_then {β : Type} {f : σ → σ} {next : Work σ β} {Q : β → Prop} (h : Never next Q) :
    Never (tell f >>= fun _ => next) Q :=
  Never.bind (P := fun _ => True) (fun _ => ⟨nofun, fun _ _ _ => trivial⟩) fun _ _ => h

/-- A time that the clock has an end for. -/
theorem deadline_never {seconds : Nat} (real : Realistic latest h)
    (fits : latest + seconds < 2 ^ 63) : Never (deadline h seconds) fun _ => True := by
  have read : Never (ask h.now) fun now => now.secs ≤ latest := ask_never real
  refine Never.bind read fun now early => ?_
  have there : (now.add seconds).isSome = true := by
    unfold Instant.add
    rw [if_pos (by omega)]
    rfl
  exact (Never.expect there).weaken fun _ _ => trivial

theorem poll_never (until_ : Instant) (rounds : Nat) :
    Never (poll h r until_ rounds) fun _ => True := by
  induction rounds with
  | zero => exact Never.running
  | succ rounds ih =>
    refine ask_then fun now => ?_
    split
    · refine ask_then fun active => ?_
      split
      · exact Never.pure trivial
      · refine ask_then fun failed => ?_
        split
        · exact Never.pure trivial
        · exact tell_then ih
    · exact Never.pure trivial

theorem attempts_never (real : Realistic latest h) (fits : latest + r.readyTimeout < 2 ^ 63)
    (rounds left : Nat) : Never (attempts h r rounds left) fun _ => True := by
  induction left with
  | zero => exact Never.pure trivial
  | succ left ih =>
    refine ask_then fun started => ?_
    cases started with
    | error e => exact Never.pure trivial
    | ok u =>
      refine Never.bind (deadline_never real fits) fun until_ _ => ?_
      refine Never.bind (poll_never until_ rounds) fun ready _ => ?_
      split
      · exact Never.pure trivial
      · refine ask_then fun active => ?_
        split
        · exact Never.pure trivial
        · split
          · exact tell_then ih
          · exact ih

theorem reap_never (until_ : Instant) (rounds : Nat) :
    Never (reap h r until_ rounds) fun _ => True := by
  induction rounds with
  | zero => exact Never.running
  | succ rounds ih =>
    refine ask_then fun waited => ?_
    cases waited with
    | error e => exact Never.pure trivial
    | ok status =>
      cases status with
      | none =>
        refine ask_then fun now => ?_
        split
        · exact tell_then (Never.pure trivial)
        · exact tell_then ih
      | some status =>
        dsimp only
        split
        · exact Never.pure trivial
        · exact Never.pure trivial

/-- A command that there is, of a time that the clock has an end for. -/
theorem probe_never (real : Realistic latest h) (runs : r.healthCommand ≠ some [])
    (fits : r.healthCommand.isSome = true → latest + r.healthTimeout < 2 ^ 63) (rounds : Nat) :
    Never (probe h r rounds) fun _ => True := by
  unfold probe
  cases found : r.healthCommand with
  | none => exact Never.pure trivial
  | some command =>
    have there : command.head?.isSome = true := by
      cases command with
      | nil => exact absurd found runs
      | cons => rfl
    refine Never.bind (Never.expect there) fun program _ => ?_
    refine ask_then fun spawned => ?_
    cases spawned with
    | error e => exact Never.pure trivial
    | ok u =>
      refine Never.bind (deadline_never real (fits (by rw [found]; rfl))) fun until_ _ => ?_
      exact reap_never until_ rounds

theorem keepHealthy_never (real : Realistic latest h) (runs : r.healthCommand ≠ some [])
    (fits : r.healthCommand.isSome = true → latest + r.healthTimeout < 2 ^ 63) (until_ : Instant)
    (probing rounds : Nat) : Never (keepHealthy h r until_ probing rounds) fun _ => True := by
  induction rounds with
  | zero => exact Never.running
  | succ rounds ih =>
    refine ask_then fun now => ?_
    split
    · refine ask_then fun active => ?_
      split
      · refine Never.bind (probe_never real runs fits probing) fun probed _ => ?_
        cases probed with
        | error e => exact Never.pure trivial
        | ok u => exact ask_then fun now => tell_then ih
      · exact Never.pure trivial
    · refine ask_then fun active => ?_
      split
      · exact probe_never real runs fits probing
      · exact Never.pure trivial

theorem soak_never (real : Realistic latest h) (runs : r.healthCommand ≠ some [])
    (fits : r.healthCommand.isSome = true → latest + r.healthTimeout < 2 ^ 63)
    (soaks : r.soak ≠ 0 → latest + r.soak < 2 ^ 63) (rounds : Nat) :
    Never (soak h r rounds) fun _ => True := by
  unfold soak
  split
  · exact probe_never real runs fits rounds
  · rename_i some_
    refine Never.bind (deadline_never real (soaks some_)) fun until_ _ => ?_
    exact keepHealthy_never real runs fits until_ rounds rounds

end

/-- What is loaded makes an attempt, and runs a command if it has one. -/
theorem load_runs {contents : String} {r : Ruleset} (loaded : Ruleset.load contents = .ok r) :
    r.startAttempts ≠ 0 ∧ r.healthCommand ≠ some [] := by
  have valid : r.validate = .ok () := by
    unfold Ruleset.load at loaded
    split at loaded
    · cases loaded
    · split at loaded
      · cases loaded
      · rename_i ok
        cases loaded
        exact ok
  unfold Ruleset.validate at valid
  dsimp only at valid
  split at valid
  · cases valid
  · split at valid
    · cases valid
    · split at valid
      · cases valid
      · rename_i some_
        refine ⟨some_, fun nothing => ?_⟩
        rw [nothing] at valid
        cases valid

/-- A host at the last second, on which everything starts. -/
def lastSecond (latest : Nat) : Host Unit where
  now _ := (⟨latest, 0⟩, ())
  sleep _ _ := ()
  startUnit _ _ := (.ok (), ())
  stopUnit _ _ := ()
  unitIsActive _ _ := (true, ())
  unitFailed _ _ := (false, ())
  spawn _ _ _ := (.ok (), ())
  tryWait _ := (.ok none, ())
  kill _ := ()

theorem bind_of_halt {σ α β : Type} {x : Work σ α} {f : α → Work σ β} {s : σ} {e : Halt}
    (h : x s = .error e) : (x >>= f) s = .error e := by
  change Except.bind (x s) _ = _
  rw [h]
  rfl

theorem ask_bind {σ α β : Type} {f : σ → α × σ} {next : α → Work σ β} {s : σ} :
    (ask f >>= next) s = next (f s).1 (f s).2 := rfl

theorem expect_bind {σ α β : Type} {a : α} {next : α → Work σ β} {s : σ} :
    (Work.expect (some a) >>= next) s = next a s := rfl

theorem deadline_panics {latest seconds : Nat} (past : ¬ latest + seconds < 2 ^ 63) :
    deadline (lastSecond latest) seconds () = .error .panic := by
  have none_ : Instant.add ⟨latest, 0⟩ seconds = none := if_neg past
  change Work.expect (Instant.add ⟨latest, 0⟩ seconds) () = _
  rw [none_]
  rfl

theorem attempts_panics {latest rounds left : Nat} {r : Ruleset}
    (past : ¬ latest + r.readyTimeout < 2 ^ 63) :
    attempts (lastSecond latest) r rounds (left + 1) () = .error .panic := by
  rw [attempts, ask_bind]
  exact bind_of_halt (deadline_panics past)

/-- The health checks of a ruleset that is loaded never panic, on any host whose clock does not
get past a second, exactly if each time that they wait for ends within 64 bits. -/
theorem never_panics_iff (contents : String) (r : Ruleset)
    (loaded : Ruleset.load contents = .ok r) (latest : Nat) :
    (∀ (σ : Type) (h : Host σ), Realistic latest h → ∀ rounds s,
      waitUntilReady h r rounds s ≠ .error .panic ∧ probe h r rounds s ≠ .error .panic ∧
      soak h r rounds s ≠ .error .panic) ↔
    (latest + r.readyTimeout < 2 ^ 63 ∧
      (r.healthCommand.isSome = true → latest + r.healthTimeout < 2 ^ 63) ∧
      (r.soak ≠ 0 → latest + r.soak < 2 ^ 63)) := by
  obtain ⟨some_, runs⟩ := load_runs loaded
  constructor
  · intro all
    have real : Realistic latest (lastSecond latest) := fun _ => Nat.le_refl latest
    obtain ⟨ready, probed, soaked⟩ := all Unit (lastSecond latest) real 1 ()
    refine ⟨?_, fun command => ?_, fun long => ?_⟩
    · by_contra past
      apply ready
      obtain ⟨left, enough⟩ := Nat.exists_eq_succ_of_ne_zero some_
      rw [waitUntilReady, enough]
      exact attempts_panics past
    · by_contra past
      apply probed
      obtain ⟨command, found⟩ := Option.isSome_iff_exists.mp command
      unfold probe
      rw [found]
      cases command with
      | nil => exact absurd found runs
      | cons program args =>
        dsimp only [List.head?_cons]
        rw [expect_bind, ask_bind]
        exact bind_of_halt (deadline_panics past)
    · by_contra past
      apply soaked
      unfold soak
      rw [if_neg long]
      exact bind_of_halt (deadline_panics past)
  · rintro ⟨ready, probed, soaked⟩ σ h real rounds s
    exact ⟨(attempts_never real ready rounds _ s).1, (probe_never real runs probed rounds s).1,
      (soak_never real runs probed soaked rounds s).1⟩

/-- A ruleset whose unit may take as long as 64 bits can say. -/
def patient : String := "[Extension]\nUnit=u.service\nReadyTimeoutSec=18446744073709551615"

theorem patient_loads : Ruleset.load patient =
    .ok { unit := "u.service", readyTimeout := 18446744073709551615 } := by
  decide +kernel

theorem patient_panics : ∃ r, Ruleset.load patient = .ok r ∧
    waitUntilReady (lastSecond 0) r 1 () = .error .panic :=
  ⟨_, patient_loads, attempts_panics (by decide)⟩

theorem never_panics_default : ∃ r, Ruleset.load "[Extension]\nUnit=u.service" = .ok r ∧
    ∀ (σ : Type) (h : Host σ), Realistic (2 ^ 40) h → ∀ rounds s,
      waitUntilReady h r rounds s ≠ .error .panic ∧ probe h r rounds s ≠ .error .panic ∧
      soak h r rounds s ≠ .error .panic := by
  have loaded : Ruleset.load "[Extension]\nUnit=u.service" = .ok { unit := "u.service" } := by
    decide +kernel
  exact ⟨_, loaded, (never_panics_iff _ _ loaded (2 ^ 40)).mpr (by decide)⟩

end CarbideOS.Agent.Health
