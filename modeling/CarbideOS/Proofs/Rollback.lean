import CarbideOS.Proofs.Revert

namespace CarbideOS.Agent
open Interruptible

/-- Why a rollback cannot be done, if it cannot: no version is recorded as known-good,
or its image is missing. -/
def nothingToRestore (w : Node) (name : String) : Option String :=
  let reason := "operator requested rollback"
  match (w.stored.get name).bind ExtensionState.knownGoodVersion with
  | none => some s!"{reason}; no known-good image to fall back to"
  | some version =>
    if w.fileExists (w.rollbackPath name version) then none
    else some s!"{reason}; known-good image {version} is missing"

/-- The record already holds this very refusal. -/
def AlreadyRefused (w : Node) (name reason : String) : Prop :=
  ∃ e, w.stored.get name = some e ∧ e.phase = .unrecoverable ∧ e.lastFailure = some reason ∧
    e.lastHealth = none ∧ e.terminalOsVersion = w.osVersion

/-- A write of the record begun here reaches the disk. -/
def WriteReaches (env : Environment) (w : Node) : Prop :=
  ∀ f, env.fault .store w = some f → f.reached "state.json" = true

/-- The machine stops in a write of the record begun here. -/
def WriteHalts (env : Environment) (w : Node) : Prop :=
  ∃ f, env.fault .store w = some f ∧ f.halts = true

/-- The node that has read its record and is about to write the refusal into it. -/
def Node.refusing (w : Node) (name reason : String) : Node := w.loaded.refuse name reason

/-- One of the two writes of a refusal reaches the disk: the one that records it, or
the one the command ends with. -/
def RefusalWritten (env : Environment) (w : Node) (name reason : String) : Prop :=
  WriteReaches env (w.refusing name reason) ∨
    (¬ WriteHalts env (w.refusing name reason) ∧ WriteReaches env (w.refusing name reason).tick)

section
variable {env : Environment} {name reason : String} {w x : Node}

theorem store_cases (env : Environment) (w : Node) :
    ∃ s, (store env w).state = ({ w with stored := s } : Node).tick ∧
      (WriteReaches env w → s = w.memory) ∧ (¬ WriteReaches env w → s = w.stored) ∧
      ((∃ u, store env w = .halt u) ↔ WriteHalts env w) := by
  unfold store Act.durable WriteReaches WriteHalts
  cases hf : env.fault .store w with
  | none => exact ⟨w.memory, rfl, fun _ => rfl, fun h => absurd (by simp) h, by simp⟩
  | some f =>
    cases reached : f.reached "state.json" <;> cases halts : f.halts
    · exact ⟨w.stored, by simp [reached, halts, Outcome.state], by simp [reached], by simp, by
        simp [halts]⟩
    · exact ⟨w.stored, by simp [reached, halts, Outcome.state], by simp [reached], by simp, by
        simp [halts]⟩
    · exact ⟨w.memory, by simp [reached, halts, Outcome.state], by simp, by simp [reached], by
        simp [halts]⟩
    · exact ⟨w.memory, by simp [reached, halts, Outcome.state], by simp, by simp [reached], by
        simp [halts]⟩

/-- A rollback with nothing to go back to gives up on the extension. -/
theorem recover_refused (refused : nothingToRestore w name = some reason) :
    recover env name "operator requested rollback" w.loaded =
      terminal env name reason w.loaded := by
  have memory : w.loaded.memory = w.stored := rfl
  have image : ∀ version, w.loaded.fileExists (w.loaded.rollbackPath name version) =
      w.fileExists (w.rollbackPath name version) := fun _ => rfl
  rw [recover, read_apply, memory]
  unfold nothingToRestore at refused
  cases known : (w.stored.get name).bind ExtensionState.knownGoodVersion with
  | none =>
    rw [known] at refused
    cases refused
    rfl
  | some version =>
    rw [known] at refused
    dsimp only at refused ⊢
    rw [image version]
    split at refused
    · cases refused
    · rename_i missing
      cases refused
      rw [if_neg missing]

/-- Giving up writes the record, and unless the machine stops there it goes on to fail. -/
theorem terminal_outcome (name reason : String) (w : Node) :
    (∃ u, store env (w.refuse name reason) = .halt u ∧ terminal env name reason w = .halt u) ∨
      (∀ u, store env (w.refuse name reason) ≠ .halt u) ∧
        ∃ e, terminal env name reason w = .error e (store env (w.refuse name reason)).state := by
  have records : (recordFailure name reason : Act String Unit) w =
      .ok () (w.refuse name reason) := rfl
  rw [terminal, Prog.bind_of_ok records]
  cases h : store env (w.refuse name reason) with
  | ok a u =>
    refine Or.inr ⟨fun v => by simp, reason, ?_⟩
    exact Prog.bind_of_ok (Prog.mapError_eq_ok.mpr h) _
  | error e u =>
    refine Or.inr ⟨fun v => by simp, s!"{reason}; could not record terminal state: {e}", ?_⟩
    exact Prog.bind_of_error (Prog.mapError_eq_error.mpr ⟨e, h, rfl⟩) _
  | halt u =>
    refine Or.inl ⟨u, rfl, Prog.bind_of_halt ?_ _⟩
    unfold Prog.mapError
    rw [h]

theorem rollbackCommand_state (readable : env.unreadable .state w = none)
    (refused : nothingToRestore w name = some reason) (rest : List String) :
    (∃ u, store env (w.refusing name reason) = .halt u ∧
        (rollbackCommand env (name :: rest) w).state = u) ∨
      (∀ u, store env (w.refusing name reason) ≠ .halt u) ∧
        (rollbackCommand env (name :: rest) w).state =
          (store env (store env (w.refusing name reason)).state).state := by
  have read : loadState env w = .ok w.stored w.tick := by
    simp only [loadState, readable]
  have hold : (Act.hold w.stored : Act String Unit) w.tick = .ok () w.loaded :=
    rfl
  have runs : rollbackCommand env (name :: rest) w = _ :=
    (Prog.bind_of_ok read _).trans (Prog.bind_of_ok hold _)
  rw [runs]
  rcases @terminal_outcome env name reason w.loaded with ⟨u, halts, gives⟩ | ⟨goes, e, gives⟩
  · have stops : (Prog.attempt (recover env name "operator requested rollback") :
        Act String (Except String Unit)) w.loaded = .halt u := by
      rw [Prog.attempt_eq_halt, recover_refused refused, gives]
    exact Or.inl ⟨u, halts, by rw [Prog.bind_of_halt stops]; rfl⟩
  · have fails : (Prog.attempt (recover env name "operator requested rollback") :
        Act String (Except String Unit)) w.loaded =
          .ok (.error e) (store env (w.loaded.refuse name reason)).state := by
      rw [Prog.attempt_eq_ok, recover_refused refused, gives]
      exact Or.inr ⟨e, rfl, rfl⟩
    refine Or.inr ⟨goes, ?_⟩
    rw [Prog.bind_of_ok fails, Prog.bind_apply]
    have refusing : w.refusing name reason = w.loaded.refuse name reason := rfl
    rw [refusing]
    cases store env (store env (w.loaded.refuse name reason)).state <;> rfl

/-- What such a rollback leaves: the node as it was, its record with or without the
refusal. -/
theorem rollbackCommand_leaves (readable : env.unreadable .state w = none)
    (refused : nothingToRestore w name = some reason) (rest : List String) :
    ∃ s t, (rollbackCommand env (name :: rest) w).state =
        ({ w.refusing name reason with stored := s } : Node).clock t ∧
      (RefusalWritten env w name reason → s = (w.refusing name reason).memory) ∧
      (¬ RefusalWritten env w name reason → s = w.stored) := by
  obtain ⟨s₁, first, reached₁, missed₁, halts⟩ := store_cases env (w.refusing name reason)
  have unwritten : (w.refusing name reason).stored = w.stored := rfl
  rcases rollbackCommand_state readable refused rest with ⟨u, stops, left⟩ | ⟨goes, left⟩
  · have halted := halts.mp ⟨u, stops⟩
    have same : u = ({ w.refusing name reason with stored := s₁ } : Node).tick := by
      rw [← first, stops]
      rfl
    refine ⟨s₁, _, by rw [left, same, Node.tick_eq_clock], ?_, ?_⟩
    · rintro (reaches | ⟨goes, -⟩)
      · exact reached₁ reaches
      · exact absurd halted goes
    · intro missed
      rw [← unwritten]
      exact missed₁ fun reaches => missed (Or.inl reaches)
  · have goes : ¬ WriteHalts env (w.refusing name reason) := fun h => by
      obtain ⟨u, stops⟩ := halts.mpr h
      exact goes u stops
    obtain ⟨s₂, second, reached₂, missed₂, -⟩ :=
      store_cases env ({ w.refusing name reason with stored := s₁ } : Node).tick
    refine ⟨s₂, _, by rw [left, first, second, Node.tick_eq_clock]; rfl, ?_, ?_⟩
    · intro written
      by_cases reaches : WriteReaches env (w.refusing name reason)
      · obtain rfl := reached₁ reaches
        by_cases again : WriteReaches env
            ({ w.refusing name reason with stored := (w.refusing name reason).memory } : Node).tick
        · exact reached₂ again
        · exact missed₂ again
      · obtain rfl : s₁ = w.stored := missed₁ reaches
        exact reached₂ (written.resolve_left reaches).2
    · intro missed
      have missed : ¬ WriteReaches env (w.refusing name reason) ∧
          ¬ WriteReaches env (w.refusing name reason).tick :=
        ⟨fun h => missed (Or.inl h), fun h => missed (Or.inr ⟨goes, h⟩)⟩
      obtain rfl : s₁ = w.stored := missed₁ missed.1
      exact missed₂ missed.2

/-- The refusal changes the record unless it is there already. -/
theorem refusing_same : (w.refusing name reason).memory = w.stored ↔
    AlreadyRefused w name reason := by
  have memory : (w.refusing name reason).memory = w.stored.entry name fun e =>
      { e with
        phase := .unrecoverable
        lastFailure := some reason
        lastHealth := none
        terminalOsVersion := w.osVersion } := rfl
  rw [memory]
  constructor
  · intro same
    have entry := congrArg (fun s => s.get name) same
    simp only [State.get_entry_self] at entry
    exact ⟨_, entry.symm, rfl, rfl, rfl, rfl⟩
  · rintro ⟨e, recorded, phase, failure, health, stamp⟩
    apply State.ext
    intro other
    by_cases own : other = name
    · subst own
      rw [State.get_entry_self, recorded, Option.getD_some]
      cases e
      simp_all
    · exact State.get_entry_of_ne own _

/-- A rollback that cannot be done leaves the node as the reconcile left it exactly if
the record already held the refusal, or no write of it reached the disk. -/
theorem rollback_harmless_iff
    (reconciled : (do acquireLock env; reconcileState env) w.process = .ok () x)
    (readable : env.unreadable .state x = none)
    (refused : nothingToRestore x name = some reason) (rest : List String) :
    (∃ t, ((Event.command .rollback (name :: rest)).after env w).process = x.process.clock t) ↔
      AlreadyRefused x name reason ∨ ¬ RefusalWritten env x name reason := by
  obtain ⟨s, t, left, written, missed⟩ :=
    @rollbackCommand_leaves env name reason x readable refused rest
  have after : (Event.command .rollback (name :: rest)).after env w =
      ({ x.refusing name reason with stored := s } : Node).clock t := by
    have runs : Command.rollback.run env (name :: rest) w.process =
        rollbackCommand env (name :: rest) x := by
      obtain ⟨_, v, locks, reconciles⟩ := Prog.bind_eq_ok.mp reconciled
      exact (Prog.bind_of_ok locks _).trans (Prog.bind_of_ok reconciles _)
    rw [← left, ← runs]
    rfl
  have only : (∃ t', ((Event.command .rollback (name :: rest)).after env w).process =
      x.process.clock t') ↔ s = x.stored := by
    rw [after]
    constructor
    · rintro ⟨t', same⟩
      exact congrArg Node.stored same
    · rintro rfl
      exact ⟨t, rfl⟩
  rw [only]
  by_cases reaches : RefusalWritten env x name reason
  · rw [written reaches, refusing_same]
    simp [reaches]
  · simp [reaches, missed reaches]

end

/-- A node on which an extension has just been installed for the first time. -/
def firstInstalled : Node :=
  run (calm twoVersions) [.boot (some "VERSION_ID=1") [], stageFile "n" "/1",
    .command .activate ["n", "a"]] (.with "1" [])

/-- The node once interrupted work is resolved. -/
def resolved (w : Node) : Node :=
  ((do acquireLock (calm twoVersions); reconcileState (calm twoVersions)) w.process).state

/-- How the health gate of the next boot ends. -/
def nextGate (w : Node) : Bool :=
  (Command.healthGate.run (calm twoVersions) []
    ((Event.boot (some "VERSION_ID=1") []).after (calm twoVersions) w).process).isOk

theorem rollback_harmless_first :
    (∃ t, ((Event.command .rollback ["n"]).after (calm twoVersions) firstInstalled).process =
        (resolved firstInstalled).process.clock t) ↔
      AlreadyRefused (resolved firstInstalled) "n"
          "operator requested rollback; no known-good image to fall back to" ∨
        ¬ RefusalWritten (calm twoVersions) (resolved firstInstalled) "n"
          "operator requested rollback; no known-good image to fall back to" :=
  rollback_harmless_iff (Outcome.eq_ok (by decide +kernel)) rfl (by decide +kernel) []

/-- Asking to roll back what has nothing to go back to fails the next gate, and an
extension the node never had gets an entry. -/
theorem rollback_gives_up :
    nextGate firstInstalled = true ∧
      nextGate ((Event.command .rollback ["n"]).after (calm twoVersions) firstInstalled) = false ∧
      (((Event.command .rollback ["n"]).after (calm twoVersions) firstInstalled).stored.get "n").map
        ExtensionState.phase = some .unrecoverable ∧
      ((resolved firstInstalled).stored.get "n").map ExtensionState.phase = some .active ∧
      (resolved firstInstalled).stored.get "m" = none ∧
      ((Event.command .rollback ["m"]).after (calm twoVersions) firstInstalled).stored.get "m" ≠
        none := by
  decide +kernel

end CarbideOS.Agent
