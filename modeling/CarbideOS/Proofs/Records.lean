import CarbideOS.Proofs.Slots

namespace CarbideOS.Agent
open Interruptible

/-- Two nodes that differ in their files and their merge at most. -/
structure SameRecord (w u : Node) : Prop where
  memory : u.memory = w.memory
  stored : u.stored = w.stored
  osRelease : u.osRelease = w.osRelease
  history : u.history = w.history

instance : IsPreorder Node SameRecord where
  refl _ := ⟨rfl, rfl, rfl, rfl⟩
  trans _ _ _ h h' := ⟨h'.memory.trans h.memory, h'.stored.trans h.stored,
    h'.osRelease.trans h.osRelease, h'.history.trans h.history⟩

theorem SameRecord.refl (w : Node) : SameRecord w w := Std.Refl.refl w

theorem SameRecord.trans {w u v : Node} (h : SameRecord w u) (h' : SameRecord u v) :
    SameRecord w v :=
  IsTrans.trans w u v h h'

theorem Later.sameRecord {w u : Node} (h : Later w u) : SameRecord w u := by
  obtain ⟨t, rfl⟩ := h
  exact ⟨rfl, rfl, rfl, rfl⟩

theorem SameRecord.setDir (w : Node) (place : Place) (d : Dir) :
    SameRecord w (w.setDir place d) := by
  cases place <;> exact ⟨rfl, rfl, rfl, rfl⟩

theorem SameRecord.tick {w u : Node} (h : SameRecord w u) : SameRecord w u.tick :=
  ⟨h.memory, h.stored, h.osRelease, h.history⟩

theorem SameRecord.scope {w u : Node} (h : SameRecord w u) : u.scope = w.scope := by
  unfold Node.scope Node.osVersion Node.osReleaseValue
  rw [h.osRelease]

/-- The record in memory with one entry changed. -/
def Node.edit (w : Node) (name : String) (f : ExtensionState → ExtensionState) : Node :=
  { w with memory := w.memory.entry name f }

/-- The record in memory has reached the disk. -/
def Node.saved (w : Node) : Node := { w with stored := w.memory }.tick

section Steps
variable {ε α : Type} (w : Node)

theorem Act.entry_apply (name : String) (f : ExtensionState → ExtensionState) :
    (Act.entry name f : Act ε Unit) w = .ok () (w.edit name f) := rfl

theorem Act.hold_apply (s : State) : (Act.hold s : Act ε Unit) w = .ok () { w with memory := s } :=
  rfl

theorem Act.ask_apply (f : Node → α) : (Act.ask f : Act ε α) w = .ok (f w) w.tick := rfl

/-- A program that starts by reading is its continuation at the state read. -/
theorem read_apply {β : Type} (f : Node → Act ε β) : (Prog.read >>= f) w = f w w := rfl

theorem edit_entry (name : String) (f : ExtensionState → ExtensionState) :
    (w.edit name f).memory.get name = some (f ((w.memory.get name).getD {})) :=
  State.get_entry_self _ _ _

theorem edit_other {name other : String} (h : other ≠ name)
    (f : ExtensionState → ExtensionState) :
    (w.edit name f).memory.get other = w.memory.get other :=
  State.get_entry_of_ne h _

end Steps

/-- A durable step relates its first and last state as its effect does, however far
it got. -/
theorem Act.durable_within {env : Environment} {R : Node → Node → Prop} {step : Durable}
    {effect : (String → Bool) → Node → Node} {residue : Option Nat → Node → Node}
    (whole : ∀ w, R w (effect (fun _ => true) w).tick)
    (part : ∀ w reached leftover, R w (effect reached (residue leftover w)).tick) :
    Within R (Act.durable env step effect residue) := by
  intro w
  unfold Act.durable
  cases env.fault step w with
  | none => exact whole w
  | some f =>
    dsimp only
    split
    · exact part w f.reached f.leftover
    · exact part w f.reached f.leftover

/-- Without a fault a durable step has its whole effect. -/
theorem Act.durable_of_clean {env : Environment} {step : Durable} {w : Node}
    (h : env.fault step w = none) (effect : (String → Bool) → Node → Node)
    (residue : Option Nat → Node → Node) :
    Act.durable env step effect residue w = .ok () (effect (fun _ => true) w).tick := by
  unfold Act.durable
  rw [h]

section Records
variable (env : Environment) {ε : Type}

theorem durablePublish_record (bytes : Bytes) (target : Path) :
    Within SameRecord (durablePublish env bytes target) := by
  have hp : ∀ w : Node, SameRecord w (w.publish target bytes) := fun w => SameRecord.setDir w _ _
  have hl : ∀ (w : Node) leftover, SameRecord w (w.leaveBehind target bytes leftover) := by
    intro w leftover
    cases leftover <;> exact SameRecord.setDir w _ _
  apply Act.durable_within
  · intro w
    exact (hp w).tick
  · intro w reached leftover
    split
    · exact ((hl w leftover).trans (hp _)).tick
    · exact (hl w leftover).tick

theorem durableCopy_record (source target : Path) :
    Within SameRecord (durableCopy env source target) := by
  refine Within.read fun w => ?_
  cases w.readFile source with
  | none => exact Within.fail _
  | some bytes => exact durablePublish_record env bytes target

theorem durableRemove_record (p : Path) : Within SameRecord (durableRemove env p) := by
  refine Within.read fun w => ?_
  split
  · apply Act.durable_within
    · intro w
      exact (SameRecord.setDir w _ _).tick
    · intro w reached leftover
      split
      · exact (SameRecord.setDir w _ _).tick
      · exact (SameRecord.refl w).tick
  · exact Within.pure ()

theorem durableMode_record (p : Path) : Within SameRecord (durableMode env p) :=
  Act.durable_within (fun w => (SameRecord.refl w).tick) fun w _ _ => (SameRecord.refl w).tick

theorem durableMove_record (source target : Path) :
    Within SameRecord (durableMove env source target) :=
  Within.bind (durableCopy_record env source target) fun _ => durableRemove_record env source

theorem pruneMatchingIn_record (place : Place) (start finish : String) (keep : Option String) :
    Within SameRecord (pruneMatchingIn env place start finish keep) :=
  Act.durable_within (fun w => (SameRecord.setDir w _ _).tick) fun w _ _ =>
    (SameRecord.setDir w _ _).tick

theorem pruneRollbacks_record (name : String) (keep : Option String) :
    Within SameRecord (pruneRollbacks env name keep) :=
  Within.read fun _ => pruneMatchingIn_record env _ _ _ _

theorem pruneCandidates_record (name : String) (keep : Option String) :
    Within SameRecord (pruneCandidates env name keep) :=
  Within.read fun _ => pruneMatchingIn_record env _ _ _ _

theorem pruneTransactionFiles_record : Within SameRecord (pruneTransactionFiles env) :=
  Within.bind (pruneMatchingIn_record env _ _ _ _) fun _ => pruneMatchingIn_record env _ _ _ _

theorem clearStaged_record (name : String) : Within SameRecord (clearStaged env name) :=
  pruneMatchingIn_record env _ _ _ _

theorem removeActive_record (name : String) : Within SameRecord (removeActive env name) :=
  Within.read fun _ =>
    Within.bind (durableRemove_record env _) fun _ => durableRemove_record env _

theorem hideLegacy_record (name : String) : Within SameRecord (hideLegacy env name) := by
  refine Within.read fun w => ?_
  dsimp only
  split
  · exact durableRemove_record env _
  · exact Within.pure ()

theorem installActive_record (source : Path) (name : String) :
    Within SameRecord (installActive env source name) :=
  Within.read fun _ =>
    Within.bind (hideLegacy_record env name) fun _ => durableCopy_record env source _

theorem sysextRefresh_record : Within SameRecord (sysextRefresh env) := by
  intro w
  unfold sysextRefresh
  dsimp only
  split <;> exact ⟨rfl, rfl, rfl, rfl⟩

theorem Quiet.record {α : Type} {m : Act ε α} (h : Quiet m) : Within SameRecord m :=
  (Returns.within h).mono fun _ _ => Later.sameRecord

theorem restoreKnownGood_record (name reason version : String) (image : Path) :
    Within SameRecord (restoreKnownGood env name reason version image) := by
  refine Within.bind (stopMerged_quiet env name).record fun _ => ?_
  refine Within.bind (Within.mapError (installActive_record env image name)) fun _ => ?_
  refine Within.bind (Within.mapError (sysextRefresh_record env)) fun _ => ?_
  refine Within.bind (Within.mapError (daemonReload_quiet env).record) fun _ => ?_
  refine Within.bind (Within.mapError (loadNamed_quiet env name).record) fun ruleset => ?_
  exact Within.mapError (healthyNow_quiet env ruleset).record

theorem retainActive_record (name version : String) :
    Within SameRecord (retainActive env name version) := by
  refine Within.read fun w => ?_
  split
  · exact Within.pure ()
  · exact durableCopy_record env _ _

/-- Writing the record changes no record in memory. -/
theorem store_memory : Within (fun w u => u.memory = w.memory) (store env) := by
  apply Act.durable_within
  · intro w
    rfl
  · intro w reached leftover
    split <;> rfl

end Records

/-- An extension the agent has given up on. -/
def Node.isTerminal (w : Node) (name : String) : Bool :=
  (w.memory.get name).any fun e => e.phase.isTerminal

/-- The record of an extension the agent gives up on. -/
def Node.refuse (w : Node) (name reason : String) : Node :=
  w.edit name fun e =>
    { e with
      phase := .unrecoverable
      lastFailure := some reason
      lastHealth := none
      terminalOsVersion := w.osVersion }

def Node.reverting (w : Node) (name reason : String) : Node :=
  w.edit name fun e => { e with phase := .reverting, lastFailure := some reason }

def Node.recovered (w : Node) (name reason version : String) : Node :=
  w.edit name fun e =>
    { e with
      phase := .recovered
      activeVersion := some version
      candidateVersion := none
      lastHealth := some "recovered"
      lastFailure := some reason
      terminalOsVersion := none }

/-- An edit that leaves the known-good version alone. -/
theorem knownGood_edit (w : Node) (name : String) {f : ExtensionState → ExtensionState}
    (hf : ∀ e, (f e).knownGoodVersion = e.knownGoodVersion) :
    ((w.edit name f).memory.get name).bind ExtensionState.knownGoodVersion =
      (w.memory.get name).bind ExtensionState.knownGoodVersion := by
  rw [edit_entry, Option.bind_some, hf]
  cases w.memory.get name <;> rfl

theorem knownGood_reverting (w : Node) (name reason : String) :
    ((w.reverting name reason).memory.get name).bind ExtensionState.knownGoodVersion =
      (w.memory.get name).bind ExtensionState.knownGoodVersion := by
  rw [Node.reverting, knownGood_edit]
  exact fun _ => rfl

theorem knownGood_recovered (w : Node) (name reason version : String) :
    ((w.recovered name reason version).memory.get name).bind ExtensionState.knownGoodVersion =
      (w.memory.get name).bind ExtensionState.knownGoodVersion := by
  rw [Node.recovered, knownGood_edit]
  exact fun _ => rfl

section Recovery
variable {env : Environment} {name reason version msg : String} {image : Path} {w u : Node}

theorem isTerminal_edit (w : Node) (name : String) (f : ExtensionState → ExtensionState) :
    (w.edit name f).isTerminal name = (f ((w.memory.get name).getD {})).phase.isTerminal := by
  rw [Node.isTerminal, edit_entry, Option.any_some]

theorem terminal_error (h : terminal env name reason w = .error msg u) :
    u.memory = (w.refuse name reason).memory := by
  have hf : (recordFailure name reason : Act String Unit) w = .ok () (w.refuse name reason) := rfl
  rw [terminal, Prog.bind_of_ok hf] at h
  rcases Prog.bind_eq_error.mp h with h | ⟨_, v, hv, h⟩
  · exact (Within.mapError (store_memory env)).of_error h
  · have hm := (Within.mapError (store_memory env)).of_ok hv
    cases h
    exact hm

theorem terminal_ne_ok : terminal env name reason w ≠ .ok () u := by
  intro h
  obtain ⟨_, v, -, h⟩ := Prog.bind_eq_ok.mp h
  obtain ⟨_, v', -, h⟩ := Prog.bind_eq_ok.mp h
  cases h

theorem isTerminal_refuse (w : Node) (name reason : String) :
    (w.refuse name reason).isTerminal name = true :=
  isTerminal_edit _ _ _

/-- The end of a recovery fails only where its record cannot be written. -/
theorem concludeRecovery_error (h : concludeRecovery env name reason version w = .error msg u) :
    ∃ e, store env (w.recovered name reason version) = .error e u := by
  rw [concludeRecovery, Prog.bind_of_ok (Act.entry_apply _ _ _)] at h
  rcases Prog.bind_eq_error.mp h with h | ⟨_, v, -, h⟩
  · obtain ⟨e, h, -⟩ := Prog.mapError_eq_error.mp h
    exact ⟨e, h⟩
  · rcases Prog.bind_eq_error.mp h with h | ⟨_, v, -, h⟩
    · exact absurd h Prog.attempt_ne_error
    · rcases Prog.bind_eq_error.mp h with h | ⟨_, v, -, h⟩
      · exact absurd h Prog.attempt_ne_error
      · cases h

/-- A recovery that comes to nothing because the record cannot be written, before
the image is put back or after. -/
inductive RecordLost (env : Environment) (name reason version : String) (w u : Node) : Prop where
  | before (e : String) (lost : store env (w.reverting name reason) = .error e u)
  | after (v v' : Node) (e : String)
      (began : store env (w.reverting name reason) = .ok () v)
      (restored : restoreKnownGood env name reason version (w.rollbackPath name version) v
        = .ok () v')
      (lost : store env (v'.recovered name reason version) = .error e u)

/-- The retained image was put back and turned out unusable. -/
def Tried (env : Environment) (name reason version : String) (w : Node) : Prop :=
  ∃ v message v', store env (w.reverting name reason) = .ok () v ∧
    restoreKnownGood env name reason version (w.rollbackPath name version) v = .error message v'

theorem revertTo_error
    (h : revertTo env name reason version (w.rollbackPath name version) w = .error msg u) :
    u.isTerminal name = true ∧ Tried env name reason version w ∨
      RecordLost env name reason version w u := by
  rw [revertTo, Prog.bind_of_ok (Act.entry_apply _ _ _)] at h
  rcases Prog.bind_eq_error.mp h with h | ⟨_, v, hv, h⟩
  · obtain ⟨e, h, -⟩ := Prog.mapError_eq_error.mp h
    exact Or.inr (.before e h)
  · have began := Prog.mapError_eq_ok.mp hv
    rcases Prog.bind_eq_error.mp h with h | ⟨restored, v', hr, h⟩
    · exact absurd h Prog.attempt_ne_error
    · rcases Prog.attempt_eq_ok.mp hr with ⟨_, rfl, tried⟩ | ⟨message, rfl, tried⟩
      · have h : concludeRecovery env name reason version v' = .error msg u := h
        obtain ⟨e, h⟩ := concludeRecovery_error h
        exact Or.inr (.after v v' e began tried h)
      · have h : terminal env name message v' = .error msg u := h
        refine Or.inl ⟨?_, v, message, v', began, tried⟩
        rw [Node.isTerminal, terminal_error h]
        exact isTerminal_refuse v' name message

/-- A recovery that fails has given up on the extension, after trying its known-good
image if that is there, unless a record was lost. -/
theorem recover_error (h : recover env name reason w = .error msg u) :
    (u.isTerminal name = true ∧ ∀ version,
      (w.memory.get name).bind ExtensionState.knownGoodVersion = some version →
        w.fileExists (w.rollbackPath name version) = true → Tried env name reason version w) ∨
      ∃ version, (w.memory.get name).bind ExtensionState.knownGoodVersion = some version ∧
        w.fileExists (w.rollbackPath name version) = true ∧
        RecordLost env name reason version w u := by
  have refused : ∀ message, terminal env name message w = .error msg u →
      u.isTerminal name = true := by
    intro message h
    rw [Node.isTerminal, terminal_error h]
    exact isTerminal_refuse w name message
  rw [recover, read_apply] at h
  cases hk : (w.memory.get name).bind ExtensionState.knownGoodVersion with
  | none =>
    simp only [hk] at h
    exact Or.inl ⟨refused _ h, nofun⟩
  | some version =>
    simp only [hk] at h
    split at h
    · rename_i hf
      rcases revertTo_error h with ⟨ht, tried⟩ | hl
      · refine Or.inl ⟨ht, fun v hv _ => ?_⟩
        cases hv
        exact tried
      · exact Or.inr ⟨version, rfl, hf, hl⟩
    · rename_i hf
      refine Or.inl ⟨refused _ h, fun v hv hx => ?_⟩
      cases hv
      exact absurd hx hf

/-- Where a record is lost the recovery fails, and nobody has given up. -/
theorem recover_of_lost
    (hk : (w.memory.get name).bind ExtensionState.knownGoodVersion = some version)
    (hf : w.fileExists (w.rollbackPath name version) = true)
    (hl : RecordLost env name reason version w u) :
    u.isTerminal name = false ∧ ∃ msg, recover env name reason w = .error msg u := by
  have start : recover env name reason w =
      revertTo env name reason version (w.rollbackPath name version) w := by
    rw [recover, read_apply]
    simp only [hk, if_pos hf]
  rw [start, revertTo, Prog.bind_of_ok (Act.entry_apply _ _ _)]
  cases hl with
  | before e lost =>
    refine ⟨?_, ?_⟩
    · rw [Node.isTerminal, (store_memory env).of_error lost]
      exact isTerminal_edit _ _ _
    · exact ⟨_, Prog.bind_of_error (Prog.mapError_eq_error.mpr ⟨e, lost, rfl⟩) _⟩
  | after v v' e began restored lost =>
    refine ⟨?_, ?_⟩
    · rw [Node.isTerminal, (store_memory env).of_error lost]
      exact isTerminal_edit _ _ _
    · refine ⟨s!"recovered onto {version}, but could not record it: {e}", ?_⟩
      refine Prog.bind_eq_error.mpr (Or.inr ⟨(), v, Prog.mapError_eq_ok.mpr began, ?_⟩)
      refine Prog.bind_eq_error.mpr (Or.inr ⟨.ok (), v', ?_, ?_⟩)
      · exact Prog.attempt_eq_ok.mpr (Or.inl ⟨(), rfl, restored⟩)
      · change concludeRecovery env name reason version v' = _
        rw [concludeRecovery, Prog.bind_of_ok (Act.entry_apply _ _ _)]
        exact Prog.bind_of_error (Prog.mapError_eq_error.mpr ⟨e, lost, rfl⟩) _

end Recovery
end CarbideOS.Agent
