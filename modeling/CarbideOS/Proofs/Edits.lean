import CarbideOS.Proofs.Events

namespace CarbideOS.Agent
open Interruptible

/-! The changes the agent makes to the entry of an extension. What each of these changes
preserves, every program of the agent preserves. -/

/-- The entry of a proven candidate. -/
def ExtensionState.committed (version : String) (requestId : Option String)
    (e : ExtensionState) : ExtensionState :=
  let e := { e with
    phase := .active
    terminalOsVersion := none
    activeVersion := some version
    candidateVersion := none
    lastHealth := some "healthy"
    lastFailure := none
    required := true }
  match requestId with
  | some id => e.recordCompleted id
  | none => e

/-- The part of the agent that makes a change. -/
inductive Origin where
  | recovery | gate | reconcile | activation | staging | adoption | operator
  deriving DecidableEq, Repr

/-- The changes by the part that makes them, except the commit of an activation. `named`
are the versions a caller may give; any other version has been checked. -/
inductive Edit (named : String → Prop) : Origin → ExtensionState → ExtensionState → Prop where
  | refused (e : ExtensionState) (reason : String) (osVersion : Option String) :
      Edit named .recovery e
        { e with
          phase := .unrecoverable
          lastFailure := some reason
          lastHealth := none
          terminalOsVersion := osVersion }
  | reverting (e : ExtensionState) (reason : String) :
      Edit named .recovery e { e with phase := .reverting, lastFailure := some reason }
  | recovered (e : ExtensionState) (reason version : String)
      (known : e.knownGoodVersion = some version) :
      Edit named .recovery e
        { e with
          phase := .recovered
          activeVersion := some version
          candidateVersion := none
          lastHealth := some "recovered"
          lastFailure := some reason
          terminalOsVersion := none }
  | retained (e : ExtensionState) (version : String) (valid : versionValid version = true) :
      Edit named .gate e
        { e with
          activeVersion := some version
          knownGoodVersion := some version
          candidateVersion := none }
  | healthy (e : ExtensionState) :
      Edit named .gate e
        { e with
          phase := .active
          terminalOsVersion := none
          lastHealth := some "healthy"
          lastFailure := none }
  | removed (e : ExtensionState) :
      Edit named .reconcile e
        { e with
          phase := .idle
          activeVersion := none
          knownGoodVersion := none
          candidateVersion := none
          lastHealth := none
          lastFailure := none }
  | unstaged (e : ExtensionState) (active : Bool) :
      Edit named .reconcile e
        { e with
          candidateVersion := none
          phase := if active then .active else .idle
          activeVersion := if !active && !e.required then none else e.activeVersion
          knownGoodVersion := if !active && !e.required then none else e.knownGoodVersion
          lastFailure := some "staged candidate disappeared before activation" }
  | forgotten (e : ExtensionState) :
      Edit named .reconcile e { forgetVersions e with phase := .idle }
  | unversioned (e : ExtensionState) : Edit named .reconcile e (forgetVersions e)
  | adopted (e : ExtensionState) (version : String)
      (valid : versionValid version = true ∨ named version) :
      Edit named .adoption e
        { e with
          required := true
          activeVersion := some version
          knownGoodVersion := some version
          phase := .active
          terminalOsVersion := none
          lastHealth := some "healthy"
          lastFailure := none }
  | activating (e : ExtensionState) (version : String) (requestId : Option String)
      (given : named version) :
      Edit named .activation e (e.activating version requestId e.activeVersion)
  | starting (e : ExtensionState) : Edit named .activation e { e with phase := .starting }
  | soaking (e : ExtensionState) : Edit named .activation e { e with phase := .soaking }
  | staged (e : ExtensionState) (version : String) (valid : versionValid version = true) :
      Edit named .staging e { e with candidateVersion := some version, phase := .staged }
  | removing (e : ExtensionState) :
      Edit named .operator e { e with required := false, phase := .removing }
  | requires (e : ExtensionState) (required : Bool) :
      Edit named .operator e { e with required := required }
  | reset (e : ExtensionState) :
      Edit named .operator e { e with phase := .idle, lastFailure := none, lastHealth := none }
  | forgiven (e : ExtensionState) (refused : e.phase = .unrecoverable) :
      Edit named .reconcile e (State.forgetTerminal e)

/-- A relation that includes the changes of a part of the agent. -/
def Includes (G : ExtensionState → ExtensionState → Prop) (named : String → Prop)
    (o : Origin) : Prop :=
  ∀ e e', Edit named o e e' → G e e'

namespace Node

/-- The entry the running command sees; a name without one has a blank entry. -/
def held (w : Node) (name : String) : ExtensionState := (w.memory.get name).getD {}

/-- The entry on disk. -/
def kept (w : Node) (name : String) : ExtensionState := (w.stored.get name).getD {}

end Node

/-- Each entry of an extension comes from one of those before. -/
structure Moved (G : ExtensionState → ExtensionState → Prop) (name : String) (w u : Node) :
    Prop where
  held : G (w.held name) (u.held name) ∨ G (w.kept name) (u.held name)
  kept : G (w.held name) (u.kept name) ∨ G (w.kept name) (u.kept name)

section
variable {G : ExtensionState → ExtensionState → Prop} [IsPreorder ExtensionState G]
  {name other : String} {w u : Node}

instance : IsPreorder Node (Moved G name) where
  refl w := ⟨Or.inl (Std.Refl.refl _), Or.inr (Std.Refl.refl _)⟩
  trans w u v h h' := by
    have chain : ∀ e, G (u.held name) e ∨ G (u.kept name) e → G (w.held name) e ∨
        G (w.kept name) e := by
      intro e he
      rcases he with he | he
      · exact h.held.imp (fun hw => IsTrans.trans _ _ _ hw he) fun hw => IsTrans.trans _ _ _ hw he
      · exact h.kept.imp (fun hw => IsTrans.trans _ _ _ hw he) fun hw => IsTrans.trans _ _ _ hw he
    exact ⟨chain _ h'.held, chain _ h'.kept⟩

theorem Moved.refl (w : Node) : Moved G name w w := Std.Refl.refl w

theorem SameRecord.moved (h : SameRecord w u) : Moved G name w u := by
  have held : u.held name = w.held name := by rw [Node.held, h.memory, Node.held]
  have kept : u.kept name = w.kept name := by rw [Node.kept, h.stored, Node.kept]
  refine ⟨Or.inl ?_, Or.inr ?_⟩
  · rw [held]
    exact Std.Refl.refl _
  · rw [kept]
    exact Std.Refl.refl _

theorem held_edit (w : Node) (name : String) (f : ExtensionState → ExtensionState) :
    (w.edit name f).held name = f (w.held name) := by
  rw [Node.held, edit_entry]
  rfl

theorem Moved.edit {f : ExtensionState → ExtensionState} (h : G (w.held name) (f (w.held name))) :
    Moved G name w (w.edit name f) := by
  refine ⟨Or.inl ?_, Or.inr (Std.Refl.refl _)⟩
  rw [held_edit]
  exact h

theorem Moved.saved (w : Node) : Moved G name w w.saved :=
  ⟨Or.inl (Std.Refl.refl _), Or.inl (Std.Refl.refl _)⟩

/-- Taking the record from disk. -/
theorem Moved.load (w : Node) : Moved G name w { w with memory := w.stored } :=
  ⟨Or.inr (Std.Refl.refl _), Or.inr (Std.Refl.refl _)⟩

theorem Aside.moved (h : Aside other w u) (hne : name ≠ other) :
    Moved G name w u := by
  refine ⟨?_, ?_⟩
  · rcases h.memory name hne with he | he
    · left
      rw [Node.held, Node.held, he]
      exact Std.Refl.refl _
    · right
      rw [Node.held, Node.kept, he]
      exact Std.Refl.refl _
  · rcases h.stored name hne with he | he
    · right
      rw [Node.kept, Node.kept, he]
      exact Std.Refl.refl _
    · left
      rw [Node.kept, Node.held, he]
      exact Std.Refl.refl _

variable (env : Environment) {named : String → Prop} {ε α : Type}

theorem record_moved {m : Act ε α} (h : Within SameRecord m) : Within (Moved G name) m :=
  h.mono fun _ _ => SameRecord.moved

theorem quiet_moved {m : Act ε α} (h : Quiet m) : Within (Moved G name) m :=
  record_moved h.record

theorem store_moved : Within (Moved G name) (store env) := by
  apply Act.durable_within
  · exact fun w => Moved.saved w
  · intro w reached leftover
    split
    · exact Moved.saved w
    · exact SameRecord.moved (SameRecord.refl w).tick

theorem note_moved (image : Option Bytes) (verdict : Verdict) :
    Within (Moved G name) (Act.note name image verdict : Act ε Unit) := by
  intro w
  cases image <;> exact ⟨Or.inl (Std.Refl.refl _), Or.inr (Std.Refl.refl _)⟩

theorem entry_moved {f : ExtensionState → ExtensionState} (h : ∀ e, G e (f e)) :
    Within (Moved G name) (Act.entry name f : Act ε Unit) := fun _ => Moved.edit (h _)

/-- A program that works on the record it finds on disk. -/
theorem loaded_moved {f : State → Act ε α} {load : Act ε State}
    (hl : ∀ w s u, load w = .ok s u → s = w.stored) (hq : Quiet load)
    (hf : ∀ s, Within (Moved G name) (f s)) :
    Within (Moved G name) (load >>= fun s => Act.hold s >>= fun _ => f s) := by
  intro w
  refine Within.bind_at (quiet_moved hq w) fun s u hu => ?_
  obtain ⟨t, rfl⟩ := hq.of_ok hu
  obtain rfl := hl w s _ hu
  rw [Prog.bind_of_ok (Act.hold_apply _ _)]
  exact IsTrans.trans _ _ _ (Moved.load (w.clock t)) (hf _ _)

section Recovery
variable (recovery : Includes G named .recovery)
include recovery

theorem terminal_moved (reason : String) : Within (Moved G name) (terminal env name reason) := by
  refine Within.bind ?_ fun _ => Within.bind (Within.mapError (store_moved env)) fun _ =>
    Within.fail _
  exact Within.read fun w => entry_moved fun e => recovery _ _ (.refused e reason w.osVersion)

theorem concludeRecovery_moved {version : String} (reason : String)
    (known : (w.held name).knownGoodVersion = some version) :
    Moved G name w (concludeRecovery env name reason version w).state := by
  have recorded : Moved G name w (w.recovered name reason version) :=
    Moved.edit (recovery _ _ (.recovered _ reason version known))
  refine IsTrans.trans _ _ _ recorded ?_
  refine Within.bind (Within.mapError (store_moved env)) (fun _ => ?_)
    (w.recovered name reason version)
  refine Within.bind (Within.attempt (record_moved (pruneCandidates_record env _ _))) fun _ => ?_
  refine Within.bind (Within.attempt (record_moved (pruneRollbacks_record env _ _))) fun _ => ?_
  exact Within.pure ()

theorem revertTo_moved {version : String} (reason : String) (image : Path)
    (known : (w.held name).knownGoodVersion = some version) :
    Moved G name w (revertTo env name reason version image w).state := by
  have recorded : Moved G name w (w.reverting name reason) :=
    Moved.edit (recovery _ _ (.reverting _ reason))
  have same : ((w.reverting name reason).held name).knownGoodVersion = some version := by
    rw [Node.reverting, held_edit]
    exact known
  refine IsTrans.trans _ _ _ recorded ?_
  change Moved G name _ ((Prog.mapError _ (store env) >>= fun _ =>
    Prog.attempt (restoreKnownGood env name reason version image) >>= _)
      (w.reverting name reason)).state
  refine Within.bind_at ?_ fun _ v hv => ?_
  · rw [Prog.mapError_state]
    exact store_moved env _
  · have memory : v.memory = (w.reverting name reason).memory :=
      (store_memory env).of_ok (Prog.mapError_eq_ok.mp hv)
    have restored : Within SameRecord
        (Prog.attempt (restoreKnownGood env name reason version image) : Act String _) :=
      Within.attempt (restoreKnownGood_record env name reason version image)
    refine Within.bind_at (SameRecord.moved (restored v)) fun result x hx => ?_
    cases result with
    | error message => exact terminal_moved env recovery message x
    | ok _ =>
      apply concludeRecovery_moved env recovery
      rw [Node.held, (restored.of_ok hx).memory, memory]
      exact same

theorem recover_moved (reason : String) : Within (Moved G name) (recover env name reason) := by
  intro w
  rw [recover, read_apply]
  cases known : (w.memory.get name).bind ExtensionState.knownGoodVersion with
  | none => exact terminal_moved env recovery _ w
  | some version =>
    have held : (w.held name).knownGoodVersion = some version := by
      obtain ⟨e, recorded, version⟩ := Option.bind_eq_some_iff.mp known
      rw [Node.held, recorded]
      exact version
    dsimp only
    split
    · exact revertTo_moved env recovery reason _ held
    · exact terminal_moved env recovery _ w

end Recovery

theorem mergedVersion_valid {version : String}
    (h : (mergedVersion env name : Act ε _) w = .ok (some version) u) :
    versionValid version = true := by
  have answer : ((env.extensionRelease name w).bind mergedVersionIn) = some version := by
    injection h
  obtain ⟨contents, -, found⟩ := Option.bind_eq_some_iff.mp answer
  obtain ⟨line, -, valid⟩ := List.exists_of_findSome?_eq_some found
  exact (Option.filter_eq_some_iff.mp valid).2

theorem adoptActive_moved (adoption : Includes G named .adoption) {version : String}
    (valid : versionValid version = true ∨ named version) :
    Within (Moved G name) (adoptActive env name version) := by
  refine Within.bind (Within.mapError (quiet_moved (loadNamed_quiet env name))) fun r => ?_
  refine Within.read fun v => ?_
  refine Within.bind (Within.demand _ _) fun _ => ?_
  refine Within.bind (Within.mapError (quiet_moved (healthyNow_quiet env r))) fun _ => ?_
  refine Within.bind (Within.mapError (record_moved (retainActive_record env name version)))
    fun _ => ?_
  refine Within.bind (entry_moved fun e => adoption _ _ (.adopted e version valid)) fun _ => ?_
  exact Within.mapError (store_moved env)

section Gate
variable (gate : Includes G named .gate)
include gate

theorem retainHealthy_moved {version : String} (valid : versionValid version = true)
    (ruleset : Ruleset) : Within (Moved G name) (retainHealthy env name version ruleset) := by
  refine Within.bind (quiet_moved (soak_quiet env ruleset)) fun _ => ?_
  refine Within.read fun v => ?_
  refine Within.bind (note_moved _ _) fun _ => ?_
  refine Within.bind (Within.mapError (record_moved (durableCopy_record env _ _))) fun _ => ?_
  exact entry_moved fun e => gate _ _ (.retained e version valid)

theorem retainMerged_moved (ruleset : Ruleset) :
    Within (Moved G name) (retainMerged env name ruleset) := by
  intro w
  refine Within.bind_at (quiet_moved (mergedVersion_quiet env name) w) fun version v hv => ?_
  cases version with
  | none => exact Moved.refl v
  | some version =>
    have valid := mergedVersion_valid env hv
    refine Within.read (fun x => ?_) v
    dsimp only
    split
    · exact retainHealthy_moved env gate valid ruleset
    · exact Within.pure ()

theorem verifyOrRecover_moved (recovery : Includes G named .recovery) (merged : List String) :
    Within (Moved G name) (verifyOrRecover env name merged) := by
  refine Within.read fun v => ?_
  split
  · exact Within.fail _
  · refine Within.bind (Within.attempt (quiet_moved (loadNamed_quiet env name))) fun r => ?_
    cases r with
    | error e => exact recover_moved env recovery _
    | ok ruleset =>
      dsimp only
      split
      · exact recover_moved env recovery _
      · refine Within.bind (Within.attempt (quiet_moved (healthyNow_quiet env ruleset))) fun h => ?_
        cases h with
        | error reason => exact recover_moved env recovery reason
        | ok _ =>
          refine Within.bind (retainMerged_moved env gate ruleset) fun _ => ?_
          exact entry_moved fun e => gate _ _ (.healthy e)

end Gate

section Reconcile
variable (reconcile : Includes G named .reconcile)
include reconcile

theorem completeRemoval_moved : Within (Moved G name) (completeRemoval env name) := by
  refine Within.bind (quiet_moved (stopMerged_quiet env name)) fun _ => ?_
  refine Within.bind (record_moved (removeActive_record env name)) fun _ => ?_
  refine Within.bind (record_moved (sysextRefresh_record env)) fun _ => ?_
  refine Within.bind (quiet_moved (daemonReload_quiet env)) fun _ => ?_
  refine Within.bind (record_moved (pruneCandidates_record env name none)) fun _ => ?_
  refine Within.bind (record_moved (pruneRollbacks_record env name none)) fun _ => ?_
  exact entry_moved fun e => reconcile _ _ (.removed e)

omit reconcile in
theorem reportCandidates_moved : Within (Moved G name) (reportCandidates env name : Act ε _) :=
  report_within (record_moved (pruneCandidates_record env name none)) _

theorem reconcileStaged_moved (candidate : Option String) :
    Within (Moved G name) (reconcileStaged name candidate : Act ε _) := by
  refine Within.read fun v => ?_
  split
  · exact Within.pure _
  · exact Within.bind (entry_moved fun e => reconcile _ _ (.unstaged e _)) fun _ => Within.pure _

theorem reconcileActive_moved (recovery : Includes G named .recovery) :
    Within (Moved G name) (reconcileActive env name : Act ε _) := by
  refine Within.read fun v => ?_
  split
  · exact reportCandidates_moved env
  · split
    · refine Within.bind (report_within (recover_moved env recovery _) _) fun _ => ?_
      exact Within.bind (reportCandidates_moved env) fun _ => Within.pure _
    · refine Within.bind (entry_moved fun e => reconcile _ _ (.forgotten e)) fun _ => ?_
      exact reportCandidates_moved env

theorem reconcileIdle_moved : Within (Moved G name) (reconcileIdle env name : Act ε _) := by
  refine Within.read fun v => ?_
  split
  · refine Within.bind (entry_moved fun e => reconcile _ _ (.unversioned e)) fun _ => ?_
    exact reportCandidates_moved env
  · exact reportCandidates_moved env

theorem reconcileEntry_moved (recovery : Includes G named .recovery) (s : Snapshot) :
    Within (Moved G s.name) (reconcileEntry env s : Act ε _) := by
  have recovered : ∀ reason message,
      Within (Moved G s.name) (report message (recover env s.name reason) : Act ε _) :=
    fun reason _ => report_within (recover_moved env recovery reason) _
  refine Within.bind ?_ fun _ => Within.bind
    (report_within (record_moved (pruneRollbacks_record env _ _)) _) fun _ => Within.pure _
  unfold reconcilePhase
  dsimp only
  split
  · exact reconcileStaged_moved reconcile _
  · exact recovered _ _
  · exact recovered _ _
  · exact recovered _ _
  · exact recovered _ _
  · exact report_within (completeRemoval_moved env reconcile) _
  · exact reconcileActive_moved env reconcile recovery
  · exact reconcileActive_moved env reconcile recovery
  · exact reconcileIdle_moved env reconcile
  · exact reportCandidates_moved env

theorem reconcileRecord_moved (recovery : Includes G named .recovery) :
    Within (Moved G name) (reconcileRecord env) := by
  refine Within.read fun v => ?_
  refine Within.bind (reconcileEntries_within env fun s _ => ?_) fun _ => ?_
  · by_cases own : s.name = name
    · subst own
      exact reconcileEntry_moved env reconcile recovery s
    · exact (reconcileEntry_sober env s).mono fun _ _ h => h.toBeside.aside.moved (Ne.symm own)
  · refine Within.bind (record_moved ((reconcileOrphans_tidied env _).mono fun _ _ h =>
      h.toSameRecord)) fun _ => ?_
    exact Within.bind (store_moved env) fun _ => Within.demand _ _

end Reconcile

section Activation
variable (recovery : Includes G named .recovery) (adoption : Includes G named .adoption)
  (activation : Includes G named .activation) {version : String} {requestId : Option String}
  (given : named version) (commits : ∀ e, G e (e.committed version requestId))

include adoption in
theorem adoptUnrecorded_moved : Within (Moved G name) (adoptUnrecorded env name) := by
  refine Within.read fun v => ?_
  split
  · intro w
    refine Within.bind_at (quiet_moved (mergedVersion_quiet env name) w) fun version x hx => ?_
    cases version with
    | none => exact Moved.refl x
    | some version =>
      have valid := mergedVersion_valid env hx
      refine Within.bind (Within.attempt (adoptActive_moved env adoption (Or.inl valid)))
        (fun result => ?_) x
      cases result with
      | ok _ => exact Within.pure ()
      | error e =>
        cases e with
        | noRuleset _ => exact Within.pure ()
        | failed _ => exact Within.fail _
  · exact Within.pure ()

include activation given in
theorem recordActivating_moved :
    Moved G name w
      (recordActivating env name version requestId (w.held name).activeVersion w).state := by
  have recorded : Moved G name w
      (w.activating name version requestId (w.held name).activeVersion) :=
    Moved.edit (activation _ _ (.activating _ version requestId given))
  refine IsTrans.trans _ _ _ recorded ?_
  rw [recordActivating_apply]
  exact failedAt_within (store_moved env) .staging _

theorem judged_moved (image : Option Bytes) {m : Act String Unit} (h : Quiet m)
    (setback : String → Setback) : Within (Moved G name) (judged name image m setback) := by
  refine Within.bind (Within.attempt (quiet_moved h)) fun result => ?_
  cases result with
  | ok _ => exact Within.pure ()
  | error reason => exact Within.bind (note_moved _ _) fun _ => Within.fail _

theorem promote_moved (candidate : Path) : Within (Moved G name) (promote env name candidate) := by
  refine Within.bind (Within.mapError (quiet_moved (stopCurrent_quiet env name))) fun _ => ?_
  refine Within.bind (Within.mapError (record_moved (installActive_record env candidate name)))
    fun _ => ?_
  refine Within.bind (Within.mapError (record_moved (sysextRefresh_record env))) fun _ => ?_
  refine Within.bind (Within.mapError (quiet_moved (daemonReload_quiet env))) fun _ => ?_
  exact Within.mapError (quiet_moved (loadNamed_quiet env name))

include activation in
theorem prove_moved (image : Option Bytes) (ruleset : Ruleset) :
    Within (Moved G name) (prove env name image ruleset) := by
  refine Within.bind (entry_moved fun e => activation _ _ (.starting e)) fun _ => ?_
  refine Within.bind (Within.mapError (store_moved env)) fun _ => ?_
  refine Within.bind (judged_moved _ (waitUntilReady_quiet env ruleset) _) fun _ => ?_
  refine Within.bind (entry_moved fun e => activation _ _ (.soaking e)) fun _ => ?_
  refine Within.bind (Within.mapError (store_moved env)) fun _ => ?_
  refine Within.bind (judged_moved _ (soak_quiet env ruleset) _) fun _ => ?_
  exact note_moved _ _

include commits in
theorem commit_moved (unit : String) :
    Within (Moved G name) (commit env name version requestId unit) := by
  intro w
  have recorded : Moved G name w (w.committed name version requestId) :=
    Moved.edit (commits _)
  have stored : Moved G name _ _ := store_moved env (w.committed name version requestId)
  rw [commit_apply]
  cases h : store env (w.committed name version requestId) with
  | ok a u =>
    rw [h] at stored
    exact IsTrans.trans _ _ _ recorded stored
  | halt u =>
    rw [h] at stored
    exact IsTrans.trans _ _ _ recorded stored
  | error e u =>
    rw [h] at stored
    -- the record in memory is the one from before the commit again
    exact ⟨Or.inl (Std.Refl.refl _), (IsTrans.trans _ _ _ recorded stored : Moved G name w u).kept⟩

include activation commits in
theorem tryCandidate_moved (candidate : Path) :
    Within (Moved G name) (tryCandidate env name version requestId candidate) := by
  refine Within.read fun v => ?_
  refine Within.bind (note_moved _ _) fun _ => ?_
  refine Within.bind (promote_moved env candidate) fun ruleset => ?_
  refine Within.bind (prove_moved env activation _ ruleset) fun _ => ?_
  exact commit_moved env commits _

include recovery in
theorem revertSetback_moved (setback : Setback) :
    Within (Moved G name) (revertSetback env name setback) := by
  refine Within.bind (quiet_moved (journalLines_quiet env _)) fun log => ?_
  refine Within.bind (Within.attempt (recover_moved env recovery _)) fun result => ?_
  cases result <;> exact Within.fail _

include recovery activation commits in
theorem activateRecorded_moved (previous : Option String) (candidate : Path) :
    Within (Moved G name) (activateRecorded env name version requestId previous candidate) := by
  refine Within.bind (Within.attempt
    (tryCandidate_moved env activation commits candidate)) fun result => ?_
  cases result with
  | error setback => exact revertSetback_moved env recovery setback
  | ok _ =>
    refine Within.bind (Within.attempt (record_moved (pruneCandidates_record env _ _))) fun _ => ?_
    refine Within.bind (Within.attempt (record_moved (pruneRollbacks_record env _ _))) fun _ => ?_
    exact Within.pure _

include recovery adoption activation given commits in
theorem activateCandidate_moved :
    Within (Moved G name) (activateCandidate env name version requestId) := by
  intro w
  refine Within.bind_at (adoptUnrecorded_moved env adoption w) fun _ v _ => ?_
  rw [read_apply]
  have known : (v.memory.get name).bind ExtensionState.activeVersion =
      (v.held name).activeVersion := by
    unfold Node.held
    cases v.memory.get name <;> rfl
  have quiet : ∀ {β : Type} {m : Act Failure β} {f : β → Act Failure Activation} {x : Node},
      Quiet m → (∀ b t, Moved G name (x.clock t) (f b (x.clock t)).state) →
        Moved G name x ((m >>= f) x).state := by
    intro β m f x hm hf
    refine Within.bind_at (quiet_moved hm x) fun b y hy => ?_
    obtain ⟨t, rfl⟩ := hm.of_ok hy
    exact hf b t
  rw [known]
  refine quiet (failedAt_quiet (fileSize_quiet env _) _) fun size t₁ => ?_
  refine quiet (outgoingSize_quiet env _ _) fun outgoing t₂ => ?_
  refine quiet (requireActivationSpace_quiet env _) fun _ t₃ => ?_
  have same : (((v.clock t₁).clock t₂).clock t₃).held name = v.held name := rfl
  generalize ((v.clock t₁).clock t₂).clock t₃ = x at same ⊢
  have retained := (@retainOutgoing_retains env name (v.held name).activeVersion x).toSameRecord
  refine Within.bind_at retained.moved fun _ y hy => ?_
  rw [hy] at retained
  have unchanged : (y.held name).activeVersion = (v.held name).activeVersion := by
    have memory : y.memory = x.memory := retained.memory
    rw [← same, Node.held, Node.held, memory]
  rw [← unchanged]
  refine Within.bind_at (recordActivating_moved env activation given) fun _ z _ => ?_
  exact activateRecorded_moved env recovery activation commits _ _ z

include recovery adoption activation given commits in
theorem activateExtension_moved :
    Within (Moved G name) (activateExtension env name version requestId) := by
  refine loaded_moved (fun _ _ _ => loadState_mapped env)
    (Returns.mapError (loadState_quiet env) _) fun s => ?_
  refine Within.read fun v => ?_
  split
  · exact Within.pure _
  · dsimp only
    split
    · exact activateCandidate_moved env recovery adoption activation given commits
    · exact Within.fail _

end Activation

section Staging
variable (staging : Includes G named .staging)
include staging

theorem recordStaged_moved {version : String} (valid : versionValid version = true)
    (target : Path) :
    Within (Moved G name) (recordStaged env name version target) := by
  refine loaded_moved (fun _ _ _ => loadState_mapped env)
    (Returns.mapError (loadState_quiet env) _) fun s => ?_
  refine Within.bind (entry_moved fun e => staging _ _ (.staged e version valid)) fun _ => ?_
  refine Within.bind (Within.attempt (store_moved env)) fun result => ?_
  cases result with
  | ok _ => exact Within.pure ()
  | error e =>
    exact Within.bind (Within.attempt (record_moved (durableRemove_record env target))) fun _ =>
      Within.fail _

theorem validateAndPlace_moved (requested : Option String) (image : Path) :
    Within (Moved G name) (validateAndPlace env name requested image) := by
  refine Within.read fun _ => ?_
  refine Within.bind (quiet_moved (validateImage_quiet env _)) fun _ => ?_
  refine Within.bind (quiet_moved (imageRelease_quiet env _)) fun release => ?_
  refine Within.bind (quiet_moved (checkRelease_quiet _ _)) fun base => ?_
  refine Within.read fun v => ?_
  refine Within.bind (quiet_moved (placement_quiet _ _ _)) fun target => ?_
  refine Within.bind (quiet_moved (requirePlacementSpace_quiet env _ _)) fun _ => ?_
  refine Within.bind ?_ fun _ => Within.bind ?_ fun _ => Within.bind ?_ fun _ => Within.pure _
  · unfold clearCandidates
    split
    · exact Within.mapError (record_moved (pruneCandidates_record env name none))
    · exact Within.pure ()
  · refine Within.bind (Within.mapError (record_moved (durableMode_record env _))) fun _ => ?_
    exact Within.mapError (record_moved (durableMove_record env _ _))
  · unfold recordPlaced
    split
    · rename_i version _ declared
      exact recordStaged_moved env staging (Option.filter_eq_some_iff.mp declared).2 target
    · exact Within.pure ()

theorem placeAcquired_moved (base selected : String) (finished : Finished) :
    Within (Moved G name) (placeAcquired env name base selected finished) := by
  refine Within.read fun _ => ?_
  refine Within.bind (Within.demand _ _) fun _ => ?_
  refine Within.bind (quiet_moved (failedAt_quiet (fileSize_quiet env _) _)) fun size => ?_
  refine Within.bind (Within.demand _ _) fun _ => ?_
  exact validateAndPlace_moved env staging _ _

theorem acquire_moved (base : String) (version : Option String) :
    Within (Moved G name) (acquire env name base version) := by
  have cleared : Within (Moved G name) (Prog.attempt (clearStaged env name) : Act Failure _) :=
    Within.attempt (record_moved (clearStaged_record env name))
  refine Within.bind (quiet_moved (acquireVersion_quiet env base version)) fun selected => ?_
  refine Within.bind (Within.mapError ?_) fun finished => ?_
  · intro w
    unfold acquireComponent
    cases env.acquire name selected w with
    | error e => exact SameRecord.moved (SameRecord.refl w).tick
    | ok answer => exact SameRecord.moved ⟨rfl, rfl, rfl, rfl⟩
  split
  · refine Within.bind (Within.attempt (placeAcquired_moved env staging _ _ _)) fun placed => ?_
    refine Within.bind cleared fun _ => ?_
    cases placed with
    | ok p => exact Within.pure _
    | error e => exact Within.fail _
  · exact Within.bind cleared fun _ => Within.fail _

theorem supplied_moved (base : Option String) (path digest : String) :
    Within (Moved G name) (supplied env name base path digest) := by
  refine Within.bind (Within.demand _ _) fun _ => ?_
  refine Within.bind (quiet_moved (openSource_quiet env _)) fun size => ?_
  refine Within.read fun w => ?_
  refine Within.bind ?_ fun rollbackSize => ?_
  · split
    · exact quiet_moved (failedAt_quiet (missingRollbackSize_quiet env) _)
    · exact Within.pure _
  have own : ∀ {β : Type} {m : Act Failure β}, Within (OwnFiles name) m → Within (Moved G name) m :=
    fun h => record_moved (h.mono fun _ _ own => own.toSameRecord)
  refine Within.bind (quiet_moved (requireSpace_quiet env _)) fun _ => ?_
  refine Within.bind (own (Within.mapError (copySource_own env _ _ _))) fun _ => ?_
  refine Within.bind (own (checkDigest_own env _ _)) fun _ => ?_
  refine Within.bind (Within.attempt (validateAndPlace_moved env staging _ _)) fun placed => ?_
  refine Within.bind (own (Within.attempt (durableRemove_staging env _))) fun _ => ?_
  cases placed with
  | ok p => exact Within.pure _
  | error e => exact Within.fail _

theorem stageExtension_moved (base : Option String) (source : Source) :
    Within (Moved G name) (stageExtension env name base source) := by
  refine Within.bind (Within.demand _ _) fun _ => ?_
  cases source with
  | supplied path digest => exact supplied_moved env staging _ _ _
  | acquire version =>
    refine Within.bind ?_ fun base => acquire_moved env staging base version
    cases base with
    | some base => exact Within.pure _
    | none => exact quiet_moved (targetBase_quiet none)

end Staging

section Operators
variable (operator : Includes G named .operator)
include operator

/-- A command that edits one entry and writes the record. -/
theorem edited_moved {f : ExtensionState → ExtensionState}
    (hf : ∀ e, Edit named .operator e (f e)) :
    Within (Moved G name) (loadState env >>= fun state => Act.hold state >>= fun _ =>
      Act.entry name f >>= fun _ => store env) := by
  refine loaded_moved (fun _ _ _ => loadState_eq env) (loadState_quiet env) fun s => ?_
  exact Within.bind (entry_moved fun e => operator _ _ (hf e)) fun _ => store_moved env

theorem removeExtension_moved (reconcile : Includes G named .reconcile) (rest : List String) :
    Within (Moved G name) (removeExtension env (name :: rest)) := by
  refine loaded_moved (fun _ _ _ => loadState_eq env) (loadState_quiet env) fun s => ?_
  refine Within.bind (entry_moved fun e => operator _ _ (.removing e)) fun _ => ?_
  refine Within.bind (store_moved env) fun _ => ?_
  exact Within.bind (completeRemoval_moved env reconcile) fun _ => store_moved env

end Operators

theorem rollbackCommand_moved (recovery : Includes G named .recovery) (rest : List String) :
    Within (Moved G name) (rollbackCommand env (name :: rest)) := by
  refine loaded_moved (fun _ _ _ => loadState_eq env) (loadState_quiet env) fun s => ?_
  refine Within.bind (Within.attempt (recover_moved env recovery _)) fun result => ?_
  refine Within.bind (store_moved env) fun _ => ?_
  cases result with
  | ok _ => exact Within.pure ()
  | error e => exact Within.fail e

/-- The entry on disk comes from a given one. -/
def Descends (G : ExtensionState → ExtensionState → Prop) (name : String) (d : ExtensionState)
    (w : Node) : Prop :=
  G d (w.kept name)

/-- And so does the entry in memory. -/
def DescendsInMemory (G : ExtensionState → ExtensionState → Prop) (name : String)
    (d : ExtensionState) (w : Node) : Prop :=
  G d (w.held name) ∧ G d (w.kept name)

variable {d : ExtensionState}

theorem Moved.descends (h : Moved G name w u) (hw : DescendsInMemory G name d w) :
    DescendsInMemory G name d u :=
  ⟨h.held.elim (IsTrans.trans _ _ _ hw.1) (IsTrans.trans _ _ _ hw.2),
    h.kept.elim (IsTrans.trans _ _ _ hw.1) (IsTrans.trans _ _ _ hw.2)⟩

theorem moved_descends {m : Act ε α} (h : Within (Moved G name) m) :
    Keeps (DescendsInMemory G name d) m :=
  within_preserves_iff.mp (h.mono fun _ _ moved => moved.descends)

/-- The record taken into memory, without the refusals of another base. -/
theorem recall_descends (reconcile : Includes G named .reconcile) (hw : Descends G name d w) :
    DescendsInMemory G name d w.recall := by
  refine ⟨?_, hw⟩
  have held : w.recall.held name = (w.remembered.get name).getD {} := rfl
  cases remembered : w.remembered.get name with
  | none =>
    have missing := get_remembered w name
    rw [remembered] at missing
    cases stored : w.stored.get name with
    | some e =>
      rw [stored] at missing
      cases missing
    | none =>
      rw [held, remembered]
      rw [Descends, Node.kept, stored] at hw
      exact hw
  | some e =>
    obtain ⟨d', stored, same⟩ := remembered_entry remembered
    rw [Descends, Node.kept, stored] at hw
    rw [held, remembered]
    rcases same with rfl | ⟨refused, rfl⟩
    · exact hw
    · exact IsTrans.trans _ _ _ hw (reconcile _ _ (.forgiven _ refused))

theorem reconcileState_descends (recovery : Includes G named .recovery)
    (reconcile : Includes G named .reconcile) :
    Triple (Descends G name d) (reconcileState env)
      ⟨fun _ => DescendsInMemory G name d, fun _ => Descends G name d, Descends G name d⟩ := by
  have same : ∀ {w u : Node}, SameRecord w u → Descends G name d w → Descends G name d u := by
    intro w u record hw
    rw [Descends, Node.kept, record.stored]
    exact hw
  refine Triple.bind (R := fun _ => Descends G name d) ?_ fun _ =>
    Triple.bind (R := fun _ => DescendsInMemory G name d) ?_ fun _ => ?_
  · exact Triple.mapError (within_preserves_iff.mp
      ((pruneTransactionFiles_record env).mono fun _ _ record hw => same record hw))
  · intro w hw
    rw [loadForgetting_apply]
    cases env.unreadable .state w with
    | none => exact recall_descends reconcile hw
    | some error => exact same (SameRecord.refl w).tick hw
  · exact (moved_descends (reconcileRecord_moved env reconcile recovery)).mono (fun _ => id)
      (fun _ _ => id) (fun _ _ h => h.2) fun _ h => h.2

theorem healthGate_descends (recovery : Includes G named .recovery)
    (reconcile : Includes G named .reconcile) (gate : Includes G named .gate) :
    Keeps (DescendsInMemory G name d) (healthGate env) := by
  refine healthGate_keeps env (fun _ _ => id) (fun _ _ => id)
    (fun w h => recall_descends reconcile h.2) (fun w merged hw other _ => ?_)
    (moved_descends (store_moved env))
  by_cases own : other = name
  · subst own
    exact moved_descends (verifyOrRecover_moved env gate recovery merged)
  · exact moved_descends ((verifyOrRecover_beside env merged).mono fun _ _ beside =>
      beside.aside.moved (Ne.symm own))

/-- A command that neither stages nor activates. -/
theorem Command.operation_descends (edits : ∀ o, Includes G (fun _ => True) o) {c : Command}
    (arguments : List String) (stages : c ≠ .stageExtension) (activates : c ≠ .activate) :
    Keeps (DescendsInMemory G name d) (c.operation env arguments) := by
  have about : ∀ {m : Act String Unit} {other : String}, Within (Aside other) m →
      (other = name → Within (Moved G name) m) → Keeps (DescendsInMemory G name d) m := by
    intro m other aside own
    by_cases same : other = name
    · exact moved_descends (own same)
    · exact moved_descends (aside.mono fun _ _ h => h.moved (Ne.symm same))
  have usage : ∀ {message : String},
      Keeps (DescendsInMemory G name d) (Prog.fail message : Act String Unit) := fun w hw => hw
  cases c with
  | stageExtension => exact absurd rfl stages
  | activate => exact absurd rfl activates
  | healthGate => exact healthGate_descends env (edits _) (edits _) (edits _)
  | stageBase =>
    have untouched : Within Untouched (stageBaseCommand env arguments) :=
      Within.bind (Within.mapError (stageBase_untouched env _)) fun _ => Within.pure ()
    exact moved_descends (record_moved (untouched.mono fun _ _ h => h.toSameRecord))
  | adopt =>
    rcases arguments with _ | ⟨other, _ | ⟨version, rest⟩⟩
    · exact usage
    · exact usage
    · refine about (adopt_aside env version rest) fun same => ?_
      subst same
      refine loaded_moved (fun _ _ _ => loadState_eq env) (loadState_quiet env) fun s => ?_
      exact Within.mapError (adoptActive_moved env (edits _) (Or.inr trivial))
  | rollback =>
    rcases arguments with _ | ⟨other, rest⟩
    · exact usage
    · exact about (rollbackCommand_aside env rest) fun same =>
        same ▸ rollbackCommand_moved env (edits _) rest
  | remove =>
    rcases arguments with _ | ⟨other, rest⟩
    · exact usage
    · exact about (removeExtension_aside env rest) fun same =>
        same ▸ removeExtension_moved env (edits _) (edits _) rest
  | require =>
    rcases arguments with _ | ⟨other, rest⟩
    · exact usage
    · exact about (aside_of_tame (setRequired_tame env rest true)) fun same =>
        same ▸ edited_moved env (edits _) fun e => .requires e true
  | unrequire =>
    rcases arguments with _ | ⟨other, rest⟩
    · exact usage
    · exact about (aside_of_tame (setRequired_tame env rest false)) fun same =>
        same ▸ edited_moved env (edits _) fun e => .requires e false
  | reset =>
    rcases arguments with _ | ⟨other, rest⟩
    · exact usage
    · exact about (aside_of_tame (reset_tame env rest)) fun same =>
        same ▸ edited_moved env (edits _) fun e => .reset e

end
end CarbideOS.Agent
