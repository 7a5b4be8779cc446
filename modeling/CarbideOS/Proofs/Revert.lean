import CarbideOS.Proofs.Calm
import CarbideOS.Proofs.Recovered

namespace CarbideOS.Agent
open Interruptible

/-- The files are as they were, but for copies of the active image in slots for retained
ones that were empty. -/
structure Kept (name : String) (w u : Node) : Prop where
  osRelease : u.osRelease = w.osRelease
  files : ∀ f, Text.endsWith f ".new" = false → u.extensions[f]? = w.extensions[f]? ∨
    (∃ version, f = (w.rollbackPath name version).name) ∧ w.extensions[f]? = none ∧
      u.extensions[f]? = w.activeImage name

/-- Images are retained only where there was none, from the active one. -/
structure Retention (name : String) (w u : Node) : Prop extends Unreplaced w u where
  retained : ∀ version, u.rollbackImage name version = w.rollbackImage name version ∨
    w.rollbackImage name version = none ∧ u.rollbackImage name version = w.activeImage name

theorem Kept.unreplaced {name : String} {w u : Node} (h : Kept name w u) : Unreplaced w u := by
  refine ⟨h.osRelease, fun f hr hn => (h.files f hn).resolve_right ?_⟩
  rintro ⟨⟨version, rfl⟩, -⟩
  rw [w.endsWith_rollback name version] at hr
  cases hr

theorem Kept.retention {name : String} {w u : Node} (h : Kept name w u) : Retention name w u := by
  refine ⟨h.unreplaced, fun version => ?_⟩
  rw [Node.rollbackImage, h.unreplaced.unmerged.rollbackPath]
  rcases h.files (w.rollbackPath name version).name
    (endsWith_false (w.endsWith_rollback name version) (by decide)) with he | ⟨-, hn, he⟩
  · exact Or.inl he
  · exact Or.inr ⟨hn, he⟩

instance (name : String) : IsPreorder Node (Kept name) where
  refl _ := ⟨rfl, fun _ _ => Or.inl rfl⟩
  trans w u v h h' := by
    have raw := h.unreplaced.unmerged
    refine ⟨h'.osRelease.trans h.osRelease, fun f hf => ?_⟩
    rcases h'.files f hf with he | ⟨⟨version, rfl⟩, hn, he⟩
    · rw [he]
      exact h.files f hf
    · right
      rw [raw.rollbackPath, (raw.activeImage name).2] at *
      refine ⟨⟨version, rfl⟩, ?_, he⟩
      rcases h.files _ hf with hw | ⟨-, hw, -⟩
      · exact hw ▸ hn
      · exact hw

section
variable (env : Environment) {ε α : Type} {name : String}

theorem kept_of_same {w u : Node} (ho : u.osRelease = w.osRelease)
    (he : u.extensions = w.extensions) : Kept name w u :=
  ⟨ho, fun f _ => Or.inl (congrArg (·[f]?) he)⟩

theorem quiet_kept {m : Act ε α} (h : Quiet m) : Within (Kept name) m := by
  refine (Returns.within h).mono ?_
  rintro w _ ⟨t, rfl⟩
  exact kept_of_same rfl rfl

theorem store_kept : Within (Kept name) (store env) := by
  apply Act.durable_within
  · exact fun w => kept_of_same rfl rfl
  · intro w reached leftover
    split <;> exact kept_of_same rfl rfl

/-- Copying the active image into an empty slot. -/
theorem copyActive_kept {w : Node} {version : String}
    (hx : w.fileExists (w.rollbackPath name version) = false) :
    Kept name w (durableCopy env (w.activePath name) (w.rollbackPath name version) w).state := by
  refine ⟨((durableCopy_record env _ _) w).osRelease, fun f hf => ?_⟩
  rw [durableCopy, read_apply]
  cases hb : w.readFile (w.activePath name) with
  | none => exact Or.inl rfl
  | some bytes =>
    have hp : (⟨.extensions, f⟩ : Path) ≠ Node.temporary (w.rollbackPath name version) := by
      rintro h
      have hn := endsWith_new_temporary (w.rollbackPath name version)
      rw [← h, hf] at hn
      cases hn
    rcases durablePublish_reads hp w with he | ⟨ht, he⟩
    · exact Or.inl he
    · right
      have hn : f = (w.rollbackPath name version).name := congrArg Path.name ht
      refine ⟨⟨version, hn⟩, ?_, ?_⟩
      · have empty : w.readFile (w.rollbackPath name version) = none := by
          simpa [Node.fileExists] using hx
        rw [hn]
        exact empty
      · rw [Node.activeImage, hb]
        exact he

theorem retainActive_kept (version : String) :
    Within (Kept name) (retainActive env name version) := by
  refine Within.read_at fun w => ?_
  split
  · exact Std.Refl.refl w
  · rename_i h
    exact copyActive_kept env (by simpa using h)

theorem adoptActive_kept (version : String) :
    Within (Kept name) (adoptActive env name version) := by
  refine Within.bind (Within.mapError (quiet_kept (loadNamed_quiet env name))) fun r => ?_
  refine Within.read fun w => ?_
  refine Within.bind (Within.demand _ _) fun _ => ?_
  refine Within.bind (Within.mapError (quiet_kept (healthyNow_quiet env r))) fun _ => ?_
  refine Within.bind (Within.mapError (retainActive_kept env version)) fun _ => ?_
  refine Within.bind (fun _ => kept_of_same rfl rfl) fun _ => ?_
  exact Within.mapError (store_kept env)

theorem adoptUnrecorded_kept : Within (Kept name) (adoptUnrecorded env name) := by
  refine Within.read fun w => ?_
  split
  · refine Within.bind (quiet_kept (mergedVersion_quiet env name)) fun version => ?_
    cases version with
    | none => exact Within.pure ()
    | some current =>
      refine Within.bind (Within.attempt (adoptActive_kept env current)) fun r => ?_
      rcases r with (e | e) | _
      · exact Within.pure ()
      · exact Within.fail _
      · exact Within.pure ()
  · exact Within.pure ()

theorem retainOutgoing_kept (previous : Option String) :
    Within (Kept name) (retainOutgoing env name previous) := by
  refine Within.read_at fun w => ?_
  cases previous with
  | none => exact Std.Refl.refl w
  | some version =>
    dsimp only
    split
    · rename_i h
      rw [Bool.and_eq_true, Bool.not_eq_true'] at h
      rw [Prog.mapError_state]
      exact copyActive_kept env h.2
    · exact Std.Refl.refl w

theorem recordActivating_kept (version : String) (requestId previous : Option String) :
    Within (Kept name) (recordActivating env name version requestId previous) :=
  Within.bind (fun _ => kept_of_same rfl rfl) fun _ => failedAt_within (store_kept env) _

theorem adoptUnrecorded_retention : Within (Retention name) (adoptUnrecorded env name) :=
  (adoptUnrecorded_kept env).mono fun _ _ => Kept.retention

theorem retainOutgoing_retention (previous : Option String) :
    Within (Retention name) (retainOutgoing env name previous) :=
  (retainOutgoing_kept env previous).mono fun _ _ => Kept.retention

end

/-- The record on disk taken into memory. -/
def Node.loaded (w : Node) : Node := { w.tick with memory := w.stored }

/-- The version the record gives the outgoing image. -/
def Node.label (w : Node) (name : String) : Option String :=
  ((w.memory.get name).bind ExtensionState.activeVersion).or
    ((w.memory.get name).bind ExtensionState.knownGoodVersion)

/-- The version under which an activation adopts the active image first: the merged
one, if there is no known-good version and the merged image has a usable ruleset. -/
def adoptedVersion (env : Environment) (name : String) (w : Node) : Option String :=
  if ((w.memory.get name).bind ExtensionState.knownGoodVersion).isNone &&
      w.fileExists (w.activePath name) then
    ((env.extensionRelease name w).bind mergedVersionIn).filter fun _ =>
      (loadNamed env name w.tick).isOk
  else none

/-- The version an activation gives the image it replaces. -/
def outgoingLabel (env : Environment) (name : String) (w : Node) : Option String :=
  (adoptedVersion env name w).or (w.label name)

section
variable {env : Environment} {name version : String} {w u : Node}

theorem adoptActive_ok (h : adoptActive env name version w = .ok () u) :
    (loadNamed env name w).isOk = true ∧ u.label name = some version := by
  obtain ⟨r, v₁, h₁, h⟩ := Prog.bind_eq_ok.mp h
  rw [read_apply] at h
  obtain ⟨_, v₂, -, h⟩ := Prog.bind_eq_ok.mp h
  obtain ⟨_, v₃, -, h⟩ := Prog.bind_eq_ok.mp h
  obtain ⟨_, v₄, -, h⟩ := Prog.bind_eq_ok.mp h
  rw [Prog.bind_of_ok (Act.entry_apply _ _ _)] at h
  have hm := (store_memory env).of_ok (Prog.mapError_eq_ok.mp h)
  refine ⟨?_, ?_⟩
  · rw [Prog.mapError_eq_ok.mp h₁]
    rfl
  · rw [Node.label, hm, edit_entry]
    rfl

theorem adoptActive_noRuleset {error : String}
    (h : adoptActive env name version w = .error (.noRuleset error) u) :
    (loadNamed env name w).isOk = false ∧ ∃ t, u = w.clock t := by
  rcases Prog.bind_eq_error.mp h with h | ⟨r, v₁, -, h⟩
  · obtain ⟨e, h, -⟩ := Prog.mapError_eq_error.mp h
    obtain ⟨t, rfl⟩ := (loadNamed_quiet env name).of_error h
    rw [h]
    exact ⟨rfl, t, rfl⟩
  · -- no later step gives this error
    rw [read_apply] at h
    rcases Prog.bind_eq_error.mp h with h | ⟨_, v₂, -, h⟩
    · rw [Prog.demand_apply] at h
      split at h <;> cases h
    rcases Prog.bind_eq_error.mp h with h | ⟨_, v₃, -, h⟩
    · obtain ⟨e, -, he⟩ := Prog.mapError_eq_error.mp h
      cases he
    rcases Prog.bind_eq_error.mp h with h | ⟨_, v₄, -, h⟩
    · obtain ⟨e, -, he⟩ := Prog.mapError_eq_error.mp h
      cases he
    rw [Prog.bind_of_ok (Act.entry_apply _ _ _)] at h
    obtain ⟨e, -, he⟩ := Prog.mapError_eq_error.mp h
    cases he

/-- After adoption, tried or not, the record gives the active image its label. -/
theorem adoptUnrecorded_ok (h : adoptUnrecorded env name w = .ok () u) :
    u.label name = outgoingLabel env name w := by
  rw [adoptUnrecorded, read_apply] at h
  unfold outgoingLabel adoptedVersion
  split at h
  · rename_i hc
    rw [if_pos hc]
    rw [mergedVersion, Prog.bind_of_ok (Act.ask_apply _ _)] at h
    cases hv : (env.extensionRelease name w).bind mergedVersionIn with
    | none =>
      rw [hv] at h
      cases h
      rfl
    | some current =>
      rw [hv] at h
      obtain ⟨r, v, hr, h⟩ := Prog.bind_eq_ok.mp h
      rcases Prog.attempt_eq_ok.mp hr with ⟨_, rfl, ha⟩ | ⟨e, rfl, ha⟩
      · cases h
        obtain ⟨hl, hlabel⟩ := adoptActive_ok ha
        rw [Option.filter_some, hl, hlabel]
        rfl
      · cases e with
        | noRuleset error =>
          cases h
          obtain ⟨hl, t, rfl⟩ := adoptActive_noRuleset ha
          rw [Option.filter_some, hl]
          rfl
        | failed error => cases h
  · rename_i hc
    rw [if_neg hc]
    cases h
    rfl

end

def SameKnownGood (name : String) (w u : Node) : Prop :=
  (u.memory.get name).bind ExtensionState.knownGoodVersion =
    (w.memory.get name).bind ExtensionState.knownGoodVersion

instance (name : String) : IsPreorder Node (SameKnownGood name) where
  refl _ := rfl
  trans _ _ _ h h' := Eq.trans h' h

section
variable (env : Environment) {ε α : Type} {name : String}

theorem record_sameKnownGood {m : Act ε α} (h : Within SameRecord m) :
    Within (SameKnownGood name) m := h.mono fun _ _ h => by rw [SameKnownGood, h.memory]

theorem entry_sameKnownGood {f : ExtensionState → ExtensionState}
    (hf : ∀ e, (f e).knownGoodVersion = e.knownGoodVersion) :
    Within (SameKnownGood name) (Act.entry name f : Act ε Unit) :=
  fun w => knownGood_edit w name hf

theorem store_sameKnownGood : Within (SameKnownGood name) (store env) :=
  (store_memory env).mono fun _ _ h => by rw [SameKnownGood, h]

theorem note_sameKnownGood (image : Option Bytes) (verdict : Verdict) :
    Within (SameKnownGood name) (Act.note name image verdict : Act ε Unit) := by
  intro w
  cases image <;> exact rfl

theorem judged_sameKnownGood (image : Option Bytes) {m : Act String Unit} (h : Quiet m)
    (setback : String → Setback) :
    Within (SameKnownGood name) (judged name image m setback) := by
  refine Within.bind (Within.attempt (record_sameKnownGood h.record)) fun r => ?_
  cases r with
  | ok _ => exact Within.pure ()
  | error reason => exact Within.bind (note_sameKnownGood _ _) fun _ => Within.fail _

theorem promote_record (candidate : Path) : Within SameRecord (promote env name candidate) := by
  refine Within.bind (Within.mapError (stopCurrent_quiet env name).record) fun _ => ?_
  refine Within.bind (Within.mapError (installActive_record env candidate name)) fun _ => ?_
  refine Within.bind (Within.mapError (sysextRefresh_record env)) fun _ => ?_
  refine Within.bind (Within.mapError (daemonReload_quiet env).record) fun _ => ?_
  exact Within.mapError (loadNamed_quiet env name).record

theorem prove_sameKnownGood (image : Option Bytes) (ruleset : Ruleset) :
    Within (SameKnownGood name) (prove env name image ruleset) := by
  refine Within.bind (entry_sameKnownGood fun _ => rfl) fun _ => ?_
  refine Within.bind (Within.mapError (store_sameKnownGood env)) fun _ => ?_
  refine Within.bind (judged_sameKnownGood _ (waitUntilReady_quiet env _) _) fun _ => ?_
  refine Within.bind (entry_sameKnownGood fun _ => rfl) fun _ => ?_
  refine Within.bind (Within.mapError (store_sameKnownGood env)) fun _ => ?_
  refine Within.bind (judged_sameKnownGood _ (soak_quiet env _) _) fun _ => ?_
  exact note_sameKnownGood _ _

theorem knownGood_committed (w : Node) (version : String) (requestId : Option String) :
    SameKnownGood name w (w.committed name version requestId) := by
  rw [SameKnownGood, Node.committed, knownGood_edit]
  intro e
  cases requestId with
  | none => rfl
  | some id =>
    dsimp only [ExtensionState.recordCompleted]
    split <;> rfl

theorem commit_sameKnownGood (version : String) (requestId : Option String) (unit : String) :
    Within (SameKnownGood name) (commit env name version requestId unit) := by
  intro w
  have hc := @knownGood_committed name w version requestId
  rw [commit_apply]
  have hs : SameKnownGood name _ _ := store_sameKnownGood env (w.committed name version requestId)
  cases h : store env (w.committed name version requestId) <;> rw [h] at hs
  case ok a u => exact Eq.trans hs hc
  case error e u => exact rfl
  case halt u => exact Eq.trans hs hc

theorem tryCandidate_sameKnownGood (version : String) (requestId : Option String)
    (candidate : Path) :
    Within (SameKnownGood name) (tryCandidate env name version requestId candidate) := by
  refine Within.read fun w => ?_
  refine Within.bind (note_sameKnownGood _ _) fun _ => ?_
  refine Within.bind (record_sameKnownGood (promote_record env candidate)) fun ruleset => ?_
  refine Within.bind (prove_sameKnownGood env _ ruleset) fun _ => ?_
  exact commit_sameKnownGood env version requestId _

end

section
variable {α : Type} {env : Environment} {name version : String} {requestId previous : Option String}
  {w u : Node} {f : Failure}

theorem failedAt_stage {stage : Stage} {m : Act String α}
    (h : failedAt stage m w = .error f u) : f.stage = some stage := by
  obtain ⟨e, -, rfl⟩ := Prog.mapError_eq_error.mp h
  rfl

theorem adoptUnrecorded_stage (h : adoptUnrecorded env name w = .error f u) :
    f.stage = some .checking := by
  rw [adoptUnrecorded, read_apply] at h
  split at h
  · rw [mergedVersion, Prog.bind_of_ok (Act.ask_apply _ _)] at h
    cases hv : (env.extensionRelease name w).bind mergedVersionIn with
    | none =>
      rw [hv] at h
      cases h
    | some current =>
      rw [hv] at h
      rcases Prog.bind_eq_error.mp h with h | ⟨r, v, -, h⟩
      · exact absurd h Prog.attempt_ne_error
      · rcases r with (e | e) | _ <;> cases h
        rfl
  · cases h

theorem outgoingSize_stage (h : outgoingSize env name previous w = .error f u) :
    f.stage = some .checking := by
  rw [outgoingSize, read_apply] at h
  cases previous with
  | none => cases h
  | some version =>
    dsimp only at h
    split at h
    · cases h
    · exact failedAt_stage h

theorem requireActivationSpace_stage {required : Nat}
    (h : requireActivationSpace env required w = .error f u) : f.stage = some .checking := by
  rcases Prog.bind_eq_error.mp h with h | ⟨available, v, -, h⟩
  · exact failedAt_stage h
  · rw [Prog.demand_apply] at h
    split at h <;> cases h
    rfl

theorem retainOutgoing_stage (h : retainOutgoing env name previous w = .error f u) :
    f.stage = some .staging := by
  rw [retainOutgoing, read_apply] at h
  cases previous with
  | none => cases h
  | some version =>
    dsimp only at h
    split at h
    · obtain ⟨e, -, rfl⟩ := Prog.mapError_eq_error.mp h
      rfl
    · cases h

/-- A setback is reported as one of activating or of soaking, never as a recovery. -/
abbrev Underway (m : Act Setback α) : Prop :=
  Triple (fun _ => True) m ⟨fun _ _ => True, fun s _ => s.stage = .activating ∨ s.stage = .soaking,
    fun _ => True⟩

theorem underway_mapError {m : Act String α} {setback : String → Setback}
    (h : ∀ e, (setback e).stage = .activating ∨ (setback e).stage = .soaking) :
    Underway (Prog.mapError setback m) := by
  refine Triple.mapError fun w _ => ?_
  cases m w with
  | ok a u => trivial
  | error e u => exact h e
  | halt u => trivial

theorem underway_judged {image : Option Bytes} {m : Act String Unit} {setback : String → Setback}
    (h : ∀ e, (setback e).stage = .activating ∨ (setback e).stage = .soaking) :
    Underway (judged name image m setback) := by
  refine Triple.bind (R := fun _ _ => True) ?_ fun r => ?_
  · refine Triple.attempt fun w _ => ?_
    cases m w <;> trivial
  · cases r with
    | ok _ => exact Triple.pure fun _ _ => trivial
    | error reason =>
      refine Triple.bind (R := fun _ _ => True) ?_ fun _ => Triple.fail fun _ _ => h reason
      intro w _
      cases image <;> trivial

theorem underway_promote (candidate : Path) : Underway (promote env name candidate) := by
  refine Triple.bind (R := fun _ _ => True) (underway_mapError (fun _ => Or.inl rfl)) fun _ => ?_
  refine Triple.bind (R := fun _ _ => True) (underway_mapError (fun _ => Or.inl rfl)) fun _ => ?_
  refine Triple.bind (R := fun _ _ => True) (underway_mapError (fun _ => Or.inl rfl)) fun _ => ?_
  refine Triple.bind (R := fun _ _ => True) (underway_mapError (fun _ => Or.inl rfl)) fun _ => ?_
  exact underway_mapError fun _ => Or.inl rfl

theorem underway_prove (image : Option Bytes) (ruleset : Ruleset) :
    Underway (prove env name image ruleset) := by
  have entry : ∀ g, Underway (Act.entry name g : Act Setback Unit) := fun _ _ _ => trivial
  refine Triple.bind (R := fun _ _ => True) (entry _) fun _ => ?_
  refine Triple.bind (R := fun _ _ => True) (underway_mapError (fun _ => Or.inl rfl)) fun _ => ?_
  refine Triple.bind (R := fun _ _ => True) (underway_judged (fun _ => Or.inl rfl)) fun _ => ?_
  refine Triple.bind (R := fun _ _ => True) (entry _) fun _ => ?_
  refine Triple.bind (R := fun _ _ => True) (underway_mapError (fun _ => Or.inr rfl)) fun _ => ?_
  refine Triple.bind (R := fun _ _ => True) (underway_judged (fun _ => Or.inr rfl)) fun _ => ?_
  intro w _
  cases image <;> trivial

theorem underway_tryCandidate (candidate : Path) :
    Underway (tryCandidate env name version requestId candidate) := by
  refine Triple.read fun w _ => ?_
  refine Triple.bind (R := fun _ _ => True) ?_ fun _ => ?_
  · intro v _
    cases w.readFile candidate <;> trivial
  refine Triple.bind (R := fun _ _ => True) (underway_promote candidate) fun ruleset => ?_
  refine Triple.bind (R := fun _ _ => True) (underway_prove _ ruleset) fun _ => ?_
  intro v _
  rw [commit_apply]
  cases store env (v.committed name version requestId) <;> first | trivial | exact Or.inl rfl

theorem tryCandidate_stage {candidate : Path} {setback : Setback}
    (h : tryCandidate env name version requestId candidate w = .error setback u) :
    setback.stage = .activating ∨ setback.stage = .soaking := by
  have underway := (underway_tryCandidate candidate :
    Underway (tryCandidate env name version requestId candidate)) w trivial
  rw [h] at underway
  exact underway

/-- A report of a recovery comes from one that worked, in a state whose retained images
and known-good version are those from before the candidate was tried. -/
theorem activateRecorded_reverted {candidate : Path}
    (h : activateRecorded env name version requestId previous candidate w = .error f u)
    (hs : f.stage = some .reverting) : ∃ v label bytes, Steady name w v ∧
      SameKnownGood name w v ∧ RecoveredTo name label bytes v u := by
  obtain ⟨r, v₁, h₁, h⟩ : ∃ r v, Prog.attempt (tryCandidate env name version requestId candidate) w
      = .ok r v ∧ _ := (Prog.bind_eq_error.mp h).resolve_left Prog.attempt_ne_error
  rcases Prog.attempt_eq_ok.mp h₁ with ⟨_, rfl, ht⟩ | ⟨setback, rfl, ht⟩
  · rcases Prog.bind_eq_error.mp h with h | ⟨_, v₂, -, h⟩
    · exact absurd h Prog.attempt_ne_error
    · rcases Prog.bind_eq_error.mp h with h | ⟨_, v₃, -, h⟩
      · exact absurd h Prog.attempt_ne_error
      · cases h
  · have steady : Steady name w v₁ := (tryCandidate_steady env _ _ _).of_error ht
    have known : SameKnownGood name w v₁ := (tryCandidate_sameKnownGood env _ _ _).of_error ht
    have stage : setback.stage ≠ .reverting := by
      rcases tryCandidate_stage ht with h | h <;> rw [h] <;> exact nofun
    have h : revertSetback env name setback v₁ = .error f u := h
    have quiet := journalLines_quiet env (ε := Failure) setback.unit
    rcases Prog.bind_eq_error.mp h with h | ⟨log, v₂, h₂, h⟩
    · rcases quiet v₁ with ⟨_, _, he, -⟩ | ⟨_, _, he, -⟩
      · rw [h] at he
        cases he
      · cases hu : setback.unit <;> rw [hu] at h <;> cases h
    · obtain ⟨t, rfl⟩ := quiet.of_ok h₂
      rcases Prog.bind_eq_error.mp h with h | ⟨r, v₃, h₃, h⟩
      · exact absurd h Prog.attempt_ne_error
      · rcases Prog.attempt_eq_ok.mp h₃ with ⟨_, rfl, hr⟩ | ⟨e, rfl, hr⟩
        · cases h
          obtain ⟨label, bytes, hrec⟩ := recover_ok hr
          refine ⟨v₁.clock t, label, bytes, ?_, known, hrec⟩
          have later : Within (Steady name) (journalLines env setback.unit : Act Failure _) :=
            quiet_steady quiet
          exact IsTrans.trans _ _ _ steady (later.of_ok h₂)
        · cases h
          exact absurd (Option.some_inj.mp hs) stage

theorem knownGood_activating (w : Node) (name version : String)
    (requestId previous : Option String) :
    ((w.activating name version requestId previous).memory.get name).bind
        ExtensionState.knownGoodVersion =
      previous.or ((w.memory.get name).bind ExtensionState.knownGoodVersion) := by
  rw [Node.activating, edit_entry]
  cases previous <;> cases w.memory.get name <;> rfl

/-- What a reverted activation put back: the image retained under the label of the
outgoing one, which is the outgoing one itself if none was. -/
theorem activateCandidate_reverted
    (h : activateCandidate env name version requestId w = .error f u)
    (hs : f.stage = some .reverting) : ∃ label bytes, outgoingLabel env name w = some label ∧
      u.activeImage name = some bytes ∧ (w.rollbackImage name label = some bytes ∨
        w.rollbackImage name label = none ∧ w.activeImage name = some bytes) := by
  have no : ∀ {stage : Stage}, f.stage = some stage → stage = .reverting := fun hf =>
    Option.some_inj.mp (hf.symm.trans hs)
  rcases Prog.bind_eq_error.mp h with h | ⟨_, v₁, h₁, h⟩
  · cases no (adoptUnrecorded_stage h)
  rw [read_apply] at h
  rcases Prog.bind_eq_error.mp h with h | ⟨n, v₂, h₂, h⟩
  · cases no (failedAt_stage h)
  rcases Prog.bind_eq_error.mp h with h | ⟨m, v₃, h₃, h⟩
  · cases no (outgoingSize_stage h)
  rcases Prog.bind_eq_error.mp h with h | ⟨_, v₄, h₄, h⟩
  · cases no (requireActivationSpace_stage h)
  rcases Prog.bind_eq_error.mp h with h | ⟨_, v₅, h₅, h⟩
  · cases no (retainOutgoing_stage h)
  rcases Prog.bind_eq_error.mp h with h | ⟨_, v₆, h₆, tried⟩
  · cases no (failedAt_stage h)
  obtain ⟨t₂, rfl⟩ := (failedAt_quiet (fileSize_quiet env _) _).of_ok h₂
  obtain ⟨t₃, rfl⟩ := (outgoingSize_quiet env name _).of_ok h₃
  obtain ⟨t₄, rfl⟩ := (requireActivationSpace_quiet env _).of_ok h₄
  have label₁ := adoptUnrecorded_ok h₁
  have retained : Retention name w v₆ := by
    have s₁ : Kept name w v₁ := (adoptUnrecorded_kept env).of_ok h₁
    have s₅ : Kept name _ v₅ := (retainOutgoing_kept env _).of_ok h₅
    have s₆ : Kept name v₅ v₆ := (recordActivating_kept env _ _ _).of_ok h₆
    have s₄ : Kept name v₁ v₅ := ⟨s₅.osRelease, s₅.files⟩
    exact Kept.retention (IsTrans.trans _ _ _ (IsTrans.trans _ _ _ s₁ s₄) s₆)
  have known₆ : (v₆.memory.get name).bind ExtensionState.knownGoodVersion = v₁.label name := by
    have hm : v₅.memory = v₁.memory := by
      have hc : Confined (Retained name v₁.scope) _ _ :=
        retainOutgoing_retains env ((v₁.memory.get name).bind ExtensionState.activeVersion)
          (((v₁.clock t₂).clock t₃).clock t₄)
      rw [h₅] at hc
      exact hc.memory
    rw [recordActivating_apply] at h₆
    rw [store_ok (Prog.mapError_eq_ok.mp h₆)]
    refine (knownGood_activating v₅ name version requestId _).trans ?_
    rw [hm]
    rfl
  obtain ⟨v, label, bytes, steady, known, hrec⟩ := activateRecorded_reverted tried hs
  refine ⟨label, bytes, ?_, hrec.active, ?_⟩
  · rw [← label₁, ← known₆, ← known]
    exact hrec.known
  · have hi : v₆.rollbackImage name label = some bytes := by
      have same := steady.same _ (v.endsWith_rollback name label)
      have image := hrec.image
      rw [Node.rollbackImage, Node.readFile] at image
      rw [Node.rollbackImage, Node.rollbackPath, ← steady.scope]
      exact same.symm.trans image
    rcases retained.retained label with he | ⟨hn, he⟩
    · exact Or.inl (he ▸ hi)
    · exact Or.inr ⟨hn, he ▸ hi⟩

/-- An activation that reports a recovery has the outgoing image back exactly if no
other image was retained under its label. -/
theorem reverted_image_iff {X : Bytes} (active : w.activeImage name = some X)
    (failed : activateExtension env name version requestId w = .error f u)
    (reverted : f.stage = some .reverting) :
    u.activeImage name = some X ↔ ∀ label, outgoingLabel env name w.loaded = some label →
      w.rollbackImage name label = none ∨ w.rollbackImage name label = some X := by
  rcases Prog.bind_eq_error.mp failed with h | ⟨s, v, hv, h⟩
  · obtain ⟨e, -, rfl⟩ := Prog.mapError_eq_error.mp h
    cases reverted
  obtain ⟨rfl, rfl⟩ := loadState_ok (Prog.mapError_eq_ok.mp hv)
  rw [Prog.bind_of_ok (Act.hold_apply _ _), read_apply] at h
  split at h
  · cases h
  dsimp only at h
  split at h
  · have h : activateCandidate env name version requestId w.loaded = .error f u := h
    obtain ⟨label, bytes, hl, ha, hb⟩ := activateCandidate_reverted h reverted
    have hX : w.loaded.activeImage name = some X := active
    rw [ha]
    constructor
    · rintro ⟨⟩ other ho
      rw [hl] at ho
      cases ho
      exact hb.symm.imp And.left id
    · intro hw
      rcases hb with hb | ⟨-, hb⟩
      · rcases hw label hl with hn | hx
        · exact absurd (hb.symm.trans hn) nofun
        · exact hb.symm.trans hx
      · exact hb.symm.trans hX
  · cases h
    cases reverted

end

/-- Version `a`, a rebuild of it under the same version, and a version that fails. -/
def rebuilt : Bytes → Make
  | [1] => ⟨"n", "1", "a", true⟩
  | [2] => ⟨"n", "1", "a", true⟩
  | _ => ⟨"n", "1", "b", false⟩

/-- A failing version is staged beside an adopted one. -/
def beforeFailure : Node :=
  run (calm rebuilt) [.boot (some "VERSION_ID=1") [], .command .adopt ["n", "a"],
    stageFile "n" "/3"]
    (.with "1" [("n_1.raw", [1])])

theorem reverted_image_iff_adopted :
    (activateExtension (calm rebuilt) "n" "b" none beforeFailure).state.activeImage "n" = some [1] ↔
      ∀ label, outgoingLabel (calm rebuilt) "n" beforeFailure.loaded = some label →
        beforeFailure.rollbackImage "n" label = none ∨
          beforeFailure.rollbackImage "n" label = some [1] := by
  have stage : (activateExtension (calm rebuilt) "n" "b" none beforeFailure).failure.bind
      Failure.stage = some .reverting := by decide +kernel
  obtain ⟨f, hf, hs⟩ := Option.bind_eq_some_iff.mp stage
  exact reverted_image_iff (by decide +kernel) (Outcome.eq_error hf) hs

/-- The rebuild is activated before the failing version is staged. -/
def afterRebuild : Node :=
  run (calm rebuilt) [.boot (some "VERSION_ID=1") [], .command .adopt ["n", "a"],
    stageFile "n" "/2", .command .activate ["n", "a"], stageFile "n" "/3"]
    (.with "1" [("n_1.raw", [1])])

/-- The rebuild was running, and the image from before it comes back. -/
theorem revert_restores_older_build :
    let request : Request := { name := some "n", version := some "b" }
    let outcome := Call.activateExtension.run (calm rebuilt) request afterRebuild.process
    afterRebuild.activeImage "n" = some [2] ∧
      outcome.failure.bind Failure.stage = some .reverting ∧
      outcome.state.activeImage "n" = some [1] := by
  decide +kernel

end CarbideOS.Agent
