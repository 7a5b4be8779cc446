import CarbideOS.Proofs.Budget

namespace CarbideOS.Agent
open Interruptible

/-- The record on disk and every image are as they were. A copy that was not published is
no image. -/
structure Unmoved (w u : Node) : Prop where
  stored : u.stored = w.stored
  images : ∀ p : Path, Text.endsWith p.name ".new" = false → u.readFile p = w.readFile p

/-- A copy stops before the image has its name. -/
def Unpublished (env : Environment) (target : Path) (w : Node) : Prop :=
  ∃ f, env.fault (.copy target) w = some f ∧ f.reached target.name = false

/-- A write of the record stops before it reaches the disk. -/
def Unwritten (env : Environment) (w : Node) : Prop :=
  ∃ f, env.fault .store w = some f ∧ f.reached "state.json" = false

/-- The record in memory with the active image of an extension adopted. -/
def Node.adopting (w : Node) (name version : String) : Node :=
  w.edit name fun e =>
    { e with
      required := true
      activeVersion := some version
      knownGoodVersion := some version
      phase := .active
      terminalOsVersion := none
      lastHealth := some "healthy"
      lastFailure := none }

/-- The adoption of a healthy image stops at its first durable step, which is the record
where the image is retained already. -/
def AdoptionStops (env : Environment) (name current : String) (w : Node) : Prop :=
  if w.fileExists (w.rollbackPath name current) then Unwritten env (w.adopting name current)
  else Unpublished env (w.rollbackPath name current) w

/-- An activation comes to retain the outgoing image: an image of the recorded version is
active and not retained, the sizes can be read and there is room. -/
structure ComesToRetain (env : Environment) (name version previous : String) (w : Node) : Prop where
  recorded : (w.memory.get name).bind ExtensionState.activeVersion = some previous
  missing : w.fileExists (w.rollbackPath name previous) = false
  readable : env.unreadable (.metadata (w.candidatePath name version)) w = none ∧
    env.unreadable (.metadata (w.activePath name)) w.tick = none
  room : ∃ candidate image available, w.readFile (w.candidatePath name version) = some candidate ∧
    w.readFile (w.activePath name) = some image ∧ env.available w.tick.tick = .ok available ∧
      activationSpace candidate.length image.length ≤ available

/-- If an activation comes to retain the outgoing image, it stops there. -/
def RetentionStops (env : Environment) (name version : String) (w : Node) : Prop :=
  ∀ previous, ComesToRetain env name version previous w →
    Unpublished env (w.rollbackPath name previous) w.tick.tick.tick

/-- The first durable step of an activation before its record, if it comes to one, does
not take effect. -/
def FirstStepStops (env : Environment) (name version : String) (w : Node) : Prop :=
  if ((w.memory.get name).bind ExtensionState.knownGoodVersion).isNone &&
      w.fileExists (w.activePath name) then
    match (env.extensionRelease name w).bind mergedVersionIn with
    | none => RetentionStops env name version w.tick
    | some current =>
      match loadNamed env name w.tick with
      | .ok ruleset v =>
        match healthyNow env ruleset v with
        | .ok () x => AdoptionStops env name current x
        | _ => True
      | .error _ v => RetentionStops env name version v
      | .halt _ => True
  else RetentionStops env name version w

/-- When a refused activation changes nothing: it has no record to read or no candidate, or
its first durable step does not take effect. -/
def RefusalSpares (env : Environment) (name version : String) (w : Node) : Prop :=
  env.unreadable .state w = none →
    w.loaded.fileExists (w.loaded.candidatePath name version) = true →
      FirstStepStops env name version w.loaded

section
variable {env : Environment} {name version : String} {requestId previous : Option String}
  {w u v : Node} {f : Failure} {ε α : Type}

theorem Later.unmoved (h : Later w u) : Unmoved w u := by
  obtain ⟨t, rfl⟩ := h
  exact ⟨rfl, fun p _ => Node.clock_readFile w t p⟩

theorem Unmoved.trans (h : Unmoved w v) (h' : Unmoved v u) : Unmoved w u :=
  ⟨h'.stored.trans h.stored, fun p hp => (h'.images p hp).trans (h.images p hp)⟩

theorem Unmoved.symm (h : Unmoved w u) : Unmoved u w :=
  ⟨h.stored.symm, fun p hp => (h.images p hp).symm⟩

theorem Unmoved.congr {x y : Node} (h : Unmoved w x) (h' : Unmoved u y) :
    Unmoved w u ↔ Unmoved x y :=
  ⟨fun same => h.symm.trans (same.trans h'), fun same => h.trans (same.trans h'.symm)⟩

/-- The images are those of before, whatever is recorded. -/
theorem store_images (env : Environment) :
    Within (fun w u => ∀ p, u.readFile p = w.readFile p) (store env) := by
  apply Act.durable_within
  · exact fun w p => readFile_tick _ _
  · intro w reached leftover p
    split <;> exact readFile_tick _ _

theorem store_stored (env : Environment) :
    Within (fun w u => u.stored = w.stored ∨ u.stored = w.memory) (store env) := by
  apply Act.durable_within
  · exact fun _ => Or.inr rfl
  · intro w reached leftover
    split
    · exact Or.inr rfl
    · exact Or.inl rfl

theorem readFile_edit (w : Node) (name : String) (g : ExtensionState → ExtensionState) (p : Path) :
    (w.edit name g).readFile p = w.readFile p := by
  cases p with | mk place file => cases place <;> rfl

/-- A write of the record in memory. -/
theorem store_unmoved_iff (env : Environment) (changed : w.memory ≠ w.stored) :
    Unmoved w (store env w).state ↔ Unwritten env w := by
  unfold Unwritten store Act.durable
  cases env.fault .store w with
  | none => exact iff_of_false (fun h => changed h.stored) (by simp)
  | some f =>
    cases hf : f.reached "state.json" with
    | true =>
      refine iff_of_false (fun h => changed ?_) (by simp [hf])
      dsimp only at h
      rw [hf] at h
      split at h <;> exact h.stored
    | false =>
      refine iff_of_true ?_ ⟨f, rfl, hf⟩
      dsimp only
      rw [hf]
      split <;> exact (Later.tick w).unmoved

/-- A copy to a name that is free. -/
theorem copy_unmoved_iff {source target : Path} {bytes : Bytes}
    (there : w.readFile source = some bytes) (free : w.readFile target = none)
    (named : Text.endsWith target.name ".rollback" = true) :
    Unmoved w (durableCopy env source target w).state ↔ Unpublished env target w := by
  have other : ∀ p : Path, Text.endsWith p.name ".new" = false → p ≠ Node.temporary target := by
    rintro p hp rfl
    rw [endsWith_new_temporary] at hp
    cases hp
  have final : Text.endsWith target.name ".new" = false := endsWith_false named (by decide)
  have taken : ∀ x : Node, (x.publish target bytes).tick.readFile target ≠ none := by
    intro x
    rw [readFile_tick, Node.readFile_publish (other target final), if_pos rfl]
    exact Option.some_ne_none bytes
  rw [durableCopy, read_apply, there]
  unfold Unpublished durablePublish Act.durable
  dsimp only
  cases env.fault (.copy target) w with
  | none =>
    refine iff_of_false (fun h => taken w ?_) (by simp)
    exact (h.images target final).trans free
  | some f =>
    dsimp only
    cases hf : f.reached target.name with
    | true =>
      refine iff_of_false (fun h => taken (w.leaveBehind target bytes f.leftover) ?_) (by simp [hf])
      have image := (h.images target final).trans free
      split at image <;> exact image
    | false =>
      have left : Unmoved w (w.leaveBehind target bytes f.leftover).tick := by
        refine ⟨?_, fun p hp => ?_⟩
        · cases f.leftover <;> exact (SameRecord.setDir _ _ _).stored
        · rw [readFile_tick, Node.readFile_leaveBehind (other p hp)]
      refine iff_of_true ?_ ⟨f, rfl, hf⟩
      split <;> exact left

/-- Retaining the active image and recording it as adopted. -/
def recordAdoption (env : Environment) (name current : String) : Act AdoptError Unit := do
  Prog.mapError .failed (retainActive env name current)
  Prog.change fun w => w.adopting name current
  Prog.mapError .failed (store env)

/-- What an adoption of a healthy image that was not on record has changed. -/
theorem recordAdoption_unmoved_iff {current : String} {image : Bytes}
    (recorded : w.memory = w.stored)
    (fresh : (w.memory.get name).bind ExtensionState.knownGoodVersion = none)
    (active : w.readFile (w.activePath name) = some image) :
    Unmoved w (recordAdoption env name current w).state ↔ AdoptionStops env name current w := by
  have changed : (w.adopting name current).memory ≠ (w.adopting name current).stored := by
    intro same
    have good : ((w.adopting name current).memory.get name).bind ExtensionState.knownGoodVersion =
        some current := by
      rw [Node.adopting, edit_entry]
      rfl
    have old : (w.adopting name current).stored = w.memory := recorded.symm
    rw [same, old, fresh] at good
    cases good
  unfold AdoptionStops recordAdoption
  split
  · rename_i there
    have kept : Prog.mapError AdoptError.failed (retainActive env name current) w = .ok () w := by
      rw [Prog.mapError_eq_ok, retainActive, read_apply, if_pos there]
      rfl
    rw [Prog.bind_of_ok kept]
    have stays : Unmoved w (w.adopting name current) := ⟨rfl, fun p _ => readFile_edit w name _ p⟩
    have back : Unmoved (w.adopting name current) w :=
      ⟨rfl, fun p _ => (readFile_edit w name _ p).symm⟩
    let recording : Act AdoptError Unit := Prog.mapError .failed (store env)
    change Unmoved w (recording (w.adopting name current)).state ↔ _
    rw [Prog.mapError_state, ← store_unmoved_iff env changed]
    exact ⟨back.trans, stays.trans⟩
  · rename_i missing
    have free : w.readFile (w.rollbackPath name current) = none := by
      simpa [Node.fileExists] using missing
    have copied : retainActive env name current w =
        durableCopy env (w.activePath name) (w.rollbackPath name current) w := by
      rw [retainActive, read_apply, if_neg missing]
    rw [← copy_unmoved_iff active free (w.endsWith_rollback name current), ← copied]
    rw [Prog.bind_apply]
    cases ran : Prog.mapError AdoptError.failed (retainActive env name current) w with
    | error e x =>
      obtain ⟨e', ran, -⟩ := Prog.mapError_eq_error.mp ran
      rw [ran]
      exact Iff.rfl
    | halt x =>
      have ran : (retainActive env name current w).state = x := by
        rw [← Prog.mapError_state AdoptError.failed, ran]
        rfl
      rw [ran]
      exact Iff.rfl
    | ok _ x =>
      have ran := Prog.mapError_eq_ok.mp ran
      have named := w.endsWith_rollback name current
      have final : Text.endsWith (w.rollbackPath name current).name ".new" = false :=
        endsWith_false named (by decide)
      have there : x.fileExists (w.rollbackPath name current) = true :=
        durableCopy_exists named (by decide) (copied.symm.trans ran)
      let recording : Act AdoptError Unit := Prog.mapError .failed (store env)
      have same : (recording (x.adopting name current)).state.readFile
          (w.rollbackPath name current) = x.readFile (w.rollbackPath name current) := by
        rw [Prog.mapError_state, store_images env _ _]
        exact readFile_edit x name _ _
      -- the retained image is there, recorded or not
      have moved : ∀ u : Node, u.readFile (w.rollbackPath name current) =
          x.readFile (w.rollbackPath name current) → ¬ Unmoved w u := by
        intro u there' same
        rw [Node.fileExists, ← there', same.images _ final, free] at there
        cases there
      rw [ran]
      exact iff_of_false (moved _ same) (moved x rfl)

theorem adoptActive_apply {current : String} {ruleset : Ruleset} {x : Node}
    (loaded : loadNamed env name w = .ok ruleset u)
    (present : u.fileExists (u.activePath name) = true)
    (healthy : healthyNow env ruleset u = .ok () x) :
    adoptActive env name current w = recordAdoption env name current x := by
  rw [adoptActive, Prog.bind_of_ok (Prog.mapError_eq_ok.mpr loaded), read_apply]
  rw [Prog.bind_of_ok (demand_active present), Prog.bind_of_ok (Prog.mapError_eq_ok.mpr healthy)]
  rfl

/-- What comes after the active image has been adopted or left as it is. -/
def activateOver (env : Environment) (name version : String) (requestId : Option String) :
    Act Failure Activation := do
  let w ← Prog.read
  let candidate := w.candidatePath name version
  let previous := (w.memory.get name).bind ExtensionState.activeVersion
  let candidateSize ← failedAt .checking (fileSize env candidate)
  let rollbackSize ← outgoingSize env name previous
  requireActivationSpace env (activationSpace candidateSize rollbackSize)
  retainOutgoing env name previous
  recordActivating env name version requestId previous
  activateRecorded env name version requestId previous candidate

theorem activateCandidate_over : activateCandidate env name version requestId =
    (do adoptUnrecorded env name; activateOver env name version requestId) := rfl

/-- Whatever goes wrong once an activation is recorded is reported as such. -/
theorem activateRecorded_stage {candidate : Path}
    (h : activateRecorded env name version requestId previous candidate w = .error f u) :
    f.stage = some .activating ∨ f.stage = some .soaking ∨ f.stage = some .reverting := by
  obtain ⟨r, v, h₁, h⟩ : ∃ r v, Prog.attempt (tryCandidate env name version requestId candidate) w
      = .ok r v ∧ _ := (Prog.bind_eq_error.mp h).resolve_left Prog.attempt_ne_error
  rcases Prog.attempt_eq_ok.mp h₁ with ⟨_, rfl, -⟩ | ⟨setback, rfl, ht⟩
  · rcases Prog.bind_eq_error.mp h with h | ⟨_, v₂, -, h⟩
    · exact absurd h Prog.attempt_ne_error
    · rcases Prog.bind_eq_error.mp h with h | ⟨_, v₃, -, h⟩
      · exact absurd h Prog.attempt_ne_error
      · cases h
  · have h : revertSetback env name setback v = .error f u := h
    rcases Prog.bind_eq_error.mp h with h | ⟨log, v₂, -, h⟩
    · cases hu : setback.unit <;> rw [hu] at h <;> cases h
    · rcases Prog.bind_eq_error.mp h with h | ⟨r, v₃, -, h⟩
      · exact absurd h Prog.attempt_ne_error
      · cases r with
        | ok _ =>
          cases h
          exact Or.inr (Or.inr rfl)
        | error e =>
          cases h
          rcases tryCandidate_stage ht with hs | hs
          · exact Or.inl (congrArg some hs)
          · exact Or.inr (Or.inl (congrArg some hs))

/-- An activation that is recorded on disk says so there. -/
theorem recordActivating_error
    (h : recordActivating env name version requestId previous w = .error f u)
    (unrecorded : (u.stored.get name).map ExtensionState.phase ≠ some .activating) :
    u.stored = w.stored := by
  rw [recordActivating_apply] at h
  obtain ⟨e, h, -⟩ := Prog.mapError_eq_error.mp h
  rcases (store_stored env).of_error h with hs | hs
  · exact hs
  · rw [hs, Node.activating, edit_entry] at unrecorded
    exact absurd rfl unrecorded

theorem requireActivationSpace_room {required : Nat}
    (h : requireActivationSpace env required w = .ok () u) :
    (∃ available, env.available w = .ok available ∧ required ≤ available) ∧ u = w.tick := by
  obtain ⟨available, v, asked, h⟩ := Prog.bind_eq_ok.mp h
  obtain ⟨free, rfl⟩ : env.available w = .ok available ∧ v = w.tick :=
    askFor_ok (g := fun error => (Failure.new .failed error).atStage .checking) asked
  obtain ⟨room, rfl⟩ := demand_ok h
  exact ⟨⟨available, free, by simpa using room⟩, rfl⟩

theorem requireActivationSpace_fits {required available : Nat}
    (ha : env.available w = .ok available) (fits : required ≤ available) :
    requireActivationSpace env required w = .ok () w.tick := by
  have asked : failedAt .checking (availableBytes env) w = .ok available w.tick := by
    refine Prog.mapError_eq_ok.mpr ?_
    unfold availableBytes Act.askFor
    rw [ha]
  rw [requireActivationSpace, Prog.bind_of_ok asked, Prog.demand_apply]
  simp [fits]

/-- The record of an activation that was not made has left everything as it was. -/
theorem recordActivating_unmoved
    (h : recordActivating env name version requestId previous w = .error f u)
    (unrecorded : (u.stored.get name).map ExtensionState.phase ≠ some .activating) :
    Unmoved w u := by
  refine ⟨recordActivating_error h unrecorded, fun p _ => ?_⟩
  rw [recordActivating_apply] at h
  obtain ⟨e, h, -⟩ := Prog.mapError_eq_error.mp h
  exact ((store_images env).of_error h p).trans (readFile_edit w name _ p)

/-- How an activation goes on once it has retained the outgoing image. -/
theorem recordThen_refused {candidate : Path}
    (h : (do
      recordActivating env name version requestId previous
      activateRecorded env name version requestId previous candidate) w = .error f u)
    (early : f.stage ≠ some .activating ∧ f.stage ≠ some .soaking ∧ f.stage ≠ some .reverting)
    (unrecorded : (u.stored.get name).map ExtensionState.phase ≠ some .activating) :
    Unmoved w u := by
  rcases Prog.bind_eq_error.mp h with h | ⟨_, x, -, h⟩
  · exact recordActivating_unmoved h unrecorded
  · rcases activateRecorded_stage h with hs | hs | hs
    · exact absurd hs early.1
    · exact absurd hs early.2.1
    · exact absurd hs early.2.2

theorem outgoingSize_missing {outgoing : String} {image : Bytes}
    (missing : w.fileExists (w.rollbackPath name outgoing) = false)
    (readable : env.unreadable (.metadata (w.activePath name)) w = none)
    (active : w.readFile (w.activePath name) = some image) :
    outgoingSize env name (some outgoing) w = .ok image.length w.tick := by
  rw [outgoingSize, read_apply]
  dsimp only
  rw [if_neg (by rw [missing]; exact Bool.false_ne_true)]
  exact Prog.mapError_eq_ok.mpr (fileSize_runs readable active)

/-- The run of an activation that comes to retain the outgoing image. -/
theorem ComesToRetain.run {outgoing : String} (comes : ComesToRetain env name version outgoing w) :
    activateOver env name version requestId w = (do
      retainOutgoing env name (some outgoing)
      recordActivating env name version requestId (some outgoing)
      activateRecorded env name version requestId (some outgoing)
        (w.candidatePath name version)) w.tick.tick.tick := by
  obtain ⟨recorded, missing, ⟨read, read'⟩, candidate, image, available, there, active, ha, fits⟩ :=
    comes
  have size : failedAt .checking (fileSize env (w.candidatePath name version)) w =
      .ok candidate.length w.tick := Prog.mapError_eq_ok.mpr (fileSize_runs read there)
  have taken : outgoingSize env name (some outgoing) w.tick = .ok image.length w.tick.tick :=
    outgoingSize_missing (w := w.tick)
      (by rw [Node.tick_eq_clock, Node.clock_rollbackPath, Node.clock_fileExists, missing]) read'
      ((readFile_tick w _).trans active)
  rw [activateOver, read_apply, recorded, Prog.bind_of_ok size, Prog.bind_of_ok taken,
    Prog.bind_of_ok (requireActivationSpace_fits ha fits)]

/-- What an activation has changed that is refused after it came to retain an image. -/
theorem ComesToRetain.refused {outgoing : String}
    (comes : ComesToRetain env name version outgoing w)
    (h : activateOver env name version requestId w = .error f u)
    (early : f.stage ≠ some .activating ∧ f.stage ≠ some .soaking ∧ f.stage ≠ some .reverting)
    (unrecorded : (u.stored.get name).map ExtensionState.phase ≠ some .activating) :
    u.stored = w.stored ∧
      (Unmoved w u ↔ Unpublished env (w.rollbackPath name outgoing) w.tick.tick.tick) := by
  rw [comes.run] at h
  obtain ⟨-, missing, -, -, image, -, -, active, -⟩ := comes
  have waited : Later w w.tick.tick.tick := ⟨_, rfl⟩
  have paths : w.tick.tick.tick.rollbackPath name outgoing = w.rollbackPath name outgoing := rfl
  have active' : w.tick.tick.tick.readFile (w.tick.tick.tick.activePath name) = some image := by
    obtain ⟨t, ht⟩ := waited
    rw [ht, Node.clock_activePath, Node.clock_readFile, active]
  have free : w.tick.tick.tick.readFile (w.rollbackPath name outgoing) = none := by
    obtain ⟨t, ht⟩ := waited
    rw [ht, Node.clock_readFile]
    simpa [Node.fileExists] using missing
  generalize w.tick.tick.tick = y at *
  have named := w.endsWith_rollback name outgoing
  have final : Text.endsWith (w.rollbackPath name outgoing).name ".new" = false :=
    endsWith_false named (by decide)
  have copies : retainOutgoing env name (some outgoing) y =
      Prog.mapError (fun error =>
          (Failure.new .failed s!"could not retain the outgoing image: {error}").atStage .staging)
        (durableCopy env (y.activePath name) (w.rollbackPath name outgoing)) y := by
    rw [retainOutgoing, read_apply]
    dsimp only
    rw [paths, if_pos (by simp [Node.fileExists, active', free])]
  let copied := durableCopy env (y.activePath name) (w.rollbackPath name outgoing) y
  have verdict : Unmoved y copied.state ↔ Unpublished env (w.rollbackPath name outgoing) y :=
    copy_unmoved_iff active' free named
  have record : copied.state.stored = y.stored := (durableCopy_record env _ _ y).stored
  suffices rest : ∃ x, copied.state = x ∧ Unmoved x u by
    obtain ⟨x, ran, same⟩ := rest
    rw [ran] at verdict record
    refine ⟨?_, ?_⟩
    · exact same.stored.trans (record.trans waited.unmoved.stored)
    · exact (waited.unmoved.congr same.symm).trans verdict
  rcases Prog.bind_eq_error.mp h with h | ⟨_, x, hx, h⟩
  · obtain ⟨e, h, -⟩ := Prog.mapError_eq_error.mp (copies.symm.trans h)
    have stays : Later u u := Std.Refl.refl u
    exact ⟨u, congrArg Outcome.state h, stays.unmoved⟩
  · have hx := Prog.mapError_eq_ok.mp (copies.symm.trans hx)
    exact ⟨x, congrArg Outcome.state hx, recordThen_refused h early unrecorded⟩

/-- Retaining the outgoing image does nothing where there is none or it is retained. -/
theorem retainOutgoing_skips (previous : Option String)
    (skips : ∀ version, previous = some version → w.fileExists (w.activePath name) = true →
      w.fileExists (w.rollbackPath name version) ≠ false) :
    retainOutgoing env name previous w = .ok () w := by
  rw [retainOutgoing, read_apply]
  cases previous with
  | none => rfl
  | some version =>
    dsimp only
    split
    · rename_i needed
      rw [Bool.and_eq_true, Bool.not_eq_true'] at needed
      exact absurd needed.2 (skips version rfl needed.1)
    · rfl

/-- What an activation has changed that is refused without coming to retain an image. -/
theorem notRetained_refused
    (never : ∀ outgoing, ¬ ComesToRetain env name version outgoing w)
    (h : activateOver env name version requestId w = .error f u)
    (early : f.stage ≠ some .activating ∧ f.stage ≠ some .soaking ∧ f.stage ≠ some .reverting)
    (unrecorded : (u.stored.get name).map ExtensionState.phase ≠ some .activating) :
    Unmoved w u := by
  rw [activateOver, read_apply] at h
  rcases Prog.bind_eq_error.mp h with h | ⟨size, v₁, h₁, h⟩
  · exact (show Later w u from (failedAt_quiet (fileSize_quiet env _) _).of_error h).unmoved
  have h₁ := Prog.mapError_eq_ok.mp h₁
  have read := fileSize_readable h₁
  obtain ⟨candidate, there, rfl⟩ := fileSize_present h₁
  obtain ⟨-, -, rfl⟩ := fileSize_ok h₁
  rcases Prog.bind_eq_error.mp h with h | ⟨outgoing, v₂, h₂, h⟩
  · have later : Later w.tick u := (outgoingSize_quiet env name _).of_error h
    exact (Later.tick w).unmoved.trans later.unmoved
  obtain ⟨t, ht⟩ : Later w.tick v₂ := (outgoingSize_quiet env name _).of_ok h₂
  rcases Prog.bind_eq_error.mp h with h | ⟨_, v₃, h₃, h⟩
  · have later : Later v₂ u := (requireActivationSpace_quiet env _).of_error h
    exact (Later.unmoved ⟨t, ht⟩ : Unmoved w v₂).trans later.unmoved
  obtain ⟨⟨available, ha, fits⟩, rfl⟩ := requireActivationSpace_room h₃
  have waited : Later w v₂.tick := ⟨v₂.tick.now, by rw [ht]; rfl⟩
  have skipped : retainOutgoing env name ((w.memory.get name).bind ExtensionState.activeVersion)
      v₂.tick = .ok () v₂.tick := by
    refine retainOutgoing_skips _ fun version' recorded present missing => never version' ?_
    rw [recorded] at h₂
    have gone : w.tick.fileExists (w.tick.rollbackPath name version') = false := by
      rw [ht] at missing
      exact missing
    rw [outgoingSize, read_apply] at h₂
    dsimp only at h₂
    rw [if_neg (by rw [gone]; exact Bool.false_ne_true)] at h₂
    have weighed := Prog.mapError_eq_ok.mp h₂
    have readable := fileSize_readable weighed
    obtain ⟨image, active, rfl⟩ := fileSize_present weighed
    obtain ⟨-, -, rfl⟩ := fileSize_ok weighed
    exact ⟨recorded, gone, ⟨read, readable⟩, candidate, image, available, there,
      (readFile_tick w _).symm.trans active, ha, fits⟩
  rw [Prog.bind_of_ok skipped] at h
  exact waited.unmoved.trans (recordThen_refused h early unrecorded)

/-- What an activation has changed that is refused once the active image is adopted or left
as it is. -/
theorem activateOver_refused (h : activateOver env name version requestId w = .error f u)
    (early : f.stage ≠ some .activating ∧ f.stage ≠ some .soaking ∧ f.stage ≠ some .reverting)
    (unrecorded : (u.stored.get name).map ExtensionState.phase ≠ some .activating) :
    u.stored = w.stored ∧ (Unmoved w u ↔ RetentionStops env name version w) := by
  by_cases comes : ∃ outgoing, ComesToRetain env name version outgoing w
  · obtain ⟨outgoing, comes⟩ := comes
    obtain ⟨stored, verdict⟩ := comes.refused h early unrecorded
    refine ⟨stored, verdict.trans ⟨fun stops outgoing' comes' => ?_, fun stops => ?_⟩⟩
    · have recorded := comes.recorded.symm.trans comes'.recorded
      obtain rfl : outgoing = outgoing' := Option.some.inj recorded
      exact stops
    · exact stops _ comes
  · rw [not_exists] at comes
    have same := notRetained_refused comes h early unrecorded
    exact ⟨same.stored, iff_of_true same fun outgoing comes' => absurd comes' (comes _)⟩

theorem recordAdoption_ok {current : String} (h : recordAdoption env name current w = .ok () u) :
    (u.stored.get name).bind ExtensionState.knownGoodVersion = some current := by
  obtain ⟨_, v, -, h⟩ := Prog.bind_eq_ok.mp h
  have h : Prog.mapError AdoptError.failed (store env) (v.adopting name current) = .ok () u := h
  rw [store_ok (Prog.mapError_eq_ok.mp h)]
  change ((v.adopting name current).memory.get name).bind _ = _
  rw [Node.adopting, edit_entry]
  rfl

theorem recordAdoption_error {current : String} {e : AdoptError}
    (h : recordAdoption env name current w = .error e u) : ∃ error, e = .failed error := by
  rcases Prog.bind_eq_error.mp h with h | ⟨_, v, -, h⟩
  · obtain ⟨error, -, rfl⟩ := Prog.mapError_eq_error.mp h
    exact ⟨error, rfl⟩
  · have h : Prog.mapError AdoptError.failed (store env) (v.adopting name current) = .error e u := h
    obtain ⟨error, -, rfl⟩ := Prog.mapError_eq_error.mp h
    exact ⟨error, rfl⟩

/-- An image is active that is not on record. -/
structure Unrecorded (name : String) (w : Node) : Prop where
  fresh : (w.memory.get name).bind ExtensionState.knownGoodVersion = none
  present : w.fileExists (w.activePath name) = true

/-- How an activation takes the outcome of an adoption. -/
def settleAdoption : Except AdoptError Unit → Act Failure Unit
  | .ok () => pure ()
  | .error (.noRuleset _) => pure ()
  | .error error => do
    let shown := error.display
    Prog.fail
      ((Failure.new .failed s!"could not adopt the active image: {shown}").atStage .checking)

theorem Unrecorded.adopts {current : String} (unrecorded : Unrecorded name w)
    (version : (env.extensionRelease name w).bind mergedVersionIn = some current) :
    adoptUnrecorded env name w =
      (Prog.attempt (adoptActive env name current) >>= settleAdoption) w.tick := by
  rw [adoptUnrecorded, read_apply,
    if_pos (by rw [unrecorded.fresh, unrecorded.present]; rfl), mergedVersion,
    Prog.bind_of_ok (Act.ask_apply _ _), version]
  refine congrArg (fun rest => (Prog.attempt (adoptActive env name current) >>= rest) w.tick) ?_
  funext result
  rcases result with (e | e) | _ <;> rfl

theorem Unrecorded.settles {current : String} {result : Except AdoptError Unit} {y : Node}
    (unknown : Unrecorded name w)
    (version : (env.extensionRelease name w).bind mergedVersionIn = some current)
    (tried : (∃ a, result = .ok a ∧ adoptActive env name current w.tick = .ok a y) ∨
      ∃ e, result = .error e ∧ adoptActive env name current w.tick = .error e y) :
    adoptUnrecorded env name w = settleAdoption result y := by
  rw [unknown.adopts version, Prog.bind_of_ok (Prog.attempt_eq_ok.mpr tried)]

/-- What an activation has changed that is refused over an image it adopts. -/
theorem Unrecorded.refused {current : String} {x : Node} (unknown : Unrecorded name w)
    (version' : (env.extensionRelease name w).bind mergedVersionIn = some current)
    (recorded : w.memory = w.stored) (later : Later w x)
    (ran : adoptActive env name current w.tick = recordAdoption env name current x)
    (h : activateCandidate env name version requestId w = .error f u)
    (early : f.stage ≠ some .activating ∧ f.stage ≠ some .soaking ∧ f.stage ≠ some .reverting)
    (unrecorded : (u.stored.get name).map ExtensionState.phase ≠ some .activating) :
    Unmoved w u ↔ AdoptionStops env name current x := by
  obtain ⟨image, active⟩ := Option.isSome_iff_exists.mp unknown.present
  have waited : Unmoved w x := later.unmoved
  have verdict : Unmoved x (recordAdoption env name current x).state ↔
      AdoptionStops env name current x := by
    obtain ⟨t, rfl⟩ := later
    have still : (w.clock t).readFile ((w.clock t).activePath name) = some image := by
      rw [Node.clock_readFile, Node.clock_activePath]
      exact active
    exact recordAdoption_unmoved_iff recorded unknown.fresh still
  rw [← verdict]
  rw [activateCandidate_over] at h
  cases outcome : recordAdoption env name current x with
  | ok _ y =>
    rw [outcome] at ran
    rw [Prog.bind_of_ok (unknown.settles version' (Or.inl ⟨_, rfl, ran⟩))] at h
    obtain ⟨stored, -⟩ := activateOver_refused h early unrecorded
    have fresh : (w.stored.get name).bind ExtensionState.knownGoodVersion = none :=
      recorded ▸ unknown.fresh
    have known := recordAdoption_ok outcome
    -- the record has the adoption from here on
    refine iff_of_false (fun same => ?_) fun same => ?_
    · rw [← stored, same.stored, fresh] at known
      cases known
    · have same : y.stored = x.stored := same.stored
      rw [same, waited.stored, fresh] at known
      cases known
  | error e y =>
    rw [outcome] at ran
    obtain ⟨error, rfl⟩ := recordAdoption_error outcome
    have settled := unknown.settles version' (Or.inr ⟨_, rfl, ran⟩)
    rw [Prog.bind_of_error settled] at h
    cases h
    exact waited.congr (Std.Refl.refl u : Later u u).unmoved
  | halt y =>
    rw [outcome] at ran
    have stopped := (unknown.adopts version').trans
      (Prog.bind_of_halt (Prog.attempt_eq_halt.mpr ran) settleAdoption)
    rw [Prog.bind_of_halt stopped] at h
    cases h

/-- What an activation has changed that is refused before its record. -/
theorem activateCandidate_refused (recorded : w.memory = w.stored)
    (h : activateCandidate env name version requestId w = .error f u)
    (early : f.stage ≠ some .activating ∧ f.stage ≠ some .soaking ∧ f.stage ≠ some .reverting)
    (unrecorded : (u.stored.get name).map ExtensionState.phase ≠ some .activating) :
    Unmoved w u ↔ FirstStepStops env name version w := by
  have proceed : ∀ x, Later w x → adoptUnrecorded env name w = .ok () x →
      (Unmoved w u ↔ RetentionStops env name version x) := by
    intro x later none
    rw [activateCandidate_over, Prog.bind_of_ok none] at h
    obtain ⟨-, verdict⟩ := activateOver_refused h early unrecorded
    exact (later.unmoved.congr (Std.Refl.refl u : Later u u).unmoved).trans verdict
  unfold FirstStepStops
  split
  · rename_i found
    rw [Bool.and_eq_true, Option.isNone_iff_eq_none] at found
    have unknown : Unrecorded name w := ⟨found.1, found.2⟩
    cases version' : (env.extensionRelease name w).bind mergedVersionIn with
    | none =>
      refine proceed w.tick (Later.tick w) ?_
      rw [adoptUnrecorded, read_apply, if_pos (by rw [found.1, found.2]; rfl), mergedVersion,
        Prog.bind_of_ok (Act.ask_apply _ _), version']
      rfl
    | some current =>
      dsimp only
      rcases loadNamed_quiet env name w.tick with
        ⟨ruleset, v, loaded, t, rfl⟩ | ⟨e, v, loaded, t, rfl⟩
      · have present : (w.tick.clock t).fileExists ((w.tick.clock t).activePath name) = true := by
          rw [Node.clock_fileExists, Node.tick_eq_clock, Node.clock_fileExists]
          exact found.2
        rw [loaded]
        dsimp only
        rcases healthyNow_quiet env ruleset (w.tick.clock t) with
          ⟨_, x, healthy, s, rfl⟩ | ⟨e, x, healthy, s, rfl⟩
        · rw [healthy]
          exact unknown.refused version' recorded ⟨s, rfl⟩
            (adoptActive_apply loaded present healthy)
            h early unrecorded
        · rw [healthy]
          have failed : adoptActive env name current w.tick =
              .error (.failed e) ((w.tick.clock t).clock s) := by
            rw [adoptActive, Prog.bind_of_ok (Prog.mapError_eq_ok.mpr loaded), read_apply,
              Prog.bind_of_ok (demand_active present)]
            exact Prog.bind_of_error (Prog.mapError_eq_error.mpr ⟨e, healthy, rfl⟩) _
          have settled := unknown.settles version' (Or.inr ⟨_, rfl, failed⟩)
          rw [activateCandidate_over, Prog.bind_of_error settled] at h
          cases h
          exact iff_of_true (Later.unmoved ⟨s, rfl⟩) trivial
      · rw [loaded]
        have unruled : adoptActive env name current w.tick =
            .error (.noRuleset e) (w.tick.clock t) :=
          Prog.bind_of_error (Prog.mapError_eq_error.mpr ⟨e, loaded, rfl⟩) _
        exact proceed _ ⟨t, rfl⟩ (unknown.settles version' (Or.inr ⟨_, rfl, unruled⟩))
  · rename_i found
    refine proceed w (Std.Refl.refl w) ?_
    rw [adoptUnrecorded, read_apply, if_neg found]
    rfl

/-- An activation refused before its record leaves the record and every image alone, unless
it came to a durable step before that and the first one took effect. -/
theorem refusal_spares_iff
    (failed : activateExtension env name version requestId w = .error f u)
    (early : f.stage ≠ some .activating ∧ f.stage ≠ some .soaking ∧ f.stage ≠ some .reverting)
    (unrecorded : (u.stored.get name).map ExtensionState.phase ≠ some .activating) :
    Unmoved w u ↔ RefusalSpares env name version w := by
  unfold RefusalSpares
  rcases Prog.bind_eq_error.mp failed with h | ⟨s, v, hv, h⟩
  · obtain ⟨e, h, -⟩ := Prog.mapError_eq_error.mp h
    have later : Later w u := (loadState_quiet env).of_error h
    refine iff_of_true later.unmoved fun readable => ?_
    rw [loadState, readable] at h
    cases h
  obtain ⟨rfl, rfl⟩ := loadState_ok (Prog.mapError_eq_ok.mp hv)
  have readable : env.unreadable .state w = none := by
    have hv := Prog.mapError_eq_ok.mp hv
    unfold loadState at hv
    cases hu : env.unreadable .state w with
    | none => rfl
    | some e =>
      rw [hu] at hv
      cases hv
  have loaded : Unmoved w w.loaded := by
    refine ⟨rfl, fun p _ => ?_⟩
    cases p with | mk place file => cases place <;> rfl
  rw [Prog.bind_of_ok (Act.hold_apply _ _), read_apply] at h
  split at h
  · cases h
  dsimp only at h
  split at h
  · rename_i there
    have h : activateCandidate env name version requestId w.loaded = .error f u := h
    refine (loaded.congr (Std.Refl.refl u : Later u u).unmoved).trans ?_
    refine (activateCandidate_refused rfl h early unrecorded).trans ?_
    exact ⟨fun stops _ _ => stops, fun spares => spares readable there⟩
  · rename_i missing
    cases h
    exact iff_of_true loaded fun _ there => absurd there missing

end

/-- Space runs out as long as the newer image is staged. -/
def crowded : Environment :=
  { calm twoVersions with
    available := fun w =>
      .ok (if w.fileExists ⟨.extensions, "n_1.raw.b.candidate"⟩ then 0 else 2 ^ 40) }

/-- A newer image is staged beside one that is merged and not recorded. -/
def unrecordedStaged : Node :=
  run crowded [.boot (some "VERSION_ID=1") [], stageFile "n" "/2"] (.with "1" [("n_1.raw", [1])])

theorem refusal_spares_iff_crowded :
    Unmoved unrecordedStaged (activateExtension crowded "n" "b" none unrecordedStaged).state ↔
      RefusalSpares crowded "n" "b" unrecordedStaged := by
  have stage : (activateExtension crowded "n" "b" none unrecordedStaged).failure.map
      Failure.stage = some (some .checking) := by decide +kernel
  have unrecorded : ((activateExtension crowded "n" "b" none unrecordedStaged).state.stored.get
      "n").map ExtensionState.phase ≠ some .activating := by decide +kernel
  obtain ⟨f, hf, hs⟩ := Option.map_eq_some_iff.mp stage
  have early : f.stage ≠ some .activating ∧ f.stage ≠ some .soaking ∧
      f.stage ≠ some .reverting := by
    rw [hs]
    decide
  exact refusal_spares_iff (Outcome.eq_error hf) early unrecorded

/-- Refused for want of space, the activation has recorded an adoption, and the next
command discards the candidate. -/
theorem refusal_loses_candidate :
    let request : Request := { name := some "n", version := some "b" }
    let refused := Call.activateExtension.run crowded request unrecordedStaged.process
    let again := Call.activateExtension.run (calm twoVersions) request refused.state.process
    refused.failure.map Failure.code = some .noSpace ∧
      (unrecordedStaged.stored.get "n").map ExtensionState.phase = some .staged ∧
      (refused.state.stored.get "n").map ExtensionState.phase = some .active ∧
      unrecordedStaged.rollbackImage "n" "a" = none ∧
      refused.state.rollbackImage "n" "a" = some [1] ∧
      unrecordedStaged.candidateImage "n" "b" = some [2] ∧
      again.failure.map Failure.code = some .notFound := by
  decide +kernel

end CarbideOS.Agent
