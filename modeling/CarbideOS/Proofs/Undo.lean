import CarbideOS.Proofs.Budget

namespace CarbideOS.Agent
open Interruptible

/-! Whether every image copy of an admitted activation, and of the recovery after it,
finds the space it needs. -/

/-- The image files and the base are as they were. -/
structure SameFiles (w u : Node) : Prop where
  osRelease : u.osRelease = w.osRelease
  extensions : u.extensions = w.extensions
  staging : u.staging = w.staging

instance : IsPreorder Node SameFiles where
  refl _ := ⟨rfl, rfl, rfl⟩
  trans _ _ _ h h' := ⟨h'.osRelease.trans h.osRelease, h'.extensions.trans h.extensions,
    h'.staging.trans h.staging⟩

namespace SameFiles
variable {w u : Node}

theorem refl (w : Node) : SameFiles w w := Std.Refl.refl w

theorem scope (h : SameFiles w u) : u.scope = w.scope := by
  unfold Node.scope Node.osVersion Node.osReleaseValue
  rw [h.osRelease]

theorem readFile (h : SameFiles w u) (p : Path) : u.readFile p = w.readFile p := by
  obtain ⟨place, f⟩ := p
  cases place
  · exact congrArg (·[f]?) h.extensions
  · exact congrArg (·[f]?) h.staging

theorem used (h : SameFiles w u) : u.used = w.used := used_of_dirs h.extensions h.staging

end SameFiles

section
variable (env : Environment) {ε α : Type} {name : String}

theorem quiet_sameFiles {m : Act ε α} (h : Quiet m) : Within SameFiles m := by
  refine (Returns.within h).mono ?_
  rintro w _ ⟨t, rfl⟩
  exact ⟨rfl, rfl, rfl⟩

theorem entry_sameFiles (f : ExtensionState → ExtensionState) :
    Within SameFiles (Act.entry name f : Act ε Unit) := fun _ => ⟨rfl, rfl, rfl⟩

theorem note_sameFiles (image : Option Bytes) (verdict : Verdict) :
    Within SameFiles (Act.note name image verdict : Act ε Unit) := by
  intro w
  cases image <;> exact ⟨rfl, rfl, rfl⟩

theorem store_sameFiles : Within SameFiles (store env) := by
  apply Act.durable_within
  · exact fun w => ⟨rfl, rfl, rfl⟩
  · intro w reached leftover
    split <;> exact ⟨rfl, rfl, rfl⟩

theorem sysextRefresh_sameFiles : Within SameFiles (sysextRefresh env) := by
  intro w
  unfold sysextRefresh
  dsimp only
  split <;> exact ⟨rfl, rfl, rfl⟩

theorem judged_sameFiles (image : Option Bytes) {m : Act String Unit} (h : Quiet m)
    (setback : String → Setback) : Within SameFiles (judged name image m setback) := by
  refine Within.bind (Within.attempt (quiet_sameFiles h)) fun r => ?_
  cases r with
  | ok _ => exact Within.pure ()
  | error reason => exact Within.bind (note_sameFiles _ _) fun _ => Within.fail _

theorem prove_sameFiles (image : Option Bytes) (ruleset : Ruleset) :
    Within SameFiles (prove env name image ruleset) := by
  refine Within.bind (entry_sameFiles _) fun _ => ?_
  refine Within.bind (Within.mapError (store_sameFiles env)) fun _ => ?_
  refine Within.bind (judged_sameFiles _ (waitUntilReady_quiet env _) _) fun _ => ?_
  refine Within.bind (entry_sameFiles _) fun _ => ?_
  refine Within.bind (Within.mapError (store_sameFiles env)) fun _ => ?_
  refine Within.bind (judged_sameFiles _ (soak_quiet env _) _) fun _ => ?_
  exact note_sameFiles _ _

theorem commit_sameFiles (version : String) (requestId : Option String) (unit : String) :
    Within SameFiles (commit env name version requestId unit) := by
  refine Within.read fun w => ?_
  refine Within.bind (entry_sameFiles _) fun _ => ?_
  refine Within.bind (Within.attempt (store_sameFiles env)) fun r => ?_
  cases r with
  | ok _ => exact Within.pure ()
  | error e => exact Within.bind (fun _ => ⟨rfl, rfl, rfl⟩) fun _ => Within.fail _

end

/-! The space that stays taken when the unscoped image and the remains of an unfinished
copy of the active one are out of the way, as they are when it is replaced. -/

def Node.bareUsed (w : Node) (name : String) : Nat :=
  ((w.unlink (legacyActivePath name)).unlink (Node.temporary (scopedActivePath name w.scope))).used

section
variable {env : Environment} {name : String} {w u v : Node}

theorem bareUsed_add (w : Node) (name : String) :
    w.bareUsed name + w.sizeOf (legacyActivePath name) +
      w.sizeOf (Node.temporary (scopedActivePath name w.scope)) = w.used := by
  have first := w.used_unlink (legacyActivePath name)
  have second := (w.unlink (legacyActivePath name)).used_unlink
    (Node.temporary (scopedActivePath name w.scope))
  have apart : Node.temporary (scopedActivePath name w.scope) ≠ legacyActivePath name :=
    (ne_temporary (endsWith_raw_legacy name) (by decide) _).symm
  have same : (w.unlink (legacyActivePath name)).sizeOf
      (Node.temporary (scopedActivePath name w.scope)) =
        w.sizeOf (Node.temporary (scopedActivePath name w.scope)) := by
    rw [Node.sizeOf, Node.readFile_unlink, if_neg apart, Node.sizeOf]
  unfold Node.bareUsed
  omega

/-- The space a copy over the active image finds taken. -/
theorem bareUsed_of_hidden (h : w.readFile (legacyActivePath name) = none) :
    (w.unlink (Node.temporary (scopedActivePath name w.scope))).used = w.bareUsed name := by
  have all := bareUsed_add w name
  have room := w.used_unlink (Node.temporary (scopedActivePath name w.scope))
  have none : w.sizeOf (legacyActivePath name) = 0 := by
    rw [Node.sizeOf, h]
    rfl
  omega

/-- Nothing has changed but the unscoped image and the remains of unfinished copies of
the active one. -/
structure Level (name : String) (w u : Node) : Prop where
  osRelease : u.osRelease = w.osRelease
  bare : u.bareUsed name = w.bareUsed name
  files : ∀ p, p ≠ legacyActivePath name → p ≠ Node.temporary (scopedActivePath name w.scope) →
    u.readFile p = w.readFile p

theorem Level.scope (h : Level name w u) : u.scope = w.scope := by
  unfold Node.scope Node.osVersion Node.osReleaseValue
  rw [h.osRelease]

instance (name : String) : IsPreorder Node (Level name) where
  refl _ := ⟨rfl, rfl, fun _ _ _ => rfl⟩
  trans _ _ _ h h' := by
    refine ⟨h'.osRelease.trans h.osRelease, h'.bare.trans h.bare, fun p hl ht => ?_⟩
    rw [h'.files p hl (by rwa [h.scope]), h.files p hl ht]

theorem SameFiles.level (h : SameFiles w u) : Level name w u := by
  refine ⟨h.osRelease, ?_, fun p _ _ => h.readFile p⟩
  have before := bareUsed_add w name
  have after := bareUsed_add u name
  simp only [Node.sizeOf, h.readFile, h.scope, h.used] at after
  simp only [Node.sizeOf] at before
  omega

/-- The active image has been replaced by other bytes. -/
structure Swapped (name : String) (bytes : Bytes) (w u : Node) : Prop where
  osRelease : u.osRelease = w.osRelease
  bare : u.bareUsed name + w.sizeOf (scopedActivePath name w.scope) = w.bareUsed name + bytes.length
  rollback : ∀ k, u.rollbackImage name k = w.rollbackImage name k

theorem Level.sizeOf (h : Level name w u) {p : Path} (hl : p ≠ legacyActivePath name)
    (ht : p ≠ Node.temporary (scopedActivePath name w.scope)) : u.sizeOf p = w.sizeOf p := by
  rw [Node.sizeOf, h.files p hl ht, Node.sizeOf]

theorem Level.rollback (h : Level name w u) (k : String) :
    u.rollbackImage name k = w.rollbackImage name k := by
  rw [Node.rollbackImage, Node.rollbackImage, Node.rollbackPath, Node.rollbackPath, h.scope]
  exact h.files _ (path_ne_of_endings (w.endsWith_rollback name k) (endsWith_raw_legacy name)
    (by decide)) (ne_temporary (w.endsWith_rollback name k) (by decide) _)

theorem Level.scoped (h : Level name w u) :
    u.sizeOf (scopedActivePath name w.scope) = w.sizeOf (scopedActivePath name w.scope) :=
  h.sizeOf (legacy_ne_active name _).symm (ne_temporary (endsWith_raw_scoped name _) (by decide) _)

theorem Swapped.after_level {bytes : Bytes} (h : Level name w u) (h' : Swapped name bytes u v) :
    Swapped name bytes w v := by
  refine ⟨h'.osRelease.trans h.osRelease, ?_, fun k => (h'.rollback k).trans (h.rollback k)⟩
  have swapped := h'.bare
  rw [h.scope, h.scoped, h.bare] at swapped
  exact swapped

theorem Swapped.then_level {bytes : Bytes} (h : Swapped name bytes w u) (h' : Level name u v) :
    Swapped name bytes w v := by
  refine ⟨h'.osRelease.trans h.osRelease, ?_, fun k => (h'.rollback k).trans (h.rollback k)⟩
  rw [h'.bare]
  exact h.bare

theorem unlink_level (w : Node) {p : Path} (h : p = legacyActivePath name) :
    Level name w (w.unlink p) := by
  subst h
  have scope : (w.unlink (legacyActivePath name)).scope = w.scope := (SameRecord.setDir w _ _).scope
  refine ⟨(SameRecord.setDir w _ _).osRelease, ?_, fun q hl _ => ?_⟩
  · have before := bareUsed_add w name
    have after := bareUsed_add (w.unlink (legacyActivePath name)) name
    have removed := w.used_unlink (legacyActivePath name)
    have gone : (w.unlink (legacyActivePath name)).sizeOf (legacyActivePath name) = 0 := by
      rw [Node.sizeOf, Node.readFile_unlink, if_pos rfl]
      rfl
    have still : (w.unlink (legacyActivePath name)).sizeOf
        (Node.temporary (scopedActivePath name w.scope)) =
          w.sizeOf (Node.temporary (scopedActivePath name w.scope)) := by
      rw [Node.sizeOf, Node.readFile_unlink,
        if_neg (ne_temporary (endsWith_raw_legacy name) (by decide) _).symm, Node.sizeOf]
    rw [scope] at after
    omega
  · rw [Node.readFile_unlink, if_neg hl]

theorem hideLegacy_level : Within (Level name) (hideLegacy env name) := by
  refine Within.read fun w => ?_
  dsimp only
  split
  · refine Within.read fun v => ?_
    split
    · apply Act.durable_within
      · exact fun v => IsTrans.trans _ _ _ (unlink_level v rfl) (SameFiles.level ⟨rfl, rfl, rfl⟩)
      · intro v reached leftover
        split
        · exact IsTrans.trans _ _ _ (unlink_level v rfl) (SameFiles.level ⟨rfl, rfl, rfl⟩)
        · exact SameFiles.level ⟨rfl, rfl, rfl⟩
    · exact Within.pure ()
  · exact Within.pure ()

theorem hideLegacy_hidden (h : hideLegacy env name w = .ok () u) :
    u.readFile (legacyActivePath name) = none := by
  rw [hideLegacy, read_apply] at h
  split at h
  · rw [durableRemove_reads h, if_pos rfl]
  · rename_i absent
    cases h
    have absent : w.fileExists (legacyActivePath name) = false := by
      simpa [legacy_ne_active] using absent
    simpa [Node.fileExists] using absent

/-- What an unfinished copy leaves is in its sibling. -/
theorem used_leaveBehind (w : Node) (target : Path) (bytes : Bytes) (leftover : Option Nat) :
    (w.leaveBehind target bytes leftover).used + w.sizeOf (Node.temporary target) =
      w.used + (w.leaveBehind target bytes leftover).sizeOf (Node.temporary target) := by
  cases leftover with
  | none =>
    have gone : (w.unlink (Node.temporary target)).sizeOf (Node.temporary target) = 0 := by
      rw [Node.sizeOf, Node.readFile_unlink, if_pos rfl]
      rfl
    have removed := w.used_unlink (Node.temporary target)
    have same : w.leaveBehind target bytes none = w.unlink (Node.temporary target) := rfl
    rw [same]
    omega
  | some n =>
    have dirs := w.used_setDir target.place
      ((w.dir target.place).insert (temporaryName target.name) (bytes.take n))
    have inserted :=
      Sizes.total_insert (w.dir target.place) (temporaryName target.name) (bytes.take n)
    have left : (w.leaveBehind target bytes (some n)).sizeOf (Node.temporary target) =
        (bytes.take n).length := by
      have place : (Node.temporary target).place = target.place := rfl
      apply Node.sizeOf_eq
      rw [Node.leaveBehind, Node.readFile_setDir, if_pos place]
      simp [Node.temporary]
    rw [left]
    simp only [Node.leaveBehind, Node.sizeOf, Node.readFile, Node.temporary]
    omega

theorem leaveBehind_level (w : Node) (bytes : Bytes) (leftover : Option Nat) :
    Level name w (w.leaveBehind (scopedActivePath name w.scope) bytes leftover) := by
  have record : SameRecord w (w.leaveBehind (scopedActivePath name w.scope) bytes leftover) := by
    cases leftover <;> exact SameRecord.setDir w .extensions _
  refine ⟨record.osRelease, ?_, fun p _ ht => Node.readFile_leaveBehind ht⟩
  have before := bareUsed_add w name
  have after := bareUsed_add (w.leaveBehind (scopedActivePath name w.scope) bytes leftover) name
  have taken := used_leaveBehind w (scopedActivePath name w.scope) bytes leftover
  have legacy : (w.leaveBehind (scopedActivePath name w.scope) bytes leftover).sizeOf
      (legacyActivePath name) = w.sizeOf (legacyActivePath name) := by
    rw [Node.sizeOf,
      Node.readFile_leaveBehind (ne_temporary (endsWith_raw_legacy name) (by decide) _),
      Node.sizeOf]
  rw [record.scope, legacy] at after
  omega

theorem publish_swapped (w : Node) (bytes : Bytes) :
    Swapped name bytes w (w.publish (scopedActivePath name w.scope) bytes) := by
  have record : SameRecord w (w.publish (scopedActivePath name w.scope) bytes) :=
    SameRecord.setDir w _ _
  refine ⟨record.osRelease, ?_, fun k => ?_⟩
  · have before := bareUsed_add w name
    have after := bareUsed_add (w.publish (scopedActivePath name w.scope) bytes) name
    have taken := w.used_publish (scopedActivePath name w.scope) bytes
    have legacy : (w.publish (scopedActivePath name w.scope) bytes).sizeOf (legacyActivePath name) =
        w.sizeOf (legacyActivePath name) := by
      rw [Node.sizeOf,
        Node.readFile_publish (ne_temporary (endsWith_raw_legacy name) (by decide) _),
        if_neg (legacy_ne_active name _), Node.sizeOf]
    have gone : (w.publish (scopedActivePath name w.scope) bytes).sizeOf
        (Node.temporary (scopedActivePath name w.scope)) = 0 := by
      have apart := Node.temporaryName_ne (scopedActivePath name w.scope).name
      have gone : ((w.extensions.erase (temporaryName (scopedActivePath name w.scope).name)).insert
          (scopedActivePath name w.scope).name bytes : Dir)[temporaryName
            (scopedActivePath name w.scope).name]? = none := by
        rw [Dir.get_insert, if_neg apart.symm, Dir.get_erase, if_pos rfl]
      exact congrArg (fun o : Option Bytes => (o.getD []).length) gone
    rw [record.scope, legacy, gone] at after
    omega
  · have hr := w.endsWith_rollback name k
    rw [Node.rollbackImage, Node.rollbackPath, record.scope]
    change Node.readFile _ (w.rollbackPath name k) = _
    rw [Node.readFile_publish (ne_temporary hr (by decide) _),
      if_neg (path_ne_of_endings hr (endsWith_raw_scoped name _) (by decide))]
    rfl

/-- However it ends, replacing the active image leaves it or has swapped it. -/
theorem installActive_swaps {source : Path} {bytes : Bytes} (read : w.readFile source = some bytes)
    (hl : source ≠ legacyActivePath name)
    (ht : source ≠ Node.temporary (scopedActivePath name w.scope)) :
    Level name w (installActive env source name w).state ∨
      Swapped name bytes w (installActive env source name w).state := by
  rw [installActive, read_apply]
  refine Prog.bind_state (P := fun u => Level name w u ∨ Swapped name bytes w u)
    (Or.inl (hideLegacy_level w)) fun _ v hv => ?_
  have hidden : Level name w v := hideLegacy_level.of_ok hv
  have there : v.readFile source = some bytes := (hidden.files source hl ht).trans read
  have ticked : ∀ x : Node, Level name x x.tick := fun x => SameFiles.level ⟨rfl, rfl, rfl⟩
  rw [durableCopy, read_apply, there, ← hidden.scope]
  have steps : Within (fun x u => x.scope = v.scope → Level name x u ∨ Swapped name bytes x u)
      (durablePublish env bytes (scopedActivePath name v.scope)) := by
    apply Act.durable_within
    · intro x hx
      rw [← hx]
      exact Or.inr ((publish_swapped x bytes).then_level (ticked _))
    · intro x reached leftover hx
      rw [← hx]
      have left := @leaveBehind_level name x bytes leftover
      split
      · right
        have swapped := @publish_swapped name
          (x.leaveBehind (scopedActivePath name x.scope) bytes leftover) bytes
        rw [left.scope] at swapped
        exact (Swapped.after_level left swapped).then_level (ticked _)
      · exact Or.inl (IsTrans.trans _ _ _ left (ticked _))
  rcases steps v rfl with h | h
  · exact Or.inl (IsTrans.trans _ _ _ hidden h)
  · exact Or.inr (Swapped.after_level hidden h)

/-- Where it works it has swapped it. -/
theorem installActive_swapped {source : Path} {bytes : Bytes}
    (read : w.readFile source = some bytes)
    (hl : source ≠ legacyActivePath name)
    (ht : source ≠ Node.temporary (scopedActivePath name w.scope))
    (h : installActive env source name w = .ok () u) : Swapped name bytes w u := by
  rw [installActive, read_apply] at h
  obtain ⟨_, v, hv, h⟩ := Prog.bind_eq_ok.mp h
  have hidden : Level name w v := hideLegacy_level.of_ok hv
  obtain ⟨bytes', read', rfl⟩ := durableCopy_ok h
  cases (read'.symm.trans (hidden.files source hl ht)).trans read
  rw [← hidden.scope]
  exact Swapped.after_level hidden
    ((publish_swapped v bytes).then_level (SameFiles.level ⟨rfl, rfl, rfl⟩))

end

/-- The record gives this version to the outgoing image. -/
def Node.previous (w : Node) (name : String) : Option String :=
  (w.memory.get name).bind ExtensionState.activeVersion

section
variable (env : Environment) (name version : String) (requestId : Option String)

/-- An activation up to and including its space check. -/
def admission : Act Failure Unit := do
  adoptUnrecorded env name
  let w ← Prog.read
  let candidateSize ← failedAt .checking (fileSize env (w.candidatePath name version))
  let rollbackSize ← outgoingSize env name (w.previous name)
  requireActivationSpace env (activationSpace candidateSize rollbackSize)

/-- What an admitted activation does before it tries its candidate. -/
def prepare : Act Failure Unit := do
  let w ← Prog.read
  retainOutgoing env name (w.previous name)
  recordActivating env name version requestId (w.previous name)

def proceed : Act Failure Activation := do
  let w ← Prog.read
  prepare env name version requestId
  activateRecorded env name version requestId (w.previous name) (w.candidatePath name version)

/-- The image copies of an admitted activation and of the recovery after it: what is
copied, to where, and the node as the copy finds it. -/
inductive CopyMade (w : Node) : Path → Path → Node → Prop where
  | retention {previous : String} (recorded : w.previous name = some previous)
      (active : w.fileExists (w.activePath name) = true)
      (missing : w.fileExists (w.rollbackPath name previous) = false) :
      CopyMade w (w.activePath name) (w.rollbackPath name previous) w
  | promotion {v u y x : Node} (prepared : prepare env name version requestId w = .ok () v)
      (noted : (Act.note name (v.readFile (w.candidatePath name version)) .attempted :
        Act Setback Unit) v = .ok () u)
      (stopped : stopCurrent env name u = .ok () y) (hidden : hideLegacy env name y = .ok () x) :
      CopyMade w (w.candidatePath name version) (scopedActivePath name w.scope) x
  | recovery {v u t z y x : Node} {setback : Setback} {log : List String} {known : String}
      (prepared : prepare env name version requestId w = .ok () v)
      (failed : tryCandidate env name version requestId (w.candidatePath name version) v =
        .error setback u)
      (logged : (journalLines env setback.unit : Act Failure _) u = .ok log t)
      (recorded : (t.memory.get name).bind ExtensionState.knownGoodVersion = some known)
      (there : t.fileExists (t.rollbackPath name known) = true)
      (begun : store env (t.reverting name setback.reason) = .ok () z)
      (stopped : (stopMerged env name : Act String Unit) z = .ok () y)
      (hidden : hideLegacy env name y = .ok () x) :
      CopyMade w (t.rollbackPath name known) (scopedActivePath name w.scope) x

end

/-- The node once its outgoing image is retained. -/
def Node.retaining (w : Node) (name : String) : Node :=
  match w.previous name, w.activeImage name with
  | some previous, some bytes =>
    if w.fileExists (w.rollbackPath name previous) then w
    else w.publish (w.rollbackPath name previous) bytes
  | _, _ => w

/-- The image a recovery would put back fits besides everything else that is there once
the outgoing image is retained, before the candidate has replaced the active image and
after it. -/
def Spare (capacity : Nat) (name version : String) (w : Node) : Prop :=
  ∀ known image, w.label name = some known →
    (w.retaining name).rollbackImage name known = some image →
    image.length + (w.retaining name).bareUsed name ≤ capacity ∧
      image.length + (w.retaining name).bareUsed name + w.sizeOf (w.candidatePath name version) ≤
        capacity + (w.retaining name).sizeOf (scopedActivePath name w.scope)

section
variable {env : Environment} {capacity : Nat} {name version : String} {requestId : Option String}
  {w u s : Node}

/-- An activation is admitted and proceeds. -/
theorem activateCandidate_eq (w : Node) : activateCandidate env name version requestId w =
    (admission env name version >>= fun _ => proceed env name version requestId) w := by
  unfold activateCandidate admission
  simp only [Prog.bind_assoc]
  refine Prog.bind_congr fun _ y _ => ?_
  rw [read_apply, read_apply]
  refine Prog.bind_congr fun size v hv => ?_
  obtain ⟨t, rfl⟩ := (failedAt_quiet (fileSize_quiet env _) _).of_ok hv
  refine Prog.bind_congr fun outgoing v hv => ?_
  obtain ⟨t', rfl⟩ := (outgoingSize_quiet env name _).of_ok hv
  refine Prog.bind_congr fun _ v hv => ?_
  obtain ⟨t'', rfl⟩ := (requireActivationSpace_quiet env _).of_ok hv
  exact (congrFun (Prog.bind_assoc _ _ _) _).symm

/-- The size of the copy that retaining the outgoing image takes. -/
def Node.outgoing (w : Node) (name : String) : Nat :=
  match w.previous name with
  | some previous =>
    if w.fileExists (w.rollbackPath name previous) then 0 else w.sizeOf (w.activePath name)
  | none => 0

/-- What was admitted: the candidate is there, the outgoing image is there or retained,
and what the check counts is free. -/
structure Admitted (capacity : Nat) (name version : String) (w : Node) : Prop where
  candidate : ∃ bytes, w.readFile (w.candidatePath name version) = some bytes
  room : w.sizeOf (w.candidatePath name version) + w.outgoing name + spaceMargin ≤
    capacity - w.used

theorem admission_ok (accounts : env.Accounts capacity)
    (h : admission env name version w = .ok () u) :
    Admitted capacity name version u := by
  obtain ⟨_, y, -, h⟩ := Prog.bind_eq_ok.mp h
  rw [read_apply] at h
  obtain ⟨size, y₁, h₁, h⟩ := Prog.bind_eq_ok.mp h
  obtain ⟨candidate, rfl, rfl⟩ := fileSize_ok (Prog.mapError_eq_ok.mp h₁)
  obtain ⟨outgoing, y₂, h₂, h⟩ := Prog.bind_eq_ok.mp h
  obtain ⟨t, rfl⟩ := (outgoingSize_quiet env name _).of_ok h₂
  have counted : outgoing = y.outgoing name := by
    rw [outgoingSize, read_apply] at h₂
    unfold Node.outgoing
    cases hp : y.previous name with
    | none =>
      rw [hp] at h₂
      cases h₂
      rfl
    | some previous =>
      rw [hp] at h₂
      dsimp only at h₂ ⊢
      split at h₂
      · rename_i there
        cases h₂
        exact (if_pos there).symm
      · rename_i missing
        obtain ⟨-, rfl, -⟩ := fileSize_ok (Prog.mapError_eq_ok.mp h₂)
        exact (if_neg missing).symm
  obtain ⟨room, rfl⟩ := requireActivationSpace_ok accounts h
  have fits := accounts.fits
  refine ⟨candidate, ?_⟩
  rw [counted, activationSpace_le_iff (by omega)] at room
  exact room

/-- The node an activation is recorded on. -/
theorem prepare_ok (h : prepare env name version requestId w = .ok () s) :
    SameFiles (w.retaining name) s ∧
      (s.memory.get name).bind ExtensionState.knownGoodVersion = w.label name := by
  rw [prepare, read_apply] at h
  obtain ⟨_, v, retained, h⟩ := Prog.bind_eq_ok.mp h
  have memory : v.memory = w.memory := by
    have kept := @retainOutgoing_retains env name (w.previous name) w
    rw [retained] at kept
    exact kept.memory
  have files : SameFiles (w.retaining name) v := by
    rw [retainOutgoing, read_apply] at retained
    unfold Node.retaining
    cases hp : w.previous name with
    | none =>
      rw [hp] at retained
      cases retained
      exact SameFiles.refl w
    | some previous =>
      rw [hp] at retained
      dsimp only at retained
      split at retained
      · rename_i hc
        rw [Bool.and_eq_true, Bool.not_eq_true'] at hc
        obtain ⟨bytes, hb, rfl⟩ := durableCopy_ok (Prog.mapError_eq_ok.mp retained)
        have active : w.activeImage name = some bytes := hb
        rw [active]
        dsimp only
        rw [if_neg (by simp [hc.2])]
        exact ⟨rfl, rfl, rfl⟩
      · rename_i hc
        cases retained
        cases active : w.activeImage name with
        | none => exact SameFiles.refl w
        | some bytes =>
          have there : w.fileExists (w.activePath name) = true := congrArg Option.isSome active
          dsimp only
          rw [if_pos (by simpa [there] using hc)]
          exact SameFiles.refl w
  rw [recordActivating_apply] at h
  rw [store_ok (Prog.mapError_eq_ok.mp h)]
  refine ⟨⟨files.osRelease, files.extensions, files.staging⟩, ?_⟩
  refine (knownGood_activating v name version requestId _).trans ?_
  rw [memory]
  rfl

/-- The active image is as it was, or has been replaced by the candidate. -/
abbrev Upto (name : String) (bytes : Bytes) (w u : Node) : Prop :=
  Level name w u ∨ Swapped name bytes w u

theorem Upto.then_level {bytes : Bytes} {v : Node} (h : Upto name bytes w u) (h' : Level name u v) :
    Upto name bytes w v :=
  h.imp (fun h => IsTrans.trans _ _ _ h h') fun h => h.then_level h'

theorem Upto.rollback {bytes : Bytes} (h : Upto name bytes w u) (k : String) :
    u.rollbackImage name k = w.rollbackImage name k :=
  h.elim (fun h => h.rollback k) fun h => h.rollback k

theorem Upto.scope {bytes : Bytes} (h : Upto name bytes w u) : u.scope = w.scope := by
  rcases h with h | h
  · exact h.scope
  · unfold Node.scope Node.osVersion Node.osReleaseValue
    rw [h.osRelease]

theorem sameFiles_upto {ε α : Type} {bytes : Bytes} {m : Act ε α}
    (h : Within SameFiles m) (w : Node) :
    Within (Preserves (Upto name bytes w)) m :=
  h.mono fun _ _ h hu => hu.then_level h.level

/-- Wherever the way of a candidate ends, it has at most replaced the active image. -/
theorem tryCandidate_swaps {bytes : Bytes} {candidate : Path}
    (hf : Text.endsWith candidate.name ".candidate" = true)
    (read : w.readFile candidate = some bytes) :
    Upto name bytes w (tryCandidate env name version requestId candidate w).state := by
  have hl : candidate ≠ legacyActivePath name :=
    path_ne_of_endings hf (endsWith_raw_legacy name) (by decide)
  have ht := ne_temporary hf (by decide) (scopedActivePath name w.scope)
  -- up to the installation nothing is replaced
  have installed : ∀ y, Level name w y →
      Upto name bytes w (installActive env candidate name y).state := by
    intro y hy
    rcases @installActive_swaps _ name y _ _ ((hy.files _ hl ht).trans read) hl
      (by rwa [hy.scope]) with h | h
    · exact Or.inl (IsTrans.trans _ _ _ hy h)
    · exact Or.inr (Swapped.after_level hy h)
  have promoted : ∀ v, Level name w v → Upto name bytes w (promote env name candidate v).state := by
    intro v hv
    have stops : Within (Level name) (Prog.mapError (fun error =>
        (⟨error, .activating, none⟩ : Setback))
        (stopCurrent env name)) :=
      Within.mapError ((quiet_sameFiles (stopCurrent_quiet env name)).mono fun _ _ h => h.level)
    refine Prog.bind_state (Or.inl (IsTrans.trans _ _ _ hv (stops v))) fun _ y hy => ?_
    have stopped : Level name w y := IsTrans.trans _ _ _ hv (stops.of_ok hy)
    refine Prog.bind_state ?_ fun _ x hx => ?_
    · rw [Prog.mapError_state]
      exact installed y stopped
    have swapped : Upto name bytes w x := by
      have h := installed y stopped
      rwa [Prog.mapError_eq_ok.mp hx] at h
    refine (Within.bind (sameFiles_upto ?_ w) fun _ => Within.bind (sameFiles_upto ?_ w) fun _ =>
      sameFiles_upto ?_ w) x swapped
    · exact Within.mapError (sysextRefresh_sameFiles env)
    · exact Within.mapError (quiet_sameFiles (daemonReload_quiet env))
    · exact Within.mapError (quiet_sameFiles (loadNamed_quiet env name))
  rw [tryCandidate, read_apply]
  have notes := @note_sameFiles Setback name (w.readFile candidate) .attempted
  refine Prog.bind_state (Or.inl (notes w).level) fun _ v hv => ?_
  have start : Level name w v := (notes.of_ok hv).level
  refine Prog.bind_state (promoted v start) fun ruleset x hx => ?_
  have swapped : Upto name bytes w x := by
    have h := promoted v start
    rwa [hx] at h
  exact (Within.bind (sameFiles_upto (prove_sameFiles env _ ruleset) w) fun _ =>
    sameFiles_upto (commit_sameFiles env version requestId _) w) x swapped

/-- The recovery copy finds taken what the way of the candidate left. -/
theorem recovery_used {bytes : Bytes} {t z y x : Node} {reason : String}
    (upto : Upto name bytes w t) (begun : store env (t.reverting name reason) = .ok () z)
    (stopped : (stopMerged env name : Act String Unit) z = .ok () y)
    (hidden : hideLegacy env name y = .ok () x) :
    Upto name bytes w x ∧
      (x.unlink (Node.temporary (scopedActivePath name w.scope))).used = x.bareUsed name := by
  have edited : SameFiles t (t.reverting name reason) := ⟨rfl, rfl, rfl⟩
  have saved : SameFiles (t.reverting name reason) z := (store_sameFiles env).of_ok begun
  have quiet : SameFiles z y := (quiet_sameFiles (stopMerged_quiet env name)).of_ok stopped
  have level : Level name y x := hideLegacy_level.of_ok hidden
  have upto : Upto name bytes w x :=
    (((upto.then_level edited.level).then_level saved.level).then_level quiet.level).then_level
      level
  refine ⟨upto, ?_⟩
  rw [← upto.scope]
  exact bareUsed_of_hidden (hideLegacy_hidden hidden)

theorem scope_retaining (w : Node) (name : String) : (w.retaining name).scope = w.scope := by
  unfold Node.retaining
  split
  · split
    · rfl
    · exact (SameRecord.setDir w _ _).scope
  · rfl

/-- Retaining touches neither candidates nor what is merged. -/
theorem retaining_reads (w : Node) (name : String) {p : Path} {finish : String}
    (hp : Text.endsWith p.name finish = true)
    (hf : (Text.endsWith finish ".new" = false ∧ Text.endsWith ".new" finish = false) ∧
      Text.endsWith finish ".rollback" = false ∧ Text.endsWith ".rollback" finish = false) :
    (w.retaining name).readFile p = w.readFile p := by
  unfold Node.retaining
  split
  · split
    · rfl
    · rw [Node.readFile_publish (ne_temporary hp hf.1 _),
        if_neg (path_ne_of_endings hp (w.endsWith_rollback name _) hf.2)]
  · rfl

theorem retaining_used (w : Node) (name : String) :
    (w.retaining name).used ≤ w.used + w.outgoing name := by
  unfold Node.retaining Node.outgoing
  split
  · rename_i previous bytes hp ha
    rw [hp]
    dsimp only
    split
    · exact Nat.le_add_right _ _
    · have published := w.used_publish (w.rollbackPath name previous) bytes
      have size : w.sizeOf (w.activePath name) = bytes.length := Node.sizeOf_eq ha
      omega
  · exact Nat.le_add_right _ _

/-- The copy from one path to another finds the space it needs. -/
def FitsCopy (capacity : Nat) (source target : Path) (x : Node) : Prop :=
  x.sizeOf source ≤ capacity - (x.unlink (Node.temporary target)).used

theorem unlink_used_le (x : Node) (p : Path) : (x.unlink p).used ≤ x.used := by
  have h := x.used_unlink p
  omega

/-- The copies of retention and promotion were admitted. -/
theorem Spare.fits (admitted : Admitted capacity name version w)
    (spare : Spare capacity name version w) {source target : Path} {x : Node}
    (made : CopyMade env name version requestId w source target x) :
    FitsCopy capacity source target x := by
  have room := admitted.room
  have taken := retaining_used w name
  obtain ⟨candidate, read⟩ := admitted.candidate
  have size := Node.sizeOf_eq read
  have found : (w.retaining name).readFile (w.candidatePath name version) = some candidate :=
    (retaining_reads w name (w.endsWith_candidate name version) (by decide)).trans read
  cases made with
  | @retention previous recorded active missing =>
    have counted : w.outgoing name = w.sizeOf (w.activePath name) := by
      simp [Node.outgoing, recorded, missing]
    have less := unlink_used_le w (Node.temporary (w.rollbackPath name previous))
    unfold FitsCopy
    omega
  | @promotion v u y _ prepared noted stopped hidden =>
    obtain ⟨files, -⟩ := prepare_ok prepared
    have noted : SameFiles v u := (note_sameFiles _ _).of_ok noted
    have stopped : SameFiles u y := (quiet_sameFiles (stopCurrent_quiet env name)).of_ok stopped
    have hides : Level name y x := hideLegacy_level.of_ok hidden
    have level : Level name (w.retaining name) x := by
      exact IsTrans.trans _ _ _ (IsTrans.trans _ _ _ files.level (noted.level : Level name _ _))
        (IsTrans.trans _ _ _ stopped.level hides)
    have scope := level.scope.trans (scope_retaining w name)
    have used := bareUsed_of_hidden (hideLegacy_hidden hidden)
    have all := bareUsed_add (w.retaining name) name
    have still : x.sizeOf (w.candidatePath name version) = candidate.length := by
      refine Node.sizeOf_eq ((level.files _ ?_ ?_).trans found)
      · exact path_ne_of_endings (w.endsWith_candidate name version) (endsWith_raw_legacy name)
          (by decide)
      · exact ne_temporary (w.endsWith_candidate name version) (by decide) _
    rw [scope, level.bare] at used
    unfold FitsCopy
    rw [used, still]
    omega
  | @recovery v u t z y _ setback log known prepared failed logged recorded there begun stopped
      hidden =>
    obtain ⟨files, label⟩ := prepare_ok prepared
    have scope := files.scope.trans (scope_retaining w name)
    have swaps : Upto name candidate v
        (tryCandidate env name version requestId (w.candidatePath name version) v).state :=
      tryCandidate_swaps (w.endsWith_candidate name version) ((files.readFile _).trans found)
    rw [failed] at swaps
    obtain ⟨tick, rfl⟩ := (journalLines_quiet env setback.unit).of_ok logged
    have swapsₜ : Upto name candidate v (u.clock tick) :=
      swaps.then_level (SameFiles.level ⟨rfl, rfl, rfl⟩)
    obtain ⟨upto, used⟩ := recovery_used swapsₜ begun stopped hidden
    have labelled : w.label name = some known := by
      have same : SameKnownGood name v u := (tryCandidate_sameKnownGood env _ _ _).of_error failed
      exact label.symm.trans (same.symm.trans recorded)
    obtain ⟨image, held⟩ := Option.isSome_iff_exists.mp there
    have retained : (w.retaining name).rollbackImage name known = some image := by
      have same := (files.level : Level name _ _).rollback known
      exact same.symm.trans ((swapsₜ.rollback known).symm.trans held)
    have source : x.sizeOf ((u.clock tick).rollbackPath name known) = image.length := by
      refine Node.sizeOf_eq ?_
      have same : x.rollbackImage name known = some image :=
        (upto.rollback known).trans ((swapsₜ.rollback known).symm.trans held)
      have path : x.rollbackPath name known = (u.clock tick).rollbackPath name known := by
        simp only [Node.rollbackPath, upto.scope, ← swapsₜ.scope]
      rw [← path]
      exact same
    obtain ⟨before, after⟩ := spare known image labelled retained
    have bare := (files.level : Level name _ _).bare
    have slot := (files.level : Level name _ _).scoped
    rw [scope] at used
    unfold FitsCopy
    rw [used, source]
    rcases upto with level | swapped
    · rw [level.bare, bare]
      omega
    · have swapped := swapped.bare
      rw [scope_retaining] at slot
      rw [scope, bare, slot] at swapped
      omega

end

/-- Every call works but those of the service manager that are refused, and what is free
is what the images leave. -/
def refusing (capacity : Nat) (refused : Systemctl → Bool) : Environment :=
  { calm twoVersions with
    available := fun w => .ok (capacity - w.used)
    systemctl := fun call _ => if refused call then .error "refused" else .ok ()
    ruleset := fun _ _ => .ok "[Extension]\nUnit=u" }

def refusesStop : Systemctl → Bool
  | .stop _ => true
  | _ => false

def refusesReload : Systemctl → Bool
  | .daemonReload => true
  | _ => false

section
variable {capacity : Nat} {refused : Systemctl → Bool} {name version : String}
  {requestId : Option String} {w u s : Node}

theorem refusing_loads (w : Node) :
    loadNamed (refusing capacity refused) name w = .ok { unit := "u" } w.tick := by
  have loads : Ruleset.load "[Extension]\nUnit=u" = .ok { unit := "u" } := by decide +kernel
  have contents : (refusing capacity refused).ruleset name w = .ok "[Extension]\nUnit=u" := rfl
  simp only [loadNamed, contents, loads]

theorem refusing_prepares (name version : String) (requestId : Option String) (w : Node) :
    ∃ s, prepare (refusing capacity refused) name version requestId w = .ok () s := by
  obtain ⟨v, retained⟩ := @retainOutgoing_runs (refusing capacity refused) name w
    (fun _ _ => rfl) (w.previous name)
  refine ⟨(v.activating name version requestId (w.previous name)).saved, ?_⟩
  rw [prepare, read_apply, Prog.bind_of_ok retained, recordActivating_apply]
  exact Prog.mapError_eq_ok.mpr (store_runs (fun _ _ => rfl) _)

/-- A candidate that fails is recovered from by a copy. -/
theorem refusing_recovers {setback : Setback} {known : String}
    (prepared : prepare (refusing capacity refused) name version requestId w = .ok () s)
    (failed : tryCandidate (refusing capacity refused) name version requestId
      (w.candidatePath name version) s = .error setback u) (unit : setback.unit = none)
    (recorded : (u.memory.get name).bind ExtensionState.knownGoodVersion = some known)
    (there : u.fileExists (u.rollbackPath name known) = true) :
    ∃ x, CopyMade (refusing capacity refused) name version requestId w (u.rollbackPath name known)
        (scopedActivePath name w.scope) x ∧
      Level name u x ∧ x.readFile (legacyActivePath name) = none := by
  let z := (u.reverting name setback.reason).saved
  have stopped : ∃ t, (stopMerged (refusing capacity refused) name : Act String Unit) z =
      .ok () (z.clock t) := by
    refine ⟨z.now + 2, ?_⟩
    have loaded := @Prog.attempt_eq_ok _ _ String _ _ _ _ _ |>.mpr
      (Or.inl ⟨_, rfl, @refusing_loads capacity refused name z⟩)
    rw [stopMerged, Prog.bind_of_ok loaded]
    change (Prog.attempt (stopUnit (refusing capacity refused) "u") >>= fun _ => _) z.tick = _
    cases hr : refused (.stop "u") with
    | true =>
      have stops : stopUnit (refusing capacity refused) "u" z.tick =
          .error "refused" z.tick.tick := by
        simp [stopUnit, Act.askFor, refusing, hr]
      exact Prog.bind_of_ok (Prog.attempt_eq_ok.mpr (Or.inr ⟨_, rfl, stops⟩)) _
    | false =>
      have stops : stopUnit (refusing capacity refused) "u" z.tick = .ok () z.tick.tick := by
        simp [stopUnit, Act.askFor, refusing, hr]
      exact Prog.bind_of_ok (Prog.attempt_eq_ok.mpr (Or.inl ⟨_, rfl, stops⟩)) _
  obtain ⟨t, stopped⟩ := stopped
  obtain ⟨x, hidden⟩ :=
    @hideLegacy_runs (refusing capacity refused) (fun _ _ => rfl) name (z.clock t)
  have logged : (journalLines (refusing capacity refused) setback.unit : Act Failure _) u =
      .ok [] u := by
    rw [unit]
    rfl
  refine ⟨x, .recovery prepared failed logged recorded there ?_ stopped hidden, ?_,
    hideLegacy_hidden hidden⟩
  · exact store_runs (fun _ _ => rfl) _
  · have level : Level name (z.clock t) x := hideLegacy_level.of_ok hidden
    have same : SameFiles u (z.clock t) := ⟨rfl, rfl, rfl⟩
    exact IsTrans.trans _ _ _ same.level level

/-- The unit cannot be stopped, and nothing has been replaced. -/
theorem refusesStop_fails {candidate : Path} (s : Node) : ∃ setback u,
    tryCandidate (refusing capacity refusesStop) name version requestId candidate s =
      .error setback u ∧ setback.unit = none ∧ SameFiles s u := by
  obtain ⟨v, noted, same⟩ : ∃ v, (Act.note name (s.readFile candidate) .attempted :
      Act Setback Unit) s = .ok () v ∧ SameFiles s v := by
    cases s.readFile candidate <;> exact ⟨_, rfl, rfl, rfl, rfl⟩
  have stops : stopCurrent (refusing capacity refusesStop) name v =
      .error "refused" v.tick.tick := by
    have loaded := @Prog.attempt_eq_ok _ _ String _ _ _ _ _ |>.mpr
      (Or.inl ⟨_, rfl, @refusing_loads capacity refusesStop name v⟩)
    rw [stopCurrent, Prog.bind_of_ok loaded]
    rfl
  have promotes : promote (refusing capacity refusesStop) name candidate v =
      .error ⟨"refused", .activating, none⟩ v.tick.tick :=
    Prog.bind_of_error (Prog.mapError_eq_error.mpr ⟨_, stops, rfl⟩) _
  refine ⟨⟨"refused", .activating, none⟩, v.tick.tick, ?_, rfl, ?_⟩
  · rw [tryCandidate, read_apply, Prog.bind_of_ok noted, Prog.bind_of_error promotes]
  · exact ⟨same.osRelease, same.extensions, same.staging⟩

/-- Systemd cannot be reloaded, and the candidate has replaced the active image. -/
theorem refusesReload_fails {candidate : Path} {bytes : Bytes}
    (hf : Text.endsWith candidate.name ".candidate" = true)
    (read : s.readFile candidate = some bytes) : ∃ setback u,
    tryCandidate (refusing capacity refusesReload) name version requestId candidate s =
      .error setback u ∧ setback.unit = none ∧ Swapped name bytes s u := by
  let v : Node := { s with history := ⟨name, bytes, .attempted⟩ :: s.history }
  have noted : (Act.note name (s.readFile candidate) .attempted : Act Setback Unit) s =
      .ok () v := by
    rw [read]
    rfl
  have same : SameFiles s v.tick.tick := ⟨rfl, rfl, rfl⟩
  have stops : stopCurrent (refusing capacity refusesReload) name v = .ok () v.tick.tick := by
    have loaded := @Prog.attempt_eq_ok _ _ String _ _ _ _ _ |>.mpr
      (Or.inl ⟨_, rfl, @refusing_loads capacity refusesReload name v⟩)
    rw [stopCurrent, Prog.bind_of_ok loaded]
    rfl
  have still : v.tick.tick.readFile candidate = some bytes := (same.readFile candidate).trans read
  obtain ⟨x, installed, -⟩ := @installActive_runs (refusing capacity refusesReload) name _ _
    (fun _ _ => rfl) _ _ hf (by decide) still
  have swapped : Swapped name bytes v.tick.tick x := installActive_swapped still
    (path_ne_of_endings hf (endsWith_raw_legacy name) (by decide)) (ne_temporary hf (by decide) _)
    installed
  obtain ⟨y, refreshed, again⟩ : ∃ y, sysextRefresh (refusing capacity refusesReload) x = .ok () y ∧
      SameFiles x y := ⟨_, rfl, rfl, rfl, rfl⟩
  have reloads : daemonReload (refusing capacity refusesReload) y = .error "refused" y.tick := rfl
  refine ⟨⟨"could not reload systemd: refused", .activating, none⟩, y.tick, ?_, rfl, ?_⟩
  · have promotes : promote (refusing capacity refusesReload) name candidate v =
        .error ⟨"could not reload systemd: refused", .activating, none⟩ y.tick := by
      rw [promote, Prog.bind_of_ok (Prog.mapError_eq_ok.mpr stops),
        Prog.bind_of_ok (Prog.mapError_eq_ok.mpr installed),
        Prog.bind_of_ok (Prog.mapError_eq_ok.mpr refreshed)]
      exact Prog.bind_of_error (Prog.mapError_eq_error.mpr ⟨_, reloads, rfl⟩) _
    rw [tryCandidate, read_apply, Prog.bind_of_ok noted, Prog.bind_of_error promotes]
  · have later : SameFiles x y.tick := ⟨again.osRelease, again.extensions, again.staging⟩
    exact (Swapped.after_level same.level swapped).then_level later.level

/-- What the recovery copy needs, said of where the failure left the images. -/
theorem refusing_needs {setback : Setback} {known : String} {image : Bytes}
    (prepared : prepare (refusing capacity refused) name version requestId w = .ok () s)
    (failed : tryCandidate (refusing capacity refused) name version requestId
      (w.candidatePath name version) s = .error setback u) (unit : setback.unit = none)
    (labelled : w.label name = some known) (scope : u.scope = w.scope)
    (retained : u.rollbackImage name known = some image)
    (fits : ∀ source target x, CopyMade (refusing capacity refused) name version requestId w
      source target x → FitsCopy capacity source target x) :
    image.length ≤ capacity - u.bareUsed name := by
  obtain ⟨-, label⟩ := prepare_ok prepared
  have recorded : (u.memory.get name).bind ExtensionState.knownGoodVersion = some known := by
    have same : SameKnownGood name s u :=
      (tryCandidate_sameKnownGood (refusing capacity refused) _ _ _).of_error failed
    exact same.trans (label.trans labelled)
  obtain ⟨x, made, level, gone⟩ := refusing_recovers prepared failed unit recorded
    (congrArg Option.isSome retained)
  have used := bareUsed_of_hidden gone
  have still : x.sizeOf (u.rollbackPath name known) = image.length := by
    refine Node.sizeOf_eq ((level.files _ ?_ ?_).trans retained)
    · exact path_ne_of_endings (u.endsWith_rollback name known)
        (endsWith_raw_legacy name) (by decide)
    · exact ne_temporary (u.endsWith_rollback name known) (by decide) _
  have fits := fits _ _ x made
  unfold FitsCopy at fits
  rw [level.scope, scope, level.bare] at used
  rw [used, still] at fits
  exact fits

/-- If every copy fits whatever fails, a recovery from an activation that stopped early
and from one that came far does. -/
theorem Spare.of_fits (bounded : capacity < 2 ^ 64 - 1)
    (admitted : Admitted capacity name version w)
    (fits : ∀ later : Environment, later.Accounts capacity → ∀ source target x,
      CopyMade later name version requestId w source target x → FitsCopy capacity source target x) :
    Spare capacity name version w := by
  intro known image labelled retained
  have accounts : ∀ refused, (refusing capacity refused).Accounts capacity :=
    fun _ => ⟨fun _ => rfl, bounded⟩
  obtain ⟨candidate, read⟩ := admitted.candidate
  have room := admitted.room
  have margin : 0 < spaceMargin := by decide
  have taken := retaining_used w name
  have whole := bareUsed_add (w.retaining name) name
  have size := Node.sizeOf_eq read
  have found : (w.retaining name).readFile (w.candidatePath name version) = some candidate :=
    (retaining_reads w name (w.endsWith_candidate name version) (by decide)).trans read
  constructor
  · obtain ⟨s, prepared⟩ := @refusing_prepares capacity refusesStop name version requestId w
    obtain ⟨setback, u, failed, unit, same⟩ := @refusesStop_fails capacity name version requestId
      (w.candidatePath name version) s
    obtain ⟨files, -⟩ := prepare_ok prepared
    have level : Level name (w.retaining name) u := IsTrans.trans _ _ _ files.level same.level
    have needs := refusing_needs prepared failed unit labelled
      (level.scope.trans (scope_retaining w name)) ((level.rollback known).trans retained)
      (fits _ (accounts _))
    rw [level.bare] at needs
    omega
  · obtain ⟨s, prepared⟩ := @refusing_prepares capacity refusesReload name version requestId w
    obtain ⟨files, -⟩ := prepare_ok prepared
    obtain ⟨setback, u, failed, unit, swapped⟩ := @refusesReload_fails capacity name version
      requestId _ _ _ (w.endsWith_candidate name version) ((files.readFile _).trans found)
    have swapped : Swapped name candidate (w.retaining name) u :=
      Swapped.after_level files.level swapped
    have scope : u.scope = w.scope := (Upto.scope (.inr swapped)).trans (scope_retaining w name)
    have needs := refusing_needs prepared failed unit labelled scope
      ((swapped.rollback known).trans retained) (fits _ (accounts _))
    have bare := swapped.bare
    rw [scope_retaining] at bare
    omega

/-- Once an activation is admitted, none of its image copies, and not that of a recovery
from it, needs more space than is free at that moment, whatever fails, exactly if the image
a recovery would put back can be spared the space it takes. -/
theorem undo_fits_iff {env : Environment} (accounts : env.Accounts capacity)
    (passed : admission env name version u = .ok () w) :
    (∀ later : Environment, later.Accounts capacity → ∀ source target x,
      CopyMade later name version requestId w source target x → FitsCopy capacity source target x) ↔
        Spare capacity name version w := by
  have admitted := admission_ok accounts passed
  constructor
  · intro fits
    exact Spare.of_fits accounts.fits admitted fits
  · intro spare later _ source target x made
    exact spare.fits admitted made

end

theorem undo_fits_iff_first :
    let u := (run (metered tight threeVersions) [.boot (some "VERSION_ID=1") [],
      .command .adopt ["n", "a"], stageFile "n" "/2"] (.with "1" [("n_1.raw", [1])])).loaded
    let w := (admission (metered tight threeVersions) "n" "b" u).state
    (∀ later : Environment, later.Accounts tight → ∀ source target x,
      CopyMade later "n" "b" none w source target x → FitsCopy tight source target x) ↔
        Spare tight "n" "b" w := by
  intro u w
  have passed : (admission (metered tight threeVersions) "n" "b" u).value = some () := by
    decide +kernel
  exact undo_fits_iff metered_accounts (Outcome.eq_ok passed)

/-- An image active and retained, and a small one staged. -/
def heavyRecord : State :=
  State.entry {} "n" fun _ =>
    { required := true, activeVersion := some "a", knownGoodVersion := some "a",
      candidateVersion := some "b", phase := .staged }

def heavyNode (heavy : Bytes) : Node :=
  { Node.with "1" [("n_1.raw", heavy), ("n_1.raw.a.rollback", heavy),
      ("n_1.raw.b.candidate", [2])] with
    stored := heavyRecord
    memory := heavyRecord }

theorem heavyNode_used (heavy : Bytes) : (heavyNode heavy).used = 2 * heavy.length + 1 := by
  have first := Sizes.total_insert (∅ : Dir) "n_1.raw" heavy
  have second := Sizes.total_insert ((∅ : Dir).insert "n_1.raw" heavy) "n_1.raw.a.rollback" heavy
  have third := Sizes.total_insert (((∅ : Dir).insert "n_1.raw" heavy).insert
    "n_1.raw.a.rollback" heavy) "n_1.raw.b.candidate" [2]
  have empty : Sizes.total (∅ : Dir) = 0 := rfl
  simp at first second third
  simp [Node.used, heavyNode, Node.with, empty]
  omega

theorem heavyNode_scope (heavy : Bytes) : (heavyNode heavy).scope = "1" := by
  have scope : ({ osRelease := some "VERSION_ID=1" } : Node).scope = "1" := by decide +kernel
  exact scope

theorem heavyNode_rollback (heavy : Bytes) :
    (heavyNode heavy).rollbackImage "n" "a" = some heavy := by
  have images : (heavyNode heavy).extensions["n_1.raw.a.rollback"]? = some heavy := by
    simp only [heavyNode, Node.with, List.foldl, Dir.get_insert]
    simp
  rw [Node.rollbackImage, Node.rollbackPath, heavyNode_scope]
  exact images

theorem heavyNode_candidate (heavy : Bytes) :
    (heavyNode heavy).candidateImage "n" "b" = some [2] := by
  rw [Node.candidateImage, Node.candidatePath, heavyNode_scope]
  simp [heavyNode, Node.with, Node.readFile, Node.dir, slotPrefix]

theorem heavyNode_legacy (heavy : Bytes) :
    (heavyNode heavy).readFile (legacyActivePath "n") = none := by
  simp [heavyNode, Node.with, Node.readFile, Node.dir, legacyActivePath]

theorem heavyNode_temporary (heavy : Bytes) :
    (heavyNode heavy).readFile (Node.temporary (scopedActivePath "n" (heavyNode heavy).scope)) =
      none := by
  rw [heavyNode_scope]
  simp [heavyNode, Node.with, Node.readFile, Node.dir, scopedActivePath, Node.temporary,
    temporaryName]

/-- With an admitted image that small, a known-good one that does not fit beside the
active one cannot be put back. -/
theorem heavyNode_stuck {heavy : Bytes} (bounded : 2 * heavy.length + spaceMargin + 2 < 2 ^ 64 - 1)
    (large : spaceMargin + 1 < heavy.length) :
    let env := refusing (2 * heavy.length + spaceMargin + 2) refusesStop
    ∃ w, admission env "n" "b" (heavyNode heavy) = .ok () w ∧
      ∃ source target x, CopyMade env "n" "b" none w source target x ∧
        ¬ FitsCopy (2 * heavy.length + spaceMargin + 2) source target x := by
  intro env
  let w := (heavyNode heavy).clock 2
  have used : w.used = 2 * heavy.length + 1 := heavyNode_used heavy
  have known : ((heavyNode heavy).memory.get "n").bind ExtensionState.knownGoodVersion =
      some "a" := by
    simp [heavyNode, heavyRecord]
  have active : w.previous "n" = some "a" := by
    simp [w, Node.previous, Node.clock, heavyNode, heavyRecord]
  have passed : admission env "n" "b" (heavyNode heavy) = .ok () w := by
    have sized : failedAt .checking (fileSize env ((heavyNode heavy).candidatePath "n" "b"))
        (heavyNode heavy) = .ok 1 ((heavyNode heavy).clock 1) :=
      Prog.mapError_eq_ok.mpr (fileSize_runs rfl (heavyNode_candidate heavy))
    have measured : outgoingSize env "n" (some "a") ((heavyNode heavy).clock 1) =
        .ok 0 ((heavyNode heavy).clock 1) := by
      have there : ((heavyNode heavy).clock 1).fileExists
          (((heavyNode heavy).clock 1).rollbackPath "n" "a") = true :=
        congrArg Option.isSome (heavyNode_rollback heavy)
      rw [outgoingSize, read_apply]
      simp only [there]
      rfl
    have room : activationSpace 1 0 ≤ 2 * heavy.length + spaceMargin + 2 - w.used := by
      rw [activationSpace_le_iff (by omega), used]
      omega
    have recorded : (heavyNode heavy).previous "n" = some "a" := active
    rw [admission, Prog.bind_of_ok (adoptUnrecorded_known known), read_apply, Prog.bind_of_ok sized,
      recorded, Prog.bind_of_ok measured]
    exact requireActivationSpace_runs rfl room
  refine ⟨w, passed, ?_⟩
  by_contra fits
  push Not at fits
  have retaining : w.retaining "n" = w := by
    have there : w.fileExists (w.rollbackPath "n" "a") = true :=
      congrArg Option.isSome (heavyNode_rollback heavy)
    unfold Node.retaining
    rw [active]
    cases w.activeImage "n" with
    | none => rfl
    | some bytes =>
      dsimp only
      rw [if_pos there]
  obtain ⟨s, prepared⟩ := @refusing_prepares (2 * heavy.length + spaceMargin + 2) refusesStop
    "n" "b" none w
  obtain ⟨setback, u, failed, unit, same⟩ := @refusesStop_fails
    (2 * heavy.length + spaceMargin + 2) "n" "b" none (w.candidatePath "n" "b") s
  obtain ⟨files, -⟩ := prepare_ok prepared
  have level : Level "n" w u := by
    have level : Level "n" (w.retaining "n") u := IsTrans.trans _ _ _ files.level same.level
    rwa [retaining] at level
  have needs := refusing_needs prepared failed unit known level.scope
    ((level.rollback "a").trans (heavyNode_rollback heavy)) fits
  have bare := bareUsed_add w "n"
  have legacy : w.sizeOf (legacyActivePath "n") = 0 := by
    have none : w.readFile (legacyActivePath "n") = none := heavyNode_legacy heavy
    rw [Node.sizeOf, none]
    rfl
  have temporary : w.sizeOf (Node.temporary (scopedActivePath "n" w.scope)) = 0 := by
    have none : w.readFile (Node.temporary (scopedActivePath "n" w.scope)) = none :=
      heavyNode_temporary heavy
    rw [Node.sizeOf, none]
    rfl
  rw [level.bare] at needs
  omega

/-- An admitted activation whose unit cannot be stopped goes back to an image twice the
size of the margin, by a copy that has not the room for it. -/
theorem admitted_copy_without_room :
    let heavy : Bytes := List.replicate (2 * spaceMargin) 1
    let capacity := 2 * heavy.length + spaceMargin + 2
    let env := refusing capacity refusesStop
    env.Accounts capacity ∧ ∃ w, admission env "n" "b" (heavyNode heavy) = .ok () w ∧
      ∃ source target x, CopyMade env "n" "b" none w source target x ∧
        ¬ FitsCopy capacity source target x := by
  intro heavy capacity env
  have length : heavy.length = 2 * spaceMargin := List.length_replicate
  have margin : 1 < spaceMargin ∧ 5 * spaceMargin + 2 < 2 ^ 64 - 1 := by decide
  have bounded : 2 * heavy.length + spaceMargin + 2 < 2 ^ 64 - 1 := by omega
  exact ⟨⟨fun _ => rfl, bounded⟩, heavyNode_stuck bounded (by omega)⟩

end CarbideOS.Agent
