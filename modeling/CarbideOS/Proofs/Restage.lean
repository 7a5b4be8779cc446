import CarbideOS.Proofs.Arrival
import CarbideOS.Proofs.Reconciled
import CarbideOS.Proofs.Waiting

namespace CarbideOS.Agent
open Interruptible

/-! Staging over a candidate that is already there: which failures leave neither the old
candidate nor the new one. -/

/-- The entry of an extension for which a version has just been staged. -/
def ExtensionState.stagedAs (e : ExtensionState) (version : String) : ExtensionState :=
  { e with candidateVersion := some version, phase := .staged }

/-- One entry on disk and the candidate of one version. -/
structure Holding (name version : String) (e : ExtensionState) (image : Option Bytes) (u : Node) :
    Prop where
  stored : u.stored.get name = some e
  candidate : u.candidateImage name version = image

/-- The old candidate is as it was, or the new one is staged. -/
def OldOrNew (name v v' : String) (e : ExtensionState) (c bytes : Bytes) (u : Node) : Prop :=
  Holding name v e (some c) u ∨ Holding name v' (e.stagedAs v') (some bytes) u

/-- The node as an activation or a staging is about to record it. -/
def Node.proposed (w : Node) (name version : String) : Node :=
  w.loaded.edit name (·.stagedAs version)

/-- What is on disk after a write of the record that may not have reached it. -/
def Node.written (w : Node) (reached : Bool) : Node := if reached then w.saved else w.tick

/-- The candidates of an extension have been pruned. -/
def Node.pruned (w : Node) (name : String) (reached : String → Bool) : Node :=
  (w.sweep .extensions fun f =>
    prunable (slotPrefix name w.scope) ".candidate" none f && reached f).tick

/-- When the record of a new candidate leaves one candidate whole: if it is not written,
the record still names the version, and if that is reported, the image is not taken away. -/
def RecordKeeps (env : Environment) (name version : String) (target : Path) (same : Prop)
    (w : Node) : Prop :=
  match env.unreadable .state w with
  | some _ => same
  | none =>
    match env.fault .store (w.proposed name version) with
    | none => True
    | some f => (same ∨ f.reached "state.json" = true) ∧ (f.halts = false →
        ∃ g,
          env.fault (.remove target) ((w.proposed name version).written (f.reached "state.json")) =
          some g ∧ g.reached target.name = false)

/-- When the steps that put an image in the place of a candidate leave one candidate
whole. From the prune on there is none until the image is published, and from then on
the record names it only if it has the same version or is recorded. -/
def SettleKeeps (env : Environment) (name version : String) (staging target old : Path)
    (bytes : Bytes) (same : Prop) (w : Node) : Prop :=
  match env.fault (.prune .extensions (slotPrefix name w.scope) ".candidate") w with
  | some f => f.reached old.name = false
  | none =>
    let bare := w.pruned name fun _ => true
    match env.fault (.mode staging) bare with
    | some _ => False
    | none =>
      match env.fault (.copy target) bare.tick with
      | some f => same ∧ f.reached target.name = true
      | none =>
        let placed := (bare.tick.publish target bytes).tick
        match env.fault (.remove staging) placed with
        | some _ => same
        | none => RecordKeeps env name version target same (placed.unlink staging).tick

section
variable {env : Environment} {name v v' : String} {e : ExtensionState} {c bytes : Bytes}
  {w u : Node}

theorem stagedAs_version (e : ExtensionState) (version : String) :
    StagedAs version (e.stagedAs version) := ⟨rfl, rfl⟩

theorem stagedAs_eq (h : StagedAs v e) : e.stagedAs v = e := by
  obtain ⟨phase, version⟩ := h
  rw [ExtensionState.stagedAs, ← phase, ← version]

/-- Which of the two is there while the record is the old one. -/
theorem oldOrNew_of_recorded (staged : StagedAs v e) (recorded : u.stored.get name = some e) :
    OldOrNew name v v' e c bytes u ↔ u.candidateImage name v = some c ∨
      v' = v ∧ u.candidateImage name v = some bytes := by
  constructor
  · rintro (old | new)
    · exact Or.inl old.candidate
    · right
      have same := new.stored.symm.trans recorded
      have version := (stagedAs_version e v').2
      rw [Option.some.inj same, staged.2] at version
      obtain rfl : v = v' := Option.some.inj version
      exact ⟨rfl, new.candidate⟩
  · rintro (old | ⟨rfl, new⟩)
    · exact Or.inl ⟨recorded, old⟩
    · exact Or.inr ⟨by rw [stagedAs_eq staged]; exact recorded, new⟩

theorem OldOrNew.of_private (h : OldOrNew name v v' e c bytes w) (copies : Private w u) :
    OldOrNew name v v' e c bytes u := by
  obtain ⟨d, t, rfl⟩ := copies
  rcases h with h | h
  · exact Or.inl ⟨h.stored, h.candidate⟩
  · exact Or.inr ⟨h.stored, h.candidate⟩

theorem candidatePath_inj (h : w.candidatePath name v = w.candidatePath name v') : v = v' := by
  have names := congrArg Path.name h
  simp only [Node.candidatePath] at names
  exact Text.append_left_cancel (Text.append_right_cancel names)

/-- The new image is in its place, the record is still the old one. -/
structure PlacedOver (name v v' : String) (e : ExtensionState) (bytes : Bytes) (w : Node) :
    Prop where
  stored : w.stored.get name = some e
  new : w.candidateImage name v' = some bytes
  gone : v' ≠ v → w.candidateImage name v = none

theorem PlacedOver.of_same (h : PlacedOver name v v' e bytes w) (stored : u.stored = w.stored)
    (osRelease : u.osRelease = w.osRelease) (extensions : u.extensions = w.extensions) :
    PlacedOver name v v' e bytes u := by
  have same : ∀ version, u.candidateImage name version = w.candidateImage name version := by
    intro version
    simp only [Node.candidateImage, Node.candidatePath, Node.scope,
      osVersion_of_release osRelease]
    exact congrArg (·[_]?) extensions
  refine ⟨stored ▸ h.stored, (same v').trans h.new, fun hne => (same v).trans (h.gone hne)⟩

theorem PlacedOver.keeps_iff (h : PlacedOver name v v' e bytes w) (staged : StagedAs v e) :
    OldOrNew name v v' e c bytes w ↔ v' = v := by
  rw [oldOrNew_of_recorded staged h.stored]
  constructor
  · rintro (old | ⟨same, -⟩)
    · by_contra hne
      rw [h.gone hne] at old
      cases old
    · exact same
  · rintro rfl
    exact Or.inr ⟨rfl, h.new⟩

/-- Without its image neither candidate is whole. -/
theorem not_oldOrNew (old : u.candidateImage name v = none)
    (new : u.candidateImage name v' = none) :
    ¬ OldOrNew name v v' e c bytes u := by
  rintro (h | h)
  · rw [h.candidate] at old
    cases old
  · rw [h.candidate] at new
    cases new

theorem store_faulty {f : Fault} (fault : env.fault .store w = some f) :
    store env w = if f.halts then .halt (w.written (f.reached "state.json"))
      else .error f.message (w.written (f.reached "state.json")) := by
  unfold store Act.durable
  rw [fault]
  unfold Node.written
  dsimp only
  cases f.reached "state.json" <;> rfl

/-- How far a removal got. -/
theorem durableRemove_state {p : Path} (present : w.fileExists p = true) :
    (durableRemove env p w).state =
      if (env.fault (.remove p) w).all (·.reached p.name) then (w.unlink p).tick else w.tick := by
  rw [durableRemove, read_apply, if_pos present, Act.durable]
  cases env.fault (.remove p) w with
  | none => rfl
  | some f =>
    rw [Option.all_some]
    dsimp only
    cases f.halts <;> cases f.reached p.name <;> rfl

/-- What a staging that could not write its record leaves. -/
theorem PlacedOver.dropped_iff (staged : StagedAs v e) (h : PlacedOver name v v' e bytes w)
    (saved : OldOrNew name v v' e c bytes w.saved) (reached : Bool) :
    OldOrNew name v v' e c bytes (w.written reached) ↔ v' = v ∨ reached = true := by
  cases reached with
  | true => exact iff_of_true saved (Or.inr rfl)
  | false =>
    have kept := PlacedOver.keeps_iff (c := c) (w := w.tick) (h.of_same rfl rfl rfl) staged
    simpa [Node.written] using kept

theorem PlacedOver.removed_iff (h : PlacedOver name v v' e bytes w) (reached : Bool) :
    OldOrNew name v v' e c bytes
        (durableRemove env (w.candidatePath name v') (w.written reached)).state ↔
      OldOrNew name v v' e c bytes (w.written reached) ∧
        ∃ g, env.fault (.remove (w.candidatePath name v')) (w.written reached) = some g ∧
          g.reached (w.candidatePath name v').name = false := by
  have same : ∀ version, (w.written reached).candidateImage name version =
      w.candidateImage name version := by
    intro version
    cases reached <;> rfl
  have path : (w.written reached).candidatePath name v' = w.candidatePath name v' := by
    cases reached <;> rfl
  have scope : (w.written reached).scope = w.scope := by
    cases reached <;> rfl
  generalize w.written reached = y at same path scope
  have present : y.fileExists (w.candidatePath name v') = true := by
    have new := (same v').trans h.new
    rw [Node.candidateImage, path] at new
    rw [Node.fileExists, new]
    rfl
  have taken : ¬ OldOrNew name v v' e c bytes (y.unlink (w.candidatePath name v')).tick := by
    have image : ∀ version, (y.unlink (w.candidatePath name v')).tick.candidateImage name version =
        if y.candidatePath name version = w.candidatePath name v' then none
        else y.candidateImage name version := by
      intro version
      refine (readFile_tick _ _).trans ?_
      exact Node.readFile_unlink y (w.candidatePath name v') (y.candidatePath name version)
    apply not_oldOrNew
    · rw [image]
      split
      · rfl
      · rename_i other
        rw [same]
        refine h.gone fun hv => other ?_
        rw [← hv, path]
    · rw [image, if_pos path]
  rw [durableRemove_state present]
  cases fault : env.fault (.remove (w.candidatePath name v')) y with
  | none => simpa using taken
  | some g =>
    cases reached : g.reached (w.candidatePath name v').name with
    | true => simpa [reached] using taken
    | false =>
      have tick : OldOrNew name v v' e c bytes y.tick ↔ OldOrNew name v v' e c bytes y :=
        ⟨fun kept => kept.of_private ⟨y.staging, y.now, rfl⟩, fun kept =>
          kept.of_private (Private.refl y).tick⟩
      simpa [reached] using tick

/-- What follows the write of the record: a candidate that was not recorded is removed. -/
def dropUnrecorded (env : Environment) (target : Path) : Except String Unit → Act Failure Unit
  | .ok () => pure ()
  | .error error => do
    let _ ← Prog.attempt (durableRemove env target)
    Prog.fail ((Failure.new .failed s!"could not record staged image: {error}").atStage .staging)

/-- The record of a new candidate. -/
theorem recordStaged_keeps_iff (staged : StagedAs v e) (h : PlacedOver name v v' e bytes w) :
    OldOrNew name v v' e c bytes (recordStaged env name v' (w.candidatePath name v') w).state ↔
      RecordKeeps env name v' (w.candidatePath name v') (v' = v) w := by
  unfold RecordKeeps
  cases readable : env.unreadable .state w with
  | some error =>
    have fails : loadState env w = .error error w.tick := by rw [loadState, readable]
    rw [recordStaged, Prog.bind_of_error (Prog.mapError_eq_error.mpr ⟨error, fails, rfl⟩)]
    exact PlacedOver.keeps_iff (w := w.tick) (h.of_same rfl rfl rfl) staged
  | none =>
    have loaded : loadState env w = .ok w.stored w.tick := by rw [loadState, readable]
    let finish := dropUnrecorded env (w.candidatePath name v')
    have start : recordStaged env name v' (w.candidatePath name v') w =
        (Prog.attempt (store env) >>= finish) (w.proposed name v') := by
      refine (Prog.bind_of_ok (Prog.mapError_eq_ok.mpr loaded) _).trans ?_
      refine congrArg (fun rest => (Prog.attempt (store env) >>= rest) (w.proposed name v'))
        (?_ : _ = finish)
      funext result
      cases result <;> rfl
    have proposed : PlacedOver name v v' e bytes (w.proposed name v') := h.of_same rfl rfl rfl
    have saved : OldOrNew name v v' e c bytes (w.proposed name v').saved := by
      refine Or.inr ⟨?_, proposed.new⟩
      have recorded : w.loaded.memory.get name = some e := h.stored
      change (w.proposed name v').memory.get name = _
      rw [Node.proposed, edit_entry, recorded]
      rfl
    rw [start]
    have path : (w.proposed name v').candidatePath name v' = w.candidatePath name v' := rfl
    dsimp only
    cases fault : env.fault .store (w.proposed name v') with
    | none =>
      have stored : (Prog.attempt (store env) : Act Failure _) (w.proposed name v') =
          .ok (.ok ()) (w.proposed name v').saved :=
        Prog.attempt_eq_ok.mpr (Or.inl ⟨(), rfl, Act.durable_of_clean fault _ _⟩)
      rw [Prog.bind_of_ok stored]
      exact iff_of_true saved trivial
    | some f =>
      have dropped := proposed.dropped_iff staged saved (f.reached "state.json")
      have stored := store_faulty fault
      cases halts : f.halts with
      | true =>
        rw [halts, if_pos rfl] at stored
        rw [Prog.bind_of_halt (Prog.attempt_eq_halt.mpr stored)]
        refine dropped.trans ?_
        simp [halts]
      | false =>
        rw [halts] at stored
        have stored : (Prog.attempt (store env) : Act Failure _) (w.proposed name v') =
            .ok (.error f.message) ((w.proposed name v').written (f.reached "state.json")) :=
          Prog.attempt_eq_ok.mpr (Or.inr ⟨_, rfl, stored⟩)
        rw [Prog.bind_of_ok stored]
        have removed :=
          @PlacedOver.removed_iff env name v v' e c bytes _ proposed (f.reached "state.json")
        rw [path, dropped] at removed
        have state : ∀ y, (finish (.error f.message) y).state =
            (durableRemove env (w.candidatePath name v') y).state := by
          intro y
          cases removing : durableRemove env (w.candidatePath name v') y with
          | ok _ z =>
            exact congrArg _ (Prog.bind_of_ok (Prog.attempt_eq_ok.mpr (Or.inl ⟨_, rfl,
              removing⟩)) _)
          | error why z =>
            exact congrArg _ (Prog.bind_of_ok (Prog.attempt_eq_ok.mpr (Or.inr ⟨_, rfl,
              removing⟩)) _)
          | halt z => exact congrArg _ (Prog.bind_of_halt (Prog.attempt_eq_halt.mpr removing) _)
        rw [state, removed]
        simp [halts]

theorem durable_faulty {step : Durable} {effect : (String → Bool) → Node → Node}
    {residue : Option Nat → Node → Node} {f : Fault} (fault : env.fault step w = some f) :
    (Act.durable env step effect residue w).isOk = false ∧
      (Act.durable env step effect residue w).state =
        (effect f.reached (residue f.leftover w)).tick := by
  unfold Act.durable
  rw [fault]
  dsimp only
  split <;> exact ⟨rfl, rfl⟩

/-- A sequence whose first program did not return ends where that did. -/
theorem bind_state_of_failed {ε α β : Type} {m : Act ε α} {f : α → Act ε β}
    (failed : (m w).isOk = false) : ((m >>= f) w).state = (m w).state := by
  rw [Prog.bind_apply]
  cases hm : m w <;> rw [hm] at failed <;> first | rfl | cases failed

theorem mapError_isOk {ε ε' α : Type} (f : ε → ε') (m : Act ε α) :
    (Prog.mapError f m w).isOk = (m w).isOk := by
  unfold Prog.mapError
  cases m w <;> rfl

theorem mapError_bind {ε ε' α β : Type} (g : ε → ε') (m : Act ε α) (f : α → Act ε β) :
    Prog.mapError g (m >>= f) = Prog.mapError g m >>= fun a => Prog.mapError g (f a) := by
  funext w
  cases hm : m w with
  | ok a t =>
    rw [Prog.bind_of_ok (Prog.mapError_eq_ok.mpr hm)]
    simp only [Prog.mapError, Prog.bind_of_ok hm]
  | error why t =>
    rw [Prog.bind_of_error (Prog.mapError_eq_error.mpr ⟨why, hm, rfl⟩)]
    simp only [Prog.mapError, Prog.bind_of_error hm]
  | halt t =>
    have halted : Prog.mapError g m w = .halt t := by simp only [Prog.mapError, hm]
    rw [Prog.bind_of_halt halted]
    simp only [Prog.mapError, Prog.bind_of_halt hm]

theorem prunable_candidate (w : Node) (name version : String) :
    prunable (slotPrefix name w.scope) ".candidate" none (w.candidatePath name version).name =
      true := by
  have start : Text.startsWith (w.candidatePath name version).name (slotPrefix name w.scope) =
      true := by
    simp [Node.candidatePath, String.append_assoc]
  rw [prunable, start, w.endsWith_candidate name version]
  rfl

theorem pruned_candidateImage (w : Node) (name version : String) (reached : String → Bool) :
    (w.pruned name reached).candidateImage name version =
      if reached (w.candidatePath name version).name then none
      else w.candidateImage name version := by
  refine (readFile_tick _ _).trans
    ((Node.readFile_sweep w .extensions _ (w.candidatePath name version)).trans ?_)
  rw [prunable_candidate, Bool.true_and]
  have place : (w.candidatePath name version).place = .extensions := rfl
  simp only [place, true_and]
  rfl

theorem pruned_staging {staging : Path} (place : staging.place = .staging)
    (reached : String → Bool) : (w.pruned name reached).readFile staging = w.readFile staging := by
  refine (readFile_tick _ _).trans ((Node.readFile_sweep w .extensions _ _).trans ?_)
  rw [place]
  simp

/-- No candidate is there. -/
structure Emptied (name : String) (e : ExtensionState) (w : Node) : Prop where
  stored : w.stored.get name = some e
  empty : ∀ version, w.candidateImage name version = none

theorem Emptied.tick (h : Emptied name e w) : Emptied name e w.tick := ⟨h.stored, h.empty⟩

theorem Emptied.not_keeps (h : Emptied name e w) : ¬ OldOrNew name v v' e c bytes w :=
  not_oldOrNew (h.empty v) (h.empty v')

theorem candidate_ne_temporary (w : Node) (name version : String) (target : Path) :
    w.candidatePath name version ≠ Node.temporary target :=
  ne_temporary (w.endsWith_candidate name version) (by decide) target

/-- A published candidate is there, and no other. -/
theorem Emptied.publish (h : Emptied name e w) (version : String) :
    (w.publish (w.candidatePath name v') bytes).candidateImage name version =
      if version = v' then some bytes else none := by
  have apart := candidate_ne_temporary w name version (w.candidatePath name v')
  refine (@Node.readFile_publish _ _ _ bytes apart).trans ?_
  by_cases same : version = v'
  · rw [same, if_pos rfl, if_pos rfl]
  · rw [if_neg fun path => same (candidatePath_inj path), if_neg same]
    exact h.empty version

theorem Emptied.leaveBehind (h : Emptied name e w) (leftover : Option Nat) :
    Emptied name e (w.leaveBehind (w.candidatePath name v') bytes leftover) := by
  have record : SameRecord w (w.leaveBehind (w.candidatePath name v') bytes leftover) := by
    cases leftover <;> exact SameRecord.setDir w .extensions _
  refine ⟨by rw [record.stored]; exact h.stored, fun version => ?_⟩
  have path : (w.leaveBehind (w.candidatePath name v') bytes leftover).candidatePath name version =
      w.candidatePath name version := record.candidatePath name version
  rw [Node.candidateImage, path]
  refine (Node.readFile_leaveBehind (candidate_ne_temporary w name version _)).trans ?_
  exact h.empty version

theorem Emptied.placed (h : Emptied name e w) :
    PlacedOver name v v' e bytes (w.publish (w.candidatePath name v') bytes) := by
  refine ⟨h.stored, ?_, fun hne => ?_⟩
  · rw [h.publish, if_pos rfl]
  · rw [h.publish, if_neg (Ne.symm hne)]

/-- A copy that went wrong leaves the new image or none. -/
theorem Emptied.copy_iff (staged : StagedAs v e) (h : Emptied name e w) (reached : Bool)
    (leftover : Option Nat) :
    let left := w.leaveBehind (w.candidatePath name v') bytes leftover
    OldOrNew name v v' e c bytes
        (if reached then left.publish (w.candidatePath name v') bytes else left).tick ↔
      v' = v ∧ reached = true := by
  intro left
  have emptied : Emptied name e left := h.leaveBehind leftover
  cases reached with
  | false => exact iff_of_false emptied.tick.not_keeps (by simp)
  | true =>
    have path : left.candidatePath name v' = w.candidatePath name v' := by
      cases leftover <;> rfl
    have placed : PlacedOver name v v' e bytes (left.publish (w.candidatePath name v') bytes) := by
      rw [← path]
      exact emptied.placed
    have kept := PlacedOver.keeps_iff (c := c)
      (placed.of_same (u := (left.publish (w.candidatePath name v') bytes).tick) rfl rfl rfl) staged
    simpa using kept

/-- The image has gone to its place, the private copy is still to be removed. -/
theorem removeStaging_iff {staging : Path} (place : staging.place = .staging)
    (staged : StagedAs v e) (h : PlacedOver name v v' e bytes w)
    (copy : w.fileExists staging = true) :
    OldOrNew name v v' e c bytes ((Prog.mapError (fun error =>
        (Failure.new .failed s!"could not place the image: {error}").atStage .staging)
          (durableRemove env staging) >>= fun _ =>
        recordStaged env name v' (w.candidatePath name v')) w).state ↔
      match env.fault (.remove staging) w with
      | some _ => v' = v
      | none =>
        RecordKeeps env name v' (w.candidatePath name v') (v' = v) (w.unlink staging).tick := by
  obtain ⟨_, file⟩ := staging
  subst place
  have unlinked : PlacedOver name v v' e bytes (w.unlink ⟨.staging, file⟩).tick :=
    h.of_same rfl rfl rfl
  have removes : durableRemove env ⟨.staging, file⟩ w =
      Act.durable env (.remove ⟨.staging, file⟩) (fun reached w =>
        if reached file then w.unlink ⟨.staging, file⟩ else w) (fun _ w => w) w := by
    rw [durableRemove, read_apply, if_pos copy]
  cases fault : env.fault (.remove ⟨.staging, file⟩) w with
  | none =>
    have removed : durableRemove env ⟨.staging, file⟩ w = .ok () (w.unlink ⟨.staging, file⟩).tick :=
      removes.trans (Act.durable_of_clean fault _ _)
    rw [Prog.bind_of_ok (Prog.mapError_eq_ok.mpr removed)]
    exact recordStaged_keeps_iff staged unlinked
  | some f =>
    obtain ⟨failed, state⟩ := @durable_faulty _ _ _ (fun reached w =>
      if reached file then w.unlink ⟨.staging, file⟩ else w) (fun _ w => w) _ fault
    rw [← removes] at failed state
    rw [bind_state_of_failed (by rw [mapError_isOk]; exact failed), Prog.mapError_state, state]
    split
    · exact unlinked.keeps_iff staged
    · exact PlacedOver.keeps_iff (w := w.tick) (h.of_same rfl rfl rfl) staged

/-- From an emptied slot on. -/
theorem moveIntoPlace_iff {staging : Path} (place : staging.place = .staging)
    (staged : StagedAs v e) (h : Emptied name e w) (copy : w.readFile staging = some bytes) :
    OldOrNew name v v' e c bytes ((moveIntoPlace env staging (w.candidatePath name v') >>= fun _ =>
        recordStaged env name v' (w.candidatePath name v')) w).state ↔
      match env.fault (.mode staging) w with
      | some _ => False
      | none =>
        match env.fault (.copy (w.candidatePath name v')) w.tick with
        | some f => v' = v ∧ f.reached (w.candidatePath name v').name = true
        | none =>
          let placed := (w.tick.publish (w.candidatePath name v') bytes).tick
          match env.fault (.remove staging) placed with
          | some _ => v' = v
          | none => RecordKeeps env name v' (w.candidatePath name v') (v' = v)
              (placed.unlink staging).tick := by
  unfold moveIntoPlace durableMove
  simp only [Prog.bind_assoc, mapError_bind]
  cases mode : env.fault (.mode staging) w with
  | some f =>
    obtain ⟨failed, state⟩ := @durable_faulty _ _ _ (fun _ w => w) (fun _ w => w) _ mode
    have failed : (durableMode env staging w).isOk = false := failed
    have state : (durableMode env staging w).state = w.tick := state
    rw [bind_state_of_failed (by rw [mapError_isOk]; exact failed), Prog.mapError_state, state]
    exact iff_of_false h.tick.not_keeps id
  | none =>
    have set : durableMode env staging w = .ok () w.tick := Act.durable_of_clean mode _ _
    rw [Prog.bind_of_ok (Prog.mapError_eq_ok.mpr set)]
    have copies : durableCopy env staging (w.candidatePath name v') w.tick =
        durablePublish env bytes (w.candidatePath name v') w.tick := by
      have read : w.tick.readFile staging = some bytes := (readFile_tick w staging).trans copy
      rw [durableCopy, read_apply, read]
    cases fault : env.fault (.copy (w.candidatePath name v')) w.tick with
    | none =>
      have copied : durableCopy env staging (w.candidatePath name v') w.tick =
          .ok () (w.tick.publish (w.candidatePath name v') bytes).tick :=
        copies.trans (Act.durable_of_clean fault _ _)
      rw [Prog.bind_of_ok (Prog.mapError_eq_ok.mpr copied)]
      have placed : PlacedOver name v v' e bytes
          (w.tick.publish (w.candidatePath name v') bytes).tick :=
        (Emptied.placed h.tick).of_same rfl rfl rfl
      refine removeStaging_iff place staged placed ?_
      have apart : staging ≠ Node.temporary (w.candidatePath name v') := fun same => by
        rw [same] at place
        cases place
      have elsewhere : staging ≠ w.candidatePath name v' := fun same => by
        rw [same] at place
        cases place
      have still := @Node.readFile_publish w.tick _ _ bytes apart
      rw [if_neg elsewhere] at still
      rw [Node.fileExists, readFile_tick, still, readFile_tick, copy]
      rfl
    | some f =>
      obtain ⟨failed, state⟩ := @durable_faulty _ w.tick _ (fun reached w₁ =>
        if reached (w.candidatePath name v').name then w₁.publish (w.candidatePath name v') bytes
        else w₁) (fun leftover w₁ =>
          w₁.leaveBehind (w.candidatePath name v') bytes leftover) _ fault
      have failed : (durableCopy env staging (w.candidatePath name v') w.tick).isOk = false := by
        rw [copies]
        exact failed
      rw [bind_state_of_failed (by rw [mapError_isOk]; exact failed), Prog.mapError_state, copies]
      refine (iff_of_eq (congrArg _ state)).trans ?_
      exact Emptied.copy_iff staged h.tick (f.reached (w.candidatePath name v').name) f.leftover

/-- Settling a new image over a candidate that is there leaves one of the two whole
exactly where no failure comes between them. -/
theorem settle_keeps_iff {staging : Path} {p : Placed} (place : staging.place = .staging)
    (staged : StagedAs v e) (recorded : w.stored.get name = some e)
    (present : w.candidateImage name v = some c) (copy : w.readFile staging = some bytes)
    (running : p.forRunningBase = true) (version : p.extensionVersion = some v')
    (path : p.path = w.candidatePath name v') :
    OldOrNew name v v' e c bytes (settle env name staging p w).state ↔
      SettleKeeps env name v' staging (w.candidatePath name v') (w.candidatePath name v) bytes
        (v' = v) w := by
  obtain ⟨_, base, _, _⟩ := p
  subst running version path
  have whole : settle env name staging ⟨w.candidatePath name v', base, some v', true⟩ w =
      (Prog.mapError (fun error =>
          (Failure.new .failed s!"could not prune old candidates: {error}").atStage .staging)
        (pruneCandidates env name none) >>= fun _ =>
          moveIntoPlace env staging (w.candidatePath name v') >>= fun _ =>
            recordStaged env name v' (w.candidatePath name v')) w := rfl
  rw [whole]
  unfold SettleKeeps
  cases fault : env.fault (.prune .extensions (slotPrefix name w.scope) ".candidate") w with
  | none =>
    have cleared : pruneCandidates env name none w = .ok () (w.pruned name fun _ => true) :=
      Act.durable_of_clean fault (fun reached w₁ => w₁.sweep .extensions fun file =>
        prunable (slotPrefix name w.scope) ".candidate" none file && reached file) fun _ w₁ => w₁
    rw [Prog.bind_of_ok (Prog.mapError_eq_ok.mpr cleared)]
    have emptied : Emptied name e (w.pruned name fun _ => true) := by
      refine ⟨recorded, fun version => ?_⟩
      rw [pruned_candidateImage, if_pos rfl]
    exact moveIntoPlace_iff place staged emptied ((pruned_staging place _).trans copy)
  | some f =>
    obtain ⟨failed, state⟩ := @durable_faulty _ _ _ (fun reached w₁ =>
      w₁.sweep .extensions fun file =>
        prunable (slotPrefix name w.scope) ".candidate" none file && reached file) (fun _ w₁ =>
          w₁) _ fault
    have failed : (pruneCandidates env name none w).isOk = false := failed
    have state : (pruneCandidates env name none w).state = w.pruned name f.reached := state
    rw [bind_state_of_failed (by rw [mapError_isOk]; exact failed), Prog.mapError_state, state]
    have kept : (w.pruned name f.reached).stored.get name = some e := recorded
    rw [oldOrNew_of_recorded staged kept, pruned_candidateImage]
    cases reached : f.reached (w.candidatePath name v).name with
    | true => simp [reached]
    | false => simp [reached, present]

/-- An image that a staging gets as far as putting in the place of a candidate. -/
structure Offered (env : Environment) (name : String) (base : Option String) (source : Source)
    (w : Node) (staging : Path) (p : Placed) (version : String) (bytes : Bytes) (y : Node) :
    Prop where
  received : ∃ requested x, Receives env name base w source staging requested x ∧
    examine env name requested staging x = .ok p y ∧ x.readFile staging = some bytes
  running : p.forRunningBase = true
  declared : p.extensionVersion = some version

/-- The old candidate is staged exactly as before, or the image received is staged. -/
def OneCandidate (env : Environment) (name : String) (base : Option String) (source : Source)
    (w : Node) (v : String) (e : ExtensionState) (c : Bytes) (u : Node) : Prop :=
  Holding name v e (some c) u ∨ ∃ staging p version bytes y,
    Offered env name base source w staging p version bytes y ∧
      Holding name version (e.stagedAs version) (some bytes) u

/-- Where a command ended: there and then, or if the power was cut, after the next boot of
the same base and its reconcile. -/
def Afterwards {ε α : Type} (env : Environment) (osVersion : Option String) (P : Node → Prop) :
    Outcome Node ε α → Prop
  | .ok _ u => P u
  | .error _ u => P u
  | .halt u => ∀ osRelease bootEntries,
      ({ osRelease := osRelease } : Node).osVersion = osVersion →
        P (reconcileState env (u.boot env osRelease bootEntries)).state

theorem afterwards_iff {ε α : Type} {osVersion : Option String} {P : Node → Prop}
    {o : Outcome Node ε α} (same : o.state.osVersion = osVersion)
    (reconciled : ∀ osRelease bootEntries,
      ({ osRelease := osRelease } : Node).osVersion = osVersion →
        (P (reconcileState env (o.state.boot env osRelease bootEntries)).state ↔ P o.state)) :
    Afterwards env osVersion P o ↔ P o.state := by
  cases o with
  | ok a u => exact Iff.rfl
  | error why u => exact Iff.rfl
  | halt u =>
    constructor
    · exact fun h => (reconciled u.osRelease [] same).mp (h u.osRelease [] same)
    · exact fun h osRelease bootEntries onto => (reconciled osRelease bootEntries onto).mpr h

/-- The reconcile after a crash neither loses a staged candidate nor brings one back. -/
theorem holding_reconciled_iff {version : String} {d : ExtensionState} {image : Bytes}
    (staged : StagedAs version d)
    (clear : ∀ other d', u.stored.get other = some d' → other ≠ name →
      Clear (CandidateName name version u.scope) other u.scope)
    {osRelease : Option String} {bootEntries : List String}
    (onto : ({ osRelease := osRelease } : Node).osVersion = u.osVersion) :
    Holding name version d (some image)
        (reconcileState env (u.boot env osRelease bootEntries)).state ↔
      Holding name version d (some image) u := by
  have scope : (u.boot env osRelease bootEntries).scope = u.scope := by
    unfold Node.scope
    rw [show (u.boot env osRelease bootEntries).osVersion = u.osVersion from onto]
  have stored : (u.boot env osRelease bootEntries).stored = u.stored := rfl
  have forgotten : ∀ other, (u.boot env osRelease bootEntries).memory.get other = none := by
    intro other
    simp [Node.boot, Node.tick, State.get]
  have files : ∀ f : String, (u.boot env osRelease bootEntries).extensions[f]? = u.extensions[f]? :=
    fun _ => rfl
  generalize u.boot env osRelease bootEntries = b at scope stored forgotten files
  have image_of : ∀ x : Node, x.scope = u.scope →
      x.candidateImage name version = x.extensions[(u.candidatePath name version).name]? := by
    intro x hx
    rw [Node.candidateImage, Node.candidatePath, hx]
    rfl
  constructor
  · rintro ⟨recorded, there⟩
    have down := reconcileState_windsDown env b
    have path : (reconcileState env b).state.candidatePath name version =
        b.candidatePath name version := by
      simp only [Node.candidatePath, Node.scope, osVersion_of_release down.osRelease]
    refine ⟨?_, ?_⟩
    · have some : d.candidateVersion.isSome = true := by
        rw [staged.2]
        rfl
      rcases down.entries name d (Or.inr recorded) staged.1 some with held | held
      · rw [forgotten] at held
        cases held
      · rwa [stored] at held
    · rw [Node.candidateImage, path] at there
      rw [image_of u rfl, ← files, ← image_of b scope, Node.candidateImage]
      rcases down.files (b.candidatePath name version)
          (Or.inr (b.endsWith_candidate name version)) with same | gone
      · rw [← same, there]
      · rw [gone] at there
        cases there
  · rintro ⟨recorded, there⟩
    have held : (b.candidateImage name version).isSome = true := by
      rw [image_of b scope, files, ← image_of u rfl, there]
      rfl
    have start : Waits name version (· = d) b b := by
      refine ⟨rfl, ⟨d, ?_, rfl⟩, fun _ _ => rfl, fun other d' hd hne => ?_⟩
      · rw [stored, recorded]
      · rw [scope]
        rcases hd with hd | hd
        · rw [forgotten] at hd
          cases hd
        · rw [stored] at hd
          exact clear other d' hd hne
    have only : ∀ d', d' = d → StagedAs version d' := by
      rintro _ rfl
      exact staged
    have meets := @reconcileState_guarded env _ _ _ _ (staged_lasting only)
      (waiting_turn only held) (fun _ hf => hf.untemporary) b start
    have waits : Waits name version (· = d) b (reconcileState env b).state := by
      cases ended : reconcileState env b <;> rw [ended] at meets
      · exact GuardedInMemory.toGuarded meets
      · exact meets
      · exact meets
    obtain ⟨_, kept, rfl⟩ := waits.stored
    refine ⟨kept, ?_⟩
    rw [waits.candidateImage, image_of b scope, files, ← image_of u rfl, there]

theorem Offered.unique {base : Option String} {source : Source} {staging staging' : Path}
    {p p' : Placed} {version version' : String} {bytes bytes' : Bytes} {y y' : Node}
    (h : Offered env name base source w staging p version bytes y)
    (h' : Offered env name base source w staging' p' version' bytes' y') :
    staging' = staging ∧ p' = p ∧ version' = version ∧ bytes' = bytes ∧ y' = y := by
  obtain ⟨⟨requested, x, received, examined, read⟩, -, declared⟩ := h
  obtain ⟨⟨requested', x', received', examined', read'⟩, -, declared'⟩ := h'
  have same : staging' = staging ∧ requested' = requested ∧ x' = x := by
    cases received with
    | supplied copied =>
      cases received' with
      | supplied copied' =>
        cases copied.symm.trans copied'
        exact ⟨rfl, rfl, rfl⟩
    | acquired resolved copied =>
      cases received' with
      | acquired resolved' copied' =>
        cases resolved.symm.trans resolved'
        cases copied.symm.trans copied'
        exact ⟨rfl, rfl, rfl⟩
  obtain ⟨rfl, rfl, rfl⟩ := same
  cases examined.symm.trans examined'
  cases read.symm.trans read'
  cases declared.symm.trans declared'
  exact ⟨rfl, rfl, rfl, rfl, rfl⟩

theorem Holding.of_private {d : ExtensionState} {image : Option Bytes}
    (h : Holding name v d image w) (copies : Private w u) : Holding name v d image u := by
  obtain ⟨copies, t, rfl⟩ := copies
  exact ⟨h.stored, h.candidate⟩

/-- What a private copy becomes: nothing, an image for another base, or an offer. -/
theorem validateAndPlace_keeps {requested : Option String} {staging : Path} {x : Node}
    (place : staging.place = .staging) (h : Holding name v e (some c) x) :
    Holding name v e (some c) (validateAndPlace env name requested staging x).state ∨
      ∃ p y, examine env name requested staging x = .ok p y ∧ p.forRunningBase = true := by
  rw [validateAndPlace_eq]
  rcases @examine_quiet env name requested staging x
    with ⟨p, y, examined, later⟩ | ⟨error, y, examined, later⟩
  swap
  · rw [Prog.bind_of_error examined]
    obtain ⟨t, rfl⟩ := later
    exact Or.inl (h.of_private ⟨x.staging, t, rfl⟩)
  obtain ⟨t, rfl⟩ := later
  cases running : p.forRunningBase with
  | true => exact Or.inr ⟨p, _, examined, running⟩
  | false =>
    left
    have found := examine_ok examined
    have raw : Text.endsWith p.path.name ".raw" = true := by
      have elsewhere := found.running.symm.trans running
      have slot := found.slot
      generalize p.path = path at slot ⊢
      cases slot with
      | candidate version onto => simp [onto] at elsewhere
      | image _ => exact endsWith_raw_scoped name p.base
    have moved : ∀ z : Node, Holding name v e (some c) z →
        Holding name v e (some c) (moveIntoPlace env staging p.path z).state := by
      intro z hz
      have confined := @moveIntoPlace_confined env (· = p.path.name) _ p.path place (fun _ => rfl) z
      refine ⟨confined.toSameRecord.stored ▸ hz.stored, ?_⟩
      have path := confined.toSameRecord.candidatePath name v
      rw [Node.candidateImage, path]
      refine (confined.files _ ?_ ?_).trans hz.candidate
      · exact ne_of_endings (z.endsWith_candidate name v) raw (by decide)
      · exact not_temporary (z.endsWith_candidate name v) (by decide)
    have whole : (settle env name staging p >>= fun _ => pure p : Act Failure Placed) (x.clock t) =
        (moveIntoPlace env staging p.path >>= fun _ => pure p : Act Failure Placed)
        (x.clock t) := by
      unfold settle clearCandidates recordPlaced
      rw [running]
      cases moves : moveIntoPlace env staging p.path (x.clock t) with
      | ok _ z =>
        rw [Prog.bind_of_ok moves]
        refine Prog.bind_of_ok (?_ : _ = Outcome.ok () z) _
        refine (Prog.bind_of_ok (rfl : (pure () : Act Failure Unit) _ = .ok () _) _).trans ?_
        exact (Prog.bind_of_ok moves _).trans (by cases p.extensionVersion <;> rfl)
      | error why z =>
        rw [Prog.bind_of_error moves]
        refine Prog.bind_of_error (?_ : _ = Outcome.error why z) _
        refine (Prog.bind_of_ok (rfl : (pure () : Act Failure Unit) _ = .ok () _) _).trans ?_
        exact Prog.bind_of_error moves _
      | halt z =>
        rw [Prog.bind_of_halt moves]
        refine Prog.bind_of_halt (?_ : _ = Outcome.halt z) _
        refine (Prog.bind_of_ok (rfl : (pure () : Act Failure Unit) _ = .ok () _) _).trans ?_
        exact Prog.bind_of_halt moves _
    rw [Prog.bind_of_ok examined, whole]
    have kept := moved (x.clock t) (h.of_private ⟨x.staging, t, rfl⟩)
    exact Prog.bind_state kept fun _ z hz => by rwa [hz] at kept

theorem Private.symm (h : Private w u) : Private u w := by
  obtain ⟨copies, t, rfl⟩ := h
  exact ⟨w.staging, w.now, rfl⟩

theorem Private.holding_iff {d : ExtensionState} {image : Option Bytes} (h : Private w u) :
    Holding name v d image u ↔ Holding name v d image w :=
  ⟨fun held => held.of_private h.symm, fun held => held.of_private h⟩

theorem validateAndPlace_state {requested : Option String} {staging : Path} {p : Placed}
    {x y : Node} (examined : examine env name requested staging x = .ok p y) :
    (validateAndPlace env name requested staging x).state =
      (settle env name staging p y).state := by
  rw [validateAndPlace_eq, Prog.bind_of_ok examined]
  cases settled : settle env name staging p y with
  | ok _ z => exact congrArg _ (Prog.bind_of_ok settled _)
  | error why z => exact congrArg _ (Prog.bind_of_error settled _)
  | halt z => exact congrArg _ (Prog.bind_of_halt settled _)

section
variable {base : Option String} {source : Source}

/-- What is settled is what was offered, over the candidate that was there. -/
theorem Offered.keeps_iff {staging : Path} {p : Placed} {y : Node}
    (valid : versionValid name = true) (staged : StagedAs v e)
    (held : Holding name v e (some c) w)
    (offered : Offered env name base source w staging p v' bytes y) :
    OldOrNew name v v' e c bytes (stageExtension env name base source w).state ↔
      SettleKeeps env name v' staging (y.candidatePath name v') (y.candidatePath name v) bytes
        (v' = v) y := by
  obtain ⟨⟨requested, x, received, examined, read⟩, running, declared⟩ := offered
  have settled := stageExtension_settles valid received
  obtain ⟨t, rfl⟩ := examine_quiet.of_ok examined
  have found := examine_ok examined
  obtain ⟨version, same, path⟩ := found.version running
  cases declared.symm.trans same
  have here := held.of_private (settled.copied.trans ⟨x.staging, t, rfl⟩)
  have left := settled.left
  rw [validateAndPlace_state examined] at left
  rw [OldOrNew, left.holding_iff, left.holding_iff]
  exact settle_keeps_iff settled.place staged here.stored here.candidate
    ((Node.clock_readFile x t staging).trans read) running declared path

theorem oneCandidate_iff (staged : StagedAs v e) (held : Holding name v e (some c) w) :
    OneCandidate env name base source w v e c (stageExtension env name base source w).state ↔
      (versionValid name = true → ∀ staging p v' bytes y,
        Offered env name base source w staging p v' bytes y →
          SettleKeeps env name v' staging (y.candidatePath name v') (y.candidatePath name v) bytes
            (v' = v) y) := by
  constructor
  · intro one valid staging p v' bytes y offered
    refine (offered.keeps_iff (c := c) valid staged held).mp ?_
    rcases one with old | ⟨_, _, _, _, _, offered', new⟩
    · exact Or.inl old
    · obtain ⟨rfl, rfl, rfl, rfl, rfl⟩ := offered.unique offered'
      exact Or.inr new
  · intro keeps
    cases valid : versionValid name with
    | false =>
      have refused : Private w (stageExtension env name base source w).state := by
        have refuses : stageExtension env name base source w = .error _ w :=
          demand_refuses valid _ w
        rw [refuses]
        exact Private.refl w
      exact Or.inl (held.of_private refused)
    | true =>
      rcases stageExtension_arrives env name base source w with
        ⟨left, -⟩ | ⟨received, place, copied, left, -⟩
      · exact Or.inl (held.of_private left)
      · rename_i staging requested x
        rcases @validateAndPlace_keeps env _ _ _ _ requested _ _ place
          (held.of_private copied) with old | ⟨p, y, examined, running⟩
        · exact Or.inl (old.of_private left)
        · have found := examine_ok examined
          obtain ⟨v', declared, -⟩ := found.version running
          obtain ⟨bytes, read, -⟩ := found.accepted
          have offered : Offered env name base source w staging p v' bytes y :=
            ⟨⟨requested, x, received, examined, read⟩, running, declared⟩
          rcases (offered.keeps_iff (c := c) valid staged held).mpr
              (keeps valid staging p v' bytes y offered) with old | new
          · exact Or.inl old
          · exact Or.inr ⟨staging, p, v', bytes, y, offered, new⟩

/-- A staging over a candidate that is there keeps one of the two whole, cut short or not,
exactly if no failure comes between the prune of the old one and the record of the new. -/
theorem staging_keeps_one_iff (recorded : w.stored.get name = some e) (phase : e.phase = .staged)
    (version : e.candidateVersion = some v) (present : w.candidateImage name v = some c)
    (clear : ∀ other d, Entry w other d → other ≠ name → ∀ version,
      Clear (CandidateName name version w.scope) other w.scope) :
    Afterwards env w.osVersion (OneCandidate env name base source w v e c)
        (stageExtension env name base source w) ↔
      (versionValid name = true → ∀ staging p v' bytes y,
        Offered env name base source w staging p v' bytes y →
          SettleKeeps env name v' staging (y.candidatePath name v') (y.candidatePath name v) bytes
            (v' = v) y) := by
  have staged : StagedAs v e := ⟨phase, version⟩
  have aside : Aside name w (stageExtension env name base source w).state :=
    (stageExtension_tame env base source w).toAside
  have onto := osVersion_of_release aside.osRelease
  refine (afterwards_iff onto fun osRelease bootEntries boots => ?_).trans
    (oneCandidate_iff staged ⟨recorded, present⟩)
  have others : ∀ version other d,
      (stageExtension env name base source w).state.stored.get other = some d → other ≠ name →
        Clear (CandidateName name version (stageExtension env name base source w).state.scope) other
          (stageExtension env name base source w).state.scope := by
    intro version other d hd hne
    rw [aside.scope]
    rcases aside.stored other hne with same | same <;> rw [same] at hd
    · exact clear other d (Or.inr hd) hne version
    · exact clear other d (Or.inl hd) hne version
  have boots := boots.trans onto.symm
  refine or_congr (holding_reconciled_iff staged (others v) boots) ?_
  refine exists_congr fun staging => exists_congr fun p => exists_congr fun v' =>
    exists_congr fun bytes => exists_congr fun y => and_congr Iff.rfl ?_
  exact holding_reconciled_iff (stagedAs_version e v') (others v') boots

end
end

/-- The first version is staged over the second, which waits. -/
theorem staging_keeps_one_iff_first :
    let e := (waitingNode.stored.get "n").getD {}
    let source := Source.supplied "/1" "d"
    Afterwards (calm twoVersions) waitingNode.osVersion
        (OneCandidate (calm twoVersions) "n" none source waitingNode "b" e [2])
        (stageExtension (calm twoVersions) "n" none source waitingNode) ↔
      (versionValid "n" = true → ∀ staging p v' bytes y,
        Offered (calm twoVersions) "n" none source waitingNode staging p v' bytes y →
          SettleKeeps (calm twoVersions) "n" v' staging (y.candidatePath "n" v')
            (y.candidatePath "n" "b") bytes (v' = "b") y) := by
  intro e source
  have recorded : waitingNode.stored.get "n" = some e := by decide +kernel
  refine staging_keeps_one_iff recorded (by decide +kernel) (by decide +kernel) (by decide +kernel)
    fun other d h hne => ?_
  exact absurd (entry_of_keys (by decide +kernel) (by decide +kernel) h) hne

/-- The calm node, but that one kind of durable step goes wrong. -/
def failing (make : Bytes → Make) (halts : Bool) (goesWrong : Durable → Bool) : Environment :=
  { calm make with
    fault :=
      fun step _ => if goesWrong step then some ⟨halts, fun _ => false, none, "no"⟩ else none }

/-- The mode of the new image cannot be set, when the old candidate is gone already: the
record names a candidate without a file. If the power is cut at the copy, the next reconcile
finds no candidate either. -/
theorem failed_staging_loses_candidate :
    let refused := Call.stageExtension.run
      (failing twoVersions false fun step => step == .mode ⟨.staging, "n.raw"⟩)
      { name := some "n", path := some "/1", digest := some "d" } waitingNode.process
    let cut := Call.stageExtension.run
      (failing twoVersions true fun step => step == .copy (waitingNode.candidatePath "n" "a"))
      { name := some "n", path := some "/1", digest := some "d" } waitingNode.process
    let again := run (calm twoVersions) [.boot (some "VERSION_ID=1") [], .command .require ["n"]]
      cut.state
    waitingNode.candidateImage "n" "b" = some [2] ∧
      refused.isOk = false ∧
      (refused.state.stored.get "n").map (fun e => (e.phase, e.candidateVersion)) =
        some (.staged, some "b") ∧
      refused.state.candidateImage "n" "b" = none ∧
      refused.state.candidateImage "n" "a" = none ∧
      (again.stored.get "n").map (fun e => (e.phase, e.candidateVersion)) = some (.active, none) ∧
      again.candidateImage "n" "b" = none ∧ again.candidateImage "n" "a" = none := by
  decide +kernel

end CarbideOS.Agent
