import CarbideOS.Proofs.Slate
import CarbideOS.Proofs.Terminal
import CarbideOS.Proofs.Confined

namespace CarbideOS.Agent
open Interruptible

/-- What a step brings into the extensions directory has one of the given names. -/
structure Brings (new : String → String → Prop) (w u : Node) : Prop where
  osRelease : u.osRelease = w.osRelease
  files : ∀ f : String, w.extensions[f]? = none → ¬ new w.scope f → ¬ Temporary f →
    u.extensions[f]? = none

/-- The name an image of an extension is installed under. -/
def Installs (name osVersion f : String) : Prop := f = (scopedActivePath name osVersion).name

/-- That name, or one an image is retained under. -/
def InstallsOrRetains (name osVersion f : String) : Prop :=
  Installs name osVersion f ∨ Retained name osVersion f

instance (new : String → String → Prop) : IsPreorder Node (Brings new) where
  refl _ := ⟨rfl, fun _ none _ _ => none⟩
  trans w u v h h' := by
    refine ⟨h'.osRelease.trans h.osRelease, fun f none other lasting => ?_⟩
    have same : u.scope = w.scope := SameBase.scope h.osRelease
    exact h'.files f (h.files f none other lasting) (by rwa [same]) lasting

section
variable (env : Environment) {ε α : Type} {name : String}
  {new : String → String → Prop} {w u : Node}

theorem Brings.mono {new' : String → String → Prop} (h : Brings new w u)
    (more : ∀ f, new w.scope f → new' w.scope f) : Brings new' w u :=
  ⟨h.osRelease, fun f none other lasting =>
    h.files f none (fun there => other (more f there)) lasting⟩

theorem Confined.brings {names : String → Prop} (h : Confined names w u)
    (known : ∀ f, names f → new w.scope f) : Brings new w u := by
  refine ⟨h.osRelease, fun f none other lasting => ?_⟩
  rw [h.files f (fun there => other (known f there)) lasting]
  exact none

/-- A program that only removes files brings nothing. -/
theorem brings_of_dwindles {m : Act ε α} (dwindles : Within Dwindles m)
    (beside : Within (Beside name) m) : Within (Brings new) m := by
  refine fun w => ⟨(beside w).osRelease, fun f none _ _ => ?_⟩
  rcases dwindles w f with same | gone
  · exact same.trans none
  · exact gone

theorem quiet_brings {m : Act ε α} (h : Quiet m) : Within (Brings new) m := by
  refine h.within.mono fun w u later => ?_
  obtain ⟨t, rfl⟩ := later
  exact ⟨rfl, fun _ none _ _ => none⟩

theorem entry_brings (f : ExtensionState → ExtensionState) :
    Within (Brings new) (Act.entry name f : Act ε Unit) :=
  fun _ => ⟨rfl, fun _ none _ _ => none⟩

theorem store_brings : Within (Brings new) (store env) := by
  have steady : Within (Steady "") (store env) := store_steady env
  exact brings_of_dwindles (store_dwindles env) (beside_of_steady steady)

theorem sysextRefresh_brings : Within (Brings new) (sysextRefresh env) := by
  have steady : Within (Steady "") (sysextRefresh env) := sysextRefresh_steady env
  exact brings_of_dwindles (sysextRefresh_dwindles env) (beside_of_steady steady)

theorem pruneRollbacks_brings (keep : Option String) :
    Within (Brings new) (pruneRollbacks env name keep) :=
  brings_of_dwindles (pruneRollbacks_dwindles env keep)
    (beside_of_sober (pruneRollbacks_sober env keep))

theorem pruneCandidates_brings (keep : Option String) :
    Within (Brings new) (pruneCandidates env name keep) :=
  brings_of_dwindles (pruneCandidates_dwindles env keep)
    (beside_of_steady (own_steady (pruneCandidates_own env keep)))

theorem terminal_brings (reason : String) : Within (Brings new) (terminal env name reason) := by
  refine Within.bind (Within.read fun w => entry_brings _) fun _ => ?_
  exact Within.bind (Within.mapError (store_brings env)) fun _ => Within.fail _

theorem installActive_brings (source : Path) :
    Within (Brings (Installs name)) (installActive env source name) := by
  have removes : Within (Brings (Installs name)) (hideLegacy env name) := by
    refine brings_of_dwindles (Within.read fun w => ?_)
      (beside_of_steady (own_steady (hideLegacy_own env)))
    dsimp only
    split
    · exact durableRemove_dwindles env _
    · exact Within.pure ()
  refine Within.read_at fun w => Within.bind_at (removes w) fun _ u hidden => ?_
  have base : u.scope = w.scope := SameBase.scope (removes.of_ok hidden).osRelease
  have allowed : Allowed (· = (scopedActivePath name w.scope).name)
      (scopedActivePath name w.scope) :=
    fun _ => rfl
  exact (durableCopy_confined env allowed source u).brings fun f same => by rw [base]; exact same

theorem restoreKnownGood_brings (reason version : String) (image : Path) :
    Within (Brings (Installs name)) (restoreKnownGood env name reason version image) := by
  refine Within.bind (quiet_brings (stopMerged_quiet env name)) fun _ => ?_
  refine Within.bind (Within.mapError (installActive_brings env image)) fun _ => ?_
  refine Within.bind (Within.mapError (sysextRefresh_brings env)) fun _ => ?_
  refine Within.bind (Within.mapError (quiet_brings (daemonReload_quiet env))) fun _ => ?_
  refine Within.bind (Within.mapError (quiet_brings (loadNamed_quiet env name))) fun r => ?_
  exact Within.mapError (quiet_brings (healthyNow_quiet env r))

theorem concludeRecovery_brings (reason version : String) :
    Within (Brings new) (concludeRecovery env name reason version) := by
  have sober : Within (Sober name) (concludeRecovery env name reason version) :=
    concludeRecovery_sober env reason version
  exact brings_of_dwindles (concludeRecovery_dwindles env reason version)
    (beside_of_sober sober)

theorem recover_brings (reason : String) :
    Within (Brings (Installs name)) (recover env name reason) := by
  refine Within.read fun w => ?_
  cases (w.memory.get name).bind ExtensionState.knownGoodVersion with
  | none => exact terminal_brings env _
  | some version =>
    dsimp only
    split
    · refine Within.bind (entry_brings _) fun _ => ?_
      refine Within.bind (Within.mapError (store_brings env)) fun _ => ?_
      refine Within.bind (Within.attempt (restoreKnownGood_brings env reason version _)) fun r => ?_
      cases r with
      | error message => exact terminal_brings env message
      | ok _ => exact concludeRecovery_brings env reason version
    · exact terminal_brings env _

theorem completeRemoval_brings : Within (Brings new) (completeRemoval env name) :=
  brings_of_dwindles (completeRemoval_dwindles env)
    (beside_of_sober (completeRemoval_sober env))

theorem reportCandidates_brings : Within (Brings new) (reportCandidates env name : Act ε _) :=
  report_within (pruneCandidates_brings env none) _

theorem reconcileActive_brings :
    Within (Brings (Installs name)) (reconcileActive env name : Act ε _) := by
  refine Within.read fun w => ?_
  split
  · exact reportCandidates_brings env
  · split
    · refine Within.bind (report_within (recover_brings env _) _) fun _ => ?_
      exact Within.bind (reportCandidates_brings env) fun _ => Within.pure _
    · exact Within.bind (entry_brings _) fun _ => reportCandidates_brings env

theorem reconcileEntry_brings (s : Snapshot) :
    Within (Brings (Installs s.name)) (reconcileEntry env s : Act ε _) := by
  have recovered : ∀ reason message,
      Within (Brings (Installs s.name)) (report message (recover env s.name reason) : Act ε _) :=
    fun reason message => report_within (recover_brings env reason) message
  have phase : Within (Brings (Installs s.name)) (reconcilePhase env s : Act ε _) := by
    unfold reconcilePhase
    dsimp only
    split
    · refine Within.read fun w => ?_
      split
      · exact Within.pure _
      · exact Within.bind (entry_brings _) fun _ => Within.pure _
    · exact recovered _ _
    · exact recovered _ _
    · exact recovered _ _
    · exact recovered _ _
    · exact report_within (completeRemoval_brings env) _
    · exact reconcileActive_brings env
    · exact reconcileActive_brings env
    · refine Within.read fun w => ?_
      split
      · exact Within.bind (entry_brings _) fun _ => reportCandidates_brings env
      · exact reportCandidates_brings env
    · exact reportCandidates_brings env
  refine Within.bind phase fun _ => ?_
  exact Within.bind (report_within (pruneRollbacks_brings env _) _) fun _ => Within.pure _

theorem Brings.installs (h : Brings (Installs name) w u) : Brings (InstallsOrRetains name) w u :=
  h.mono fun _ => Or.inl

theorem Confined.retains (h : Confined (Retained name w.scope) w u) :
    Brings (InstallsOrRetains name) w u :=
  h.brings fun _ kept => Or.inr kept

theorem adoptActive_brings (version : String) :
    Within (Brings (InstallsOrRetains name)) (adoptActive env name version) := by
  refine Within.bind (Within.mapError (quiet_brings (loadNamed_quiet env name))) fun r => ?_
  refine Within.read fun w => ?_
  refine Within.bind (Within.demand _ _) fun _ => ?_
  refine Within.bind (Within.mapError (quiet_brings (healthyNow_quiet env r))) fun _ => ?_
  refine Within.bind (Within.mapError fun u =>
    (retainActive_retains env version u).retains) fun _ => ?_
  exact Within.bind (entry_brings _) fun _ => Within.mapError (store_brings env)

theorem note_brings (image : Option Bytes) (verdict : Verdict) :
    Within (Brings new) (Act.note name image verdict : Act ε Unit) := by
  intro w
  cases image with
  | none => exact ⟨rfl, fun _ none _ _ => none⟩
  | some x => exact ⟨rfl, fun _ none _ _ => none⟩

theorem verifyOrRecover_brings (merged : List String) :
    Within (Brings (InstallsOrRetains name)) (verifyOrRecover env name merged) := by
  have recovers : ∀ reason, Within (Brings (InstallsOrRetains name)) (recover env name reason) :=
    fun reason => (recover_brings env reason).mono fun _ _ h => h.installs
  refine Within.read fun w => ?_
  split
  · exact Within.fail _
  · refine Within.bind (Within.attempt (quiet_brings (loadNamed_quiet env name))) fun r => ?_
    cases r with
    | error e => exact recovers _
    | ok ruleset =>
      dsimp only
      split
      · exact recovers _
      · refine Within.bind (Within.attempt (quiet_brings (healthyNow_quiet env ruleset)))
          fun h => ?_
        cases h with
        | error reason => exact recovers _
        | ok _ =>
          refine Within.bind ?_ fun _ => entry_brings _
          refine Within.bind (quiet_brings (mergedVersion_quiet env name)) fun version => ?_
          cases version with
          | none => exact Within.pure ()
          | some version =>
            refine Within.read fun v => ?_
            dsimp only
            split
            · refine Within.bind (quiet_brings (soak_quiet env ruleset)) fun _ => ?_
              refine Within.read_at fun x => Within.bind_at (note_brings _ _ x) fun _ y noted => ?_
              have base : y.scope = x.scope := SameBase.scope
                ((@note_brings _ _ (InstallsOrRetains name) (x.mergedImage name)
                  .soaked).of_ok noted).osRelease
              refine Within.bind_at ?_ fun _ z _ => entry_brings _ z
              rw [Prog.mapError_state]
              exact (durableCopy_retains env base _).retains
            · exact Within.pure ()

end

/-- The names an extension has images under for a base: merged, staged or retained. -/
def SlotName (name osVersion f : String) : Prop :=
  ActiveName name osVersion f ∨ Text.startsWith f (slotPrefix name osVersion) = true ∧
    (Text.endsWith f ".candidate" = true ∨ Text.endsWith f ".rollback" = true)

/-- No image of an extension is there for the running base. -/
def Gone (name : String) (w : Node) : Prop := ∀ f, SlotName name w.scope f → w.extensions[f]? = none

/-- An entry whose removal is recorded. -/
structure ExtensionState.Leaves (e : ExtensionState) : Prop where
  phase : e.phase = .removing
  optional : e.required = false

/-- An entry of an extension that has nothing. -/
structure ExtensionState.Bare (e : ExtensionState) : Prop where
  phase : e.phase = .idle
  optional : e.required = false
  active : e.activeVersion = none
  knownGood : e.knownGoodVersion = none
  candidate : e.candidateVersion = none

/-- An extension that is being removed, or has been. -/
def Withdrawn (name : String) (w : Node) (e : ExtensionState) : Prop :=
  e.Leaves ∨ e.Bare ∧ Gone name w

/-- The same by the record on disk, on one base. -/
def Withdrawing (name base : String) (w : Node) : Prop :=
  w.scope = base ∧ Holds (Withdrawn name w) (w.stored.get name)

def WithdrawingInMemory (name base : String) (w : Node) : Prop :=
  Withdrawing name base w ∧ Holds (Withdrawn name w) (w.memory.get name)

/-- An extension that has been removed, by both records. -/
structure Removed (name base : String) (w : Node) : Prop where
  scope : w.scope = base
  gone : Gone name w
  stored : Holds ExtensionState.Bare (w.stored.get name)
  memory : Holds ExtensionState.Bare (w.memory.get name)

theorem SlotName.lasting {name osVersion f : String} (h : SlotName name osVersion f) :
    ¬ Temporary f := by
  rcases h with active | ⟨-, candidate | rollback⟩
  · exact active.untemporary
  · exact not_temporary candidate (by decide)
  · exact not_temporary rollback (by decide)

/-- No other extension's image is installed under one of these names. -/
theorem SlotName.not_installs {name other osVersion f : String} (plain : Plain name)
    (hne : name ≠ other) (h : SlotName name osVersion f) : ¬ Installs other osVersion f := by
  rintro rfl
  have raw := endsWith_raw_scoped other osVersion
  rcases h with (same | same) | ⟨-, candidate | rollback⟩
  · have same := congrArg String.toList same
    simp only [scopedActivePath, String.toList_append, List.append_assoc,
      List.append_cancel_right_eq]
      at same
    exact hne (String.toList_injective same).symm
  · exact legacy_ne_scoped plain same.symm
  · exact ne_of_endings candidate raw (by decide) rfl
  · exact ne_of_endings rollback raw (by decide) rfl

section
variable {env : Environment} {name other base : String} {e : ExtensionState} {w u : Node}

theorem Gone.dwindles (h : Gone name w) (scope : u.scope = w.scope) (dwindles : Dwindles w u) :
    Gone name u := by
  intro f slot
  rcases dwindles f with same | gone
  · exact same.trans (h f (scope ▸ slot))
  · exact gone

theorem Gone.brings (h : Gone name w) (plain : Plain name) (hne : name ≠ other)
    (brings : Brings (Installs other) w u) : Gone name u := by
  intro f slot
  have slot : SlotName name w.scope f := SameBase.scope brings.osRelease ▸ slot
  exact brings.files f (h f slot) (slot.not_installs plain hne) slot.lasting

theorem Withdrawn.of_gone (h : Withdrawn name w e) (gone : Gone name w → Gone name u) :
    Withdrawn name u e :=
  h.imp_right fun bare => ⟨bare.1, gone bare.2⟩

/-- Work on another extension leaves a removal alone. -/
theorem WithdrawingInMemory.beside (h : WithdrawingInMemory name base w) (hne : name ≠ other)
    (beside : Beside other w u) (gone : Gone name w → Gone name u) :
    WithdrawingInMemory name base u := by
  obtain ⟨⟨scope, d, stored, hd⟩, e, recorded, he⟩ := h
  refine ⟨⟨beside.toElsewhere.scope.trans scope, ?_⟩, e, ?_, he.of_gone gone⟩
  · rcases beside.stored name hne with same | same
    · exact ⟨d, same.trans stored, hd.of_gone gone⟩
    · exact ⟨e, same.trans recorded, he.of_gone gone⟩
  · exact (beside.memory name hne).trans recorded

/-- Nor does work that leaves the record alone and only removes files. -/
theorem WithdrawingInMemory.of_record (h : WithdrawingInMemory name base w)
    (record : SameRecord w u)
    (dwindles : Dwindles w u) : WithdrawingInMemory name base u := by
  obtain ⟨⟨scope, d, stored, hd⟩, e, recorded, he⟩ := h
  have gone : Gone name w → Gone name u := fun gone => gone.dwindles record.scope dwindles
  refine ⟨⟨record.scope.trans scope, d, ?_, hd.of_gone gone⟩, e, ?_, he.of_gone gone⟩
  · exact (congrArg (·.get name) record.stored).trans stored
  · exact (congrArg (·.get name) record.memory).trans recorded

theorem store_withdrawing : Keeps (WithdrawingInMemory name base) (store env) := by
  refine within_preserves_iff.mp (Act.durable_within ?_ ?_)
  · intro w h
    exact ⟨⟨h.1.1, h.2⟩, h.2⟩
  · intro w reached leftover
    split
    · intro h
      exact ⟨⟨h.1.1, h.2⟩, h.2⟩
    · exact id

end

/-- Everything a removal does to the files. -/
def withdraw (env : Environment) (name : String) : Act String Unit := do
  stopMerged env name
  removeActive env name
  sysextRefresh env
  daemonReload env
  pruneCandidates env name none
  pruneRollbacks env name none

def ExtensionState.emptied (e : ExtensionState) : ExtensionState :=
  { e with
    phase := .idle
    activeVersion := none
    knownGoodVersion := none
    candidateVersion := none
    lastHealth := none
    lastFailure := none }

theorem completeRemoval_eq (env : Environment) (name : String) :
    completeRemoval env name =
      withdraw env name >>= fun _ => Act.entry name ExtensionState.emptied := by
  simp only [withdraw, Prog.bind_assoc]
  rfl

theorem ExtensionState.Leaves.emptied {e : ExtensionState} (h : e.Leaves) : e.emptied.Bare :=
  ⟨rfl, h.optional, rfl, rfl, rfl⟩

section
variable {env : Environment} {ε : Type} {name other base : String} {e : ExtensionState} {w u : Node}

theorem pruneMatchingIn_gone {start finish f : String}
    (h : pruneMatchingIn env .extensions start finish none w = .ok () u)
    (starts : Text.startsWith f start = true) (ends : Text.endsWith f finish = true) :
    u.extensions[f]? = none := by
  obtain ⟨-, rfl⟩ := Act.durable_ok h
  have left : (w.sweep .extensions fun f =>
      prunable start finish none f && true).tick.extensions[f]? =
      if (prunable start finish none f && true) = true then none else w.extensions[f]? :=
    Dir.get_sweep _ _ _
  rw [left, if_pos]
  simp [prunable, starts, ends]

theorem withdraw_record : Within SameRecord (withdraw env name) := by
  refine Within.bind (stopMerged_quiet env name).record fun _ => ?_
  refine Within.bind (removeActive_record env name) fun _ => ?_
  refine Within.bind (sysextRefresh_record env) fun _ => ?_
  refine Within.bind (daemonReload_quiet env).record fun _ => ?_
  refine Within.bind (pruneCandidates_record env name none) fun _ => ?_
  exact pruneRollbacks_record env name none

theorem removeActive_dwindles : Within Dwindles (removeActive env name) :=
  Within.read fun _ => Within.bind (durableRemove_dwindles env _) fun _ =>
    durableRemove_dwindles env _

theorem withdraw_dwindles : Within Dwindles (withdraw env name) := by
  refine Within.bind (quiet_dwindles (stopMerged_quiet env name)) fun _ => ?_
  refine Within.bind removeActive_dwindles fun _ => ?_
  refine Within.bind (sysextRefresh_dwindles env) fun _ => ?_
  refine Within.bind (quiet_dwindles (daemonReload_quiet env)) fun _ => ?_
  refine Within.bind (pruneCandidates_dwindles env none) fun _ => ?_
  exact pruneRollbacks_dwindles env none

/-- What was gone before a step that only removes files stays gone. -/
theorem Dwindles.gone (h : Dwindles w u) {f : String} (absent : w.extensions[f]? = none) :
    u.extensions[f]? = none := by
  rcases h f with same | gone
  · exact same.trans absent
  · exact gone

theorem removeActive_gone (h : removeActive env name w = .ok () u) {f : String}
    (active : ActiveName name w.scope f) : u.extensions[f]? = none := by
  rw [removeActive, read_apply] at h
  obtain ⟨_, v, unscoped, legacy⟩ := Prog.bind_eq_ok.mp h
  have down : Dwindles v u := (durableRemove_dwindles env _).of_ok legacy
  rcases active with rfl | rfl
  · have gone := durableRemove_reads (q := scopedActivePath name w.scope) unscoped
    rw [if_pos rfl] at gone
    exact down.gone gone
  · have gone := durableRemove_reads (q := legacyActivePath name) legacy
    rw [if_pos rfl] at gone
    exact gone

/-- A withdrawal that worked has left no image of the extension. -/
theorem withdraw_gone (h : withdraw env name w = .ok () u) : Gone name u := by
  have scope : u.scope = w.scope := (withdraw_record.of_ok h).scope
  obtain ⟨_, x₁, stopped, h⟩ := Prog.bind_eq_ok.mp h
  obtain ⟨_, x₂, removed, h⟩ := Prog.bind_eq_ok.mp h
  obtain ⟨_, x₃, refreshed, h⟩ := Prog.bind_eq_ok.mp h
  obtain ⟨_, x₄, reloaded, h⟩ := Prog.bind_eq_ok.mp h
  obtain ⟨_, x₅, candidates, rollbacks⟩ := Prog.bind_eq_ok.mp h
  have base₁ : x₁.scope = w.scope := ((stopMerged_quiet env name).record.of_ok stopped).scope
  have base₂ : x₂.scope = x₁.scope := ((removeActive_record env name).of_ok removed).scope
  have base₃ : x₃.scope = x₂.scope := ((sysextRefresh_record env).of_ok refreshed).scope
  have base₄ : x₄.scope = x₃.scope := ((daemonReload_quiet env).record.of_ok reloaded).scope
  have base₅ : x₅.scope = x₄.scope :=
    ((pruneCandidates_record env name none).of_ok candidates).scope
  have down₃ : Dwindles x₂ x₃ := (sysextRefresh_dwindles env).of_ok refreshed
  have down₄ : Dwindles x₃ x₄ := (quiet_dwindles (daemonReload_quiet env)).of_ok reloaded
  have down₅ : Dwindles x₄ x₅ := (pruneCandidates_dwindles env none).of_ok candidates
  have down₆ : Dwindles x₅ u := (pruneRollbacks_dwindles env none).of_ok rollbacks
  intro f slot
  rw [scope] at slot
  rcases slot with active | ⟨starts, candidate | rollback⟩
  · rw [← base₁] at active
    exact down₆.gone (down₅.gone (down₄.gone (down₃.gone (removeActive_gone removed active))))
  · rw [← base₁, ← base₂, ← base₃, ← base₄] at starts
    exact down₆.gone (pruneMatchingIn_gone candidates starts candidate)
  · rw [← base₁, ← base₂, ← base₃, ← base₄, ← base₅] at starts
    exact pruneMatchingIn_gone rollbacks starts rollback

/-- A removal leaves an extension being removed, and one that worked has removed it. -/
theorem completeRemoval_withdraws (leaves : Holds ExtensionState.Leaves (w.memory.get name))
    (h : WithdrawingInMemory name base w) :
    (completeRemoval env name w).Meets
      ⟨fun _ u => WithdrawingInMemory name base u ∧ Gone name u ∧
          Holds ExtensionState.Bare (u.memory.get name),
        fun _ => WithdrawingInMemory name base, WithdrawingInMemory name base⟩ := by
  obtain ⟨e, recorded, he⟩ := leaves
  have record : SameRecord w (withdraw env name w).state := withdraw_record w
  have down : Dwindles w (withdraw env name w).state := withdraw_dwindles w
  have kept := h.of_record record down
  rw [completeRemoval_eq, Prog.bind_apply]
  cases ran : withdraw env name w with
  | error why u =>
    rw [ran] at kept
    exact kept
  | halt u =>
    rw [ran] at kept
    exact kept
  | ok _ u =>
    rw [ran] at kept record
    have gone : Gone name u := withdraw_gone ran
    have here : u.memory.get name = some e := (congrArg (·.get name) record.memory).trans recorded
    have bare : Holds ExtensionState.Bare
        ((u.memory.entry name ExtensionState.emptied).get name) := by
      refine ⟨e.emptied, ?_, he.emptied⟩
      rw [State.get_entry_self, here]
      rfl
    obtain ⟨d, recorded', hd⟩ := bare
    exact ⟨⟨kept.1, d, recorded', Or.inr ⟨hd, gone⟩⟩, gone, d, recorded', hd⟩

/-- A reported step promises what it promised, by whether there is something to report. -/
theorem report_triple {P halt : Node → Prop} {Q : List String → Node → Prop}
    {message : String → String} {m : Act String Unit}
    (h : Triple P m ⟨fun _ => Q [], fun why => Q [message why], halt⟩) :
    Triple P (report message m : Act ε _) ⟨Q, fun _ _ => False, halt⟩ := by
  refine Triple.bind (R := fun result u => match result with
    | .ok _ => Q [] u
    | .error why => Q [message why] u) (Triple.attempt h) fun result => ?_
  cases result with
  | ok _ => exact Triple.pure fun _ => id
  | error why => exact Triple.pure fun _ => id

/-- What the turns of a reconcile have reached. -/
def Settling (name base : String) (failures : List String) (w : Node) : Prop :=
  WithdrawingInMemory name base w ∧
    (failures = [] → Gone name w ∧ Holds ExtensionState.Bare (w.memory.get name))

theorem Settling.of_record {failures : List String} (h : Settling name base failures w)
    (record : SameRecord w u) (down : Dwindles w u) : Settling name base failures u := by
  refine ⟨h.1.of_record record down, fun clean => ?_⟩
  obtain ⟨gone, bare⟩ := h.2 clean
  exact ⟨gone.dwindles record.scope down, by rwa [record.memory]⟩

theorem Settling.more {failures : List String} (h : Settling name base failures w)
    (more : List String) : Settling name base (failures ++ more) w :=
  ⟨h.1, fun clean => h.2 (List.append_eq_nil_iff.mp clean).1⟩

theorem reconcileIdle_withdraws (bare : e.Bare) (h : WithdrawingInMemory name base w)
    (gone : Gone name w) (recorded : w.memory.get name = some e) :
    (reconcileIdle env name w : Outcome Node ε _).Meets
      ⟨Settling name base, fun _ _ => False, WithdrawingInMemory name base⟩ := by
  have candidates : Triple (Settling name base [])
      (reportCandidates env name : Act ε _)
      ⟨Settling name base, fun _ _ => False, WithdrawingInMemory name base⟩ := by
    refine report_triple fun v hv => ?_
    have record : SameRecord v (pruneCandidates env name none v).state :=
      pruneCandidates_record env name none v
    have down : Dwindles v (pruneCandidates env name none v).state :=
      pruneCandidates_dwindles env none v
    have kept := hv.of_record record down
    cases ran : pruneCandidates env name none v <;> rw [ran] at kept
    case ok => exact kept
    case error why x => exact kept.more [_]
    case halt => exact kept.1
  rw [reconcileIdle, read_apply]
  split
  · rw [Prog.bind_of_ok (Act.entry_apply _ _ _)]
    have forgotten : (w.memory.entry name forgetVersions).get name = some (forgetVersions e) := by
      rw [State.get_entry_self, recorded]
      rfl
    have still : (forgetVersions e).Bare := ⟨bare.phase, bare.optional, rfl, rfl, rfl⟩
    exact candidates _ ⟨⟨h.1, _, forgotten, Or.inr ⟨still, gone⟩⟩, fun _ =>
      ⟨gone, _, forgotten, still⟩⟩
  · exact candidates _ ⟨h, fun _ => ⟨gone, e, recorded, bare⟩⟩

/-- Its own turn in a reconcile finishes the removal, or reports that it did not. -/
theorem reconcileEntry_withdraws {s : Snapshot} (phase : s.phase = e.phase) :
    Triple (fun w => WithdrawingInMemory s.name base w ∧ w.memory.get s.name = some e)
      (reconcileEntry env s : Act ε _)
      ⟨Settling s.name base, fun _ => WithdrawingInMemory s.name base,
        WithdrawingInMemory s.name base⟩ := by
  have turn : Triple (fun w => WithdrawingInMemory s.name base w ∧ w.memory.get s.name = some e)
      (reconcilePhase env s : Act ε _)
      ⟨Settling s.name base, fun _ _ => False, WithdrawingInMemory s.name base⟩ := by
    rintro v ⟨h, recorded⟩
    obtain ⟨d, recorded', withdrawn⟩ := h.2
    cases recorded.symm.trans recorded'
    rcases withdrawn with leaves | ⟨bare, gone⟩
    · unfold reconcilePhase
      simp only [phase, leaves.phase]
      refine report_triple (P := (· = v)) ?_ v rfl
      rintro x rfl
      have removed := @completeRemoval_withdraws env _ _ _ ⟨e, recorded, leaves⟩ h
      cases ran : completeRemoval env s.name x <;> rw [ran] at removed
      case ok => exact ⟨removed.1, fun _ => removed.2⟩
      case error why y => exact ⟨removed, nofun⟩
      case halt => exact removed
    · unfold reconcilePhase
      simp only [phase, bare.phase]
      exact reconcileIdle_withdraws bare h gone recorded
  have pruned : ∀ failures, Triple (Settling s.name base failures)
      (report (fun error => s!"{s.name}: could not prune rollbacks: {error}")
        (pruneRollbacks env s.name s.knownGood) : Act ε _)
      ⟨fun more => Settling s.name base (failures ++ more), fun _ _ => False,
        WithdrawingInMemory s.name base⟩ := by
    refine fun failures => report_triple fun v hv => ?_
    have record : SameRecord v (pruneRollbacks env s.name s.knownGood v).state :=
      pruneRollbacks_record env s.name s.knownGood v
    have down : Dwindles v (pruneRollbacks env s.name s.knownGood v).state :=
      pruneRollbacks_dwindles env s.knownGood v
    have kept := hv.of_record record down
    cases ran : pruneRollbacks env s.name s.knownGood v <;> rw [ran] at kept
    case ok => exact kept.more []
    case error why x => exact kept.more [_]
    case halt => exact kept.1
  have whole := Triple.bind turn fun failures => Triple.bind (pruned failures) fun more =>
    Triple.pure (Q := ⟨Settling s.name base, fun _ _ => False, WithdrawingInMemory s.name base⟩)
      fun _ => id
  exact whole.mono (fun _ => id) (fun _ _ => id) (fun _ _ => False.elim) fun _ => id

theorem pruneTransactionFiles_dwindles : Within Dwindles (pruneTransactionFiles env) := by
  refine Within.bind (fun w f => pruneMatchingIn_shrinks env _ _ _ f w) fun _ => ?_
  exact Act.durable_within (fun _ _ => Or.inl rfl) fun _ _ _ _ => Or.inl rfl

/-- A removal on record is taken into memory as it is. -/
theorem Withdrawing.recall (h : Withdrawing name base w) :
    ∃ e, WithdrawingInMemory name base w.recall ∧ w.recall.memory.get name = some e := by
  obtain ⟨scope, d, stored, hd⟩ := h
  have fresh : ∀ version, State.isStaleTerminal version d = false := by
    intro version
    rcases hd with leaves | ⟨bare, -⟩
    · rw [State.isStaleTerminal, leaves.phase]
      rfl
    · rw [State.isStaleTerminal, bare.phase]
      rfl
  have recorded : w.remembered.get name = some d := by
    rw [get_remembered, stored, Option.map_some, if_neg]
    simp [fresh]
  exact ⟨d, ⟨⟨scope, d, stored, hd⟩, d, recorded, hd⟩, recorded⟩

/-- The turns of the others keep what is gone, and the entry. -/
theorem reconcileEntry_spares (plain : Plain name) {s : Snapshot} (hne : name ≠ s.name) (v : Node) :
    Beside s.name v (reconcileEntry env s v : Outcome Node ε _).state ∧
      (Gone name v → Gone name (reconcileEntry env s v : Outcome Node ε _).state) := by
  have sober : Sober s.name v (reconcileEntry env s v : Outcome Node ε _).state :=
    reconcileEntry_sober env s v
  have brings : Brings (Installs s.name) v (reconcileEntry env s v : Outcome Node ε _).state :=
    reconcileEntry_brings env s v
  exact ⟨sober.toBeside, fun gone => gone.brings plain hne brings⟩

theorem reconcileRecord_withdraws (plain : Plain name) (h : WithdrawingInMemory name base w)
    (recorded : w.memory.get name = some e) :
    (reconcileRecord env w).Meets ⟨fun _ => Removed name base,
      fun _ => WithdrawingInMemory name base, WithdrawingInMemory name base⟩ := by
  apply @reconcileRecord_followed env name _
    (fun u => WithdrawingInMemory name base u ∧ u.memory.get name = some e) _
    (Settling name base) _ ⟨h, recorded⟩
  · rintro s rfl hs
    obtain ⟨d, there, phase, -, -⟩ := mem_snapshots.mp hs
    cases there.symm.trans recorded
    exact reconcileEntry_withdraws phase
  · intro absent
    rw [recorded] at absent
    cases absent
  · rintro s - hne
    apply within_preserves_iff.mp
    rintro v ⟨hv, same⟩
    obtain ⟨beside, gone⟩ := @reconcileEntry_spares env String _ plain _ hne.symm v
    exact ⟨hv.beside hne.symm beside gone, (beside.memory name hne.symm).trans same⟩
  · rintro failures s - hne
    apply within_preserves_iff.mp
    rintro v ⟨hv, settled⟩
    obtain ⟨beside, gone⟩ := @reconcileEntry_spares env String _ plain _ hne.symm v
    refine ⟨hv.beside hne.symm beside gone, fun clean => ?_⟩
    obtain ⟨none, bare⟩ := settled clean
    exact ⟨gone none, by rwa [beside.memory name hne.symm]⟩
  · intro failures
    apply within_preserves_iff.mp
    intro v hv
    exact hv.of_record (reconcileOrphans_tidied env _ v).toSameRecord
      (reconcileOrphans_dwindles env _ v)
  · exact fun _ => And.left
  · exact fun _ _ => And.left
  · exact store_withdrawing
  · rintro v ⟨hv, settled⟩
    obtain ⟨gone, bare⟩ := settled rfl
    exact ⟨hv.1.1, gone, bare, bare⟩

/-- A reconcile that works leaves nothing of an extension whose removal is recorded, and one
that does not leaves the removal on record. -/
theorem reconcileState_withdraws (plain : Plain name) :
    Triple (Withdrawing name base) (reconcileState env)
      ⟨fun _ => Removed name base, fun _ => Withdrawing name base, Withdrawing name base⟩ := by
  apply reconcileState_followed env
  · apply within_preserves_iff.mp
    rintro w ⟨scope, e, stored, withdrawn⟩
    have record := (pruneTransactionFiles_tidied env w).toSameRecord
    refine ⟨record.scope.trans scope, e, ?_, withdrawn.of_gone fun gone =>
      gone.dwindles record.scope (pruneTransactionFiles_dwindles w)⟩
    exact (congrArg (·.get name) record.stored).trans stored
  · exact fun _ => id
  · intro w h
    obtain ⟨e, held, recorded⟩ := h.recall
    have ends := @reconcileRecord_withdraws env _ _ _ _ plain held recorded
    cases ran : reconcileRecord env w.recall <;> rw [ran] at ends
    case ok => exact ends
    case error => exact ends.1
    case halt => exact ends.1

end

/-- No image of an extension under one base is named like one under the other. -/
def SeparateBases (base running : String) : Prop :=
  Text.startsWith (running ++ ".raw.") (base ++ ".raw.") = false ∧
    Text.startsWith (base ++ ".raw.") (running ++ ".raw.") = false

instance (base running : String) : Decidable (SeparateBases base running) :=
  inferInstanceAs (Decidable (_ ∧ _))

/-- While a base runs, all names on record are plain and no image of an extension is there for
a base, be it that one or one apart from it. -/
structure Barren (name base running : String) (w : Node) : Prop where
  plain : PlainRecord w
  scope : w.scope = running
  absent : ∀ f, SlotName name base f → w.extensions[f]? = none

section
variable {env : Environment} {ε α : Type} {name other base running f : String} {w u : Node}

theorem SeparateBases.ne (h : SeparateBases base running) : base ≠ running := by
  rintro rfl
  have same : Text.startsWith (base ++ ".raw.") (base ++ ".raw.") = true := by
    simp [Text.startsWith_iff]
  rw [h.1] at same
  cases same

theorem SeparateBases.apart (h : SeparateBases base running)
    (starts : Text.startsWith f (slotPrefix name base) = true) :
    Text.startsWith f (slotPrefix name running) = false := by
  have parts : ∀ b : String, (slotPrefix name b).toList =
      (name ++ "_").toList ++ (b ++ ".raw.").toList := by
    simp [slotPrefix]
  have none : ¬ Text.startsWith f (slotPrefix name running) = true := by
    intro there
    rw [Text.startsWith_iff, parts] at starts there
    rcases List.prefix_or_prefix_of_prefix starts there with longer | longer
    · have within := Text.startsWith_iff.mpr ((List.prefix_append_right_inj _).mp longer)
      rw [h.1] at within
      cases within
    · have within := Text.startsWith_iff.mpr ((List.prefix_append_right_inj _).mp longer)
      rw [h.2] at within
      cases within
  simpa using none

/-- Work on another extension neither writes nor removes an image of the extension. -/
theorem SlotName.untouched (plain : Plain name) (others : Plain other) (hne : name ≠ other)
    (h : SlotName name base f) : ¬ Touches other running f ∧ ¬ Retained other running f := by
  rcases h with (rfl | rfl) | ⟨starts, candidate | rollback⟩
  · exact ⟨not_touches_scoped plain others hne,
      not_retained_of (endsWith_raw_scoped name base) (by decide)⟩
  · exact ⟨not_touches_legacy plain hne,
      not_retained_of (endsWith_raw_legacy name) (by decide)⟩
  · refine ⟨fun touches => ?_, not_retained_of candidate (by decide)⟩
    cases touches with
    | legacy => exact ne_of_endings candidate (endsWith_raw_legacy other) (by decide) rfl
    | active b => exact ne_of_endings candidate (endsWith_raw_scoped other b) (by decide) rfl
    | candidate slot _ => exact hne (slot_unique plain others starts slot).symm
    | temporary h => exact ne_of_endings candidate h.2 (by decide) rfl
  · exact ⟨not_touches_of_rollback rollback,
      fun kept => hne (slot_unique plain others starts kept.1).symm⟩

/-- On a base apart, its own images have other names. -/
theorem SlotName.elsewhere (plain : Plain name) (separate : SeparateBases base running)
    (h : SlotName name base f) : ¬ InstallsOrRetains name running f := by
  rintro (rfl | ⟨starts, rollback⟩)
  · have raw := endsWith_raw_scoped name running
    rcases h with (same | same) | ⟨-, candidate | rollback⟩
    · have same := congrArg String.toList same
      simp only [scopedActivePath, String.toList_append, List.append_assoc,
        List.append_cancel_right_eq, List.append_cancel_left_eq] at same
      exact separate.ne (String.toList_injective same).symm
    · exact legacy_ne_scoped plain same.symm
    · exact ne_of_endings candidate raw (by decide) rfl
    · exact ne_of_endings rollback raw (by decide) rfl
  · rcases h with active | ⟨here, -⟩
    · exact ne_of_endings active.raw rollback (by decide) rfl
    · rw [separate.apart here] at starts
      cases starts

theorem Barren.aside (h : Barren name base running w) (plain : Plain name) (others : Plain other)
    (hne : name ≠ other) (aside : Aside other w u) : Barren name base running u := by
  refine ⟨aside.plainRecord others h.plain, aside.toElsewhere.scope.trans h.scope,
    fun f slot => ?_⟩
  have apart : ¬ Touches other w.scope f ∧ ¬ Retained other w.scope f :=
    slot.untouched plain others hne
  rw [aside.files f apart.1 apart.2]
  exact h.absent f slot

/-- Its own work, on a base apart. -/
theorem Barren.abroad (h : Barren name base running w) (plain : Plain name)
    (separate : SeparateBases base running) (aside : Aside name w u)
    (brings : Brings (InstallsOrRetains name) w u) : Barren name base running u := by
  refine ⟨aside.plainRecord plain h.plain, aside.toElsewhere.scope.trans h.scope,
    fun f slot => brings.files f (h.absent f slot) ?_ slot.lasting⟩
  rw [h.scope]
  exact slot.elsewhere plain separate

/-- Its own work, where that brings nothing. -/
theorem barren_of_beside {m : Act ε α} (plain : Plain name) (beside : Within (Beside name) m)
    (brings : Within (Brings fun _ _ => False) m) :
    Within (Preserves (Barren name base running)) m := by
  refine fun w h => ⟨(beside w).aside.plainRecord plain h.plain,
    (beside w).toElsewhere.scope.trans h.scope, fun f slot => ?_⟩
  exact (brings w).files f (h.absent f slot) id slot.lasting

theorem barren_of_steady {m : Act ε α} (plain : Plain name) (steady : Within (Steady name) m)
    (brings : Within (Brings fun _ _ => False) m) :
    Within (Preserves (Barren name base running)) m :=
  barren_of_beside plain (beside_of_steady steady) brings

theorem barren_of_record {m : Act ε α} (record : Within SameRecord m)
    (dwindles : Within Dwindles m) : Within (Preserves (Barren name base running)) m :=
  fun w h => ⟨(record w).plainRecord h.plain, (record w).scope.trans h.scope,
    fun f slot => (dwindles w).gone (h.absent f slot)⟩

theorem barren_of_quiet {m : Act ε α} (h : Quiet m) :
    Within (Preserves (Barren name base running)) m :=
  barren_of_record h.record (quiet_dwindles h)

theorem entry_barren (others : Plain other) (f : ExtensionState → ExtensionState) :
    Within (Preserves (Barren name base running)) (Act.entry other f : Act ε Unit) := by
  refine fun w h => ⟨?_, h.scope, h.absent⟩
  rintro third e (memory | stored)
  · have memory : (w.memory.entry other f).get third = some e := memory
    rw [State.get_entry] at memory
    split at memory
    · subst third
      exact others
    · exact h.plain third e (Or.inl memory)
  · exact h.plain third e (Or.inr stored)

theorem store_barren : Within (Preserves (Barren name base running)) (store env) := by
  intro w h
  refine ⟨within_preserves_iff.mpr (store_plain env) w h.plain, ?_, fun f slot => ?_⟩
  · exact (SameBase.scope (store_base env w)).trans h.scope
  · exact (store_dwindles env w).gone (h.absent f slot)

theorem terminal_barren (plain : Plain name) (reason : String) :
    Within (Preserves (Barren name base running)) (terminal env name reason) :=
  barren_of_steady plain (terminal_steady env reason) (terminal_brings env reason)

/-- On the base itself, no version on record has an image to go back to. -/
theorem recover_barren (plain : Plain name) (home : base = running ∨ SeparateBases base running)
    (reason : String) : Within (Preserves (Barren name base running))
    (recover env name reason) := by
  rcases home with rfl | separate
  · have given : ∀ message,
        Within (Preserves (Barren name base base)) (terminal env name message) :=
      terminal_barren plain
    refine Within.read_at fun w h => ?_
    cases (w.memory.get name).bind ExtensionState.knownGoodVersion with
    | none => exact given _ w h
    | some version =>
      have retained : Retained name base (w.rollbackPath name version).name :=
        h.scope ▸ retained_rollbackPath w name version
      have missing : w.fileExists (w.rollbackPath name version) = false := by
        have gone : w.readFile (w.rollbackPath name version) = none :=
          h.absent _ (Or.inr ⟨retained.1, Or.inr retained.2⟩)
        rw [Node.fileExists, gone]
        rfl
      dsimp only
      rw [if_neg (by rw [missing]; decide)]
      exact given _ w h
  · intro w h
    have sober : Sober name w (recover env name reason w).state := recover_sober env reason w
    exact h.abroad plain separate sober.toBeside.aside (recover_brings env reason w).installs

theorem reportCandidates_barren (plain : Plain name) :
    Within (Preserves (Barren name base running)) (reportCandidates env name : Act ε _) :=
  barren_of_steady plain (reportCandidates_steady env) (reportCandidates_brings env)

theorem completeRemoval_barren (plain : Plain name) :
    Within (Preserves (Barren name base running)) (completeRemoval env name) :=
  barren_of_beside plain (beside_of_sober (completeRemoval_sober env))
    (completeRemoval_brings env)

theorem reconcileActive_barren (plain : Plain name)
    (home : base = running ∨ SeparateBases base running) :
    Within (Preserves (Barren name base running)) (reconcileActive env name : Act ε _) := by
  refine Within.read fun w => ?_
  split
  · exact reportCandidates_barren plain
  · split
    · refine Within.bind (report_within (recover_barren plain home _) _) fun _ => ?_
      exact Within.bind (reportCandidates_barren plain) fun _ => Within.pure _
    · exact Within.bind (entry_barren plain _) fun _ => reportCandidates_barren plain

theorem reconcileEntry_barren {s : Snapshot} (plain : Plain name) (others : Plain s.name)
    (home : base = running ∨ SeparateBases base running) :
    Within (Preserves (Barren name base running)) (reconcileEntry env s : Act ε _) := by
  by_cases hne : name = s.name
  · subst hne
    have phase : Within (Preserves (Barren s.name base running))
        (reconcilePhase env s : Act ε _) := by
      unfold reconcilePhase
      dsimp only
      split
      · refine Within.read fun w => ?_
        split
        · exact Within.pure _
        · exact Within.bind (entry_barren plain _) fun _ => Within.pure _
      · exact report_within (recover_barren plain home _) _
      · exact report_within (recover_barren plain home _) _
      · exact report_within (recover_barren plain home _) _
      · exact report_within (recover_barren plain home _) _
      · exact report_within (completeRemoval_barren plain) _
      · exact reconcileActive_barren plain home
      · exact reconcileActive_barren plain home
      · refine Within.read fun w => ?_
        split
        · exact Within.bind (entry_barren plain _) fun _ => reportCandidates_barren plain
        · exact reportCandidates_barren plain
      · exact reportCandidates_barren plain
    refine Within.bind phase fun _ => Within.bind (report_within ?_ _) fun _ => Within.pure _
    exact barren_of_beside plain (beside_of_sober (pruneRollbacks_sober env _))
      (pruneRollbacks_brings env _)
  · intro w h
    have sober : Sober s.name w (reconcileEntry env s w : Outcome Node ε _).state :=
      reconcileEntry_sober env s w
    exact h.aside plain others hne sober.toBeside.aside

/-- On the base itself, nothing there can be adopted. -/
theorem Barren.inactive (h : Barren name base base w) :
    w.fileExists (w.activePath name) = false := by
  have unscoped : w.readFile (legacyActivePath name) = none :=
    h.absent _ (Or.inl (Or.inr rfl))
  have slot : w.readFile (scopedActivePath name w.scope) = none := by
    rw [h.scope]
    exact h.absent _ (Or.inl (Or.inl rfl))
  simp [Node.activePath, Node.fileExists, unscoped, slot]

theorem adoptActive_barren (plain : Plain name) (home : base = running ∨ SeparateBases base running)
    (version : String) :
    Within (Preserves (Barren name base running)) (adoptActive env name version) := by
  rcases home with rfl | separate
  · refine Within.bind (barren_of_quiet (Returns.mapError (loadNamed_quiet env name) _)) fun r => ?_
    refine Within.read_at fun w h => ?_
    rw [h.inactive]
    exact h
  · intro w h
    have beside : Beside name w (adoptActive env name version w).state :=
      adoptActive_beside env version w
    exact h.abroad plain separate beside.aside (adoptActive_brings env version w)

/-- Nor retained, however healthy what is merged may be. -/
theorem retainHealthy_barren (version : String) (ruleset : Ruleset) :
    Within (Preserves (Barren name base base)) (retainHealthy env name version ruleset) := by
  refine Within.bind (barren_of_quiet (soak_quiet env ruleset)) fun _ => ?_
  refine Within.read_at fun w h => ?_
  obtain ⟨v, noted, held, same⟩ : ∃ v, (Act.note name (w.mergedImage name) .soaked :
      Act String Unit) w = .ok () v ∧ Barren name base base v ∧ v.extensions = w.extensions := by
    cases w.mergedImage name with
    | none => exact ⟨w, rfl, h, rfl⟩
    | some x => exact ⟨_, rfl, ⟨h.plain, h.scope, h.absent⟩, rfl⟩
  rw [Prog.bind_of_ok noted]
  have gone : v.readFile (w.activePath name) = none := by
    have inactive := h.inactive
    rw [Node.fileExists, Option.isSome_eq_false_iff, Option.isNone_iff_eq_none] at inactive
    rw [← inactive, Node.activePath]
    split
    · exact congrArg (fun d : Dir => d[(scopedActivePath name w.scope).name]?) same
    · split
      · exact congrArg (fun d : Dir => d[(legacyActivePath name).name]?) same
      · exact congrArg (fun d : Dir => d[(scopedActivePath name w.scope).name]?) same
  have refused : durableCopy env (w.activePath name) (w.rollbackPath name version) v =
      .error "No such file or directory (os error 2)" v := by
    rw [durableCopy, read_apply, gone]
    rfl
  rw [Prog.bind_of_error (Prog.mapError_eq_error.mpr ⟨_, refused, rfl⟩)]
  exact held

/-- The gate goes over its own entry, on the base itself. -/
theorem verifyOrRecover_home (plain : Plain name) (merged : List String) :
    Within (Preserves (Barren name base base)) (verifyOrRecover env name merged) := by
  have recovers : ∀ reason, Within (Preserves (Barren name base base)) (recover env name reason) :=
    recover_barren plain (Or.inl rfl)
  refine Within.read fun w => ?_
  split
  · exact Within.fail _
  · refine Within.bind (Within.attempt (barren_of_quiet (loadNamed_quiet env name))) fun r => ?_
    cases r with
    | error e => exact recovers _
    | ok ruleset =>
      dsimp only
      split
      · exact recovers _
      · refine Within.bind (Within.attempt (barren_of_quiet (healthyNow_quiet env ruleset)))
          fun h => ?_
        cases h with
        | error reason => exact recovers _
        | ok _ =>
          refine Within.bind ?_ fun _ => entry_barren plain _
          refine Within.bind (barren_of_quiet (mergedVersion_quiet env name)) fun version => ?_
          cases version with
          | none => exact Within.pure ()
          | some version =>
            refine Within.read fun v => ?_
            dsimp only
            split
            · exact retainHealthy_barren version ruleset
            · exact Within.pure ()

theorem verifyOrRecover_barren (plain : Plain name) (others : Plain other)
    (home : base = running ∨ SeparateBases base running) (merged : List String) :
    Within (Preserves (Barren name base running)) (verifyOrRecover env other merged) := by
  intro w h
  have beside : Beside other w (verifyOrRecover env other merged w).state :=
    verifyOrRecover_beside env merged w
  by_cases hne : name = other
  · subst hne
    rcases home with rfl | separate
    · exact verifyOrRecover_home plain merged w h
    · exact h.abroad plain separate beside.aside (verifyOrRecover_brings env merged w)
  · exact h.aside plain others hne beside.aside

theorem Barren.recall (h : Barren name base running w) : Barren name base running w.recall :=
  ⟨plainRecord_remembered h.plain, h.scope, h.absent⟩

theorem reconcileRecord_barren (plain : Plain name)
    (home : base = running ∨ SeparateBases base running) :
    Within (Preserves (Barren name base running)) (reconcileRecord env) := by
  refine Within.read_at fun w h => ?_
  refine (?_ : Preserves (Barren name base running) w _) h
  refine Within.bind_at ?_ fun failures u _ => ?_
  · exact reconcileEntries_within env (fun s hs =>
      reconcileEntry_barren plain (plainRecord_snapshot h.plain hs) home) w
  refine Within.bind ?_ (fun _ => ?_) u
  · exact barren_of_record
      ((reconcileOrphans_tidied env _).mono fun _ _ tidied => tidied.toSameRecord)
      (reconcileOrphans_dwindles env _)
  · exact Within.bind store_barren fun _ => Within.demand _ _

theorem reconcileState_barren (plain : Plain name)
    (home : base = running ∨ SeparateBases base running) :
    Keeps (Barren name base running) (reconcileState env) := by
  apply reconcileState_followed env
  · exact within_preserves_iff.mp (barren_of_record
      ((pruneTransactionFiles_tidied env).mono fun _ _ tidied => tidied.toSameRecord)
      pruneTransactionFiles_dwindles)
  · exact fun w h => ⟨h.plain, h.scope, h.absent⟩
  · exact fun w h => within_preserves_iff.mp (reconcileRecord_barren plain home) _ h.recall

theorem healthGate_barren (plain : Plain name)
    (home : base = running ∨ SeparateBases base running) :
    Keeps (Barren name base running) (healthGate env) := by
  have clock : ∀ w t, Barren name base running w → Barren name base running (w.clock t) :=
    fun w t h => ⟨h.plain, h.scope, h.absent⟩
  refine healthGate_keeps env clock clock (fun w => Barren.recall) (fun w merged h other ho => ?_)
    (within_preserves_iff.mp store_barren)
  exact within_preserves_iff.mp
    (verifyOrRecover_barren plain (plainRecord_required h.plain ho) home merged)

/-- A command that takes the record from disk first. -/
theorem loaded_barren {f : State → Act ε α} {load : Act ε State}
    (hl : ∀ w s u, load w = .ok s u → s = w.stored) (hq : Quiet load)
    (hf : ∀ s, Within (Preserves (Barren name base running)) (f s)) :
    Within (Preserves (Barren name base running))
      (load >>= fun s => Act.hold s >>= fun _ => f s) := by
  have kept : Triple (Barren name base running) (load >>= fun s => Act.hold s >>= fun _ => f s)
      (Ends.always (Barren name base running)) := by
    apply loaded_keeps hl hq
    · exact fun w t h => ⟨h.plain, h.scope, h.absent⟩
    · exact fun w h => ⟨fun other e held => h.plain other e (Or.inr (held.elim id id)),
        h.scope, h.absent⟩
    · exact fun _ => id
    · exact fun s => within_preserves_iff.mp (hf s)
  exact within_preserves_iff.mpr kept

theorem edited_barren (plain : Plain name) (f : ExtensionState → ExtensionState) :
    Within (Preserves (Barren name base running)) (loadState env >>= fun state =>
      Act.hold state >>= fun _ => Act.entry name f >>= fun _ => store env) :=
  loaded_barren (fun _ _ _ => loadState_eq env) (loadState_quiet env) fun _ =>
    Within.bind (entry_barren plain f) fun _ => store_barren

end

/-- An event that neither stages nor activates an extension. -/
def Event.upkeep : Event → Bool
  | .command .stageExtension _ => false
  | .command .activate _ => false
  | .request .stageExtension _ => false
  | .request .activateExtension _ => false
  | _ => true

/-- The event takes the lock, and its reconcile works and ends at the given node. -/
def Event.Reconciles (env : Environment) : Event → Node → Node → Prop
  | .command _ _, w, y => ∃ v, acquireLock env w.process = .ok () v ∧
    reconcileState env v = .ok () y
  | .request _ _, w, y => ∃ v, tryLock env w.process = .ok () v ∧ reconcileState env v = .ok () y
  | .boot _ _, _, _ => False

/-- What happens to a removed extension: it is not staged or activated, and what is booted is
the base it was removed from or one apart from that. -/
def Event.Forgoes (name base : String) : Event → Prop
  | .boot osRelease _ =>
    base = ({ osRelease := osRelease } : Node).scope ∨
      SeparateBases base ({ osRelease := osRelease } : Node).scope
  | e => e.subject = some name → e.upkeep = true

section
variable {env : Environment} {name base running : String} {w u : Node}

/-- A command on the extension itself. -/
theorem Command.operation_barren (plain : Plain name)
    (home : base = running ∨ SeparateBases base running) {c : Command} {arguments : List String}
    (about : c.subject arguments = some name) (upkeep : (Event.command c arguments).upkeep = true) :
    Within (Preserves (Barren name base running)) (c.operation env arguments) := by
  cases c with
  | healthGate => cases about
  | stageBase => cases about
  | activate => cases upkeep
  | stageExtension => cases upkeep
  | adopt =>
    rcases arguments with _ | ⟨other, _ | ⟨version, rest⟩⟩
    · cases about
    · exact Within.fail _
    · cases about
      exact loaded_barren (fun _ _ _ => loadState_eq env) (loadState_quiet env) fun _ =>
        Within.mapError (adoptActive_barren plain home version)
  | rollback =>
    rcases arguments with _ | ⟨other, rest⟩
    · cases about
    · cases about
      refine loaded_barren (fun _ _ _ => loadState_eq env) (loadState_quiet env) fun _ => ?_
      refine Within.bind (Within.attempt (recover_barren plain home _)) fun r => ?_
      refine Within.bind store_barren fun _ => ?_
      cases r with
      | ok _ => exact Within.pure ()
      | error e => exact Within.fail e
  | remove =>
    rcases arguments with _ | ⟨other, rest⟩
    · cases about
    · cases about
      refine loaded_barren (fun _ _ _ => loadState_eq env) (loadState_quiet env) fun _ => ?_
      refine Within.bind (entry_barren plain _) fun _ => Within.bind store_barren fun _ => ?_
      exact Within.bind (completeRemoval_barren plain) fun _ => store_barren
  | require =>
    rcases arguments with _ | ⟨other, rest⟩
    · cases about
    · cases about
      exact edited_barren plain _
  | unrequire =>
    rcases arguments with _ | ⟨other, rest⟩
    · cases about
    · cases about
      exact edited_barren plain _
  | reset =>
    rcases arguments with _ | ⟨other, rest⟩
    · cases about
    · cases about
      exact edited_barren plain _

theorem Barren.process (h : Barren name base running w) : Barren name base running w.process := by
  refine ⟨?_, h.scope, h.absent⟩
  rintro other e (memory | stored)
  · simp [Node.process, State.get] at memory
  · exact h.plain other e (Or.inr stored)

theorem untouched_barren {ε α : Type} {m : Act ε α} (untouched : Within Untouched m) :
    Keeps (Barren name base running) m := by
  refine within_preserves_iff.mp (barren_of_record (untouched.mono fun _ _ h => h.toSameRecord) ?_)
  exact untouched.mono fun _ _ h f => Or.inl (by rw [h.extensions])

/-- What an event works on, after its reconcile. -/
theorem operation_barren (plain : Plain name) (home : base = running ∨ SeparateBases base running)
    {c : Command} {arguments : List String} (named : (Event.command c arguments).Named)
    (forgoes : (Event.command c arguments).Forgoes name base) :
    Keeps (Barren name base running) (c.operation env arguments) := by
  rcases c.operation_cases env arguments with rfl | untouched | ⟨other, about, aside⟩
  · exact healthGate_barren plain home
  · exact untouched_barren untouched
  · apply within_preserves_iff.mp
    by_cases hne : name = other
    · subst hne
      exact Command.operation_barren plain home about (forgoes about)
    · exact aside.mono fun w u aside h => h.aside plain (named other about) hne aside

theorem asked_barren (plain : Plain name) {c : Call} {r : Request}
    (named : (Event.request c r).Named) (forgoes : (Event.request c r).Forgoes name base) :
    Keeps (Barren name base running) (c.operation env r) := by
  rcases c.operation_cases env r with untouched | ⟨other, about, aside⟩
  · exact untouched_barren untouched
  · apply within_preserves_iff.mp
    by_cases hne : name = other
    · subst hne
      have upkeep := forgoes about
      cases c with
      | stageExtension => cases upkeep
      | activateExtension => cases upkeep
      | stageBase => cases about
    · exact aside.mono fun w u aside h => h.aside plain (named other about) hne aside

/-- Nothing of an extension is there for a base, whichever base apart from it may run. -/
def Forgone (name base : String) (w : Node) : Prop :=
  Barren name base w.scope w ∧ (base = w.scope ∨ SeparateBases base w.scope)

/-- An extension that has nothing and is not staged or activated stays so. -/
theorem after_forgone (plain : Plain name) {e : Event} (named : e.Named)
    (forgoes : e.Forgoes name base) (h : Forgone name base w) :
    Forgone name base (e.after env w) := by
  obtain ⟨h, home⟩ := h
  have clocked : ∀ (v : Node) (t : Nat), Barren name base w.scope v →
      Barren name base w.scope (v.clock t) := fun _ _ h => ⟨h.plain, h.scope, h.absent⟩
  have stays : ∀ v : Node, Barren name base w.scope v → Forgone name base v := by
    intro v h
    rw [Forgone, h.scope]
    exact ⟨h, home⟩
  cases e with
  | boot osRelease bootEntries => exact ⟨⟨h.process.plain, rfl, h.absent⟩, forgoes⟩
  | command c arguments =>
    refine stays _ (Outcome.meets_always.mp ?_)
    exact locked_keeps env clocked (reconcileState_barren plain home)
      (operation_barren plain home named forgoes) w.process h.process
  | request c r =>
    refine stays _ (Outcome.meets_always.mp ?_)
    exact exclusive_keeps env clocked (reconcileState_barren plain home)
      (asked_barren plain named forgoes) w.process h.process

theorem run_forgone (plain : Plain name) {events : List Event}
    (forgoes : ∀ e ∈ events, (e.Named ∧ e.Confined) ∧ e.Forgoes name base)
    (h : Forgone name base w) : Forgone name base (run env events w) :=
  runAll_invariant (fun _ _ h e => after_forgone plain e.1.1 e.2 h) h
    (eachMeets_of_forall (fun e he _ => forgoes e he) w)

/-- A remove up to the record of it. -/
def recordRemoval (env : Environment) (name : String) : Act String Unit := do
  let state ← loadState env
  Act.hold state
  Act.entry name fun e => { e with required := false, phase := .removing }
  store env

/-- What is left of it then. -/
def finishRemoval (env : Environment) (name : String) : Act String Unit := do
  completeRemoval env name
  store env

theorem removeExtension_eq (env : Environment) (name : String) (rest : List String) :
    removeExtension env (name :: rest) = recordRemoval env name >>= fun _ =>
      finishRemoval env name := by
  simp only [recordRemoval, Prog.bind_assoc]
  rfl

theorem recordRemoval_base : Within SameBase (recordRemoval env name) := by
  have loaded : Within SameBase (loadState env) :=
    (quiet_tidied (loadState_quiet env)).mono fun _ _ tidied => tidied.osRelease
  refine Within.bind loaded fun s => ?_
  refine Within.bind (fun _ => rfl) fun _ => Within.bind (fun _ => rfl) fun _ => store_base env

/-- However a remove ends that got as far as its record, the removal is under way or done. -/
theorem removeExtension_withdraws (rest : List String)
    (recorded : Holds ExtensionState.Leaves ((recordRemoval env name w).state.stored.get name)) :
    Withdrawing name w.scope (removeExtension env (name :: rest) w).state := by
  have base : (recordRemoval env name w).state.scope = w.scope :=
    SameBase.scope (recordRemoval_base w)
  obtain ⟨e, stored, leaves⟩ := recorded
  have reached : Withdrawing name w.scope (recordRemoval env name w).state :=
    ⟨base, e, stored, Or.inl leaves⟩
  rw [removeExtension_eq]
  refine Prog.bind_state reached fun _ v ran => ?_
  rw [ran] at reached stored
  have held : v.memory = v.stored := by
    obtain ⟨_, x₁, -, ran⟩ := Prog.bind_eq_ok.mp ran
    obtain ⟨_, x₂, -, ran⟩ := Prog.bind_eq_ok.mp ran
    obtain ⟨_, x₃, -, ran⟩ := Prog.bind_eq_ok.mp ran
    rw [store_ok ran]
    rfl
  have inMemory : WithdrawingInMemory name w.scope v := ⟨reached, by rw [held]; exact reached.2⟩
  have finished :=
    @completeRemoval_withdraws env _ _ _ ⟨e, by rw [held]; exact stored, leaves⟩ inMemory
  have kept : WithdrawingInMemory name w.scope (finishRemoval env name v).state := by
    cases done : completeRemoval env name v with
    | ok _ x =>
      rw [done] at finished
      rw [finishRemoval, Prog.bind_of_ok done]
      exact Outcome.meets_always.mp (store_withdrawing x finished.1)
    | error why x =>
      rw [done] at finished
      rw [finishRemoval, Prog.bind_of_error done]
      exact finished
    | halt x =>
      rw [done] at finished
      rw [finishRemoval, Prog.bind_of_halt done]
      exact finished
  exact kept.1

theorem tryLock_ok {v : Node} (h : tryLock env w = .ok () v) : v = w.tick := by
  unfold tryLock at h
  cases busy : env.unreadable .busy w <;> cases lock : env.unreadable .lock w <;>
    rw [busy, lock] at h <;> cases h
  rfl

/-- Where the reconcile does not work, the operation never starts. -/
theorem stopped_withdrawing {ε : Type} (plain : Plain name) (h : Withdrawing name base w)
    (never : ∀ y, reconcileState env w ≠ .ok () y) (f : String → ε) (operation : Act ε Unit) :
    Withdrawing name base
      ((Prog.mapError f (reconcileState env) >>= fun _ => operation) w).state := by
  have ends := @reconcileState_withdraws env _ _ plain w h
  refine Prog.bind_state ?_ fun _ y ran => absurd (Prog.mapError_eq_ok.mp ran) (never y)
  rw [Prog.mapError_state]
  cases ran : reconcileState env w <;> rw [ran] at ends
  case ok a y => exact absurd ran (never y)
  case error => exact ends
  case halt => exact ends

/-- An event without a reconcile that works leaves the removal under way. -/
theorem after_withdrawing (plain : Plain name) {e : Event} (on : e.On base)
    (unreconciled : ∀ y, ¬ e.Reconciles env w y) (h : Withdrawing name base w) :
    Withdrawing name base (e.after env w) := by
  have ticked : Withdrawing name base w.process.tick := h
  cases e with
  | boot osRelease bootEntries =>
    obtain ⟨scope, d, stored, withdrawn⟩ := h
    refine ⟨on, d, stored, withdrawn.of_gone fun gone f slot => gone f ?_⟩
    have on : (w.boot env osRelease bootEntries).scope = base := on
    rwa [scope, ← on]
  | command c arguments =>
    refine Prog.bind_state ?_ fun _ v locked => ?_
    · unfold acquireLock
      cases env.unreadable .lock w.process <;> exact h
    · have never : ∀ y, reconcileState env v ≠ .ok () y :=
        fun y reconciled => unreconciled y ⟨v, locked, reconciled⟩
      obtain rfl := acquireLock_ok locked
      rw [← mapError_id (reconcileState env)]
      exact stopped_withdrawing plain ticked never id _
  | request c r =>
    refine Prog.bind_state ?_ fun _ v locked => ?_
    · unfold tryLock
      cases env.unreadable .busy w.process <;> cases env.unreadable .lock w.process <;> exact h
    · have never : ∀ y, reconcileState env v ≠ .ok () y :=
        fun y reconciled => unreconciled y ⟨v, locked, reconciled⟩
      obtain rfl := tryLock_ok locked
      exact stopped_withdrawing plain ticked never _ _

/-- The first reconcile that works finds everything gone or makes it so. -/
theorem reconciles_removed (plain : Plain name) {e : Event} {y : Node}
    (reconciled : e.Reconciles env w y) (h : Withdrawing name base w) : Removed name base y := by
  have ticked : Withdrawing name base w.process.tick := h
  have ends := @reconcileState_withdraws env _ _ plain w.process.tick ticked
  cases e with
  | boot osRelease bootEntries => cases reconciled
  | command c arguments =>
    obtain ⟨v, locked, reconciled⟩ := reconciled
    obtain rfl := acquireLock_ok locked
    rw [reconciled] at ends
    exact ends
  | request c r =>
    obtain ⟨v, locked, reconciled⟩ := reconciled
    obtain rfl := tryLock_ok locked
    rw [reconciled] at ends
    exact ends

theorem Removed.barren (h : Removed name base w) (names : PlainRecord w) :
    Barren name base base w :=
  ⟨names, h.scope, fun f slot => h.gone f (h.scope ▸ slot)⟩

/-- What an event does after its reconcile. -/
theorem reconciled_barren (plain : Plain name) {e : Event} {y : Node} (named : e.Named)
    (forgoes : e.Forgoes name base) (reconciled : e.Reconciles env w y)
    (h : Barren name base base y) : Barren name base base (e.after env w) := by
  cases e with
  | boot osRelease bootEntries => cases reconciled
  | command c arguments =>
    obtain ⟨v, taken, reconciled⟩ := reconciled
    have same : (Event.command c arguments).after env w = (c.operation env arguments y).state := by
      change (locked env (c.operation env arguments) w.process).state = _
      rw [Agent.locked, Prog.bind_of_ok taken, Prog.bind_of_ok reconciled]
    rw [same]
    exact Outcome.meets_always.mp (operation_barren plain (Or.inl rfl) named forgoes y h)
  | request c r =>
    obtain ⟨v, locked, reconciled⟩ := reconciled
    have same : (Event.request c r).after env w = (c.operation env r y).state := by
      change (exclusive env (c.operation env r) w.process).state = _
      rw [exclusive, Prog.bind_of_ok locked, Prog.bind_of_ok (Prog.mapError_eq_ok.mpr reconciled)]
    rw [same]
    exact Outcome.meets_always.mp (asked_barren plain named forgoes y h)

/-- A reconcile that works keeps what every reconcile keeps. -/
theorem Event.Reconciles.keeps {P : Node → Prop} {e : Event} {y : Node}
    (reconciled : e.Reconciles env w y) (kept : Keeps P (reconcileState env))
    (h : P w.process.tick) : P y := by
  have ends := Outcome.meets_always.mp (kept w.process.tick h)
  cases e with
  | boot osRelease bootEntries => cases reconciled
  | command c arguments =>
    obtain ⟨v, locked, reconciled⟩ := reconciled
    obtain rfl := acquireLock_ok locked
    rw [reconciled] at ends
    exact ends
  | request c r =>
    obtain ⟨v, locked, reconciled⟩ := reconciled
    obtain rfl := tryLock_ok locked
    rw [reconciled] at ends
    exact ends

theorem removeExtension_plain (plain : Plain name) (rest : List String) (names : PlainRecord w) :
    PlainRecord (removeExtension env (name :: rest) w).state := by
  have named : (Event.command .remove (name :: rest)).Named := by
    rintro other about
    cases about
    exact plain
  rcases Command.operation_cases env .remove (name :: rest) with removes | untouched | aside
  · cases removes
  · exact Outcome.meets_always.mp (untouched_plain untouched w names)
  · obtain ⟨other, about, aside⟩ := aside
    exact Outcome.meets_always.mp (aside_plain aside (named other about) w names)

/-- Once a remove has recorded what it is about to do, then whatever fails or stops, the first
reconcile that works leaves no image of the extension for the running base and an entry that
names none. As long as the extension is not staged or activated and the bases booted are that
one and others apart from it, no image for that base comes back. -/
theorem removal_completes_and_stays (plain : Plain name) (names : PlainRecord w)
    (enclosed : Enclosed w) {rest : List String} (direct : ∀ a ∈ name :: rest, NoSlash a)
    (recorded : Holds ExtensionState.Leaves ((recordRemoval env name w).state.stored.get name))
    {failing : List Event} {e : Event} {y : Node}
    (meant : ∀ d ∈ failing ++ [e], d.Named ∧ d.Confined)
    (interrupted : EachMeets (Event.after env)
      (fun d u => d.On w.scope ∧ ∀ x, ¬ d.Reconciles env u x) failing
      (removeExtension env (name :: rest) w).state)
    (reconciled : e.Reconciles env
      (run env failing (removeExtension env (name :: rest) w).state) y) :
    (Enclosed y ∧ Removed name w.scope y) ∧
      ∀ later : List Event, e.Forgoes name w.scope →
        (∀ d ∈ later, (d.Named ∧ d.Confined) ∧ d.Forgoes name w.scope) →
          let u := run env (failing ++ e :: later) (removeExtension env (name :: rest) w).state
          Enclosed u ∧ ∀ f, SlotName name w.scope f → u.extensions[f]? = none := by
  have removing : Enclosed (removeExtension env (name :: rest) w).state :=
    ((removeExtension_enclosing env env.fault direct).state enclosed).2
  have withdrawing : Withdrawing name w.scope
      (run env failing (removeExtension env (name :: rest) w).state) := by
    refine runAll_invariant (fun d u kept meets => ?_) (removeExtension_withdraws rest recorded)
      interrupted
    exact after_withdrawing plain meets.1 meets.2 kept
  have inside : Enclosed (run env failing (removeExtension env (name :: rest) w).state) :=
    (run_confined env env.fault (fun d hd => (meant d (by simp [hd])).2) removing).2
  have removed := reconciles_removed plain reconciled withdrawing
  refine ⟨⟨?_, removed⟩, fun later upkeep lasting => ⟨?_, fun f slot => ?_⟩⟩
  · refine reconciled.keeps (fun v (hv : Enclosed v) => ?_) (inside.process.clock _)
    exact Outcome.meets_always.mpr ((reconcileState_enclosing env env.fault).state hv).2
  · refine (run_confined env env.fault (fun d hd => ?_) removing).2
    rcases List.mem_append.mp hd with hd | hd
    · exact (meant d (by simp [hd])).2
    · rcases List.mem_cons.mp hd with rfl | hd
      · exact (meant d (by simp)).2
      · exact (lasting d hd).1.2
  have before : PlainRecord (run env failing (removeExtension env (name :: rest) w).state) :=
    run_plain env (fun d hd => (meant d (by simp [hd])).1) (removeExtension_plain plain rest names)
  have cleared : PlainRecord y := by
    refine reconciled.keeps (reconcileState_plain env) ?_
    rintro other d (hd | hd)
    · simp [Node.process, Node.tick, State.get] at hd
    · exact before other d (Or.inr hd)
  have reached : Barren name w.scope w.scope
      (e.after env (run env failing (removeExtension env (name :: rest) w).state)) :=
    reconciled_barren plain (meant e (by simp)).1 upkeep reconciled (removed.barren cleared)
  have settled : Forgone name w.scope
      (e.after env (run env failing (removeExtension env (name :: rest) w).state)) := by
    rw [Forgone, reached.scope]
    exact ⟨reached, Or.inl rfl⟩
  have kept : Forgone name w.scope (run env later _) := run_forgone plain lasting settled
  have whole : run env (failing ++ e :: later) (removeExtension env (name :: rest) w).state =
      run env later (e.after env (run env failing (removeExtension env (name :: rest) w).state)) :=
    runAll_append failing (e :: later) _
  rw [whole]
  exact kept.1.absent f slot

end

instance (name base : String) (e : Event) : Decidable (e.Forgoes name base) :=
  match e with
  | .boot _ _ => inferInstanceAs (Decidable (_ ∨ _))
  | .command c arguments =>
    inferInstanceAs (Decidable (c.subject arguments = some name →
      (Event.command c arguments).upkeep = true))
  | .request c r =>
    inferInstanceAs (Decidable (c.subject r = some name → (Event.request c r).upkeep = true))

/-- The machine stops before the active image of a removal is taken away, once. -/
def cutRemoval : Environment :=
  { calm twoVersions with
    fault := fun step w =>
      if step = .remove (scopedActivePath "n" "1") ∧ w.bootEntries = [] then
        some ⟨true, fun _ => false, none, "power loss"⟩
      else none }

/-- A healthy image was adopted. -/
def adoptedNode : Node :=
  run cutRemoval [.boot (some "VERSION_ID=1") [], .command .adopt ["n", "a"]]
    (.with "1" [("n_1.raw", [1])])

theorem adoptedNode_enclosed : Enclosed adoptedNode := by
  have provisioned : Enclosed (.with "1" [("n_1.raw", [1])]) :=
    enclosed_with (by decide) (by decide)
  exact (run_confined cutRemoval cutRemoval.fault (by decide) provisioned).2

/-- Another base runs for a while, and another extension is staged and activated. -/
def awayAndBack : List Event :=
  [.boot (some "VERSION_ID=2") [], .command .reset ["n"], .boot (some "VERSION_ID=1") [],
    stageFile "m" "/2", .command .activate ["m", "b"], .command .rollback ["n"]]

theorem removal_completes_and_stays_interrupted :
    let removing := (removeExtension cutRemoval ["n"] adoptedNode).state
    let failing : List Event := [.boot (some "VERSION_ID=1") ["x"]]
    let e : Event := .command .reset ["n"]
    (adoptedNode.activeImage "n").isSome = true ∧ (removing.activeImage "n").isSome = true ∧
      ∃ y, e.Reconciles cutRemoval (run cutRemoval failing removing) y ∧
        (Enclosed y ∧ Removed "n" adoptedNode.scope y) ∧
          let u := run cutRemoval (failing ++ e :: awayAndBack) removing
          Enclosed u ∧ ∀ f, SlotName "n" adoptedNode.scope f → u.extensions[f]? = none := by
  intro removing failing e
  have locks : acquireLock cutRemoval (run cutRemoval failing removing).process =
      .ok () (run cutRemoval failing removing).process.tick := rfl
  have ends : (reconcileState cutRemoval (run cutRemoval failing removing).process.tick).isOk =
      true := by
    decide +kernel
  obtain ⟨_, works⟩ := Outcome.ok_of_isOk ends
  have there : (recordRemoval cutRemoval "n" adoptedNode).state.stored.get "n" =
      some (((recordRemoval cutRemoval "n" adoptedNode).state.stored.get "n").getD {}) := by
    decide +kernel
  have recorded : Holds ExtensionState.Leaves
      ((recordRemoval cutRemoval "n" adoptedNode).state.stored.get "n") :=
    ⟨_, there, by decide +kernel, by decide +kernel⟩
  have blank : Node.Blank (.with "1" [("n_1.raw", [1])]) := ⟨rfl, rfl⟩
  have names : PlainRecord adoptedNode := run_plain cutRemoval (by decide) blank.plain
  have reconciled : e.Reconciles cutRemoval (run cutRemoval failing removing) _ := ⟨_, locks, works⟩
  have scope : adoptedNode.scope = "1" := by decide +kernel
  have interrupted : EachMeets (Event.after cutRemoval)
      (fun d u => d.On adoptedNode.scope ∧ ∀ x,
        ¬ d.Reconciles cutRemoval u x) failing removing := by
    rw [scope]
    exact ⟨⟨by decide +kernel, fun _ => id⟩, trivial⟩
  obtain ⟨removed, stays⟩ := removal_completes_and_stays (by decide) names adoptedNode_enclosed
    (by decide) recorded (by decide) interrupted reconciled
  exact ⟨by decide +kernel, by decide +kernel, _, reconciled, removed,
    stays awayAndBack (by rw [scope]; decide +kernel) (by rw [scope]; decide +kernel)⟩

/-- The second image is for a base whose name begins like a file of the first. -/
def nestedBases : Bytes → Make
  | [1] => ⟨"n", "1", "a", true⟩
  | _ => ⟨"n", "1.raw.2", "b", true⟩

/-- An extension was removed from one base and has an image for the other. -/
def removedNode : Node :=
  run (calm nestedBases)
    [.boot (some "VERSION_ID=1") [], .command .adopt ["n", "a"], .command .remove ["n"],
      .command .reset ["n"]]
    (.with "1" [("n_1.raw", [1]), ("n_1.raw.2.raw", [2])])

/-- What the other base retains comes back as the image of the first, though nothing was
staged or activated. -/
theorem removal_undone :
    let later : List Event :=
      [.boot (some "VERSION_ID=1.raw.2") [], .command .adopt ["n", "b"],
        .command .adopt ["n", "2.raw.b"], .boot (some "VERSION_ID=1") [],
        .command .healthGate []]
    removedNode.activeImage "n" = none ∧
      (removedNode.stored.get "n").map ExtensionState.phase = some .idle ∧
      (∀ e ∈ later, e.upkeep = true) ∧
      (run (calm nestedBases) later removedNode).activeImage "n" = some [2] := by
  decide +kernel

end CarbideOS.Agent
