import CarbideOS.Proofs.Confined
import CarbideOS.Proofs.Recovered
import CarbideOS.Proofs.Waiting
import CarbideOS.Proofs.Reconciled

namespace CarbideOS.Agent
open Interruptible

/-- Files can only go. -/
def Dwindles (w u : Node) : Prop :=
  ∀ f : String, u.extensions[f]? = w.extensions[f]? ∨ u.extensions[f]? = none

instance : IsPreorder Node Dwindles where
  refl _ _ := Or.inl rfl
  trans w u v h h' f := by
    rcases h' f with same | gone
    · rw [same]
      exact h f
    · exact Or.inr gone

/-- No unpublished copy is there. -/
def NoTemporary (w : Node) : Prop := ∀ f, Temporary f → w.extensions[f]? = none

theorem Dwindles.noTemporary {w u : Node} (h : Dwindles w u) : Preserves NoTemporary w u := by
  intro none f hf
  rcases h f with same | gone
  · rw [same, none f hf]
  · exact gone

/-- A program that leaves no unpublished copy behind if it returns. -/
def Cleanly {ε α : Type} (m : Act ε α) : Prop :=
  Triple NoTemporary m ⟨fun _ => NoTemporary, fun _ _ => True, fun _ => True⟩

/-- One that reports what failed leaves none if it reports nothing. -/
def ReportsCleanly {ε : Type} (m : Act ε (List String)) : Prop :=
  Triple NoTemporary m ⟨fun failures u => failures = [] → NoTemporary u, fun _ _ => True,
    fun _ => True⟩

section
variable (env : Environment) {ε α β : Type} {name : String}

theorem quiet_dwindles {m : Act ε α} (h : Quiet m) : Within Dwindles m := by
  refine (Returns.within h).mono ?_
  rintro w _ ⟨t, rfl⟩
  exact fun _ => Or.inl rfl

theorem entry_dwindles (f : ExtensionState → ExtensionState) :
    Within Dwindles (Act.entry name f : Act ε Unit) := fun _ _ => Or.inl rfl

theorem store_dwindles : Within Dwindles (store env) := by
  apply Act.durable_within
  · exact fun w f => Or.inl rfl
  · intro w reached leftover
    split <;> exact fun f => Or.inl rfl

theorem sysextRefresh_dwindles : Within Dwindles (sysextRefresh env) := by
  intro w
  unfold sysextRefresh
  dsimp only
  split <;> exact fun f => Or.inl rfl

theorem pruneRollbacks_dwindles (keep : Option String) :
    Within Dwindles (pruneRollbacks env name keep) :=
  Within.read fun _ w f => pruneMatchingIn_shrinks env _ _ _ f w

theorem pruneCandidates_dwindles (keep : Option String) :
    Within Dwindles (pruneCandidates env name keep) :=
  Within.read fun _ w f => pruneMatchingIn_shrinks env _ _ _ f w

theorem durableRemove_dwindles (p : Path) : Within Dwindles (durableRemove env p) := by
  have unlinked : ∀ w : Node, Dwindles w (w.unlink p) := by
    intro w f
    obtain ⟨place, file⟩ := p
    cases place with
    | staging => exact Or.inl rfl
    | extensions =>
      have erased : (w.unlink ⟨.extensions, file⟩).extensions[f]? =
          if file = f then none else w.extensions[f]? := Dir.get_erase _ _ _
      rw [erased]
      split
      · exact Or.inr rfl
      · exact Or.inl rfl
  refine Within.read fun w => ?_
  split
  · apply Act.durable_within
    · exact unlinked
    · intro w reached leftover
      split
      · exact unlinked w
      · exact fun _ => Or.inl rfl
  · exact Within.pure ()

theorem cleanly_of_dwindles {m : Act ε α} (h : Within Dwindles m) : Cleanly m := by
  have keeps := within_preserves_iff.mp (h.mono fun _ _ => Dwindles.noTemporary)
  exact keeps.mono (fun _ => id) (fun _ _ => id) (fun _ _ _ => trivial) fun _ _ => trivial

theorem cleanly_of_failing {P : Node → Prop} {m : Act ε α} (h : ∀ w a u, m w ≠ .ok a u) :
    Triple P m ⟨fun _ => NoTemporary, fun _ _ => True, fun _ => True⟩ := by
  intro w _
  cases hm : m w with
  | ok a u => exact absurd hm (h w a u)
  | error why u => trivial
  | halt u => trivial

theorem Cleanly.bind {m : Act ε α} {f : α → Act ε β} (hm : Cleanly m) (hf : ∀ a, Cleanly (f a)) :
    Cleanly (m >>= f) :=
  Triple.bind hm hf

theorem Cleanly.mapError {ε' : Type} {m : Act ε α} (h : Cleanly m) (f : ε → ε') :
    Cleanly (Prog.mapError f m) :=
  Triple.mapError h

theorem Cleanly.read {f : Node → Act ε β} (h : ∀ w, Cleanly (f w)) : Cleanly (Prog.read >>= f) :=
  fun w hw => h w w hw

/-- A reported failure is no reason to look for what it left. -/
theorem Cleanly.reported {m : Act String Unit} (h : Cleanly m) (message : String → String) :
    ReportsCleanly (report message m : Act ε _) := by
  refine Triple.bind (R := fun result u => ∀ a, result = .ok a → NoTemporary u)
    (Triple.attempt ?_) fun result => ?_
  · exact h.mono (fun _ => id) (fun _ _ none _ _ => none) (fun _ _ _ => nofun) fun _ => id
  · cases result with
    | ok _ => exact Triple.pure fun _ none _ => none _ rfl
    | error why => exact Triple.pure fun _ _ => nofun

theorem ReportsCleanly.of_dwindles {m : Act ε (List String)} (h : Within Dwindles m) :
    ReportsCleanly m :=
  (cleanly_of_dwindles h).mono (fun _ => id) (fun _ _ none _ => none) (fun _ _ => id) fun _ => id

/-- Reports one after the other. -/
theorem ReportsCleanly.append {first second : Act ε (List String)} (h : ReportsCleanly first)
    (h' : ReportsCleanly second) :
    ReportsCleanly (do
      let failures ← first
      let others ← second
      pure (failures ++ others)) := by
  intro w hw
  have meets := h w hw
  rw [Prog.bind_apply]
  cases hm : first w <;> rw [hm] at meets
  case ok failures v =>
    cases failures with
    | nil =>
      have meets' := h' v (meets rfl)
      dsimp only
      rw [Prog.bind_apply]
      cases hm' : second v <;> rw [hm'] at meets'
      · exact meets'
      · trivial
      · trivial
    | cons failure failures =>
      dsimp only
      rw [Prog.bind_apply]
      cases second v
      · exact nofun
      · trivial
      · trivial
  case error => trivial
  case halt => trivial

/-- Installing an image that worked has published it. -/
theorem installActive_cleanly (source : Path) : Cleanly (installActive env source name) := by
  refine Cleanly.read fun w => Cleanly.bind (cleanly_of_dwindles ?_) fun _ => ?_
  · refine Within.read fun v => ?_
    dsimp only
    split
    · exact durableRemove_dwindles env _
    · exact Within.pure ()
  · intro v hv
    cases copied : durableCopy env source (scopedActivePath name w.scope) v with
    | ok _ u =>
      obtain ⟨bytes, -, rfl⟩ := durableCopy_ok copied
      intro f hf
      have other : (scopedActivePath name w.scope).name ≠ f := by
        rintro rfl
        exact not_temporary (endsWith_raw_scoped name w.scope) (by decide) hf
      have read : (v.publish (scopedActivePath name w.scope) bytes).tick.extensions[f]? =
          if (scopedActivePath name w.scope).name = f then some bytes
          else if temporaryName (scopedActivePath name w.scope).name = f then none
          else v.extensions[f]? := by
        refine (Dir.get_insert _ _ _ _).trans ?_
        rw [Dir.get_erase]
        rfl
      rw [read, if_neg other]
      split
      · rfl
      · exact hv f hf
    | error why u => trivial
    | halt u => trivial

theorem restoreKnownGood_cleanly (reason version : String) (image : Path) :
    Cleanly (restoreKnownGood env name reason version image) := by
  have quiet : ∀ {ε α : Type} {m : Act ε α}, Quiet m → Cleanly m := fun h =>
    cleanly_of_dwindles (quiet_dwindles h)
  refine Cleanly.bind (quiet (stopMerged_quiet env name)) fun _ => ?_
  refine Cleanly.bind ((installActive_cleanly env image).mapError _) fun _ => ?_
  refine Cleanly.bind ((cleanly_of_dwindles (sysextRefresh_dwindles env)).mapError _) fun _ => ?_
  refine Cleanly.bind ((quiet (daemonReload_quiet env)).mapError _) fun _ => ?_
  refine Cleanly.bind ((quiet (loadNamed_quiet env name)).mapError _) fun r => ?_
  exact (quiet (healthyNow_quiet env r)).mapError _

theorem concludeRecovery_dwindles (reason version : String) :
    Within Dwindles (concludeRecovery env name reason version) := by
  refine Within.bind (entry_dwindles _) fun _ => ?_
  refine Within.bind (Within.mapError (store_dwindles env)) fun _ => ?_
  refine Within.bind (Within.attempt (pruneCandidates_dwindles env _)) fun _ => ?_
  exact Within.bind (Within.attempt (pruneRollbacks_dwindles env _)) fun _ => Within.pure ()

theorem recover_cleanly (reason : String) : Cleanly (recover env name reason) := by
  have refuses : ∀ message, Cleanly (terminal env name message) := fun message =>
    cleanly_of_failing fun _ _ _ => terminal_ne_ok
  refine Cleanly.read fun w => ?_
  cases (w.memory.get name).bind ExtensionState.knownGoodVersion with
  | none => exact refuses _
  | some version =>
    dsimp only
    split
    · refine Cleanly.bind (cleanly_of_dwindles (entry_dwindles _)) fun _ => ?_
      refine Cleanly.bind ((cleanly_of_dwindles (store_dwindles env)).mapError _) fun _ => ?_
      have restored :=
        @restoreKnownGood_cleanly env name reason version (w.rollbackPath name version)
      refine Triple.bind (R := fun result u => ∀ a, result = .ok a → NoTemporary u)
        (Triple.attempt ?_) fun result => ?_
      · exact restored.mono (fun _ => id) (fun _ _ none _ _ => none)
          (fun _ _ _ => nofun) fun _ => id
      · cases result with
        | ok a =>
          have concluded := cleanly_of_dwindles (@concludeRecovery_dwindles env name reason version)
          exact concluded.weaken fun _ none => none a rfl
        | error message => exact cleanly_of_failing fun _ _ _ => terminal_ne_ok
    · exact refuses _

theorem completeRemoval_dwindles : Within Dwindles (completeRemoval env name) := by
  refine Within.bind (quiet_dwindles (stopMerged_quiet env name)) fun _ => ?_
  refine Within.bind ?_ fun _ => ?_
  · exact Within.read fun w => Within.bind (durableRemove_dwindles env _) fun _ =>
      durableRemove_dwindles env _
  refine Within.bind (sysextRefresh_dwindles env) fun _ => ?_
  refine Within.bind (quiet_dwindles (daemonReload_quiet env)) fun _ => ?_
  refine Within.bind (pruneCandidates_dwindles env _) fun _ => ?_
  exact Within.bind (pruneRollbacks_dwindles env _) fun _ => entry_dwindles _

theorem reportCandidates_dwindles : Within Dwindles (reportCandidates env name : Act ε _) :=
  report_within (pruneCandidates_dwindles env none) _

theorem reconcilePhase_cleanly (s : Snapshot) :
    ReportsCleanly (reconcilePhase env s : Act ε _) := by
  have recovered : ∀ reason message,
      ReportsCleanly (report message (recover env s.name reason) : Act ε _) :=
    fun reason message => (recover_cleanly env reason).reported message
  have candidates : ReportsCleanly (reportCandidates env s.name : Act ε _) :=
    .of_dwindles (reportCandidates_dwindles env)
  have active : ReportsCleanly (reconcileActive env s.name : Act ε _) := by
    refine fun w hw => ?_
    rw [reconcileActive, read_apply]
    split
    · exact candidates w hw
    · split
      · exact (recovered _ _).append candidates w hw
      · exact ReportsCleanly.of_dwindles
          (Within.bind (entry_dwindles _) fun _ => reportCandidates_dwindles env) w hw
  unfold reconcilePhase
  dsimp only
  split
  · refine .of_dwindles (Within.read fun w => ?_)
    split
    · exact Within.pure _
    · exact Within.bind (entry_dwindles _) fun _ => Within.pure _
  · exact recovered _ _
  · exact recovered _ _
  · exact recovered _ _
  · exact recovered _ _
  · exact (cleanly_of_dwindles (completeRemoval_dwindles env)).reported _
  · exact active
  · exact active
  · refine .of_dwindles (Within.read fun w => ?_)
    split
    · exact Within.bind (entry_dwindles _) fun _ => reportCandidates_dwindles env
    · exact reportCandidates_dwindles env
  · exact candidates

theorem reconcileEntries_cleanly (entries : List Snapshot) :
    ReportsCleanly (reconcileEntries env entries : Act ε _) := by
  induction entries with
  | nil => exact fun w hw _ => hw
  | cons s rest ih =>
    have turn : ReportsCleanly (reconcileEntry env s : Act ε _) :=
      (reconcilePhase_cleanly env s).append
        (.of_dwindles (report_within (pruneRollbacks_dwindles env _) _))
    exact turn.append ih

theorem removeOrphans_dwindles (kept orphans : List Path) :
    Within Dwindles (removeOrphans env kept orphans : Act ε _) := by
  induction orphans with
  | nil => exact Within.pure _
  | cons p rest ih =>
    unfold removeOrphans
    split
    · exact ih
    · refine Within.bind (report_within (durableRemove_dwindles env p) _) fun _ => ?_
      exact Within.bind ih fun _ => Within.pure _

theorem reconcileOrphans_dwindles (kept : List Path) :
    Within Dwindles (reconcileOrphans env kept : Act ε _) := by
  have listed : Quiet (Prog.attempt (candidateFiles env) : Act ε _) :=
    Returns.attempt (candidateFiles_quiet env)
  refine Within.bind (quiet_dwindles listed) fun found => ?_
  cases found with
  | ok candidates => exact removeOrphans_dwindles env kept candidates
  | error e => exact Within.pure _

/-- A reconcile of the record that worked leaves no unpublished copy behind. -/
theorem reconcileRecord_cleanly : Cleanly (reconcileRecord env) := by
  refine Cleanly.read fun w => ?_
  have entries := reconcileEntries_cleanly (ε := String) env w.memory.snapshots
  refine Triple.bind entries fun failures => ?_
  have still : ∀ {α : Type} {m : Act String α}, Within Dwindles m →
      Triple (fun u => failures = [] → NoTemporary u) m
        ⟨fun _ u => failures = [] → NoTemporary u, fun _ _ => True, fun _ => True⟩ := by
    intro α m h
    have keeps : Keeps (fun u => failures = [] → NoTemporary u) m :=
      within_preserves_iff.mp (h.mono fun _ _ down none hf => down.noTemporary (none hf))
    exact keeps.mono (fun _ => id) (fun _ _ => id) (fun _ _ _ => trivial) fun _ _ => trivial
  refine Triple.bind (still (reconcileOrphans_dwindles env _)) fun orphans => ?_
  refine Triple.bind (still (store_dwindles env)) fun _ => ?_
  refine Triple.demand (fun unreported u none => none ?_) fun _ _ _ => trivial
  exact (List.append_eq_nil_iff.mp (List.isEmpty_iff.mp unreported)).1

end

/-- Phases in which a transaction is under way. -/
def Phase.isTransient : Phase → Bool
  | .activating | .starting | .soaking | .reverting | .removing => true
  | _ => false

/-- What the turn of an extension in the reconcile leaves in its entry: nothing is under
way, and the entry is the staged one it was exactly as long as its candidate is there. -/
structure RestedEntry (name : String) (d : ExtensionState) (u : Node) : Prop where
  entry : ∃ d', u.memory.get name = some d' ∧ d'.phase.isTransient = false ∧
    (d'.phase = .staged → d' = d)
  kept : ∀ v, StagedAs v d → (u.candidateImage name v).isSome = true → u.memory.get name = some d
  present : ∀ d' v, u.memory.get name = some d' → StagedAs v d' →
    (u.candidateImage name v).isSome = true

/-- And in its files: no retained image but the known-good one. -/
structure Rested (name : String) (d : ExtensionState) (u : Node) : Prop
    extends RestedEntry name d u where
  rollbacks : ∀ f, Retained name u.scope f → (u.extensions[f]?).isSome = true →
    ∃ k, d.knownGoodVersion = some k ∧ f = (u.rollbackPath name k).name

section
variable {env : Environment} {ε : Type} {name : String} {d : ExtensionState} {w u : Node}

theorem report_nil {message : String → String} {m : Act String Unit}
    (h : (report message m : Act ε _) w = .ok [] u) : m w = .ok () u := by
  obtain ⟨result, v, attempted, h⟩ := Prog.bind_eq_ok.mp h
  rcases Prog.attempt_eq_ok.mp attempted with ⟨_, rfl, ran⟩ | ⟨_, rfl, -⟩
  · cases h
    exact ran
  · cases h

/-- Two reports are empty if what they make together is. -/
theorem append_nil {first second : Act ε (List String)}
    (h : (do
      let failures ← first
      let others ← second
      pure (failures ++ others) : Act ε (List String)) w = .ok [] u) :
    ∃ v, first w = .ok [] v ∧ second v = .ok [] u := by
  obtain ⟨failures, v, ran, h⟩ := Prog.bind_eq_ok.mp h
  obtain ⟨others, x, ran', h⟩ := Prog.bind_eq_ok.mp h
  have ends : (Outcome.ok (failures ++ others) x : Outcome Node ε _) = .ok [] u := h
  injection ends with none same
  obtain ⟨rfl, rfl⟩ := List.append_eq_nil_iff.mp none
  subst same
  exact ⟨v, ran, ran'⟩

theorem rested_of_phase {d' : ExtensionState} (recorded : u.memory.get name = some d')
    (settled : d'.phase.isTransient = false) (unstaged : d'.phase ≠ .staged)
    (gone : ∀ v, StagedAs v d → (u.candidateImage name v).isSome = true → False) :
    RestedEntry name d u where
  entry := ⟨d', recorded, settled, fun staged => absurd staged unstaged⟩
  kept v staged there := (gone v staged there).elim
  present d'' v recorded' staged := by
    cases recorded.symm.trans recorded'
    exact absurd staged.1 unstaged

theorem RestedEntry.of_same (h : RestedEntry name d w)
    (memory : u.memory.get name = w.memory.get name)
    (files : ∀ v, u.candidateImage name v = w.candidateImage name v) : RestedEntry name d u := by
  obtain ⟨entry, kept, present⟩ := h
  rw [← memory] at entry kept present
  refine ⟨entry, fun v staged there => kept v staged ?_, fun d' v recorded staged => ?_⟩
  · rwa [files] at there
  · rw [files]
    exact present d' v recorded staged

theorem reportCandidates_memory {failures : List String}
    (h : (reportCandidates env name : Act ε _) w = .ok failures u) : u.memory = w.memory :=
  ((reportCandidates_tidied env name).of_ok h).memory

/-- The turn of one entry, reporting nothing. -/
theorem reconcilePhase_rests {s : Snapshot} (phase : s.phase = d.phase)
    (candidate : s.candidate = d.candidateVersion) (recorded : w.memory.get s.name = some d)
    (h : (reconcilePhase env s : Act ε _) w = .ok [] u) : RestedEntry s.name d u := by
  obtain ⟨name, sphase, scandidate, knownGood⟩ := s
  subst phase candidate
  have recovered : ∀ {reason message v}, (report message (recover env name reason) : Act ε _) w =
      .ok [] v → ∃ d', v.memory.get name = some d' ∧ d'.phase = .recovered := by
    intro reason message v ran
    obtain ⟨version, bytes, done⟩ := recover_ok (report_nil ran)
    obtain ⟨d', there, phase, -⟩ := done.entry
    exact ⟨d', there, phase⟩
  have unstaged : d.phase ≠ .staged → ∀ v, StagedAs v d → ∀ x : Node,
      (x.candidateImage name v).isSome = true → False :=
    fun other v staged _ _ => other staged.1
  have interrupted : ∀ {reason message}, d.phase ≠ .staged →
      (report message (recover env name reason) : Act ε _) w = .ok [] u →
        RestedEntry name d u := by
    intro reason message other ran
    obtain ⟨d', there, phase⟩ := recovered ran
    refine rested_of_phase there ?_ ?_ fun v staged => unstaged other v staged u
    · rw [phase]
      rfl
    · rw [phase]
      exact nofun
  have remains : ∀ {x : Node} {d' : ExtensionState}, d.phase ≠ .staged →
      x.memory.get name = some d' → d'.phase.isTransient = false → d'.phase ≠ .staged →
        u.memory = x.memory → RestedEntry name d u := by
    intro x d' other there settled still same
    refine rested_of_phase ?_ settled still fun v staged => unstaged other v staged u
    rw [same]
    exact there
  have active : d.phase.isTransient = false → d.phase ≠ .staged →
      (reconcileActive env name : Act ε _) w = .ok [] u → RestedEntry name d u := by
    intro settled other h
    rw [reconcileActive, read_apply] at h
    split at h
    · exact remains other recorded settled other (reportCandidates_memory h)
    · split at h
      · obtain ⟨x, ran, tidied⟩ := append_nil h
        obtain ⟨d', there, phase⟩ := recovered ran
        refine remains other there ?_ ?_ (reportCandidates_memory tidied)
        · rw [phase]
          rfl
        · rw [phase]
          exact nofun
      · rw [Prog.bind_of_ok (Act.entry_apply _ _ _)] at h
        refine remains other (edit_entry _ _ _) rfl ?_ (reportCandidates_memory h)
        change Phase.idle ≠ .staged
        exact nofun
  have here : (w.memory.get name).getD {} = d := by
    have recorded : w.memory.get name = some d := recorded
    rw [recorded]
    rfl
  cases hp : d.phase with
  | staged =>
    have h : (reconcileStaged name d.candidateVersion : Act ε _) w = .ok [] u := by
      unfold reconcilePhase at h
      simpa only [hp] using h
    rw [reconcileStaged, read_apply] at h
    split at h
    · rename_i there
      cases h
      refine ⟨⟨d, recorded, ?_, fun _ => rfl⟩, fun _ _ _ => recorded,
        fun d' v recorded' staged => ?_⟩
      · rw [hp]
        rfl
      · cases recorded.symm.trans recorded'
        rw [staged.2, Option.any_some] at there
        exact there
    · rename_i missing
      cases h
      refine rested_of_phase (edit_entry _ _ _) ?_ ?_ fun v staged there => missing ?_
      · dsimp only
        split <;> rfl
      · dsimp only
        split <;> exact nofun
      · rw [staged.2, Option.any_some]
        exact there
  | activating | starting | soaking | reverting =>
    unfold reconcilePhase at h
    simp only [hp] at h
    exact interrupted (by rw [hp]; exact nofun) h
  | removing =>
    unfold reconcilePhase at h
    simp only [hp] at h
    obtain ⟨_, x₁, -, h⟩ := Prog.bind_eq_ok.mp (report_nil h)
    obtain ⟨_, x₂, -, h⟩ := Prog.bind_eq_ok.mp h
    obtain ⟨_, x₃, -, h⟩ := Prog.bind_eq_ok.mp h
    obtain ⟨_, x₄, -, h⟩ := Prog.bind_eq_ok.mp h
    obtain ⟨_, x₅, -, h⟩ := Prog.bind_eq_ok.mp h
    obtain ⟨_, x₆, -, h⟩ := Prog.bind_eq_ok.mp h
    cases h
    refine remains (by rw [hp]; exact nofun) (edit_entry _ _ _) rfl ?_ rfl
    change Phase.idle ≠ .staged
    exact nofun
  | active | recovered =>
    unfold reconcilePhase at h
    simp only [hp] at h
    exact active (by rw [hp]; rfl) (by rw [hp]; exact nofun) h
  | idle =>
    unfold reconcilePhase at h
    simp only [hp] at h
    have other : d.phase ≠ .staged := by
      rw [hp]
      exact nofun
    rw [reconcileIdle, read_apply] at h
    split at h
    · rw [Prog.bind_of_ok (Act.entry_apply _ _ _)] at h
      refine remains other (edit_entry _ _ _) ?_ ?_ (reportCandidates_memory h)
      · rw [here, forgetVersions, hp]
        rfl
      · rw [here, forgetVersions, hp]
        exact nofun
    · refine remains other recorded ?_ other (reportCandidates_memory h)
      rw [hp]
      rfl
  | unrecoverable =>
    unfold reconcilePhase at h
    simp only [hp] at h
    refine remains ?_ recorded ?_ ?_ (reportCandidates_memory h) <;> rw [hp]
    · exact nofun
    · rfl
    · exact nofun

/-- The whole turn of an entry: its retained images are pruned last. -/
theorem reconcileEntry_rests {s : Snapshot} (phase : s.phase = d.phase)
    (candidate : s.candidate = d.candidateVersion) (known : s.knownGood = d.knownGoodVersion)
    (recorded : w.memory.get s.name = some d)
    (h : (reconcileEntry env s : Act ε _) w = .ok [] u) : Rested s.name d u := by
  obtain ⟨x, ran, pruned⟩ := append_nil h
  have pruned := report_nil pruned
  have rested := reconcilePhase_rests phase candidate recorded ran
  have confined := @pruneRollbacks_confined env s.name s.knownGood x
  rw [pruned] at confined
  have confined : Confined (Retained s.name x.scope) x u := confined
  have scope := confined.toSameRecord.scope
  refine ⟨rested.of_same (by rw [confined.toSameRecord.memory]) fun v => ?_, fun f held there => ?_⟩
  · rw [Node.candidateImage, confined.toSameRecord.candidatePath]
    exact confined.files _ (not_retained_of (x.endsWith_candidate s.name v) (by decide))
      (not_temporary (x.endsWith_candidate s.name v) (by decide))
  · rw [scope] at held
    have swept : pruneMatchingIn env .extensions (slotPrefix s.name x.scope) ".rollback"
        (s.knownGood.map fun version => (x.rollbackPath s.name version).name) x = .ok () u := pruned
    obtain ⟨-, rfl⟩ := Act.durable_ok swept
    have left : (x.sweep .extensions fun f => prunable (slotPrefix s.name x.scope) ".rollback"
          (s.knownGood.map fun version =>
            (x.rollbackPath s.name version).name) f && true).tick.extensions[f]? =
        if (prunable (slotPrefix s.name x.scope) ".rollback"
          (s.knownGood.map fun version => (x.rollbackPath s.name version).name) f && true) = true
        then none else x.extensions[f]? := Dir.get_sweep _ _ _
    have there : ((x.sweep .extensions fun f => prunable (slotPrefix s.name x.scope) ".rollback"
        (s.knownGood.map fun version => (x.rollbackPath s.name version).name) f && true
          ).tick.extensions[f]?).isSome = true := there
    rw [left] at there
    split at there
    · cases there
    · rename_i unpruned
      simp only [prunable, held.1, held.2, Bool.and_true, Bool.true_and, bne_iff_ne, ne_eq,
        not_not] at unpruned
      obtain ⟨k, hk, rfl⟩ := Option.map_eq_some_iff.mp unpruned
      exact ⟨k, known ▸ hk, rfl⟩

/-- Retained images of plain extensions have one owner. -/
theorem Retained.unique {other osVersion f : String} (h : Retained name osVersion f)
    (hn : Plain name) (ho : Plain other) (hne : other ≠ name) : ¬ Retained other osVersion f := by
  rintro ⟨slot, -⟩
  exact hne (slot_unique hn ho h.1 slot)

theorem Rested.beside {other : String} (h : Rested name d w) (beside : Beside other w u)
    (hn : Plain name) (ho : Plain other) (hne : name ≠ other) : Rested name d u where
  toRestedEntry := h.toRestedEntry.of_same (beside.memory name hne) fun v =>
    beside.toElsewhere.candidateImage ho hn hne v
  rollbacks f held there := by
    rw [beside.toElsewhere.scope] at held
    rw [beside.files f (not_touches_of_rollback held.2) (held.unique hn ho hne.symm)] at there
    obtain ⟨k, known, rfl⟩ := h.rollbacks f held there
    refine ⟨k, known, ?_⟩
    rw [Node.rollbackPath, Node.rollbackPath, beside.toElsewhere.scope]

theorem Rested.orphans {kept : List Path}
    (listed : ∀ v, StagedAs v d → kept.contains (w.candidatePath name v) = true)
    (h : Rested name d w) :
    Rested name d (reconcileOrphans env kept w : Outcome Node ε _).state := by
  have tidied : Tidied w (reconcileOrphans env kept w : Outcome Node ε _).state :=
    reconcileOrphans_tidied env kept w
  have down : Dwindles w (reconcileOrphans env kept w : Outcome Node ε _).state :=
    reconcileOrphans_dwindles env kept w
  have spared : ∀ v, StagedAs v d → SameFile (w.candidatePath name v).name w
      (reconcileOrphans env kept w : Outcome Node ε _).state := fun v staged =>
    reconcileOrphans_spares (w.endsWith_candidate name v) (listed v staged) w
  generalize (reconcileOrphans env kept w : Outcome Node ε _).state = u at tidied down spared
  have image : ∀ v, u.candidateImage name v = u.extensions[(w.candidatePath name v).name]? := by
    intro v
    rw [Node.candidateImage, tidied.toSameRecord.candidatePath]
    rfl
  refine ⟨⟨?_, fun v staged there => ?_, fun d' v recorded staged => ?_⟩, fun f held there => ?_⟩
  · rw [tidied.memory]
    exact h.entry
  · rw [tidied.memory]
    refine h.kept v staged ?_
    rw [image] at there
    rcases down (w.candidatePath name v).name with same | gone
    · rw [same] at there
      exact there
    · rw [gone] at there
      cases there
  · rw [tidied.memory] at recorded
    obtain ⟨d'', recorded', -, same⟩ := h.entry
    cases recorded.symm.trans recorded'
    obtain rfl := same staged.1
    rw [image, spared v staged]
    exact h.present d' v recorded staged
  · rw [tidied.toSameRecord.scope] at held
    rw [tidied.files f (endsWith_false held.2 (by decide))
      (endsWith_false held.2 (by decide))] at there
    obtain ⟨k, known, rfl⟩ := h.rollbacks f held there
    refine ⟨k, known, ?_⟩
    rw [Node.rollbackPath, Node.rollbackPath, tidied.toSameRecord.scope]

theorem removeOrphans_nil {kept orphans : List Path}
    (h : (removeOrphans env kept orphans : Act ε _) w = .ok [] u) {f : String}
    (listed : ⟨.extensions, f⟩ ∈ orphans) (unkept : kept.contains ⟨.extensions, f⟩ = false) :
    u.extensions[f]? = none := by
  induction orphans generalizing w with
  | nil => cases listed
  | cons p rest ih =>
    unfold removeOrphans at h
    split at h
    · rename_i contained
      rcases List.mem_cons.mp listed with rfl | later
      · rw [unkept] at contained
        cases contained
      · exact ih h later
    · obtain ⟨x, removed, others⟩ := append_nil h
      rcases List.mem_cons.mp listed with rfl | later
      · have gone := durableRemove_reads (q := ⟨.extensions, f⟩) (report_nil removed)
        rw [if_pos rfl] at gone
        have down : Dwindles x u := by
          have removal : Within Dwindles (removeOrphans env kept rest : Act ε _) :=
            removeOrphans_dwindles env kept rest
          exact removal.of_ok others
        rcases down f with same | gone'
        · exact same.trans gone
        · exact gone'
      · exact ih others later

/-- A file that counts as a candidate of the running base. -/
def RunningCandidate (w : Node) (f : String) : Prop :=
  Text.contains f ("_" ++ w.scope ++ ".raw.") = true ∧ Text.endsWith f ".candidate" = true

/-- Without a failure, no candidate is left but the listed ones. -/
theorem reconcileOrphans_nil {kept : List Path}
    (h : (reconcileOrphans env kept : Act ε _) w = .ok [] u) {f : String}
    (candidate : RunningCandidate w f) (there : (u.extensions[f]?).isSome = true) :
    kept.contains ⟨.extensions, f⟩ = true := by
  cases unkept : kept.contains ⟨.extensions, f⟩ with
  | true => rfl
  | false =>
    obtain ⟨found, x, listed, h⟩ := Prog.bind_eq_ok.mp h
    rcases Prog.attempt_eq_ok.mp listed with ⟨files, rfl, found⟩ | ⟨e, rfl, -⟩
    · have h : (removeOrphans env kept files : Act ε _) x = .ok [] u := h
      have before : (w.extensions[f]?).isSome = true := by
        have down : Dwindles x u := (removeOrphans_dwindles (ε := ε) env kept files).of_ok h
        have same : Dwindles w x := (quiet_dwindles (candidateFiles_quiet env)).of_ok found
        rcases down f with he | he <;> rw [he] at there
        · rcases same f with he | he <;> rw [he] at there
          · exact there
          · cases there
        · cases there
      have mem : (⟨.extensions, f⟩ : Path) ∈ files := by
        unfold candidateFiles at found
        cases hu : env.unreadable .candidates w with
        | some e =>
          rw [hu] at found
          cases found
        | none =>
          rw [hu] at found
          cases found
          refine List.mem_map.mpr ⟨f, List.mem_filter.mpr ⟨?_, ?_⟩, rfl⟩
          · rw [Std.ExtTreeMap.mem_keys, Std.ExtTreeMap.mem_iff_isSome_getElem?]
            exact before
          · rw [candidate.1, candidate.2]
            rfl
      rw [removeOrphans_nil h mem unkept] at there
      cases there
    · cases h

/-- What the turns have made of a name that the record held, or did not hold. -/
def Turned (name : String) (w u : Node) : Prop :=
  match w.memory.get name with
  | some d => Rested name d u
  | none => u.memory.get name = none

theorem Turned.beside {other : String} {v : Node} (h : Turned name w u)
    (beside : Beside other u v) (plain : PlainRecord w) (ho : Plain other)
    (hne : name ≠ other) : Turned name w v := by
  unfold Turned at h ⊢
  cases recorded : w.memory.get name with
  | none =>
    rw [recorded] at h
    exact (beside.memory name hne).trans h
  | some d =>
    rw [recorded] at h
    have rested : Rested name d u := h
    exact rested.beside beside (plain name d (Or.inl recorded)) ho hne

theorem Turned.orphans {v : Node} (h : Turned name w v) (scope : v.scope = w.scope) :
    Turned name w (reconcileOrphans env (w.memory.snapshots.filterMap (·.keptCandidate w)) v :
      Outcome Node ε _).state := by
  unfold Turned at h ⊢
  cases recorded : w.memory.get name with
  | none =>
    rw [recorded] at h
    have tidied : Tidied v (reconcileOrphans env
        (w.memory.snapshots.filterMap (·.keptCandidate w)) v : Outcome Node ε _).state :=
      reconcileOrphans_tidied env _ v
    exact (congrArg (·.get name) tidied.memory).trans h
  | some d =>
    rw [recorded] at h
    have rested : Rested name d v := h
    refine rested.orphans fun version staged => ?_
    have mem : (⟨name, d.phase, d.candidateVersion, d.knownGoodVersion⟩ : Snapshot) ∈
        w.memory.snapshots := mem_snapshots.mpr ⟨d, recorded, rfl, rfl, rfl⟩
    refine List.elem_eq_true_of_mem (List.mem_filterMap.mpr ⟨_, mem, ?_⟩)
    simp only [Snapshot.keptCandidate, staged.1, staged.2, if_true, Option.map_some,
      Node.candidatePath, scope]

theorem reconcileRecord_turned (plain : PlainRecord w) (h : reconcileRecord env w = .ok () u)
    (name : String) : Turned name w u ∧ u.stored = u.memory ∧ u.scope = w.scope := by
  have through : (reconcileRecord env w).Meets
      ⟨fun _ u => Turned name w u ∧ u.stored = u.memory ∧ u.scope = w.scope, fun _ _ => True,
        fun _ => True⟩ := by
    apply @reconcileRecord_through env name _
      (fun u => u.memory.get name = w.memory.get name ∧ u.scope = w.scope) _
      (fun l u => u.scope = w.scope ∧ (l = [] → Turned name w u)) _ plain ⟨rfl, rfl⟩
    · rintro s rfl hs v ⟨recorded, scope⟩
      obtain ⟨d, there, phase, candidate, known⟩ := mem_snapshots.mp hs
      have sober : Sober s.name v (reconcileEntry env s v : Outcome Node String _).state :=
        reconcileEntry_sober env s v
      cases turn : (reconcileEntry env s v : Outcome Node String _) with
      | ok failures x =>
        rw [turn] at sober
        refine ⟨sober.toBeside.toElsewhere.scope.trans scope, ?_⟩
        rintro rfl
        unfold Turned
        rw [there]
        exact reconcileEntry_rests phase candidate known (recorded.trans there) turn
      | error e x => trivial
      | halt x => trivial
    · rintro absent v ⟨recorded, scope⟩
      refine ⟨scope, fun _ => ?_⟩
      unfold Turned
      rw [absent]
      exact recorded.trans absent
    · rintro other v x ho hne beside ⟨recorded, scope⟩
      exact ⟨(beside.memory name hne).trans recorded, beside.toElsewhere.scope.trans scope⟩
    · rintro l other v x ho hne beside ⟨scope, turned⟩
      exact ⟨beside.toElsewhere.scope.trans scope, fun none =>
        (turned none).beside beside plain ho hne⟩
    · intro l
      apply within_preserves_iff.mp
      rintro v ⟨scope, turned⟩
      have tidied := reconcileOrphans_tidied (ε := String) env
        (w.memory.snapshots.filterMap (·.keptCandidate w)) v
      exact ⟨tidied.toSameRecord.scope.trans scope, fun none => (turned none).orphans scope⟩
    · exact fun _ _ => trivial
    · exact fun _ _ _ => trivial
    · exact fun v _ => by cases (store env v) <;> trivial
    · rintro v ⟨scope, turned⟩
      refine ⟨?_, rfl, scope⟩
      have turned := turned rfl
      unfold Turned at turned ⊢
      cases recorded : w.memory.get name with
      | none =>
        rw [recorded] at turned
        exact turned
      | some d =>
        rw [recorded] at turned
        have rested : Rested name d v := turned
        exact ⟨rested.toRestedEntry.of_same rfl fun _ => rfl, rested.rollbacks⟩
  rw [h] at through
  exact through

/-- The candidates left over are those that staged entries of the record name. -/
theorem reconcileRecord_listed (h : reconcileRecord env w = .ok () u) {f : String}
    (candidate : RunningCandidate u f) (there : (u.extensions[f]?).isSome = true) :
    ∃ name d v, w.memory.get name = some d ∧ StagedAs v d ∧ f = (w.candidatePath name v).name := by
  have scope : u.scope = w.scope :=
    SameBase.scope ((reconcileRecord_windsDown env).of_ok h).osRelease
  rw [reconcileRecord, read_apply] at h
  obtain ⟨failures, v₁, entries, h⟩ := Prog.bind_eq_ok.mp h
  obtain ⟨orphans, v₂, listed, h⟩ := Prog.bind_eq_ok.mp h
  obtain ⟨_, v₃, stored, h⟩ := Prog.bind_eq_ok.mp h
  obtain rfl := store_ok stored
  have unreported : (failures ++ orphans).isEmpty = true ∧ u = v₂.saved := by
    cases hc : (failures ++ orphans).isEmpty with
    | true =>
      rw [hc] at h
      cases h
      exact ⟨rfl, rfl⟩
    | false =>
      rw [hc] at h
      cases h
  obtain ⟨none, rfl⟩ := unreported
  obtain ⟨-, rfl⟩ := List.append_eq_nil_iff.mp (List.isEmpty_iff.mp none)
  have before : v₁.scope = w.scope := by
    have winds : WindsDown w v₁ :=
      (reconcileEntries_within env fun s _ => reconcileEntry_windsDown env s).of_ok entries
    exact SameBase.scope winds.osRelease
  have running : RunningCandidate v₁ f := by
    refine ⟨?_, candidate.2⟩
    rw [before, ← scope]
    exact candidate.1
  have mem := reconcileOrphans_nil listed running there
  obtain ⟨s, mem, named⟩ := List.mem_filterMap.mp (List.contains_iff_mem.mp mem)
  obtain ⟨d, recorded, phase, version, -⟩ := mem_snapshots.mp mem
  unfold Snapshot.keptCandidate at named
  split at named
  · rename_i staged
    obtain ⟨v, hv, path⟩ := Option.map_eq_some_iff.mp named
    exact ⟨s.name, d, v, recorded, ⟨phase ▸ staged, version ▸ hv⟩,
      (congrArg Path.name path).symm⟩
  · cases named

theorem runningCandidate_candidatePath (w : Node) (name v : String) :
    RunningCandidate w (w.candidatePath name v).name := by
  refine ⟨?_, w.endsWith_candidate name v⟩
  apply Text.contains_iff.mpr
  refine ⟨name, v ++ ".candidate", ?_⟩
  simp only [Node.candidatePath, slotPrefix, String.append_assoc]

/-- Both steps of the clean-up worked. -/
theorem pruneTransactionFiles_cleans (h : pruneTransactionFiles env w = .ok () u) :
    SameRecord w u ∧ NoTemporary u ∧ ∀ f : String, u.staging[f]? = none := by
  have record : SameRecord w u := ((pruneTransactionFiles_tidied env).of_ok h).toSameRecord
  obtain ⟨_, v, temporaries, h⟩ := Prog.bind_eq_ok.mp h
  have temporaries : pruneMatchingIn env .extensions "." ".new" none w = .ok () v := temporaries
  have staged : pruneMatchingIn env .staging "" "" none v = .ok () u := h
  obtain ⟨-, rfl⟩ := Act.durable_ok temporaries
  obtain ⟨-, rfl⟩ := Act.durable_ok staged
  refine ⟨record, fun f hf => ?_, fun f => ?_⟩
  · refine (Dir.get_sweep _ _ f).trans (if_pos ?_)
    unfold prunable
    rw [hf.1, hf.2]
    rfl
  · refine (Dir.get_sweep _ _ f).trans (if_pos ?_)
    unfold prunable
    rw [Text.startsWith_iff.mpr (by simp), Text.endsWith_iff.mpr (by simp)]
    rfl

/-- A reconcile that worked leaves nothing under way, no private copy, the candidates of the
staged entries and no others, and for each extension of the record at most the image of the
version that was known good, all under names that entries of the directory can have. -/
theorem reconcile_leaves_clean_slate (env : Environment) {w u : Node}
    (plain : ∀ name e, w.stored.get name = some e → Plain name) (enclosed : Enclosed w)
    (h : reconcileState env w = .ok () u) :
    Enclosed u ∧ (∀ name e, u.stored.get name = some e → e.phase.isTransient = false) ∧
      ((∀ f, Temporary f → u.extensions[f]? = none) ∧ ∀ f : String, u.staging[f]? = none) ∧
      (∀ f, (RunningCandidate u f ∧ (u.extensions[f]?).isSome = true) ↔
        ∃ name e v, u.stored.get name = some e ∧ StagedAs v e ∧
          f = (u.candidatePath name v).name) ∧
      ∀ name e, w.stored.get name = some e → ∀ f, Retained name u.scope f →
        (u.extensions[f]?).isSome = true →
          ∃ k, e.knownGoodVersion = some k ∧ f = (u.rollbackPath name k).name := by
  have inside := ((reconcileState_enclosing env env.fault).state enclosed).2
  rw [h] at inside
  refine ⟨inside, ?_⟩
  obtain ⟨_, v, cleaned, h⟩ := Prog.bind_eq_ok.mp h
  obtain ⟨record, temporaries, staging⟩ :=
    pruneTransactionFiles_cleans (Prog.mapError_eq_ok.mp cleaned)
  obtain ⟨_, x, loaded, h⟩ := Prog.bind_eq_ok.mp h
  rw [loadForgetting_apply] at loaded
  have recalled : x = v.recall := by
    cases hu : env.unreadable .state v with
    | some e =>
      rw [hu] at loaded
      cases loaded
    | none =>
      rw [hu] at loaded
      cases loaded
      rfl
  subst recalled
  have known : ∀ {name d}, v.recall.memory.get name = some d →
      ∃ e, w.stored.get name = some e ∧ d.knownGoodVersion = e.knownGoodVersion := by
    intro name d recorded
    obtain ⟨e, there, same⟩ := remembered_entry recorded
    rw [record.stored] at there
    refine ⟨e, there, ?_⟩
    rcases same with rfl | ⟨-, rfl⟩ <;> rfl
  have named : PlainRecord v.recall := by
    rintro name e (recorded | recorded)
    · obtain ⟨d, there, -⟩ := known recorded
      exact plain name d there
    · have recorded : v.stored.get name = some e := recorded
      rw [record.stored] at recorded
      exact plain name e recorded
  have turned := reconcileRecord_turned named h
  have stored : u.stored = u.memory := (turned "").2.1
  have scope : u.scope = v.recall.scope := (turned "").2.2
  have rested : ∀ {name d}, v.recall.memory.get name = some d → Rested name d u := by
    intro name d recorded
    have turn := (turned name).1
    unfold Turned at turn
    rw [recorded] at turn
    exact turn
  have entered : ∀ {name e}, u.memory.get name = some e →
      ∃ d, v.recall.memory.get name = some d := by
    intro name e there
    cases recorded : v.recall.memory.get name with
    | some d => exact ⟨d, rfl⟩
    | none =>
      have turn := (turned name).1
      unfold Turned at turn
      rw [recorded] at turn
      rw [turn] at there
      cases there
  rw [stored]
  refine ⟨fun name e there => ?_, ⟨?_, fun f => ?_⟩, fun f => ⟨?_, ?_⟩, fun name e there f => ?_⟩
  · obtain ⟨d, recorded⟩ := entered there
    obtain ⟨d', there', settled, -⟩ := (rested recorded).entry
    cases there.symm.trans there'
    exact settled
  · have clean := reconcileRecord_cleanly env v.recall temporaries
    rw [h] at clean
    exact clean
  · rcases ((reconcileRecord_windsDown env).of_ok h).files ⟨.staging,
      f⟩ (Or.inl rfl) with same | gone
    · exact same.trans (staging f)
    · exact gone
  · rintro ⟨candidate, there⟩
    obtain ⟨name, d, version, recorded, staged, rfl⟩ := reconcileRecord_listed h candidate there
    have path : u.candidatePath name version = v.recall.candidatePath name version := by
      rw [Node.candidatePath, Node.candidatePath, scope]
    refine ⟨name, d, version, (rested recorded).kept version staged ?_, staged, ?_⟩
    · rw [Node.candidateImage, path]
      exact there
    · rw [path]
  · rintro ⟨name, e, version, there, staged, rfl⟩
    obtain ⟨d, recorded⟩ := entered there
    exact ⟨runningCandidate_candidatePath u name version,
      (rested recorded).present e version there staged⟩
  · intro held present
    cases recorded : v.recall.memory.get name with
    | none =>
      have missing := get_remembered v name
      rw [show v.remembered = v.recall.memory from rfl, recorded, record.stored, there] at missing
      cases missing
    | some d =>
      obtain ⟨e', there', same⟩ := known recorded
      cases there.symm.trans there'
      obtain ⟨k, version, path⟩ := (rested recorded).rollbacks f held present
      exact ⟨k, same ▸ version, path⟩

/-- A staged candidate, a stray one and a private copy of a cut-off staging. -/
def litteredNode : Node :=
  { waitingNode with
    extensions :=
      (waitingNode.extensions.insert "n_1.raw.z.candidate" [7]).insert ".n_1.raw.new" [1]
    staging := (∅ : Dir).insert "n.raw" [2] }

theorem Enclosed.files {w : Node} (h : Enclosed w) {extensions staging : Dir}
    (direct : ∀ f ∈ extensions, Text.endsWith f ".candidate" = true → Direct f) :
    Enclosed { w with extensions := extensions, staging := staging } :=
  ⟨h.scope, direct, h.memory, h.stored⟩

theorem litteredNode_enclosed : Enclosed litteredNode := by
  have provisioned : Enclosed (.with "1" [("n_1.raw", [1])]) :=
    enclosed_with (by decide) (by decide)
  have confined : ∀ e ∈ [.boot (some "VERSION_ID=1") [], .command .adopt ["n", "a"],
      stageFile "n" "/2"], Event.Confined e := by decide
  have waiting : Enclosed waitingNode :=
    (run_confined (calm twoVersions) (calm twoVersions).fault confined provisioned).2
  refine waiting.files fun f there ending => ?_
  rcases Std.ExtTreeMap.mem_insert.mp there with same | there
  · obtain rfl := compare_eq_iff_eq.mp same
    decide
  · rcases Std.ExtTreeMap.mem_insert.mp there with same | there
    · obtain rfl := compare_eq_iff_eq.mp same
      decide
    · exact waiting.candidates f there ending

theorem reconcile_leaves_clean_slate_littered :
    ∃ u, reconcileState (calm twoVersions) litteredNode = .ok () u ∧
      Enclosed u ∧ (∀ name e, u.stored.get name = some e → e.phase.isTransient = false) ∧
      ((∀ f, Temporary f → u.extensions[f]? = none) ∧ ∀ f : String, u.staging[f]? = none) ∧
      (∀ f, (RunningCandidate u f ∧ (u.extensions[f]?).isSome = true) ↔
        ∃ name e v, u.stored.get name = some e ∧ StagedAs v e ∧
          f = (u.candidatePath name v).name) ∧
      ∀ name e, litteredNode.stored.get name = some e → ∀ f, Retained name u.scope f →
        (u.extensions[f]?).isSome = true →
          ∃ k, e.knownGoodVersion = some k ∧ f = (u.rollbackPath name k).name := by
  have ends : (reconcileState (calm twoVersions) litteredNode).isOk = true := by decide +kernel
  cases h : reconcileState (calm twoVersions) litteredNode with
  | ok _ u =>
    have own : ∀ {name e}, litteredNode.stored.get name = some e → name = "n" :=
      fun there => entry_of_keys (by decide +kernel) (by decide +kernel) (Or.inr there)
    refine ⟨u, rfl, reconcile_leaves_clean_slate (calm twoVersions) (fun name e there => ?_)
      litteredNode_enclosed h⟩
    rw [own there]
    decide
  | error e u =>
    rw [h] at ends
    cases ends
  | halt u =>
    rw [h] at ends
    cases ends

end
end CarbideOS.Agent
