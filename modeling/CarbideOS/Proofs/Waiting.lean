import CarbideOS.Proofs.Budget
import CarbideOS.Proofs.Calm
import CarbideOS.Proofs.Guard

namespace CarbideOS.Agent
open Interruptible

/-- The entry of an extension whose candidate is of a version. -/
def StagedAs (v : String) (d : ExtensionState) : Prop :=
  d.phase = .staged ∧ d.candidateVersion = some v

/-- The name of the file of a candidate. -/
def CandidateName (name v osVersion f : String) : Prop :=
  f = slotPrefix name osVersion ++ v ++ ".candidate"

theorem CandidateName.candidate {name v osVersion f : String}
    (h : CandidateName name v osVersion f) :
    Text.endsWith f ".candidate" = true := by
  rw [h]
  exact Text.endsWith_append _ _

theorem CandidateName.untemporary {name v osVersion f : String}
    (h : CandidateName name v osVersion f) : ¬ Temporary f :=
  not_temporary h.candidate (by decide)

/-- A file of the extensions directory is as it was. -/
def SameFile (f : String) (w u : Node) : Prop := u.extensions[f]? = w.extensions[f]?

instance (f : String) : IsPreorder Node (SameFile f) where
  refl _ := rfl
  trans _ _ _ h h' := Eq.trans h' h

/-- A candidate that waits: its entry and its file. -/
abbrev Waits (name v : String) (held : ExtensionState → Prop) (start w : Node) : Prop :=
  Guarded name held (CandidateName name v start.scope) start w

abbrev WaitsInMemory (name v : String) (held : ExtensionState → Prop) (start w : Node) : Prop :=
  GuardedInMemory name held (CandidateName name v start.scope) start w

section
variable {env : Environment} {name v : String} {held : ExtensionState → Prop} {start w u : Node}

theorem SameRecord.candidatePath (h : SameRecord w u) (name version : String) :
    u.candidatePath name version = w.candidatePath name version := by
  rw [Node.candidatePath, h.scope]
  rfl

theorem Guarded.candidateImage (h : Waits name v held start w) :
    w.candidateImage name v = start.candidateImage name v := by
  simp only [Node.candidateImage, Node.candidatePath, h.scope]
  exact h.files _ rfl

theorem staged_lasting (staged : ∀ d, held d → StagedAs v d) : Lasting held start := by
  intro d hd
  cases start.osVersion with
  | none => rfl
  | some version => simp [State.isStaleTerminal, (staged d hd).1, Phase.isTerminal]

/-- The removal of orphans spares the candidates on its list. -/
theorem reconcileOrphans_spares {ε : Type} {kept : List Path} {f : String}
    (candidate : Text.endsWith f ".candidate" = true)
    (listed : kept.contains ⟨.extensions, f⟩ = true) :
    Within (SameFile f) (reconcileOrphans env kept : Act ε _) := by
  have quiet : Quiet (Prog.attempt (candidateFiles env) : Act ε _) :=
    Returns.attempt (candidateFiles_quiet env)
  have removal : ∀ orphans, Within (SameFile f) (removeOrphans env kept orphans : Act ε _) := by
    intro orphans
    induction orphans with
    | nil => exact Within.pure _
    | cons p rest ih =>
      unfold removeOrphans
      split
      · exact ih
      · rename_i unlisted
        refine Within.bind (report_within ?_ _) fun _ => Within.bind ih fun _ => Within.pure _
        have only : Within (Confined fun f => p = ⟨.extensions, f⟩) (durableRemove env p) := by
          apply durableRemove_confined
          intro place
          cases p
          cases place
          rfl
        refine only.mono fun x y confined =>
          confined.files f ?_ (not_temporary candidate (by decide))
        rintro rfl
        exact unlisted listed
  refine Within.bind ((quiet_untouched quiet).mono fun _ _ same => ?_) fun found => ?_
  · exact congrArg (·[f]?) same.extensions
  · cases found with
    | ok candidates => exact removal candidates
    | error e => exact Within.pure _

/-- Its own turn in the reconcile finds the candidate of a staged entry and leaves it. -/
theorem waiting_turn (staged : ∀ d, held d → StagedAs v d)
    (present : (start.candidateImage name v).isSome = true) :
    TurnKeeps env name held (CandidateName name v start.scope) start where
  entry := by
    rintro ⟨n, phase, candidate, known⟩ d rfl hd hp hc -
    obtain ⟨hphase, hversion⟩ := staged d hd
    obtain rfl : phase = .staged := hp.trans hphase
    obtain rfl : candidate = some v := hc.trans hversion
    intro x hx
    have there : x.fileExists (x.candidatePath n v) = true := by
      rw [← hx.toGuarded.candidateImage] at present
      exact present
    have found : (reconcilePhase env ⟨n, .staged, some v, known⟩ : Act String _) x = .ok [] x := by
      refine (read_apply x _).trans ?_
      rw [Option.any_some, there]
      rfl
    have rollbacks : Within (Preserves (WaitsInMemory n v held start))
        (pruneRollbacks env n known) := by
      intro y hy
      have pruned := @pruneRollbacks_confined env n known y
      exact hy.of_record pruned.toSameRecord fun f hf =>
        pruned.files f (not_retained_of hf.candidate (by decide)) hf.untemporary
    rw [reconcileEntry, Prog.bind_of_ok found]
    exact within_preserves_iff.mp
      (Within.bind (report_within rollbacks _) fun _ => Within.pure _) x hx
  orphans := by
    intro x hx y hy
    refine Outcome.meets_always.mpr (hy.of_record (reconcileOrphans_tidied env _ y).toSameRecord
      fun f hf => reconcileOrphans_spares hf.candidate ?_ y)
    obtain ⟨d, recorded, hd⟩ := hx.memory
    obtain ⟨hphase, hversion⟩ := staged d hd
    have mem : (⟨name, .staged, some v, d.knownGoodVersion⟩ : Snapshot) ∈ x.memory.snapshots :=
      mem_snapshots.mpr ⟨d, recorded, hphase.symm, hversion.symm, rfl⟩
    rw [List.contains_iff_mem]
    refine List.mem_filterMap.mpr ⟨_, mem, ?_⟩
    rw [Snapshot.keptCandidate, if_pos rfl, Option.map_some, Node.candidatePath,
      hx.toGuarded.scope, hf]

theorem Guarded.imp {held' : ExtensionState → Prop} {fixed : String → Prop}
    (h : Guarded name held fixed start w) (hd : ∀ d, held d → held' d) :
    Guarded name held' fixed start w := by
  obtain ⟨d, recorded, hheld⟩ := h.stored
  exact ⟨h.osVersion, ⟨d, recorded, hd d hheld⟩, h.files, h.clear⟩

end

/-- Commands that set whether an extension is required. -/
def Event.setsRequired : Event → Bool
  | .command .require _ => true
  | .command .unrequire _ => true
  | _ => false

/-- What an event keeps to as long as a candidate waits: it boots no other base; the gate
does not examine the extension; and it is about no extension that has a file of the
candidate's name, or sets whether this one is required. -/
def Event.KeepsCandidate (name v : String) : Event → Node → Prop
  | .boot osRelease _, w => ({ osRelease := osRelease } : Node).osVersion = w.osVersion
  | .command .healthGate _, w => (w.stored.get name).any ExtensionState.required = false
  | d, w => (∀ other, d.subject = some other → other ≠ name →
      Clear (CandidateName name v w.scope) other w.scope) ∧
        (d.subject = some name → d.setsRequired = true)

section
variable {env : Environment} {name v : String} {start w u : Node}

theorem healthGate_waiting
    (present : (start.candidateImage name v).isSome = true) (hw : Waits name v (StagedAs v) start w)
    (idle : (w.stored.get name).any ExtensionState.required = false) :
    Waits name v (StagedAs v) start (locked env (healthGate env) w.process).state := by
  let held : ExtensionState → Prop := fun d => StagedAs v d ∧ d.required = false
  have optional : Waits name v held start w := by
    obtain ⟨d, recorded, hd⟩ := hw.stored
    rw [recorded, Option.any_some] at idle
    exact ⟨hw.osVersion, ⟨d, recorded, hd, idle⟩, hw.files, hw.clear⟩
  have lasting : Lasting held start := staged_lasting fun d hd => hd.1
  have gated := @locked_guarded env _ _ _ _ _ _ lasting
    (waiting_turn (fun d hd => hd.1) present) (fun _ hf => hf.untemporary) optional
    fun x _ hx => by
      have keeps : Keeps (WaitsInMemory name v held start) (healthGate env) := by
        refine healthGate_guarded lasting fun y merged hy needed => ?_
        obtain ⟨d, recorded, hd⟩ := hy.memory
        obtain ⟨d', recorded', needed⟩ := State.mem_required.mp needed
        cases recorded.symm.trans recorded'
        rw [hd.2] at needed
        cases needed
      exact (Outcome.meets_always.mp (keeps x hx)).toGuarded
  exact gated.imp fun d hd => hd.1

/-- One event. -/
theorem after_waiting (present : (start.candidateImage name v).isSome = true) {d : Event}
    (hw : Waits name v (StagedAs v) start w) (keeps : d.KeepsCandidate name v w) :
    Waits name v (StagedAs v) start (d.after env w) := by
  have lasting : Lasting (StagedAs v) start := staged_lasting fun d hd => hd
  have turn : TurnKeeps env name (StagedAs v) (CandidateName name v start.scope) start :=
    waiting_turn (fun d hd => hd) present
  have settable : ∀ required d, StagedAs v d → StagedAs v { d with required := required } :=
    fun _ _ => id
  cases d with
  | boot osRelease bootEntries => exact hw.boot keeps bootEntries
  | command c arguments =>
    by_cases gate : c = .healthGate
    · subst gate
      exact healthGate_waiting present hw keeps
    have keeps : (∀ other, (Event.command c arguments).subject = some other → other ≠ name →
        Clear (CandidateName name v start.scope) other start.scope) ∧
          ((Event.command c arguments).subject = some name →
            (Event.command c arguments).setsRequired = true) := by
      rw [← hw.scope]
      cases c <;> first | exact absurd rfl gate | exact keeps
    obtain ⟨others, own⟩ := keeps
    refine locked_guarded lasting turn (fun _ hf => hf.untemporary) hw fun x _ hx => ?_
    rcases c.operation_cases env arguments with rfl | sorts
    · exact absurd rfl gate
    refine (operation_guarded hx others sorts fun about => ?_).toGuarded
    have sets := own about
    rcases arguments with _ | ⟨first, rest⟩
    · cases c <;> cases about
    cases c <;> try cases sets
    · obtain rfl : first = name := Option.some.inj about
      exact Outcome.meets_always.mp (edited_guarded (settable true) x hx)
    · obtain rfl : first = name := Option.some.inj about
      exact Outcome.meets_always.mp (edited_guarded (settable false) x hx)
  | request c r =>
    obtain ⟨others, own⟩ := keeps
    rw [hw.scope] at others
    refine exclusive_guarded lasting turn (fun _ hf => hf.untemporary) hw fun x _ hx => ?_
    refine (operation_guarded hx others (c.operation_cases env r) fun about => ?_).toGuarded
    cases own about

theorem requireActivationSpace_code {required : Nat} {f : Failure}
    (h : requireActivationSpace env required w = .error f u) :
    f.code = .failed ∨ f.code = .noSpace := by
  rcases Prog.bind_eq_error.mp h with h | ⟨available, x, -, h⟩
  · exact Or.inl (failedAt_code h)
  · rw [Prog.demand_apply] at h
    split at h
    · cases h
    · cases h
      exact Or.inr rfl

theorem activateCandidate_code {requestId : Option String} {f : Failure}
    (h : activateCandidate env name v requestId w = .error f u) :
    f.code = .failed ∨ f.code = .noSpace := by
  rcases Prog.bind_eq_error.mp h with h | ⟨_, x₁, -, h⟩
  · exact Or.inl (adoptUnrecorded_code h)
  rw [read_apply] at h
  rcases Prog.bind_eq_error.mp h with h | ⟨size, x₂, -, h⟩
  · exact Or.inl (failedAt_code h)
  rcases Prog.bind_eq_error.mp h with h | ⟨outgoing, x₃, -, h⟩
  · exact Or.inl (outgoingSize_code h)
  rcases Prog.bind_eq_error.mp h with h | ⟨_, x₄, -, h⟩
  · exact requireActivationSpace_code h
  rcases Prog.bind_eq_error.mp h with h | ⟨_, x₅, -, h⟩
  · exact Or.inl (retainOutgoing_code h)
  rcases Prog.bind_eq_error.mp h with h | ⟨_, x₆, -, h⟩
  · rw [recordActivating_apply] at h
    exact Or.inl (failedAt_code h)
  · exact Or.inl (activateRecorded_code h)

/-- An activation that finds its candidate fails for another reason than not finding it. -/
theorem activateExtension_code {requestId : Option String} {f : Failure}
    (present : w.fileExists (w.candidatePath name v) = true)
    (h : activateExtension env name v requestId w = .error f u) : f.code ≠ .notFound := by
  rcases Prog.bind_eq_error.mp h with h | ⟨state, x, loaded, h⟩
  · obtain ⟨e, -, rfl⟩ := Prog.mapError_eq_error.mp h
    exact nofun
  obtain ⟨rfl, rfl⟩ := loadState_ok (Prog.mapError_eq_ok.mp loaded)
  rw [Prog.bind_of_ok (Act.hold_apply _ _), read_apply] at h
  split at h
  · cases h
  have found : w.loaded.fileExists (w.loaded.candidatePath name v) = true := present
  have h : (if w.loaded.fileExists (w.loaded.candidatePath name v) = true then
      activateCandidate env name v requestId else _) w.loaded = .error f u := h
  rw [if_pos found] at h
  rcases activateCandidate_code h with code | code <;> rw [code] <;> exact nofun

end

section
variable {env : Environment} {name v : String} {e : ExtensionState} {c : Bytes} {w : Node}

/-- A candidate that has been staged under the running base stays as it is, on record and
on disk, and no activation of it reports it missing, as long as every event keeps to it. -/
theorem candidate_waits {events : List Event} (recorded : w.stored.get name = some e)
    (staged : e.phase = .staged) (version : e.candidateVersion = some v)
    (present : w.candidateImage name v = some c)
    (clear : ∀ other d, Entry w other d → other ≠ name →
      Clear (CandidateName name v w.scope) other w.scope)
    (keeps : EachMeets (Event.after env) (Event.KeepsCandidate name v) events w) :
    let u := run env events w
    (∃ d, u.stored.get name = some d ∧ StagedAs v d) ∧ u.candidateImage name v = some c ∧
      ∀ x, reconcileState env u.process.tick = .ok () x → ∀ requestId f y,
        activateExtension env name v requestId x = .error f y → f.code ≠ .notFound := by
  intro u
  have there : (w.candidateImage name v).isSome = true := by
    rw [present]
    rfl
  have start : Waits name v (StagedAs v) w w :=
    ⟨rfl, ⟨e, recorded, staged, version⟩, fun _ _ => rfl, clear⟩
  have waits : Waits name v (StagedAs v) w u :=
    runAll_invariant (fun _ _ hx => after_waiting there hx) start keeps
  refine ⟨waits.stored, waits.candidateImage.trans present, fun x reconciled requestId f y h => ?_⟩
  have hx := @reconcileState_guarded env _ _ _ _ (staged_lasting fun d hd => hd)
    (waiting_turn (fun d hd => hd) there) (fun _ hf => hf.untemporary) u.process.tick
    waits.process
  rw [reconciled] at hx
  have hx : WaitsInMemory name v (StagedAs v) w x := hx
  refine activateExtension_code ?_ h
  rw [← hx.toGuarded.candidateImage] at there
  exact there

end

/-- A healthy image was adopted and another version staged. -/
def waitingNode : Node :=
  run (calm twoVersions) [.boot (some "VERSION_ID=1") [], .command .adopt ["n", "a"],
    stageFile "n" "/2"] (.with "1" [("n_1.raw", [1])])

theorem candidate_waits_first :
    let events : List Event := [.command .unrequire ["n"], .command .healthGate [],
      .boot (some "VERSION_ID=1") [], .command .require ["n"], .command .stageBase []]
    let u := run (calm twoVersions) events waitingNode
    (∃ d, u.stored.get "n" = some d ∧ StagedAs "b" d) ∧ u.candidateImage "n" "b" = some [2] ∧
      ∀ x, reconcileState (calm twoVersions) u.process.tick = .ok () x → ∀ requestId f y,
        activateExtension (calm twoVersions) "n" "b" requestId x = .error f y →
          f.code ≠ .notFound := by
  intro events u
  have alone : ∀ osVersion, ∀ other, some "n" = some other → other ≠ "n" →
      Clear (CandidateName "n" "b" osVersion) other osVersion := by
    rintro osVersion _ ⟨⟩ hne
    exact absurd rfl hne
  have nobody : ∀ osVersion, ∀ other, none = some other → other ≠ "n" →
      Clear (CandidateName "n" "b" osVersion) other osVersion := nofun
  have recorded : waitingNode.stored.get "n" =
      some ((waitingNode.stored.get "n").getD {}) := by decide +kernel
  refine candidate_waits recorded (by decide +kernel) (by decide +kernel) (by decide +kernel)
    (fun other d h hne => ?_) ⟨⟨alone _, fun _ => rfl⟩, ?_, ?_, ⟨alone _, fun _ => rfl⟩,
      ⟨nobody _, nofun⟩, trivial⟩
  · exact absurd (entry_of_keys (by decide +kernel) (by decide +kernel) h) hne
  · have optional : ∀ x : Node, (x.stored.get "n").any ExtensionState.required = false →
        Event.KeepsCandidate "n" "b" (.command .healthGate []) x := fun _ h => h
    exact optional _ (by decide +kernel)
  · have same : ∀ x : Node, x.osVersion = some "1" →
        Event.KeepsCandidate "n" "b" (.boot (some "VERSION_ID=1") []) x := by
      intro x hx
      refine Eq.trans ?_ hx.symm
      decide +kernel
    exact same _ (by decide +kernel)

/-- The gate records the running image as active over the staged entry, and the reconcile
of the next command takes the candidate away. -/
theorem gate_loses_candidate :
    let gated := run (calm twoVersions) [.command .healthGate []] waitingNode
    let reply := Call.activateExtension.run (calm twoVersions)
      { name := some "n", version := some "b" } gated.process
    (waitingNode.stored.get "n").map (fun e => (e.phase, e.candidateVersion)) =
        some (.staged, some "b") ∧
      waitingNode.candidateImage "n" "b" = some [2] ∧
      (gated.stored.get "n").map ExtensionState.phase = some .active ∧
      reply.failure.map Failure.code = some .notFound ∧
      reply.state.candidateImage "n" "b" = none := by
  decide +kernel

end CarbideOS.Agent
