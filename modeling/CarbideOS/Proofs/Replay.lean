import CarbideOS.Lib.Recent
import CarbideOS.Agent.Replies
import CarbideOS.Proofs.Edits
import CarbideOS.Proofs.Calm

namespace CarbideOS.Agent
open Interruptible Recent

namespace Node

/-- The requests an extension has completed, as recorded on disk. -/
def completed (w : Node) (name : String) : List String := (w.kept name).completedRequests

end Node

theorem recordCompleted_completedRequests (e : ExtensionState) (id : String) :
    (e.recordCompleted id).completedRequests =
      remember completedRequestHistory e.completedRequests id := by
  by_cases there : id ∈ e.completedRequests
  · rw [remember_of_mem there, ExtensionState.recordCompleted,
      if_pos (List.contains_iff_mem.mpr there)]
  · rw [remember_of_not_mem there, ExtensionState.recordCompleted,
      if_neg fun contained => there (List.contains_iff_mem.mp contained)]
    simp only [List.length_append, List.length_singleton]

theorem committed_completedRequests (e : ExtensionState) (version id : String) :
    (e.committed version (some id)).completedRequests =
      remember completedRequestHistory e.completedRequests id :=
  recordCompleted_completedRequests _ id

/-- Nothing happens to the history but that a request is put on it. -/
def Appends (requestId : Option String) (e e' : ExtensionState) : Prop :=
  e'.completedRequests = e.completedRequests ∨ ∃ id, requestId = some id ∧
    e'.completedRequests = remember completedRequestHistory e.completedRequests id

instance (requestId : Option String) : IsPreorder ExtensionState (Appends requestId) where
  refl _ := Or.inl rfl
  trans e e' e'' h h' := by
    rcases h' with same' | ⟨id', asked', put'⟩
    · rw [Appends, same']
      exact h
    · rcases h with same | ⟨id, asked, put⟩
      · rw [same] at put'
        exact Or.inr ⟨id', asked', put'⟩
      · have same : id' = id := Option.some.inj (asked'.symm.trans asked)
        rw [same, put, remember_remember (by decide)] at put'
        exact Or.inr ⟨id, asked, put'⟩

theorem includes_appends (requestId : Option String) (named : String → Prop) (o : Origin) :
    Includes (Appends requestId) named o := by
  intro e e' edit
  cases edit <;> exact Or.inl rfl

theorem appends_committed (version : String) (requestId : Option String) (e : ExtensionState) :
    Appends requestId e (e.committed version requestId) := by
  cases requestId with
  | none => exact Or.inl rfl
  | some id => exact Or.inr ⟨id, rfl, committed_completedRequests e version id⟩

theorem Appends.weaken {e e' : ExtensionState} (h : Appends none e e') (requestId : Option String) :
    Appends requestId e e' := by
  rcases h with same | ⟨_, ⟨⟩, _⟩
  exact Or.inl same

section
variable {env : Environment} {name version : String} {requestId : Option String} {w u : Node}

/-- An activation that is not a repeat returns with its commit on disk. -/
theorem tryCandidate_committed {candidate : Path}
    (h : tryCandidate env name version requestId candidate w = .ok () u) :
    ∃ v : Node, u = (v.committed name version requestId).saved := by
  rw [tryCandidate, read_apply] at h
  obtain ⟨_, _, -, h⟩ := Prog.bind_eq_ok.mp h
  obtain ⟨ruleset, _, -, h⟩ := Prog.bind_eq_ok.mp h
  obtain ⟨_, v, -, h⟩ := Prog.bind_eq_ok.mp h
  rw [commit_apply] at h
  cases ended : store env (v.committed name version requestId) with
  | ok _ x =>
    rw [ended] at h
    cases h
    exact ⟨v, store_ok ended⟩
  | error _ x =>
    rw [ended] at h
    cases h
  | halt x =>
    rw [ended] at h
    cases h

theorem revertSetback_ne_ok {setback : Setback} {a : Activation} :
    revertSetback env name setback w ≠ .ok a u := by
  intro h
  obtain ⟨log, _, -, h⟩ := Prog.bind_eq_ok.mp h
  obtain ⟨result, _, -, h⟩ := Prog.bind_eq_ok.mp h
  cases result <;> cases h

theorem activateRecorded_ok {previous : Option String} {candidate : Path} {a : Activation}
    (h : activateRecorded env name version requestId previous candidate w = .ok a u) :
    a.version = version ∧ ∃ v : Node, SameRecord (v.committed name version requestId).saved u := by
  obtain ⟨result, v, tried, h⟩ := Prog.bind_eq_ok.mp h
  cases result with
  | error setback => exact absurd h revertSetback_ne_ok
  | ok _ =>
    have committed : tryCandidate env name version requestId candidate w = .ok () v := by
      rcases Prog.attempt_eq_ok.mp tried with ⟨_, -, ran⟩ | ⟨_, ⟨⟩, -⟩
      exact ran
    obtain ⟨x, rfl⟩ := tryCandidate_committed committed
    obtain ⟨_, y, candidates, h⟩ := Prog.bind_eq_ok.mp h
    obtain ⟨_, z, rollbacks, h⟩ := Prog.bind_eq_ok.mp h
    cases h
    have first := (@Within.attempt _ _ Failure _ _ _ (pruneCandidates_record env name none)).of_ok
      candidates
    have second :=
      (@Within.attempt _ _ Failure _ _ _ (pruneRollbacks_record env name previous)).of_ok
      rollbacks
    exact ⟨rfl, x, first.trans second⟩

theorem activateCandidate_ok {a : Activation}
    (h : activateCandidate env name version requestId w = .ok a u) :
    a.version = version ∧ ∃ v : Node, SameRecord (v.committed name version requestId).saved u := by
  obtain ⟨_, v, -, h⟩ := Prog.bind_eq_ok.mp h
  rw [read_apply] at h
  obtain ⟨_, _, -, h⟩ := Prog.bind_eq_ok.mp h
  obtain ⟨_, _, -, h⟩ := Prog.bind_eq_ok.mp h
  obtain ⟨_, _, -, h⟩ := Prog.bind_eq_ok.mp h
  obtain ⟨_, _, -, h⟩ := Prog.bind_eq_ok.mp h
  obtain ⟨_, _, -, h⟩ := Prog.bind_eq_ok.mp h
  exact activateRecorded_ok h

/-- An activation that works is a repeat, which leaves the record as it is, or ends with its
commit on record. -/
theorem activateExtension_ok {a : Activation}
    (h : activateExtension env name version requestId w = .ok a u) :
    a.version = version ∧
      if isReplay (w.stored.get name) requestId then u.stored = w.stored
      else ∃ v : Node, SameRecord (v.committed name version requestId).saved u := by
  obtain ⟨state, v, loaded, h⟩ := Prog.bind_eq_ok.mp h
  obtain ⟨rfl, rfl⟩ := loadState_ok (Prog.mapError_eq_ok.mp loaded)
  rw [Prog.bind_of_ok (Act.hold_apply _ _), read_apply] at h
  by_cases replay : isReplay (w.stored.get name) requestId = true
  · rw [if_pos replay] at h
    cases h
    exact ⟨rfl, (if_pos replay).mpr rfl⟩
  · rw [if_neg replay] at h
    rw [if_neg replay]
    dsimp only at h
    split at h
    · exact activateCandidate_ok h
    · cases h

theorem completed_of_isReplay {id : String}
    (replay : isReplay (w.stored.get name) (some id) = true) : id ∈ w.completed name := by
  rw [Node.completed, Node.kept]
  cases stored : w.stored.get name with
  | none =>
    rw [stored] at replay
    cases replay
  | some e =>
    rw [stored] at replay
    exact List.contains_iff_mem.mp replay

/-- Whichever way an activation works, its request is on record afterwards. -/
theorem activateExtension_completes {id : String} {a : Activation}
    (h : activateExtension env name version (some id) w = .ok a u) : id ∈ u.completed name := by
  have ended := (activateExtension_ok h).2
  by_cases replay : isReplay (w.stored.get name) (some id) = true
  · rw [if_pos replay] at ended
    rw [Node.completed, Node.kept, ended]
    exact completed_of_isReplay replay
  · rw [if_neg replay] at ended
    obtain ⟨v, record⟩ := ended
    have kept : u.kept name = (v.held name).committed version (some id) := by
      rw [Node.kept, record.stored]
      exact held_edit v name _
    rw [Node.completed, kept, committed_completedRequests]
    exact mem_remember (by decide) _ _

theorem answerActivateExtension_completes {id : String} {r : Request} (about : r.name = some name)
    (asked : r.requestId = some id) (h : answerActivateExtension env r w = .ok () u) :
    id ∈ u.completed name := by
  unfold answerActivateExtension at h
  rw [about, asked] at h
  cases wanted : r.version with
  | none =>
    rw [wanted] at h
    cases h
  | some version =>
    rw [wanted] at h
    obtain ⟨_, v, passed, h⟩ := Prog.bind_eq_ok.mp h
    obtain ⟨a, x, ran, h⟩ := Prog.bind_eq_ok.mp h
    cases h
    exact activateExtension_completes ran

end

section
variable (env : Environment) {name : String} {d : ExtensionState} {w u : Node}

/-- The history is what it was before a command, with at most one request put on it. -/
def Appended (name : String) (d : ExtensionState) (w : Node) : Prop :=
  ∃ requestId, Descends (Appends requestId) name d w

theorem activateExtension_appends {other version : String} {requestId : Option String} :
    Triple (DescendsInMemory (Appends none) name d)
      (activateExtension env other version requestId) (Ends.always (Appended name d)) := by
  have moved : Within (Moved (Appends requestId) name)
      (activateExtension env other version requestId) := by
    by_cases own : other = name
    · subst own
      exact @activateExtension_moved _ _ _ env (fun _ => True) (includes_appends _ _ _)
        (includes_appends _ _ _) (includes_appends _ _ _) _ _ trivial
        (appends_committed version requestId)
    · exact (activateExtension_aside env version requestId).mono fun _ _ aside =>
        aside.moved (Ne.symm own)
  have keeps := moved_descends (d := d) moved
  refine keeps.mono (fun _ h => ⟨h.1.weaken _, h.2.weaken _⟩) (fun _ _ h => ⟨requestId, h.2⟩)
    (fun _ _ h => ⟨requestId, h.2⟩) fun _ h => ⟨requestId, h.2⟩

/-- What follows an activation does not touch the record. -/
theorem activation_appends {ε : Type} {other version : String} {requestId : Option String}
    {f : Failure → ε} :
    Triple (DescendsInMemory (Appends none) name d)
      (Prog.mapError f (activateExtension env other version requestId) >>= fun _ =>
        (pure () : Act ε Unit)) (Ends.always (Appended name d)) :=
  Triple.bind (Triple.mapError (activateExtension_appends env)) fun _ => Triple.pure fun _ => id

theorem appended_of_unchanged {m : Act ε Unit}
    (h : Keeps (DescendsInMemory (Appends none) name d) m) :
    Triple (DescendsInMemory (Appends none) name d) m (Ends.always (Appended name d)) :=
  h.mono (fun _ => id) (fun _ _ h => ⟨none, h.2⟩) (fun _ _ h => ⟨none, h.2⟩) fun _ h => ⟨none, h.2⟩

theorem stageSource_appends {other : String} (arguments : List String) (source : Source) :
    Triple (DescendsInMemory (Appends none) name d) (stageSource env other arguments source)
      (Ends.always (Appended name d)) := by
  have placed : Keeps (DescendsInMemory (Appends none) name d)
      (stageExtension env other (option "--base" arguments) source) := by
    by_cases own : other = name
    · subst own
      exact moved_descends (@stageExtension_moved _ _ _ env (fun _ => True)
        (includes_appends _ _ _) _ _)
    · exact moved_descends ((aside_of_tame (stageExtension_tame env _ _)).mono fun _ _ aside =>
        aside.moved (Ne.symm own))
  refine Triple.bind (R := fun _ => DescendsInMemory (Appends none) name d) ?_ fun staged => ?_
  · exact Triple.mapError (placed.mono (fun _ => id) (fun _ _ => id) (fun _ _ h => ⟨none, h.2⟩)
      fun _ h => ⟨none, h.2⟩)
  · split
    · exact Triple.pure fun _ h => ⟨none, h.2⟩
    · cases staged.extensionVersion with
      | none => exact Triple.fail fun _ h => ⟨none, h.2⟩
      | some version =>
        refine Triple.bind (R := fun _ => DescendsInMemory (Appends none) name d) (fun _ h => h)
          fun requestId => ?_
        exact activation_appends env

theorem appended_none {u : Node} (h : DescendsInMemory (Appends none) name d u) :
    Appended name d u := ⟨none, h.2⟩

theorem Command.operation_appends (c : Command) (arguments : List String) :
    Triple (DescendsInMemory (Appends none) name d) (c.operation env arguments)
      (Ends.always (Appended name d)) := by
  by_cases stages : c = .stageExtension
  · subst stages
    change Triple _ (stageExtensionCommand env arguments) _
    unfold stageExtensionCommand
    split
    · exact Triple.fail fun _ => appended_none
    · split
      · exact stageSource_appends env _ _
      · exact Triple.fail fun _ => appended_none
      · exact stageSource_appends env _ _
  · by_cases activates : c = .activate
    · subst activates
      rcases arguments with _ | ⟨other, _ | ⟨version, rest⟩⟩
      · exact Triple.fail fun _ => appended_none
      · exact Triple.fail fun _ => appended_none
      · exact activation_appends env
    · exact appended_of_unchanged (Command.operation_descends (G := Appends none) env
        (fun o => includes_appends none _ o) arguments stages activates)

theorem Call.operation_appends (c : Call) (r : Request) :
    Triple (DescendsInMemory (Appends none) name d) (c.operation env r)
      (Ends.always (Appended name d)) := by
  rcases c.operation_cases env r with untouched | ⟨other, about, aside⟩
  · exact appended_of_unchanged (moved_descends (record_moved (untouched.mono fun _ _ h =>
      h.toSameRecord)))
  · by_cases own : other = name
    · subst own
      cases c with
      | stageBase => cases about
      | stageExtension =>
        refine appended_of_unchanged (moved_descends ?_)
        change Within _ (answerStageExtension env r)
        have asked : r.name = some other := about
        unfold answerStageExtension
        rw [asked]
        refine Within.bind (Within.demand _ _) fun _ => ?_
        cases r.source with
        | error failure => exact Within.fail failure
        | ok source =>
          exact Within.bind
            (@stageExtension_moved _ _ _ env (fun _ => True) (includes_appends _ _ _) _ _)
            fun _ => Within.pure ()
      | activateExtension =>
        change Triple _ (answerActivateExtension env r) _
        have asked : r.name = some other := about
        unfold answerActivateExtension
        rw [asked]
        cases r.version with
        | none => exact Triple.fail fun _ => appended_none
        | some version =>
          refine Triple.bind (R := fun _ => DescendsInMemory (Appends none) other d) ?_ fun _ => ?_
          · exact Triple.demand (fun _ _ h => h) fun _ _ => appended_none
          · refine Triple.bind (R := fun _ => Appended other d) ?_ fun _ => Triple.pure fun _ => id
            exact activateExtension_appends env
    · exact appended_of_unchanged (moved_descends (aside.mono fun _ _ h => h.moved (Ne.symm own)))

/-- A command takes its turn after the reconcile, which puts no request on a history. -/
theorem reconcileState_appends :
    Triple (Descends (Appends none) name d) (reconcileState env)
      ⟨fun _ => DescendsInMemory (Appends none) name d, fun _ => Appended name d,
        Appended name d⟩ :=
  (@reconcileState_descends _ _ _ env (fun _ => True) _ (includes_appends none _ _)
    (includes_appends none _ _)).mono (fun _ => id) (fun _ _ => id) (fun _ _ h => ⟨none, h⟩)
    fun _ h => ⟨none, h⟩

/-- An event puts at most one request on the history of an extension. -/
theorem after_appends (e : Event) (w : Node) :
    ∃ requestId, Appends requestId (w.kept name) ((e.after env w).kept name) := by
  have start : Descends (Appends none) name (w.kept name) w.process := Or.inl rfl
  cases e with
  | boot osRelease bootEntries => exact ⟨none, Or.inl rfl⟩
  | command c arguments =>
    have whole : Triple (Descends (Appends none) name (w.kept name)) (c.run env arguments)
        (Ends.always (Appended name (w.kept name))) := by
      refine Triple.bind (R := fun _ => Descends (Appends none) name (w.kept name)) ?_ fun _ =>
        Triple.bind (reconcileState_appends env) fun _ => c.operation_appends env arguments
      intro u hu
      unfold acquireLock
      cases env.unreadable .lock u with
      | none => exact hu
      | some error => exact ⟨none, hu⟩
    exact Outcome.meets_always.mp (whole w.process start)
  | request c r =>
    have whole : Triple (Descends (Appends none) name (w.kept name)) (c.run env r)
        (Ends.always (Appended name (w.kept name))) := by
      refine Triple.bind (R := fun _ => Descends (Appends none) name (w.kept name)) ?_ fun _ =>
        Triple.bind (R := fun _ => DescendsInMemory (Appends none) name (w.kept name))
          (Triple.mapError (reconcileState_appends env)) fun _ => c.operation_appends env r
      intro u hu
      unfold tryLock
      cases env.unreadable .busy u with
      | some error => exact ⟨none, hu⟩
      | none =>
        cases env.unreadable .lock u with
        | none => exact hu
        | some error => exact ⟨none, hu⟩
    exact Outcome.meets_always.mp (whole w.process start)

theorem after_completed (e : Event) (w : Node) (name : String) :
    (e.after env w).completed name = w.completed name ∨
      ∃ id, (e.after env w).completed name =
        remember completedRequestHistory (w.completed name) id := by
  obtain ⟨requestId, same | ⟨id, -, put⟩⟩ := @after_appends env name e w
  · exact Or.inl same
  · exact Or.inr ⟨id, put⟩

/-- The requests of an extension that an event completes. -/
def Event.completes (name : String) (e : Event) (w : Node) : List String :=
  ((e.after env w).completed name).filter (· ∉ w.completed name)

/-- The requests of an extension that a run completes, oldest first. -/
def completedSince (name : String) : List Event → Node → List String
  | [], _ => []
  | e :: rest, w => e.completes env name w ++ completedSince name rest (e.after env w)

theorem run_completed_bounded (fresh : w.stored = {}) (events : List Event) :
    ((run env events w).completed name).Nodup ∧
      ((run env events w).completed name).length ≤ completedRequestHistory := by
  have empty : w.completed name = [] := by
    rw [Node.completed, Node.kept, fresh]
    simp [State.get]
  refine @runAll_invariant _ _ (Event.after env) (fun _ _ => True)
    (fun v => (v.completed name).Nodup ∧ (v.completed name).length ≤ completedRequestHistory)
    (fun e v bounded _ => ?_) _ _ ?_ (eachMeets_of_forall (fun _ _ _ => trivial) w)
  · rcases after_completed env e v name with same | ⟨id, put⟩
    · rw [same]
      exact bounded
    · rw [put]
      exact ⟨nodup_remember bounded.1, length_remember bounded.2⟩
  · simp [empty]

/-- A request stays on record while there is room for those that come after it. -/
theorem run_since {id : String} (events : List Event) {others : Finset String}
    (since : Since id others (w.completed name))
    (few : ((others ∪ (completedSince env name events w).toFinset).erase id).card <
      completedRequestHistory) :
    id ∈ (run env events w).completed name := by
  induction events generalizing w others with
  | nil => exact since.mem
  | cons e rest ih =>
    have step : Since id (others ∪ (e.completes env name w).toFinset)
        ((e.after env w).completed name) := by
      rcases after_completed env e w name with same | ⟨newer, put⟩
      · rw [same]
        exact since.mono Finset.subset_union_left
      · by_cases there : newer ∈ w.completed name
        · rw [put, remember_of_mem there]
          exact since.mono Finset.subset_union_left
        · have added : newer ∈ (e.completes env name w).toFinset := by
            have last : newer ∈ (e.after env w).completed name := by
              rw [put]
              exact List.mem_of_getLast? (getLast_remember (by decide) there)
            simpa [Event.completes] using ⟨last, there⟩
          have within : insert newer others ⊆ others ∪ (e.completes env name w).toFinset := by
            intro a ha
            rcases Finset.mem_insert.mp ha with rfl | ha
            · exact Finset.mem_union_right _ added
            · exact Finset.mem_union_left _ ha
          rw [put]
          refine (since.remember ?_).mono within
          refine lt_of_le_of_lt (Finset.card_le_card (Finset.erase_subset_erase _ ?_)) few
          refine within.trans (Finset.union_subset_union_right ?_)
          intro a ha
          simp only [completedSince, List.toFinset_append, Finset.mem_union]
          exact Or.inl ha
    refine ih step ?_
    have regrouped : others ∪ (e.completes env name w).toFinset ∪
        (completedSince env name rest (e.after env w)).toFinset =
          others ∪ (completedSince env name (e :: rest) w).toFinset := by
      rw [completedSince, List.toFinset_append, Finset.union_assoc]
    rw [regrouped]
    exact few

/-- Nothing of a node differs but what the running command remembers, and the clock. -/
structure AtRest (w u : Node) : Prop where
  osRelease : u.osRelease = w.osRelease
  extensions : u.extensions = w.extensions
  staging : u.staging = w.staging
  stored : u.stored = w.stored
  merged : u.merged = w.merged
  bootEntries : u.bootEntries = w.bootEntries

theorem AtRest.refl (w : Node) : AtRest w w := ⟨rfl, rfl, rfl, rfl, rfl, rfl⟩

/-- An activation under the identifier of a request. -/
inductive Event.Repeats (name id : String) : Event → Prop where
  | command (version : String) (rest : List String) :
      Repeats name id (.command .activate (name :: version :: id :: rest))
  | request (r : Request) (about : r.name = some name) (asked : r.requestId = some id) :
      Repeats name id (.request .activateExtension r)

/-- The event is a command or a request that works. -/
def Event.succeeds (env : Environment) : Event → Node → Bool
  | .command c arguments, w => (c.run env arguments w.process).isOk
  | .request c r, w => (c.run env r w.process).isOk
  | .boot _ _, _ => false

/-- The event with nothing done after its reconcile. -/
def Event.reconciled : Event → Node → Node
  | .command _ _, w => (locked env (pure ()) w.process).state
  | .request _ _, w => (exclusive env (pure ()) w.process).state
  | .boot osRelease bootEntries, w => w.boot env osRelease bootEntries

theorem isReplay_of_completed {id : String} (there : id ∈ w.completed name) :
    isReplay (w.stored.get name) (some id) = true := by
  cases stored : w.stored.get name with
  | none =>
    rw [Node.completed, Node.kept, stored] at there
    cases there
  | some e =>
    rw [Node.completed, Node.kept, stored] at there
    exact List.contains_iff_mem.mpr there

theorem activateExtension_repeated {id : String} (version : String)
    (there : id ∈ w.completed name) :
    AtRest w (activateExtension env name version (some id) w).state := by
  have replay := isReplay_of_completed there
  unfold activateExtension
  cases readable : env.unreadable .state w with
  | some error =>
    have failed : loadState env w = .error error w.tick := by rw [loadState, readable]
    have failed' : Prog.mapError (fun error =>
        Failure.new .failed s!"could not read agent state: {error}") (loadState env) w =
          .error (Failure.new .failed s!"could not read agent state: {error}") w.tick :=
      Prog.mapError_eq_error.mpr ⟨error, failed, rfl⟩
    rw [Prog.bind_of_error failed']
    exact ⟨rfl, rfl, rfl, rfl, rfl, rfl⟩
  | none =>
    have loaded : loadState env w = .ok w.stored w.tick := by rw [loadState, readable]
    rw [Prog.bind_of_ok (Prog.mapError_eq_ok.mpr loaded), Prog.bind_of_ok (Act.hold_apply _ _),
      read_apply, if_pos replay]
    exact ⟨rfl, rfl, rfl, rfl, rfl, rfl⟩

/-- What leaves the disk alone leaves it as the programs before it did. -/
theorem atRest_after {first rest : Act ε Unit}
    (h : ∀ u, first w = .ok () u → AtRest u (rest u).state) :
    AtRest ((first >>= fun _ => pure ()) w).state ((first >>= fun _ => rest) w).state := by
  cases ended : first w with
  | ok _ u =>
    rw [Prog.bind_of_ok ended, Prog.bind_of_ok ended]
    exact h u ended
  | error error u =>
    rw [Prog.bind_of_error ended, Prog.bind_of_error ended]
    exact AtRest.refl u
  | halt u =>
    rw [Prog.bind_of_halt ended, Prog.bind_of_halt ended]
    exact AtRest.refl u

theorem bind_unit_state {m : Act ε α} : ((m >>= fun _ => pure ()) w).state = (m w).state := by
  rw [Prog.bind_apply]
  cases m w <;> rfl

theorem answerActivateExtension_repeated {id : String} {r : Request} (about : r.name = some name)
    (asked : r.requestId = some id) (there : id ∈ w.completed name) :
    AtRest w (answerActivateExtension env r w).state := by
  unfold answerActivateExtension
  rw [about, asked]
  cases r.version with
  | none => exact AtRest.refl w
  | some version =>
    dsimp only
    cases usable : versionValid name && versionValid version with
    | false => exact AtRest.refl w
    | true =>
      change AtRest w ((activateExtension env name version (some id) >>= fun _ => pure ()) w).state
      rw [bind_unit_state]
      exact activateExtension_repeated env version there

theorem reconcileState_completed {u v : Node} {id : String} (there : id ∈ u.completed name)
    (h : reconcileState env u = .ok () v) : id ∈ v.completed name := by
  have ended := (@reconcileState_appends env name (u.kept name)) u (Or.inl rfl)
  rw [h] at ended
  rcases ended.2 with same | ⟨_, ⟨⟩, _⟩
  rw [Node.completed, same]
  exact there

/-- An activation that works has its request on record. -/
theorem repeats_completes {id : String} {e : Event} (repeats : e.Repeats name id)
    (works : e.succeeds env w = true) : id ∈ (e.after env w).completed name := by
  cases repeats with
  | command version rest =>
    obtain ⟨_, ended⟩ := Outcome.ok_of_isOk works
    obtain ⟨_, u, -, ran⟩ := Prog.bind_eq_ok.mp ended
    obtain ⟨_, v, -, ran⟩ := Prog.bind_eq_ok.mp ran
    obtain ⟨a, x, ran, finish⟩ := Prog.bind_eq_ok.mp ran
    have same : (Command.activate.run env (name :: version :: id :: rest) w.process).state = x := by
      cases finish
      rfl
    have there := activateExtension_completes (Prog.mapError_eq_ok.mp ran)
    rw [Event.after, same]
    exact there
  | request r about asked =>
    obtain ⟨_, ended⟩ := Outcome.ok_of_isOk works
    obtain ⟨_, u, -, ran⟩ := Prog.bind_eq_ok.mp ended
    obtain ⟨_, v, -, ran⟩ := Prog.bind_eq_ok.mp ran
    exact answerActivateExtension_completes about asked ran

/-- A repeated request does nothing once the reconcile is done. -/
theorem repeats_reconciled {id : String} {e : Event} (repeats : e.Repeats name id)
    (there : id ∈ w.completed name) : AtRest (e.reconciled env w) (e.after env w) := by
  have kept : id ∈ w.process.completed name := there
  cases repeats with
  | command version rest =>
    have regrouped : ∀ operation : Act String Unit, locked env operation =
        (acquireLock env >>= fun _ => reconcileState env) >>= fun _ => operation :=
      fun _ => (Prog.bind_assoc _ _ _).symm
    change AtRest (locked env (pure ()) w.process).state
      (locked env (activate env (name :: version :: id :: rest)) w.process).state
    rw [regrouped, regrouped]
    refine atRest_after fun u hu => ?_
    obtain ⟨_, v, locked, reconciled⟩ := Prog.bind_eq_ok.mp hu
    have there' : id ∈ v.completed name := by
      unfold acquireLock at locked
      cases readable : env.unreadable .lock w.process with
      | some error =>
        rw [readable] at locked
        cases locked
      | none =>
        rw [readable] at locked
        cases locked
        exact kept
    change AtRest u
      ((Prog.mapError Failure.message (activateExtension env name version (some id)) >>=
      fun _ => pure ()) u).state
    rw [bind_unit_state, Prog.mapError_state]
    exact activateExtension_repeated env version (reconcileState_completed env there' reconciled)
  | request r about asked =>
    have regrouped : ∀ operation : Act Failure Unit, exclusive env operation =
        (tryLock env >>= fun _ => Prog.mapError (fun error =>
          Failure.new .failed s!"could not reconcile interrupted work: {error}")
            (reconcileState env)) >>= fun _ => operation :=
      fun _ => (Prog.bind_assoc _ _ _).symm
    change AtRest (exclusive env (pure ()) w.process).state
      (exclusive env (answerActivateExtension env r) w.process).state
    rw [regrouped, regrouped]
    refine atRest_after fun u hu => ?_
    obtain ⟨_, v, locked, reconciled⟩ := Prog.bind_eq_ok.mp hu
    have there' : id ∈ v.completed name := by
      unfold tryLock at locked
      cases busy : env.unreadable .busy w.process with
      | some error =>
        rw [busy] at locked
        cases locked
      | none =>
        cases readable : env.unreadable .lock w.process with
        | some error =>
          rw [busy, readable] at locked
          cases locked
        | none =>
          rw [busy, readable] at locked
          cases locked
          exact kept
    exact answerActivateExtension_repeated env about asked
      (reconcileState_completed env there' (Prog.mapError_eq_ok.mp reconciled))

end

/-- From an empty record on, the histories stay short and free of repetition, an activation
that works completes its request unless that was completed before, and an activation whose
request was completed with fewer than 64 others after it changes nothing that the reconcile
before it does not. -/
theorem replay_is_noop (env : Environment) (name : String) {w : Node} (fresh : w.stored = {}) :
    (∀ events, ((run env events w).completed name).Nodup ∧
      ((run env events w).completed name).length ≤ completedRequestHistory) ∧
    (∀ before e id, Event.Repeats name id e → e.succeeds env (run env before w) = true →
      id ∈ e.completes env name (run env before w) ∨ id ∈ (run env before w).completed name) ∧
    ∀ before e since id, id ∈ e.completes env name (run env before w) →
      ((completedSince env name since (e.after env (run env before w))).toFinset.erase id).card <
        completedRequestHistory →
      ∀ again : Event, again.Repeats name id →
        AtRest (again.reconciled env (run env (before ++ e :: since) w))
          (again.after env (run env (before ++ e :: since) w)) := by
  refine ⟨run_completed_bounded env fresh, fun before e id repeats works => ?_,
    fun before e since id completed few again repeats => ?_⟩
  · have there := repeats_completes env repeats works
    by_cases before' : id ∈ (run env before w).completed name
    · exact Or.inr before'
    · exact Or.inl (by simpa [Event.completes] using ⟨there, before'⟩)
  refine repeats_reconciled env repeats ?_
  have whole : run env (before ++ e :: since) w =
      run env since (e.after env (run env before w)) := by
    rw [run, runAll_append]
    rfl
  rw [whole]
  refine @run_since env _ _ _ since ∅ ?_ ?_
  · obtain ⟨there, unseen⟩ : id ∈ (e.after env (run env before w)).completed name ∧
        id ∉ (run env before w).completed name := by
      simpa [Event.completes] using completed
    rcases after_completed env e (run env before w) name with same | ⟨newer, put⟩
    · rw [same] at there
      exact absurd there unseen
    · rw [put] at there ⊢
      obtain rfl : id = newer := (mem_of_mem_remember there).resolve_left unseen
      exact Since.newest (by decide) (run_completed_bounded env fresh before).1 unseen
  · rw [Finset.empty_union]
    exact few

/-- An activation asked for under an identifier. -/
def activateAs (name version id : String) : Event :=
  .request .activateExtension
    { name := some name, version := some version, requestId := some id }

/-- The second version of an extension, activated and then given up for the first. -/
def givenUp : List Event :=
  [stageFile "n" "/1", activateAs "n" "a" "q", stageFile "n" "/2", activateAs "n" "b" "r",
    .command .rollback ["n"]]

theorem replay_is_noop_given_up :
    ((run (calm twoVersions) givenUp (Node.with "1" [])).kept "n").activeVersion = some "a" ∧
      AtRest
        ((activateAs "n" "b" "r").reconciled (calm twoVersions)
          (run (calm twoVersions) givenUp (Node.with "1" [])))
        ((activateAs "n" "b" "r").after (calm twoVersions)
          (run (calm twoVersions) givenUp (Node.with "1" []))) := by
  obtain ⟨-, works, repeats⟩ := @replay_is_noop (calm twoVersions) "n" (Node.with "1" []) rfl
  have completed : "r" ∈ (activateAs "n" "b" "r").completes (calm twoVersions) "n"
      (run (calm twoVersions) (givenUp.take 3) (Node.with "1" [])) :=
    (works (givenUp.take 3) _ "r" (.request _ rfl rfl) (by decide +kernel)).resolve_right
      (by decide +kernel)
  have none_since : completedSince (calm twoVersions) "n" [.command .rollback ["n"]]
      ((activateAs "n" "b" "r").after (calm twoVersions)
        (run (calm twoVersions) (givenUp.take 3) (Node.with "1" []))) = [] := by decide +kernel
  refine ⟨by decide +kernel, ?_⟩
  refine repeats (givenUp.take 3) _ [.command .rollback ["n"]] "r" completed ?_ _
    (.request _ rfl rfl)
  rw [none_since]
  decide

end CarbideOS.Agent
