import CarbideOS.Proofs.Calm
import CarbideOS.Proofs.Edits

namespace CarbideOS.Agent
open Interruptible

/-- A relation that includes every change of an entry. -/
structure IncludesAll (G : ExtensionState → ExtensionState → Prop) : Prop where
  edits : ∀ o, Includes G (fun _ => True) o
  commits : ∀ e version requestId, G e (e.committed version requestId)

section
variable {G : ExtensionState → ExtensionState → Prop} [IsPreorder ExtensionState G]
  {name : String} {d : ExtensionState} (env : Environment) (all : IncludesAll G)
include all

theorem activateExtension_includes (other version : String) (requestId : Option String) :
    Within (Moved G name) (activateExtension env other version requestId) := by
  by_cases own : other = name
  · subst own
    exact @activateExtension_moved _ _ _ env (fun _ => True) (all.edits _) (all.edits _)
      (all.edits _) _ _ trivial fun e => all.commits e version requestId
  · exact (activateExtension_aside env version requestId).mono fun _ _ aside =>
      aside.moved (Ne.symm own)

theorem stageExtension_includes (other : String) (base : Option String) (source : Source) :
    Within (Moved G name) (stageExtension env other base source) := by
  by_cases own : other = name
  · subst own
    exact @stageExtension_moved _ _ _ env (fun _ => True) (all.edits _) _ _
  · exact (aside_of_tame (stageExtension_tame env _ _)).mono fun _ _ aside =>
      aside.moved (Ne.symm own)

theorem stageSource_includes (other : String) (arguments : List String) (source : Source) :
    Within (Moved G name) (stageSource env other arguments source) := by
  refine Within.bind (Within.mapError (stageExtension_includes env all _ _ _)) fun staged => ?_
  split
  · exact Within.pure ()
  · cases staged.extensionVersion with
    | none => exact Within.fail _
    | some version =>
      refine Within.bind (quiet_moved (Quiet.ask _)) fun requestId => ?_
      refine Within.bind (Within.mapError (activateExtension_includes env all _ _ _)) fun _ => ?_
      exact Within.pure ()

theorem Command.operation_includes (c : Command) (arguments : List String) :
    Keeps (DescendsInMemory G name d) (c.operation env arguments) := by
  by_cases stages : c = .stageExtension
  · subst stages
    refine moved_descends ?_
    change Within _ (stageExtensionCommand env arguments)
    unfold stageExtensionCommand
    split
    · exact Within.fail _
    · split
      · exact stageSource_includes env all _ _ _
      · exact Within.fail _
      · exact stageSource_includes env all _ _ _
  · by_cases activates : c = .activate
    · subst activates
      refine moved_descends ?_
      rcases arguments with _ | ⟨other, _ | ⟨version, rest⟩⟩
      · exact Within.fail _
      · exact Within.fail _
      · exact Within.bind (Within.mapError (activateExtension_includes env all _ _ _)) fun _ =>
          Within.pure ()
    · exact Command.operation_descends env all.edits arguments stages activates

theorem Call.operation_includes (c : Call) (r : Request) :
    Keeps (DescendsInMemory G name d) (c.operation env r) := by
  refine moved_descends ?_
  cases c with
  | stageBase =>
    have untouched : Within Untouched (answerStageBase env r) :=
      Within.bind (stageBase_untouched env _) fun _ => Within.pure ()
    exact record_moved (untouched.mono fun _ _ h => h.toSameRecord)
  | stageExtension =>
    change Within _ (answerStageExtension env r)
    unfold answerStageExtension
    split
    · exact Within.fail _
    · refine Within.bind (Within.demand _ _) fun _ => ?_
      split
      · exact Within.fail _
      · exact Within.bind (stageExtension_includes env all _ _ _) fun _ => Within.pure ()
  | activateExtension =>
    change Within _ (answerActivateExtension env r)
    unfold answerActivateExtension
    split
    · exact Within.fail _
    · exact Within.fail _
    · refine Within.bind (Within.demand _ _) fun _ => ?_
      exact Within.bind (activateExtension_includes env all _ _ _) fun _ => Within.pure ()

/-- An event takes the entry on disk to one that the changes lead to. -/
theorem after_includes (e : Event) (w : Node) : G (w.kept name) ((e.after env w).kept name) := by
  have start : Descends G name (w.kept name) w.process :=
    Std.Refl.refl (r := G) (w.kept name)
  have reconciled : Triple (Descends G name (w.kept name)) (reconcileState env)
      ⟨fun _ => DescendsInMemory G name (w.kept name), fun _ => Descends G name (w.kept name),
        Descends G name (w.kept name)⟩ :=
    reconcileState_descends env (all.edits _) (all.edits _)
  have onDisk : ∀ {ε : Type} {m : Act ε Unit}, Keeps (DescendsInMemory G name (w.kept name)) m →
      Triple (DescendsInMemory G name (w.kept name)) m
        (Ends.always (Descends G name (w.kept name))) := fun h =>
    h.mono (fun _ => id) (fun _ _ => And.right) (fun _ _ => And.right) fun _ => And.right
  cases e with
  | boot osRelease bootEntries => exact Std.Refl.refl (r := G) (w.kept name)
  | command c arguments =>
    exact Outcome.meets_always.mp (locked_keeps env (fun _ _ => id) reconciled
      (onDisk (c.operation_includes env all arguments)) w.process start)
  | request c r =>
    exact Outcome.meets_always.mp (exclusive_keeps env (fun _ _ => id) reconciled
      (onDisk (c.operation_includes env all r)) w.process start)

theorem run_includes (events : List Event) (w : Node) :
    G (w.kept name) ((run env events w).kept name) := by
  induction events generalizing w with
  | nil => exact Std.Refl.refl (r := G) (w.kept name)
  | cons e events ih => exact IsTrans.trans _ _ _ (after_includes env all e w) (ih _)

end

/-- An entry whose fields do not contradict each other. -/
structure ExtensionState.Consistent (e : ExtensionState) : Prop where
  /-- What there is to fall back to was active once. -/
  fallback : e.knownGoodVersion.isSome = true → e.activeVersion.isSome = true
  /-- A refusal says why, and claims no health. -/
  refused : e.phase = .unrecoverable → e.lastFailure.isSome = true ∧ e.lastHealth = none
  /-- A recovery says what it recovered from. -/
  recovered : e.phase = .recovered →
    e.lastFailure.isSome = true ∧ e.lastHealth = some "recovered"
  reverting : e.phase = .reverting → e.lastFailure.isSome = true
  /-- What is active without a failure was seen healthy. -/
  active : e.phase = .active → e.lastFailure = none → e.lastHealth = some "healthy"
  distinct : e.completedRequests.Nodup
  bounded : e.completedRequests.length ≤ completedRequestHistory

theorem consistent_blank : ExtensionState.Consistent {} := by
  constructor <;> simp

theorem ExtensionState.Consistent.recordCompleted {e : ExtensionState} (h : e.Consistent)
    (id : String) : (e.recordCompleted id).Consistent := by
  unfold ExtensionState.recordCompleted
  split
  · exact h
  · rename_i fresh
    refine { h with distinct := ?_, bounded := ?_ }
    · refine List.Nodup.sublist (List.drop_sublist _ _) ?_
      rw [List.nodup_append]
      refine ⟨h.distinct, List.nodup_singleton _, ?_⟩
      rintro a there b last rfl
      exact fresh (List.contains_iff_mem.mpr (List.mem_singleton.mp last ▸ there))
    · rw [List.length_drop]
      have := h.bounded
      omega

theorem consistent_edits : IncludesAll (Preserves ExtensionState.Consistent) where
  edits := by
    intro o e e' edit h
    obtain ⟨fallback, refused, recovered, reverting, active, distinct, bounded⟩ := h
    cases edit
    case activating version requestId given =>
      refine ⟨?_, nofun, nofun, nofun, nofun, distinct, bounded⟩
      cases previous : e.activeVersion with
      | none =>
        intro known
        exact absurd (fallback (by simpa [ExtensionState.activating, previous] using known))
          (by simp [previous])
      | some version => simp [ExtensionState.activating, previous]
    case unstaged gone =>
      refine ⟨?_, ?_, ?_, ?_, ?_, distinct, bounded⟩
      · dsimp only
        split
        · nofun
        · exact fallback
      all_goals cases gone <;> nofun
    all_goals
      refine ⟨?_, ?_, ?_, ?_, ?_, distinct, bounded⟩ <;> first
        | assumption
        | simp [forgetVersions, State.forgetTerminal]
  commits := by
    intro e version requestId h
    have settled : ({ e with
        phase := .active
        terminalOsVersion := none
        activeVersion := some version
        candidateVersion := none
        lastHealth := some "healthy"
        lastFailure := none
        required := true } : ExtensionState).Consistent :=
      ⟨fun _ => rfl, nofun, nofun, nofun, fun _ _ => rfl, h.distinct, h.bounded⟩
    cases requestId with
    | none => exact settled
    | some id => exact settled.recordCompleted id

/-- In every run, on whatever bases it goes and wherever it is cut off, every entry on disk
is consistent. -/
theorem record_consistent (env : Environment) (w : Node) (new : w.stored = {})
    (events : List Event) {name : String} {e : ExtensionState}
    (recorded : (run env events w).stored.get name = some e) : e.Consistent := by
  have blank : w.kept name = {} := by
    rw [Node.kept, new]
    rfl
  have kept : (run env events w).kept name = e := by
    rw [Node.kept, recorded]
    rfl
  have reached := @run_includes _ _ name env consistent_edits events w
  rw [blank, kept] at reached
  exact reached consistent_blank

/-- The entry of an extension that was to be rolled back and had nothing to go back to. -/
def refusedEntry : ExtensionState where
  phase := .unrecoverable
  lastFailure := some "operator requested rollback; no known-good image to fall back to"
  terminalOsVersion := some "1"

theorem record_consistent_refused : refusedEntry.Consistent :=
  have recorded : (run (calm twoVersions) [.boot (some "VERSION_ID=1") [], .command .rollback ["n"]]
      (.with "1" [])).stored.get "n" = some refusedEntry := by decide +kernel
  record_consistent (calm twoVersions) (.with "1" []) rfl _ recorded

end CarbideOS.Agent
