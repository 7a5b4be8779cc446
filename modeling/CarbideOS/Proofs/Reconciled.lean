import CarbideOS.Proofs.Events

namespace CarbideOS.Agent
open Interruptible

/-! The reconcile only winds down: it stages nothing. -/

/-- Candidates and private copies can only go, and no entry is staged that was not. -/
structure WindsDown (w u : Node) : Prop where
  osRelease : u.osRelease = w.osRelease
  files : ∀ p : Path, p.place = .staging ∨ Text.endsWith p.name ".candidate" = true →
    u.readFile p = w.readFile p ∨ u.readFile p = none
  entries : ∀ name e, Entry u name e → e.phase = .staged → e.candidateVersion.isSome = true →
    Entry w name e

instance : IsPreorder Node WindsDown where
  refl _ := ⟨rfl, fun _ _ => Or.inl rfl, fun _ _ h _ _ => h⟩
  trans _ _ _ h h' := by
    refine ⟨h'.osRelease.trans h.osRelease, fun p hp => ?_, fun name e he staged some =>
      h.entries name e (h'.entries name e he staged some) staged some⟩
    rcases h'.files p hp with same | gone
    · rw [same]
      exact h.files p hp
    · exact Or.inr gone

section
variable (env : Environment) {ε α : Type} {name : String} {w u : Node}

theorem WindsDown.refl (w : Node) : WindsDown w w := Std.Refl.refl w

theorem WindsDown.of_record (record : SameRecord w u)
    (files : ∀ p : Path, p.place = .staging ∨ Text.endsWith p.name ".candidate" = true →
      u.readFile p = w.readFile p ∨ u.readFile p = none) : WindsDown w u := by
  refine ⟨record.osRelease, files, fun name e he _ _ => ?_⟩
  rwa [Entry, ← record.memory, ← record.stored]

theorem WindsDown.tick (h : WindsDown w u) : WindsDown w u.tick := by
  refine ⟨h.osRelease, fun p hp => ?_, h.entries⟩
  rw [readFile_tick]
  exact h.files p hp

theorem quiet_windsDown {m : Act ε α} (h : Quiet m) : Within WindsDown m := by
  refine (Returns.within h).mono ?_
  rintro w _ ⟨t, rfl⟩
  exact .of_record ⟨rfl, rfl, rfl, rfl⟩ fun p _ => Or.inl (Node.clock_readFile w t p)

/-- An edit that stages nothing. -/
theorem entry_windsDown {f : ExtensionState → ExtensionState}
    (hf : ∀ e, (f e).phase = .staged → (f e).candidateVersion = none) :
    Within WindsDown (Act.entry name f : Act ε Unit) := by
  intro w
  refine ⟨rfl, fun _ _ => Or.inl rfl, fun other e he staged some => ?_⟩
  have he : Entry (w.edit name f) other e := he
  rcases he with he | he
  · by_cases own : other = name
    · rw [own, edit_entry] at he
      cases he
      rw [hf _ staged] at some
      cases some
    · rw [edit_other w own] at he
      exact Or.inl he
  · exact Or.inr he

theorem store_windsDown : Within WindsDown (store env) := by
  have saved : ∀ w : Node, WindsDown w w.saved := fun w =>
    ⟨rfl, fun p _ => Or.inl (Node.clock_readFile _ _ p), fun _ _ he _ _ => Or.inl (he.elim id id)⟩
  apply Act.durable_within
  · exact saved
  · intro w reached leftover
    split
    · exact saved w
    · exact (WindsDown.refl w).tick

theorem sysextRefresh_windsDown : Within WindsDown (sysextRefresh env) := by
  intro w
  unfold sysextRefresh
  dsimp only
  split <;> exact .of_record ⟨rfl, rfl, rfl, rfl⟩ fun p _ => Or.inl (Node.clock_readFile _ _ p)

theorem pruneMatchingIn_windsDown (place : Place) (start finish : String) (keep : Option String) :
    Within WindsDown (pruneMatchingIn env place start finish keep) := by
  have swept : ∀ (w : Node) (test : String → Bool), WindsDown w (w.sweep place test) := by
    intro w test
    refine .of_record (SameRecord.setDir w _ _) fun p _ => ?_
    rw [Node.readFile_sweep]
    split
    · exact Or.inr rfl
    · exact Or.inl rfl
  unfold pruneMatchingIn
  apply Act.durable_within
  · exact fun w => (swept w _).tick
  · exact fun w _ _ => (swept w _).tick

theorem durableRemove_windsDown (p : Path) : Within WindsDown (durableRemove env p) := by
  have unlinked : ∀ w : Node, WindsDown w (w.unlink p) := by
    intro w
    refine .of_record (SameRecord.setDir w _ _) fun q _ => ?_
    rw [Node.readFile_unlink]
    split
    · exact Or.inr rfl
    · exact Or.inl rfl
  refine Within.read fun w => ?_
  split
  · apply Act.durable_within
    · exact fun w => (unlinked w).tick
    · intro w reached leftover
      split
      · exact (unlinked w).tick
      · exact (WindsDown.refl w).tick
  · exact Within.pure ()

/-- An image is installed over the active one, which is no candidate. -/
theorem installActive_windsDown (source : Path) :
    Within WindsDown (installActive env source name) := by
  refine Within.read fun w => Within.bind ?_ fun _ => ?_
  · refine Within.read fun v => ?_
    dsimp only
    split
    · exact durableRemove_windsDown env _
    · exact Within.pure ()
  · refine Within.read fun v => ?_
    cases v.readFile source with
    | none => exact Within.fail _
    | some bytes =>
      intro x
      refine .of_record (durablePublish_record env bytes _ x) fun p hp => Or.inl ?_
      have other : p ≠ scopedActivePath name w.scope := by
        rintro rfl
        rcases hp with place | finish
        · cases place
        · exact ne_of_endings (endsWith_raw_scoped name _) finish (by decide) rfl
      have published : p ≠ Node.temporary (scopedActivePath name w.scope) := by
        rintro rfl
        rcases hp with place | finish
        · cases place
        · exact ne_of_endings (endsWith_new_temporary _) finish (by decide) rfl
      exact (durablePublish_reads published x).resolve_right fun h => other h.1

theorem terminal_windsDown (reason : String) : Within WindsDown (terminal env name reason) := by
  refine Within.bind ?_ fun _ => Within.bind (Within.mapError (store_windsDown env)) fun _ =>
    Within.fail _
  exact Within.read fun w => entry_windsDown fun e h => nomatch h

theorem restoreKnownGood_windsDown (reason version : String) (image : Path) :
    Within WindsDown (restoreKnownGood env name reason version image) := by
  refine Within.bind (quiet_windsDown (stopMerged_quiet env name)) fun _ => ?_
  refine Within.bind (Within.mapError (installActive_windsDown env image)) fun _ => ?_
  refine Within.bind (Within.mapError (sysextRefresh_windsDown env)) fun _ => ?_
  refine Within.bind (Within.mapError (quiet_windsDown (daemonReload_quiet env))) fun _ => ?_
  refine Within.bind (Within.mapError (quiet_windsDown (loadNamed_quiet env name))) fun r => ?_
  exact Within.mapError (quiet_windsDown (healthyNow_quiet env r))

theorem pruneCandidates_windsDown (keep : Option String) :
    Within WindsDown (pruneCandidates env name keep) :=
  Within.read fun _ => pruneMatchingIn_windsDown env _ _ _ _

theorem pruneRollbacks_windsDown (keep : Option String) :
    Within WindsDown (pruneRollbacks env name keep) :=
  Within.read fun _ => pruneMatchingIn_windsDown env _ _ _ _

theorem concludeRecovery_windsDown (reason version : String) :
    Within WindsDown (concludeRecovery env name reason version) := by
  refine Within.bind (entry_windsDown fun e h => nomatch h) fun _ => ?_
  refine Within.bind (Within.mapError (store_windsDown env)) fun _ => ?_
  refine Within.bind (Within.attempt (pruneCandidates_windsDown env _)) fun _ => ?_
  exact Within.bind (Within.attempt (pruneRollbacks_windsDown env _)) fun _ => Within.pure ()

theorem revertTo_windsDown (reason version : String) (image : Path) :
    Within WindsDown (revertTo env name reason version image) := by
  refine Within.bind (entry_windsDown fun e h => nomatch h) fun _ => ?_
  refine Within.bind (Within.mapError (store_windsDown env)) fun _ => ?_
  refine Within.bind (Within.attempt (restoreKnownGood_windsDown env _ _ _)) fun restored => ?_
  cases restored with
  | ok _ => exact concludeRecovery_windsDown env reason version
  | error message => exact terminal_windsDown env message

theorem recover_windsDown (reason : String) : Within WindsDown (recover env name reason) := by
  refine Within.read fun w => ?_
  cases (w.memory.get name).bind ExtensionState.knownGoodVersion with
  | none => exact terminal_windsDown env _
  | some version =>
    dsimp only
    split
    · exact revertTo_windsDown env reason version _
    · exact terminal_windsDown env _

theorem completeRemoval_windsDown : Within WindsDown (completeRemoval env name) := by
  refine Within.bind (quiet_windsDown (stopMerged_quiet env name)) fun _ => ?_
  refine Within.bind ?_ fun _ => ?_
  · exact Within.read fun w => Within.bind (durableRemove_windsDown env _) fun _ =>
      durableRemove_windsDown env _
  refine Within.bind (sysextRefresh_windsDown env) fun _ => ?_
  refine Within.bind (quiet_windsDown (daemonReload_quiet env)) fun _ => ?_
  refine Within.bind (pruneCandidates_windsDown env _) fun _ => ?_
  refine Within.bind (pruneRollbacks_windsDown env _) fun _ => ?_
  exact entry_windsDown fun e h => nomatch h

theorem reportCandidates_windsDown : Within WindsDown (reportCandidates env name : Act ε _) :=
  report_within (pruneCandidates_windsDown env none) _

theorem reconcileStaged_windsDown (candidate : Option String) :
    Within WindsDown (reconcileStaged name candidate : Act ε _) := by
  refine Within.read fun w => ?_
  split
  · exact Within.pure _
  · exact Within.bind (entry_windsDown fun e _ => rfl) fun _ => Within.pure _

theorem reconcileActive_windsDown : Within WindsDown (reconcileActive env name : Act ε _) := by
  refine Within.read fun w => ?_
  split
  · exact reportCandidates_windsDown env
  · split
    · refine Within.bind (report_within (recover_windsDown env _) _) fun _ => ?_
      exact Within.bind (reportCandidates_windsDown env) fun _ => Within.pure _
    · exact Within.bind (entry_windsDown fun e _ => rfl) fun _ => reportCandidates_windsDown env

theorem reconcileIdle_windsDown : Within WindsDown (reconcileIdle env name : Act ε _) := by
  refine Within.read fun w => ?_
  split
  · exact Within.bind (entry_windsDown fun e _ => rfl) fun _ => reportCandidates_windsDown env
  · exact reportCandidates_windsDown env

theorem reconcileEntry_windsDown (s : Snapshot) :
    Within WindsDown (reconcileEntry env s : Act ε _) := by
  refine Within.bind ?_ fun _ => Within.bind (report_within (pruneRollbacks_windsDown env _) _)
    fun _ => Within.pure _
  have recovered : ∀ reason message,
      Within WindsDown (report message (recover env s.name reason) : Act ε _) :=
    fun reason _ => report_within (recover_windsDown env reason) _
  unfold reconcilePhase
  dsimp only
  split
  · exact reconcileStaged_windsDown _
  · exact recovered _ _
  · exact recovered _ _
  · exact recovered _ _
  · exact recovered _ _
  · exact report_within (completeRemoval_windsDown env) _
  · exact reconcileActive_windsDown env
  · exact reconcileActive_windsDown env
  · exact reconcileIdle_windsDown env
  · exact reportCandidates_windsDown env

theorem removeOrphans_windsDown (kept orphans : List Path) :
    Within WindsDown (removeOrphans env kept orphans : Act ε _) := by
  induction orphans with
  | nil => exact Within.pure _
  | cons p rest ih =>
    unfold removeOrphans
    split
    · exact ih
    · refine Within.bind (report_within (durableRemove_windsDown env p) _) fun _ => ?_
      exact Within.bind ih fun _ => Within.pure _

theorem reconcileOrphans_windsDown (kept : List Path) :
    Within WindsDown (reconcileOrphans env kept : Act ε _) := by
  have listed : Quiet (Prog.attempt (candidateFiles env) : Act ε _) :=
    Returns.attempt (candidateFiles_quiet env)
  refine Within.bind (quiet_windsDown listed) fun found => ?_
  cases found with
  | ok candidates => exact removeOrphans_windsDown env kept candidates
  | error e => exact Within.pure _

theorem reconcileRecord_windsDown : Within WindsDown (reconcileRecord env) := by
  refine Within.read fun w => ?_
  refine Within.bind (reconcileEntries_within env fun s _ => reconcileEntry_windsDown env s)
    fun _ => ?_
  refine Within.bind (reconcileOrphans_windsDown env _) fun _ => ?_
  exact Within.bind (store_windsDown env) fun _ => Within.demand _ _

theorem recall_windsDown (w : Node) : WindsDown w w.recall := by
  refine ⟨rfl, fun p _ => Or.inl (readFile_tick w p), fun name e he staged _ => ?_⟩
  rcases he with he | he
  · obtain ⟨d, recorded, rfl | ⟨-, rfl⟩⟩ := remembered_entry he
    · exact Or.inr recorded
    · cases staged
  · exact Or.inr he

theorem reconcileState_windsDown : Within WindsDown (reconcileState env) := by
  refine Within.bind (Within.mapError ?_) fun _ => Within.bind ?_ fun _ =>
    reconcileRecord_windsDown env
  · exact Within.bind (pruneMatchingIn_windsDown env _ _ _ _) fun _ =>
      pruneMatchingIn_windsDown env _ _ _ _
  · intro w
    rw [loadForgetting_apply]
    cases env.unreadable .state w with
    | none => exact recall_windsDown w
    | some error => exact (WindsDown.refl w).tick

end
end CarbideOS.Agent
