import CarbideOS.Agent.Commands
import CarbideOS.Proofs.Beside

namespace CarbideOS.Agent
open Interruptible

section Work
variable (env : Environment) {ε : Type} {α : Type} {name : String}

theorem Steady.refl (w : Node) : Steady name w w := Std.Refl.refl w

theorem own_steady {m : Act ε α} (h : Within (OwnFiles name) m) : Within (Steady name) m :=
  h.mono fun _ _ => OwnFiles.steady

theorem quiet_steady {m : Act ε α} (h : Quiet m) : Within (Steady name) m :=
  own_steady h.own

theorem sober_of_steady {m : Act ε α} (h : Within (Steady name) m) :
    Within (Sober name) m :=
  h.mono fun _ _ hs => hs.toSober

theorem beside_of_sober {m : Act ε α} (h : Within (Sober name) m) :
    Within (Beside name) m :=
  h.mono fun _ _ hs => hs.toBeside

theorem beside_of_steady {m : Act ε α} (h : Within (Steady name) m) :
    Within (Beside name) m :=
  beside_of_sober (sober_of_steady h)

theorem quiet_beside {m : Act ε α} (h : Quiet m) : Within (Beside name) m :=
  beside_of_steady (quiet_steady h)

theorem aside_of_beside {m : Act ε α} (h : Within (Beside name) m) :
    Within (Aside name) m :=
  h.mono fun _ _ => Beside.aside

theorem tame_of_steady {m : Act ε α} (h : Within (Steady name) m) :
    Within (Tame name) m :=
  h.mono fun _ _ => Steady.tame

theorem entry_beside (f : ExtensionState → ExtensionState) :
    Within (Beside name) (Act.entry name f : Act ε Unit) := by
  intro w
  refine ⟨⟨rfl, fun _ _ _ => rfl, fun _ _ _ => rfl⟩, ?_, ?_⟩
  · intro other ho
    exact edit_other w ho f
  · exact fun _ _ => Or.inl rfl

/-- An edit that carries the entry. -/
theorem edit_steady (w : Node) {f : ExtensionState → ExtensionState} (hf : ∀ e, Carries e (f e)) :
    Steady name w (w.edit name f) := by
  refine ⟨⟨entry_beside (ε := Unit) f w, ?_, fun _ _ => Or.inl rfl⟩, fun _ _ => rfl⟩
  intro e he
  rcases he with he | he
  · rw [edit_entry] at he
    cases he
    refine ⟨(w.memory.get name).getD {}, ?_, hf _⟩
    cases hg : w.memory.get name with
    | none => exact Or.inl rfl
    | some e => exact Or.inr (Or.inl hg)
  · exact ⟨e, Or.inr (Or.inr he), Or.inr ⟨rfl, id⟩⟩

theorem entry_steady {f : ExtensionState → ExtensionState} (hf : ∀ e, Carries e (f e)) :
    Within (Steady name) (Act.entry name f : Act ε Unit) :=
  fun w => edit_steady w hf

theorem note_steady (image : Option Bytes) (verdict : Verdict) :
    Within (Steady name) (Act.note name image verdict : Act ε Unit) := by
  intro w
  cases image with
  | none => exact Steady.refl w
  | some x =>
    refine ⟨⟨⟨⟨rfl, fun _ _ _ => rfl, fun other ho y => ?_⟩, fun _ _ => rfl, fun _ _ => Or.inl rfl⟩,
      ?_, fun _ _ => Or.inl rfl⟩, fun _ _ => rfl⟩
    · have hn : (name == other && x == y) = false := by
        simp only [Bool.and_eq_false_iff, beq_eq_false_iff_ne]
        exact Or.inl fun h => ho h.symm
      change ((⟨name, x, verdict⟩ :: w.history).find? _).map Trial.verdict = _
      rw [List.find?_cons, hn]
      rfl
    · exact Std.Refl.refl (r := EntriesCarried name) w

theorem saved_steady (w : Node) : Steady name w w.saved := by
  refine ⟨⟨⟨⟨rfl, fun _ _ _ => rfl, fun _ _ _ => rfl⟩, fun _ _ => rfl, fun _ _ => Or.inr rfl⟩,
    ?_, fun _ _ => Or.inl rfl⟩, fun _ _ => rfl⟩
  intro e he
  exact ⟨e, Or.inr (Or.inl (he.elim id id)), Or.inr ⟨rfl, id⟩⟩

theorem store_steady : Within (Steady name) (store env) := by
  apply Act.durable_within
  · exact saved_steady
  · intro w reached leftover
    split
    · exact saved_steady w
    · exact (OwnFiles.refl w).tick.steady

theorem sysextRefresh_steady : Within (Steady name) (sysextRefresh env) := by
  have changed : ∀ w : Node, Steady name w { w with merged := (env.refresh w).2 }.tick := by
    intro w
    exact ⟨⟨⟨⟨rfl, fun _ _ _ => rfl, fun _ _ _ => rfl⟩, fun _ _ => rfl, fun _ _ => Or.inl rfl⟩,
      Std.Refl.refl (r := EntriesCarried name) w, fun _ _ => Or.inl rfl⟩, fun _ _ => rfl⟩
  intro w
  unfold sysextRefresh
  dsimp only
  split <;> exact changed w

theorem pruneRollbacks_sober (keep : Option String) :
    Within (Sober name) (pruneRollbacks env name keep) := by
  intro w
  have hc : Confined (Retained name w.scope) w _ := pruneRollbacks_confined env keep w
  exact ⟨retains_beside hc, hc.toSameRecord.carried name, fun f _ =>
    pruneMatchingIn_shrinks env _ _ _ f w⟩

theorem recordFailure_steady (reason : String) :
    Within (Steady name) (recordFailure name reason : Act ε Unit) :=
  Within.read fun _ => entry_steady fun _ => Or.inr ⟨rfl, id⟩

theorem terminal_steady (reason : String) : Within (Steady name) (terminal env name reason) :=
  Within.bind (recordFailure_steady reason) fun _ =>
    Within.bind (Within.mapError (store_steady env)) fun _ => Within.fail _

theorem restoreKnownGood_steady (reason version : String) (image : Path) :
    Within (Steady name) (restoreKnownGood env name reason version image) := by
  refine Within.bind (quiet_steady (stopMerged_quiet env name)) fun _ => ?_
  refine Within.bind (Within.mapError (own_steady (installActive_own env image))) fun _ => ?_
  refine Within.bind (Within.mapError (sysextRefresh_steady env)) fun _ => ?_
  refine Within.bind (Within.mapError (quiet_steady (daemonReload_quiet env))) fun _ => ?_
  refine Within.bind (Within.mapError (quiet_steady (loadNamed_quiet env name))) fun r => ?_
  exact Within.mapError (quiet_steady (healthyNow_quiet env r))

theorem reverting_steady (reason : String) (w : Node) :
    Steady name w (w.reverting name reason) :=
  edit_steady w fun _ => Or.inr ⟨rfl, id⟩

theorem recovered_steady (reason version : String) (w : Node) :
    Steady name w (w.recovered name reason version) :=
  edit_steady w fun _ => Or.inr ⟨rfl, fun _ => rfl⟩

theorem concludeRecovery_sober (reason version : String) :
    Within (Sober name) (concludeRecovery env name reason version) := by
  refine Within.bind (sober_of_steady (entry_steady fun _ => Or.inr ⟨rfl, fun _ => rfl⟩))
    fun _ => ?_
  refine Within.bind (sober_of_steady (Within.mapError (store_steady env))) fun _ => ?_
  refine Within.bind (sober_of_steady (Within.attempt
    (own_steady (pruneCandidates_own env _)))) fun _ => ?_
  refine Within.bind (Within.attempt (pruneRollbacks_sober env _)) fun _ => ?_
  exact Within.pure ()

theorem revertTo_sober (reason version : String) (image : Path) :
    Within (Sober name) (revertTo env name reason version image) := by
  refine Within.bind (sober_of_steady (entry_steady fun _ => Or.inr ⟨rfl, id⟩)) fun _ => ?_
  refine Within.bind (sober_of_steady (Within.mapError (store_steady env))) fun _ => ?_
  refine Within.bind (sober_of_steady (Within.attempt
    (restoreKnownGood_steady env reason version image))) fun r => ?_
  cases r with
  | error message => exact sober_of_steady (terminal_steady env message)
  | ok _ => exact concludeRecovery_sober env reason version

theorem recover_sober (reason : String) : Within (Sober name) (recover env name reason) := by
  refine Within.read fun w => ?_
  cases (w.memory.get name).bind ExtensionState.knownGoodVersion with
  | none => exact sober_of_steady (terminal_steady env _)
  | some version =>
    dsimp only
    split
    · exact revertTo_sober env reason version _
    · exact sober_of_steady (terminal_steady env _)

theorem adoptActive_beside (version : String) :
    Within (Beside name) (adoptActive env name version) := by
  refine Within.bind (Within.mapError (quiet_beside (loadNamed_quiet env name))) fun r => ?_
  refine Within.read fun w => ?_
  refine Within.bind (Within.demand _ _) fun _ => ?_
  refine Within.bind (Within.mapError (quiet_beside (healthyNow_quiet env r))) fun _ => ?_
  refine Within.bind (Within.mapError fun u => retains_beside (retainActive_retains env version u))
    fun _ => ?_
  refine Within.bind (entry_beside _) fun _ => ?_
  exact Within.mapError (beside_of_steady (store_steady env))

theorem retainHealthy_beside (version : String) (ruleset : Ruleset) :
    Within (Beside name) (retainHealthy env name version ruleset) := by
  refine Within.bind (quiet_beside (soak_quiet env ruleset)) fun _ => ?_
  refine Within.read_at fun w => ?_
  have note : Within (Beside name)
      (Act.note name (w.mergedImage name) .soaked : Act String _) :=
    beside_of_steady (note_steady _ _)
  refine Within.bind_at (note w) fun _ u hu => ?_
  refine Within.bind_at ?_ fun _ v _ => entry_beside _ v
  rw [Prog.mapError_state]
  exact retains_beside (durableCopy_retains env (note.of_ok hu).scope _)

theorem retainMerged_beside (ruleset : Ruleset) :
    Within (Beside name) (retainMerged env name ruleset) := by
  refine Within.bind (quiet_beside (mergedVersion_quiet env name)) fun version => ?_
  cases version with
  | none => exact Within.pure ()
  | some version =>
    refine Within.read fun w => ?_
    dsimp only
    split
    · exact retainHealthy_beside env version ruleset
    · exact Within.pure ()

theorem recordHealthy_steady : Within (Steady name) (recordHealthy name : Act ε Unit) :=
  entry_steady fun _ => Or.inr ⟨rfl, id⟩

theorem verifyOrRecover_beside (merged : List String) :
    Within (Beside name) (verifyOrRecover env name merged) := by
  refine Within.read fun w => ?_
  split
  · exact Within.fail _
  · refine Within.bind (Within.attempt (quiet_beside (loadNamed_quiet env name))) fun r => ?_
    cases r with
    | error e => exact beside_of_sober (recover_sober env _)
    | ok ruleset =>
      dsimp only
      split
      · exact beside_of_sober (recover_sober env _)
      · refine Within.bind (Within.attempt (quiet_beside (healthyNow_quiet env ruleset)))
          fun h => ?_
        cases h with
        | error reason => exact beside_of_sober (recover_sober env reason)
        | ok _ => exact Within.bind (retainMerged_beside env ruleset) fun _ => entry_beside _

theorem completeRemoval_sober : Within (Sober name) (completeRemoval env name) := by
  have steady : ∀ {m : Act String Unit}, Within (Steady name) m → Within (Sober name) m :=
    fun h => sober_of_steady h
  refine Within.bind (steady (quiet_steady (stopMerged_quiet env name))) fun _ => ?_
  refine Within.bind (steady (own_steady (removeActive_own env))) fun _ => ?_
  refine Within.bind (steady (sysextRefresh_steady env)) fun _ => ?_
  refine Within.bind (steady (quiet_steady (daemonReload_quiet env))) fun _ => ?_
  refine Within.bind (steady (own_steady (pruneCandidates_own env _))) fun _ => ?_
  refine Within.bind (pruneRollbacks_sober env _) fun _ => ?_
  exact steady (entry_steady fun _ => Or.inl rfl)

theorem report_within {R : Node → Node → Prop} [IsPreorder Node R] {m : Act String Unit}
    (h : Within R m) (message : String → String) :
    Within R (report message m : Act ε (List String)) := by
  refine Within.bind (Within.attempt h) fun r => ?_
  cases r <;> exact Within.pure _

theorem reportCandidates_steady : Within (Steady name) (reportCandidates env name : Act ε _) :=
  report_within (own_steady (pruneCandidates_own env _)) _

theorem reconcileStaged_steady (candidate : Option String) :
    Within (Steady name) (reconcileStaged name candidate : Act ε _) := by
  refine Within.read fun w => ?_
  split
  · exact Within.pure _
  · refine Within.bind (entry_steady fun e => ?_) fun _ => Within.pure _
    dsimp only [Carries]
    split
    · exact Or.inl rfl
    · exact Or.inr ⟨rfl, id⟩

theorem reconcileActive_sober : Within (Sober name) (reconcileActive env name : Act ε _) := by
  have candidates : Within (Sober name) (reportCandidates env name : Act ε _) :=
    sober_of_steady (reportCandidates_steady env)
  refine Within.read fun w => ?_
  split
  · exact candidates
  · split
    · refine Within.bind (report_within (recover_sober env _) _) fun _ => ?_
      exact Within.bind candidates fun _ => Within.pure _
    · exact Within.bind (sober_of_steady (entry_steady fun _ => Or.inl rfl)) fun _ =>
        candidates

theorem reconcileIdle_steady : Within (Steady name) (reconcileIdle env name : Act ε _) := by
  refine Within.read fun w => ?_
  split
  · exact Within.bind (entry_steady fun _ => Or.inl rfl) fun _ => reportCandidates_steady env
  · exact reportCandidates_steady env

theorem reconcilePhase_sober (s : Snapshot) :
    Within (Sober s.name) (reconcilePhase env s : Act ε _) := by
  unfold reconcilePhase
  dsimp only
  split
  · exact sober_of_steady (reconcileStaged_steady _)
  · exact report_within (recover_sober env _) _
  · exact report_within (recover_sober env _) _
  · exact report_within (recover_sober env _) _
  · exact report_within (recover_sober env _) _
  · exact report_within (completeRemoval_sober env) _
  · exact reconcileActive_sober env
  · exact reconcileActive_sober env
  · exact sober_of_steady (reconcileIdle_steady env)
  · exact sober_of_steady (reportCandidates_steady env)

theorem reconcileEntry_sober (s : Snapshot) :
    Within (Sober s.name) (reconcileEntry env s : Act ε _) := by
  refine Within.bind (reconcilePhase_sober env s) fun _ => ?_
  refine Within.bind (report_within (pruneRollbacks_sober env _) _) fun _ => ?_
  exact Within.pure _

theorem failedAt_within {R : Node → Node → Prop} {m : Act String α} (h : Within R m)
    (stage : Stage) : Within R (failedAt stage m) :=
  Within.mapError h

theorem adoptUnrecorded_beside : Within (Beside name) (adoptUnrecorded env name) := by
  refine Within.read fun w => ?_
  split
  · refine Within.bind (quiet_beside (mergedVersion_quiet env name)) fun version => ?_
    cases version with
    | none => exact Within.pure ()
    | some current =>
      refine Within.bind (Within.attempt (adoptActive_beside env current)) fun r => ?_
      rcases r with (e | e) | _
      · exact Within.pure ()
      · exact Within.fail _
      · exact Within.pure ()
  · exact Within.pure ()

theorem retainOutgoing_retains (previous : Option String) (w : Node) :
    Confined (Retained name w.scope) w (retainOutgoing env name previous w).state := by
  rw [retainOutgoing, read_apply]
  cases previous with
  | none => exact Confined.refl w
  | some version =>
    dsimp only
    split
    · rw [Prog.mapError_state]
      exact durableCopy_retains env rfl _
    · exact Confined.refl w

/-- The record of an activation that is about to replace the active image. -/
def ExtensionState.activating (version : String) (requestId previous : Option String)
    (e : ExtensionState) : ExtensionState :=
  { e with
    candidateVersion := some version
    requestId := requestId
    phase := .activating
    knownGoodVersion := match previous with
      | some p => some p
      | none => e.knownGoodVersion }

def Node.activating (w : Node) (name version : String) (requestId previous : Option String) :
    Node :=
  w.edit name (ExtensionState.activating version requestId previous)

theorem recordActivating_apply (version : String) (requestId previous : Option String) (w : Node) :
    recordActivating env name version requestId previous w =
      failedAt .staging (store env) (w.activating name version requestId previous) := rfl

theorem recordActivating_beside (version : String) (requestId previous : Option String) :
    Within (Beside name) (recordActivating env name version requestId previous) :=
  Within.bind (entry_beside _) fun _ =>
    failedAt_within (beside_of_steady (store_steady env)) _

theorem promote_steady (candidate : Path) :
    Within (Steady name) (promote env name candidate) := by
  refine Within.bind (Within.mapError (quiet_steady (stopCurrent_quiet env name))) fun _ => ?_
  refine Within.bind (Within.mapError (own_steady (installActive_own env _))) fun _ => ?_
  refine Within.bind (Within.mapError (sysextRefresh_steady env)) fun _ => ?_
  refine Within.bind (Within.mapError (quiet_steady (daemonReload_quiet env))) fun _ => ?_
  exact Within.mapError (quiet_steady (loadNamed_quiet env name))

theorem judged_steady (image : Option Bytes) {m : Act String Unit} (h : Quiet m)
    (setback : String → Setback) : Within (Steady name) (judged name image m setback) := by
  refine Within.bind (Within.attempt (quiet_steady h)) fun r => ?_
  cases r with
  | ok _ => exact Within.pure ()
  | error reason => exact Within.bind (note_steady _ _) fun _ => Within.fail _

theorem prove_steady (image : Option Bytes) (ruleset : Ruleset) :
    Within (Steady name) (prove env name image ruleset) := by
  refine Within.bind (entry_steady fun _ => Or.inr ⟨rfl, id⟩) fun _ => ?_
  refine Within.bind (Within.mapError (store_steady env)) fun _ => ?_
  refine Within.bind (judged_steady _ (waitUntilReady_quiet env _) _) fun _ => ?_
  refine Within.bind (entry_steady fun _ => Or.inr ⟨rfl, id⟩) fun _ => ?_
  refine Within.bind (Within.mapError (store_steady env)) fun _ => ?_
  refine Within.bind (judged_steady _ (soak_quiet env _) _) fun _ => ?_
  exact note_steady _ _

/-- The record of a proven candidate. -/
def Node.committed (w : Node) (name version : String) (requestId : Option String) : Node :=
  w.edit name fun e =>
    let e := { e with
      phase := .active
      terminalOsVersion := none
      activeVersion := some version
      candidateVersion := none
      lastHealth := some "healthy"
      lastFailure := none
      required := true }
    match requestId with
    | some id => e.recordCompleted id
    | none => e

/-- A commit that cannot be written leaves the record in memory as it was. -/
theorem commit_apply (version : String) (requestId : Option String) (unit : String) (w : Node) :
    commit env name version requestId unit w =
      match store env (w.committed name version requestId) with
      | .ok _ u => .ok () u
      | .error e u =>
        .error ⟨s!"could not commit active state: {e}", .activating, some unit⟩
          { u with memory := w.memory }
      | .halt u => .halt u := by
  rw [commit, read_apply, Prog.bind_of_ok (Act.entry_apply _ _ _)]
  cases h : store env (w.committed name version requestId) with
  | ok a u => exact Prog.bind_of_ok (Prog.attempt_eq_ok.mpr (Or.inl ⟨a, rfl, h⟩)) _
  | error e u => exact Prog.bind_of_ok (Prog.attempt_eq_ok.mpr (Or.inr ⟨e, rfl, h⟩)) _
  | halt u => exact Prog.bind_of_halt (Prog.attempt_eq_halt.mpr h) _

theorem committed_steady (version : String) (requestId : Option String) (w : Node) :
    Steady name w (w.committed name version requestId) := by
  refine edit_steady w fun _ => Or.inr ?_
  cases requestId with
  | none => exact ⟨rfl, fun _ => rfl⟩
  | some id =>
    dsimp only [ExtensionState.recordCompleted]
    split <;> exact ⟨rfl, fun _ => rfl⟩

theorem commit_steady (version : String) (requestId : Option String) (unit : String) :
    Within (Steady name) (commit env name version requestId unit) := by
  intro w
  have he : Steady name w _ := committed_steady version requestId w
  rw [commit_apply]
  have hs : Steady name _ _ := store_steady env (w.committed name version requestId)
  cases h : store env (w.committed name version requestId) with
  | ok a u =>
    rw [h] at hs
    exact IsTrans.trans _ _ _ he hs
  | halt u =>
    rw [h] at hs
    exact IsTrans.trans _ _ _ he hs
  | error e u =>
    rw [h] at hs
    have hb : Steady name w u := IsTrans.trans _ _ _ he hs
    refine ⟨⟨⟨⟨hb.osRelease, hb.files, hb.standing⟩, fun _ _ => rfl, hb.stored⟩, ?_,
      hb.shrinks⟩, hb.same⟩
    rintro e (he | he)
    · exact ⟨e, Or.inr (Or.inl he), Or.inr ⟨rfl, id⟩⟩
    · exact hb.carried e (Or.inr he)

theorem tryCandidate_steady (version : String) (requestId : Option String) (candidate : Path) :
    Within (Steady name) (tryCandidate env name version requestId candidate) := by
  refine Within.read fun w => ?_
  refine Within.bind (note_steady _ _) fun _ => ?_
  refine Within.bind (promote_steady env candidate) fun ruleset => ?_
  refine Within.bind (prove_steady env _ ruleset) fun _ => ?_
  exact commit_steady env version requestId _

theorem revertSetback_sober (setback : Setback) :
    Within (Sober name) (revertSetback env name setback) := by
  refine Within.bind (sober_of_steady (quiet_steady (journalLines_quiet env _)))
    fun log => ?_
  refine Within.bind (Within.attempt (recover_sober env _)) fun r => ?_
  cases r <;> exact Within.fail _

theorem activateRecorded_sober (version : String) (requestId previous : Option String)
    (candidate : Path) :
    Within (Sober name) (activateRecorded env name version requestId previous candidate) := by
  refine Within.bind (sober_of_steady (Within.attempt
    (tryCandidate_steady env version requestId candidate))) fun r => ?_
  cases r with
  | error setback => exact revertSetback_sober env setback
  | ok _ =>
    refine Within.bind (sober_of_steady (Within.attempt
      (own_steady (pruneCandidates_own env _)))) fun _ => ?_
    refine Within.bind (Within.attempt (pruneRollbacks_sober env _)) fun _ => ?_
    exact Within.pure _

theorem activateCandidate_beside (version : String) (requestId : Option String) :
    Within (Beside name) (activateCandidate env name version requestId) := by
  refine Within.bind (adoptUnrecorded_beside env) fun _ => ?_
  refine Within.read fun w => ?_
  refine Within.bind (failedAt_within (quiet_beside (fileSize_quiet env _)) _) fun _ => ?_
  refine Within.bind (quiet_beside (outgoingSize_quiet env _ _)) fun _ => ?_
  refine Within.bind (quiet_beside (requireActivationSpace_quiet env _)) fun _ => ?_
  refine Within.bind (fun u => retains_beside (retainOutgoing_retains env _ u)) fun _ => ?_
  refine Within.bind (recordActivating_beside env _ _ _) fun _ => ?_
  exact beside_of_sober (activateRecorded_sober env _ _ _ _)

/-- Taking the record from disk. -/
theorem hold_stored_tame (w : Node) : Tame name w { w with memory := w.stored } := by
  refine ⟨⟨⟨rfl, fun _ _ _ => rfl, fun _ _ _ => rfl⟩, fun _ _ => Or.inr rfl,
    fun _ _ => Or.inl rfl⟩, ?_, fun _ _ => rfl⟩
  intro e he
  exact ⟨e, Or.inr (Or.inr (he.elim id id)), Or.inr ⟨rfl, id⟩⟩

/-- A program that works on the record it finds on disk. -/
theorem loaded_within {R : Node → Node → Prop} [IsPreorder Node R]
    (ht : ∀ w u, Tame name w u → R w u) {f : State → Act ε α} {load : Act ε State}
    (hl : ∀ w s u, load w = .ok s u → s = w.stored) (hq : Quiet load)
    (hf : ∀ s, Within R (f s)) :
    Within R (load >>= fun s => Act.hold s >>= fun _ => f s) := by
  intro w
  refine Within.bind_at (ht _ _ (quiet_steady hq w).tame) fun s u hu => ?_
  obtain ⟨t, rfl⟩ := hq.of_ok hu
  have hs := hl w s _ hu
  subst hs
  rw [Prog.bind_of_ok (Act.hold_apply _ _)]
  exact IsTrans.trans _ _ _ (ht _ _ (hold_stored_tame (w.clock t))) (hf _ _)

theorem loaded_aside {f : State → Act ε α} {load : Act ε State}
    (hl : ∀ w s u, load w = .ok s u → s = w.stored) (hq : Quiet load)
    (hf : ∀ s, Within (Aside name) (f s)) :
    Within (Aside name) (load >>= fun s => Act.hold s >>= fun _ => f s) :=
  loaded_within (fun _ _ h => h.toAside) hl hq hf

theorem loadState_eq {w u : Node} {s : State} (h : loadState env w = .ok s u) : s = w.stored := by
  unfold loadState at h
  cases hu : env.unreadable .state w with
  | some e =>
    rw [hu] at h
    cases h
  | none =>
    rw [hu] at h
    cases h
    rfl

theorem loadState_mapped {f : String → ε} {w u : Node} {s : State}
    (h : Prog.mapError f (loadState env) w = .ok s u) : s = w.stored :=
  loadState_eq env (Prog.mapError_eq_ok.mp h)

theorem activateExtension_aside (version : String) (requestId : Option String) :
    Within (Aside name) (activateExtension env name version requestId) := by
  refine loaded_aside (fun _ _ _ => loadState_mapped env)
    (Returns.mapError (loadState_quiet env) _) fun s => ?_
  refine Within.read fun w => ?_
  split
  · exact Within.pure _
  · dsimp only
    split
    · exact aside_of_beside (activateCandidate_beside env _ _)
    · exact Within.fail _

theorem own_tame {m : Act ε α} (h : Within (OwnFiles name) m) : Within (Tame name) m :=
  tame_of_steady (own_steady h)

theorem quiet_tame {m : Act ε α} (h : Quiet m) : Within (Tame name) m :=
  own_tame h.own

theorem aside_of_tame {m : Act ε α} (h : Within (Tame name) m) : Within (Aside name) m :=
  h.mono fun _ _ ht => ht.toAside

/-- What a placement may write: the candidate of this extension, or its image for
another base. -/
theorem placement_owned {base : String} {version : Option String} {running : Bool} {w u : Node}
    {target : Path} (h : placement name base version running w = .ok target u) :
    u = w ∧ Owned name w target := by
  rw [placement, read_apply] at h
  cases running with
  | true =>
    cases version with
    | none => cases h
    | some version =>
      cases h
      exact ⟨rfl, owned_candidate w version⟩
  | false =>
    cases h
    exact ⟨rfl, owned_scoped w base⟩

theorem clearCandidates_own (running : Bool) :
    Within (OwnFiles name) (clearCandidates env name running) := by
  cases running with
  | true => exact Within.mapError (pruneCandidates_own env _)
  | false => exact Within.pure ()

theorem durableMove_own {w : Node} {source target : Path} (ht : Owned name w target)
    (hs : Owned name w source) : OwnFiles name w (durableMove env source target w).state := by
  refine Within.bind_at (durableCopy_own env ht source) fun _ u hu => ?_
  have hc := durableCopy_own env ht source
  rw [hu] at hc
  exact durableRemove_own env (hs.of_scope hc.scope)

theorem moveIntoPlace_own {w : Node} {staging target : Path} (ht : Owned name w target)
    (hs : Owned name w staging) :
    OwnFiles name w (moveIntoPlace env staging target w).state := by
  refine Within.bind_at ?_ fun _ u hu => ?_
  · rw [Prog.mapError_state]
    exact durableMode_own env staging w
  · have hm : OwnFiles name w u := (Within.mapError (durableMode_own env staging)).of_ok hu
    rw [Prog.mapError_state]
    have hsc := hm.scope
    exact durableMove_own env (ht.of_scope hsc) (hs.of_scope hsc)

theorem recordStaged_tame {w : Node} {version : String} {target : Path}
    (ht : Owned name w target) :
    Tame name w (recordStaged env name version target w).state := by
  have loads := Returns.mapError (loadState_quiet env) fun error =>
    (Failure.new .failed s!"could not read agent state: {error}").atStage .staging
  refine Within.bind_at (tame_of_steady (quiet_steady loads) w) fun s u hu => ?_
  obtain ⟨t, rfl⟩ := Quiet.of_ok loads hu
  rw [loadState_mapped env hu, Prog.bind_of_ok (Act.hold_apply _ _)]
  refine IsTrans.trans _ _ _ (hold_stored_tame (w.clock t)) ?_
  refine Steady.tame ?_
  have edit : Within (Steady name) (Act.entry name fun e =>
      { e with candidateVersion := some version, phase := .staged } : Act Failure Unit) :=
    entry_steady fun _ => Or.inr ⟨rfl, id⟩
  refine Within.bind_at (edit _) fun _ u' hu' => ?_
  have hs := edit.of_ok hu'
  refine Within.bind_at ?_ fun r v hv => ?_
  · rw [Prog.attempt_state]
    exact store_steady env u'
  · have hv : Steady name u' v := (Within.attempt (store_steady env)).of_ok hv
    have hsc : v.scope = w.scope := hv.scope.trans hs.scope
    cases r with
    | ok _ => exact Steady.refl v
    | error e =>
      refine Within.bind_at ?_ fun _ v' _ => Steady.refl v'
      rw [Prog.attempt_state]
      exact OwnFiles.steady (durableRemove_own env (ht.of_scope hsc))

theorem recordPlaced_tame {w : Node} {version : Option String} {running : Bool} {target : Path}
    (ht : Owned name w target) :
    Tame name w (recordPlaced env name version running target w).state := by
  unfold recordPlaced
  split
  · exact recordStaged_tame env ht
  · exact (Steady.refl w).tame

/-- Everything from the space check of a placement on writes only the target. -/
theorem placing_tame {w : Node} {β : Type} {version : Option String} {running : Bool}
    {file : String} {target : Path} {result : β} (ht : Owned name w target) :
    Tame name w ((do
      requirePlacementSpace env name ⟨.staging, file⟩ running
      clearCandidates env name running
      moveIntoPlace env ⟨.staging, file⟩ target
      recordPlaced env name version running target
      pure result : Act Failure β) w).state := by
  have space : Within (Steady name)
      (requirePlacementSpace env name ⟨.staging, file⟩ running) :=
    quiet_steady (requirePlacementSpace_quiet env _ _)
  refine Within.bind_at (space w).tame fun _ u hu => ?_
  have hs := (space.of_ok hu).scope
  have clear : Within (OwnFiles name) (clearCandidates env name running) :=
    clearCandidates_own env running
  refine Within.bind_at (clear u).steady.tame fun _ v hv => ?_
  have hs := ((clear.of_ok hv).scope).trans hs
  have move := moveIntoPlace_own env (ht.of_scope hs) (owned_staging v file)
  refine Within.bind_at move.steady.tame fun _ x hx => ?_
  rw [hx] at move
  have hs := (move.scope).trans hs
  refine Within.bind_at (recordPlaced_tame env (ht.of_scope hs)) fun _ y _ => ?_
  exact (Steady.refl y).tame

theorem validateAndPlace_tame (requested : Option String) (file : String) :
    Within (Tame name) (validateAndPlace env name requested ⟨.staging, file⟩) := by
  have quiet : ∀ {β : Type} {m : Act Failure β}, Quiet m → Within (Tame name) m := fun h =>
    quiet_tame h
  refine Within.read fun _ => ?_
  refine Within.bind (quiet (validateImage_quiet env _)) fun _ => ?_
  refine Within.bind (quiet (imageRelease_quiet env _)) fun release => ?_
  refine Within.bind (quiet (checkRelease_quiet _ _)) fun base => ?_
  refine Within.read fun r => ?_
  intro w
  refine Within.bind_at (quiet (placement_quiet _ _ _) w) fun target u hu => ?_
  obtain ⟨rfl, ht⟩ := placement_owned hu
  exact placing_tame env ht

theorem acquireComponent_own (version : String) :
    Within (OwnFiles name) (acquireComponent env name version) := by
  intro w
  unfold acquireComponent
  cases env.acquire name version w with
  | error e => exact (OwnFiles.refl w).tick
  | ok answer => exact ⟨⟨rfl, rfl, rfl, rfl⟩, rfl, fun _ _ _ => rfl⟩

theorem placeAcquired_tame (base selected : String) (finished : Finished) :
    Within (Tame name) (placeAcquired env name base selected finished) := by
  refine Within.read fun _ => ?_
  refine Within.bind (Within.demand _ _) fun _ => ?_
  refine Within.bind (quiet_tame (failedAt_quiet (fileSize_quiet env _) _)) fun size => ?_
  refine Within.bind (Within.demand _ _) fun _ => ?_
  exact validateAndPlace_tame env _ _

theorem acquire_tame (base : String) (version : Option String) :
    Within (Tame name) (acquire env name base version) := by
  refine Within.bind (quiet_tame (acquireVersion_quiet env base version)) fun selected => ?_
  refine Within.bind (own_tame (Within.mapError (acquireComponent_own env _))) fun fin => ?_
  split
  · refine Within.bind (Within.attempt (placeAcquired_tame env _ _ _)) fun placed => ?_
    refine Within.bind (Within.attempt (own_tame (clearStaged_own env _))) fun _ => ?_
    cases placed with
    | ok p => exact Within.pure _
    | error e => exact Within.fail _
  · refine Within.bind (Within.attempt (own_tame (clearStaged_own env _))) fun _ => ?_
    exact Within.fail _

theorem copySource_own (path file : String) (maximum : Nat) :
    Within (OwnFiles name) (copySource env path ⟨.staging, file⟩ maximum) := by
  intro w
  unfold copySource
  rcases env.source path w with _ | e | ⟨size, bytes⟩
  · exact (OwnFiles.refl w).tick
  · exact (OwnFiles.refl w).tick
  · dsimp only
    split
    · exact IsTrans.trans _ _ _ (OwnFiles.refl w).tick
        (durablePublish_confined env (owned_staging _ _) bytes w.tick)
    · exact (OwnFiles.refl w).tick

theorem durableRemove_staging (file : String) :
    Within (OwnFiles name) (durableRemove env ⟨.staging, file⟩) :=
  fun w => durableRemove_own env (owned_staging w file)

theorem checkDigest_own (file digest : String) :
    Within (OwnFiles name) (checkDigest env ⟨.staging, file⟩ digest) := by
  refine Within.read fun w => ?_
  refine Within.bind (Within.attempt (Quiet.own (Quiet.askFor _))) fun r => ?_
  have drop : Within (OwnFiles name)
      (Prog.attempt (durableRemove env ⟨.staging, file⟩) : Act Failure _) :=
    Within.attempt (durableRemove_staging env file)
  cases r with
  | error e => exact Within.bind drop fun _ => Within.fail _
  | ok actual =>
    dsimp only
    split
    · exact Within.pure ()
    · exact Within.bind drop fun _ => Within.fail _

theorem supplied_tame (base : Option String) (path digest : String) :
    Within (Tame name) (supplied env name base path digest) := by
  refine Within.bind (Within.demand _ _) fun _ => ?_
  refine Within.bind (quiet_tame (openSource_quiet env _)) fun size => ?_
  refine Within.read fun w => ?_
  refine Within.bind ?_ fun rollbackSize => ?_
  · split
    · exact quiet_tame (failedAt_quiet (missingRollbackSize_quiet env) _)
    · exact Within.pure _
  refine Within.bind (quiet_tame (requireSpace_quiet env _)) fun _ => ?_
  refine Within.bind (own_tame (Within.mapError (copySource_own env _ _ _))) fun _ => ?_
  refine Within.bind (own_tame (checkDigest_own env _ _)) fun _ => ?_
  refine Within.bind (Within.attempt (validateAndPlace_tame env _ _)) fun placed => ?_
  refine Within.bind (Within.attempt (own_tame (durableRemove_staging env _))) fun _ => ?_
  cases placed with
  | ok p => exact Within.pure _
  | error e => exact Within.fail _

theorem targetBase_quiet (base : Option String) : Quiet (targetBase base) := by
  unfold targetBase
  split
  · split
    · exact Returns.pure _
    · exact Returns.fail _
  · refine Returns.read fun w => ?_
    split
    · exact Returns.pure _
    · exact Returns.fail _

theorem stageExtension_tame (base : Option String) (source : Source) :
    Within (Tame name) (stageExtension env name base source) := by
  refine Within.bind (Within.demand _ _) fun _ => ?_
  cases source with
  | supplied path digest => exact supplied_tame env _ _ _
  | acquire version =>
    refine Within.bind ?_ fun base => acquire_tame env base version
    cases base with
    | some base => exact Within.pure _
    | none => exact quiet_tame (targetBase_quiet none)

theorem adopt_aside (version : String) (rest : List String) :
    Within (Aside name) (adopt env (name :: version :: rest)) := by
  refine loaded_aside (fun _ _ _ => loadState_eq env) (loadState_quiet env) fun s => ?_
  exact Within.mapError (aside_of_beside (adoptActive_beside env version))

theorem activate_aside (version : String) (rest : List String) :
    Within (Aside name) (activate env (name :: version :: rest)) :=
  Within.bind (Within.mapError (activateExtension_aside env version _)) fun _ => Within.pure ()

theorem activateStaged_aside (version : Option String) :
    Within (Aside name) (activateStaged env name version) := by
  cases version with
  | none => exact Within.fail _
  | some version =>
    refine Within.bind (aside_of_tame (quiet_tame (Quiet.ask _))) fun requestId => ?_
    refine Within.bind (Within.mapError (activateExtension_aside env version _)) fun _ => ?_
    exact Within.pure ()

theorem stageSource_aside (arguments : List String) (source : Source) :
    Within (Aside name) (stageSource env name arguments source) := by
  refine Within.bind (Within.mapError (aside_of_tame (stageExtension_tame env _ _)))
    fun staged => ?_
  split
  · exact Within.pure ()
  · exact activateStaged_aside env _

theorem stageExtensionCommand_aside (rest : List String) :
    Within (Aside name) (stageExtensionCommand env (name :: rest)) := by
  unfold stageExtensionCommand
  rw [List.head?_cons, Option.filter_some]
  split
  · exact Within.fail _
  · rename_i found hf
    have hn : name = found := by
      split at hf <;> simp at hf
      exact hf
    subst hn
    split
    · exact stageSource_aside env _ _
    · exact Within.fail _
    · exact stageSource_aside env _ _

theorem rollbackCommand_aside (rest : List String) :
    Within (Aside name) (rollbackCommand env (name :: rest)) := by
  refine loaded_aside (fun _ _ _ => loadState_eq env) (loadState_quiet env) fun s => ?_
  refine Within.bind (Within.attempt
    (aside_of_beside (beside_of_sober (recover_sober env _)))) fun r => ?_
  refine Within.bind (aside_of_tame (tame_of_steady (store_steady env))) fun _ => ?_
  cases r with
  | ok _ => exact Within.pure ()
  | error e => exact Within.fail e

theorem removeExtension_aside (rest : List String) :
    Within (Aside name) (removeExtension env (name :: rest)) := by
  refine loaded_aside (fun _ _ _ => loadState_eq env) (loadState_quiet env) fun s => ?_
  refine aside_of_beside (beside_of_sober ?_)
  refine Within.bind (sober_of_steady (entry_steady fun _ => Or.inr ⟨rfl, id⟩)) fun _ => ?_
  refine Within.bind (sober_of_steady (store_steady env)) fun _ => ?_
  exact Within.bind (completeRemoval_sober env) fun _ => sober_of_steady (store_steady env)

/-- A command that edits one entry and writes the record. -/
theorem edited_tame {f : ExtensionState → ExtensionState} (hf : ∀ e, Carries e (f e)) :
    Within (Tame name) (loadState env >>= fun state => Act.hold state >>= fun _ =>
      Act.entry name f >>= fun _ => store env) := by
  refine loaded_within (fun _ _ => id) (fun _ _ _ => loadState_eq env) (loadState_quiet env)
    fun s => ?_
  exact tame_of_steady (Within.bind (entry_steady hf) fun _ => store_steady env)

theorem setRequired_tame (rest : List String) (required : Bool) :
    Within (Tame name) (setRequired env (name :: rest) required) :=
  edited_tame env fun _ => Or.inr ⟨rfl, id⟩

theorem reset_tame (rest : List String) : Within (Tame name) (reset env (name :: rest)) :=
  edited_tame env fun _ => Or.inr ⟨rfl, id⟩

theorem answerStageExtension_aside {r : Request} (hr : r.name = some name) :
    Within (Aside name) (answerStageExtension env r) := by
  unfold answerStageExtension
  rw [hr]
  refine Within.bind (Within.demand _ _) fun _ => ?_
  cases r.source with
  | error f => exact Within.fail f
  | ok source =>
    exact Within.bind (aside_of_tame (stageExtension_tame env _ _)) fun _ => Within.pure ()

theorem answerActivateExtension_aside {r : Request} (hr : r.name = some name) :
    Within (Aside name) (answerActivateExtension env r) := by
  unfold answerActivateExtension
  rw [hr]
  cases r.version with
  | none => exact Within.fail _
  | some version =>
    refine Within.bind (Within.demand _ _) fun _ => ?_
    exact Within.bind (activateExtension_aside env _ _) fun _ => Within.pure ()

end Work

/-- A step that leaves every image, every record and the merge alone. -/
structure Untouched (w u : Node) : Prop extends SameRecord w u where
  extensions : u.extensions = w.extensions
  merged : u.merged = w.merged

instance : IsPreorder Node Untouched where
  refl w := ⟨SameRecord.refl w, rfl, rfl⟩
  trans _ _ _ h h' := ⟨h.toSameRecord.trans h'.toSameRecord,
    h'.extensions.trans h.extensions, h'.merged.trans h.merged⟩

section Bases
variable (env : Environment) {ε α : Type}

theorem quiet_untouched {m : Act ε α} (h : Quiet m) : Within Untouched m := by
  refine (Returns.within h).mono ?_
  rintro w _ ⟨t, rfl⟩
  exact ⟨⟨rfl, rfl, rfl, rfl⟩, rfl, rfl⟩

theorem installedExtensionsFor_quiet (base : String) :
    Quiet (installedExtensionsFor env base : Act ε _) := by
  intro w
  unfold installedExtensionsFor
  cases env.unreadable .installed w with
  | some e => exact Or.inl ⟨[], w.tick, rfl, Later.tick w⟩
  | none => exact Or.inl ⟨_, w.tick, rfl, Later.tick w⟩

theorem requiredOnDisk_quiet : Quiet (requiredOnDisk env : Act ε _) := by
  refine Returns.bind (Returns.attempt (loadState_quiet env)) fun r => ?_
  cases r <;> exact Returns.pure _

theorem verifyExtensionsFor_quiet (pending : String) : Quiet (verifyExtensionsFor env pending) := by
  refine Returns.read fun w => ?_
  cases w.osVersion with
  | none => exact Returns.fail _
  | some running =>
    dsimp only
    split
    · exact Returns.pure ()
    · refine Returns.bind (installedExtensionsFor_quiet env _) fun _ => ?_
      refine Returns.bind (mergedExtensions_quiet env) fun _ => ?_
      refine Returns.bind (requiredOnDisk_quiet env) fun _ => ?_
      exact verifyEach_quiet env pending _

theorem installBase_untouched (version : String) : Within Untouched (installBase env version) := by
  intro w
  unfold installBase
  dsimp only
  split <;> exact ⟨⟨rfl, rfl, rfl, rfl⟩, rfl, rfl⟩

theorem pendingBaseVersion_quiet : Quiet (pendingBaseVersion env) := by
  intro w
  unfold pendingBaseVersion
  split
  · exact Or.inr ⟨_, w.tick, rfl, Later.tick w⟩
  · split
    · split
      · exact Or.inl ⟨_, w.tick, rfl, Later.tick w⟩
      · exact Or.inl ⟨_, w.tick, rfl, Later.tick w⟩
      · exact Or.inr ⟨_, w.tick, rfl, Later.tick w⟩
    · exact Or.inr ⟨_, w.tick, rfl, Later.tick w⟩

theorem selectBase_quiet (pending : String) : Quiet (selectBase env pending) := by
  have entry : Quiet (pendingBootEntry env pending : Act Failure _) :=
    fun w => Or.inl ⟨_, w.tick, rfl, Later.tick w⟩
  refine Returns.bind entry fun found => ?_
  cases found with
  | none => exact Returns.fail _
  | some boot =>
    refine Returns.bind (Returns.mapError (Quiet.askFor _) _) fun _ => ?_
    exact Returns.bind (Returns.demand _ _) fun _ => Returns.pure _

theorem stageTarget_untouched (target : String) : Within Untouched (stageTarget env target) := by
  refine Within.bind (quiet_untouched (verifyExtensionsFor_quiet env _)) fun _ => ?_
  refine Within.bind (Within.mapError (installBase_untouched env _)) fun _ => ?_
  refine Within.bind (Within.demand _ _) fun _ => ?_
  refine Within.bind (quiet_untouched (failedAt_quiet (pendingBaseVersion_quiet env) _)) fun p => ?_
  cases p with
  | none => exact Within.pure _
  | some pending =>
    refine Within.bind (Within.demand _ _) fun _ => ?_
    refine Within.bind (quiet_untouched (verifyExtensionsFor_quiet env _)) fun _ => ?_
    exact quiet_untouched (selectBase_quiet env _)

theorem stageBase_untouched (version : Option String) :
    Within Untouched (stageBase env version) := by
  refine Within.bind (Within.demand _ _) fun _ => ?_
  refine Within.bind ?_ fun target => ?_
  · cases version with
    | none => exact quiet_untouched (failedAt_quiet (Quiet.askFor _) _)
    | some version => exact Within.pure _
  · cases target with
    | none => exact Within.pure _
    | some target => exact stageTarget_untouched env target

end Bases
end CarbideOS.Agent
