import CarbideOS.Proofs.Effects
import CarbideOS.Proofs.Others

namespace CarbideOS.Agent
open Interruptible

/-- The known-good version of an entry, if it has one, has its image, and the entry
has an active version. -/
def Backed (w : Node) (name : String) (e : ExtensionState) : Prop :=
  ∀ version, e.knownGoodVersion = some version →
    e.activeVersion.isSome = true ∧ w.fileExists (w.rollbackPath name version) = true

/-- Both entries of an extension are backed. -/
def AllBacked (name : String) (w : Node) : Prop := ∀ e, Entry w name e → Backed w name e

/-- Both entries of an extension are backed unless they are on their way out. -/
def BackedUnlessRemoving (name : String) (w : Node) : Prop :=
  ∀ e, Entry w name e → e.phase ≠ .removing → Backed w name e

/-- No entry of an extension has another known-good version than a given one. -/
def KnownGoodWithin (name : String) (version : Option String) (w : Node) : Prop :=
  ∀ e, Entry w name e → e.knownGoodVersion = none ∨ e.knownGoodVersion = version

theorem AllBacked.weaken {name : String} {w : Node} (h : AllBacked name w) :
    BackedUnlessRemoving name w :=
  fun e he _ => h e he

theorem backed_of_none {w : Node} {name : String} {e : ExtensionState}
    (h : e.knownGoodVersion = none) : Backed w name e := by
  intro version hv
  rw [h] at hv
  cases hv

/-- A node of the same base that has lost no retained image. -/
structure KeepsRollbacks (w u : Node) : Prop where
  scope : u.scope = w.scope
  kept : ∀ f, Text.endsWith f ".rollback" = true → w.extensions[f]?.isSome = true →
    u.extensions[f]?.isSome = true

theorem Backed.mono {w u : Node} {name : String} {e : ExtensionState} (h : Backed w name e)
    (hk : KeepsRollbacks w u) : Backed u name e := by
  intro version hv
  obtain ⟨ha, hf⟩ := h version hv
  refine ⟨ha, ?_⟩
  rw [Node.rollbackPath, hk.scope]
  exact hk.kept _ (w.endsWith_rollback name version) hf

theorem AllBacked.of_carried {name : String} {w u : Node} (h : AllBacked name w)
    (hc : EntriesCarried name w u) (hk : KeepsRollbacks w u) : AllBacked name u := by
  intro e' he'
  obtain ⟨e, he, hcar⟩ := hc e' he'
  rcases hcar with hn | ⟨hkg, ha⟩
  · exact backed_of_none hn
  · rcases he with rfl | he
    · exact backed_of_none hkg
    · intro version hv
      obtain ⟨hact, hf⟩ := (h e he).mono hk version (hkg ▸ hv)
      exact ⟨ha hact, hf⟩

theorem KnownGoodWithin.of_carried {name : String} {version : Option String} {w u : Node}
    (h : KnownGoodWithin name version w) (hc : EntriesCarried name w u) :
    KnownGoodWithin name version u := by
  intro e' he'
  obtain ⟨e, he, hcar⟩ := hc e' he'
  rcases hcar with hn | ⟨hkg, -⟩
  · exact Or.inl hn
  · rcases he with rfl | he
    · exact Or.inl hkg
    · rw [hkg]
      exact h e he

section Relations
variable {env : Environment} {name : String} {w u : Node}

theorem Steady.keepsRollbacks (h : Steady name w u) : KeepsRollbacks w u := by
  refine ⟨h.scope, fun f hf hs => ?_⟩
  rw [h.same f hf]
  exact hs

theorem Tame.keepsRollbacks (h : Tame name w u) : KeepsRollbacks w u := by
  refine ⟨h.scope, fun f hf hs => ?_⟩
  rw [h.same f hf]
  exact hs

theorem Steady.allBacked (h : Steady name w u) : Preserves (AllBacked name) w u := fun hb =>
  hb.of_carried h.carried h.keepsRollbacks

theorem Tame.allBacked (h : Tame name w u) : Preserves (AllBacked name) w u := fun hb =>
  hb.of_carried h.carried h.keepsRollbacks

theorem Spared.entry (h : Spared name w u) {e : ExtensionState} (he : Entry u name e) :
    Entry w name e := by
  rcases he with he | he
  · rcases h.memory with hm | hm <;> rw [hm] at he
    · exact Or.inl he
    · exact Or.inr he
  · rcases h.stored with hm | hm <;> rw [hm] at he
    · exact Or.inr he
    · exact Or.inl he

theorem Spared.backed (h : Spared name w u) {e : ExtensionState} (hb : Backed w name e) :
    Backed u name e := by
  intro version hv
  obtain ⟨ha, hf⟩ := hb version hv
  refine ⟨ha, ?_⟩
  change (u.rollbackImage name version).isSome = true
  rw [h.rollbackImage version]
  exact hf

theorem Spared.allBacked (h : Spared name w u) : Preserves (AllBacked name) w u :=
  fun hb e he => h.backed (hb e (h.entry he))

theorem Spared.backedUnlessRemoving (h : Spared name w u) :
    Preserves (BackedUnlessRemoving name) w u :=
  fun hb e he hp => h.backed (hb e (h.entry he) hp)

end Relations

section Own
variable (env : Environment) {name : String}

/-- Pruning all but the one known-good image leaves the entries backed. -/
theorem pruneRollbacks_backed {version : Option String} {w : Node} (hb : AllBacked name w)
    (hk : KnownGoodWithin name version w) :
    AllBacked name (pruneRollbacks env name version w).state := by
  have hc : Confined (Retained name w.scope) w _ := pruneRollbacks_confined env version w
  intro e he
  rw [Entry, hc.memory, hc.toSameRecord.stored] at he
  rcases hk e he with hn | hv
  · exact backed_of_none hn
  · intro v hev
    have hver : version = some v := hv ▸ hev
    subst hver
    obtain ⟨ha, hf⟩ := hb e he v hev
    refine ⟨ha, ?_⟩
    change ((pruneRollbacks env name (some v) w).state.rollbackImage name v).isSome = true
    rw [pruneRollbacks_keeps]
    exact hf

/-- The record has one known-good version for an extension, and the disk has the same. -/
theorem knownGoodWithin_saved {version : Option String} {w : Node}
    (h : (w.memory.get name).bind ExtensionState.knownGoodVersion = version) :
    KnownGoodWithin name version w.saved := by
  intro e he
  have he : w.memory.get name = some e := he.elim id id
  rw [he] at h
  exact Or.inr h

theorem concludeRecovery_backed (reason version : String) {w : Node} (hb : AllBacked name w)
    (hk : (w.memory.get name).bind ExtensionState.knownGoodVersion = some version) :
    AllBacked name (concludeRecovery env name reason version w).state := by
  have hbr : AllBacked name (w.recovered name reason version) :=
    (recovered_steady reason version w).allBacked hb
  have hkr : ((w.recovered name reason version).memory.get name).bind
      ExtensionState.knownGoodVersion = some version :=
    (knownGood_recovered w name reason version).trans hk
  rw [concludeRecovery, Prog.bind_of_ok (Act.entry_apply _ _ _)]
  refine Within.bind_at (R := Preserves (AllBacked name))
    ((Within.mapError (store_steady env)) _).allBacked (fun _ u hu => ?_) hbr
  -- once the record is on disk the images it does not name may go
  have hs := store_ok (Prog.mapError_eq_ok.mp hu)
  have hku : KnownGoodWithin name (some version) u := hs ▸ knownGoodWithin_saved hkr
  have prune : Within (Steady name)
      (Prog.attempt (pruneCandidates env name none) : Act String _) :=
    Within.attempt (own_steady (pruneCandidates_own env none))
  refine Within.bind_at (R := Preserves (AllBacked name)) (prune u).allBacked fun _ v hv => ?_
  have hkv := hku.of_carried (prune.of_ok hv).carried
  refine Within.bind_at (R := Preserves (AllBacked name)) (fun hb => ?_) fun _ x _ => id
  rw [Prog.attempt_state]
  exact pruneRollbacks_backed env hb hkv

theorem revertTo_backed (reason version : String) {w : Node} (hb : AllBacked name w)
    (hk : (w.memory.get name).bind ExtensionState.knownGoodVersion = some version) (image : Path) :
    AllBacked name (revertTo env name reason version image w).state := by
  have hbr : AllBacked name (w.reverting name reason) :=
    (reverting_steady reason w).allBacked hb
  have hkr : ((w.reverting name reason).memory.get name).bind
      ExtensionState.knownGoodVersion = some version :=
    (knownGood_reverting w name reason).trans hk
  rw [revertTo, Prog.bind_of_ok (Act.entry_apply _ _ _)]
  refine Within.bind_at (R := Preserves (AllBacked name))
    ((Within.mapError (store_steady env)) _).allBacked (fun _ v hv => ?_) hbr
  have hmv := (Within.mapError (store_memory env)).of_ok hv
  refine Within.bind_at (R := Preserves (AllBacked name)) ?_ fun restored x hx => ?_
  · rw [Prog.attempt_state]
    exact (restoreKnownGood_steady env reason version image v).allBacked
  · cases restored with
    | error message => exact (terminal_steady env message x).allBacked
    | ok _ =>
      have hm := (Within.attempt (restoreKnownGood_record env name reason version image)).of_ok hx
      refine fun hbx => concludeRecovery_backed env reason version hbx ?_
      rw [hm.memory, hmv]
      exact hkr

/-- A recovery leaves the entries backed however it ends. -/
theorem recover_backed (reason : String) : Keeps (AllBacked name) (recover env name reason) := by
  refine within_preserves_iff.mp fun w hb => ?_
  rw [recover, read_apply]
  cases hk : (w.memory.get name).bind ExtensionState.knownGoodVersion with
  | none => exact (terminal_steady env _ w).allBacked hb
  | some version =>
    dsimp only
    split
    · exact revertTo_backed env reason version hb hk _
    · exact (terminal_steady env _ w).allBacked hb

theorem durableCopy_keepsRollbacks (source target : Path) :
    Within KeepsRollbacks (durableCopy env source target) := by
  have published : ∀ (w : Node) bytes, KeepsRollbacks w (w.publish target bytes) := by
    intro w bytes
    refine ⟨(SameRecord.setDir w _ _).scope, fun f hf hs => ?_⟩
    have hne : (⟨.extensions, f⟩ : Path) ≠ Node.temporary target :=
      ne_temporary hf (by decide) target
    change (Node.readFile _ ⟨.extensions, f⟩).isSome = true
    rw [Node.readFile_publish hne]
    split
    · rfl
    · exact hs
  have left : ∀ (w : Node) bytes leftover,
      KeepsRollbacks w (w.leaveBehind target bytes leftover) := by
    intro w bytes leftover
    refine ⟨?_, fun f hf hs => ?_⟩
    · cases leftover <;> exact (SameRecord.setDir w _ _).scope
    · change (Node.readFile _ ⟨.extensions, f⟩).isSome = true
      have hne : (⟨.extensions, f⟩ : Path) ≠ Node.temporary target :=
        ne_temporary hf (by decide) target
      rw [Node.readFile_leaveBehind hne]
      exact hs
  refine Within.read fun w => ?_
  cases w.readFile source with
  | none => exact fun u => ⟨rfl, fun _ _ => id⟩
  | some bytes =>
    apply Act.durable_within
    · exact fun u => ⟨(published u bytes).scope, (published u bytes).kept⟩
    · intro u reached leftover
      have hl := left u bytes leftover
      split
      · have hp := published (u.leaveBehind target bytes leftover) bytes
        exact ⟨hp.scope.trans hl.scope, fun f hf hs => hp.kept f hf (hl.kept f hf hs)⟩
      · exact ⟨hl.scope, hl.kept⟩

theorem durableCopy_backed (source target : Path) :
    Keeps (AllBacked name) (durableCopy env source target) := by
  refine within_preserves_iff.mp fun w hb => ?_
  exact hb.of_carried ((durableCopy_record env source target w).carried name)
    (durableCopy_keepsRollbacks env source target w)

/-- An edit may name a known-good version that has its image. -/
theorem edit_backed {w : Node} {f : ExtensionState → ExtensionState} (hb : AllBacked name w)
    (hf : Backed w name (f ((w.memory.get name).getD {}))) : AllBacked name (w.edit name f) := by
  rintro e (he | he)
  · rw [edit_entry] at he
    cases he
    exact hf
  · exact hb e (Or.inr he)

theorem retainActive_backed (version : String) :
    Keeps (AllBacked name) (retainActive env name version) := by
  refine within_preserves_iff.mp (Within.read fun w => ?_)
  split
  · exact Within.pure ()
  · exact within_preserves_iff.mpr (durableCopy_backed env _ _)

theorem retainActive_exists {version : String} {w u : Node}
    (h : retainActive env name version w = .ok () u) :
    u.fileExists (u.rollbackPath name version) = true := by
  rw [retainActive, read_apply] at h
  split at h
  · cases h
    assumption
  · have he := durableCopy_exists (w.endsWith_rollback name version) (by decide) h
    rwa [Node.rollbackPath, ((durableCopy_record env _ _).of_ok h).scope]

theorem quiet_backed {ε α : Type} {m : Act ε α} (h : Quiet m) :
    Within (Preserves (AllBacked name)) m := by
  refine (Returns.within h).mono ?_
  rintro w _ ⟨t, rfl⟩ hb e he
  exact (hb e he).mono ⟨rfl, fun _ _ => id⟩

theorem adoptActive_backed (version : String) :
    Keeps (AllBacked name) (adoptActive env name version) := by
  refine within_preserves_iff.mp ?_
  refine Within.bind (Within.mapError (quiet_backed (loadNamed_quiet env name))) fun r => ?_
  refine Within.read fun w => ?_
  refine Within.bind (Within.demand _ _) fun _ => ?_
  refine Within.bind (Within.mapError (quiet_backed (healthyNow_quiet env r))) fun _ u => ?_
  have retain : Within (Preserves (AllBacked name)) (retainActive env name version) :=
    within_preserves_iff.mpr (retainActive_backed env version)
  refine Within.bind_at (Within.mapError retain u) fun _ v hv => ?_
  have hx := retainActive_exists env (Prog.mapError_eq_ok.mp hv)
  rw [Prog.bind_of_ok (Act.entry_apply _ _ _)]
  refine fun hb => (Within.mapError (store_steady env) _).allBacked (edit_backed hb ?_)
  intro ver hver
  cases hver
  exact ⟨rfl, hx⟩

theorem retainHealthy_backed (version : String) (ruleset : Ruleset) :
    Keeps (AllBacked name) (retainHealthy env name version ruleset) := by
  refine within_preserves_iff.mp ?_
  refine Within.bind (quiet_backed (soak_quiet env ruleset)) fun _ => Within.read_at fun w => ?_
  have note : Within (Steady name)
      (Act.note name (w.mergedImage name) .soaked : Act String _) :=
    note_steady _ _
  refine Within.bind_at (R := Preserves (AllBacked name)) (note w).allBacked fun _ u hu => ?_
  have hsc := (note.of_ok hu).scope
  refine Within.bind_at (R := Preserves (AllBacked name)) ?_ fun _ v hv hb => ?_
  · exact Within.mapError (within_preserves_iff.mpr (durableCopy_backed env _ _)) u
  · have hc := Prog.mapError_eq_ok.mp hv
    have hx := durableCopy_exists (w.endsWith_rollback name version) (by decide) hc
    have hsv : v.scope = w.scope := ((durableCopy_record env _ _).of_ok hc).scope.trans hsc
    refine edit_backed hb fun ver hver => ?_
    cases hver
    refine ⟨rfl, ?_⟩
    rw [Node.rollbackPath, hsv]
    exact hx

theorem retainMerged_backed (ruleset : Ruleset) :
    Keeps (AllBacked name) (retainMerged env name ruleset) := by
  refine within_preserves_iff.mp ?_
  refine Within.bind (quiet_backed (mergedVersion_quiet env name)) fun version => ?_
  cases version with
  | none => exact Within.pure ()
  | some version =>
    refine Within.read fun w => ?_
    dsimp only
    split
    · exact within_preserves_iff.mpr (retainHealthy_backed env version ruleset)
    · exact Within.pure ()

theorem verifyOrRecover_backed (merged : List String) :
    Keeps (AllBacked name) (verifyOrRecover env name merged) := by
  have falls : ∀ reason, Within (Preserves (AllBacked name)) (recover env name reason) :=
    fun reason => within_preserves_iff.mpr (recover_backed env reason)
  refine within_preserves_iff.mp (Within.read fun w => ?_)
  split
  · exact Within.fail _
  · refine Within.bind (Within.attempt (quiet_backed (loadNamed_quiet env name))) fun r => ?_
    cases r with
    | error e => exact falls _
    | ok ruleset =>
      dsimp only
      split
      · exact falls _
      · refine Within.bind (Within.attempt (quiet_backed (healthyNow_quiet env ruleset)))
          fun h => ?_
        cases h with
        | error reason => exact falls reason
        | ok _ =>
          refine Within.bind (within_preserves_iff.mpr (retainMerged_backed env ruleset))
            fun _ => ?_
          exact fun u => (recordHealthy_steady (ε := String) u).allBacked

theorem adoptUnrecorded_backed : Keeps (AllBacked name) (adoptUnrecorded env name) := by
  refine within_preserves_iff.mp (Within.read fun w => ?_)
  split
  · refine Within.bind (quiet_backed (mergedVersion_quiet env name)) fun version => ?_
    cases version with
    | none => exact Within.pure ()
    | some current =>
      refine Within.bind (Within.attempt
        (within_preserves_iff.mpr (adoptActive_backed env current))) fun r => ?_
      rcases r with (e | e) | _
      · exact Within.pure ()
      · exact Within.fail _
      · exact Within.pure ()
  · exact Within.pure ()

theorem retainOutgoing_exists {previous : String} {w u : Node}
    (h : retainOutgoing env name (some previous) w = .ok () u)
    (hp : w.fileExists (w.rollbackPath name previous) = true ∨
      w.fileExists (w.activePath name) = true) :
    u.fileExists (u.rollbackPath name previous) = true := by
  rw [retainOutgoing, read_apply] at h
  dsimp only at h
  split at h
  · have hc := Prog.mapError_eq_ok.mp h
    have he := durableCopy_exists (w.endsWith_rollback name previous) (by decide) hc
    rwa [Node.rollbackPath, ((durableCopy_record env _ _).of_ok hc).scope]
  · rename_i hno
    cases h
    rcases hp with hp | hp
    · exact hp
    · simpa [hp] using hno

theorem retainOutgoing_backed (previous : Option String) :
    Keeps (AllBacked name) (retainOutgoing env name previous) := by
  refine within_preserves_iff.mp (Within.read fun w => ?_)
  cases previous with
  | none => exact Within.pure ()
  | some version =>
    dsimp only
    split
    · exact Within.mapError (within_preserves_iff.mpr (durableCopy_backed env _ _))
    · exact Within.pure ()

/-- An entry may take the outgoing version as its known-good one. -/
theorem outgoing_edit {w : Node} (hb : AllBacked name w) {previous : Option String}
    (hprev : previous = (w.memory.get name).bind ExtensionState.activeVersion)
    (hx : ∀ p, previous = some p → w.fileExists (w.rollbackPath name p) = true)
    {f : ExtensionState → ExtensionState} (hfa : ∀ e, (f e).activeVersion = e.activeVersion)
    (hfk : ∀ e, (f e).knownGoodVersion = previous.or e.knownGoodVersion) :
    AllBacked name (w.edit name f) ∧
      ((w.edit name f).memory.get name).bind ExtensionState.knownGoodVersion = previous := by
  cases hg : w.memory.get name with
  | none =>
    rw [hg] at hprev
    subst hprev
    refine ⟨edit_backed hb (backed_of_none ?_), ?_⟩
    · rw [hg, hfk]
      rfl
    · rw [edit_entry, hg, Option.bind_some, hfk]
      rfl
  | some e =>
    rw [hg, Option.bind_some] at hprev
    have he := hb e (Or.inl hg)
    cases previous with
    | some p =>
      refine ⟨edit_backed hb fun v hv => ?_, ?_⟩
      · rw [hg, Option.getD_some, hfk] at hv
        cases hv
        rw [hg, Option.getD_some, hfa, ← hprev]
        exact ⟨rfl, hx p rfl⟩
      · rw [edit_entry, Option.bind_some, hfk]
        rfl
    | none =>
      -- a known-good version goes with an active one
      have hn : e.knownGoodVersion = none := by
        cases hk : e.knownGoodVersion with
        | none => rfl
        | some v =>
          have ha := (he v hk).1
          rw [← hprev] at ha
          cases ha
      refine ⟨edit_backed hb (backed_of_none ?_), ?_⟩
      · rw [hg, Option.getD_some, hfk, hn]
        rfl
      · rw [edit_entry, hg, Option.getD_some, Option.bind_some, hfk, hn]
        rfl

/-- The outgoing version becomes the known-good one of both records. -/
theorem recordActivating_backed (version : String) (requestId : Option String) {w : Node}
    (hb : AllBacked name w) {previous : Option String}
    (hprev : previous = (w.memory.get name).bind ExtensionState.activeVersion)
    (hx : ∀ p, previous = some p → w.fileExists (w.rollbackPath name p) = true) :
    (recordActivating env name version requestId previous w).Meets
      ⟨fun _ u => AllBacked name u ∧ KnownGoodWithin name previous u, fun _ => AllBacked name,
        AllBacked name⟩ := by
  obtain ⟨hbe, hke⟩ := outgoing_edit (f := ExtensionState.activating version requestId previous)
    hb hprev hx (fun _ => rfl) fun _ => by cases previous <;> rfl
  have hst := (store_steady env (w.activating name version requestId previous)).allBacked hbe
  rw [recordActivating_apply]
  unfold failedAt Prog.mapError
  cases hs : store env (w.activating name version requestId previous) with
  | ok a u =>
    rw [hs] at hst
    refine ⟨hst, ?_⟩
    rw [store_ok hs]
    exact knownGoodWithin_saved hke
  | error e u =>
    rw [hs] at hst
    exact hst
  | halt u =>
    rw [hs] at hst
    exact hst

theorem activateRecorded_backed (version : String) (requestId previous : Option String)
    (candidate : Path) {w : Node} (hb : AllBacked name w) (hk : KnownGoodWithin name previous w) :
    AllBacked name (activateRecorded env name version requestId previous candidate w).state := by
  have tried : Within (Steady name)
      (Prog.attempt (tryCandidate env name version requestId candidate) : Act Failure _) :=
    Within.attempt (tryCandidate_steady env version requestId candidate)
  refine Within.bind_at (R := Preserves (AllBacked name)) (tried w).allBacked
    (fun r u hu => ?_) hb
  have hku := hk.of_carried (tried.of_ok hu).carried
  cases r with
  | error setback =>
    refine Within.bind (R := Preserves (AllBacked name))
      (quiet_backed (journalLines_quiet env _)) (fun log => ?_) u
    refine Within.bind (Within.attempt
      (within_preserves_iff.mpr (recover_backed env _))) fun r => ?_
    cases r <;> exact Within.fail _
  | ok _ =>
    have prune : Within (Steady name)
        (Prog.attempt (pruneCandidates env name none) : Act Failure _) :=
      Within.attempt (own_steady (pruneCandidates_own env none))
    refine Within.bind_at (R := Preserves (AllBacked name)) (prune u).allBacked fun _ v hv => ?_
    have hkv := hku.of_carried (prune.of_ok hv).carried
    refine Within.bind_at (R := Preserves (AllBacked name)) (fun hb => ?_) fun _ x _ => id
    rw [Prog.attempt_state]
    exact pruneRollbacks_backed env hb hkv

theorem activateCandidate_backed (version : String) (requestId : Option String) :
    Keeps (AllBacked name) (activateCandidate env name version requestId) := by
  refine within_preserves_iff.mp ?_
  refine Within.bind (within_preserves_iff.mpr (adoptUnrecorded_backed env)) fun _ =>
    Within.read_at fun w => ?_
  have size := failedAt_quiet (fileSize_quiet env (w.candidatePath name version)) .checking
  refine Within.bind_at (quiet_backed size w) fun _ u hu => ?_
  obtain ⟨t, rfl⟩ := size.of_ok hu
  generalize hprev : (w.memory.get name).bind ExtensionState.activeVersion = previous
  have outgoing := outgoingSize_quiet env name previous
  refine Within.bind_at (quiet_backed outgoing _) fun _ u hu => ?_
  have present : ∀ p, previous = some p → w.fileExists (w.rollbackPath name p) = true ∨
      w.fileExists (w.activePath name) = true := by
    rintro p rfl
    simpa using outgoingSize_present hu
  obtain ⟨s, rfl⟩ := outgoing.of_ok hu
  have space := requireActivationSpace_quiet env
  refine Within.bind_at (quiet_backed (space _) _) fun _ u hu => ?_
  obtain ⟨r, rfl⟩ := (space _).of_ok hu
  have retain : Within (Preserves (AllBacked name)) (retainOutgoing env name previous) :=
    within_preserves_iff.mpr (retainOutgoing_backed env previous)
  refine Within.bind_at (retain _) fun _ v hv hbv => ?_
  have hm : v.memory = w.memory := by
    have hc : Confined (Retained name w.scope) _ _ :=
      retainOutgoing_retains env previous (((w.clock t).clock s).clock r)
    rw [hv] at hc
    exact hc.memory
  have hx : ∀ p, previous = some p → v.fileExists (v.rollbackPath name p) = true := by
    rintro p rfl
    exact retainOutgoing_exists env hv (by simpa using present p rfl)
  have hrec := recordActivating_backed env version requestId hbv (hm ▸ hprev.symm) hx
  rw [Prog.bind_apply]
  cases hr : recordActivating env name version requestId previous v <;> rw [hr] at hrec
  case ok a x => exact activateRecorded_backed env version requestId previous _ hrec.1 hrec.2
  case error e x => exact hrec
  case halt x => exact hrec

theorem activateExtension_backed (version : String) (requestId : Option String) :
    Keeps (AllBacked name) (activateExtension env name version requestId) := by
  refine within_preserves_iff.mp (loaded_within (fun _ _ => Tame.allBacked)
    (fun _ _ _ => loadState_mapped env) (Returns.mapError (loadState_quiet env) _) fun s => ?_)
  refine Within.read fun w => ?_
  split
  · exact Within.pure _
  · dsimp only
    split
    · exact within_preserves_iff.mpr (activateCandidate_backed env _ _)
    · exact Within.fail _

end Own
end CarbideOS.Agent
