import CarbideOS.Proofs.Effects
import CarbideOS.Proofs.Others

namespace CarbideOS.Agent
open Interruptible

/-- Every file a merge could take is as it was. -/
structure Unmerged (w u : Node) : Prop where
  osRelease : u.osRelease = w.osRelease
  raw : ∀ f, Text.endsWith f ".raw" = true → u.extensions[f]? = w.extensions[f]?

instance : IsPreorder Node Unmerged where
  refl _ := ⟨rfl, fun _ _ => rfl⟩
  trans _ _ _ h h' := ⟨h'.osRelease.trans h.osRelease, fun f hf => (h'.raw f hf).trans (h.raw f hf)⟩

namespace Unmerged
variable {env : Environment} {w u v : Node} {ε α : Type}

protected theorem trans (h : Unmerged w u) (h' : Unmerged u v) : Unmerged w v :=
  IsTrans.trans w u v h h'

theorem scope (h : Unmerged w u) : u.scope = w.scope := by
  unfold Node.scope Node.osVersion Node.osReleaseValue
  rw [h.osRelease]

theorem rollbackPath (h : Unmerged w u) (name version : String) :
    u.rollbackPath name version = w.rollbackPath name version := by
  simp only [Node.rollbackPath, h.scope]

theorem activeImage (h : Unmerged w u) (name : String) :
    u.activePath name = w.activePath name ∧ u.activeImage name = w.activeImage name :=
  activePath_of_files h.scope (h.raw _ (endsWith_raw_scoped name _))
    (h.raw _ (endsWith_raw_legacy name))

theorem of_quiet {m : Act ε α} (h : Quiet m) : Within Unmerged m := by
  refine (Returns.within h).mono ?_
  rintro w _ ⟨t, rfl⟩
  exact ⟨rfl, fun _ _ => rfl⟩

theorem refresh : Within Unmerged (sysextRefresh env) := by
  intro w
  unfold sysextRefresh
  dsimp only
  split <;> exact ⟨rfl, fun _ _ => rfl⟩

/-- Work on the files of one kind that is not merged. -/
theorem of_confined {names : String → Prop} (h : Confined names w u)
    (hn : ∀ f, names f → Text.endsWith f ".raw" = false) : Unmerged w u := by
  refine ⟨h.osRelease, fun f hf => h.files f (fun hx => ?_) fun ht => ?_⟩
  · rw [hn f hx] at hf
    cases hf
  · exact ne_of_endings hf ht.2 (by decide) rfl

theorem pruneRollbacks (name : String) (keep : Option String) :
    Within Unmerged (pruneRollbacks env name keep) := fun w =>
  of_confined (pruneRollbacks_confined env keep w) fun _ h => endsWith_false h.2 (by decide)

theorem of_tidied (h : Tidied w u) : Unmerged w u :=
  ⟨h.osRelease, fun f hf =>
    h.files f (endsWith_false hf (by decide)) (endsWith_false hf (by decide))⟩

theorem pruneCandidates (name : String) (keep : Option String) :
    Within Unmerged (pruneCandidates env name keep) :=
  (pruneCandidates_tidied env name keep).mono fun _ _ => of_tidied

end Unmerged

/-- Every file but retained images and unpublished copies is as it was. -/
structure Unreplaced (w u : Node) : Prop where
  osRelease : u.osRelease = w.osRelease
  files : ∀ f, Text.endsWith f ".rollback" = false → Text.endsWith f ".new" = false →
    u.extensions[f]? = w.extensions[f]?

instance : IsPreorder Node Unreplaced where
  refl _ := ⟨rfl, fun _ _ _ => rfl⟩
  trans _ _ _ h h' := ⟨h'.osRelease.trans h.osRelease, fun f hr hn =>
    (h'.files f hr hn).trans (h.files f hr hn)⟩

theorem Unreplaced.unmerged {w u : Node} (h : Unreplaced w u) : Unmerged w u :=
  ⟨h.osRelease, fun f hf =>
    h.files f (endsWith_false hf (by decide)) (endsWith_false hf (by decide))⟩

theorem Unreplaced.candidateImage {w u : Node} (h : Unreplaced w u) (name version : String) :
    u.candidateImage name version = w.candidateImage name version := by
  simp only [Node.candidateImage, Node.candidatePath, h.unmerged.scope]
  exact h.files _ (endsWith_false (w.endsWith_candidate name version) (by decide))
    (endsWith_false (w.endsWith_candidate name version) (by decide))

section
variable {env : Environment} {name reason version : String} {w u : Node}

/-- A known-good image that was put back and works is active. -/
theorem restoreKnownGood_ok
    (h : restoreKnownGood env name reason version (w.rollbackPath name version) w = .ok () u) :
    ∃ bytes, w.rollbackImage name version = some bytes ∧ u.activeImage name = some bytes := by
  obtain ⟨_, v₁, h₁, h⟩ := Prog.bind_eq_ok.mp h
  obtain ⟨t, rfl⟩ := (stopMerged_quiet env name).of_ok h₁
  obtain ⟨_, v₂, h₂, h⟩ := Prog.bind_eq_ok.mp h
  obtain ⟨bytes, hb, ha⟩ := installActive_ok (w.endsWith_rollback name version) (by decide)
    (Prog.mapError_eq_ok.mp h₂)
  rw [Node.clock_readFile] at hb
  refine ⟨bytes, hb, ?_⟩
  have rest : Unmerged v₂ u := by
    obtain ⟨_, v₃, h₃, h⟩ := Prog.bind_eq_ok.mp h
    obtain ⟨_, v₄, h₄, h⟩ := Prog.bind_eq_ok.mp h
    obtain ⟨r, v₅, h₅, h⟩ := Prog.bind_eq_ok.mp h
    have step₃ : Unmerged v₂ v₃ := (Within.mapError Unmerged.refresh).of_ok h₃
    have step₄ : Unmerged v₃ v₄ :=
      (Within.mapError (Unmerged.of_quiet (daemonReload_quiet env))).of_ok h₄
    have step₅ : Unmerged v₄ v₅ :=
      (Within.mapError (Unmerged.of_quiet (loadNamed_quiet env name))).of_ok h₅
    have step₆ : Unmerged v₅ u :=
      (Within.mapError (Unmerged.of_quiet (healthyNow_quiet env r))).of_ok h
    exact ((step₃.trans step₄).trans step₅).trans step₆
  rw [(rest.activeImage name).2, ha]

/-- The end of a recovery that worked has recorded it, in memory and on disk. -/
theorem concludeRecovery_ok (h : concludeRecovery env name reason version w = .ok () u) :
    u.memory = (w.recovered name reason version).memory ∧ u.stored = u.memory ∧ Unmerged w u := by
  rw [concludeRecovery, Prog.bind_of_ok (Act.entry_apply _ _ _)] at h
  obtain ⟨_, v₁, h₁, h⟩ := Prog.bind_eq_ok.mp h
  obtain ⟨_, v₂, h₂, h⟩ := Prog.bind_eq_ok.mp h
  obtain ⟨_, v₃, h₃, h⟩ := Prog.bind_eq_ok.mp h
  cases h
  have saved : v₁ = (w.recovered name reason version).saved := store_ok (Prog.mapError_eq_ok.mp h₁)
  have step₂ : SameRecord v₁ v₂ := (Within.attempt (pruneCandidates_record env name none)).of_ok h₂
  have step₃ : SameRecord v₂ u :=
    (Within.attempt (pruneRollbacks_record env name (some version))).of_ok h₃
  have hm := step₃.memory.trans step₂.memory
  have hs := step₃.stored.trans step₂.stored
  rw [saved] at hm hs
  refine ⟨hm, hs.trans hm.symm, ?_⟩
  have raw₁ : Unmerged w v₁ := by
    rw [saved]
    exact ⟨rfl, fun _ _ => rfl⟩
  have raw₂ : Unmerged v₁ v₂ := (Within.attempt (Unmerged.pruneCandidates name none)).of_ok h₂
  have raw₃ : Unmerged v₂ u :=
    (Within.attempt (Unmerged.pruneRollbacks name (some version))).of_ok h₃
  exact (raw₁.trans raw₂).trans raw₃

/-- A recovery that worked: the known-good image is active and recorded as such. -/
structure RecoveredTo (name version : String) (bytes : Bytes) (w u : Node) : Prop where
  known : (w.memory.get name).bind ExtensionState.knownGoodVersion = some version
  image : w.rollbackImage name version = some bytes
  active : u.activeImage name = some bytes
  entry : ∃ e, u.memory.get name = some e ∧ e.phase = .recovered ∧
    e.activeVersion = some version ∧ e.knownGoodVersion = some version ∧ e.candidateVersion = none
  stored : u.stored = u.memory

theorem revertTo_ok
    (hk : (w.memory.get name).bind ExtensionState.knownGoodVersion = some version)
    (h : revertTo env name reason version (w.rollbackPath name version) w = .ok () u) :
    ∃ bytes, RecoveredTo name version bytes w u := by
  rw [revertTo, Prog.bind_of_ok (Act.entry_apply _ _ _)] at h
  obtain ⟨_, v₁, h₁, h⟩ := Prog.bind_eq_ok.mp h
  have saved : v₁ = (w.reverting name reason).saved := store_ok (Prog.mapError_eq_ok.mp h₁)
  have rollback : v₁.rollbackPath name version = w.rollbackPath name version := by
    rw [saved]
    rfl
  obtain ⟨restored, v₂, h₂, h⟩ := Prog.bind_eq_ok.mp h
  rcases Prog.attempt_eq_ok.mp h₂ with ⟨_, rfl, hr⟩ | ⟨message, rfl, -⟩
  · have h : concludeRecovery env name reason version v₂ = .ok () u := h
    obtain ⟨hm, hs, raw⟩ := concludeRecovery_ok h
    have hrm := ((restoreKnownGood_record env name reason version _).of_ok hr).memory
    rw [← rollback] at hr
    obtain ⟨bytes, hb, ha⟩ := restoreKnownGood_ok hr
    refine ⟨bytes, hk, ?_, ?_, ?_, hs⟩
    · rw [saved] at hb
      exact hb
    · rw [(raw.activeImage name).2, ha]
    · rw [hm, Node.recovered, edit_entry]
      refine ⟨_, rfl, rfl, rfl, ?_, rfl⟩
      have hkr : (v₂.memory.get name).bind ExtensionState.knownGoodVersion = some version := by
        rw [hrm, saved]
        exact (knownGood_reverting w name reason).trans hk
      cases hg : v₂.memory.get name with
      | none =>
        rw [hg] at hkr
        cases hkr
      | some e =>
        rw [hg] at hkr
        exact hkr
  · have h : terminal env name message v₂ = .ok () u := h
    exact absurd h terminal_ne_ok

theorem recover_ok (h : recover env name reason w = .ok () u) :
    ∃ version bytes, RecoveredTo name version bytes w u := by
  rw [recover, read_apply] at h
  cases hk : (w.memory.get name).bind ExtensionState.knownGoodVersion with
  | none =>
    simp only [hk] at h
    exact absurd h terminal_ne_ok
  | some version =>
    simp only [hk] at h
    split at h
    · exact ⟨version, revertTo_ok hk h⟩
    · exact absurd h terminal_ne_ok

end
end CarbideOS.Agent
