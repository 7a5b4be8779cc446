import CarbideOS.Proofs.Fallback
import CarbideOS.Proofs.Repair
import CarbideOS.Proofs.Space

namespace CarbideOS.Agent
open Interruptible

/-- The retained copy of the active image that staging expects to be missing: none if
the known-good version of the record has its image. -/
def Node.unretained (w : Node) (name : String) : Nat :=
  if ((w.stored.get name).bind ExtensionState.knownGoodVersion).any fun version =>
      w.fileExists (w.rollbackPath name version) then 0
  else w.sizeOf (w.activePath name)

/-- A file whose name is that of a candidate. -/
def IsCandidate (f : String) : Prop := Text.endsWith f ".candidate" = true

/-- A candidate is in place whose activation had room at the check before it was placed,
and since then nothing but candidates has changed and no more space is taken. -/
structure Budgeted (capacity : Nat) (name version : String) (x u : Node) : Prop where
  osRelease : u.osRelease = x.osRelease
  files : ∀ f, ¬ IsCandidate f → ¬ Temporary f → u.extensions[f]? = x.extensions[f]?
  used : u.used ≤ x.used
  knownGood : (u.stored.get name).bind ExtensionState.knownGoodVersion =
    (x.stored.get name).bind ExtensionState.knownGoodVersion
  candidate : ∃ image, u.candidateImage name version = some image ∧
    activationSpace image.length (x.unretained name) ≤ capacity - x.used

theorem not_candidate {f finish : String} (hf : Text.endsWith f finish = true)
    (hn : Text.endsWith finish ".candidate" = false ∧ Text.endsWith ".candidate" finish = false) :
    ¬ IsCandidate f :=
  fun h => ne_of_endings hf h hn rfl

namespace Budgeted
variable {capacity : Nat} {name version : String} {x u v : Node}

theorem scope (h : Budgeted capacity name version x u) : u.scope = x.scope := by
  unfold Node.scope Node.osVersion Node.osReleaseValue
  rw [h.osRelease]

theorem rollbackImage (h : Budgeted capacity name version x u) (k : String) :
    u.rollbackImage name k = x.rollbackImage name k := by
  rw [Node.rollbackImage, Node.rollbackImage, Node.rollbackPath, Node.rollbackPath, h.scope]
  exact h.files _ (not_candidate (x.endsWith_rollback name k) (by decide))
    (not_temporary (x.endsWith_rollback name k) (by decide))

theorem active (h : Budgeted capacity name version x u) :
    u.activePath name = x.activePath name ∧ u.activeImage name = x.activeImage name :=
  activePath_of_files h.scope
    (h.files _ (not_candidate (endsWith_raw_scoped name _) (by decide))
      (not_temporary (endsWith_raw_scoped name _) (by decide)))
    (h.files _ (not_candidate (endsWith_raw_legacy name) (by decide))
      (not_temporary (endsWith_raw_legacy name) (by decide)))

/-- The budget can be read off the node that was left. -/
theorem unretained (h : Budgeted capacity name version x u) :
    u.unretained name = x.unretained name := by
  have rollback : ∀ k, u.fileExists (u.rollbackPath name k) =
      x.fileExists (x.rollbackPath name k) :=
    fun k => congrArg Option.isSome (h.rollbackImage k)
  have size : u.sizeOf (u.activePath name) = x.sizeOf (x.activePath name) :=
    congrArg (fun image => (image.getD []).length) h.active.2
  unfold Node.unretained
  rw [h.knownGood, size]
  simp only [rollback]

/-- Nothing is undone by what keeps candidates, the record and the space as they are. -/
theorem later (h : Budgeted capacity name version x u)
    (hc : Confined (fun _ => False) u v) (hf : Frees u v) : Budgeted capacity name version x v := by
  refine ⟨hc.osRelease.trans h.osRelease, fun f hn ht => ?_, le_trans hf h.used, ?_, ?_⟩
  · exact (hc.files f id ht).trans (h.files f hn ht)
  · rw [hc.toSameRecord.stored, h.knownGood]
  · obtain ⟨image, placed, room⟩ := h.candidate
    refine ⟨image, ?_, room⟩
    rw [Node.candidateImage, Node.candidatePath, hc.toSameRecord.scope]
    exact (hc.files _ id (not_temporary (u.endsWith_candidate name version)
      (by decide))).trans placed

end Budgeted

section
variable {env : Environment} {capacity : Nat} {name version : String} {requested : Option String}
  {staging target : Path} {w u : Node}

theorem missingRollbackSize_ok {n : Nat} (h : missingRollbackSize env name w = .ok n u) :
    n = w.unretained name := by
  obtain ⟨s, v, loaded, h⟩ := Prog.bind_eq_ok.mp h
  obtain ⟨rfl, rfl⟩ := loadState_ok loaded
  rw [read_apply] at h
  unfold Node.unretained
  split at h
  · rename_i retained
    cases h
    exact (if_pos retained).symm
  · rename_i retained
    refine Eq.trans ?_ (if_neg retained).symm
    split at h
    · obtain ⟨-, rfl, -⟩ := fileSize_ok h
      exact congrArg (fun o : Option Bytes => (o.getD []).length) (Node.clock_readFile w _ _)
    · rename_i absent
      cases h
      have none : w.tick.readFile (w.activePath name) = none :=
        Option.not_isSome_iff_eq_none.mp absent
      rw [Node.sizeOf, ← readFile_tick, none]
      rfl

/-- The check before an image of the running base is placed. -/
theorem requirePlacementSpace_ok (accounts : env.Accounts capacity)
    (h : requirePlacementSpace env name staging true w = .ok () u) : ∃ bytes,
      w.readFile staging = some bytes ∧
      activationSpace bytes.length (w.unretained name) ≤ capacity - w.used := by
  obtain ⟨size, v₁, h₁, h⟩ := Prog.bind_eq_ok.mp h
  obtain ⟨⟨bytes, read⟩, rfl, rfl⟩ := fileSize_ok (Prog.mapError_eq_ok.mp h₁)
  obtain ⟨rollbackSize, v₂, h₂, h⟩ := Prog.bind_eq_ok.mp h
  have missing : missingRollbackSize env name w.tick = .ok rollbackSize v₂ :=
    Prog.mapError_eq_ok.mp h₂
  obtain ⟨t, rfl⟩ := (missingRollbackSize_quiet env).of_ok missing
  obtain ⟨room, -⟩ := requireActivationSpace_ok accounts h
  refine ⟨bytes, read, ?_⟩
  rw [missingRollbackSize_ok missing, Node.sizeOf, read] at room
  exact room

theorem pruneCandidates_confined (keep : Option String) (w : Node) :
    Confined IsCandidate w (pruneCandidates env name keep w).state :=
  pruneMatchingIn_confined env (fun _ _ _ hf => Or.inl hf) _ w

/-- Placing a candidate changes candidates only and takes no more space. -/
theorem moveIntoPlace_ok (hs : staging.place = .staging) (ht : target.place = .extensions)
    (candidate : IsCandidate target.name) (h : moveIntoPlace env staging target w = .ok () u) :
    Confined IsCandidate w u ∧ Frees w u ∧ u.readFile target = w.readFile staging := by
  obtain ⟨_, v, hv, h⟩ := Prog.bind_eq_ok.mp h
  have hv : durableMode env staging w = .ok () v := Prog.mapError_eq_ok.mp hv
  have h : durableMove env staging target v = .ok () u := Prog.mapError_eq_ok.mp h
  obtain ⟨-, rfl⟩ := Act.durable_ok hv
  have apart : staging.place ≠ target.place := by
    rw [hs, ht]
    exact nofun
  have taken := durableMove_used apart h
  obtain ⟨_, x, copied, removed⟩ := Prog.bind_eq_ok.mp h
  have allowed : Allowed IsCandidate target := fun _ => candidate
  have clear : Allowed IsCandidate staging := fun hp => nomatch hs.symm.trans hp
  have step₁ : Confined IsCandidate w w.tick := (Confined.refl w).tick
  have step₂ : Confined IsCandidate w.tick x :=
    (durableCopy_confined env allowed staging).of_ok copied
  have step₃ : Confined IsCandidate x u := (durableRemove_confined env clear).of_ok removed
  refine ⟨IsTrans.trans _ _ _ step₁ (IsTrans.trans _ _ _ step₂ step₃), taken, ?_⟩
  have here : target ≠ staging := fun he => apart (by rw [he])
  rw [durableRemove_reads removed, if_neg here,
    durableCopy_reads copied (ne_temporary candidate (by decide) _), if_pos rfl, readFile_tick]

theorem recordStaged_ok (h : recordStaged env name version target w = .ok () u) :
    u = (({ w.tick with memory := w.stored } : Node).edit name fun e =>
      { e with candidateVersion := some version, phase := .staged }).saved := by
  obtain ⟨s, v, loaded, h⟩ := Prog.bind_eq_ok.mp h
  obtain ⟨rfl, rfl⟩ := loadState_ok (Prog.mapError_eq_ok.mp loaded)
  rw [Prog.bind_of_ok (Act.hold_apply _ _), Prog.bind_of_ok (Act.entry_apply _ _ _)] at h
  obtain ⟨r, v, hr, h⟩ := Prog.bind_eq_ok.mp h
  rcases Prog.attempt_eq_ok.mp hr with ⟨_, rfl, stored⟩ | ⟨e, rfl, -⟩
  · cases h
    exact store_ok stored
  · obtain ⟨_, v', -, h⟩ := Prog.bind_eq_ok.mp h
    cases h

/-- An image placed for the running base leaves its activation a budget. -/
theorem validateAndPlace_budget (accounts : env.Accounts capacity) (hs : staging.place = .staging)
    {p : Placed} (h : validateAndPlace env name requested staging w = .ok p u)
    (running : p.forRunningBase = true) (declared : p.extensionVersion = some version) :
    ∃ x, Budgeted capacity name version x u := by
  rw [validateAndPlace, read_apply] at h
  obtain ⟨_, v₁, h₁, h⟩ := Prog.bind_eq_ok.mp h
  obtain ⟨-, rfl⟩ := validateImage_ok h₁
  obtain ⟨release, v₂, h₂, h⟩ := Prog.bind_eq_ok.mp h
  obtain ⟨-, rfl⟩ := imageRelease_ok h₂
  obtain ⟨base, v₃, h₃, h⟩ := Prog.bind_eq_ok.mp h
  obtain ⟨rfl, -⟩ := checkRelease_ok h₃
  rw [read_apply] at h
  obtain ⟨target, v₄, h₄, h⟩ := Prog.bind_eq_ok.mp h
  obtain ⟨_, v₅, h₅, h⟩ := Prog.bind_eq_ok.mp h
  obtain ⟨_, v₆, h₆, h⟩ := Prog.bind_eq_ok.mp h
  obtain ⟨_, v₇, h₇, h⟩ := Prog.bind_eq_ok.mp h
  obtain ⟨_, v₈, h₈, h⟩ := Prog.bind_eq_ok.mp h
  cases h
  dsimp only at running declared
  rw [running, declared] at h₄
  rw [running] at h₅ h₆
  rw [running, declared] at h₈
  cases h₄
  obtain ⟨bytes, read, room⟩ := requirePlacementSpace_ok accounts h₅
  obtain ⟨t, rfl⟩ := (requirePlacementSpace_quiet env _ true).of_ok h₅
  have pruned : pruneCandidates env name none (w.tick.tick.clock t) = .ok () v₆ :=
    Prog.mapError_eq_ok.mp h₆
  have step₆ : Confined IsCandidate (w.tick.tick.clock t) v₆ := by
    have h := @pruneCandidates_confined env name none (w.tick.tick.clock t)
    rwa [pruned] at h
  have free₆ : Frees (w.tick.tick.clock t) v₆ :=
    (@pruneMatchingIn_frees env _ _ _ _).of_ok pruned
  have still : v₆.readFile staging = some bytes := by
    have same : Undisturbed (w.tick.tick.clock t) v₆ :=
      (@clearCandidates_undisturbed env name true).of_ok h₆
    exact (same.readFile hs).trans read
  obtain ⟨step₇, free₇, placed⟩ := moveIntoPlace_ok hs rfl
    ((w.tick.tick).endsWith_candidate name version) h₇
  have saved := recordStaged_ok h₈
  have step : Confined IsCandidate (w.tick.tick.clock t) v₇ := IsTrans.trans _ _ _ step₆ step₇
  have free : Frees (w.tick.tick.clock t) v₇ := IsTrans.trans (r := Frees) _ _ _ free₆ free₇
  subst saved
  refine ⟨w.tick.tick.clock t, step.osRelease, step.files, free, ?_, bytes, ?_, room⟩
  · have same : v₇.stored = w.stored := step.toSameRecord.stored
    refine (congrArg (fun e => Option.bind e _) (edit_entry _ _ _)).trans ?_
    change (((v₇.stored.get name).getD {}).knownGoodVersion) =
      (w.stored.get name).bind ExtensionState.knownGoodVersion
    rw [same]
    cases w.stored.get name <;> rfl
  · have path : v₇.candidatePath name version = w.candidatePath name version := by
      simp only [Node.candidatePath, step.toSameRecord.scope]
      rfl
    have image : v₇.readFile (v₇.candidatePath name version) = some bytes := by
      rw [path]
      exact placed.trans still
    exact image

/-- Work in the staging directory that takes no more space. -/
theorem Budgeted.of_ok {ε α : Type} {m : Act ε α} {v : Node} {a : α} {x : Node}
    (h : Budgeted capacity name version x u) (hc : Within (Confined fun _ => False) m)
    (hf : Within Frees m) (run : m u = .ok a v) : Budgeted capacity name version x v :=
  h.later (hc.of_ok run) (hf.of_ok run)

/-- A staging that worked for the running base leaves the activation of its candidate a
budget. -/
theorem stageExtension_budget (accounts : env.Accounts capacity) {base : Option String}
    {source : Source} {s : Staged} (h : stageExtension env name base source w = .ok s u)
    (running : s.forRunningBase = true) (declared : s.extensionVersion = some version) :
    ∃ x, Budgeted capacity name version x u := by
  obtain ⟨_, v, hv, rest⟩ := Prog.bind_eq_ok.mp h
  obtain ⟨-, rfl⟩ := demand_ok hv
  cases source with
  | supplied path digest =>
    have h : supplied env name base path digest w = .ok s u := rest
    rw [supplied_eq] at h
    obtain ⟨_, v₁, -, h⟩ := Prog.bind_eq_ok.mp h
    obtain ⟨placed, v₂, h₂, h⟩ := Prog.bind_eq_ok.mp h
    obtain ⟨_, v₃, h₃, h⟩ := Prog.bind_eq_ok.mp h
    rcases Prog.attempt_eq_ok.mp h₂ with ⟨p, rfl, run⟩ | ⟨e, rfl, -⟩
    · cases h
      obtain ⟨x, budgeted⟩ := validateAndPlace_budget accounts rfl run running declared
      refine ⟨x, budgeted.of_ok ?_ (Within.attempt (durableRemove_frees _)) h₃⟩
      exact Within.attempt (durableRemove_confined env fun hp => nomatch hp)
    · cases h
  | acquire wanted =>
    obtain ⟨target, v₁, -, h⟩ := Prog.bind_eq_ok.mp rest
    have h : acquire env name target wanted v₁ = .ok s u := h
    obtain ⟨selected, v₂, -, h⟩ := Prog.bind_eq_ok.mp h
    obtain ⟨finished, v₃, -, h⟩ := Prog.bind_eq_ok.mp h
    split at h
    · obtain ⟨placed, v₄, h₄, h⟩ := Prog.bind_eq_ok.mp h
      obtain ⟨_, v₅, h₅, h⟩ := Prog.bind_eq_ok.mp h
      rcases Prog.attempt_eq_ok.mp h₄ with ⟨p, rfl, run⟩ | ⟨e, rfl, -⟩
      · cases h
        rw [placeAcquired, read_apply] at run
        obtain ⟨_, y₁, -, run⟩ := Prog.bind_eq_ok.mp run
        obtain ⟨size, y₂, -, run⟩ := Prog.bind_eq_ok.mp run
        obtain ⟨_, y₃, -, run⟩ := Prog.bind_eq_ok.mp run
        obtain ⟨x, budgeted⟩ := validateAndPlace_budget accounts rfl run running declared
        have cleared : Within (Confined fun _ => False) (clearStaged env name) := by
          apply pruneMatchingIn_confined
          rintro ⟨⟩
        exact ⟨x, budgeted.of_ok (Within.attempt cleared)
          (Within.attempt (pruneMatchingIn_frees _ _ _ _)) h₅⟩
      · cases h
    · obtain ⟨_, v₄, -, h⟩ := Prog.bind_eq_ok.mp h
      cases h

end

section
variable {env : Environment} {capacity : Nat} {name version : String}
  {requestId previous : Option String} {w u : Node} {f : Failure}

/-- Before an activation the active image is adopted, or nothing happens but that time
passes. -/
theorem adoptUnrecorded_adopts (h : adoptUnrecorded env name w = .ok () u) :
    (∃ t, u = w.clock t) ∨ (w.memory.get name).bind ExtensionState.knownGoodVersion = none ∧
      ∃ current, adoptActive env name current w.tick = .ok () u := by
  rw [adoptUnrecorded, read_apply] at h
  split at h
  · rename_i hc
    rw [Bool.and_eq_true, Option.isNone_iff_eq_none] at hc
    rw [mergedVersion, Prog.bind_of_ok (Act.ask_apply _ _)] at h
    cases hv : (env.extensionRelease name w).bind mergedVersionIn with
    | none =>
      rw [hv] at h
      cases h
      exact Or.inl ⟨_, rfl⟩
    | some current =>
      rw [hv] at h
      obtain ⟨r, v, hr, h⟩ := Prog.bind_eq_ok.mp h
      rcases Prog.attempt_eq_ok.mp hr with ⟨_, rfl, adopted⟩ | ⟨e, rfl, refused⟩
      · cases h
        exact Or.inr ⟨hc.1, current, adopted⟩
      · cases e with
        | noRuleset error =>
          cases h
          obtain ⟨-, t, rfl⟩ := adoptActive_noRuleset refused
          exact Or.inl ⟨t, rfl⟩
        | failed error => cases h
  · cases h
    exact Or.inl ⟨w.now, rfl⟩

/-- An adopted image is retained, at the cost of a copy at most. -/
theorem adoptActive_retained (h : adoptActive env name version w = .ok () u) :
    u.used ≤ w.used + w.sizeOf (w.activePath name) ∧
      u.fileExists (u.rollbackPath name version) = true ∧
      (u.memory.get name).bind ExtensionState.activeVersion = some version := by
  obtain ⟨r, v₁, h₁, h⟩ := Prog.bind_eq_ok.mp h
  obtain ⟨t₁, rfl⟩ := (loadNamed_quiet env name).of_ok (Prog.mapError_eq_ok.mp h₁)
  rw [read_apply] at h
  obtain ⟨_, v₂, h₂, h⟩ := Prog.bind_eq_ok.mp h
  obtain ⟨-, rfl⟩ := demand_ok h₂
  obtain ⟨_, v₃, h₃, h⟩ := Prog.bind_eq_ok.mp h
  obtain ⟨t₃, rfl⟩ := (healthyNow_quiet env r).of_ok (Prog.mapError_eq_ok.mp h₃)
  obtain ⟨_, v₄, h₄, h⟩ := Prog.bind_eq_ok.mp h
  have h₄ : retainActive env name version (w.clock t₃) = .ok () v₄ := Prog.mapError_eq_ok.mp h₄
  have there := retainActive_exists env h₄
  have taken : v₄.used ≤ w.used + w.sizeOf (w.activePath name) := by
    rw [retainActive, read_apply] at h₄
    split at h₄
    · cases h₄
      exact Nat.le_add_right _ _
    · have copied := durableCopy_used h₄
      have size : (w.clock t₃).sizeOf ((w.clock t₃).activePath name) =
          w.sizeOf (w.activePath name) := by
        rw [Node.sizeOf, Node.clock_readFile]
        rfl
      have same : (w.clock t₃).used = w.used := rfl
      omega
  rw [Prog.bind_of_ok (Act.entry_apply _ _ _)] at h
  cases store_ok (Prog.mapError_eq_ok.mp h)
  refine ⟨taken, there, ?_⟩
  exact congrArg (fun e => Option.bind e ExtensionState.activeVersion) (edit_entry v₄ name _)

theorem outgoingSize_ok {n : Nat} (h : outgoingSize env name previous w = .ok n u) :
    n = 0 ∨ ∃ v, previous = some v ∧ w.rollbackImage name v = none ∧
      fileSize env (w.activePath name) w = .ok n u := by
  rw [outgoingSize, read_apply] at h
  cases previous with
  | none =>
    cases h
    exact Or.inl rfl
  | some v =>
    dsimp only at h
    split at h
    · cases h
      exact Or.inl rfl
    · rename_i missing
      exact Or.inr ⟨v, rfl, Option.not_isSome_iff_eq_none.mp missing, Prog.mapError_eq_ok.mp h⟩

/-- The failures of an activation other than of its check do not blame the space. -/
theorem failedAt_code {α : Type} {stage : Stage} {m : Act String α}
    (h : failedAt stage m w = .error f u) : f.code = .failed := by
  obtain ⟨e, -, rfl⟩ := Prog.mapError_eq_error.mp h
  rfl

theorem adoptUnrecorded_code (h : adoptUnrecorded env name w = .error f u) : f.code = .failed := by
  rw [adoptUnrecorded, read_apply] at h
  split at h
  · rw [mergedVersion, Prog.bind_of_ok (Act.ask_apply _ _)] at h
    cases hv : (env.extensionRelease name w).bind mergedVersionIn with
    | none =>
      rw [hv] at h
      cases h
    | some current =>
      rw [hv] at h
      rcases Prog.bind_eq_error.mp h with h | ⟨r, v, -, h⟩
      · exact absurd h Prog.attempt_ne_error
      · rcases r with (e | e) | _ <;> cases h
        rfl
  · cases h

theorem outgoingSize_code (h : outgoingSize env name previous w = .error f u) :
    f.code = .failed := by
  rw [outgoingSize, read_apply] at h
  cases previous with
  | none => cases h
  | some version =>
    dsimp only at h
    split at h
    · cases h
    · exact failedAt_code h

theorem retainOutgoing_code (h : retainOutgoing env name previous w = .error f u) :
    f.code = .failed := by
  rw [retainOutgoing, read_apply] at h
  cases previous with
  | none => cases h
  | some version =>
    dsimp only at h
    split at h
    · obtain ⟨e, -, rfl⟩ := Prog.mapError_eq_error.mp h
      rfl
    · cases h

theorem activateRecorded_code {candidate : Path}
    (h : activateRecorded env name version requestId previous candidate w = .error f u) :
    f.code = .failed := by
  rcases Prog.bind_eq_error.mp h with h | ⟨r, v, -, h⟩
  · exact absurd h Prog.attempt_ne_error
  · cases r with
    | ok _ =>
      rcases Prog.bind_eq_error.mp h with h | ⟨_, v₂, -, h⟩
      · exact absurd h Prog.attempt_ne_error
      · rcases Prog.bind_eq_error.mp h with h | ⟨_, v₃, -, h⟩
        · exact absurd h Prog.attempt_ne_error
        · cases h
    | error setback =>
      have h : revertSetback env name setback v = .error f u := h
      rcases Prog.bind_eq_error.mp h with h | ⟨log, v₂, -, h⟩
      · cases hu : setback.unit <;> rw [hu] at h <;> cases h
      · rcases Prog.bind_eq_error.mp h with h | ⟨r, v₃, -, h⟩
        · exact absurd h Prog.attempt_ne_error
        · cases r <;> cases h <;> rfl

/-- Only the check of an activation blames the space, and rightly. -/
theorem activateCandidate_noSpace (accounts : env.Accounts capacity)
    (h : activateCandidate env name version requestId w = .error f u) (blamed : f.code = .noSpace) :
    ∃ y size v outgoing x, adoptUnrecorded env name w = .ok () y ∧
      fileSize env (y.candidatePath name version) y = .ok size v ∧
      outgoingSize env name ((y.memory.get name).bind ExtensionState.activeVersion) v =
        .ok outgoing x ∧ capacity - x.used < activationSpace size outgoing := by
  have no : f.code ≠ .failed := by
    rw [blamed]
    exact nofun
  rcases Prog.bind_eq_error.mp h with h | ⟨_, y, adopted, h⟩
  · exact absurd (adoptUnrecorded_code h) no
  rw [read_apply] at h
  rcases Prog.bind_eq_error.mp h with h | ⟨size, v, sized, h⟩
  · exact absurd (failedAt_code h) no
  rcases Prog.bind_eq_error.mp h with h | ⟨outgoing, x, measured, h⟩
  · exact absurd (outgoingSize_code h) no
  rcases Prog.bind_eq_error.mp h with h | ⟨_, v₄, -, h⟩
  · refine ⟨y, size, v, outgoing, x, adopted, Prog.mapError_eq_ok.mp sized, measured, ?_⟩
    rcases Prog.bind_eq_error.mp h with h | ⟨available, v', asked, h⟩
    · exact absurd (failedAt_code h) no
    · obtain ⟨free, rfl⟩ : env.available x = .ok available ∧ v' = x.tick :=
        askFor_ok (g := fun error => (Failure.new .failed error).atStage .checking) asked
      rw [accounts.free x] at free
      cases free
      rw [Prog.demand_apply] at h
      split at h
      · cases h
      · rename_i short
        simpa using short
  rcases Prog.bind_eq_error.mp h with h | ⟨_, v₅, -, h⟩
  · exact absurd (retainOutgoing_code h) no
  rcases Prog.bind_eq_error.mp h with h | ⟨_, v₆, -, h⟩
  · rw [recordActivating_apply] at h
    exact absurd (failedAt_code h) no
  · exact absurd (activateRecorded_code h) no

/-- Nothing on the disk has changed between two nodes. -/
structure SameDisk (u v : Node) : Prop where
  osRelease : v.osRelease = u.osRelease
  extensions : v.extensions = u.extensions
  staging : v.staging = u.staging
  stored : v.stored = u.stored

theorem Budgeted.disk {x v : Node} (h : Budgeted capacity name version x u) (hd : SameDisk u v) :
    Budgeted capacity name version x v := by
  refine ⟨hd.osRelease.trans h.osRelease, fun f hn ht => ?_, ?_, ?_, ?_⟩
  · rw [hd.extensions]
    exact h.files f hn ht
  · rw [used_of_dirs hd.extensions hd.staging]
    exact h.used
  · rw [hd.stored]
    exact h.knownGood
  · obtain ⟨image, placed, room⟩ := h.candidate
    refine ⟨image, ?_, room⟩
    have scope : v.scope = u.scope := by
      unfold Node.scope Node.osVersion Node.osReleaseValue
      rw [hd.osRelease]
    rw [← placed]
    simp only [Node.candidateImage, Node.candidatePath, scope, Node.readFile, Node.dir,
      hd.extensions]

/-- The activation needs a copy staging has not counted: the known-good version has its
image, the recorded active version has none, and what is free does not hold a copy of
the active image besides the candidate. The request is new, and the record and both
sizes can be read. -/
structure Overdrawn (env : Environment) (capacity : Nat) (name version : String)
    (requestId : Option String) (v : Node) : Prop where
  fresh : isReplay (v.stored.get name) requestId = false
  record : env.unreadable .state v = none
  sizes : env.unreadable (.metadata (v.candidatePath name version)) v.loaded = none ∧
    env.unreadable (.metadata (v.activePath name)) v.loaded.tick = none
  retained : ∃ k, (v.stored.get name).bind ExtensionState.knownGoodVersion = some k ∧
    v.fileExists (v.rollbackPath name k) = true
  outgoing : ∃ a, (v.stored.get name).bind ExtensionState.activeVersion = some a ∧
    v.rollbackImage name a = none
  short : ∃ image active, v.candidateImage name version = some image ∧
    v.activeImage name = some active ∧
    capacity - v.used < activationSpace image.length active.length

/-- Where the known-good version has its image nothing is adopted. -/
theorem adoptUnrecorded_known {k : String}
    (h : (w.memory.get name).bind ExtensionState.knownGoodVersion = some k) :
    adoptUnrecorded env name w = .ok () w := by
  rw [adoptUnrecorded, read_apply, if_neg (by simp [h])]
  rfl

theorem fileSize_readable {p : Path} {n : Nat} (h : fileSize env p w = .ok n u) :
    env.unreadable (.metadata p) w = none := by
  unfold fileSize at h
  cases hu : env.unreadable (.metadata p) w with
  | some e =>
    rw [hu] at h
    cases h
  | none => rfl

theorem fileSize_runs {p : Path} {bytes : Bytes} (readable : env.unreadable (.metadata p) w = none)
    (read : w.readFile p = some bytes) : fileSize env p w = .ok bytes.length w.tick := by
  simp only [fileSize, readable, read]

theorem requireActivationSpace_short {required : Nat} (accounts : env.Accounts capacity)
    (short : capacity - w.used < required) :
    ∃ f, requireActivationSpace env required w = .error f w.tick ∧ f.code = .noSpace := by
  have asked : failedAt .checking (availableBytes env) w = .ok (capacity - w.used) w.tick := by
    refine Prog.mapError_eq_ok.mpr ?_
    rw [availableBytes, Act.askFor, accounts.free]
  rw [requireActivationSpace, Prog.bind_of_ok asked, Prog.demand_apply,
    if_neg (by simpa using short)]
  exact ⟨_, rfl, rfl⟩

/-- A request that is new and finds its candidate activates it. -/
theorem activateExtension_eq (record : env.unreadable .state w = none)
    (fresh : isReplay (w.stored.get name) requestId = false)
    (present : w.fileExists (w.candidatePath name version) = true) :
    activateExtension env name version requestId w =
      activateCandidate env name version requestId w.loaded := by
  have loaded : loadState env w = .ok w.stored w.tick := by
    rw [loadState, record]
  refine (Prog.bind_of_ok (Prog.mapError_eq_ok.mpr loaded) _).trans ?_
  have found : w.loaded.fileExists (w.loaded.candidatePath name version) = true := present
  rw [Prog.bind_of_ok (Act.hold_apply _ _), read_apply, if_neg (by simpa using fresh)]
  dsimp only
  rw [if_pos]
  · rfl
  · exact found

/-- An activation that is short of space is refused for it. -/
theorem Overdrawn.refused (accounts : env.Accounts capacity)
    (h : Overdrawn env capacity name version requestId w) :
    ∃ f u, activateExtension env name version requestId w = .error f u ∧ f.code = .noSpace := by
  obtain ⟨k, known, -⟩ := h.retained
  obtain ⟨a, active, missing⟩ := h.outgoing
  obtain ⟨image, X, candidate, current, short⟩ := h.short
  have sized : failedAt .checking (fileSize env (w.loaded.candidatePath name version)) w.loaded =
      .ok image.length w.loaded.tick := Prog.mapError_eq_ok.mpr (fileSize_runs h.sizes.1 candidate)
  have measured : outgoingSize env name (some a) w.loaded.tick =
      .ok X.length w.loaded.tick.tick := by
    have absent : w.loaded.tick.fileExists (w.loaded.tick.rollbackPath name a) = false :=
      congrArg Option.isSome missing
    rw [outgoingSize, read_apply]
    simp only [absent]
    exact Prog.mapError_eq_ok.mpr (fileSize_runs h.sizes.2 current)
  obtain ⟨f, refused, code⟩ :=
    requireActivationSpace_short (w := w.loaded.tick.tick) accounts short
  refine ⟨f, w.loaded.tick.tick.tick, ?_, code⟩
  rw [activateExtension_eq h.record h.fresh (congrArg Option.isSome candidate), activateCandidate,
    Prog.bind_of_ok (adoptUnrecorded_known known), read_apply, Prog.bind_of_ok sized]
  have recorded : (w.loaded.memory.get name).bind ExtensionState.activeVersion = some a := active
  rw [recorded, Prog.bind_of_ok measured, Prog.bind_of_error refused]

/-- An activation refused for space that staging had budgeted is overdrawn. -/
theorem Budgeted.overdrawn (accounts : env.Accounts capacity) {x v : Node}
    (budgeted : Budgeted capacity name version x v)
    (failed : activateExtension env name version requestId v = .error f u)
    (blamed : f.code = .noSpace) : Overdrawn env capacity name version requestId v := by
  obtain ⟨image, candidate, room⟩ := budgeted.candidate
  have bounded := accounts.fits
  have size : v.sizeOf (v.candidatePath name version) = image.length := Node.sizeOf_eq candidate
  rw [activationSpace_le_iff (by omega), ← budgeted.unretained] at room
  rcases Prog.bind_eq_error.mp failed with h | ⟨s, v', hv, h⟩
  · obtain ⟨e, -, rfl⟩ := Prog.mapError_eq_error.mp h
    cases blamed
  obtain ⟨rfl, rfl⟩ := loadState_ok (Prog.mapError_eq_ok.mp hv)
  have record : env.unreadable .state v = none := by
    have loaded : loadState env v = .ok v.stored v.tick := Prog.mapError_eq_ok.mp hv
    unfold loadState at loaded
    cases hu : env.unreadable .state v with
    | some e =>
      rw [hu] at loaded
      cases loaded
    | none => rfl
  rw [Prog.bind_of_ok (Act.hold_apply _ _), read_apply] at h
  split at h
  · cases h
  rename_i fresh
  dsimp only at h
  split at h
  · have h : activateCandidate env name version requestId v.loaded = .error f u := h
    obtain ⟨y, n, y₁, outgoing, y₂, adopted, sized, measured, short⟩ :=
      activateCandidate_noSpace accounts h blamed
    obtain ⟨-, rfl, rfl⟩ := fileSize_ok sized
    obtain ⟨t, rfl⟩ := (outgoingSize_quiet env name _).of_ok measured
    have taken : (y.tick.clock t).used = y.used := rfl
    have freed := budgeted.used
    have fits : ¬ y.sizeOf (y.candidatePath name version) + outgoing + spaceMargin ≤
        capacity - y.used := by
      rw [taken] at short
      rw [← activationSpace_le_iff (by omega)]
      omega
    rcases adoptUnrecorded_adopts adopted with ⟨t', rfl⟩ | ⟨unknown, current, adoption⟩
    · -- nothing was adopted: the activation wants more than staging has counted
      have same : (v.loaded.clock t').used = v.used := rfl
      have candidate' : (v.loaded.clock t').sizeOf
          ((v.loaded.clock t').candidatePath name version) =
          image.length := size
      rw [same, candidate'] at fits
      have more : v.unretained name < outgoing := by omega
      rcases outgoingSize_ok measured with rfl | ⟨a, recorded, missing, weighed⟩
      · omega
      obtain ⟨⟨X, current⟩, rfl, -⟩ := fileSize_ok weighed
      have weight : ((v.loaded.clock t').tick).sizeOf
          (((v.loaded.clock t').tick).activePath name) = v.sizeOf (v.activePath name) := rfl
      rw [weight] at more fits
      obtain ⟨k, known, there⟩ : ∃ k,
        (v.stored.get name).bind ExtensionState.knownGoodVersion = some k ∧
          v.fileExists (v.rollbackPath name k) = true := by
        unfold Node.unretained at more
        split at more
        · cases hk : (v.stored.get name).bind ExtensionState.knownGoodVersion with
          | none => simp_all
          | some k => exact ⟨k, rfl, by simp_all⟩
        · omega
      have start : adoptUnrecorded env name v.loaded = .ok () v.loaded :=
        adoptUnrecorded_known known
      have still : v.loaded.clock t' = v.loaded :=
        (Outcome.ok.inj (start.symm.trans adopted)).2.symm
      rw [still] at sized weighed recorded
      exact ⟨by simpa using fresh, record, ⟨fileSize_readable sized, fileSize_readable weighed⟩,
        ⟨k, known, there⟩, ⟨a, recorded, missing⟩, image, X, candidate, current, by
          rw [← not_le, activationSpace_le_iff (by omega)]
          have weight : v.sizeOf (v.activePath name) = X.length := Node.sizeOf_eq current
          rw [← weight]
          exact fits⟩
    · -- the active image was adopted, at the cost staging has counted
      obtain ⟨cost, there, recorded⟩ := adoptActive_retained adoption
      have counted : v.unretained name = v.sizeOf (v.activePath name) := by
        have unknown : (v.stored.get name).bind ExtensionState.knownGoodVersion = none := unknown
        rw [Node.unretained, unknown]
        rfl
      have cost : y.used ≤ v.used + v.sizeOf (v.activePath name) := cost
      rcases outgoingSize_ok measured with rfl | ⟨a, named, missing, -⟩
      · have kept : Kept name v.loaded.tick y := (adoptActive_kept env current).of_ok adoption
        have candidate' : y.sizeOf (y.candidatePath name version) = image.length :=
          Node.sizeOf_eq ((kept.unreplaced.candidateImage name version).trans candidate)
        omega
      · cases recorded.symm.trans named
        rw [Node.fileExists, ← Node.rollbackImage] at there
        have missing : y.rollbackImage name current = none := missing
        rw [missing] at there
        cases there
  · cases h
    cases blamed

/-- Once an image is staged for the running base and the disk is left alone, its
activation is refused for want of space exactly if it is overdrawn. -/
theorem budget_covers_iff (accounts : env.Accounts capacity) {base : Option String}
    {source : Source} {s : Staged} {v : Node}
    (staged : stageExtension env name base source w = .ok s u) (running : s.forRunningBase = true)
    (declared : s.extensionVersion = some version) (undisturbed : SameDisk u v) :
    (∀ f x, activateExtension env name version requestId v = .error f x → f.code ≠ .noSpace) ↔
      ¬ Overdrawn env capacity name version requestId v := by
  constructor
  · intro h overdrawn
    obtain ⟨f, x, refused, blamed⟩ := overdrawn.refused accounts
    exact h f x refused blamed
  · intro h f x failed blamed
    obtain ⟨y, budgeted⟩ := stageExtension_budget accounts staged running declared
    exact h ((budgeted.disk undisturbed).overdrawn accounts failed blamed)

end

/-- A node where every call works, on a file system of a given size. -/
def metered (capacity : Nat) (make : Bytes → Make) : Environment :=
  { calm make with available := fun w => .ok (capacity - w.used) }

/-- Room for one image besides those of a node with two and a staged copy. -/
def tight : Nat := spaceMargin + 4

theorem metered_accounts {make : Bytes → Make} : (metered tight make).Accounts tight :=
  ⟨fun _ => rfl, by decide⟩

/-- Three working versions of one extension for one base. -/
def threeVersions : Bytes → Make
  | [1] => ⟨"n", "1", "a", true⟩
  | [2] => ⟨"n", "1", "b", true⟩
  | _ => ⟨"n", "1", "c", true⟩

theorem budget_covers_iff_first :
    let w := Node.with "1" []
    let u := (stageExtension (metered tight threeVersions) "n" none (.supplied "/2" "d") w).state
    (∀ f x, activateExtension (metered tight threeVersions) "n" "b" none u = .error f x →
        f.code ≠ .noSpace) ↔
      ¬ Overdrawn (metered tight threeVersions) tight "n" "b" none u := by
  intro w u
  have staged : (stageExtension (metered tight threeVersions) "n" none
      (.supplied "/2" "d") w).value =
      some ⟨"n", "1", ⟨.extensions, "n_1.raw.b.candidate"⟩, false, some "b", true⟩ := by
    decide +kernel
  exact budget_covers_iff metered_accounts (Outcome.eq_ok staged) rfl rfl ⟨rfl, rfl, rfl, rfl⟩

/-- Version `a` is adopted and retained, `b` is activated, and `c` is staged. -/
def stagedThird : Node :=
  run (metered tight threeVersions) [.boot (some "VERSION_ID=1") [], .command .adopt ["n", "a"],
    stageFile "n" "/2", .command .activate ["n", "b"], stageFile "n" "/3"]
    (.with "1" [("n_1.raw", [1])])

/-- Staging counted no copy, since the known-good version is retained; the activation
wants one of the active version, and has no room for it. -/
theorem staged_then_no_space :
    let request : Request := { name := some "n", version := some "c" }
    let outcome :=
      Call.activateExtension.run (metered tight threeVersions) request stagedThird.process
    (stagedThird.stored.get "n").map ExtensionState.phase = some .staged ∧
      stagedThird.candidateImage "n" "c" = some [3] ∧
      outcome.failure.map Failure.code = some .noSpace := by
  decide +kernel

end CarbideOS.Agent
