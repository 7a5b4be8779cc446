import CarbideOS.Proofs.Revert

namespace CarbideOS.Agent
open Interruptible

/-! A node on which every call works can be repaired by activating a working image,
and what still keeps it from that. -/

/-- Nothing fails for an activation of an image, which works once it is merged. What
other images do is left open. -/
structure Smooth (env : Environment) (name : String) (image : Bytes)
    (ruleset : Ruleset) : Prop where
  durable : ∀ step w, env.fault step w = none
  readable : ∀ access w, env.unreadable access w = none
  systemctl : ∀ call w, env.systemctl call w = .ok ()
  refresh : ∀ w, (env.refresh w).1 = .ok ()
  merges : ∀ w : Node, w.activeImage name = some image →
    ({ w with merged := (env.refresh w).2 } : Node).mergedImage name = some image
  supplies : ∀ w : Node, w.mergedImage name = some image → loadNamed env name w = .ok ruleset w.tick
  ready : ∀ w : Node, w.mergedImage name = some image → (waitUntilReady env ruleset w).isOk = true
  soaks : ∀ w : Node, w.mergedImage name = some image → (soak env ruleset w).isOk = true

/-- An active image without a known-good version that declares one, has a usable
ruleset and is not healthy: the activation wants to adopt it first. -/
def Unadoptable (env : Environment) (name : String) (w : Node) : Prop :=
  ((w.memory.get name).bind ExtensionState.knownGoodVersion = none ∧
    w.fileExists (w.activePath name) = true) ∧
  ∃ current ruleset u error v, (env.extensionRelease name w).bind mergedVersionIn = some current ∧
    loadNamed env name w.tick = .ok ruleset u ∧ healthyNow env ruleset u = .error error v

/-- A recorded active version that has neither an active nor a retained image: the
activation wants to retain it first. -/
def Unretainable (name : String) (w : Node) : Prop :=
  ∃ version, (w.memory.get name).bind ExtensionState.activeVersion = some version ∧
    w.rollbackImage name version = none ∧ w.activeImage name = none

section
variable {env : Environment} {name version : String} {image : Bytes} {ruleset : Ruleset}
  {w u : Node}

theorem durableCopy_runs (clean : ∀ step w, env.fault step w = none) {source : Path}
    {bytes : Bytes} (hs : w.readFile source = some bytes) (target : Path) :
    durableCopy env source target w = .ok () (w.publish target bytes).tick := by
  rw [durableCopy, read_apply]
  simp only [hs]
  exact Act.durable_of_clean (clean _ _) _ _

theorem hideLegacy_runs (clean : ∀ step w, env.fault step w = none) (name : String) (w : Node) :
    ∃ u, hideLegacy env name w = .ok () u := by
  rw [hideLegacy, read_apply]
  split
  · rw [durableRemove, read_apply]
    split
    · exact ⟨_, Act.durable_of_clean (clean _ _) _ _⟩
    · exact ⟨w, rfl⟩
  · exact ⟨w, rfl⟩

theorem installActive_runs (clean : ∀ step w, env.fault step w = none) {source : Path}
    {finish : String} (hf : Text.endsWith source.name finish = true)
    (hraw : Text.endsWith finish ".raw" = false ∧ Text.endsWith ".raw" finish = false)
    (hs : w.readFile source = some image) :
    ∃ u, installActive env source name w = .ok () u ∧ u.activeImage name = some image := by
  obtain ⟨v, hv⟩ := hideLegacy_runs clean name w
  have hne : source ≠ legacyActivePath name := path_ne_of_endings hf (endsWith_raw_legacy name) hraw
  have hsv : v.readFile source = some image := (hideLegacy_reads hne hv).trans hs
  have hc := durableCopy_runs clean hsv (scopedActivePath name w.scope)
  have run : installActive env source name w =
      .ok () (v.publish (scopedActivePath name w.scope) image).tick := by
    rw [installActive, read_apply, Prog.bind_of_ok hv]
    exact hc
  obtain ⟨bytes, hb, ha⟩ := installActive_ok hf hraw run
  rw [hs] at hb
  cases hb
  exact ⟨_, run, ha⟩

theorem pruneMatchingIn_runs (clean : ∀ step w, env.fault step w = none) (place : Place)
    (start finish : String) (keep : Option String) (w : Node) :
    ∃ u, pruneMatchingIn env place start finish keep w = .ok () u :=
  ⟨_, Act.durable_of_clean (clean _ _) _ _⟩

/-- Every call works and the image behaves, so the candidate is promoted and merged. -/
theorem promote_runs (smooth : Smooth env name image ruleset) {candidate : Path}
    (hf : Text.endsWith candidate.name ".candidate" = true)
    (hs : w.readFile candidate = some image) : ∃ u, promote env name candidate w = .ok ruleset u ∧
      u.activeImage name = some image ∧ u.mergedImage name = some image := by
  have stops : ∃ t, stopCurrent env name w = .ok () (w.clock t) := by
    rcases loadNamed_quiet env name w with ⟨r, v, hl, t, rfl⟩ | ⟨e, v, hl, t, rfl⟩
    · refine ⟨t + 1, ?_⟩
      rw [stopCurrent, Prog.bind_of_ok (Prog.attempt_eq_ok.mpr (Or.inl ⟨r, rfl, hl⟩))]
      change stopUnit env r.unit (w.clock t) = _
      rw [stopUnit, Act.askFor, smooth.systemctl]
      rfl
    · refine ⟨t, ?_⟩
      exact Prog.bind_of_ok (Prog.attempt_eq_ok.mpr (Or.inr ⟨e, rfl, hl⟩)) _
  obtain ⟨t, stopped⟩ := stops
  obtain ⟨v, installed, active⟩ := @installActive_runs _ name _ (w.clock t) smooth.durable _ _
    hf (by decide) ((Node.clock_readFile w t candidate).trans hs)
  have refreshed : sysextRefresh env v = .ok () { v with merged := (env.refresh v).2 }.tick := by
    unfold sysextRefresh
    simp only [smooth.refresh v]
  have merged := smooth.merges v active
  have reloaded : ∀ x, daemonReload env x = .ok () x.tick := by
    intro x
    rw [daemonReload, Act.askFor, smooth.systemctl]
  refine ⟨({ v with merged := (env.refresh v).2 } : Node).tick.tick.tick, ?_, active, merged⟩
  rw [promote, Prog.bind_of_ok (Prog.mapError_eq_ok.mpr stopped),
    Prog.bind_of_ok (Prog.mapError_eq_ok.mpr installed),
    Prog.bind_of_ok (Prog.mapError_eq_ok.mpr refreshed),
    Prog.bind_of_ok (Prog.mapError_eq_ok.mpr (reloaded _))]
  exact Prog.mapError_eq_ok.mpr (smooth.supplies _ merged)

/-- A check that is passed leaves the node to the next one. -/
theorem judged_runs {m : Act String Unit} (quiet : Quiet m) (passes : (m w).isOk = true)
    (x : Option Bytes) (setback : String → Setback) :
    ∃ t, judged name x m setback w = .ok () (w.clock t) := by
  obtain ⟨a, h⟩ := Outcome.ok_of_isOk passes
  obtain ⟨t, ht⟩ := quiet.of_ok h
  rw [ht] at h
  exact ⟨t, Prog.bind_of_ok (Prog.attempt_eq_ok.mpr (Or.inl ⟨a, rfl, h⟩)) _⟩

theorem store_runs (clean : ∀ step w, env.fault step w = none) (w : Node) :
    store env w = .ok () w.saved :=
  Act.durable_of_clean (clean _ _) _ _

theorem prove_runs (smooth : Smooth env name image ruleset)
    (merged : w.mergedImage name = some image) (x : Option Bytes) :
    ∃ u, prove env name x ruleset w = .ok () u ∧ u.activeImage name = w.activeImage name := by
  have stored : ∀ f v, Prog.mapError (f : String → Setback) (store env) v = .ok () v.saved :=
    fun f v => Prog.mapError_eq_ok.mpr (store_runs smooth.durable v)
  let starting := (w.edit name fun e => { e with phase := .starting }).saved
  obtain ⟨t, ready⟩ := @judged_runs name starting _ (waitUntilReady_quiet env ruleset)
    (smooth.ready starting merged) x fun reason => ⟨reason, .activating, some ruleset.unit⟩
  let soaking := ((starting.clock t).edit name fun e => { e with phase := .soaking }).saved
  obtain ⟨s, soaked⟩ := @judged_runs name soaking _ (soak_quiet env ruleset)
    (smooth.soaks soaking merged) x fun reason => ⟨reason, .soaking, some ruleset.unit⟩
  have run : prove env name x ruleset w = Act.note name x .soaked (soaking.clock s) := by
    rw [prove, Prog.bind_of_ok (Act.entry_apply _ _ _), Prog.bind_of_ok (stored _ _),
      Prog.bind_of_ok ready, Prog.bind_of_ok (Act.entry_apply _ _ _), Prog.bind_of_ok (stored _ _),
      Prog.bind_of_ok soaked]
  have noted : ∃ u, (Act.note name x .soaked : Act Setback Unit) (soaking.clock s) = .ok () u ∧
      Unmerged w u := by
    cases x with
    | none => exact ⟨_, rfl, rfl, fun _ _ => rfl⟩
    | some y => exact ⟨_, rfl, rfl, fun _ _ => rfl⟩
  obtain ⟨u, hu, raw⟩ := noted
  exact ⟨u, run.trans hu, (raw.activeImage name).2⟩

/-- The candidate goes all the way. -/
theorem tryCandidate_runs (smooth : Smooth env name image ruleset) {candidate : Path}
    (hf : Text.endsWith candidate.name ".candidate" = true)
    (hs : w.readFile candidate = some image) (requestId : Option String) :
    ∃ u e, tryCandidate env name version requestId candidate w = .ok () u ∧
      u.activeImage name = some image ∧ u.stored.get name = some e ∧ e.phase = .active ∧
      e.activeVersion = some version := by
  let noted : Node := { w with history := ⟨name, image, .attempted⟩ :: w.history }
  obtain ⟨v, promoted, active, merged⟩ := promote_runs (w := noted) smooth hf hs
  obtain ⟨v', proved, active'⟩ := prove_runs smooth merged (some image)
  have committed : commit env name version requestId ruleset.unit v' =
      .ok () (v'.committed name version requestId).saved := by
    rw [commit_apply, store_runs smooth.durable]
  refine ⟨(v'.committed name version requestId).saved, _, ?_, active'.trans active,
    edit_entry _ _ _, ?_⟩
  · have noting : (Act.note name (some image) .attempted : Act Setback Unit) w = .ok () noted := rfl
    rw [tryCandidate, read_apply, hs, Prog.bind_of_ok noting, Prog.bind_of_ok promoted,
      Prog.bind_of_ok proved, committed]
  · cases requestId with
    | none => exact ⟨rfl, rfl⟩
    | some id =>
      dsimp only [ExtensionState.recordCompleted]
      split <;> exact ⟨rfl, rfl⟩

theorem demand_active (present : w.fileExists (w.activePath name) = true) :
    (Prog.demand (w.fileExists (w.activePath name))
      (.failed ("no active image at " ++ (w.activePath name).display)) : Act AdoptError Unit) w =
        .ok () w := by
  rw [Prog.demand_apply, if_pos present]

theorem adoptActive_runs (clean : ∀ step w, env.fault step w = none) {r : Ruleset} {v v' : Node}
    (present : w.fileExists (w.activePath name) = true)
    (loads : loadNamed env name w = .ok r v) (healthy : healthyNow env r v = .ok () v') :
    (adoptActive env name version w).isOk = true := by
  obtain ⟨t, rfl⟩ := (loadNamed_quiet env name).of_ok loads
  obtain ⟨s, rfl⟩ := (healthyNow_quiet env r).of_ok healthy
  have retains : ∀ x : Node, x.fileExists (x.activePath name) = true →
      ∃ u, retainActive env name version x = .ok () u := by
    intro x hx
    rw [retainActive, read_apply]
    split
    · exact ⟨x, rfl⟩
    · obtain ⟨bytes, hb⟩ := Option.isSome_iff_exists.mp hx
      exact ⟨_, durableCopy_runs clean hb _⟩
  obtain ⟨u, hu⟩ := retains ((w.clock t).clock s) (by simpa using present)
  rw [adoptActive, Prog.bind_of_ok (Prog.mapError_eq_ok.mpr loads), read_apply,
    Prog.bind_of_ok (demand_active (by simpa using present)),
    Prog.bind_of_ok (Prog.mapError_eq_ok.mpr healthy),
    Prog.bind_of_ok (Prog.mapError_eq_ok.mpr hu), Prog.bind_of_ok (Act.entry_apply _ _ _),
    Prog.mapError_eq_ok.mpr (store_runs clean _)]
  rfl

/-- The step before an activation fails only over an unhealthy image it would adopt. -/
theorem adoptUnrecorded_runs (clean : ∀ step w, env.fault step w = none)
    (adoptable : ¬ Unadoptable env name w) : ∃ u, adoptUnrecorded env name w = .ok () u := by
  rw [adoptUnrecorded, read_apply]
  split
  · rename_i hc
    rw [Bool.and_eq_true, Option.isNone_iff_eq_none] at hc
    rw [mergedVersion, Prog.bind_of_ok (Act.ask_apply _ _)]
    cases hv : (env.extensionRelease name w).bind mergedVersionIn with
    | none => exact ⟨w.tick, rfl⟩
    | some current =>
      rcases loadNamed_quiet env name w.tick with ⟨r, v, hl, -⟩ | ⟨e, v, hl, -⟩
      · rcases healthyNow_quiet env r v with ⟨_, v', hh, -⟩ | ⟨e, v', hh, -⟩
        · have present : w.tick.fileExists (w.tick.activePath name) = true := hc.2
          have runs : (adoptActive env name current w.tick).isOk = true :=
            adoptActive_runs clean present hl hh
          obtain ⟨a, hu⟩ := Outcome.ok_of_isOk runs
          exact ⟨_, Prog.bind_of_ok (Prog.attempt_eq_ok.mpr (Or.inl ⟨a, rfl, hu⟩)) _⟩
        · exact absurd ⟨hc, current, r, v, e, v', hv, hl, hh⟩ adoptable
      · have refused : adoptActive env name current w.tick = .error (.noRuleset e) v :=
          Prog.bind_of_error (Prog.mapError_eq_error.mpr ⟨e, hl, rfl⟩) _
        exact ⟨v, Prog.bind_of_ok (Prog.attempt_eq_ok.mpr (Or.inr ⟨_, rfl, refused⟩)) _⟩
  · exact ⟨w, rfl⟩

theorem adoptUnrecorded_adoptable (h : adoptUnrecorded env name w = .ok () u) :
    ¬ Unadoptable env name w := by
  rintro ⟨⟨hk, hf⟩, current, r, v, e, v', hv, hl, hh⟩
  rw [adoptUnrecorded, read_apply, if_pos (by rw [hk, hf]; rfl), mergedVersion,
    Prog.bind_of_ok (Act.ask_apply _ _), hv] at h
  obtain ⟨result, x, hr, h⟩ := Prog.bind_eq_ok.mp h
  obtain ⟨t, rfl⟩ := (loadNamed_quiet env name).of_ok hl
  have refused : adoptActive env name current w.tick = .error (.failed e) v' := by
    have present : (w.tick.clock t).fileExists ((w.tick.clock t).activePath name) = true := hf
    rw [adoptActive, Prog.bind_of_ok (Prog.mapError_eq_ok.mpr hl), read_apply,
      Prog.bind_of_ok (demand_active present)]
    exact Prog.bind_of_error (Prog.mapError_eq_error.mpr ⟨e, hh, rfl⟩) _
  rcases Prog.attempt_eq_ok.mp hr with ⟨_, rfl, ha⟩ | ⟨d, rfl, ha⟩
  · rw [refused] at ha
    cases ha
  · rw [refused] at ha
    cases ha
    cases h

/-- Nothing is adopted where no image is active. -/
theorem adoptUnrecorded_absent (h : w.activeImage name = none) :
    adoptUnrecorded env name w = .ok () w := by
  have hf : w.fileExists (w.activePath name) = false := by
    rw [Node.activeImage] at h
    simp [Node.fileExists, h]
  rw [adoptUnrecorded, read_apply, if_neg (by simp [hf])]
  rfl

/-- The size of the outgoing image is known where it can be retained. -/
theorem outgoingSize_runs (readable : ∀ access w, env.unreadable access w = none)
    {previous : Option String} (retainable : ∀ v, previous = some v →
      w.rollbackImage name v = none → w.activeImage name ≠ none) :
    ∃ n t, outgoingSize env name previous w = .ok n (w.clock t) ∧
      n ≤ ((w.activeImage name).getD []).length := by
  rw [outgoingSize, read_apply]
  cases previous with
  | none => exact ⟨0, w.now, rfl, Nat.zero_le _⟩
  | some v =>
    by_cases hv : w.fileExists (w.rollbackPath name v) = true
    · exact ⟨0, w.now, by simp only [hv]; rfl, Nat.zero_le _⟩
    · have absent : w.rollbackImage name v = none := by
        simpa [Node.fileExists, Node.rollbackImage] using hv
      obtain ⟨bytes, hb⟩ := Option.ne_none_iff_exists'.mp (retainable v rfl absent)
      refine ⟨bytes.length, w.now + 1, ?_, by rw [hb]; exact le_rfl⟩
      have size : fileSize env (w.activePath name) w = .ok bytes.length w.tick := by
        have hr : w.readFile (w.activePath name) = some bytes := hb
        simp only [fileSize, readable, hr]
      simp only [hv]
      exact Prog.mapError_eq_ok.mpr size

theorem requireActivationSpace_runs {required n : Nat} (free : env.available w = .ok n)
    (room : required ≤ n) : requireActivationSpace env required w = .ok () w.tick := by
  have asked : availableBytes env w = .ok n w.tick := by
    rw [availableBytes, Act.askFor, free]
  have checked : failedAt .checking (availableBytes env) w = .ok n w.tick :=
    Prog.mapError_eq_ok.mpr asked
  rw [requireActivationSpace, Prog.bind_of_ok checked, Prog.demand_apply,
    if_pos (by simpa using room)]

theorem retainOutgoing_runs (clean : ∀ step w, env.fault step w = none) (previous : Option String) :
    ∃ u, retainOutgoing env name previous w = .ok () u := by
  rw [retainOutgoing, read_apply]
  cases previous with
  | none => exact ⟨w, rfl⟩
  | some v =>
    dsimp only
    split
    · rename_i h
      obtain ⟨bytes, hb⟩ := Option.isSome_iff_exists.mp (Bool.and_eq_true_iff.mp h).1
      exact ⟨_, Prog.mapError_eq_ok.mpr (durableCopy_runs clean hb _)⟩
    · exact ⟨w, rfl⟩

/-- The image is active and the record says so. -/
def Repaired (name version : String) (image : Bytes) (u : Node) : Prop :=
  u.activeImage name = some image ∧
    ∃ e, u.stored.get name = some e ∧ e.phase = .active ∧ e.activeVersion = some version

theorem activateRecorded_runs (smooth : Smooth env name image ruleset) {candidate : Path}
    (hf : Text.endsWith candidate.name ".candidate" = true)
    (hs : w.readFile candidate = some image) (requestId previous : Option String) :
    ∃ a u, activateRecorded env name version requestId previous candidate w = .ok a u ∧
      Repaired name version image u := by
  obtain ⟨v, e, tried, active, stored, phase, recorded⟩ :=
    @tryCandidate_runs _ _ version _ _ _ smooth _ hf hs requestId
  obtain ⟨v₁, pruned₁⟩ : ∃ u, pruneCandidates env name none v = .ok () u :=
    pruneMatchingIn_runs smooth.durable _ _ _ _ v
  obtain ⟨v₂, pruned₂⟩ : ∃ u, pruneRollbacks env name previous v₁ = .ok () u :=
    pruneMatchingIn_runs smooth.durable _ _ _ _ v₁
  have raw : Unmerged v v₂ :=
    ((Unmerged.pruneCandidates name none).of_ok pruned₁).trans
      ((Unmerged.pruneRollbacks name previous).of_ok pruned₂)
  have record : SameRecord v v₂ :=
    ((pruneCandidates_record env name none).of_ok pruned₁).trans
      ((pruneRollbacks_record env name previous).of_ok pruned₂)
  refine ⟨⟨version, previous, false⟩, v₂, ?_, (raw.activeImage name).2.trans active, e, ?_, phase,
    recorded⟩
  · refine (Prog.bind_of_ok (Prog.attempt_eq_ok.mpr (Or.inl ⟨(), rfl, tried⟩)) _).trans ?_
    refine (Prog.bind_of_ok (Prog.attempt_eq_ok.mpr (Or.inl ⟨(), rfl, pruned₁⟩)) _).trans ?_
    exact (Prog.bind_of_ok (Prog.attempt_eq_ok.mpr (Or.inl ⟨(), rfl, pruned₂⟩)) _)
  · rw [record.stored, stored]

theorem activationSpace_mono {n m : Nat} (h : n ≤ m) (size : Nat) :
    activationSpace size n ≤ activationSpace size m := by
  unfold activationSpace saturatingAdd
  omega

/-- There is room for the image and for a copy of the outgoing one. -/
def Roomy (env : Environment) (name : String) (image : Bytes) (w : Node) : Prop :=
  ∀ u, ∃ n, env.available u = .ok n ∧
    activationSpace image.length ((w.activeImage name).getD []).length ≤ n

theorem activateCandidate_runs (smooth : Smooth env name image ruleset)
    (staged : w.candidateImage name version = some image) (roomy : Roomy env name image w)
    (adoptable : ¬ Unadoptable env name w) (retainable : ¬ Unretainable name w)
    (requestId : Option String) :
    ∃ a u, activateCandidate env name version requestId w = .ok a u ∧
      Repaired name version image u := by
  obtain ⟨v, adopted⟩ := adoptUnrecorded_runs smooth.durable adoptable
  have kept : Retention name w v := (adoptUnrecorded_retention env).of_ok adopted
  have active : v.activeImage name = w.activeImage name := (kept.unmerged.activeImage name).2
  have candidate : v.readFile (v.candidatePath name version) = some image :=
    (kept.candidateImage name version).trans staged
  have outgoing : ∀ k, (v.memory.get name).bind ExtensionState.activeVersion = some k →
      v.rollbackImage name k = none → v.activeImage name ≠ none := by
    intro k hk hr hn
    rw [active] at hn
    rw [adoptUnrecorded_absent hn] at adopted
    cases adopted
    exact retainable ⟨k, hk, hr, hn⟩
  have size : failedAt .checking (fileSize env (v.candidatePath name version)) v =
      .ok image.length v.tick := by
    apply Prog.mapError_eq_ok.mpr
    simp only [fileSize, smooth.readable, candidate]
  obtain ⟨n, t, measured, small⟩ :=
    @outgoingSize_runs _ name v.tick smooth.readable _ outgoing
  obtain ⟨free, hfree, room⟩ := roomy (v.tick.clock t)
  have fits : activationSpace image.length n ≤ free := by
    refine (activationSpace_mono ?_ _).trans room
    rw [← active]
    exact small
  have admitted := requireActivationSpace_runs (w := v.tick.clock t) hfree fits
  obtain ⟨x, retained⟩ := @retainOutgoing_runs _ name (v.tick.clock t).tick smooth.durable
    ((v.memory.get name).bind ExtensionState.activeVersion)
  have still : Retention name (v.tick.clock t).tick x :=
    (retainOutgoing_retention env _).of_ok retained
  have file : x.readFile (v.candidatePath name version) = some image :=
    (still.files _ (endsWith_false (v.endsWith_candidate name version) (by decide))
      (endsWith_false (v.endsWith_candidate name version) (by decide))).trans candidate
  obtain ⟨a, u, ran, done⟩ :=
    @activateRecorded_runs _ _ version _ _ (x.activating name version requestId
      ((v.memory.get name).bind ExtensionState.activeVersion)).saved smooth _
    (v.endsWith_candidate name version) file requestId
    ((v.memory.get name).bind ExtensionState.activeVersion)
  refine ⟨a, u, ?_, done⟩
  have recorded : recordActivating env name version requestId
      ((v.memory.get name).bind ExtensionState.activeVersion) x = .ok () _ :=
    Prog.mapError_eq_ok.mpr (store_runs smooth.durable _)
  rw [activateCandidate, Prog.bind_of_ok adopted, read_apply, Prog.bind_of_ok size,
    Prog.bind_of_ok measured, Prog.bind_of_ok admitted, Prog.bind_of_ok retained,
    Prog.bind_of_ok recorded]
  exact ran

/-- An activation that got as far as its record found nothing in its way. -/
theorem activateCandidate_unblocked {requestId : Option String} {a : Activation}
    (h : activateCandidate env name version requestId w = .ok a u) :
    ¬ Unadoptable env name w ∧ ¬ Unretainable name w := by
  obtain ⟨_, v, adopted, h⟩ := Prog.bind_eq_ok.mp h
  refine ⟨adoptUnrecorded_adoptable adopted, ?_⟩
  rintro ⟨k, hk, hr, hn⟩
  rw [adoptUnrecorded_absent hn] at adopted
  cases adopted
  rw [read_apply] at h
  obtain ⟨size, v₁, h₁, h⟩ := Prog.bind_eq_ok.mp h
  obtain ⟨t, rfl⟩ := (failedAt_quiet (fileSize_quiet env _) _).of_ok h₁
  obtain ⟨outgoing, v₂, h₂, h⟩ := Prog.bind_eq_ok.mp h
  rw [hk] at h₂
  rcases outgoingSize_present h₂ with hp | hp
  · rw [Node.clock_rollbackPath, Node.clock_fileExists, Node.fileExists,
      ← Node.rollbackImage, hr] at hp
    cases hp
  · rw [Node.clock_activePath, Node.clock_fileExists, Node.fileExists, ← Node.activeImage, hn] at hp
    cases hp

/-- On a node where every call works, a staged image that works is activated exactly
if the request is new, no unhealthy image waits to be adopted and no recorded one is
missing. -/
theorem repairable_iff (smooth : Smooth env name image ruleset) {e : ExtensionState}
    (entry : w.stored.get name = some e) (phase : e.phase = .staged)
    (staged : w.candidateImage name version = some image) (roomy : Roomy env name image w)
    (requestId : Option String) :
    (∃ a u, activateExtension env name version requestId w = .ok a u ∧
      Repaired name version image u) ↔
      isReplay (some e) requestId = false ∧ ¬ Unadoptable env name w.loaded ∧
        ¬ Unretainable name w.loaded := by
  have loaded : loadState env w = .ok w.stored w.tick := by
    rw [loadState, smooth.readable]
  have present : w.tick.fileExists (w.candidatePath name version) = true := by
    have hb : w.readFile (w.candidatePath name version) = some image := staged
    rw [Node.fileExists, readFile_tick, hb]
    rfl
  have run : activateExtension env name version requestId w =
      if isReplay (some e) requestId then
        .ok ⟨version, e.knownGoodVersion, true⟩ w.loaded
      else activateCandidate env name version requestId w.loaded := by
    rw [activateExtension, Prog.bind_of_ok (Prog.mapError_eq_ok.mpr loaded),
      Prog.bind_of_ok (Act.hold_apply _ _), read_apply, entry]
    split
    · rfl
    · have present : w.loaded.fileExists (w.loaded.candidatePath name version) = true := present
      dsimp only
      split
      · rfl
      · exact absurd present ‹_›
  rw [run]
  cases replayed : isReplay (some e) requestId with
  | true =>
    simp only [if_true, Bool.true_eq_false, false_and, iff_false]
    rintro ⟨a, u, h, -, d, hd, active, -⟩
    cases h
    have hd : w.stored.get name = some d := hd
    rw [entry] at hd
    cases hd
    rw [phase] at active
    cases active
  | false =>
    simp only [Bool.false_eq_true, if_false, true_and]
    constructor
    · rintro ⟨a, u, h, -⟩
      exact activateCandidate_unblocked h
    · rintro ⟨adoptable, retainable⟩
      exact activateCandidate_runs
        (w := w.loaded) smooth staged roomy adoptable retainable requestId

end

/-- Version `a` does not work and version `b` does. -/
def secondWorks : Bytes → Make
  | [1] => ⟨"n", "1", "a", false⟩
  | _ => ⟨"n", "1", "b", true⟩

/-- A merge takes the active image as it is, and the unit is up while `b` is merged. -/
def obliging : Environment :=
  { calm secondWorks with
    refresh := fun w => (.ok (), ((w.activeImage "n").map fun x => ("n", x)).toList)
    isActive := fun _ w => w.mergedImage "n" == some [2] }

def obligingRuleset : Ruleset := { unit := "n.service" }

theorem obliging_active {ε : Type} {w : Node} (h : w.mergedImage "n" = some [2]) :
    (unitIsActive obliging "n.service" : Act ε Bool) w = .ok true w.tick := by
  have up : obliging.isActive "n.service" w = true := by simp [obliging, h]
  rw [unitIsActive, Act.ask_apply, up]

theorem obliging_smooth : Smooth obliging "n" [2] obligingRuleset where
  durable _ _ := rfl
  readable _ _ := rfl
  systemctl _ _ := rfl
  refresh _ := rfl
  merges w h := by
    simp [obliging, Node.mergedImage, h, Node.extensionName]
    decide
  supplies w h := by
    have contents : obliging.ruleset "n" w = .ok "[Extension]\nUnit=n.service" := by
      simp only [obliging, calm, h]
      rfl
    have loads : Ruleset.load "[Extension]\nUnit=n.service" = .ok obligingRuleset := by
      decide +kernel
    simp only [loadNamed, contents, loads]
  ready w h := by
    have polled : (pollReady obliging "n.service" 1 : Act String Bool) w.tick.tick =
        .ok true w.tick.tick.tick := Prog.bind_of_ok (obliging_active (w := w.tick.tick) h) _
    have started : startUnit obliging "n.service" w = .ok () w.tick := rfl
    have run : waitUntilReady obliging obligingRuleset w = .ok () w.tick.tick.tick :=
      (Prog.bind_of_ok started _).trans (Prog.bind_of_ok polled _)
    rw [run]
    rfl
  soaks w h := by
    have demanded : ∀ v : Node, v.mergedImage "n" = some [2] →
        requireActive obliging obligingRuleset v = .ok () v.tick :=
      fun v hv => Prog.bind_of_ok (obliging_active hv) _
    have rounds : soakRounds obliging obligingRuleset 1 w.tick = .ok () w.tick.tick :=
      Prog.bind_of_ok (demanded w.tick h) _
    have run : soak obliging obligingRuleset w = .ok () w.tick.tick.tick :=
      (Prog.bind_of_ok rounds _).trans (Prog.bind_of_ok (demanded w.tick.tick h) _)
    rw [run]
    rfl

/-- Version `b` is staged on a node that has no image yet. -/
def firstStaged : Node :=
  run obliging [.boot (some "VERSION_ID=1") [], stageFile "n" "/2"] (.with "1" [])

theorem obliging_roomy {w : Node} (h : ((w.activeImage "n").getD []).length ≤ 1) :
    Roomy obliging "n" [2] w := by
  intro u
  refine ⟨2 ^ 40, rfl, ?_⟩
  refine (activationSpace_mono h _).trans ?_
  decide

theorem repairable_iff_first :
    (∃ a u, activateExtension obliging "n" "b" none firstStaged = .ok a u ∧
      Repaired "n" "b" [2] u) ↔
      isReplay (some { candidateVersion := some "b", phase := .staged }) none = false ∧
        ¬ Unadoptable obliging "n" firstStaged.loaded ∧ ¬ Unretainable "n" firstStaged.loaded :=
  repairable_iff obliging_smooth (by decide +kernel) rfl (by decide +kernel)
    (obliging_roomy (by decide +kernel)) none

/-- Version `a` was activated on a node without an image and failed; then `b` is
staged. -/
def stagedAfterFailure : Node :=
  run obliging [.boot (some "VERSION_ID=1") [], stageFile "n" "/1", .command .activate ["n", "a"],
    stageFile "n" "/2"] (.with "1" [])

/-- Everything works for the staged image, and it cannot be activated. -/
theorem failed_first_install_blocks :
    Smooth obliging "n" [2] obligingRuleset ∧
      (stagedAfterFailure.stored.get "n").map ExtensionState.phase = some .staged ∧
      stagedAfterFailure.candidateImage "n" "b" = some [2] ∧
      Roomy obliging "n" [2] stagedAfterFailure ∧
      ¬ ∃ a u, activateExtension obliging "n" "b" none stagedAfterFailure = .ok a u ∧
        Repaired "n" "b" [2] u := by
  refine ⟨obliging_smooth, by decide +kernel, by decide +kernel,
    obliging_roomy (by decide +kernel), ?_⟩
  rintro ⟨a, u, h, -⟩
  have failed : (activateExtension obliging "n" "b" none stagedAfterFailure).isOk = false := by
    decide +kernel
  rw [h] at failed
  cases failed

end CarbideOS.Agent
