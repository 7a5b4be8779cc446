import CarbideOS.Proofs.Calm

namespace CarbideOS.Agent
open Interruptible

/-- One required extension under examination. -/
structure Examination where
  name : String
  /-- What was merged when the gate started looking. -/
  merged : List String
  node : Node

section
variable (env : Environment)

/-- The examinations a list of required extensions goes through, each from the node
the one before left. A machine that stops examines no further. -/
def examinations (merged : List String) : List String → Node → List Examination
  | [], _ => []
  | name :: rest, w =>
    ⟨name, merged, w⟩ :: match verifyOrRecover env name merged w with
      | .ok _ u => examinations merged rest u
      | .error _ u => examinations merged rest u
      | .halt _ => []

/-- The examinations of the gate at a node. -/
def gateExaminations (w : Node) : List Examination :=
  match loadForgetting env w with
  | .ok _ u =>
    examinations env (((env.sysextStatus u).getD []).map Node.extensionName).dedup
      u.memory.required u.tick
  | _ => []

namespace Examination

def fails (x : Examination) : Prop :=
  ∃ msg u, verifyOrRecover env x.name x.merged x.node = .error msg u

/-- A check that does not pass, and the node from which recovery starts. -/
inductive FallsBack (x : Examination) : String → Node → Prop where
  | noRuleset {error : String} {v : Node} (unusable : loadNamed env x.name x.node =
    .error error v) :
      x.FallsBack s!"no usable ruleset: {error}" v
  | notMerged {ruleset : Ruleset} {v : Node}
      (usable : loadNamed env x.name x.node = .ok ruleset v)
      (missing : (!x.merged.isEmpty && !x.merged.contains x.name) = true) :
      x.FallsBack "required extension is not merged" v
  | unhealthy {ruleset : Ruleset} {v v' : Node} {reason : String}
      (usable : loadNamed env x.name x.node = .ok ruleset v)
      (present : (!x.merged.isEmpty && !x.merged.contains x.name) = false)
      (sick : healthyNow env ruleset v = .error reason v') : x.FallsBack reason v'

/-- A check that passes, and the node at which it has. -/
structure Passes (x : Examination) (ruleset : Ruleset) (v : Node) : Prop where
  usable : ∃ u, loadNamed env x.name x.node = .ok ruleset u ∧ healthyNow env ruleset u = .ok () v
  present : (!x.merged.isEmpty && !x.merged.contains x.name) = false

/-- A merged version that is not the recorded one, or has no image retained. -/
def unretained (w : Node) (name version : String) : Bool :=
  ((w.memory.get name).bind ExtensionState.activeVersion != some version) ||
    !(w.fileExists (w.rollbackPath name version))

/-- An image that was just seen healthy cannot be copied into the rollback slot. -/
def CopyFails (name version : String) (w : Node) (error : String) (u : Node) : Prop :=
  (Act.note name (w.mergedImage name) .soaked >>= fun _ =>
    durableCopy env (w.activePath name) (w.rollbackPath name version)) w = .error error u

/-- The exit without a recovery: the check passes, the merged version has yet to be
retained, and its soak fails or its image cannot be copied. -/
def MissedExit (x : Examination) : Prop :=
  x.node.isTerminal x.name = false ∧ ∃ ruleset v version, x.Passes env ruleset v ∧
    (env.extensionRelease x.name v).bind mergedVersionIn = some version ∧
    unretained v x.name version = true ∧
    ((∃ e u, soak env ruleset v.tick = .error e u) ∨
      ∃ u e u', soak env ruleset v.tick = .ok () u ∧ CopyFails env x.name version u e u')

/-- A recovery of this examination restores an image but cannot record it, before
or after. -/
def LosesRecord (x : Examination) : Prop :=
  x.node.isTerminal x.name = false ∧ ∃ reason v version u, x.FallsBack env reason v ∧
    (v.memory.get x.name).bind ExtensionState.knownGoodVersion = some version ∧
    v.fileExists (v.rollbackPath x.name version) = true ∧
    RecordLost env x.name reason version v u

/-- If the examination fails, the extension was terminal before, or recovery was run
for it and ended terminal, and a known-good image that is there was put back and tried. -/
def Exhausted (x : Examination) : Prop :=
  ∀ msg u, verifyOrRecover env x.name x.merged x.node = .error msg u →
    x.node.isTerminal x.name = true ∨
      ∃ reason v, x.FallsBack env reason v ∧ recover env x.name reason v = .error msg u ∧
        u.isTerminal x.name = true ∧ ∀ version,
          (v.memory.get x.name).bind ExtensionState.knownGoodVersion = some version →
            v.fileExists (v.rollbackPath x.name version) = true →
              Tried env x.name reason version v

variable {env} {x : Examination}

theorem Passes.later {ruleset : Ruleset} {v : Node} (h : x.Passes env ruleset v) :
    ∃ t, v = x.node.clock t := by
  obtain ⟨u, hl, hh⟩ := h.usable
  obtain ⟨t, rfl⟩ := (loadNamed_quiet env x.name).of_ok hl
  obtain ⟨s, rfl⟩ := (healthyNow_quiet env _).of_ok hh
  exact ⟨s, rfl⟩

/-- An examination refuses a terminal extension, falls back, or passes. -/
theorem cases (env : Environment) (x : Examination) :
    x.node.isTerminal x.name = true ∨ x.node.isTerminal x.name = false ∧
      ((∃ reason v, x.FallsBack env reason v) ∨ ∃ ruleset v, x.Passes env ruleset v) := by
  cases ht : x.node.isTerminal x.name with
  | true => exact Or.inl rfl
  | false =>
    refine Or.inr ⟨rfl, ?_⟩
    rcases loadNamed_quiet env x.name x.node with ⟨ruleset, v, hl, -⟩ | ⟨e, v, hl, -⟩
    · cases hm : (!x.merged.isEmpty && !x.merged.contains x.name) with
      | true => exact Or.inl ⟨_, v, .notMerged hl hm⟩
      | false =>
        rcases healthyNow_quiet env ruleset v with ⟨_, u, hh, -⟩ | ⟨reason, u, hh, -⟩
        · exact Or.inr ⟨ruleset, u, ⟨v, hl, hh⟩, hm⟩
        · exact Or.inl ⟨reason, u, .unhealthy hl hm hh⟩
    · exact Or.inl ⟨_, v, .noRuleset hl⟩

theorem verify_of_terminal (ht : x.node.isTerminal x.name = true) :
    verifyOrRecover env x.name x.merged x.node =
      .error "in a terminal state; not retrying automatically" x.node := by
  rw [verifyOrRecover, read_apply]
  rw [Node.isTerminal] at ht
  simp only [ht, if_true]
  rfl

theorem verify_of_fallsBack (ht : x.node.isTerminal x.name = false) {reason : String} {v : Node}
    (h : x.FallsBack env reason v) :
    verifyOrRecover env x.name x.merged x.node = recover env x.name reason v := by
  rw [verifyOrRecover, read_apply]
  rw [Node.isTerminal] at ht
  simp only [ht, Bool.false_eq_true, if_false]
  cases h with
  | noRuleset unusable =>
    exact Prog.bind_of_ok (Prog.attempt_eq_ok.mpr (Or.inr ⟨_, rfl, unusable⟩)) _
  | notMerged usable missing =>
    rw [Prog.bind_of_ok (Prog.attempt_eq_ok.mpr (Or.inl ⟨_, rfl, usable⟩))]
    simp only [missing, if_true]
  | unhealthy usable present sick =>
    rw [Prog.bind_of_ok (Prog.attempt_eq_ok.mpr (Or.inl ⟨_, rfl, usable⟩))]
    simp only [present, Bool.false_eq_true, if_false]
    exact Prog.bind_of_ok (Prog.attempt_eq_ok.mpr (Or.inr ⟨_, rfl, sick⟩)) _

theorem verify_of_passes (ht : x.node.isTerminal x.name = false) {ruleset : Ruleset} {v : Node}
    (h : x.Passes env ruleset v) :
    verifyOrRecover env x.name x.merged x.node =
      (retainMerged env x.name ruleset >>= fun _ => recordHealthy x.name) v := by
  obtain ⟨u, hl, hh⟩ := h.usable
  rw [verifyOrRecover, read_apply]
  rw [Node.isTerminal] at ht
  simp only [ht, Bool.false_eq_true, if_false]
  rw [Prog.bind_of_ok (Prog.attempt_eq_ok.mpr (Or.inl ⟨_, rfl, hl⟩))]
  simp only [h.present, Bool.false_eq_true, if_false]
  exact Prog.bind_of_ok (Prog.attempt_eq_ok.mpr (Or.inl ⟨_, rfl, hh⟩)) _

theorem note_memory {ε : Type} (name : String) (image : Option Bytes) (verdict : Verdict) :
    Within (fun w u => u.memory = w.memory) (Act.note name image verdict : Act ε Unit) := by
  intro w
  cases image <;> rfl

theorem note_ne_error {ε : Type} {name : String} {image : Option Bytes} {verdict : Verdict}
    {w u : Node} {e : ε} : (Act.note name image verdict : Act ε Unit) w ≠ .error e u := by
  intro h
  cases image <;> cases h

/-- Retaining a healthy image fails in its soak or in its copy. -/
theorem retainHealthy_error {name version msg : String} {ruleset : Ruleset} {w u : Node}
    (h : retainHealthy env name version ruleset w = .error msg u) :
    (∃ e u, soak env ruleset w = .error e u) ∨
      ∃ v e u, soak env ruleset w = .ok () v ∧ CopyFails env name version v e u := by
  rcases Prog.bind_eq_error.mp h with h | ⟨_, v, hv, h⟩
  · exact Or.inl ⟨msg, u, h⟩
  · right
    rw [read_apply] at h
    rcases Prog.bind_eq_error.mp h with h | ⟨_, v', hv', h⟩
    · exact absurd h note_ne_error
    · rcases Prog.bind_eq_error.mp h with h | ⟨_, v'', -, h⟩
      · obtain ⟨e, h, -⟩ := Prog.mapError_eq_error.mp h
        exact ⟨v, e, u, hv, Prog.bind_eq_error.mpr (Or.inr ⟨(), v', hv', h⟩)⟩
      · cases h

/-- Either failure leaves the record in memory as it was. -/
theorem retainHealthy_fails {name version : String} {ruleset : Ruleset} {w : Node}
    (h : (∃ e u, soak env ruleset w = .error e u) ∨
      ∃ v e u, soak env ruleset w = .ok () v ∧ CopyFails env name version v e u) :
    ∃ msg u, retainHealthy env name version ruleset w = .error msg u ∧ u.memory = w.memory := by
  rcases h with ⟨e, u, h⟩ | ⟨v, e, u, hv, h⟩
  · exact ⟨e, u, Prog.bind_of_error h _, ((soak_quiet env ruleset).record.of_error h).memory⟩
  · have hw := ((soak_quiet env ruleset).record.of_ok hv).memory
    rcases Prog.bind_eq_error.mp h with h | ⟨_, v', hv', h⟩
    · exact absurd h note_ne_error
    · refine ⟨s!"could not retain healthy {version}: {e}", u, ?_, ?_⟩
      · refine Prog.bind_eq_error.mpr (Or.inr ⟨(), v, hv, ?_⟩)
        rw [read_apply]
        refine Prog.bind_eq_error.mpr (Or.inr ⟨(), v', hv', ?_⟩)
        exact Prog.bind_of_error (Prog.mapError_eq_error.mpr ⟨e, h, rfl⟩) _
      · have hn := (note_memory (ε := String) name (v.mergedImage name) .soaked).of_ok hv'
        have hc := ((durableCopy_record env _ _).of_error h).memory
        exact (hc.trans hn).trans hw

/-- What follows a passed check fails only in retaining what is not retained. -/
theorem Passes.missed {ruleset : Ruleset} {v : Node} (h : x.Passes env ruleset v)
    (ht : x.node.isTerminal x.name = false) {msg : String} {u : Node}
    (he : (retainMerged env x.name ruleset >>= fun _ => recordHealthy x.name) v
      = .error msg u) : x.MissedExit env := by
  rcases Prog.bind_eq_error.mp he with he | ⟨_, u', -, he⟩
  · rw [retainMerged, mergedVersion, Prog.bind_of_ok (Act.ask_apply _ _)] at he
    cases hv : (env.extensionRelease x.name v).bind mergedVersionIn with
    | none =>
      rw [hv] at he
      cases he
    | some version =>
      rw [hv] at he
      have he : (if unretained v.tick x.name version = true then
          retainHealthy env x.name version ruleset else pure ()) v.tick = .error msg u := he
      split at he
      · rename_i hu
        exact ⟨ht, ruleset, v, version, h, hv, hu, retainHealthy_error he⟩
      · cases he
  · cases he

/-- The missed exit fails the examination and records nothing. -/
theorem MissedExit.fails (h : x.MissedExit env) : ∃ msg u,
    verifyOrRecover env x.name x.merged x.node = .error msg u ∧ u.memory = x.node.memory := by
  obtain ⟨ht, ruleset, v, version, hp, hv, hu, hf⟩ := h
  obtain ⟨msg, u, he, hm⟩ := retainHealthy_fails hf
  obtain ⟨t, rfl⟩ := hp.later
  refine ⟨msg, u, ?_, hm⟩
  rw [verify_of_passes ht hp]
  refine Prog.bind_of_error ?_ _
  rw [retainMerged, mergedVersion, Prog.bind_of_ok (Act.ask_apply _ _), hv]
  change (if unretained (x.node.clock t).tick x.name version = true then
    retainHealthy env x.name version ruleset else pure ()) (x.node.clock t).tick = _
  have hu : unretained (x.node.clock t).tick x.name version = true := hu
  rw [if_pos hu]
  exact he

/-- One examination exhausts recovery unless it leaves by the missed exit or loses a
record. -/
theorem exhausted_iff : x.Exhausted env ↔ ¬ x.MissedExit env ∧ ¬ x.LosesRecord env := by
  constructor
  · intro h
    constructor
    · intro hm
      obtain ⟨msg, u, he, hu⟩ := hm.fails
      rcases h msg u he with ht | ⟨_, _, _, _, ht, -⟩
      · rw [hm.1] at ht
        cases ht
      · rw [Node.isTerminal, hu, ← Node.isTerminal, hm.1] at ht
        cases ht
    · rintro ⟨hn, reason, v, version, u, hf, hk, hi, hl⟩
      obtain ⟨hu, msg, he⟩ := recover_of_lost hk hi hl
      rw [← verify_of_fallsBack hn hf] at he
      rcases h msg u he with ht | ⟨_, _, _, _, ht, -⟩
      · rw [hn] at ht
        cases ht
      · rw [hu] at ht
        cases ht
  · rintro ⟨hm, hl⟩ msg u he
    rcases x.cases env with ht | ⟨hn, ⟨reason, v, hf⟩ | ⟨ruleset, v, hp⟩⟩
    · exact Or.inl ht
    · right
      rw [verify_of_fallsBack hn hf] at he
      rcases recover_error he with ⟨ht, tried⟩ | ⟨version, hk, hi, hr⟩
      · exact ⟨reason, v, hf, he, ht, tried⟩
      · exact absurd ⟨hn, reason, v, version, u, hf, hk, hi, hr⟩ hl
    · rw [verify_of_passes hn hp] at he
      exact absurd (hp.missed hn he) hm

end Examination

/-- The gate reports exactly the extensions whose examination fails. -/
theorem mem_examineRequired {env : Environment} {merged names failures : List String}
    {w u : Node} {name : String}
    (h : (examineRequired env merged names : Act String _) w = .ok failures u) :
    name ∈ failures ↔ ∃ x ∈ examinations env merged names w, x.name = name ∧ x.fails env := by
  induction names generalizing w failures with
  | nil =>
    cases h
    simp [examinations]
  | cons first rest ih =>
    obtain ⟨result, v, ha, h⟩ := Prog.bind_eq_ok.mp h
    rcases Prog.attempt_eq_ok.mp ha with ⟨_, rfl, hv⟩ | ⟨e, rfl, hv⟩
    · have hx : ¬ (⟨first, merged, w⟩ : Examination).fails env := by
        rintro ⟨msg, u, he⟩
        have he : verifyOrRecover env first merged w = .error msg u := he
        rw [hv] at he
        cases he
      rw [ih h, examinations]
      simp only [hv, List.mem_cons, exists_eq_or_imp, hx, and_false, false_or]
    · obtain ⟨others, v', h', h⟩ := Prog.bind_eq_ok.mp h
      cases h
      have hx : (⟨first, merged, w⟩ : Examination).fails env := ⟨e, v, hv⟩
      rw [List.mem_cons, ih h', examinations]
      simp only [hv, List.mem_cons, exists_eq_or_imp, hx, and_true, eq_comm]

/-- The gate exhausts recovery for everything it reports exactly when no examination
leaves by the missed exit or loses a record. -/
theorem gate_exhausts_recovery_iff (env : Environment) (w : Node) :
    (∀ x ∈ gateExaminations env w, x.Exhausted env) ↔
      ∀ x ∈ gateExaminations env w, ¬ x.MissedExit env ∧ ¬ x.LosesRecord env :=
  forall_congr' fun _ => imp_congr_right fun _ => Examination.exhausted_iff

/-- The node the gate examines, once interrupted work is resolved. -/
def gateStart (w : Node) : Node :=
  ((do acquireLock env; reconcileState env : Act String Unit) w.process).state

/-- An examination that fails and leaves the extension neither given up nor tried. -/
def Examination.abandons (x : Examination) : Bool :=
  let o := verifyOrRecover env x.name x.merged x.node
  !(x.node.isTerminal x.name) && o.failure.isSome && !(o.state.isTerminal x.name)

theorem Examination.not_exhausted {env : Environment} {x : Examination}
    (h : x.abandons env = true) : ¬ x.Exhausted env := by
  simp only [abandons, Bool.and_eq_true, Bool.not_eq_true'] at h
  obtain ⟨⟨hn, hf⟩, hs⟩ := h
  obtain ⟨msg, hf⟩ := Option.isSome_iff_exists.mp hf
  intro he
  rcases he msg _ (Outcome.eq_error hf) with ht | ⟨_, _, _, _, ht, -⟩
  · rw [hn] at ht
    cases ht
  · rw [hs] at ht
    cases ht

end

/-- The newer image stops working while the first gate after its activation soaks it. -/
def failingSoak : Environment :=
  { calm twoVersions with
    isActive := fun unit w => (calm twoVersions).isActive unit w &&
      (w.mergedImage "n" == some [1] || w.now < 83) }

/-- A known-good image is adopted, a newer one is activated, and the node boots. -/
def afterActivation : Node :=
  run failingSoak [.boot (some "VERSION_ID=1") [], .command .adopt ["n", "a"], stageFile "n" "/2",
    .command .activate ["n", "b"], .boot (some "VERSION_ID=1") []] (.with "1" [("n_1.raw", [1])])

/-- The gate reports an extension whose retained known-good image it has not tried. -/
theorem gate_skips_recovery :
    (Command.healthGate.run failingSoak [] afterActivation.process).failure =
      some "required extensions unhealthy: n" ∧
    (gateStart failingSoak afterActivation).rollbackImage "n" "a" = some [1] ∧
    ¬ ∀ x ∈ gateExaminations failingSoak (gateStart failingSoak afterActivation),
      x.Exhausted failingSoak := by
  refine ⟨by decide +kernel, by decide +kernel, fun h => ?_⟩
  have found : (gateExaminations failingSoak (gateStart failingSoak afterActivation)).any
      (·.abandons failingSoak) = true := by decide +kernel
  obtain ⟨x, hx, ha⟩ := List.any_eq_true.mp found
  exact Examination.not_exhausted ha (h x hx)

end CarbideOS.Agent
