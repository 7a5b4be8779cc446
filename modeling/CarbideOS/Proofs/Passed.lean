import CarbideOS.Proofs.Gate
import CarbideOS.Proofs.Recovered
import CarbideOS.Proofs.Replay

namespace CarbideOS.Agent
open Interruptible

section
variable {env : Environment} {ε : Type} {name : String} {w u : Node}

/-- A wait that ends in readiness, the look at which the unit was up, and the health command
that worked after it, where the ruleset has one. -/
structure Sound (env : Environment) (ruleset : Ruleset) (w v : Node) : Prop where
  waited : waitUntilReady env ruleset w = .ok () v.tick
  active : env.isActive ruleset.unit v = true
  probed : ∀ command, ruleset.healthCommand = some command →
    env.healthCommand command v.tick = .ok ()

theorem pollReady_seen {unit : String} {looks : Nat}
    (h : (pollReady env unit looks : Act ε Bool) w = .ok true u) :
    ∃ v : Node, u = v.tick ∧ env.isActive unit v = true := by
  induction looks generalizing w with
  | zero => cases h
  | succ looks ih =>
    rw [pollReady, unitIsActive, Prog.bind_of_ok (Act.ask_apply _ _)] at h
    split at h
    · rename_i up
      cases h
      exact ⟨w, rfl, up⟩
    · rw [unitFailed, Prog.bind_of_ok (Act.ask_apply _ _)] at h
      split at h
      · cases h
      · exact ih h

theorem startRemaining_seen {ruleset : Ruleset} {remaining : Nat}
    (h : startRemaining env ruleset remaining w = .ok () u) :
    ∃ v : Node, u = v.tick ∧ env.isActive ruleset.unit v = true := by
  induction remaining generalizing w with
  | zero => cases h
  | succ remaining ih =>
    obtain ⟨_, _, -, h⟩ := Prog.bind_eq_ok.mp h
    obtain ⟨looks, _, -, h⟩ := Prog.bind_eq_ok.mp h
    obtain ⟨ready, x, polled, h⟩ := Prog.bind_eq_ok.mp h
    cases ready with
    | true =>
      cases h
      exact pollReady_seen polled
    | false =>
      have h : (unitIsActive env ruleset.unit >>= fun up => if up then pure () else
        stopBetween env ruleset.unit remaining >>= fun _ => startRemaining env ruleset remaining) x
          = .ok () u := h
      rw [unitIsActive, Prog.bind_of_ok (Act.ask_apply _ _)] at h
      split at h
      · rename_i up
        cases h
        exact ⟨x, rfl, up⟩
      · obtain ⟨_, _, -, h⟩ := Prog.bind_eq_ok.mp h
        exact ih h

theorem probe_seen {ruleset : Ruleset} {command : List String}
    (named : ruleset.healthCommand = some command) (h : probe env ruleset w = .ok () u) :
    env.healthCommand command w = .ok () := by
  unfold probe at h
  rw [named] at h
  change Act.askFor (env.healthCommand command) w = .ok () u at h
  unfold Act.askFor at h
  cases ran : env.healthCommand command w with
  | ok _ => rfl
  | error error =>
    rw [ran] at h
    cases h

theorem healthyNow_sound {ruleset : Ruleset} (h : healthyNow env ruleset w = .ok () u) :
    ∃ v, Sound env ruleset w v := by
  obtain ⟨_, x, waited, probed⟩ := Prog.bind_eq_ok.mp h
  obtain ⟨v, rfl, active⟩ := startRemaining_seen waited
  exact ⟨v, waited, active, fun _ named => probe_seen named probed⟩

/-- A retained image put into the active slot and merged. -/
def putBack (env : Environment) (name : String) (image : Path) : Act String Unit := do
  stopMerged env name
  installActive env image name
  sysextRefresh env
  daemonReload env

theorem restoreKnownGood_checked {reason version : String} {image : Path}
    (h : restoreKnownGood env name reason version image w = .ok () u) :
    ∃ v ruleset x, putBack env name image w = .ok () v ∧ loadNamed env name v = .ok ruleset x ∧
      healthyNow env ruleset x = .ok () u := by
  obtain ⟨_, _, stopped, h⟩ := Prog.bind_eq_ok.mp h
  obtain ⟨_, _, installed, h⟩ := Prog.bind_eq_ok.mp h
  obtain ⟨_, _, refreshed, h⟩ := Prog.bind_eq_ok.mp h
  obtain ⟨_, v, reloaded, h⟩ := Prog.bind_eq_ok.mp h
  obtain ⟨ruleset, x, loaded, h⟩ := Prog.bind_eq_ok.mp h
  refine ⟨v, ruleset, x, ?_, Prog.mapError_eq_ok.mp loaded, Prog.mapError_eq_ok.mp h⟩
  refine Prog.bind_eq_ok.mpr ⟨_, _, stopped, ?_⟩
  refine Prog.bind_eq_ok.mpr ⟨_, _, Prog.mapError_eq_ok.mp installed, ?_⟩
  exact Prog.bind_eq_ok.mpr ⟨_, _, Prog.mapError_eq_ok.mp refreshed,
    Prog.mapError_eq_ok.mp reloaded⟩

/-- Where the check that decides an examination starts: right away, or once the known-good
image is back in place and merged. -/
inductive Examination.ChecksFrom (env : Environment) (x : Examination) : Node → Prop where
  | direct : x.ChecksFrom env x.node
  | restored {reason version : String} {v recorded back : Node}
      (fell : x.FallsBack env reason v)
      (known : (v.memory.get x.name).bind ExtensionState.knownGoodVersion = some version)
      (began : store env (v.reverting x.name reason) = .ok () recorded)
      (put : putBack env x.name (v.rollbackPath x.name version) recorded = .ok () back) :
      x.ChecksFrom env back

/-- An examination that has seen its extension work. -/
structure Examination.Worked (env : Environment) (x : Examination) : Prop where
  notTerminal : x.node.isTerminal x.name = false
  checked : ∃ v ruleset v₁ v₂, x.ChecksFrom env v ∧ loadNamed env x.name v = .ok ruleset v₁ ∧
    Sound env ruleset v₁ v₂

theorem recover_checked {reason : String} (h : recover env name reason w = .ok () u) :
    ∃ version recorded back ruleset x y,
      (w.memory.get name).bind ExtensionState.knownGoodVersion = some version ∧
      store env (w.reverting name reason) = .ok () recorded ∧
      putBack env name (w.rollbackPath name version) recorded = .ok () back ∧
      loadNamed env name back = .ok ruleset x ∧ healthyNow env ruleset x = .ok () y := by
  rw [recover, read_apply] at h
  cases known : (w.memory.get name).bind ExtensionState.knownGoodVersion with
  | none =>
    rw [known] at h
    exact absurd h terminal_ne_ok
  | some version =>
    rw [known] at h
    dsimp only at h
    split at h
    · rw [revertTo, Prog.bind_of_ok (Act.entry_apply _ _ _)] at h
      obtain ⟨_, recorded, began, h⟩ := Prog.bind_eq_ok.mp h
      obtain ⟨restored, x, tried, h⟩ := Prog.bind_eq_ok.mp h
      rcases Prog.attempt_eq_ok.mp tried with ⟨_, rfl, ran⟩ | ⟨message, rfl, -⟩
      · obtain ⟨back, ruleset, y, put, loaded, healthy⟩ := restoreKnownGood_checked ran
        exact ⟨version, recorded, back, ruleset, y, x, rfl, Prog.mapError_eq_ok.mp began, put,
          loaded, healthy⟩
      · have gaveUp : terminal env name message x = .ok () u := h
        exact absurd gaveUp terminal_ne_ok
    · exact absurd h terminal_ne_ok

theorem Examination.worked {x : Examination}
    (h : verifyOrRecover env x.name x.merged x.node = .ok () u) : x.Worked env := by
  rcases x.cases env with terminal | ⟨alive, ⟨reason, v, fell⟩ | ⟨ruleset, v, passes⟩⟩
  · rw [verify_of_terminal terminal] at h
    cases h
  · rw [verify_of_fallsBack alive fell] at h
    obtain ⟨version, recorded, back, ruleset, y, z, known, began, put, loaded, healthy⟩ :=
      recover_checked h
    obtain ⟨seen, sound⟩ := healthyNow_sound healthy
    exact ⟨alive, back, ruleset, y, seen, .restored fell known began put, loaded, sound⟩
  · obtain ⟨y, loaded, healthy⟩ := passes.usable
    obtain ⟨seen, sound⟩ := healthyNow_sound healthy
    exact ⟨alive, x.node, ruleset, y, seen, .direct, loaded, sound⟩

/-- The record in memory says that an extension works. -/
def Vouched (name : String) (w : Node) : Prop :=
  ∃ e, w.memory.get name = some e ∧ (e.phase = .active ∨ e.phase = .recovered)

theorem verifyOrRecover_vouched {merged : List String}
    (h : verifyOrRecover env name merged w = .ok () u) : Vouched name u := by
  rcases Examination.cases env ⟨name, merged, w⟩ with
    terminal | ⟨alive, ⟨reason, v, fell⟩ | ⟨ruleset, v, passes⟩⟩
  · rw [Examination.verify_of_terminal terminal] at h
    cases h
  · rw [Examination.verify_of_fallsBack alive fell] at h
    obtain ⟨version, bytes, recovered⟩ := recover_ok h
    obtain ⟨e, he, phase, -⟩ := recovered.entry
    exact ⟨e, he, Or.inr phase⟩
  · rw [Examination.verify_of_passes alive passes] at h
    obtain ⟨_, x, -, h⟩ := Prog.bind_eq_ok.mp h
    cases h
    exact ⟨_, edit_entry _ _ _, Or.inl rfl⟩

theorem examineRequired_passed {merged names : List String}
    (h : (examineRequired env merged names : Act ε _) w = .ok [] u) :
    (∀ n ∈ names, ∃ x ∈ examinations env merged names w, x.name = n ∧ x.Worked env) ∧
      ∀ n, n ∈ names ∨ Vouched n w → Vouched n u := by
  induction names generalizing w with
  | nil =>
    cases h
    exact ⟨nofun, fun n settled => settled.resolve_left nofun⟩
  | cons first rest ih =>
    obtain ⟨result, v, attempted, h⟩ := Prog.bind_eq_ok.mp h
    cases result with
    | error reason =>
      obtain ⟨others, _, -, h⟩ := Prog.bind_eq_ok.mp h
      cases h
    | ok _ =>
      have passed : verifyOrRecover env first merged w = .ok () v := by
        rcases Prog.attempt_eq_ok.mp attempted with ⟨_, -, ran⟩ | ⟨_, ⟨⟩, -⟩
        exact ran
      obtain ⟨examined, kept⟩ := ih h
      have later : ∀ x ∈ examinations env merged rest v,
          x ∈ examinations env merged (first :: rest) w := by
        intro x hx
        rw [examinations, passed]
        exact List.mem_cons_of_mem _ hx
      refine ⟨fun n hn => ?_, fun n hn => kept n ?_⟩
      · rcases List.mem_cons.mp hn with rfl | hn
        · exact ⟨⟨n, merged, w⟩, List.mem_cons_self, rfl, Examination.worked passed⟩
        · obtain ⟨x, hx, about, worked⟩ := examined n hn
          exact ⟨x, later x hx, about, worked⟩
      · by_cases own : n = first
        · subst own
          exact Or.inr (verifyOrRecover_vouched passed)
        · have beside := (@verifyOrRecover_beside env first merged).of_ok passed
          rcases hn with hn | ⟨e, he, phase⟩
          · exact Or.inl ((List.mem_cons.mp hn).resolve_left own)
          · exact Or.inr ⟨e, (beside.memory n own).trans he, phase⟩

theorem required_remembered (required : (w.kept name).required = true) :
    name ∈ w.recall.memory.required := by
  cases stored : w.stored.get name with
  | none =>
    rw [Node.kept, stored] at required
    cases required
  | some e =>
    rw [Node.kept, stored] at required
    have held := get_remembered w name
    rw [stored, Option.map_some] at held
    refine State.mem_required.mpr ⟨_, held, ?_⟩
    split
    · exact required
    · exact required

/-- What a passed gate has seen of an extension, and what it leaves on disk. -/
structure Blessed (env : Environment) (name : String) (w u : Node) : Prop where
  examined : ∃ x ∈ gateExaminations env w, x.name = name ∧ x.Worked env
  recorded : ∃ e, u.stored.get name = some e ∧ (e.phase = .active ∨ e.phase = .recovered)

theorem healthGate_passed (h : healthGate env w = .ok () u)
    (required : (w.kept name).required = true) : Blessed env name w u := by
  obtain ⟨_, v, loaded, h⟩ := Prog.bind_eq_ok.mp h
  obtain rfl : v = w.recall := by
    rw [loadForgetting_apply] at loaded
    cases readable : env.unreadable .state w with
    | some error =>
      rw [readable] at loaded
      cases loaded
    | none =>
      rw [readable] at loaded
      cases loaded
      rfl
  have listed := required_remembered required
  rw [read_apply] at h
  split at h
  · rename_i nothing
    rw [List.isEmpty_iff.mp nothing] at listed
    cases listed
  · obtain ⟨merged, x, asked, h⟩ := Prog.bind_eq_ok.mp h
    cases asked
    obtain ⟨failures, y, looped, h⟩ := Prog.bind_eq_ok.mp h
    obtain ⟨_, z, stored, h⟩ := Prog.bind_eq_ok.mp h
    rw [Prog.demand_apply] at h
    split at h
    · rename_i clean
      cases h
      rw [List.isEmpty_iff.mp clean] at looped
      obtain ⟨examined, settled⟩ := examineRequired_passed looped
      refine ⟨?_, ?_⟩
      · rw [gateExaminations, loaded]
        exact examined name listed
      · rw [store_ok stored]
        exact settled name (Or.inl listed)
    · cases h

end

/-- Whether an extension is required is for operators and activations to say. -/
instance : IsPreorder ExtensionState fun e e' => e'.required = e.required where
  refl _ := rfl
  trans _ _ _ h h' := Eq.trans h' h

/-- The same node, on which every ruleset has a health command. -/
def watched (make : Bytes → Make) : Environment :=
  { calm make with
    ruleset name _ := .ok ("[Extension]\nUnit=" ++ unitOf name ++ "\nHealthCommand=/usr/bin/check")
    healthCommand command _ :=
      if command = ["/usr/bin/check"] then .ok () else .error "not healthy" }

end CarbideOS.Agent
