import CarbideOS.Proofs.Replay

namespace CarbideOS.Agent
open Interruptible

/-- The record on disk has an extension active in a version. -/
def Node.ActiveAs (w : Node) (name version : String) : Prop :=
  (w.kept name).phase = .active ∧ (w.kept name).activeVersion = some version

instance (w : Node) (name version : String) : Decidable (w.ActiveAs name version) :=
  inferInstanceAs (Decidable (_ ∧ _))

theorem SameRecord.activeAs {w u : Node} {name version : String} (h : SameRecord w u)
    (active : w.ActiveAs name version) : u.ActiveAs name version := by
  rw [Node.ActiveAs, Node.kept, h.stored]
  exact active

section
variable {env : Environment} {name version : String} {requestId : Option String} {w u : Node}

theorem committed_activeAs (v : Node) :
    (v.committed name version requestId).saved.ActiveAs name version := by
  have kept : (v.committed name version requestId).saved.kept name =
      (v.held name).committed version requestId := held_edit v name _
  rw [Node.ActiveAs, kept]
  cases requestId with
  | none => exact ⟨rfl, rfl⟩
  | some id =>
    unfold ExtensionState.committed ExtensionState.recordCompleted
    dsimp only
    split <;> exact ⟨rfl, rfl⟩

/-- An activation that works is a repeat, which leaves the record as it is, or ends with the
extension active. -/
theorem activateExtension_answer {a : Activation}
    (h : activateExtension env name version requestId w = .ok a u) :
    a.version = version ∧
      if isReplay (w.stored.get name) requestId then u.stored = w.stored
      else u.ActiveAs name version := by
  obtain ⟨same, ended⟩ := activateExtension_ok h
  refine ⟨same, ?_⟩
  by_cases replay : isReplay (w.stored.get name) requestId = true
  · rw [if_pos replay] at ended ⊢
    exact ended
  · rw [if_neg replay] at ended ⊢
    obtain ⟨v, record⟩ := ended
    exact record.activeAs (committed_activeAs v)

theorem replyActivateExtension_ok {r : Request} {reply : ActivationReply}
    (h : replyActivateExtension env r w = .ok reply u) :
    ∃ a, activateExtension env reply.name reply.version r.requestId w = .ok a u ∧
      reply.phase = "active" := by
  unfold replyActivateExtension at h
  cases about : r.name with
  | none =>
    rw [about] at h
    cases h
  | some name =>
    cases wanted : r.version with
    | none =>
      rw [about, wanted] at h
      cases h
    | some version =>
      rw [about, wanted] at h
      obtain ⟨_, v, passed, h⟩ := Prog.bind_eq_ok.mp h
      rw [Prog.demand_apply] at passed
      split at passed
      · cases passed
        obtain ⟨a, x, ran, h⟩ := Prog.bind_eq_ok.mp h
        cases h
        have same := (activateExtension_answer ran).1
        refine ⟨a, ?_, rfl⟩
        dsimp only
        rw [same]
        exact ran
      · cases passed

end

/-- A reply that an extension is active says what is on record, except that a repeated request
is answered from the request: then it does only if the record says so already. -/
theorem activation_reply_true_iff (env : Environment) {r : Request} {reply : ActivationReply}
    {w u : Node} (answered : activationAnswer env r w = .ok reply u) :
    ∃ x, exclusively env (pure ()) w = .ok () x ∧ reply.phase = "active" ∧
      (u.ActiveAs reply.name reply.version ↔
        (isReplay (x.stored.get reply.name) r.requestId = true →
          x.ActiveAs reply.name reply.version)) := by
  obtain ⟨_, v, locked, answered⟩ := Prog.bind_eq_ok.mp answered
  obtain ⟨_, x, reconciled, answered⟩ := Prog.bind_eq_ok.mp answered
  obtain ⟨a, ran, phase⟩ := replyActivateExtension_ok answered
  refine ⟨x, ?_, phase, ?_⟩
  · exact (Prog.bind_of_ok locked _).trans (Prog.bind_of_ok reconciled _)
  · have answer := (activateExtension_answer ran).2
    by_cases replay : isReplay (x.stored.get reply.name) r.requestId = true
    · rw [if_pos replay] at answer
      have same : u.ActiveAs reply.name reply.version ↔ x.ActiveAs reply.name reply.version := by
        unfold Node.ActiveAs Node.kept
        rw [answer]
      rw [same]
      exact ⟨fun active _ => active, fun active => active replay⟩
    · rw [if_neg replay] at answer
      exact ⟨fun _ repeated => absurd repeated replay, fun _ => answer⟩

/-- A request for a version under an identifier. -/
def requestAs (name version id : String) : Request :=
  { name := some name, version := some version, requestId := some id }

theorem activation_reply_true_fresh :
    ∃ x, exclusively (calm twoVersions) (pure ())
        (run (calm twoVersions) (givenUp.take 3) (Node.with "1" [])) = .ok () x ∧
      ((activationAnswer (calm twoVersions) (requestAs "n" "b" "r")
          (run (calm twoVersions) (givenUp.take 3) (Node.with "1" []))).state.ActiveAs "n" "b" ↔
        (isReplay (x.stored.get "n") (some "r") = true → x.ActiveAs "n" "b")) := by
  have value : (activationAnswer (calm twoVersions) (requestAs "n" "b" "r")
      (run (calm twoVersions) (givenUp.take 3) (Node.with "1" []))).value =
        some ⟨"n", "b", "active", false, some "a"⟩ := by decide +kernel
  obtain ⟨x, reconciled, -, truth⟩ :=
    activation_reply_true_iff (calm twoVersions) (Outcome.eq_ok value)
  exact ⟨x, reconciled, truth⟩

/-- After a rollback the same request is told that its version is active. -/
theorem activation_reply_after_rollback :
    ∃ reply u, activationAnswer (calm twoVersions) (requestAs "n" "b" "r")
        (run (calm twoVersions) givenUp (Node.with "1" [])).process = .ok reply u ∧
      reply.phase = "active" ∧ reply.name = "n" ∧ reply.version = "b" ∧
      (u.kept "n").phase = .recovered ∧ (u.kept "n").activeVersion = some "a" := by
  have value : (activationAnswer (calm twoVersions) (requestAs "n" "b" "r")
      (run (calm twoVersions) givenUp (Node.with "1" [])).process).value =
        some ⟨"n", "b", "active", true, some "a"⟩ := by decide +kernel
  refine ⟨_, _, Outcome.eq_ok value, rfl, rfl, rfl, ?_, ?_⟩ <;> decide +kernel

end CarbideOS.Agent
