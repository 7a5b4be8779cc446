import Mathlib

namespace Interruptible

variable {σ ι : Type}

/-- The state after a sequence of events. -/
def runAll (after : ι → σ → σ) (events : List ι) (s : σ) : σ :=
  events.foldl (fun s e => after e s) s

/-- Every event of a sequence meets a condition in the state it happens in. -/
def EachMeets (after : ι → σ → σ) (cond : ι → σ → Prop) : List ι → σ → Prop
  | [], _ => True
  | e :: rest, s => cond e s ∧ EachMeets after cond rest (after e s)

section
variable {after : ι → σ → σ} {cond : ι → σ → Prop} {I : σ → Prop}

theorem runAll_append (first second : List ι) (s : σ) :
    runAll after (first ++ second) s = runAll after second (runAll after first s) :=
  List.foldl_append

theorem eachMeets_of_forall {events : List ι} (h : ∀ e ∈ events, ∀ s, cond e s) (s : σ) :
    EachMeets after cond events s := by
  induction events generalizing s with
  | nil => trivial
  | cons e rest ih =>
    exact ⟨h e List.mem_cons_self s, ih (fun d hd => h d (List.mem_cons_of_mem e hd)) _⟩

theorem eachMeets_iff {events : List ι} {s : σ} : EachMeets after cond events s ↔
    ∀ before e rest, events = before ++ e :: rest → cond e (runAll after before s) := by
  induction events generalizing s with
  | nil => simp [EachMeets]
  | cons d events ih =>
    rw [EachMeets, ih]
    constructor
    · rintro ⟨first, later⟩ before e rest split
      cases before with
      | nil =>
        obtain ⟨rfl, -⟩ := List.cons.inj split
        exact first
      | cons d' before =>
        obtain ⟨rfl, shorter⟩ := List.cons.inj split
        exact later before e rest shorter
    · intro h
      refine ⟨h [] d events rfl, fun before e rest split => ?_⟩
      exact h (d :: before) e rest (by rw [split]; rfl)

/-- What every event preserves under its condition holds after the whole run. -/
theorem runAll_invariant (step : ∀ e s, I s → cond e s → I (after e s)) {events : List ι} {s : σ}
    (hs : I s) (hm : EachMeets after cond events s) : I (runAll after events s) := by
  induction events generalizing s with
  | nil => exact hs
  | cons e rest ih => exact ih (step e s hs hm.1) hm.2

end
end Interruptible

namespace Ranked

variable {σ : Type} {Step : σ → σ → Prop} {Inv Done : σ → Prop} {s : σ}

/-- What can always go on with less to do can be finished. -/
theorem can_finish (rank : σ → Nat) (goes : ∀ s, Inv s → ¬ Done s →
      ∃ s', Relation.ReflTransGen Step s s' ∧ Inv s' ∧ rank s' < rank s) (inv : Inv s) :
    ∃ s', Relation.ReflTransGen Step s s' ∧ Inv s' ∧ Done s' := by
  induction left : rank s using Nat.strong_induction_on generalizing s with
  | _ n ih =>
    subst left
    by_cases done : Done s
    · exact ⟨s, .refl, inv, done⟩
    · obtain ⟨next, steps, inv', less⟩ := goes s inv done
      obtain ⟨last, more, inv'', done⟩ := ih _ less inv' rfl
      exact ⟨last, steps.trans more, inv'', done⟩

end Ranked
