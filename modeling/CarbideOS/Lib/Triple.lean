import CarbideOS.Lib.Prog

namespace Interruptible

variable {σ ε ε' α β : Type}

/-- What a specification promises, one clause for each way a run can end. The
`halt` clause describes every state in which the run can be cut off. -/
structure Ends (σ ε α : Type) where
  ok : α → σ → Prop
  error : ε → σ → Prop
  halt : σ → Prop

/-- The same promise whichever way the run ends. -/
def Ends.always (I : σ → Prop) : Ends σ ε α := ⟨fun _ => I, fun _ => I, I⟩

def Outcome.Meets (Q : Ends σ ε α) : Outcome σ ε α → Prop
  | .ok a s => Q.ok a s
  | .error e s => Q.error e s
  | .halt s => Q.halt s

/-- From every state satisfying the precondition the run ends as promised. -/
def Triple (P : σ → Prop) (m : Prog σ ε α) (Q : Ends σ ε α) : Prop :=
  ∀ s, P s → (m s).Meets Q

/-- An invariant held before holds at every end, cut off or not. -/
abbrev Keeps (I : σ → Prop) (m : Prog σ ε α) : Prop := Triple I m (Ends.always I)

theorem Outcome.meets_always {I : σ → Prop} {o : Outcome σ ε α} :
    o.Meets (Ends.always I) ↔ I o.state := by
  cases o <;> rfl

namespace Triple

theorem pure {P : σ → Prop} {Q : Ends σ ε α} {a : α} (h : ∀ s, P s → Q.ok a s) :
    Triple P (Pure.pure a) Q := h

theorem fail {P : σ → Prop} {Q : Ends σ ε α} {e : ε} (h : ∀ s, P s → Q.error e s) :
    Triple P (Prog.fail e) Q := h

theorem change {P : σ → Prop} {Q : Ends σ ε Unit} {f : σ → σ}
    (h : ∀ s, P s → Q.ok () (f s)) : Triple P (Prog.change f) Q := h

theorem bind {P : σ → Prop} {Q : Ends σ ε β} {R : α → σ → Prop} {m : Prog σ ε α}
    {f : α → Prog σ ε β} (hm : Triple P m ⟨R, Q.error, Q.halt⟩)
    (hf : ∀ a, Triple (R a) (f a) Q) : Triple P (m >>= f) Q := by
  intro s hs
  have h := hm s hs
  rw [Prog.bind_apply]
  cases he : m s <;> rw [he] at h
  case ok a t => exact hf a t h
  case error e t => exact h
  case halt t => exact h

/-- Reading the state fixes it for the rest of the program. -/
theorem read {P : σ → Prop} {Q : Ends σ ε β} {f : σ → Prog σ ε β}
    (h : ∀ s, P s → Triple (· = s) (f s) Q) : Triple P (Prog.read >>= f) Q :=
  fun s hs => h s hs s rfl

theorem attempt {P : σ → Prop} {Q : Ends σ ε' (Except ε α)} {m : Prog σ ε α}
    (h : Triple P m ⟨fun a => Q.ok (.ok a), fun e => Q.ok (.error e), Q.halt⟩) :
    Triple P (Prog.attempt m) Q := by
  intro s hs
  have h := h s hs
  unfold Prog.attempt
  cases he : m s <;> rw [he] at h <;> exact h

theorem mapError {P : σ → Prop} {Q : Ends σ ε' α} {m : Prog σ ε α} {f : ε → ε'}
    (h : Triple P m ⟨Q.ok, fun e => Q.error (f e), Q.halt⟩) :
    Triple P (Prog.mapError f m) Q := by
  intro s hs
  have h := h s hs
  unfold Prog.mapError
  cases he : m s <;> rw [he] at h <;> exact h

theorem demand {P : σ → Prop} {Q : Ends σ ε Unit} {c : Bool} {e : ε}
    (hok : c = true → ∀ s, P s → Q.ok () s) (hno : c = false → ∀ s, P s → Q.error e s) :
    Triple P (Prog.demand c e) Q := by
  cases c with
  | true => exact hok rfl
  | false => exact hno rfl

/-- The rule of consequence. -/
theorem mono {P P' : σ → Prop} {Q Q' : Ends σ ε α} {m : Prog σ ε α} (h : Triple P m Q)
    (hp : ∀ s, P' s → P s) (hok : ∀ a s, Q.ok a s → Q'.ok a s)
    (herror : ∀ e s, Q.error e s → Q'.error e s) (hhalt : ∀ s, Q.halt s → Q'.halt s) :
    Triple P' m Q' := by
  intro s hs
  have h := h s (hp s hs)
  cases he : m s <;> rw [he] at h
  case ok a t => exact hok a t h
  case error e t => exact herror e t h
  case halt t => exact hhalt t h

theorem weaken {P P' : σ → Prop} {Q : Ends σ ε α} {m : Prog σ ε α} (h : Triple P m Q)
    (hp : ∀ s, P' s → P s) : Triple P' m Q :=
  fun s hs => h s (hp s hs)

/-- Two promises about one program can be used together. -/
theorem and {P P' : σ → Prop} {Q Q' : Ends σ ε α} {m : Prog σ ε α}
    (h : Triple P m Q) (h' : Triple P' m Q') :
    Triple (fun s => P s ∧ P' s) m
      ⟨fun a s => Q.ok a s ∧ Q'.ok a s, fun e s => Q.error e s ∧ Q'.error e s,
        fun s => Q.halt s ∧ Q'.halt s⟩ := by
  intro s hs
  have h := h s hs.1
  have h' := h' s hs.2
  cases he : m s <;> rw [he] at h h' <;> exact ⟨h, h'⟩

/-- A precondition may be split off as a hypothesis. -/
theorem of_fact {P : σ → Prop} {Q : Ends σ ε α} {m : Prog σ ε α} {p : Prop}
    (h : p → Triple P m Q) : Triple (fun s => P s ∧ p) m Q :=
  fun s hs => h hs.2 s hs.1

end Triple

/-- A relation between the first and the last state of a run, however it ends. -/
def Within (R : σ → σ → Prop) (m : Prog σ ε α) : Prop := ∀ s, R s (m s).state

namespace Within

variable {R : σ → σ → Prop}

/-- What holds from every state read holds of the program that reads it. -/
theorem read {f : σ → Prog σ ε β} (h : ∀ s, Within R (f s)) : Within R (Prog.read >>= f) :=
  fun s => h s s

/-- Reading fixes the first state, for the steps that depend on it. -/
theorem read_at {f : σ → Prog σ ε β} (h : ∀ s, R s (f s s).state) :
    Within R (Prog.read >>= f) := h

theorem attempt {m : Prog σ ε α} (h : Within R m) :
    Within R (Prog.attempt m : Prog σ ε' (Except ε α)) := by
  intro s
  have h := h s
  unfold Prog.attempt
  cases he : m s <;> rw [he] at h <;> exact h

theorem mapError {m : Prog σ ε α} {f : ε → ε'} (h : Within R m) :
    Within R (Prog.mapError f m) := by
  intro s
  have h := h s
  unfold Prog.mapError
  cases he : m s <;> rw [he] at h <;> exact h

theorem mono {R' : σ → σ → Prop} {m : Prog σ ε α} (h : Within R m)
    (hm : ∀ s t, R s t → R' s t) : Within R' m :=
  fun s => hm s _ (h s)

theorem of_ok {m : Prog σ ε α} (h : Within R m) {s t : σ} {a : α} (hr : m s = .ok a t) : R s t := by
  have h := h s
  rw [hr] at h
  exact h

theorem of_error {m : Prog σ ε α} (h : Within R m) {s t : σ} {e : ε}
    (hr : m s = .error e t) : R s t := by
  have h := h s
  rw [hr] at h
  exact h

section Preorder
variable [IsPreorder σ R]

theorem pure (a : α) : Within R (Pure.pure a : Prog σ ε α) := fun s => Std.Refl.refl s

theorem fail (e : ε) : Within R (Prog.fail e : Prog σ ε α) := fun s => Std.Refl.refl s

theorem bind {m : Prog σ ε α} {f : α → Prog σ ε β} (hm : Within R m)
    (hf : ∀ a, Within R (f a)) : Within R (m >>= f) := by
  intro s
  have h := hm s
  rw [Prog.bind_apply]
  cases he : m s <;> rw [he] at h
  case ok a t => exact IsTrans.trans s t _ h (hf a t)
  case error e t => exact h
  case halt t => exact h

theorem demand (c : Bool) (e : ε) : Within R (Prog.demand c e : Prog σ ε Unit) := by
  cases c with
  | true => exact pure ()
  | false => exact fail e

/-- Where what follows depends on what was reached. -/
theorem bind_at {m : Prog σ ε α} {f : α → Prog σ ε β} {s : σ} (hm : R s (m s).state)
    (hf : ∀ a t, m s = .ok a t → R t (f a t).state) : R s ((m >>= f) s).state := by
  rw [Prog.bind_apply]
  cases he : m s <;> rw [he] at hm
  case ok a t => exact IsTrans.trans s t _ hm (hf a t he)
  case error e t => exact hm
  case halt t => exact hm

end Preorder
end Within

/-- What held before holds after. -/
def Preserves (I : σ → Prop) (s t : σ) : Prop := I s → I t

instance (I : σ → Prop) : IsPreorder σ (Preserves I) where
  refl _ h := h
  trans _ _ _ h h' hs := h' (h hs)

theorem within_preserves_iff {I : σ → Prop} {m : Prog σ ε α} :
    Within (Preserves I) m ↔ Keeps I m := by
  refine forall_congr' fun s => imp_congr_right fun _ => ?_
  exact Outcome.meets_always.symm

/-- A run that is never cut off, and whose last state is related to its first. -/
def Returns (R : σ → σ → Prop) (m : Prog σ ε α) : Prop :=
  ∀ s, (∃ a t, m s = .ok a t ∧ R s t) ∨ ∃ e t, m s = .error e t ∧ R s t

namespace Returns

variable {R : σ → σ → Prop}

theorem read {f : σ → Prog σ ε β} (h : ∀ s, Returns R (f s)) : Returns R (Prog.read >>= f) :=
  fun s => h s s

theorem attempt {m : Prog σ ε α} (h : Returns R m) :
    Returns R (Prog.attempt m : Prog σ ε' (Except ε α)) := by
  intro s
  rcases h s with ⟨a, t, h, hr⟩ | ⟨e, t, h, hr⟩
  · exact Or.inl ⟨.ok a, t, by rw [Prog.attempt, h], hr⟩
  · exact Or.inl ⟨.error e, t, by rw [Prog.attempt, h], hr⟩

theorem mapError {m : Prog σ ε α} (h : Returns R m) (f : ε → ε') :
    Returns R (Prog.mapError f m) := by
  intro s
  rcases h s with ⟨a, t, h, hr⟩ | ⟨e, t, h, hr⟩
  · exact Or.inl ⟨a, t, by rw [Prog.mapError, h], hr⟩
  · exact Or.inr ⟨f e, t, by rw [Prog.mapError, h], hr⟩

theorem within {m : Prog σ ε α} (h : Returns R m) : Within R m := by
  intro s
  rcases h s with ⟨a, t, h, hr⟩ | ⟨e, t, h, hr⟩ <;> rw [h] <;> exact hr

section Preorder
variable [IsPreorder σ R]

theorem pure (a : α) : Returns R (Pure.pure a : Prog σ ε α) :=
  fun s => Or.inl ⟨a, s, rfl, Std.Refl.refl s⟩

theorem fail (e : ε) : Returns R (Prog.fail e : Prog σ ε α) :=
  fun s => Or.inr ⟨e, s, rfl, Std.Refl.refl s⟩

theorem bind {m : Prog σ ε α} {f : α → Prog σ ε β} (hm : Returns R m)
    (hf : ∀ a, Returns R (f a)) : Returns R (m >>= f) := by
  intro s
  rcases hm s with ⟨a, t, h, hr⟩ | ⟨e, t, h, hr⟩
  · rw [Prog.bind_of_ok h]
    rcases hf a t with ⟨b, u, h', hr'⟩ | ⟨e, u, h', hr'⟩
    · exact Or.inl ⟨b, u, h', IsTrans.trans s t u hr hr'⟩
    · exact Or.inr ⟨e, u, h', IsTrans.trans s t u hr hr'⟩
  · rw [Prog.bind_of_error h]
    exact Or.inr ⟨e, t, rfl, hr⟩

theorem demand (c : Bool) (e : ε) : Returns R (Prog.demand c e : Prog σ ε Unit) := by
  cases c with
  | true => exact pure ()
  | false => exact fail e

end Preorder
end Returns
end Interruptible
