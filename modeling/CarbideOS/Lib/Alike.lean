import CarbideOS.Lib.Triple

namespace Interruptible

variable {σ ε ε' α β : Type}

/-- Two sequences come to the same from a state if their first programs do, and their rests
wherever that leads. -/
theorem Prog.bind_same {m m' : Prog σ ε α} {f f' : α → Prog σ ε β} {s : σ} (h : m' s = m s)
    (rest : ∀ a t, m s = .ok a t → f' a t = f a t) : (m' >>= f') s = (m >>= f) s := by
  rw [Prog.bind_apply, h]
  exact Prog.bind_congr rest

/-- From every state with the invariant two programs do the same and keep it, and a value that
they come to meets a condition. -/
def Alike (I : σ → Prop) (Q : α → Prop) (m m' : Prog σ ε α) : Prop :=
  ∀ s, I s → m' s = m s ∧ (m s).Meets ⟨fun a t => Q a ∧ I t, fun _ => I, I⟩

namespace Alike

variable {I : σ → Prop} {Q : α → Prop} {R : β → Prop} {m m' : Prog σ ε α}
  {f f' : α → Prog σ ε β}

theorem pure {a : α} (h : Q a) : Alike I Q (Pure.pure a : Prog σ ε α) (Pure.pure a) :=
  fun _ inv => ⟨rfl, h, inv⟩

theorem fail {e : ε} : Alike I Q (Prog.fail e) (Prog.fail e) := fun _ inv => ⟨rfl, inv⟩

theorem bind (h : Alike I Q m m') (rest : ∀ a, Q a → Alike I R (f a) (f' a)) :
    Alike I R (m >>= f) (m' >>= f') := by
  intro s inv
  obtain ⟨same, ends⟩ := h s inv
  rw [Prog.bind_apply, Prog.bind_apply, same]
  cases went : m s <;> rw [went] at ends
  case ok a t => exact rest a ends.1 t ends.2
  case error e t => exact ⟨rfl, ends⟩
  case halt t => exact ⟨rfl, ends⟩

theorem read {f f' : σ → Prog σ ε β} (h : ∀ s, I s → Alike I R (f s) (f' s)) :
    Alike I R (Prog.read >>= f) (Prog.read >>= f') :=
  fun s inv => h s inv s inv

theorem attempt (h : Alike I Q m m') :
    Alike I (fun r => ∀ a, r = .ok a → Q a) (Prog.attempt m : Prog σ ε' (Except ε α))
      (Prog.attempt m') := by
  intro s inv
  obtain ⟨same, ends⟩ := h s inv
  unfold Prog.attempt
  rw [same]
  cases went : m s <;> rw [went] at ends
  case ok a t => exact ⟨rfl, fun b there => Except.ok.inj there ▸ ends.1, ends.2⟩
  case error e t => exact ⟨rfl, nofun, ends⟩
  case halt t => exact ⟨rfl, ends⟩

theorem mapError (h : Alike I Q m m') (g : ε → ε') :
    Alike I Q (Prog.mapError g m) (Prog.mapError g m') := by
  intro s inv
  obtain ⟨same, ends⟩ := h s inv
  unfold Prog.mapError
  rw [same]
  cases went : m s <;> rw [went] at ends
  case ok a t => exact ⟨rfl, ends⟩
  case error e t => exact ⟨rfl, ends⟩
  case halt t => exact ⟨rfl, ends⟩

theorem demand {c : Bool} {e : ε} :
    Alike I (fun _ => c = true) (Prog.demand c e) (Prog.demand c e) := by
  cases c with
  | true => exact pure rfl
  | false => exact fail

theorem mono {Q' : α → Prop} (h : Alike I Q m m') (more : ∀ a, Q a → Q' a) :
    Alike I Q' m m' := by
  intro s inv
  obtain ⟨same, ends⟩ := h s inv
  refine ⟨same, ?_⟩
  cases went : m s <;> rw [went] at ends
  case ok a t => exact ⟨more a ends.1, ends.2⟩
  case error e t => exact ends
  case halt t => exact ends

/-- What comes of the first program is of no concern to the rest. -/
theorem andThen (h : Alike I Q m m') (rest : ∀ a, Alike I R (f a) (f' a)) :
    Alike I R (m >>= f) (m' >>= f') :=
  h.bind fun a _ => rest a

/-- A program and itself. -/
theorem of_keeps (keeps : Keeps I m) : Alike I (fun _ => True) m m := by
  intro s inv
  have kept := keeps s inv
  refine ⟨rfl, ?_⟩
  cases went : m s <;> rw [went] at kept
  case ok a t => exact ⟨trivial, kept⟩
  case error e t => exact kept
  case halt t => exact kept

/-- Both end in the same state, and it has the invariant. -/
theorem state (h : Alike I Q m m') {s : σ} (inv : I s) :
    (m' s).state = (m s).state ∧ I (m s).state := by
  obtain ⟨same, ends⟩ := h s inv
  refine ⟨by rw [same], ?_⟩
  cases went : m s <;> rw [went] at ends
  case ok a t => exact ends.2
  case error e t => exact ends
  case halt t => exact ends

end Alike
end Interruptible
