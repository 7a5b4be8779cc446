import CarbideOS.Proofs.Events

namespace CarbideOS.Agent
open Interruptible

/-- An event that is about an extension of a kind, if about any. -/
def Event.About (P : String → Prop) (e : Event) : Prop := ∀ name, e.subject = some name → P name

/-- A file that no work on an extension of the kind writes or removes. -/
structure Outside (P : String → Prop) (f : String) : Prop where
  touches : ∀ name base, P name → ¬ Touches name base f
  retained : ∀ name base, P name → ¬ Retained name base f
  candidate : Text.endsWith f ".candidate" = false
  new : Text.endsWith f ".new" = false

/-- Only extensions of the kind are on record, and a file has a certain content. -/
structure Fenced (P : String → Prop) (f : String) (content : Option Bytes) (w : Node) : Prop where
  recorded : ∀ name e, Entry w name e → P name
  content : w.extensions[f]? = content

section
variable (env : Environment) {P : String → Prop} {f : String} {content : Option Bytes} {w u : Node}

theorem Aside.fenced {other : String} (h : Aside other w u) (ho : P other)
    (outside : Outside P f) : Preserves (Fenced P f content) w u := by
  intro hw
  refine ⟨fun name e he => ?_, ?_⟩
  · by_cases own : name = other
    · rw [own]
      exact ho
    · rcases he with he | he
      · rcases h.memory name own with same | same <;> rw [same] at he
        · exact hw.recorded name e (Or.inl he)
        · exact hw.recorded name e (Or.inr he)
      · rcases h.stored name own with same | same <;> rw [same] at he
        · exact hw.recorded name e (Or.inr he)
        · exact hw.recorded name e (Or.inl he)
  · have same := h.files f (outside.touches other w.scope ho) (outside.retained other w.scope ho)
    rw [same, hw.content]

theorem SameRecord.fenced (h : SameRecord w u) (same : u.extensions[f]? = w.extensions[f]?) :
    Preserves (Fenced P f content) w u := by
  intro hw
  refine ⟨fun name e he => ?_, same.trans hw.content⟩
  rw [Entry, h.memory, h.stored] at he
  exact hw.recorded name e he

theorem Tidied.fenced (h : Tidied w u) (outside : Outside P f) :
    Preserves (Fenced P f content) w u :=
  h.toSameRecord.fenced (h.files f outside.candidate outside.new)

theorem Fenced.recall (hw : Fenced P f content w) : Fenced P f content w.recall := by
  refine ⟨?_, hw.content⟩
  rintro name e (he | he)
  · obtain ⟨d, hd, -⟩ := remembered_entry he
    exact hw.recorded name d (Or.inr hd)
  · exact hw.recorded name e (Or.inr he)

theorem Fenced.process (hw : Fenced P f content w) : Fenced P f content w.process := by
  refine ⟨?_, hw.content⟩
  rintro name e (he | he)
  · simp [Node.process, State.get] at he
  · exact hw.recorded name e (Or.inr he)

theorem Fenced.clock (hw : Fenced P f content w) (t : Nat) : Fenced P f content (w.clock t) :=
  ⟨hw.recorded, hw.content⟩

theorem store_fenced : Keeps (Fenced P f content) (store env) := by
  have saved : ∀ w : Node, Preserves (Fenced P f content) w w.saved := by
    intro w hw
    refine ⟨?_, hw.content⟩
    rintro name e (he | he) <;> exact hw.recorded name e (Or.inl he)
  refine within_preserves_iff.mp (Act.durable_within saved fun w reached leftover => ?_)
  split
  · exact saved w
  · exact fun hw => hw.clock _

variable (outside : Outside P f)
include outside

theorem reconcileRecord_fenced : Keeps (Fenced P f content) (reconcileRecord env) := by
  refine within_preserves_iff.mp (Within.read_at fun w hw => ?_)
  refine (?_ : Preserves (Fenced P f content) w _) hw
  refine Within.bind_at ?_ fun failures u _ => ?_
  · refine reconcileEntries_within env (fun s hs =>
      (reconcileEntry_sober env s).mono fun _ _ h => ?_) w
    obtain ⟨e, he, -⟩ := mem_snapshots.mp hs
    exact h.toBeside.aside.fenced (hw.recorded s.name e (Or.inl he)) outside
  refine Within.bind ((reconcileOrphans_tidied env _).mono fun _ _ h => h.fenced outside)
    (fun _ => ?_) u
  exact Within.bind (within_preserves_iff.mpr (store_fenced env)) fun _ => Within.demand _ _

theorem reconcileState_fenced : Keeps (Fenced P f content) (reconcileState env) := by
  refine reconcileState_through env (fun _ _ h => h.fenced outside) fun w hw => ?_
  exact ⟨hw.recall, reconcileRecord_fenced env outside _ hw.recall⟩

theorem healthGate_fenced : Keeps (Fenced P f content) (healthGate env) := by
  refine healthGate_keeps env (fun _ t hw => hw.clock t) (fun _ t hw => hw.clock t)
    (fun _ => Fenced.recall) (fun w merged hw other ho => ?_) (store_fenced env)
  obtain ⟨e, he, -⟩ := State.mem_required.mp ho
  exact within_preserves_iff.mp ((verifyOrRecover_beside env merged).mono fun _ _ h =>
    h.aside.fenced (hw.recorded other e (Or.inl he)) outside)

theorem after_fenced {e : Event} (about : e.About P) (hw : Fenced P f content w) :
    Fenced P f content (e.after env w) := by
  have untouched : ∀ {ε : Type} {m : Act ε Unit}, Within Untouched m →
      Keeps (Fenced P f content) m := fun hm =>
    within_preserves_iff.mp (hm.mono fun _ _ h => h.toSameRecord.fenced (by rw [h.extensions]))
  have aside : ∀ {ε : Type} {m : Act ε Unit} {other : String}, P other →
      Within (Aside other) m → Keeps (Fenced P f content) m := fun ho hm =>
    within_preserves_iff.mp (hm.mono fun _ _ h => h.fenced ho outside)
  cases e with
  | boot osRelease bootEntries =>
    refine ⟨?_, hw.content⟩
    rintro name e (he | he)
    · simp [Event.after, Node.boot, Node.tick, State.get] at he
    · exact hw.recorded name e (Or.inr he)
  | command c arguments =>
    have operated : Keeps (Fenced P f content) (c.operation env arguments) := by
      rcases c.operation_cases env arguments with rfl | hu | ⟨other, hs, ha⟩
      · exact healthGate_fenced env outside
      · exact untouched hu
      · exact aside (about other hs) ha
    exact Outcome.meets_always.mp (locked_keeps env (fun _ t hw => hw.clock t)
      (reconcileState_fenced env outside) operated w.process hw.process)
  | request c r =>
    have operated : Keeps (Fenced P f content) (c.operation env r) := by
      rcases c.operation_cases env r with hu | ⟨other, hs, ha⟩
      · exact untouched hu
      · exact aside (about other hs) ha
    exact Outcome.meets_always.mp (exclusive_keeps env (fun _ t hw => hw.clock t)
      (reconcileState_fenced env outside) operated w.process hw.process)

theorem run_fenced {events : List Event} (about : ∀ e ∈ events, e.About P)
    (hw : Fenced P f content w) : Fenced P f content (run env events w) :=
  runAll_invariant (fun _ _ hu he => after_fenced env outside he hu) hw
    (eachMeets_of_forall (fun e he _ => about e he) w)

end
end CarbideOS.Agent
