import CarbideOS.Proofs.Effects
import CarbideOS.Proofs.Others

namespace CarbideOS.Agent
open Interruptible

/-- The extension a command is about. -/
def Command.subject : Command → List String → Option String
  | .healthGate, _ => none
  | .stageBase, _ => none
  | _, arguments => arguments.head?

def Call.subject : Call → Request → Option String
  | .stageBase, _ => none
  | _, r => r.name

def Event.subject : Event → Option String
  | .command c arguments => c.subject arguments
  | .request c r => c.subject r
  | .boot _ _ => none

/-- An event that is about an extension with a plain name, if about any. -/
def Event.Named (e : Event) : Prop := ∀ name, e.subject = some name → Plain name

instance (e : Event) : Decidable e.Named :=
  inferInstanceAs (Decidable (∀ name ∈ e.subject, Plain name))

section Operations
variable (env : Environment)

/-- A command that is not the gate is about one extension or about none. -/
theorem Command.operation_cases (c : Command) (arguments : List String) :
    c = .healthGate ∨ Within Untouched (c.operation env arguments) ∨
      ∃ name, c.subject arguments = some name ∧
        Within (Aside name) (c.operation env arguments) := by
  have usage : ∀ {m : String}, Within Untouched (Prog.fail m : Act String Unit) := Within.fail _
  cases c with
  | healthGate => exact Or.inl rfl
  | stageBase =>
    exact Or.inr (Or.inl (Within.bind (Within.mapError (stageBase_untouched env _)) fun _ =>
      Within.pure ()))
  | activate =>
    rcases arguments with _ | ⟨name, _ | ⟨version, rest⟩⟩
    · exact Or.inr (Or.inl usage)
    · exact Or.inr (Or.inl usage)
    · exact Or.inr (Or.inr ⟨name, rfl, activate_aside env version rest⟩)
  | adopt =>
    rcases arguments with _ | ⟨name, _ | ⟨version, rest⟩⟩
    · exact Or.inr (Or.inl usage)
    · exact Or.inr (Or.inl usage)
    · exact Or.inr (Or.inr ⟨name, rfl, adopt_aside env version rest⟩)
  | stageExtension =>
    rcases arguments with _ | ⟨name, rest⟩
    · exact Or.inr (Or.inl usage)
    · exact Or.inr (Or.inr ⟨name, rfl, stageExtensionCommand_aside env rest⟩)
  | rollback =>
    rcases arguments with _ | ⟨name, rest⟩
    · exact Or.inr (Or.inl usage)
    · exact Or.inr (Or.inr ⟨name, rfl, rollbackCommand_aside env rest⟩)
  | remove =>
    rcases arguments with _ | ⟨name, rest⟩
    · exact Or.inr (Or.inl usage)
    · exact Or.inr (Or.inr ⟨name, rfl, removeExtension_aside env rest⟩)
  | require =>
    rcases arguments with _ | ⟨name, rest⟩
    · exact Or.inr (Or.inl usage)
    · exact Or.inr (Or.inr ⟨name, rfl, aside_of_tame (setRequired_tame env rest true)⟩)
  | unrequire =>
    rcases arguments with _ | ⟨name, rest⟩
    · exact Or.inr (Or.inl usage)
    · exact Or.inr (Or.inr ⟨name, rfl, aside_of_tame (setRequired_tame env rest false)⟩)
  | reset =>
    rcases arguments with _ | ⟨name, rest⟩
    · exact Or.inr (Or.inl usage)
    · exact Or.inr (Or.inr ⟨name, rfl, aside_of_tame (reset_tame env rest)⟩)

theorem Call.operation_cases (c : Call) (r : Request) :
    Within Untouched (c.operation env r) ∨
      ∃ name, c.subject r = some name ∧ Within (Aside name) (c.operation env r) := by
  cases c with
  | stageBase =>
    exact Or.inl (Within.bind (stageBase_untouched env _) fun _ => Within.pure ())
  | stageExtension =>
    cases hr : r.name with
    | some name => exact Or.inr ⟨name, hr, answerStageExtension_aside env hr⟩
    | none =>
      left
      change Within Untouched (answerStageExtension env r)
      unfold answerStageExtension
      rw [hr]
      exact Within.fail _
  | activateExtension =>
    cases hr : r.name with
    | some name => exact Or.inr ⟨name, hr, answerActivateExtension_aside env hr⟩
    | none =>
      left
      change Within Untouched (answerActivateExtension env r)
      unfold answerActivateExtension
      rw [hr]
      exact Within.fail _

end Operations

/-- The record on disk without the refusals of another base. -/
def Node.remembered (w : Node) : State :=
  match w.osVersion with
  | some version => (w.stored.forgetStaleTerminals version).1
  | none => w.stored

/-- The node with that record in memory. -/
def Node.recall (w : Node) : Node := { w.tick with memory := w.remembered }

@[simp] theorem recall_memory (w : Node) : w.recall.memory = w.remembered := rfl
@[simp] theorem recall_stored (w : Node) : w.recall.stored = w.stored := rfl
@[simp] theorem recall_extensions (w : Node) : w.recall.extensions = w.extensions := rfl
@[simp] theorem recall_osRelease (w : Node) : w.recall.osRelease = w.osRelease := rfl

theorem get_remembered (w : Node) (name : String) :
    w.remembered.get name = (w.stored.get name).map fun e =>
      if w.osVersion.any fun version => State.isStaleTerminal version e then
        State.forgetTerminal e else e := by
  unfold Node.remembered
  cases w.osVersion with
  | none => simp
  | some version =>
    dsimp only
    rw [State.get_forget]
    rfl

/-- An entry taken into memory is the one on disk or that without its refusal. -/
theorem remembered_entry {w : Node} {name : String} {e : ExtensionState}
    (h : w.remembered.get name = some e) :
    ∃ d, w.stored.get name = some d ∧
      (e = d ∨ d.phase = .unrecoverable ∧ e = State.forgetTerminal d) := by
  rw [get_remembered] at h
  obtain ⟨d, hd, rfl⟩ := Option.map_eq_some_iff.mp h
  refine ⟨d, hd, ?_⟩
  split
  · rename_i hs
    right
    refine ⟨?_, rfl⟩
    cases ho : w.osVersion with
    | none =>
      rw [ho] at hs
      cases hs
    | some version =>
      rw [ho] at hs
      have hs : (d.phase.isTerminal && d.terminalOsVersion != some version) = true := hs
      rw [Bool.and_eq_true] at hs
      cases hp : d.phase <;> rw [hp] at hs <;> first | rfl | cases hs.1
  · exact Or.inl rfl

section
variable (env : Environment) {name : String}

theorem loadForgetting_apply (w : Node) :
    loadForgetting env w = match env.unreadable .state w with
      | some e => .error e w.tick
      | none => .ok () w.recall := by
  have loaded : loadState env w = match env.unreadable .state w with
      | some e => .error e w.tick
      | none => .ok w.stored w.tick := rfl
  rw [loadForgetting]
  cases hu : env.unreadable .state w with
  | some e =>
    rw [hu] at loaded
    exact Prog.bind_of_error loaded _
  | none =>
    rw [hu] at loaded
    rw [Prog.bind_of_ok loaded, read_apply]
    cases ho : w.osVersion with
    | none =>
      have ht : w.tick.osVersion = none := ho
      simp only [ht, Node.recall, Node.remembered, ho]
      rfl
    | some version =>
      have ht : w.tick.osVersion = some version := ho
      simp only [ht, Node.recall, Node.remembered, ho]
      rfl

end

section
variable (env : Environment) {name : String} {P Q A C : Node → Prop} {B : List String → Node → Prop}

theorem reconcileState_followed (cleaned : Keeps P (pruneTransactionFiles env))
    (clocked : ∀ w, P w → P w.tick)
    (record : ∀ w, P w → (reconcileRecord env w.recall).Meets ⟨fun _ => Q, fun _ => P, P⟩) :
    Triple P (reconcileState env) ⟨fun _ => Q, fun _ => P, P⟩ := by
  refine Triple.bind (R := fun _ => P) (Triple.mapError cleaned) fun _ =>
    Triple.bind (R := fun _ u => ∃ w, P w ∧ u = w.recall) ?_ fun _ => ?_
  · intro w hw
    rw [loadForgetting_apply]
    cases env.unreadable .state w with
    | none => exact ⟨w, hw, rfl⟩
    | some e => exact clocked w hw
  · rintro _ ⟨w, hw, rfl⟩
    exact record w hw

theorem reconcileState_through (tidy : ∀ w u, Tidied w u → P w → P u)
    (record : ∀ w, P w → P w.recall ∧
      (reconcileRecord env w.recall).Meets
        ⟨fun _ => Q, fun _ => P, P⟩) :
    Triple P (reconcileState env) ⟨fun _ => Q, fun _ => P, P⟩ := by
  apply reconcileState_followed env
  · exact within_preserves_iff.mp ((pruneTransactionFiles_tidied env).mono fun w u => tidy w u)
  · exact fun w => tidy w w.tick (Tidied.tick (Std.Refl.refl w))
  · exact fun w hw => (record w hw).2

/-- One entry's turn in the reconcile takes a node from one condition to another; the
turns of the others, the orphans and the final write keep what was reached. -/
theorem reconcileRecord_followed {w : Node} (ha : A w)
    (turn : ∀ s, s.name = name → s ∈ w.memory.snapshots →
      Triple A (reconcileEntry env s : Act String _) ⟨B, fun _ => C, C⟩)
    (absent : w.memory.get name = none → ∀ u, A u → B [] u)
    (keepsA : ∀ s ∈ w.memory.snapshots, s.name ≠ name →
      Keeps A (reconcileEntry env s : Act String _))
    (keepsB : ∀ l, ∀ s ∈ w.memory.snapshots, s.name ≠ name →
      Keeps (B l) (reconcileEntry env s : Act String _))
    (orphans : ∀ l, Keeps (B l)
      (reconcileOrphans env (w.memory.snapshots.filterMap (·.keptCandidate w)) : Act String _))
    (hac : ∀ u, A u → C u) (hbc : ∀ l u, B l u → C u) (hstore : Keeps C (store env))
    (hsaved : ∀ u, B [] u → Q u.saved) :
    (reconcileRecord env w).Meets ⟨fun _ => Q, fun _ => C, C⟩ := by
  have loop : Triple A (reconcileEntries env w.memory.snapshots : Act String _)
      ⟨fun failures u => ∃ l, B l u ∧ (failures = [] → l = []), fun _ => C, C⟩ := by
    cases hg : w.memory.get name with
    | some e =>
      obtain ⟨own, hown, hname⟩ : ∃ own ∈ w.memory.snapshots, own.name = name :=
        ⟨⟨name, e.phase, e.candidateVersion, e.knownGoodVersion⟩,
          mem_snapshots.mpr ⟨e, hg, rfl, rfl, rfl⟩, rfl⟩
      exact reconcileEntries_through env hown (snapshots_nodup _)
        (fun s hs hne => keepsA s hs (hname ▸ hne)) (turn own hname hown)
        (fun l s hs hne => keepsB l s hs (hname ▸ hne)) hac hbc
    | none =>
      have hne : ∀ s ∈ w.memory.snapshots, s.name ≠ name := by
        rintro s hs rfl
        obtain ⟨e, he, -⟩ := mem_snapshots.mp hs
        rw [hg] at he
        cases he
      have all : Keeps (B []) (reconcileEntries env w.memory.snapshots : Act String _) :=
        within_preserves_iff.mp (reconcileEntries_within env fun s hs =>
          within_preserves_iff.mpr (keepsB [] s hs (hne s hs)))
      exact all.mono (absent hg) (fun _ u hu => ⟨[], hu, fun _ => rfl⟩) (fun _ => hbc []) (hbc [])
  have whole : Triple (· = w) (reconcileRecord env) ⟨fun _ => Q, fun _ => C, C⟩ := by
    refine Triple.read fun u hu => ?_
    subst hu
    refine Triple.bind (R := fun failures u => ∃ l, B l u ∧ (failures = [] → l = [])) ?_
      fun failures => ?_
    · exact loop.weaken fun v hv => hv ▸ ha
    refine Triple.bind (R := fun _ u => ∃ l, B l u ∧ (failures = [] → l = [])) ?_ fun more => ?_
    · rintro v ⟨l, hv, hl⟩
      have cleaned : Triple (B l) (reconcileOrphans env _)
          ⟨fun _ u => ∃ l, B l u ∧ (failures = [] → l = []), fun _ => C, C⟩ :=
        (orphans l).mono (fun _ => id) (fun _ x hx => ⟨l, hx, hl⟩) (fun _ => hbc l) (hbc l)
      exact cleaned v hv
    refine Triple.bind (R := fun _ u => C u ∧ (failures = [] → Q u)) ?_ fun _ => ?_
    · rintro v ⟨l, hv, hl⟩
      have hkept := hstore v (hbc l v hv)
      cases hs : store env v <;> rw [hs] at hkept
      case ok a x =>
        refine ⟨hkept, fun hf => ?_⟩
        rw [store_ok hs]
        exact hsaved v (hl hf ▸ hv)
      case error e x => exact hkept
      case halt x => exact hkept
    refine Triple.demand (fun hc v hv => hv.2 ?_) fun _ v hv => hv.1
    exact (List.append_eq_nil_iff.mp (List.isEmpty_iff.mp hc)).1
  exact whole w rfl

/-- The same where all names are plain and others' work is known by what it leaves. -/
theorem reconcileRecord_through {w : Node} (hp : PlainRecord w) (ha : A w)
    (turn : ∀ s, s.name = name → s ∈ w.memory.snapshots →
      Triple A (reconcileEntry env s : Act String _) ⟨B, fun _ => C, C⟩)
    (absent : w.memory.get name = none → ∀ u, A u → B [] u)
    (othersA : ∀ other u v, Plain other → name ≠ other → Beside other u v → A u → A v)
    (othersB : ∀ l other u v, Plain other → name ≠ other → Beside other u v → B l u → B l v)
    (orphans : ∀ l, Keeps (B l)
      (reconcileOrphans env (w.memory.snapshots.filterMap (·.keptCandidate w)) : Act String _))
    (hac : ∀ u, A u → C u) (hbc : ∀ l u, B l u → C u) (hstore : Keeps C (store env))
    (hsaved : ∀ u, B [] u → Q u.saved) :
    (reconcileRecord env w).Meets ⟨fun _ => Q, fun _ => C, C⟩ := by
  refine reconcileRecord_followed env ha turn absent (fun s hs hne => ?_)
    (fun l s hs hne => ?_) orphans
    hac hbc hstore hsaved
  · exact within_preserves_iff.mp ((reconcileEntry_sober env s).mono fun u v h =>
      othersA s.name u v (plainRecord_snapshot hp hs) (Ne.symm hne) h.toBeside)
  · exact within_preserves_iff.mp ((reconcileEntry_sober env s).mono fun u v h =>
      othersB l s.name u v (plainRecord_snapshot hp hs) (Ne.symm hne) h.toBeside)

theorem locked_keeps {operation : Act String Unit} (hclock : ∀ w t, P w → P (w.clock t))
    (reconciled : Triple P (reconcileState env) ⟨fun _ => Q, fun _ => P, P⟩)
    (operated : Triple Q operation (Ends.always P)) : Keeps P (locked env operation) := by
  refine Triple.bind (R := fun _ => P) ?_ fun _ => Triple.bind reconciled fun _ => operated
  intro w hw
  unfold acquireLock
  cases env.unreadable .lock w <;> exact hclock w _ hw

theorem exclusive_keeps {operation : Act Failure Unit} (hclock : ∀ w t, P w → P (w.clock t))
    (reconciled : Triple P (reconcileState env) ⟨fun _ => Q, fun _ => P, P⟩)
    (operated : Triple Q operation (Ends.always P)) : Keeps P (exclusive env operation) := by
  refine Triple.bind (R := fun _ => P) ?_ fun _ =>
    Triple.bind (R := fun _ => Q) ?_ fun _ => operated
  · intro w hw
    unfold tryLock
    cases env.unreadable .busy w <;> cases env.unreadable .lock w <;> exact hclock w _ hw
  · exact Triple.mapError reconciled

/-- A program that takes the record from disk works on it as it is there. -/
theorem loaded_keeps {ε α : Type} {load : Act ε State} {f : State → Act ε α}
    (hl : ∀ w s u, load w = .ok s u → s = w.stored) (hq : Quiet load)
    (hclock : ∀ w t, Q w → Q (w.clock t)) (hhold : ∀ w, Q w → Q { w with memory := w.stored })
    (hqc : ∀ w, Q w → C w) (hf : ∀ s, Triple Q (f s) (Ends.always C)) :
    Triple Q (load >>= fun s => Act.hold s >>= fun _ => f s) (Ends.always C) := by
  intro w hw
  rw [Prog.bind_apply]
  cases h : load w
  case ok s u =>
    obtain ⟨t, rfl⟩ := hq.of_ok h
    have hs := hl w s _ h
    subst hs
    exact hf _ _ (hhold _ (hclock w t hw))
  case error e u =>
    obtain ⟨t, rfl⟩ := hq.of_error h
    exact hqc _ (hclock w t hw)
  case halt u => exact absurd h hq.not_halt

/-- What every examination of the gate keeps, the gate keeps. -/
theorem healthGate_keeps (hclock : ∀ w t, Q w → C (w.clock t))
    (clocked : ∀ w t, C w → C (w.clock t))
    (loaded : ∀ w, Q w → C w.recall)
    (examined : ∀ w merged, C w → ∀ other ∈ w.memory.required,
      Keeps C (verifyOrRecover env other merged))
    (hstore : Keeps C (store env)) : Triple Q (healthGate env) (Ends.always C) := by
  refine Triple.bind (R := fun _ => C) ?_ fun _ => Triple.read fun w hw => ?_
  · intro w hw
    rw [loadForgetting_apply]
    cases env.unreadable .state w with
    | none => exact loaded w hw
    | some e => exact hclock w _ hw
  · dsimp only
    split
    · exact Triple.pure fun u hu => hu ▸ hw
    · refine Triple.bind (R := fun _ => C) ?_ fun merged => ?_
      · rintro u rfl
        exact clocked u _ hw
      refine Triple.bind (R := fun _ => C) ?_ fun failures => ?_
      · exact within_preserves_iff.mp (examineRequired_within env fun other ho =>
          within_preserves_iff.mpr (examined w merged hw other ho))
      · exact Triple.bind hstore fun _ => Triple.demand (fun _ _ => id) fun _ _ => id

end

def SameBase (w u : Node) : Prop := u.osRelease = w.osRelease

instance : IsPreorder Node SameBase where
  refl _ := rfl
  trans _ _ _ h h' := Eq.trans h' h

theorem SameBase.scope {w u : Node} (h : SameBase w u) : u.scope = w.scope := by
  unfold Node.scope Node.osVersion Node.osReleaseValue
  rw [show u.osRelease = w.osRelease from h]

/-- A boot into a given base. Everything else happens on the running one. -/
def Event.On (base : String) : Event → Prop
  | .boot osRelease _ => ({ osRelease := osRelease } : Node).scope = base
  | _ => True

instance (base : String) (e : Event) : Decidable (e.On base) :=
  match e with
  | .boot osRelease _ =>
    inferInstanceAs (Decidable (({ osRelease := osRelease } : Node).scope = base))
  | .command _ _ => isTrue trivial
  | .request _ _ => isTrue trivial

section
variable (env : Environment)

theorem loadForgetting_base : Within SameBase (loadForgetting env) := by
  intro w
  rw [loadForgetting_apply]
  cases env.unreadable .state w <;> exact rfl

theorem store_base : Within SameBase (store env) :=
  (store_steady env : Within (Steady "") (store env)).mono fun _ _ h => h.osRelease

theorem reconcileState_base : Within SameBase (reconcileState env) := by
  refine Within.bind (Within.mapError ((pruneTransactionFiles_tidied env).mono fun _ _ h =>
    h.osRelease)) fun _ => ?_
  refine Within.bind (loadForgetting_base env) fun _ => Within.read fun w => ?_
  refine Within.bind (reconcileEntries_within env fun s _ =>
    (reconcileEntry_sober env s).mono fun _ _ h => h.osRelease) fun _ => ?_
  refine Within.bind ((reconcileOrphans_tidied env _).mono fun _ _ h => h.osRelease) fun _ => ?_
  exact Within.bind (store_base env) fun _ => Within.demand _ _

theorem healthGate_base : Within SameBase (healthGate env) := by
  refine Within.bind (loadForgetting_base env) fun _ => Within.read fun w => ?_
  dsimp only
  split
  · exact Within.pure ()
  · refine Within.bind (quiet_tidied (mergedExtensions_quiet env) |>.mono fun _ _ h => h.osRelease)
      fun _ => ?_
    refine Within.bind (examineRequired_within env fun name _ =>
      (verifyOrRecover_beside env _).mono fun _ _ h => h.osRelease) fun _ => ?_
    exact Within.bind (store_base env) fun _ => Within.demand _ _

theorem after_base {e : Event} {base : String} (he : e.On base) {w : Node} (hw : w.scope = base) :
    (e.after env w).scope = base := by
  have untouched : ∀ {ε α : Type} {m : Act ε α}, Within Untouched m → Within SameBase m :=
    fun h => h.mono fun _ _ hu => hu.osRelease
  have aside : ∀ {ε α : Type} {name : String} {m : Act ε α}, Within (Aside name) m →
      Within SameBase m := fun h => h.mono fun _ _ ha => ha.osRelease
  cases e with
  | boot osRelease bootEntries => exact he
  | command c arguments =>
    have lock : Within SameBase (acquireLock env) := by
      intro w
      unfold acquireLock
      cases env.unreadable .lock w <;> exact rfl
    have operated : Within SameBase (c.operation env arguments) := by
      rcases c.operation_cases env arguments with rfl | hu | ⟨name, -, ha⟩
      · exact healthGate_base env
      · exact untouched hu
      · exact aside ha
    have h := Within.bind lock (fun _ => Within.bind (reconcileState_base env) fun _ => operated)
      w.process
    exact h.scope.trans hw
  | request c r =>
    have lock : Within SameBase (tryLock env) := by
      intro w
      unfold tryLock
      cases env.unreadable .busy w <;> cases env.unreadable .lock w <;> exact rfl
    have operated : Within SameBase (c.operation env r) := by
      rcases c.operation_cases env r with hu | ⟨name, -, ha⟩
      · exact untouched hu
      · exact aside ha
    have h := Within.bind lock (fun _ => Within.bind (Within.mapError (reconcileState_base env)
      (f := fun error => Failure.new .failed s!"could not reconcile interrupted work: {error}"))
      fun _ => operated) w.process
    exact SameBase.scope h |>.trans hw

theorem plainRecord_clock (w : Node) (t : Nat) (h : PlainRecord w) : PlainRecord (w.clock t) := h

theorem plainRecord_remembered {w : Node} (h : PlainRecord w) :
    PlainRecord w.recall := by
  rintro name e (he | he)
  · obtain ⟨d, hd, -⟩ := remembered_entry he
    exact h name d (Or.inr hd)
  · exact h name e (Or.inr he)

theorem plainRecord_required {w : Node} (h : PlainRecord w) {name : String}
    (hn : name ∈ w.memory.required) : Plain name := by
  obtain ⟨e, he, -⟩ := State.mem_required.mp hn
  exact h name e (Or.inl he)

theorem store_plain : Keeps PlainRecord (store env) := by
  have steady : Within (Steady "") (store env) := store_steady env
  refine within_preserves_iff.mp (steady.mono fun _ _ h => ?_)
  exact h.toBeside.aside.plainRecord (by decide)

theorem reconcileRecord_plain : Keeps PlainRecord (reconcileRecord env) := by
  refine within_preserves_iff.mp (Within.read_at fun w hw => ?_)
  refine (?_ : Preserves PlainRecord w _) hw
  refine Within.bind_at ?_ fun failures u hu => ?_
  · exact reconcileEntries_within env (fun s hs => (reconcileEntry_sober env s).mono fun _ _ h =>
      h.toBeside.aside.plainRecord (plainRecord_snapshot hw hs)) w
  refine Within.bind ?_ (fun orphans => ?_) u
  · exact (reconcileOrphans_tidied env _).mono fun _ _ h => h.toSameRecord.plainRecord
  · exact Within.bind (within_preserves_iff.mpr (store_plain env)) fun _ => Within.demand _ _

theorem reconcileState_plain : Keeps PlainRecord (reconcileState env) := by
  refine reconcileState_through env (fun _ _ h => h.toSameRecord.plainRecord) fun w hw => ?_
  exact ⟨plainRecord_remembered hw, reconcileRecord_plain env _ (plainRecord_remembered hw)⟩

theorem healthGate_plain : Keeps PlainRecord (healthGate env) := by
  refine healthGate_keeps env plainRecord_clock plainRecord_clock (fun w => plainRecord_remembered)
    (fun w merged hw other ho => ?_) (store_plain env)
  exact within_preserves_iff.mp ((verifyOrRecover_beside env merged).mono fun _ _ h =>
    h.aside.plainRecord (plainRecord_required hw ho))

theorem untouched_plain {ε α : Type} {m : Act ε α} (h : Within Untouched m) :
    Keeps PlainRecord m :=
  within_preserves_iff.mp (h.mono fun _ _ hu => hu.toSameRecord.plainRecord)

theorem aside_plain {ε α : Type} {m : Act ε α} {name : String} (h : Within (Aside name) m)
    (hn : Plain name) : Keeps PlainRecord m :=
  within_preserves_iff.mp (h.mono fun _ _ ha => ha.plainRecord hn)

theorem after_plain {e : Event} (he : e.Named) {w : Node} (hw : PlainRecord w) :
    PlainRecord (e.after env w) := by
  have process : PlainRecord w.process := by
    rintro name d (hd | hd)
    · simp [Node.process, State.get] at hd
    · exact hw name d (Or.inr hd)
  cases e with
  | boot osRelease bootEntries =>
    rintro name d (hd | hd)
    · simp [Event.after, Node.boot, Node.tick, State.get] at hd
    · exact hw name d (Or.inr hd)
  | command c arguments =>
    refine Outcome.meets_always.mp (locked_keeps env plainRecord_clock (reconcileState_plain env) ?_
      w.process process)
    rcases c.operation_cases env arguments with rfl | hu | ⟨name, hs, ha⟩
    · exact healthGate_plain env
    · exact untouched_plain hu
    · exact aside_plain ha (he name hs)
  | request c r =>
    refine Outcome.meets_always.mp (exclusive_keeps env plainRecord_clock (reconcileState_plain env)
      ?_ w.process process)
    rcases c.operation_cases env r with hu | ⟨name, hs, ha⟩
    · exact untouched_plain hu
    · exact aside_plain ha (he name hs)

theorem run_plain {events : List Event} (named : ∀ e ∈ events, e.Named) {w : Node}
    (plain : PlainRecord w) : PlainRecord (run env events w) :=
  runAll_invariant (fun _ _ hu he => after_plain env he hu) plain
    (eachMeets_of_forall (fun e he _ => named e he) w)

end

/-- A node the agent has not run on yet. Images may have been put there. -/
structure Node.Blank (w : Node) : Prop where
  stored : w.stored = {}
  memory : w.memory = {}

theorem Node.Blank.no_entry {w : Node} (h : w.Blank) (name : String) (e : ExtensionState) :
    ¬ Entry w name e := by
  rintro (he | he)
  · simp [h.memory, State.get] at he
  · simp [h.stored, State.get] at he

theorem Node.Blank.plain {w : Node} (h : w.Blank) : PlainRecord w :=
  fun name e he => absurd he (h.no_entry name e)

end CarbideOS.Agent
