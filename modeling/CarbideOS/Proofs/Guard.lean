import CarbideOS.Proofs.Events

namespace CarbideOS.Agent
open Interruptible

/-- There is an entry, and it satisfies a condition. -/
def Holds (held : ExtensionState → Prop) (entry : Option ExtensionState) : Prop :=
  ∃ d, entry = some d ∧ held d

theorem entry_of_keys {w : Node} {name other : String} {d : ExtensionState}
    (memory : w.memory.extensions.keys = [name]) (stored : w.stored.extensions.keys = [name])
    (h : Entry w other d) : other = name := by
  have mem : ∀ {s : State}, s.extensions.keys = [name] → s.get other = some d → other = name := by
    intro s keys recorded
    have present : other ∈ s.extensions.keys := by
      rw [Std.ExtTreeMap.mem_keys, Std.ExtTreeMap.mem_iff_isSome_getElem?]
      exact congrArg Option.isSome recorded
    rw [keys] at present
    exact List.mem_singleton.mp present
  exact h.elim (mem memory) (mem stored)

/-- Work on another extension writes none of these files. -/
def Clear (fixed : String → Prop) (other osVersion : String) : Prop :=
  ∀ f, fixed f → ¬ Touches other osVersion f ∧ ¬ Retained other osVersion f

/-- The base and the files are as they were on an earlier node, the entry on disk keeps to
its condition, and no other extension on record gets in the way of the files. -/
structure Guarded (name : String) (held : ExtensionState → Prop) (fixed : String → Prop)
    (start w : Node) : Prop where
  osVersion : w.osVersion = start.osVersion
  stored : Holds held (w.stored.get name)
  files : ∀ f, fixed f → w.extensions[f]? = start.extensions[f]?
  clear : ∀ other d, Entry w other d → other ≠ name → Clear fixed other start.scope

/-- And so does the entry in memory. -/
structure GuardedInMemory (name : String) (held : ExtensionState → Prop) (fixed : String → Prop)
    (start w : Node) : Prop extends Guarded name held fixed start w where
  memory : Holds held (w.memory.get name)

theorem osVersion_of_release {w u : Node} (h : u.osRelease = w.osRelease) :
    u.osVersion = w.osVersion := by
  unfold Node.osVersion Node.osReleaseValue
  rw [h]

section
variable {env : Environment} {name : String} {held : ExtensionState → Prop}
  {fixed : String → Prop} {start w u : Node}

theorem Guarded.scope (h : Guarded name held fixed start w) : w.scope = start.scope := by
  unfold Node.scope
  rw [h.osVersion]

theorem Guarded.of_record (h : Guarded name held fixed start w) (record : SameRecord w u)
    (files : ∀ f, fixed f → u.extensions[f]? = w.extensions[f]?) :
    Guarded name held fixed start u := by
  refine ⟨(osVersion_of_release record.osRelease).trans h.osVersion, ?_,
    fun f hf => (files f hf).trans (h.files f hf), fun other d hd => h.clear other d ?_⟩
  · rw [record.stored]
    exact h.stored
  · rwa [Entry, ← record.memory, ← record.stored]

theorem GuardedInMemory.of_record (h : GuardedInMemory name held fixed start w)
    (record : SameRecord w u) (files : ∀ f, fixed f → u.extensions[f]? = w.extensions[f]?) :
    GuardedInMemory name held fixed start u := by
  refine ⟨h.toGuarded.of_record record files, ?_⟩
  rw [record.memory]
  exact h.memory

theorem GuardedInMemory.clock (h : GuardedInMemory name held fixed start w) (t : Nat) :
    GuardedInMemory name held fixed start (w.clock t) :=
  h.of_record ⟨rfl, rfl, rfl, rfl⟩ fun _ _ => rfl

/-- Work on another extension. -/
theorem GuardedInMemory.aside {other : String} (h : GuardedInMemory name held fixed start w)
    (aside : Aside other w u) (hne : other ≠ name) (clear : Clear fixed other start.scope) :
    GuardedInMemory name held fixed start u := by
  refine ⟨⟨(osVersion_of_release aside.osRelease).trans h.osVersion, ?_, fun f hf => ?_, ?_⟩, ?_⟩
  · rcases aside.stored name hne.symm with he | he <;> rw [he]
    · exact h.stored
    · exact h.memory
  · rw [← h.scope] at clear
    obtain ⟨ht, hr⟩ := clear f hf
    exact (aside.files f ht hr).trans (h.files f hf)
  · intro third d hd ht
    by_cases ho : third = other
    · rw [ho]
      exact clear
    · refine h.clear third d ?_ ht
      rcases hd with hd | hd
      · rcases aside.memory third ho with he | he <;> rw [he] at hd
        · exact Or.inl hd
        · exact Or.inr hd
      · rcases aside.stored third ho with he | he <;> rw [he] at hd
        · exact Or.inr hd
        · exact Or.inl hd
  · rcases aside.memory name hne.symm with he | he <;> rw [he]
    · exact h.memory
    · exact h.stored

theorem GuardedInMemory.untouched (h : GuardedInMemory name held fixed start w)
    (untouched : Untouched w u) : GuardedInMemory name held fixed start u :=
  h.of_record untouched.toSameRecord fun f _ => congrArg (·[f]?) untouched.extensions

theorem GuardedInMemory.saved (h : GuardedInMemory name held fixed start w) :
    GuardedInMemory name held fixed start w.saved :=
  ⟨⟨h.osVersion, h.memory, h.files, fun other d hd => h.clear other d (Or.inl (hd.elim id id))⟩,
    h.memory⟩

theorem store_guarded : Keeps (GuardedInMemory name held fixed start) (store env) := by
  refine within_preserves_iff.mp ?_
  apply Act.durable_within
  · exact fun _ h => h.saved
  · intro w reached leftover h
    split
    · exact h.saved
    · exact h.clock _

theorem GuardedInMemory.edit {f : ExtensionState → ExtensionState}
    (h : GuardedInMemory name held fixed start w) (hf : ∀ d, held d → held (f d)) :
    GuardedInMemory name held fixed start (w.edit name f) := by
  obtain ⟨d, recorded, hd⟩ := h.memory
  refine ⟨⟨h.osVersion, h.stored, h.files, fun other d' hd' hne => ?_⟩, ?_⟩
  · refine h.clear other d' (hd'.imp_left fun hd' => ?_) hne
    rwa [edit_other w hne] at hd'
  · rw [edit_entry, recorded]
    exact ⟨f d, rfl, hf d hd⟩

/-- A command that takes the record from disk, changes the entry and writes it. -/
theorem edited_guarded {f : ExtensionState → ExtensionState} (hf : ∀ d, held d → held (f d)) :
    Keeps (GuardedInMemory name held fixed start) (do
      let state ← loadState env
      Act.hold state
      Act.entry name f
      store env) := by
  refine loaded_keeps (Q := GuardedInMemory name held fixed start) (fun _ _ _ => loadState_eq env)
    (loadState_quiet env) (fun _ _ h => h.clock _) (fun w h => ?_) (fun _ h => h) fun s => ?_
  · exact ⟨⟨h.osVersion, h.stored, h.files, fun other d hd =>
      h.clear other d (Or.inr (hd.elim id id))⟩, h.stored⟩
  · exact Triple.bind (R := fun _ => GuardedInMemory name held fixed start)
      (fun w h => h.edit hf) fun _ => store_guarded

theorem Guarded.process (h : Guarded name held fixed start w) :
    Guarded name held fixed start w.process.tick := by
  refine ⟨h.osVersion, h.stored, h.files, ?_⟩
  rintro other d (hd | hd)
  · simp [Node.process, Node.tick, State.get] at hd
  · exact h.clear other d (Or.inr hd)

theorem Guarded.boot (h : Guarded name held fixed start w) {osRelease : Option String}
    (same : ({ osRelease := osRelease } : Node).osVersion = w.osVersion)
    (bootEntries : List String) :
    Guarded name held fixed start (w.boot env osRelease bootEntries) := by
  refine ⟨same.trans h.osVersion, h.stored, h.files, ?_⟩
  rintro other d (hd | hd)
  · simp [Node.boot, Node.tick, State.get] at hd
  · exact h.clear other d (Or.inr hd)

/-- No entry that keeps to the condition is forgotten as a refusal of another base. -/
def Lasting (held : ExtensionState → Prop) (start : Node) : Prop :=
  ∀ d, held d → (start.osVersion.any fun version => State.isStaleTerminal version d) = false

theorem Guarded.recall (h : Guarded name held fixed start w) (lasting : Lasting held start) :
    GuardedInMemory name held fixed start w.recall := by
  refine ⟨⟨h.osVersion, h.stored, h.files, ?_⟩, ?_⟩
  · rintro other d (hd | hd)
    · obtain ⟨d', recorded, -⟩ := remembered_entry hd
      exact h.clear other d' (Or.inr recorded)
    · exact h.clear other d (Or.inr hd)
  · obtain ⟨d, recorded, hd⟩ := h.stored
    refine ⟨d, ?_, hd⟩
    rw [recall_memory, get_remembered, recorded, Option.map_some, h.osVersion, lasting d hd]
    rfl

/-- What the reconcile does for the extension itself keeps to the condition. -/
structure TurnKeeps (env : Environment) (name : String) (held : ExtensionState → Prop)
    (fixed : String → Prop) (start : Node) : Prop where
  entry : ∀ (s : Snapshot) d, s.name = name → held d → s.phase = d.phase →
    s.candidate = d.candidateVersion → s.knownGood = d.knownGoodVersion →
      Keeps (GuardedInMemory name held fixed start) (reconcileEntry env s : Act String _)
  orphans : ∀ w, GuardedInMemory name held fixed start w →
    Keeps (GuardedInMemory name held fixed start)
      (reconcileOrphans env (w.memory.snapshots.filterMap (·.keptCandidate w)) : Act String _)

theorem reconcileRecord_guarded (turn : TurnKeeps env name held fixed start) :
    Keeps (GuardedInMemory name held fixed start) (reconcileRecord env) := by
  refine within_preserves_iff.mp (Within.read_at fun w hw => ?_)
  refine (?_ : Preserves (GuardedInMemory name held fixed start) w _) hw
  refine Within.bind_at ?_ fun failures u _ => ?_
  · refine reconcileEntries_within env (fun s hs => ?_) w
    obtain ⟨d, recorded, phase, candidate, known⟩ := mem_snapshots.mp hs
    by_cases own : s.name = name
    · rw [own] at recorded
      obtain ⟨d', same, hd⟩ := hw.memory
      cases recorded.symm.trans same
      exact within_preserves_iff.mpr (turn.entry s d own hd phase candidate known)
    · exact (reconcileEntry_sober env s).mono fun _ _ beside h =>
        h.aside beside.toBeside.aside own (hw.clear s.name d (Or.inl recorded) own)
  · refine Within.bind (within_preserves_iff.mpr (turn.orphans w hw)) (fun _ => ?_) u
    exact Within.bind (within_preserves_iff.mpr store_guarded) fun _ => Within.demand _ _

theorem reconcileState_guarded (lasting : Lasting held start)
    (turn : TurnKeeps env name held fixed start) (untemporary : ∀ f, fixed f → ¬ Temporary f) :
    Triple (Guarded name held fixed start) (reconcileState env)
      ⟨fun _ => GuardedInMemory name held fixed start, fun _ => Guarded name held fixed start,
        Guarded name held fixed start⟩ := by
  refine Triple.bind (R := fun _ => Guarded name held fixed start) ?_ fun _ =>
    Triple.bind (R := fun _ => GuardedInMemory name held fixed start) ?_ fun _ => ?_
  · refine Triple.mapError (within_preserves_iff.mp fun w h => ?_)
    have pruned := @pruneTransactionFiles_confined env (fun _ => False) w
    exact h.of_record pruned.toSameRecord fun f hf => pruned.files f id (untemporary f hf)
  · intro w h
    rw [loadForgetting_apply]
    cases env.unreadable .state w with
    | none => exact h.recall lasting
    | some error => exact h.of_record (SameRecord.refl w).tick fun _ _ => rfl
  · exact (reconcileRecord_guarded turn).mono (fun _ => id) (fun _ _ => id)
      (fun _ _ => GuardedInMemory.toGuarded) fun _ => GuardedInMemory.toGuarded

/-- Wherever the reconcile ends, and whatever keeps to the condition is done after it. -/
theorem reconciled_guarded {ε : Type} {f : String → ε} {m : Act ε Unit}
    (lasting : Lasting held start) (turn : TurnKeeps env name held fixed start)
    (untemporary : ∀ f, fixed f → ¬ Temporary f) (hw : Guarded name held fixed start w)
    (operated : ∀ u, reconcileState env w = .ok () u → GuardedInMemory name held fixed start u →
      Guarded name held fixed start (m u).state) :
    Guarded name held fixed start
      ((Prog.mapError f (reconcileState env) >>= fun _ => m) w).state := by
  have meets := @reconcileState_guarded env _ _ _ _ lasting turn untemporary w hw
  refine Prog.bind_state ?_ fun _ u hu => ?_
  · rw [Prog.mapError_state]
    cases hr : reconcileState env w <;> rw [hr] at meets
    · exact GuardedInMemory.toGuarded meets
    · exact meets
    · exact meets
  · have hu := Prog.mapError_eq_ok.mp hu
    rw [hu] at meets
    exact operated u hu meets

theorem mapError_id {ε α : Type} (m : Act ε α) : Prog.mapError id m = m := by
  funext w
  unfold Prog.mapError
  cases m w <;> rfl

theorem acquireLock_ok {v : Node} (h : acquireLock env w = .ok () v) : v = w.tick := by
  unfold acquireLock at h
  split at h <;> cases h
  rfl

/-- A command, if its operation keeps to the condition on the reconciled node. -/
theorem locked_guarded {operation : Act String Unit} (lasting : Lasting held start)
    (turn : TurnKeeps env name held fixed start) (untemporary : ∀ f, fixed f → ¬ Temporary f)
    (hw : Guarded name held fixed start w)
    (operated : ∀ u, reconcileState env w.process.tick = .ok () u →
      GuardedInMemory name held fixed start u →
        Guarded name held fixed start (operation u).state) :
    Guarded name held fixed start (locked env operation w.process).state := by
  refine Prog.bind_state ?_ fun _ v hv => ?_
  · unfold acquireLock
    cases env.unreadable .lock w.process <;> exact hw.process
  · rw [acquireLock_ok hv, ← mapError_id (reconcileState env)]
    exact reconciled_guarded lasting turn untemporary hw.process operated

theorem exclusive_guarded {operation : Act Failure Unit} (lasting : Lasting held start)
    (turn : TurnKeeps env name held fixed start) (untemporary : ∀ f, fixed f → ¬ Temporary f)
    (hw : Guarded name held fixed start w)
    (operated : ∀ u, reconcileState env w.process.tick = .ok () u →
      GuardedInMemory name held fixed start u →
        Guarded name held fixed start (operation u).state) :
    Guarded name held fixed start (exclusive env operation w.process).state := by
  refine Prog.bind_state ?_ fun _ v hv => ?_
  · unfold tryLock
    cases env.unreadable .busy w.process <;> cases env.unreadable .lock w.process <;>
      exact hw.process
  · have start' : v = w.process.tick := by
      unfold tryLock at hv
      split at hv <;> cases hv
      rfl
    subst start'
    exact reconciled_guarded lasting turn untemporary hw.process operated

/-- An operation by what it is about. -/
theorem operation_guarded {ε : Type} {subject : Option String} {m : Act ε Unit}
    (hw : GuardedInMemory name held fixed start w)
    (others : ∀ other, subject = some other → other ≠ name → Clear fixed other start.scope)
    (sorts : Within Untouched m ∨ ∃ other, subject = some other ∧ Within (Aside other) m)
    (own : subject = some name → GuardedInMemory name held fixed start (m w).state) :
    GuardedInMemory name held fixed start (m w).state := by
  rcases sorts with untouched | ⟨other, about, aside⟩
  · exact hw.untouched (untouched w)
  · by_cases same : other = name
    · exact own (same ▸ about)
    · exact hw.aside (aside w) same (others other about same)

/-- The gate, if the examination of the extension itself keeps to the condition. -/
theorem healthGate_guarded (lasting : Lasting held start)
    (examined : ∀ w merged, GuardedInMemory name held fixed start w → name ∈ w.memory.required →
      Keeps (GuardedInMemory name held fixed start) (verifyOrRecover env name merged)) :
    Keeps (GuardedInMemory name held fixed start) (healthGate env) := by
  refine healthGate_keeps env (fun _ _ h => h.clock _) (fun _ _ h => h.clock _)
    (fun w h => h.toGuarded.recall lasting) (fun w merged hw other required => ?_) store_guarded
  by_cases own : other = name
  · subst own
    exact examined w merged hw required
  · obtain ⟨d, recorded, -⟩ := State.mem_required.mp required
    exact within_preserves_iff.mp ((verifyOrRecover_beside env merged).mono fun _ _ beside h =>
      h.aside beside.aside own (hw.clear other d (Or.inl recorded) own))

end
end CarbideOS.Agent
