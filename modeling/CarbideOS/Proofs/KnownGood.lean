import CarbideOS.Proofs.Confined
import CarbideOS.Proofs.Fallback

namespace CarbideOS.Agent
open Interruptible

/-! The known-good image over whole runs. Between two operations an entry that is on
its way out may already have lost its image; within one it is backed or on its way out. -/

/-- An extension none of whose entries needs an image to fall back to. -/
def Outgoing (name : String) (w : Node) : Prop :=
  ∀ e, Entry w name e → e.phase = .removing ∨ e.knownGoodVersion = none

/-- An extension whose entry in memory names no known-good version. -/
def Forgotten (name : String) (w : Node) : Prop :=
  ∀ e, w.memory.get name = some e → e.knownGoodVersion = none

theorem Outgoing.weaken {name : String} {w : Node} (h : Outgoing name w) :
    BackedUnlessRemoving name w :=
  fun e he hp => backed_of_none ((h e he).resolve_left hp)

theorem SameRecord.outgoing {name : String} {w u : Node} (h : SameRecord w u)
    (ho : Outgoing name w) : Outgoing name u := by
  intro e he
  rw [Entry, h.memory, h.stored] at he
  exact ho e he

theorem SameRecord.forgotten {name : String} {w u : Node} (h : SameRecord w u)
    (hf : Forgotten name w) : Forgotten name u := by
  intro e he
  rw [h.memory] at he
  exact hf e he

theorem forgotten_edit {name : String} {w : Node} (h : Outgoing name w)
    {f : ExtensionState → ExtensionState} (hf : ∀ e, (f e).knownGoodVersion = none) :
    Outgoing name (w.edit name f) ∧ Forgotten name (w.edit name f) := by
  have blank : Forgotten name (w.edit name f) := by
    intro e he
    rw [edit_entry] at he
    cases he
    exact hf _
  refine ⟨?_, blank⟩
  rintro e (he | he)
  · exact Or.inr (blank e he)
  · exact h e (Or.inr he)

theorem BackedUnlessRemoving.mono {name : String} {w u : Node} (h : BackedUnlessRemoving name w)
    (hk : KeepsRollbacks w u) (he : ∀ e, Entry u name e → Entry w name e) :
    BackedUnlessRemoving name u :=
  fun e hu hp => (h e (he e hu) hp).mono hk

section
variable (env : Environment) {name : String}

theorem store_unlessRemoving : Keeps (BackedUnlessRemoving name) (store env) := by
  have reached : ∀ w u : Node, u.extensions = w.extensions → u.osRelease = w.osRelease →
      u.memory = w.memory → (u.stored = w.stored ∨ u.stored = w.memory) →
      BackedUnlessRemoving name w → BackedUnlessRemoving name u := by
    intro w u hx ho hm hs h
    refine h.mono ⟨?_, fun f _ => by rw [hx]; exact id⟩ fun e he => ?_
    · unfold Node.scope Node.osVersion Node.osReleaseValue
      rw [ho]
    · rcases he with he | he
      · exact Or.inl (hm ▸ he)
      · rcases hs with hs | hs <;> rw [hs] at he
        · exact Or.inr he
        · exact Or.inl he
  refine within_preserves_iff.mp (Act.durable_within ?_ ?_)
  · exact fun w => reached w _ rfl rfl rfl (Or.inr rfl)
  · intro w got left
    split
    · exact reached w _ rfl rfl rfl (Or.inr rfl)
    · exact reached w _ rfl rfl rfl (Or.inl rfl)

/-- A removal that ran to its end has forgotten the known-good version; before that
the entries say that they are on their way out. -/
theorem completeRemoval_outgoing : Triple (Outgoing name) (completeRemoval env name)
    ⟨fun _ u => Outgoing name u ∧ Forgotten name u, fun _ => Outgoing name, Outgoing name⟩ := by
  have step : ∀ {α : Type} {m : Act String α}, Within SameRecord m →
      Triple (Outgoing name) m ⟨fun _ => Outgoing name, fun _ => Outgoing name, Outgoing name⟩ :=
    fun h => within_preserves_iff.mp (h.mono fun _ _ => SameRecord.outgoing)
  refine Triple.bind (step (stopMerged_quiet env name).record) fun _ => ?_
  refine Triple.bind (step (removeActive_record env name)) fun _ => ?_
  refine Triple.bind (step (sysextRefresh_record env)) fun _ => ?_
  refine Triple.bind (step (daemonReload_quiet env).record) fun _ => ?_
  refine Triple.bind (step (pruneCandidates_record env name none)) fun _ => ?_
  refine Triple.bind (step (pruneRollbacks_record env name none)) fun _ => ?_
  exact Triple.change fun w hw => forgotten_edit hw fun _ => rfl

theorem reconcilePhase_backed {s : Snapshot} (hs : s.phase ≠ .removing) :
    Keeps (AllBacked s.name) (reconcilePhase env s : Act String _) := by
  have steady : ∀ {m : Act String (List String)}, Within (Steady s.name) m →
      Within (Preserves (AllBacked s.name)) m := fun h => h.mono fun _ _ hs => hs.allBacked
  have recovered : ∀ reason message,
      Within (Preserves (AllBacked s.name))
        (report message (recover env s.name reason) : Act String _) :=
    fun reason message =>
      report_within (within_preserves_iff.mpr (recover_backed env reason)) message
  have active : Within (Preserves (AllBacked s.name))
      (reconcileActive env s.name : Act String _) := by
    refine Within.read fun w => ?_
    split
    · exact steady (reportCandidates_steady env)
    · split
      · refine Within.bind (recovered _ _) fun _ => ?_
        exact Within.bind (steady (reportCandidates_steady env)) fun _ => Within.pure _
      · exact steady (Within.bind (entry_steady fun _ => Or.inl rfl) fun _ =>
          reportCandidates_steady env)
  refine within_preserves_iff.mp ?_
  unfold reconcilePhase
  dsimp only
  split
  · exact steady (reconcileStaged_steady _)
  · exact recovered _ _
  · exact recovered _ _
  · exact recovered _ _
  · exact recovered _ _
  · exact absurd ‹_› hs
  · exact active
  · exact active
  · exact steady (reconcileIdle_steady env)
  · exact steady (reportCandidates_steady env)

/-- The reconcile prunes by the known-good version it found, which the phase before it
has kept or dropped. -/
theorem reconcileEntry_backed {s : Snapshot} (hs : s.phase ≠ .removing) :
    Triple (fun w => AllBacked s.name w ∧ KnownGoodWithin s.name s.knownGood w)
      (reconcileEntry env s : Act String _) (Ends.always (AllBacked s.name)) := by
  have known : Keeps (KnownGoodWithin s.name s.knownGood) (reconcilePhase env s : Act String _) :=
    within_preserves_iff.mp ((reconcilePhase_sober env s).mono fun _ _ h hk =>
      hk.of_carried h.carried)
  have phase := (reconcilePhase_backed env hs).and known
  refine Triple.bind (phase.mono (fun _ => id) (fun _ _ => id) (fun _ _ => And.left)
    fun _ => And.left)
    fun failures => ?_
  have prune : Triple (fun w => AllBacked s.name w ∧ KnownGoodWithin s.name s.knownGood w)
      (pruneRollbacks env s.name s.knownGood) (Ends.always (AllBacked s.name)) := fun w hw =>
    Outcome.meets_always.mpr (pruneRollbacks_backed env hw.1 hw.2)
  refine Triple.bind (R := fun _ => AllBacked s.name) ?_ fun _ => Triple.pure fun _ => id
  refine Triple.bind (R := fun _ => AllBacked s.name) (Triple.attempt prune) fun r => ?_
  cases r <;> exact Triple.pure fun _ => id

theorem reconcileEntry_outgoing {s : Snapshot} (hs : s.phase = .removing) :
    Triple (Outgoing s.name) (reconcileEntry env s : Act String _)
      ⟨fun l u => Outgoing s.name u ∧ (l = [] → Forgotten s.name u), fun _ => Outgoing s.name,
        Outgoing s.name⟩ := by
  have removal : Triple (Outgoing s.name) (reconcilePhase env s : Act String _)
      ⟨fun l u => Outgoing s.name u ∧ (l = [] → Forgotten s.name u), fun _ => Outgoing s.name,
        Outgoing s.name⟩ := by
    unfold reconcilePhase
    rw [hs]
    refine Triple.bind (R := fun r u => Outgoing s.name u ∧
      ((∃ a, r = .ok a) → Forgotten s.name u)) (Triple.attempt ?_) fun r => ?_
    · exact (completeRemoval_outgoing env).mono (fun _ => id)
        (fun _ _ h => ⟨h.1, fun _ => h.2⟩) (fun _ _ h => ⟨h, fun ⟨a, ha⟩ => nomatch ha⟩) fun _ => id
    · cases r with
      | ok a => exact Triple.pure fun u h => ⟨h.1, fun _ => h.2 ⟨a, rfl⟩⟩
      | error e => exact Triple.pure fun u h => ⟨h.1, fun hl => nomatch hl⟩
  refine Triple.bind removal fun failures => ?_
  have prune := report_within (ε := String) (pruneRollbacks_record env s.name s.knownGood)
    fun error => s!"{s.name}: could not prune rollbacks: {error}"
  intro u hu
  have hp := prune u
  rw [Prog.bind_apply]
  cases hr : report _ (pruneRollbacks env s.name s.knownGood) u <;> rw [hr] at hp
  case ok more v =>
    exact ⟨hp.outgoing hu.1, fun hl => hp.forgotten (hu.2 (List.append_eq_nil_iff.mp hl).1)⟩
  case error e v => exact hp.outgoing hu.1
  case halt v => exact hp.outgoing hu.1

/-- What the reconcile finds in memory: an extension that is backed, or on its way out. -/
theorem remembered_backed {w : Node} (hb : BackedUnlessRemoving name w) {e : ExtensionState}
    (he : w.remembered.get name = some e) :
    if e.phase = .removing then Outgoing name w.recall
    else AllBacked name w.recall ∧
      KnownGoodWithin name e.knownGoodVersion w.recall := by
  obtain ⟨d, hd, hed⟩ := remembered_entry he
  have entries : ∀ e', Entry w.recall name e' → e' = e ∨ e' = d := by
    rintro e' (he' | he')
    · exact Or.inl (Option.some_inj.mp (he'.symm.trans he))
    · exact Or.inr (Option.some_inj.mp (he'.symm.trans hd))
  split
  · rename_i hp
    have hdp : d.phase = .removing := by
      rcases hed with rfl | ⟨-, rfl⟩
      · exact hp
      · cases hp
    intro e' he'
    rcases entries e' he' with rfl | rfl
    · exact Or.inl hp
    · exact Or.inl hdp
  · rename_i hp
    have same : e.knownGoodVersion = d.knownGoodVersion ∧ e.activeVersion = d.activeVersion ∧
        d.phase ≠ .removing := by
      rcases hed with rfl | ⟨hu, rfl⟩
      · exact ⟨rfl, rfl, hp⟩
      · exact ⟨rfl, rfl, by rw [hu]; decide⟩
    obtain ⟨hk, ha, hdp⟩ := same
    have hdb : Backed w name d := hb d (Or.inr hd) hdp
    constructor
    · intro e' he' v hv
      rcases entries e' he' with rfl | rfl
      · rw [ha]
        exact hdb v (hk ▸ hv)
      · exact hdb v hv
    · intro e' he'
      rcases entries e' he' with rfl | rfl
      · exact Or.inr rfl
      · exact Or.inr hk.symm

/-- What one entry's turn establishes for the write that ends the reconcile. -/
def Settled (name : String) (failures : List String) (w : Node) : Prop :=
  BackedUnlessRemoving name w ∧
    (failures = [] → ∀ e, w.memory.get name = some e → Backed w name e)

theorem Settled.spared {failures : List String} {w u : Node} (h : Settled name failures w)
    (hs : Spared name w u) (hm : u.memory.get name = w.memory.get name) :
    Settled name failures u := by
  refine ⟨hs.backedUnlessRemoving h.1, fun hf e he => ?_⟩
  exact hs.backed (h.2 hf e (hm ▸ he))

theorem AllBacked.settled {w : Node} (h : AllBacked name w) (failures : List String) :
    Settled name failures w :=
  ⟨h.weaken, fun _ e he => h e (Or.inl he)⟩

theorem reconcileRecord_backed (hn : Plain name) {w : Node} (hp : PlainRecord w)
    (hb : BackedUnlessRemoving name w) :
    (reconcileRecord env w.recall).Meets
      ⟨fun _ => AllBacked name, fun _ => BackedUnlessRemoving name, BackedUnlessRemoving name⟩ := by
  have through : ∀ {A : Node → Prop}, A w.recall →
      (∀ s, s.name = name → s ∈ w.remembered.snapshots →
        Triple A (reconcileEntry env s : Act String _)
          ⟨Settled name, fun _ => BackedUnlessRemoving name, BackedUnlessRemoving name⟩) →
      (w.remembered.get name = none → ∀ u, A u → Settled name [] u) →
      (∀ u v, Spared name u v → A u → A v) →
      (∀ u, A u → BackedUnlessRemoving name u) →
      (reconcileRecord env w.recall).Meets
        ⟨fun _ => AllBacked name, fun _ => BackedUnlessRemoving name,
          BackedUnlessRemoving name⟩ := by
    intro A ha turn absent others hac
    refine reconcileRecord_through env (plainRecord_remembered hp) ha turn absent
      (fun other u v ho hne h => others u v (h.spared hn ho hne))
      (fun l other u v ho hne h hl => hl.spared (h.spared hn ho hne) (h.memory name hne))
      (fun l => ?_) hac (fun _ _ => And.left) (store_unlessRemoving env) (fun u hu => ?_)
    · refine within_preserves_iff.mp ((reconcileOrphans_tidied env _).mono fun u v h hl => ?_)
      exact hl.spared h.spared (by rw [h.memory])
    · intro e he
      exact hu.2 rfl e (he.elim id id)
  cases hg : w.remembered.get name with
  | none =>
    have blank : AllBacked name w.recall := by
      rintro e (he | he)
      · rw [recall_memory, hg] at he
        cases he
      · rw [get_remembered, Option.map_eq_none_iff] at hg
        rw [recall_stored, hg] at he
        cases he
    refine through blank ?_ (fun _ u hu => hu.settled []) (fun u v h => h.allBacked)
      fun u => AllBacked.weaken
    rintro s rfl hs
    obtain ⟨e, he, -⟩ := mem_snapshots.mp hs
    rw [hg] at he
    cases he
  | some e =>
    have found := remembered_backed hb hg
    have own : ∀ s, s.name = name → s ∈ w.remembered.snapshots →
        s.phase = e.phase ∧ s.knownGood = e.knownGoodVersion := by
      rintro s rfl hs
      obtain ⟨d, hd, hp, -, hk⟩ := mem_snapshots.mp hs
      rw [hg] at hd
      cases hd
      exact ⟨hp, hk⟩
    have absent : w.remembered.get name = none → False := by
      rw [hg]
      exact nofun
    split at found
    · rename_i hphase
      refine through found (fun s hname hs => ?_) (fun h => (absent h).elim) ?_ fun u =>
        Outgoing.weaken
      · subst hname
        have hsp := (own s rfl hs).1.trans hphase
        refine (reconcileEntry_outgoing env hsp).mono (fun _ => id) (fun l u h => ?_)
          (fun _ _ => Outgoing.weaken) fun _ => Outgoing.weaken
        exact ⟨h.1.weaken, fun hl e he => backed_of_none (h.2 hl e he)⟩
      · exact fun u v h ho e he => ho e (h.entry he)
    · rename_i hphase
      refine through (A := fun u => AllBacked name u ∧ KnownGoodWithin name e.knownGoodVersion u)
        found (fun s hname hs => ?_) (fun h => (absent h).elim) ?_ fun u h => h.1.weaken
      · subst hname
        obtain ⟨hsp, hsk⟩ := own s rfl hs
        have turn := reconcileEntry_backed env (s := s) (by rw [hsp]; exact hphase)
        rw [hsk] at turn
        exact turn.mono (fun _ => id) (fun l _ h => h.settled l) (fun _ _ => AllBacked.weaken)
          fun _ => AllBacked.weaken
      · exact fun u v h ⟨ha, hk⟩ => ⟨h.allBacked ha, fun e he => hk e (h.entry he)⟩

/-- The invariant between two operations, and within one. -/
def Resting (name : String) (w : Node) : Prop := PlainRecord w ∧ BackedUnlessRemoving name w

def Working (name : String) (w : Node) : Prop := PlainRecord w ∧ AllBacked name w

theorem reconcileState_backed (hn : Plain name) : Triple (Resting name) (reconcileState env)
    ⟨fun _ => Working name, fun _ => Resting name, Resting name⟩ := by
  refine reconcileState_through env (fun w u h hw => ?_) fun w hw => ⟨⟨?_, ?_⟩, ?_⟩
  · exact ⟨h.toSameRecord.plainRecord hw.1,
      (h.spared : Spared name w u).backedUnlessRemoving hw.2⟩
  · exact plainRecord_remembered hw.1
  · cases hg : w.remembered.get name with
    | none =>
      rintro e (he | he)
      · rw [recall_memory, hg] at he
        cases he
      · exact fun hp => hw.2 e (Or.inr he) hp
    | some e =>
      have found := remembered_backed hw.2 hg
      split at found
      · exact found.weaken
      · exact found.1.weaken
  · have hr := reconcileRecord_backed env hn hw.1 hw.2
    have hk := reconcileRecord_plain env _ (plainRecord_remembered hw.1)
    cases h : reconcileRecord env w.recall <;> rw [h] at hr hk <;>
      exact ⟨hk, hr⟩

theorem hold_backed (w : Node) (h : AllBacked name w) :
    AllBacked name { w with memory := w.stored } := by
  intro e he
  exact (h e (Or.inr (he.elim id id))).mono ⟨rfl, fun _ _ => id⟩

theorem loadState_backed {α : Type} {f : State → Act String α}
    (hf : ∀ s, Triple (AllBacked name) (f s) (Ends.always (BackedUnlessRemoving name))) :
    Triple (AllBacked name) (loadState env >>= fun s => Act.hold s >>= fun _ => f s)
      (Ends.always (BackedUnlessRemoving name)) :=
  loaded_keeps (fun _ _ _ => loadState_eq env) (loadState_quiet env) (fun _ _ => id)
    hold_backed (fun _ => AllBacked.weaken) hf

theorem keeps_weaken {ε α : Type} {m : Act ε α} (h : Keeps (AllBacked name) m) :
    Triple (AllBacked name) m (Ends.always (BackedUnlessRemoving name)) :=
  h.mono (fun _ => id) (fun _ _ => AllBacked.weaken) (fun _ _ => AllBacked.weaken) fun _ =>
    AllBacked.weaken

theorem tame_backed {ε α : Type} {m : Act ε α} (h : Within (Tame name) m) :
    Keeps (AllBacked name) m :=
  within_preserves_iff.mp (h.mono fun _ _ => Tame.allBacked)

theorem removeExtension_backed (rest : List String) :
    Triple (AllBacked name) (removeExtension env (name :: rest))
      (Ends.always (BackedUnlessRemoving name)) := by
  refine loadState_backed env fun s => ?_
  refine Triple.bind (R := fun _ u => BackedUnlessRemoving name u ∧
    ∀ e, u.memory.get name = some e → e.phase = .removing) (Triple.change ?_) fun _ => ?_
  · intro w hw
    refine ⟨?_, ?_⟩
    · rintro e (he | he) hp
      · have he : (w.edit name _).memory.get name = some e := he
        rw [edit_entry] at he
        cases he
        exact absurd rfl hp
      · exact hw e (Or.inr he)
    · intro e he
      have he : (w.edit name _).memory.get name = some e := he
      rw [edit_entry] at he
      cases he
      rfl
  refine Triple.bind (R := fun _ => Outgoing name) ?_ fun _ => ?_
  · intro w hw
    have hst := store_unlessRemoving env w hw.1
    cases hs : store env w <;> rw [hs] at hst
    case ok a u =>
      rw [store_ok hs]
      exact fun e he => Or.inl (hw.2 e (he.elim id id))
    case error e u => exact hst
    case halt u => exact hst
  refine Triple.bind (R := fun _ => BackedUnlessRemoving name) ?_ fun _ => store_unlessRemoving env
  exact (completeRemoval_outgoing env).mono (fun _ => id) (fun _ _ h => h.1.weaken)
    (fun _ _ => Outgoing.weaken) fun _ => Outgoing.weaken

theorem rollbackCommand_backed (rest : List String) :
    Triple (AllBacked name) (rollbackCommand env (name :: rest))
      (Ends.always (BackedUnlessRemoving name)) := by
  refine loadState_backed env fun s => keeps_weaken (within_preserves_iff.mp ?_)
  refine Within.bind (Within.attempt (within_preserves_iff.mpr (recover_backed env _))) fun r => ?_
  refine Within.bind ((store_steady env).mono fun _ _ => Steady.allBacked) fun _ => ?_
  cases r with
  | ok _ => exact Within.pure ()
  | error e => exact Within.fail e

theorem stageSource_backed (arguments : List String) (source : Source) :
    Keeps (AllBacked name) (stageSource env name arguments source) := by
  refine within_preserves_iff.mp ?_
  refine Within.bind (Within.mapError (within_preserves_iff.mpr
    (tame_backed (stageExtension_tame env _ _)))) fun staged => ?_
  split
  · exact Within.pure ()
  · cases staged.extensionVersion with
    | none => exact Within.fail _
    | some version =>
      refine Within.bind (quiet_backed (Quiet.ask _)) fun requestId => ?_
      refine Within.bind (Within.mapError (within_preserves_iff.mpr
        (activateExtension_backed env version _))) fun _ => ?_
      exact Within.pure ()

theorem stageExtensionCommand_backed (rest : List String) :
    Keeps (AllBacked name) (stageExtensionCommand env (name :: rest)) := by
  unfold stageExtensionCommand
  rw [List.head?_cons, Option.filter_some]
  split
  · exact within_preserves_iff.mp (Within.fail _)
  · rename_i found hf
    have hn : name = found := by
      split at hf <;> simp at hf
      exact hf
    subst hn
    split
    · exact stageSource_backed env _ _
    · exact within_preserves_iff.mp (Within.fail _)
    · exact stageSource_backed env _ _

/-- A command on the extension itself. -/
theorem Command.operation_backed {c : Command} {arguments : List String}
    (h : c.subject arguments = some name) :
    Triple (AllBacked name) (c.operation env arguments)
      (Ends.always (BackedUnlessRemoving name)) := by
  have usage : ∀ {message : String}, Triple (AllBacked name) (Prog.fail message : Act String Unit)
      (Ends.always (BackedUnlessRemoving name)) := Triple.fail fun _ => AllBacked.weaken
  have head : ∀ {rest : List String} {other : String}, arguments = other :: rest →
      arguments.head? = some name → other = name := by
    rintro rest other rfl he
    exact Option.some_inj.mp he
  cases c with
  | healthGate => cases h
  | stageBase => cases h
  | activate =>
    rcases ha : arguments with _ | ⟨other, _ | ⟨version, rest⟩⟩
    · exact usage
    · exact usage
    · cases head ha h
      refine keeps_weaken (within_preserves_iff.mp ?_)
      exact Within.bind (Within.mapError (within_preserves_iff.mpr
        (activateExtension_backed env version _))) fun _ => Within.pure ()
  | adopt =>
    rcases ha : arguments with _ | ⟨other, _ | ⟨version, rest⟩⟩
    · exact usage
    · exact usage
    · cases head ha h
      exact loadState_backed env fun s => keeps_weaken (within_preserves_iff.mp
        (Within.mapError (within_preserves_iff.mpr (adoptActive_backed env version))))
  | stageExtension =>
    rcases ha : arguments with _ | ⟨other, rest⟩
    · exact usage
    · cases head ha h
      exact keeps_weaken (stageExtensionCommand_backed env rest)
  | rollback =>
    rcases ha : arguments with _ | ⟨other, rest⟩
    · exact usage
    · cases head ha h
      exact rollbackCommand_backed env rest
  | remove =>
    rcases ha : arguments with _ | ⟨other, rest⟩
    · exact usage
    · cases head ha h
      exact removeExtension_backed env rest
  | require =>
    rcases ha : arguments with _ | ⟨other, rest⟩
    · exact usage
    · cases head ha h
      exact keeps_weaken (tame_backed (setRequired_tame env rest true))
  | unrequire =>
    rcases ha : arguments with _ | ⟨other, rest⟩
    · exact usage
    · cases head ha h
      exact keeps_weaken (tame_backed (setRequired_tame env rest false))
  | reset =>
    rcases ha : arguments with _ | ⟨other, rest⟩
    · exact usage
    · cases head ha h
      exact keeps_weaken (tame_backed (reset_tame env rest))

theorem Call.operation_backed {c : Call} {r : Request} (h : c.subject r = some name) :
    Triple (AllBacked name) (c.operation env r) (Ends.always (BackedUnlessRemoving name)) := by
  refine keeps_weaken (within_preserves_iff.mp ?_)
  cases c with
  | stageBase => cases h
  | stageExtension =>
    change Within _ (answerStageExtension env r)
    unfold answerStageExtension
    rw [show r.name = some name from h]
    refine Within.bind (Within.demand _ _) fun _ => ?_
    cases r.source with
    | error f => exact Within.fail f
    | ok source =>
      exact Within.bind (within_preserves_iff.mpr (tame_backed (stageExtension_tame env _ _)))
        fun _ => Within.pure ()
  | activateExtension =>
    change Within _ (answerActivateExtension env r)
    unfold answerActivateExtension
    rw [show r.name = some name from h]
    cases r.version with
    | none => exact Within.fail _
    | some version =>
      refine Within.bind (Within.demand _ _) fun _ => ?_
      exact Within.bind (within_preserves_iff.mpr (activateExtension_backed env _ _)) fun _ =>
        Within.pure ()

/-- The gate examines this extension and others. -/
theorem healthGate_backed (hn : Plain name) :
    Triple (Working name) (healthGate env) (Ends.always (Working name)) := by
  refine healthGate_keeps env (fun _ _ => id) (fun _ _ => id) (fun w hw => ⟨?_, ?_⟩)
    (fun w merged hw other ho => ?_) ?_
  · exact plainRecord_remembered hw.1
  · intro e he
    rcases he with he | he
    · obtain ⟨d, hd, hed⟩ := remembered_entry he
      have hdb : Backed w name d := hw.2 d (Or.inr hd)
      rcases hed with rfl | ⟨-, rfl⟩
      · exact hdb
      · exact hdb
    · exact hw.2 e (Or.inr he)
  · have hp := plainRecord_required hw.1 ho
    refine within_preserves_iff.mp fun u hu => ⟨?_, ?_⟩
    · exact (verifyOrRecover_beside env merged u).aside.plainRecord hp hu.1
    · by_cases he : name = other
      · subst he
        exact within_preserves_iff.mpr (verifyOrRecover_backed env merged) u hu.2
      · exact ((verifyOrRecover_beside env merged u).spared hn hp he).allBacked hu.2
  · refine within_preserves_iff.mp fun u hu => ⟨?_, ?_⟩
    · exact within_preserves_iff.mpr (store_plain env) u hu.1
    · exact (store_steady env u).allBacked hu.2

/-- One event keeps the invariant. -/
theorem after_resting (hn : Plain name) {e : Event} (he : e.Named) {w : Node} (hon : e.On w.scope)
    (hw : Resting name w) : Resting name (e.after env w) := by
  refine ⟨after_plain env he hw.1, ?_⟩
  have process : Resting name w.process := by
    refine ⟨?_, hw.2.mono ⟨rfl, fun _ _ => id⟩ ?_⟩
    · rintro other d (hd | hd)
      · simp [Node.process, State.get] at hd
      · exact hw.1 other d (Or.inr hd)
    · rintro d (hd | hd)
      · simp [Node.process, State.get] at hd
      · exact Or.inr hd
  have other : ∀ {ε : Type} {m : Act ε Unit}, Within (Spared name) m →
      Triple (Working name) m (Ends.always (BackedUnlessRemoving name)) := fun h u hu =>
    Outcome.meets_always.mpr ((h u).allBacked hu.2).weaken
  have keep : ∀ {ε : Type} {m : Act ε Unit}, Keeps PlainRecord m →
      Triple (Working name) m (Ends.always (BackedUnlessRemoving name)) →
      Triple (Working name) m (Ends.always (Resting name)) := by
    intro ε m hp hb u hu
    have h := Outcome.meets_always.mp (hp u hu.1)
    exact Outcome.meets_always.mpr ⟨h, Outcome.meets_always.mp (hb u hu)⟩
  cases e with
  | boot osRelease bootEntries =>
    refine hw.2.mono ⟨?_, fun _ _ => id⟩ ?_
    · exact hon
    · rintro d (hd | hd)
      · simp [Event.after, Node.boot, Node.tick, State.get] at hd
      · exact Or.inr hd
  | command c arguments =>
    refine (Outcome.meets_always.mp (locked_keeps env (fun _ _ => id)
      (reconcileState_backed env hn) ?_ w.process process)).2
    rcases c.operation_cases env arguments with rfl | hu | ⟨about, hs, ha⟩
    · exact (healthGate_backed env hn).mono (fun _ => id) (fun _ _ h => ⟨h.1, h.2.weaken⟩)
        (fun _ _ h => ⟨h.1, h.2.weaken⟩) fun _ h => ⟨h.1, h.2.weaken⟩
    · exact keep (untouched_plain hu) (other (hu.mono fun _ _ h => h.spared))
    · refine keep (aside_plain ha (he about hs)) ?_
      by_cases hne : name = about
      · subst hne
        exact (Command.operation_backed env hs).weaken fun _ h => h.2
      · exact other (ha.mono fun _ _ h => h.spared hn (he about hs) hne)
  | request c r =>
    refine (Outcome.meets_always.mp (exclusive_keeps env (fun _ _ => id)
      (reconcileState_backed env hn) ?_ w.process process)).2
    rcases c.operation_cases env r with hu | ⟨about, hs, ha⟩
    · exact keep (untouched_plain hu) (other (hu.mono fun _ _ h => h.spared))
    · refine keep (aside_plain ha (he about hs)) ?_
      by_cases hne : name = about
      · subst hne
        exact (Call.operation_backed env hs).weaken fun _ h => h.2
      · exact other (ha.mono fun _ _ h => h.spared hn (he about hs) hne)

theorem Node.Blank.resting {w : Node} (h : w.Blank) (name : String) : Resting name w :=
  ⟨h.plain, fun e he => absurd he (h.no_entry name e)⟩

/-- On one base a recorded known-good version has its image in the extensions directory,
whatever happened to the node, unless its extension is being removed. -/
theorem known_good_is_retained (w : Node) (blank : w.Blank) (enclosed : Enclosed w)
    {events : List Event} (named : ∀ e ∈ events, e.Named) (confined : ∀ e ∈ events, e.Confined)
    (base : ∀ e ∈ events, e.On w.scope) {e : ExtensionState} {version : String}
    (recorded : (run env events w).stored.get name = some e)
    (known : e.knownGoodVersion = some version) (kept : e.phase ≠ .removing) :
    Direct ((run env events w).rollbackPath name version).name ∧
      (run env events w).fileExists ((run env events w).rollbackPath name version) = true := by
  have inside : Enclosed (run env events w) := (run_confined env env.fault confined enclosed).2
  obtain ⟨clean, versions⟩ := inside.stored name e recorded
  refine ⟨direct_rollback inside clean (versions.knownGood version known), ?_⟩
  have plain : PlainRecord (run env events w) := run_plain env named blank.plain
  have hn : Plain name := plain name e (Or.inr recorded)
  have rests : Resting name (run env events w) ∧ (run env events w).scope = w.scope := by
    have each : EachMeets (Event.after env) (fun e _ => e.Named ∧ e.On w.scope) events w :=
      eachMeets_of_forall (fun e he _ => ⟨named e he, base e he⟩) w
    refine runAll_invariant (I := fun u => Resting name u ∧ u.scope = w.scope)
      (fun e u hu he => ?_) ⟨blank.resting name, rfl⟩ each
    exact ⟨after_resting env hn he.1 (hu.2 ▸ he.2) hu.1, after_base env he.2 hu.2⟩
  exact (rests.1.2 e (Or.inr recorded) kept version known).2

end

/-- A node that adopted the image it was provisioned with. -/
def afterAdoption : Node :=
  run (calm twoVersions) [.boot (some "VERSION_ID=1") [], .command .adopt ["n", "a"]]
    (.with "1" [("n_1.raw", [1])])

def adoptedEntry : ExtensionState where
  required := true
  activeVersion := some "a"
  knownGoodVersion := some "a"
  phase := .active
  lastHealth := some "healthy"

theorem known_good_is_retained_adopted :
    Direct (afterAdoption.rollbackPath "n" "a").name ∧
      afterAdoption.fileExists (afterAdoption.rollbackPath "n" "a") = true := by
  have recorded : afterAdoption.stored.get "n" = some adoptedEntry := by decide +kernel
  have enclosed : Enclosed (.with "1" [("n_1.raw", [1])]) :=
    enclosed_with (by decide) (by decide)
  exact known_good_is_retained (calm twoVersions) (.with "1" [("n_1.raw", [1])]) ⟨rfl, rfl⟩
    enclosed (by decide) (by decide) (by decide) recorded rfl (by decide)

end CarbideOS.Agent
