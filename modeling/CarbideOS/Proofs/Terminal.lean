import CarbideOS.Proofs.Arrival
import CarbideOS.Proofs.Confined
import CarbideOS.Proofs.Unasked

namespace CarbideOS.Agent
open Interruptible

/-- No image of another extension goes by the name of the active image of this one. -/
structure Apart (name other osVersion : String) : Prop where
  placed : ¬ Touches other osVersion (scopedActivePath name osVersion).name
  legacy : ¬ Touches other osVersion (legacyActivePath name).name

/-- The names the active image can have. -/
def ActiveName (name osVersion f : String) : Prop :=
  f = (scopedActivePath name osVersion).name ∨ f = (legacyActivePath name).name

theorem ActiveName.raw {name osVersion f : String} (h : ActiveName name osVersion f) :
    Text.endsWith f ".raw" = true := by
  rcases h with rfl | rfl
  · exact endsWith_raw_scoped name osVersion
  · exact endsWith_raw_legacy name

theorem ActiveName.untemporary {name osVersion f : String} (h : ActiveName name osVersion f) :
    ¬ Temporary f :=
  not_temporary h.raw (by decide)

theorem Apart.clear {name other osVersion : String} (h : Apart name other osVersion) :
    Clear (ActiveName name osVersion) other osVersion := by
  intro f hf
  refine ⟨?_, not_retained_of hf.raw (by decide)⟩
  rcases hf with rfl | rfl
  · exact h.placed
  · exact h.legacy

/-- The entry of an extension that was given up, and its active image, whatever becomes of
whether it is required. -/
abbrev Refused (name : String) (held : ExtensionState → Prop) (start w : Node) : Prop :=
  Guarded name held (ActiveName name start.scope) start w

abbrev RefusedInMemory (name : String) (held : ExtensionState → Prop) (start w : Node) : Prop :=
  GuardedInMemory name held (ActiveName name start.scope) start w

section
variable {env : Environment} {name : String} {held : ExtensionState → Prop} {start w u : Node}
  {ε α : Type}

theorem Guarded.activeImage (h : Refused name held start w) :
    w.activeImage name = start.activeImage name :=
  (activePath_of_files h.scope (h.files _ (Or.inl rfl)) (h.files _ (Or.inr rfl))).2

theorem Tidied.active {osVersion f : String} (h : Tidied w u) (hf : ActiveName name osVersion f) :
    u.extensions[f]? = w.extensions[f]? :=
  h.files f (endsWith_false hf.raw (by decide)) (endsWith_false hf.raw (by decide))

theorem GuardedInMemory.tidied (h : RefusedInMemory name held start w) (tidied : Tidied w u) :
    RefusedInMemory name held start u :=
  h.of_record tidied.toSameRecord fun _ hf => tidied.active hf

/-- Its own turn in the reconcile leaves an extension that was given up alone. -/
theorem refused_turn (givenUp : ∀ d, held d → d.phase = .unrecoverable) :
    TurnKeeps env name held (ActiveName name start.scope) start where
  entry := by
    rintro ⟨n, phase, candidate, known⟩ d rfl hd hp - -
    obtain rfl : phase = .unrecoverable := hp.trans (givenUp d hd)
    have candidates : Within (Preserves (RefusedInMemory n held start))
        (reconcilePhase env ⟨n, .unrecoverable, candidate, known⟩ : Act String _) :=
      (reportCandidates_tidied env n).mono fun _ _ tidied h => h.tidied tidied
    have rollbacks : Within (Preserves (RefusedInMemory n held start))
        (pruneRollbacks env n known) := by
      intro w h
      have pruned := @pruneRollbacks_confined env n known w
      exact h.of_record pruned.toSameRecord fun f hf =>
        pruned.files f (not_retained_of hf.raw (by decide)) hf.untemporary
    refine within_preserves_iff.mp ?_
    exact Within.bind candidates fun _ =>
      Within.bind (report_within rollbacks _) fun _ => Within.pure _
  orphans := fun w _ => within_preserves_iff.mp
    ((reconcileOrphans_tidied env _).mono fun _ _ tidied h => h.tidied tidied)

theorem refused_lasting (givenUp : ∀ d, held d → d.terminalOsVersion = start.osVersion) :
    Lasting held start := by
  intro d hd
  cases ho : start.osVersion with
  | none => rfl
  | some version =>
    have same : d.terminalOsVersion = some version := (givenUp d hd).trans ho
    simp [State.isStaleTerminal, same]

/-- The gate comes to an extension it has given up and refuses it without a step. -/
theorem verifyOrRecover_refused (h : Holds held (w.memory.get name))
    (givenUp : ∀ d, held d → d.phase = .unrecoverable) (merged : List String) :
    verifyOrRecover env name merged w =
      .error "in a terminal state; not retrying automatically" w := by
  obtain ⟨d, recorded, hd⟩ := h
  rw [verifyOrRecover, read_apply, if_pos]
  · rfl
  · rw [recorded, Option.any_some, givenUp d hd]
    rfl

theorem healthGate_refused (givenUp : ∀ d, held d → d.phase = .unrecoverable)
    (stamped : ∀ d, held d → d.terminalOsVersion = start.osVersion) :
    Keeps (RefusedInMemory name held start) (healthGate env) := by
  refine healthGate_guarded (refused_lasting stamped) fun w merged hw _ x hx => ?_
  rw [verifyOrRecover_refused hx.memory givenUp]
  exact hx

theorem examineRequired_reports (givenUp : ∀ d, held d → d.phase = .unrecoverable)
    {merged names failures : List String} (mem : name ∈ names)
    (clear : ∀ other ∈ names, other ≠ name → Clear (ActiveName name start.scope) other start.scope)
    (hw : RefusedInMemory name held start w)
    (h : (examineRequired env merged names : Act String _) w = .ok failures u) :
    name ∈ failures := by
  induction names generalizing w failures with
  | nil => cases mem
  | cons first rest ih =>
    obtain ⟨result, v, ha, h⟩ := Prog.bind_eq_ok.mp h
    have clear' : ∀ other ∈ rest, other ≠ name →
        Clear (ActiveName name start.scope) other start.scope :=
      fun other ho => clear other (List.mem_cons_of_mem first ho)
    by_cases own : first = name
    · rw [own] at ha
      rcases Prog.attempt_eq_ok.mp ha with ⟨_, -, hv⟩ | ⟨_, rfl, hv⟩
      · rw [verifyOrRecover_refused hw.memory givenUp] at hv
        cases hv
      · obtain ⟨others, v', -, h⟩ := Prog.bind_eq_ok.mp h
        cases h
        rw [own]
        exact List.mem_cons_self
    · have mem' : name ∈ rest := (List.mem_cons.mp mem).resolve_left (Ne.symm own)
      have kept : RefusedInMemory name held start v := by
        have beside :=
          (@Within.attempt _ _ String _ _ _ (@verifyOrRecover_beside env first merged)).of_ok ha
        exact hw.aside beside.aside own (clear first List.mem_cons_self own)
      rcases Prog.attempt_eq_ok.mp ha with ⟨_, rfl, -⟩ | ⟨_, rfl, -⟩
      · exact ih mem' clear' kept h
      · obtain ⟨others, v', h', h⟩ := Prog.bind_eq_ok.mp h
        cases h
        exact List.mem_cons_of_mem _ (ih mem' clear' kept h')

/-- The gate fails while a required extension is given up. -/
theorem healthGate_fails (givenUp : ∀ d, held d → d.phase = .unrecoverable)
    (stamped : ∀ d, held d → d.terminalOsVersion = start.osVersion)
    (hw : RefusedInMemory name held start w)
    (required : (w.remembered.get name).any ExtensionState.required = true) :
    healthGate env w ≠ .ok () u := by
  intro h
  have recalled := hw.toGuarded.recall (refused_lasting stamped)
  obtain ⟨_, v, loaded, h⟩ := Prog.bind_eq_ok.mp h
  rw [loadForgetting_apply] at loaded
  cases hu : env.unreadable .state w with
  | some error =>
    rw [hu] at loaded
    cases loaded
  | none =>
    rw [hu] at loaded
    cases loaded
    rw [read_apply] at h
    have mem : name ∈ w.recall.memory.required := by
      cases recorded : w.remembered.get name with
      | none => simp [recorded] at required
      | some d =>
        rw [recorded] at required
        exact State.mem_required.mpr ⟨d, recorded, required⟩
    have some : w.recall.memory.required.isEmpty = false := by
      cases hr : w.recall.memory.required with
      | nil =>
        rw [hr] at mem
        cases mem
      | cons => rfl
    simp only [some] at h
    obtain ⟨merged, v, listed, h⟩ := Prog.bind_eq_ok.mp h
    obtain ⟨t, rfl⟩ := (mergedExtensions_quiet env).of_ok listed
    obtain ⟨failures, v, examined, h⟩ := Prog.bind_eq_ok.mp h
    have reported : name ∈ failures := by
      refine examineRequired_reports givenUp mem (fun other ho hne => ?_)
        (recalled.clock t) examined
      obtain ⟨d, recorded, -⟩ := State.mem_required.mp ho
      exact recalled.clear other d (Or.inl recorded) hne
    obtain ⟨_, v, -, h⟩ := Prog.bind_eq_ok.mp h
    obtain ⟨none, -⟩ := demand_ok h
    rw [List.isEmpty_iff.mp none] at reported
    cases reported

variable {contents : Node → Except String String}

theorem removeOrphans_unread (kept candidates : List Path) :
    (removeOrphans (env.withRuleset name contents) kept candidates : Act ε _) =
      removeOrphans env kept candidates := by
  induction candidates with
  | nil => rfl
  | cons candidate rest ih =>
    unfold removeOrphans
    rw [ih]
    rfl

theorem reconcileEntries_unread {entries : List Snapshot}
    (left : ∀ s ∈ entries, s.name = name → s.phase = .unrecoverable) :
    (reconcileEntries (env.withRuleset name contents) entries : Act ε _) =
      reconcileEntries env entries := by
  induction entries with
  | nil => rfl
  | cons s rest ih =>
    have own : (reconcileEntry (env.withRuleset name contents) s : Act ε _) =
        reconcileEntry env s := by
      by_cases same : s.name = name
      · have phase := left s List.mem_cons_self same
        unfold reconcileEntry reconcilePhase
        rw [phase]
        rfl
      · exact reconcileEntry_other same
    unfold reconcileEntries
    rw [own, ih fun t there => left t (List.mem_cons_of_mem s there)]

/-- The reconcile of a record on which the extension is given up. -/
theorem reconcileRecord_unread (givenUp : ∀ d, held d → d.phase = .unrecoverable)
    (h : Holds held (w.memory.get name)) :
    reconcileRecord (env.withRuleset name contents) w = reconcileRecord env w := by
  have left : ∀ s ∈ w.memory.snapshots, s.name = name → s.phase = .unrecoverable := by
    rintro s there rfl
    obtain ⟨d, recorded, phase, -⟩ := mem_snapshots.mp there
    obtain ⟨d', recorded', hd⟩ := h
    cases recorded.symm.trans recorded'
    exact phase.trans (givenUp d hd)
  unfold reconcileRecord reconcileOrphans
  simp only [read_apply, reconcileEntries_unread left, removeOrphans_unread]
  rfl

theorem reconcileState_unread (givenUp : ∀ d, held d → d.phase = .unrecoverable)
    (stamped : ∀ d, held d → d.terminalOsVersion = start.osVersion)
    (hw : Refused name held start w) :
    reconcileState (env.withRuleset name contents) w = reconcileState env w := by
  refine Prog.bind_congr fun _ v cleaned => Prog.bind_congr fun _ x loaded => ?_
  have pruned := @pruneTransactionFiles_confined env (fun _ => False)
  have hv : Refused name held start v := by
    have cleaned : pruneTransactionFiles env w = .ok () v := Prog.mapError_eq_ok.mp cleaned
    have pruned := pruned.of_ok cleaned
    exact hw.of_record pruned.toSameRecord fun f hf => pruned.files f id hf.untemporary
  have loaded : loadForgetting env v = .ok () x := loaded
  rw [loadForgetting_apply] at loaded
  cases readable : env.unreadable .state v with
  | some error =>
    rw [readable] at loaded
    cases loaded
  | none =>
    rw [readable] at loaded
    cases loaded
    exact reconcileRecord_unread givenUp (hv.recall (refused_lasting stamped)).memory

theorem examineRequired_unread (givenUp : ∀ d, held d → d.phase = .unrecoverable)
    {merged names : List String}
    (clear : ∀ other ∈ names, other ≠ name → Clear (ActiveName name start.scope) other start.scope)
    (hw : RefusedInMemory name held start w) :
    (examineRequired (env.withRuleset name contents) merged names : Act String _) w =
      examineRequired env merged names w := by
  induction names generalizing w with
  | nil => rfl
  | cons first rest ih =>
    have clear' : ∀ other ∈ rest, other ≠ name →
        Clear (ActiveName name start.scope) other start.scope :=
      fun other ho => clear other (List.mem_cons_of_mem first ho)
    have same : (Prog.attempt (verifyOrRecover (env.withRuleset name contents) first merged) :
        Act String _) w = Prog.attempt (verifyOrRecover env first merged) w := by
      by_cases own : first = name
      · subst own
        unfold Prog.attempt
        rw [verifyOrRecover_refused hw.memory givenUp, verifyOrRecover_refused hw.memory givenUp]
      · rw [verifyOrRecover_other own]
    refine Prog.bind_same same fun result v examined => ?_
    have kept : RefusedInMemory name held start v := by
      by_cases own : first = name
      · subst own
        rcases Prog.attempt_eq_ok.mp examined with ⟨_, -, refused⟩ | ⟨_, -, refused⟩ <;>
          rw [verifyOrRecover_refused hw.memory givenUp] at refused <;> cases refused
        exact hw
      · have beside := (@Within.attempt _ _ String _ _ _
          (@verifyOrRecover_beside env first merged)).of_ok examined
        exact hw.aside beside.aside own (clear first List.mem_cons_self own)
    cases result with
    | ok _ => exact ih clear' kept
    | error _ => exact Prog.bind_same (ih clear' kept) fun _ _ _ => rfl

/-- The gate comes to the extension without reading its ruleset. -/
theorem healthGate_unread (givenUp : ∀ d, held d → d.phase = .unrecoverable)
    (stamped : ∀ d, held d → d.terminalOsVersion = start.osVersion)
    (hw : RefusedInMemory name held start w) :
    healthGate (env.withRuleset name contents) w = healthGate env w := by
  refine Prog.bind_congr fun _ v loaded => ?_
  have loaded : loadForgetting env w = .ok () v := loaded
  rw [loadForgetting_apply] at loaded
  have recalled : RefusedInMemory name held start v := by
    cases readable : env.unreadable .state w with
    | some error =>
      rw [readable] at loaded
      cases loaded
    | none =>
      rw [readable] at loaded
      cases loaded
      exact hw.toGuarded.recall (refused_lasting stamped)
  rw [read_apply, read_apply]
  split
  · rfl
  · refine Prog.bind_congr fun merged x listed => ?_
    obtain ⟨t, rfl⟩ := (mergedExtensions_quiet env).of_ok listed
    refine Prog.bind_same (examineRequired_unread givenUp (fun other there hne => ?_)
      (recalled.clock t)) fun _ _ _ => rfl
    obtain ⟨d, recorded, -⟩ := State.mem_required.mp there
    exact recalled.clear other d (Or.inl recorded) hne

/-- A staged image gets as far as its record, or goes where the active image is. -/
def Enters (env : Environment) (name : String) (base : Option String) (source : Source)
    (w : Node) : Prop :=
  ∃ staging requested x p y, Receives env name base w source staging requested x ∧
    examine env name requested staging x = .ok p y ∧
    (p.path = scopedActivePath name x.scope ∨ p.forRunningBase = true ∧
      ∃ v, (clearCandidates env name true >>= fun _ =>
        moveIntoPlace env staging p.path) y = .ok () v ∧
        env.unreadable .state v = none)

theorem GuardedInMemory.copied {fixed : String → Prop} (h : GuardedInMemory name held fixed start w)
    (copies : Private w u) : GuardedInMemory name held fixed start u := by
  obtain ⟨d, t, rfl⟩ := copies
  exact h.of_record ⟨rfl, rfl, rfl, rfl⟩ fun _ _ => rfl

/-- What a private copy becomes leaves a refusal alone if it does not enter. -/
theorem validateAndPlace_refused {requested : Option String} {staging : Path} {x : Node}
    (place : staging.place = .staging) (hx : RefusedInMemory name held start x)
    (stays : ∀ p y, examine env name requested staging x = .ok p y →
      p.path ≠ scopedActivePath name x.scope ∧ (p.forRunningBase = true → ∀ v,
        (clearCandidates env name true >>= fun _ => moveIntoPlace env staging p.path) y = .ok () v →
          env.unreadable .state v ≠ none)) :
    RefusedInMemory name held start (validateAndPlace env name requested staging x).state ∧
      ∀ p u, validateAndPlace env name requested staging x = .ok p u →
        p.forRunningBase = false := by
  rw [validateAndPlace_eq]
  rcases @examine_quiet env name requested staging x
    with ⟨p, y, examined, later⟩ | ⟨error, y, examined, later⟩
  swap
  · rw [Prog.bind_of_error examined]
    obtain ⟨t, rfl⟩ := later
    exact ⟨hx.copied ⟨x.staging, t, rfl⟩, fun p u h => by cases h⟩
  obtain ⟨t, rfl⟩ := later
  rw [Prog.bind_of_ok examined]
  obtain ⟨outside, unrecorded⟩ := stays p _ examined
  have found := examine_ok examined
  have hy : RefusedInMemory name held start (x.clock t) := hx.copied ⟨x.staging, t, rfl⟩
  -- the target is neither of the two names an active image can have
  have target : ∀ f, ActiveName name start.scope f → f ≠ p.path.name := by
    have slot := found.slot
    rw [← hx.scope]
    cases hp : p.path with
    | mk place file =>
      rw [hp] at slot outside
      rintro f active rfl
      cases slot with
      | candidate version running =>
        exact ne_of_endings (x.endsWith_candidate name version) active.raw (by decide) rfl
      | image elsewhere =>
        rcases active with same | same
        · exact outside (congrArg (Path.mk .extensions) same)
        · exact legacy_ne_active name _ (congrArg (Path.mk .extensions) same.symm)
  have moved : ∀ z, RefusedInMemory name held start z →
      RefusedInMemory name held start (moveIntoPlace env staging p.path z).state := by
    intro z hz
    have confined := @moveIntoPlace_confined env (· = p.path.name) _ p.path place (fun _ => rfl) z
    exact hz.of_record confined.toSameRecord fun f hf =>
      confined.files f (target f hf) hf.untemporary
  unfold settle
  cases running : p.forRunningBase with
  | false =>
    have cleared : clearCandidates env name false (x.clock t) = .ok () (x.clock t) := rfl
    have recorded : ∀ v, recordPlaced env name p.extensionVersion false p.path v = .ok () v := by
      intro v
      cases p.extensionVersion <;> rfl
    simp only [Prog.bind_assoc]
    rw [Prog.bind_of_ok cleared]
    constructor
    · refine Prog.bind_state (moved _ hy) fun _ v hv => ?_
      have moved := moved _ hy
      rw [hv] at moved
      rw [Prog.bind_of_ok (recorded v)]
      exact moved
    · intro p' u h
      obtain ⟨_, v, -, h⟩ := Prog.bind_eq_ok.mp h
      rw [Prog.bind_of_ok (recorded v)] at h
      cases h
      exact running
  | true =>
    have cleared : RefusedInMemory name held start
        (clearCandidates env name true (x.clock t)).state := by
      have tidied : Within Tidied (clearCandidates env name true) :=
        Within.mapError (pruneCandidates_tidied env name none)
      exact hy.tidied (tidied (x.clock t))
    obtain ⟨version, declared, path⟩ := found.version running
    have settled : RefusedInMemory name held start
        ((clearCandidates env name true >>= fun _ => moveIntoPlace env staging p.path)
          (x.clock t)).state := by
      refine Prog.bind_state cleared fun _ z hz => ?_
      rw [hz] at cleared
      exact moved z cleared
    have never : ∀ v, (clearCandidates env name true >>= fun _ => moveIntoPlace env staging p.path)
        (x.clock t) = .ok () v → ∃ error, recordPlaced env name p.extensionVersion true p.path v =
          .error error v.tick := by
      intro v hv
      obtain ⟨why, unreadable⟩ := Option.ne_none_iff_exists'.mp (unrecorded running v hv)
      have fails : loadState env v = .error why v.tick := by
        unfold loadState
        rw [unreadable]
      rw [declared]
      exact ⟨_, Prog.bind_of_error (Prog.mapError_eq_error.mpr ⟨why, fails, rfl⟩) _⟩
    have whole : (clearCandidates env name true >>= fun _ => moveIntoPlace env staging p.path >>=
        fun _ => recordPlaced env name p.extensionVersion true p.path) >>= (fun _ => pure p) =
      (clearCandidates env name true >>= fun _ => moveIntoPlace env staging p.path) >>= fun _ =>
        recordPlaced env name p.extensionVersion true p.path >>= fun _ => pure p := by
      simp only [Prog.bind_assoc]
    rw [whole]
    constructor
    · refine Prog.bind_state settled fun _ v hv => ?_
      obtain ⟨error, fails⟩ := never v hv
      rw [hv] at settled
      rw [Prog.bind_of_error fails]
      exact settled.copied ⟨v.staging, v.now + 1, rfl⟩
    · intro p' u h
      obtain ⟨_, v, hv, h⟩ := Prog.bind_eq_ok.mp h
      obtain ⟨error, fails⟩ := never v hv
      rw [Prog.bind_of_error fails] at h
      cases h

theorem stageExtension_refused {base : Option String} {source : Source}
    (hw : RefusedInMemory name held start w) (stays : ¬ Enters env name base source w) :
    RefusedInMemory name held start (stageExtension env name base source w).state ∧
      ∀ s u, stageExtension env name base source w = .ok s u → s.forRunningBase = false := by
  rcases stageExtension_arrives env name base source w with
    ⟨left, failed⟩ | ⟨received, place, copied, left, placed⟩
  · exact ⟨hw.copied left, fun s u h => absurd h (failed s u)⟩
  · rename_i staging requested x
    have kept := validateAndPlace_refused place (hw.copied copied) fun p y examined => by
      refine ⟨fun outside => ?_, fun running v hv readable => ?_⟩
      · exact stays ⟨staging, requested, x, p, y, received, examined, Or.inl outside⟩
      · exact stays ⟨staging, requested, x, p, y, received, examined,
          Or.inr ⟨running, v, hv, readable⟩⟩
    refine ⟨kept.1.copied left, fun s u h => ?_⟩
    obtain ⟨p, y, hp, same⟩ := placed s u h
    exact same.trans (kept.2 p y hp)

end

/-- What a staging event stages: the extension, the base asked for and the source. -/
def Event.staging : Event → Option (String × Option String × Source)
  | .command .stageExtension (name :: rest) =>
    if Text.startsWith name "--" then none
    else
      match option "--path" (name :: rest), option "--digest" (name :: rest) with
      | some path, some digest =>
        some (name, option "--base" (name :: rest), .supplied path digest)
      | some _, none => none
      | none, _ =>
        some (name, option "--base" (name :: rest), .acquire (option "--version" (name :: rest)))
  | .request .stageExtension r =>
    match r.name, r.source with
    | some name, .ok source => some (name, r.base, source)
    | _, _ => none
  | _ => none

/-- Events that may be about an extension without leaving its refusal behind. -/
def Event.spares : Event → Bool
  | .command .stageExtension _ => true
  | .command .require _ => true
  | .command .unrequire _ => true
  | .request .stageExtension _ => true
  | _ => false

/-- What an event keeps to as long as an extension stays given up: it boots no other base;
it is about no extension that has a file of the same name; and if it is about this one, it
is a staging that does not get as far as its record, or sets whether it is required. -/
def Event.KeepsRefusal (env : Environment) (name : String) : Event → Node → Prop
  | .boot osRelease _, w => ({ osRelease := osRelease } : Node).osVersion = w.osVersion
  | d, w => (∀ other, d.subject = some other → other ≠ name → Apart name other w.scope) ∧
      (d.subject = some name → d.spares = true ∧ ∀ base source,
        d.staging = some (name, base, source) →
        ∀ u, reconcileState env w.process.tick = .ok () u → ¬ Enters env name base source u)

section
variable {env : Environment} {name : String} {held : ExtensionState → Prop} {start w u : Node}

theorem stageSource_refused {arguments : List String} {source : Source}
    (hw : RefusedInMemory name held start w)
    (stays : ¬ Enters env name (option "--base" arguments) source w) :
    RefusedInMemory name held start (stageSource env name arguments source w).state := by
  obtain ⟨kept, elsewhere⟩ := stageExtension_refused hw stays
  refine Prog.bind_state ?_ fun s u h => ?_
  · rw [Prog.mapError_state]
    exact kept
  · have h := Prog.mapError_eq_ok.mp h
    rw [h] at kept
    rw [if_pos (by simp [elsewhere s u h])]
    exact kept

theorem stageExtensionCommand_refused {rest : List String} (hw : RefusedInMemory name held start w)
    (stays : ∀ base source,
      (Event.command .stageExtension (name :: rest)).staging = some (name, base, source) →
        ¬ Enters env name base source w) :
    RefusedInMemory name held start (stageExtensionCommand env (name :: rest) w).state := by
  unfold stageExtensionCommand
  rw [List.head?_cons, Option.filter_some]
  unfold Event.staging at stays
  cases dashes : Text.startsWith name "--" with
  | true => exact hw
  | false =>
    simp only [dashes] at stays
    simp only [Bool.not_false, if_true]
    cases hp : option "--path" (name :: rest) with
    | none =>
      simp only [hp] at stays
      exact stageSource_refused hw (stays _ _ rfl)
    | some path =>
      cases hd : option "--digest" (name :: rest) with
      | none => exact hw
      | some digest =>
        simp only [hp, hd] at stays
        exact stageSource_refused hw (stays _ _ rfl)

theorem answerStageExtension_refused {r : Request} (hr : r.name = some name)
    (hw : RefusedInMemory name held start w)
    (stays : ∀ base source,
      (Event.request .stageExtension r).staging = some (name, base, source) →
        ¬ Enters env name base source w) :
    RefusedInMemory name held start (answerStageExtension env r w).state := by
  unfold answerStageExtension
  simp only [Event.staging, hr] at stays
  rw [hr]
  dsimp only
  cases usable : r.base.all versionValid with
  | false => exact hw
  | true =>
    cases source : r.source with
    | error failure => exact hw
    | ok source =>
      rw [source] at stays
      obtain ⟨kept, -⟩ := stageExtension_refused hw (stays _ _ rfl)
      refine Prog.bind_state hw fun _ u hu => ?_
      obtain ⟨-, rfl⟩ := demand_ok hu
      exact Prog.bind_state kept fun s u h => by rwa [h] at kept

/-- One event. -/
theorem after_refused (settable : ∀ d required, held d → held { d with required := required })
    (givenUp : ∀ d, held d → d.phase = .unrecoverable)
    (stamped : ∀ d, held d → d.terminalOsVersion = start.osVersion) {d : Event}
    (hw : Refused name held start w) (keeps : d.KeepsRefusal env name w) :
    Refused name held start (d.after env w) := by
  have lasting : Lasting held start := refused_lasting stamped
  have turn : TurnKeeps env name held (ActiveName name start.scope) start := refused_turn givenUp
  cases d with
  | boot osRelease bootEntries => exact hw.boot keeps bootEntries
  | command c arguments =>
    obtain ⟨others, own⟩ := keeps
    rw [hw.scope] at others
    refine locked_guarded lasting turn (fun _ hf => hf.untemporary) hw fun u reconciled hu => ?_
    rcases c.operation_cases env arguments with rfl | sorts
    · exact (Outcome.meets_always.mp (healthGate_refused givenUp stamped u hu)).toGuarded
    refine (operation_guarded hu (fun other about hne => (others other about hne).clear) sorts
      fun about => ?_).toGuarded
    obtain ⟨spared, stays⟩ := own about
    rcases arguments with _ | ⟨first, rest⟩
    · cases c <;> cases about
    cases c <;> try cases spared
    · obtain rfl : first = name := Option.some.inj about
      exact stageExtensionCommand_refused hu fun base source staged =>
        stays base source staged u reconciled
    · obtain rfl : first = name := Option.some.inj about
      exact Outcome.meets_always.mp (edited_guarded (fun d => settable d true) u hu)
    · obtain rfl : first = name := Option.some.inj about
      exact Outcome.meets_always.mp (edited_guarded (fun d => settable d false) u hu)
  | request c r =>
    obtain ⟨others, own⟩ := keeps
    rw [hw.scope] at others
    refine exclusive_guarded lasting turn (fun _ hf => hf.untemporary) hw fun u reconciled hu => ?_
    refine (operation_guarded hu (fun other about hne => (others other about hne).clear)
      (c.operation_cases env r) fun about => ?_).toGuarded
    obtain ⟨spared, stays⟩ := own about
    cases c <;> try cases spared
    exact answerStageExtension_refused about hu fun base source staged =>
      stays base source staged u reconciled

variable {contents : Node → Except String String}

theorem stageSource_unread {arguments : List String} {source : Source}
    (hw : RefusedInMemory name held start w)
    (stays : ¬ Enters env name (option "--base" arguments) source w) :
    stageSource (env.withRuleset name contents) name arguments source w =
      stageSource env name arguments source w := by
  obtain ⟨-, elsewhere⟩ := stageExtension_refused hw stays
  refine Prog.bind_congr fun s v staged => ?_
  have staged : stageExtension env name (option "--base" arguments) source w = .ok s v :=
    Prog.mapError_eq_ok.mp staged
  rw [if_pos (by simp [elsewhere s v staged]), if_pos (by simp [elsewhere s v staged])]

theorem stageExtensionCommand_unread {rest : List String} (hw : RefusedInMemory name held start w)
    (stays : ∀ base source,
      (Event.command .stageExtension (name :: rest)).staging = some (name, base, source) →
        ¬ Enters env name base source w) :
    stageExtensionCommand (env.withRuleset name contents) (name :: rest) w =
      stageExtensionCommand env (name :: rest) w := by
  unfold stageExtensionCommand
  rw [List.head?_cons, Option.filter_some]
  unfold Event.staging at stays
  cases dashes : Text.startsWith name "--" with
  | true => rfl
  | false =>
    simp only [dashes] at stays
    simp only [Bool.not_false, if_true]
    cases hp : option "--path" (name :: rest) with
    | none =>
      simp only [hp] at stays
      exact stageSource_unread hw (stays _ _ rfl)
    | some path =>
      cases hd : option "--digest" (name :: rest) with
      | none => rfl
      | some digest =>
        simp only [hp, hd] at stays
        exact stageSource_unread hw (stays _ _ rfl)

/-- One event does not depend on the ruleset of an extension that was given up, nor then on
the unit it names. -/
theorem after_unread (givenUp : ∀ d, held d → d.phase = .unrecoverable)
    (stamped : ∀ d, held d → d.terminalOsVersion = start.osVersion) {d : Event}
    (hw : Refused name held start w) (keeps : d.KeepsRefusal env name w) :
    d.after (env.withRuleset name contents) w = d.after env w := by
  have reconciled : reconcileState (env.withRuleset name contents) w.process.tick =
      reconcileState env w.process.tick := reconcileState_unread givenUp stamped hw.process
  have recalled : ∀ u, reconcileState env w.process.tick = .ok () u →
      RefusedInMemory name held start u := by
    intro u hu
    have hr := @reconcileState_guarded env _ _ _ _ (refused_lasting stamped)
      (refused_turn givenUp) (fun _ hf => hf.untemporary) w.process.tick hw.process
    rw [hu] at hr
    exact hr
  cases d with
  | boot osRelease bootEntries => rfl
  | command c arguments =>
    refine congrArg Outcome.state (Prog.bind_congr fun _ v locked => ?_)
    obtain rfl : v = w.process.tick := acquireLock_ok locked
    refine Prog.bind_same reconciled fun _ u hu => ?_
    by_cases gate : c = .healthGate
    · subst gate
      exact healthGate_unread givenUp stamped (recalled u hu)
    by_cases about : c.subject arguments = some name
    swap
    · rw [operation_other gate about]
    obtain ⟨spared, stays⟩ := keeps.2 about
    rcases arguments with _ | ⟨first, rest⟩
    · cases c <;> cases about
    cases c <;> try cases spared
    · obtain rfl : first = name := Option.some.inj about
      exact stageExtensionCommand_unread (recalled u hu) fun base source staged =>
        stays base source staged u hu
    · exact congrFun (setRequired_unread (first :: rest) true) u
    · exact congrFun (setRequired_unread (first :: rest) false) u
  | request c r =>
    refine congrArg Outcome.state (Prog.bind_congr fun _ v locked => ?_)
    obtain rfl : v = w.process.tick := by
      have locked : tryLock env w.process = .ok () v := locked
      unfold tryLock at locked
      split at locked <;> cases locked
      rfl
    refine Prog.bind_same ?_ fun _ u hu => ?_
    · unfold Prog.mapError
      rw [reconciled]
    · by_cases about : c.subject r = some name
      · obtain ⟨spared, -⟩ := keeps.2 about
        cases c <;> try cases spared
        rfl
      · rw [request_other about]

theorem run_unread (settable : ∀ d required, held d → held { d with required := required })
    (givenUp : ∀ d, held d → d.phase = .unrecoverable)
    (stamped : ∀ d, held d → d.terminalOsVersion = start.osVersion) {events : List Event}
    (hw : Refused name held start w)
    (keeps : EachMeets (Event.after env) (Event.KeepsRefusal env name) events w)
    {contents : Node → Except String String} :
    run (env.withRuleset name contents) events w = run env events w := by
  induction events generalizing w with
  | nil =>
    have stays : ∀ env, run env [] w = w := fun _ => rfl
    rw [stays, stays]
  | cons d rest ih =>
    obtain ⟨first, others⟩ := keeps
    rw [run_cons, run_cons, after_unread givenUp stamped hw first]
    exact ih (after_refused settable givenUp stamped hw first) others

/-- While an extension given up is required, the gate fails. -/
theorem gate_refused (givenUp : ∀ d, held d → d.phase = .unrecoverable)
    (stamped : ∀ d, held d → d.terminalOsVersion = start.osVersion)
    (required : ∀ d, held d → d.required = true) (hw : Refused name held start w)
    (arguments : List String) :
    (Command.healthGate.run env arguments w.process).isOk = false := by
  cases ran : Command.healthGate.run env arguments w.process with
  | error why u => rfl
  | halt u => rfl
  | ok a u =>
    obtain ⟨_, v, locked, ran⟩ := Prog.bind_eq_ok.mp ran
    obtain rfl := acquireLock_ok locked
    obtain ⟨_, v, reconciled, ran⟩ := Prog.bind_eq_ok.mp ran
    have hv := @reconcileState_guarded env _ _ _ _ (refused_lasting stamped)
      (refused_turn givenUp) (fun _ hf => hf.untemporary) w.process.tick hw.process
    rw [reconciled] at hv
    have hv : RefusedInMemory name held start v := hv
    obtain ⟨d, recorded, hd⟩ := (hv.toGuarded.recall (refused_lasting stamped)).memory
    refine absurd ran (healthGate_fails givenUp stamped hv ?_)
    have recorded : v.remembered.get name = some d := recorded
    rw [recorded, Option.any_some]
    exact required d hd

end

section
variable {env : Environment} {name : String} {e : ExtensionState} {w : Node}

end

/-- The unit of the image comes up only after a while. -/
def slowStart : Environment :=
  { calm twoVersions with
    isActive := fun unit w => (calm twoVersions).isActive unit w && 60 ≤ w.now }

/-- A required extension without a known-good image has failed the gate. -/
def givenUpNode : Node :=
  run slowStart [.boot (some "VERSION_ID=1") [], .command .require ["n"], .command .healthGate []]
    (.with "1" [("n_1.raw", [1])])

theorem givenUpNode_enclosed : Enclosed givenUpNode := by
  have confined : ∀ e ∈ [.boot (some "VERSION_ID=1") [], .command .require ["n"],
      .command .healthGate []], Event.Confined e := by decide
  have provisioned : Enclosed (.with "1" [("n_1.raw", [1])]) :=
    enclosed_with (by decide) (by decide)
  exact (run_confined slowStart slowStart.fault confined provisioned).2

end CarbideOS.Agent
