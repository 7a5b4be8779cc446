import CarbideOS.Proofs.Placement

namespace CarbideOS.Agent
open Interruptible

/-- Nothing but private copies and the clock has changed. -/
def Private (w u : Node) : Prop := ∃ copies t, u = { w with staging := copies, now := t }

instance : IsPreorder Node Private where
  refl w := ⟨w.staging, w.now, rfl⟩
  trans := by
    rintro w _ _ ⟨_, _, rfl⟩ ⟨d, t, rfl⟩
    exact ⟨d, t, rfl⟩

section
variable {env : Environment} {name : String} {requested base : Option String} {staging : Path}
  {source : Source} {w u x : Node} {ε α : Type}

theorem demand_passes {c : Bool} {e : ε} (h : c = true) (f : Unit → Act ε α) (w : Node) :
    ((Prog.demand c e : Act ε Unit) >>= f) w = f () w := by
  subst h
  rfl

theorem demand_refuses {c : Bool} {e : ε} (h : c = false) (f : Unit → Act ε α) (w : Node) :
    ((Prog.demand c e : Act ε Unit) >>= f) w = .error e w := by
  subst h
  rfl

theorem Private.refl (w : Node) : Private w w := Std.Refl.refl w

theorem Private.trans {v : Node} (h : Private w u) (h' : Private u v) : Private w v :=
  IsTrans.trans w u v h h'

theorem Private.tick (h : Private w u) : Private w u.tick := by
  obtain ⟨d, t, rfl⟩ := h
  exact ⟨d, t + 1, rfl⟩

theorem quiet_private {m : Act ε α} (h : Quiet m) : Within Private m := by
  refine (Returns.within h).mono ?_
  rintro w _ ⟨t, rfl⟩
  exact ⟨w.staging, t, rfl⟩

theorem setDir_private (w : Node) (d : Dir) : Private w (w.setDir .staging d) := ⟨d, w.now, rfl⟩

theorem durableRemove_private (f : String) : Within Private (durableRemove env ⟨.staging, f⟩) := by
  refine Within.read fun w => ?_
  split
  · apply Act.durable_within
    · exact fun w => (setDir_private w _).tick
    · intro w reached leftover
      split
      · exact (setDir_private w _).tick
      · exact (Private.refl w).tick
  · exact Within.pure ()

theorem clearStaged_private : Within Private (clearStaged env name) := by
  unfold clearStaged pruneMatchingIn
  apply Act.durable_within
  · exact fun w => (setDir_private w _).tick
  · exact fun w _ _ => (setDir_private w _).tick

theorem durablePublish_private (bytes : Bytes) (f : String) :
    Within Private (durablePublish env bytes ⟨.staging, f⟩) := by
  have left : ∀ (w : Node) leftover, Private w (w.leaveBehind ⟨.staging, f⟩ bytes leftover) := by
    intro w leftover
    cases leftover <;> exact setDir_private w _
  apply Act.durable_within
  · exact fun w => (setDir_private w _).tick
  · intro w reached leftover
    split
    · exact Private.tick ((left w leftover).trans (setDir_private _ _))
    · exact (left w leftover).tick

theorem copySource_private (path f : String) (maximum : Nat) :
    Within Private (copySource env path ⟨.staging, f⟩ maximum) := by
  intro w
  unfold copySource
  rcases env.source path w with _ | e | ⟨size, bytes⟩
  · exact (Private.refl w).tick
  · exact (Private.refl w).tick
  · dsimp only
    split
    · exact (Private.refl w).tick.trans (durablePublish_private bytes f w.tick)
    · exact (Private.refl w).tick

theorem checkDigest_private (f digest : String) :
    Within Private (checkDigest env ⟨.staging, f⟩ digest) := by
  refine Within.read fun w => ?_
  refine Within.bind (Within.attempt (quiet_private (Quiet.askFor _))) fun r => ?_
  have drop : Within Private (Prog.attempt (durableRemove env ⟨.staging, f⟩) : Act Failure _) :=
    Within.attempt (durableRemove_private f)
  cases r with
  | error e => exact Within.bind drop fun _ => Within.fail _
  | ok actual =>
    dsimp only
    split
    · exact Within.pure ()
    · exact Within.bind drop fun _ => Within.fail _

theorem suppliedCopy_private (path digest : String) :
    Within Private (suppliedCopy env name base path digest) := by
  refine Within.bind (Within.demand _ _) fun _ => ?_
  refine Within.bind (quiet_private (openSource_quiet env path)) fun size => ?_
  refine Within.read fun w => ?_
  refine Within.bind ?_ fun rollbackSize => ?_
  · split
    · exact quiet_private (failedAt_quiet (missingRollbackSize_quiet env) _)
    · exact Within.pure _
  refine Within.bind (quiet_private (requireActivationSpace_quiet env _)) fun _ => ?_
  refine Within.bind (Within.mapError (copySource_private path _ size)) fun _ => ?_
  exact checkDigest_private _ digest

theorem acquireComponent_private (version : String) :
    Within Private (acquireComponent env name version) := by
  intro w
  unfold acquireComponent
  cases env.acquire name version w with
  | error e => exact (Private.refl w).tick
  | ok answer => exact ⟨answer.2, w.now + 1, rfl⟩

/-- What is found out about a private copy before anything gives way to it. -/
def examine (env : Environment) (name : String) (requested : Option String) (staging : Path) :
    Act Failure Placed := do
  let w ← Prog.read
  let bytes := (w.readFile staging).getD []
  validateImage env name bytes
  let release ← imageRelease env bytes
  let base ← checkRelease name requested release
  let w ← Prog.read
  let running := w.osVersion == some base
  let version := release.version.filter versionValid
  let target ← placement name base version running
  requirePlacementSpace env name staging running
  pure ⟨target, base, version, running⟩

/-- The image takes its place. -/
def settle (env : Environment) (name : String) (staging : Path) (p : Placed) :
    Act Failure Unit := do
  clearCandidates env name p.forRunningBase
  moveIntoPlace env staging p.path
  recordPlaced env name p.extensionVersion p.forRunningBase p.path

theorem validateAndPlace_eq : validateAndPlace env name requested staging =
    examine env name requested staging >>= fun p =>
      settle env name staging p >>= fun _ => pure p := by
  unfold validateAndPlace examine settle
  simp only [Prog.bind_assoc]
  rfl

theorem moveIntoPlace_confined {names : String → Prop} {staging target : Path}
    (hs : staging.place = .staging) (ht : Allowed names target) :
    Within (Confined names) (moveIntoPlace env staging target) := by
  refine Within.bind (Within.mapError (durableMode_confined env staging)) fun _ => ?_
  refine Within.mapError (Within.bind (durableCopy_confined env ht staging) fun _ => ?_)
  apply durableRemove_confined
  intro hp
  rw [hs] at hp
  cases hp

theorem examine_quiet : Quiet (examine env name requested staging) := by
  refine Returns.read fun w => ?_
  refine Returns.bind (Returns.bind (Returns.mapError (Quiet.askFor _) _) fun _ =>
    Returns.demand _ _) fun _ => ?_
  refine Returns.bind (Returns.bind (Returns.mapError (Quiet.askFor _) _) fun _ =>
    Returns.pure _) fun release => ?_
  refine Returns.bind (checkRelease_quiet requested release) fun base => ?_
  refine Returns.read fun v => ?_
  refine Returns.bind (placement_quiet base _ _) fun target => ?_
  exact Returns.bind (requirePlacementSpace_quiet env _ _) fun _ => Returns.pure _

/-- What an examination found: a whole image that was accepted, and its slot. -/
structure Examined (env : Environment) (name : String) (requested : Option String)
    (staging : Path) (x : Node) (p : Placed) : Prop where
  accepted : ∃ bytes, x.readFile staging = some bytes ∧
    Accepted env name requested bytes p.base x
  slot : Slot x name p.base p.path
  running : p.forRunningBase = (x.osVersion == some p.base)
  version : p.forRunningBase = true → ∃ v, p.extensionVersion = some v ∧
    p.path = x.candidatePath name v

theorem examine_ok {p : Placed} (h : examine env name requested staging x = .ok p u) :
    Examined env name requested staging x p := by
  rw [examine, read_apply] at h
  obtain ⟨_, v₁, h₁, h⟩ := Prog.bind_eq_ok.mp h
  obtain ⟨validated, rfl⟩ := validateImage_ok h₁
  obtain ⟨release, v₂, h₂, h⟩ := Prog.bind_eq_ok.mp h
  obtain ⟨⟨assignments, inspected, rfl⟩, rfl⟩ := imageRelease_ok h₂
  obtain ⟨declared, v₃, h₃, h⟩ := Prog.bind_eq_ok.mp h
  obtain ⟨rfl, named, based, usable, wanted⟩ := checkRelease_ok h₃
  rw [read_apply] at h
  obtain ⟨target, v₄, h₄, h⟩ := Prog.bind_eq_ok.mp h
  obtain ⟨rfl, slot⟩ := placement_ok h₄
  obtain ⟨_, v₅, h₅, h⟩ := Prog.bind_eq_ok.mp h
  obtain ⟨bytes, read⟩ := requirePlacementSpace_present h₅
  cases h
  have read : x.readFile staging = some bytes := (Node.clock_readFile x _ staging).symm.trans read
  rw [read] at validated inspected
  refine ⟨⟨bytes, read, validated, ⟨assignments, inspected, named, based⟩, usable, wanted⟩, ?_,
    rfl, fun running => ?_⟩
  · cases slot with
    | candidate version running => exact .candidate version running
    | image elsewhere => exact .image elsewhere
  · have running : (x.tick.tick.osVersion == some declared) = true := running
    rw [placement, read_apply, running] at h₄
    cases hv : (parseSysextRelease assignments).version.filter versionValid with
    | none =>
      rw [hv] at h₄
      cases h₄
    | some v =>
      rw [hv] at h₄
      cases h₄
      exact ⟨v, rfl, rfl⟩

/-- A staging that settles its private copy, and only tidies up after it. -/
structure Settles (env : Environment) (name : String) (base : Option String) (source : Source)
    (w : Node) (staging : Path) (requested : Option String) (x : Node) : Prop where
  place : staging.place = .staging
  copied : Private w x
  left : Private (validateAndPlace env name requested staging x).state
    (stageExtension env name base source w).state
  placed : ∀ s u, stageExtension env name base source w = .ok s u →
    ∃ p y, validateAndPlace env name requested staging x = .ok p y ∧
      s.forRunningBase = p.forRunningBase

/-- Staging makes a private copy, and if it gets that far settles it. -/
inductive Arrives (env : Environment) (name : String) (base : Option String) (source : Source)
    (w : Node) : Prop where
  | never (left : Private w (stageExtension env name base source w).state)
      (failed : ∀ s u, stageExtension env name base source w ≠ .ok s u)
  | settles {staging : Path} {requested : Option String} {x : Node}
      (received : Receives env name base w source staging requested x)
      (settled : Settles env name base source w staging requested x)

/-- What follows a settled image, or one that was not, only tidies private copies. -/
theorem reported_private {σ : Type} {m : Act Failure Placed} {cleanup : Act String Unit}
    (cleans : Within Private cleanup) (report : Placed → σ) (x : Node) :
    let whole : Act Failure σ := do
      let placed ← Prog.attempt m
      let _ ← Prog.attempt cleanup
      match placed with
      | .ok p => pure (report p)
      | .error e => Prog.fail e
    Private (m x).state (whole x).state ∧
      ∀ s u, whole x = .ok s u → ∃ p y, m x = .ok p y ∧ s = report p := by
  intro whole
  have tail : ∀ placed : Except Failure Placed, Within Private (do
      let _ ← Prog.attempt cleanup
      match placed with
      | .ok p => pure (report p)
      | .error e => Prog.fail e : Act Failure σ) := by
    intro placed
    refine Within.bind (Within.attempt cleans) fun _ => ?_
    cases placed with
    | ok p => exact Within.pure _
    | error e => exact Within.fail e
  constructor
  · cases hm : m x with
    | ok p y =>
      have h : whole x = _ := Prog.bind_of_ok (Prog.attempt_eq_ok.mpr (Or.inl ⟨p, rfl, hm⟩)) _
      rw [h]
      exact tail (.ok p) y
    | error e y =>
      have h : whole x = _ := Prog.bind_of_ok (Prog.attempt_eq_ok.mpr (Or.inr ⟨e, rfl, hm⟩)) _
      rw [h]
      exact tail (.error e) y
    | halt y =>
      have h : whole x = _ := Prog.bind_of_halt (Prog.attempt_eq_halt.mpr hm) _
      rw [h]
      exact Private.refl y
  · intro s u h
    obtain ⟨placed, y, hm, h⟩ := Prog.bind_eq_ok.mp h
    obtain ⟨_, z, -, h⟩ := Prog.bind_eq_ok.mp h
    rcases Prog.attempt_eq_ok.mp hm with ⟨p, rfl, placed⟩ | ⟨e, rfl, -⟩
    · cases h
      exact ⟨p, y, placed, rfl⟩
    · cases h

/-- Acquired bytes are refused at once, or there is a private copy of them. -/
theorem placeAcquired_cases {wanted selected : String} {version : Option String}
    {finished : Finished} {v : Node} (worked : finished.ok = true)
    (chosen : acquireVersion env name wanted version w = .ok selected v)
    (acquired : acquireComponent env name selected v = .ok finished x) :
    (∃ e t, placeAcquired env name wanted selected finished x = .error e (x.clock t)) ∨
      ∃ staged y, acquiredCopy env name wanted version w = .ok staged y := by
  rw [placeAcquired, read_apply]
  cases there : x.fileExists ⟨.staging, name ++ "_" ++ selected ++ ".raw"⟩ with
  | false => exact Or.inl ⟨_, x.now, rfl⟩
  | true =>
    rw [Prog.bind_of_ok (show Prog.demand true _ x = .ok () x from rfl)]
    rcases (failedAt_quiet (fileSize_quiet env ⟨.staging,
      name ++ "_" ++ selected ++ ".raw"⟩) .staging) x
      with ⟨size, y, sized, later⟩ | ⟨e, y, sized, later⟩
    · rw [Prog.bind_of_ok sized]
      obtain ⟨t, rfl⟩ := later
      by_cases small : size ≤ maxAcquiredImage
      · right
        have ready : (finished.ok &&
            x.fileExists ⟨.staging, name ++ "_" ++ selected ++ ".raw"⟩) = true := by
          rw [worked, there]
          rfl
        refine ⟨⟨.staging, name ++ "_" ++ selected ++ ".raw"⟩, x.clock t, ?_⟩
        refine (Prog.bind_of_ok chosen _).trans ?_
        refine (Prog.bind_of_ok (Prog.mapError_eq_ok.mpr acquired) _).trans ?_
        refine (read_apply _ _).trans ((demand_passes ready _ x).trans ?_)
        exact (Prog.bind_of_ok sized _).trans (demand_passes (decide_eq_true small) _ _)
      · left
        exact ⟨_, t, demand_refuses (decide_eq_false small) _ _⟩
    · obtain ⟨t, rfl⟩ := later
      exact Or.inl ⟨e, t, Prog.bind_of_error sized _⟩

/-- A program that fails, having done no more than make private copies. -/
theorem arrives_never {e : Failure}
    (h : stageExtension env name base source w = .error e u) (copies : Private w u) :
    Arrives env name base source w := by
  refine .never ?_ fun s v hs => ?_
  · rw [h]
    exact copies
  · rw [h] at hs
    cases hs

theorem arrives_halted (h : stageExtension env name base source w = .halt u)
    (copies : Private w u) :
    Arrives env name base source w := by
  refine .never ?_ fun s v hs => ?_
  · rw [h]
    exact copies
  · rw [h] at hs
    cases hs

theorem supplied_settles (valid : versionValid name = true) {path digest : String}
    (copied : suppliedCopy env name base path digest w = .ok () x) :
    Settles env name base (.supplied path digest) w ⟨.staging, name ++ ".raw"⟩ base x := by
  have whole : stageExtension env name base (.supplied path digest) w =
      supplied env name base path digest w := by
    exact demand_passes valid _ w
  have copies := @suppliedCopy_private env name base path digest w
  rw [copied] at copies
  rw [supplied_eq] at whole
  have rest := whole.trans (Prog.bind_of_ok copied _)
  obtain ⟨left, placed⟩ := reported_private
    (m := validateAndPlace env name base ⟨.staging, name ++ ".raw"⟩)
    (@durableRemove_private env (name ++ ".raw"))
    (fun p => (⟨name, p.base, p.path, false, p.extensionVersion, p.forRunningBase⟩ : Staged)) x
  refine ⟨rfl, copies, by rw [rest]; exact left, fun s u h => ?_⟩
  obtain ⟨p, y, hp, rfl⟩ := placed s u (rest.symm.trans h)
  exact ⟨p, y, hp, rfl⟩

theorem supplied_arrives (valid : versionValid name = true) (path digest : String) :
    Arrives env name base (.supplied path digest) w := by
  have whole : stageExtension env name base (.supplied path digest) w =
      supplied env name base path digest w := by
    exact demand_passes valid _ w
  have copies := @suppliedCopy_private env name base path digest w
  rw [supplied_eq] at whole
  cases copied : suppliedCopy env name base path digest w with
  | error e x =>
    rw [copied] at copies
    exact arrives_never (whole.trans (Prog.bind_of_error copied _)) copies
  | halt x =>
    rw [copied] at copies
    exact arrives_halted (whole.trans (Prog.bind_of_halt copied _)) copies
  | ok _ x => exact .settles (.supplied copied) (supplied_settles valid copied)

/-- The base an acquired image is for. -/
def wantedBase (base : Option String) : Act Failure String :=
  match base with
  | some base => pure base
  | none => targetBase none

theorem wantedBase_quiet (base : Option String) : Quiet (wantedBase base) := by
  cases base with
  | some base => exact Returns.pure _
  | none =>
    refine Returns.read fun w => ?_
    cases w.osVersion with
    | some version => exact Returns.pure _
    | none => exact Returns.fail _

/-- What is left of a staging once its component is acquired. -/
theorem acquire_whole (valid : versionValid name = true) {version : Option String}
    {wanted selected : String} {finished : Finished} {v₁ v₂ : Node}
    (resolved : wantedBase base w = .ok wanted v₁)
    (chosen : acquireVersion env name wanted version v₁ = .ok selected v₂)
    (acquired : acquireComponent env name selected v₂ = .ok finished x) :
    stageExtension env name base (.acquire version) w =
      (if finished.ok then do
        let placed ← Prog.attempt (placeAcquired env name wanted selected finished)
        let _ ← Prog.attempt (clearStaged env name)
        match placed with
        | .ok p => pure ⟨name, p.base, p.path, true, p.extensionVersion, p.forRunningBase⟩
        | .error e => Prog.fail e
      else do
        let _ ← Prog.attempt (clearStaged env name)
        Prog.fail (finishedFailure .failed s!"could not acquire {name}" .staging finished) :
          Act Failure Staged) x := by
  have whole : stageExtension env name base (.acquire version) w =
      (wantedBase base >>= fun wanted => acquire env name wanted version) w := by
    exact demand_passes valid _ w
  exact (whole.trans (Prog.bind_of_ok resolved _)).trans ((Prog.bind_of_ok chosen _).trans
    (Prog.bind_of_ok (Prog.mapError_eq_ok.mpr acquired) _))

/-- A copy of acquired bytes that was made is validated like any private copy. -/
theorem placeAcquired_eq {wanted selected : String} {version : Option String}
    {finished : Finished} {v : Node} {staged : Path}
    (chosen : acquireVersion env name wanted version w = .ok selected v)
    (acquired : acquireComponent env name selected v = .ok finished x)
    (copied : acquiredCopy env name wanted version w = .ok staged u) :
    finished.ok = true ∧ staged.place = .staging ∧ Private x u ∧
      placeAcquired env name wanted selected finished x =
        validateAndPlace env name (some wanted) staged u := by
  rw [acquiredCopy, Prog.bind_of_ok chosen,
    Prog.bind_of_ok (Prog.mapError_eq_ok.mpr acquired), read_apply] at copied
  obtain ⟨_, y, demanded, copied⟩ := Prog.bind_eq_ok.mp copied
  obtain ⟨ready, hy⟩ := demand_ok demanded
  subst hy
  rw [Bool.and_eq_true] at ready
  obtain ⟨size, y, sized, copied⟩ := Prog.bind_eq_ok.mp copied
  obtain ⟨t, rfl⟩ := (failedAt_quiet (fileSize_quiet env _) _).of_ok sized
  obtain ⟨_, y, fits, copied⟩ := Prog.bind_eq_ok.mp copied
  obtain ⟨small, hy⟩ := demand_ok fits
  subst hy
  cases copied
  refine ⟨ready.1, rfl, ⟨_, t, rfl⟩, ?_⟩
  rw [placeAcquired, read_apply]
  refine (demand_passes ready.2 _ x).trans ((Prog.bind_of_ok sized _).trans ?_)
  exact demand_passes small _ _

theorem acquired_settles (valid : versionValid name = true) {version : Option String}
    {wanted : String} {staged : Path} {v : Node} (resolved : wantedBase base w = .ok wanted v)
    (copied : acquiredCopy env name wanted version v = .ok staged x) :
    Settles env name base (.acquire version) w staged (some wanted) x := by
  have copying := copied
  obtain ⟨selected, v₁, chosen, copying⟩ := Prog.bind_eq_ok.mp copying
  obtain ⟨finished, y, acquiring, -⟩ := Prog.bind_eq_ok.mp copying
  have acquired := Prog.mapError_eq_ok.mp acquiring
  have fetched := @acquireComponent_private env name selected v₁
  obtain ⟨t, rfl⟩ := (wantedBase_quiet base).of_ok resolved
  obtain ⟨t', rfl⟩ := (acquireVersion_quiet env wanted version).of_ok chosen
  rw [acquired] at fetched
  have fetched : Private w y := fetched
  obtain ⟨worked, place, later, same⟩ := placeAcquired_eq chosen acquired copied
  have whole := acquire_whole valid resolved chosen acquired
  rw [if_pos worked] at whole
  obtain ⟨left, placed⟩ := reported_private
    (m := placeAcquired env name wanted selected finished)
    (@clearStaged_private env name)
    (fun p => (⟨name, p.base, p.path, true, p.extensionVersion, p.forRunningBase⟩ : Staged)) y
  refine ⟨place, fetched.trans later, ?_, fun s u h => ?_⟩
  · rw [whole]
    rwa [same] at left
  · obtain ⟨p, z, hp, rfl⟩ := placed s u (whole.symm.trans h)
    rw [same] at hp
    exact ⟨p, z, hp, rfl⟩

theorem acquire_arrives (valid : versionValid name = true) (version : Option String) :
    Arrives env name base (.acquire version) w := by
  have whole : stageExtension env name base (.acquire version) w =
      (wantedBase base >>= fun wanted => acquire env name wanted version) w := by
    exact demand_passes valid _ w
  rcases wantedBase_quiet base w with ⟨wanted, v, resolved, later⟩ | ⟨e, v, resolved, later⟩
  swap
  · obtain ⟨t, rfl⟩ := later
    exact arrives_never (whole.trans (Prog.bind_of_error resolved _)) ⟨w.staging, t, rfl⟩
  obtain ⟨t, rfl⟩ := later
  have whole := whole.trans (Prog.bind_of_ok resolved _)
  have chooses : Quiet (acquireVersion env name wanted version) :=
    acquireVersion_quiet env wanted version
  rcases chooses (w.clock t) with ⟨selected, v, chosen, later⟩ | ⟨e, v, chosen, later⟩
  swap
  · obtain ⟨t', rfl⟩ := later
    exact arrives_never (whole.trans (Prog.bind_of_error chosen _)) ⟨w.staging, t', rfl⟩
  obtain ⟨t', rfl⟩ := later
  have whole := whole.trans (Prog.bind_of_ok chosen _)
  have fetched := @acquireComponent_private env name selected ((w.clock t).clock t')
  cases acquired : acquireComponent env name selected ((w.clock t).clock t') with
  | halt x =>
    unfold acquireComponent at acquired
    split at acquired <;> cases acquired
  | error e x =>
    rw [acquired] at fetched
    exact arrives_never (whole.trans (Prog.bind_of_error (Prog.mapError_eq_error.mpr
      ⟨e, acquired, rfl⟩) _)) fetched
  | ok finished x =>
    rw [acquired] at fetched
    have copies : Private w x := fetched
    have whole := acquire_whole valid resolved chosen acquired
    cases worked : finished.ok with
    | false =>
      simp only [worked] at whole
      have cleared : Within Private (do
          let _ ← Prog.attempt (clearStaged env name)
          Prog.fail (finishedFailure .failed s!"could not acquire {name}" .staging finished) :
            Act Failure Staged) :=
        Within.bind (Within.attempt clearStaged_private) fun _ => Within.fail _
      refine .never ?_ fun s u h => ?_
      · rw [whole]
        exact copies.trans (cleared x)
      · obtain ⟨_, y, -, h⟩ := Prog.bind_eq_ok.mp (whole.symm.trans h)
        cases h
    | true =>
      rcases placeAcquired_cases worked chosen acquired with ⟨e, t₂, refused⟩ |
          ⟨staging, y, copied⟩
      · rw [if_pos worked] at whole
        obtain ⟨left, placed⟩ := reported_private
          (m := placeAcquired env name wanted selected finished)
          (@clearStaged_private env name)
          (fun p => (⟨name, p.base, p.path, true, p.extensionVersion, p.forRunningBase⟩ : Staged)) x
        refine .never ?_ fun s u h => ?_
        · rw [whole]
          rw [refused] at left
          exact copies.trans (Private.trans ⟨x.staging, t₂, rfl⟩ left)
        · obtain ⟨p, y, hp, -⟩ := placed s u (whole.symm.trans h)
          rw [refused] at hp
          cases hp
      · exact .settles (.acquired resolved copied) (acquired_settles valid resolved copied)

/-- A staging that receives a private copy settles it. -/
theorem stageExtension_settles (valid : versionValid name = true)
    (received : Receives env name base w source staging requested x) :
    Settles env name base source w staging requested x := by
  cases received with
  | supplied copied => exact supplied_settles valid copied
  | acquired resolved copied => exact acquired_settles valid resolved copied

/-- Every staging ends before its private copy is examined, or settles that copy. -/
theorem stageExtension_arrives (env : Environment) (name : String) (base : Option String)
    (source : Source) (w : Node) : Arrives env name base source w := by
  cases valid : versionValid name with
  | false =>
    exact arrives_never (demand_refuses valid _ w) (Private.refl w)
  | true =>
    cases source with
    | supplied path digest => exact supplied_arrives valid path digest
    | acquire version => exact acquire_arrives valid version

end
end CarbideOS.Agent
