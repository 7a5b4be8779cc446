import CarbideOS.Proofs.Selection

namespace CarbideOS.Agent
open Interruptible

/-- Every file there is one that was there before, or one of a kind. -/
def Gains (P : String → Bytes → Prop) (w u : Node) : Prop :=
  ∀ f b, u.extensions[f]? = some b → w.extensions[f]? = some b ∨ P f b

instance (P : String → Bytes → Prop) : IsPreorder Node (Gains P) where
  refl _ _ _ h := Or.inl h
  trans w u v h h' f b hb := by
    rcases h' f b hb with hb | hb
    · exact h f b hb
    · exact Or.inr hb

namespace Gains
variable {P Q : String → Bytes → Prop} {w u : Node} {ε α : Type}

theorem refl (w : Node) : Gains P w w := Std.Refl.refl w

theorem mono (h : Gains P w u) (hm : ∀ f b, P f b → Q f b) : Gains Q w u :=
  fun f b hb => (h f b hb).imp_right (hm f b)

theorem of_same (h : u.extensions = w.extensions) : Gains P w u := by
  intro f b hb
  rw [h] at hb
  exact Or.inl hb

theorem of_quiet {m : Act ε α} (h : Quiet m) : Within (Gains P) m := by
  refine (Returns.within h).mono ?_
  rintro w _ ⟨t, rfl⟩
  exact of_same rfl

theorem unlink (w : Node) (p : Path) : Gains P w (w.unlink p) := by
  intro f b hb
  have h := w.readFile_unlink p ⟨.extensions, f⟩
  change (w.unlink p).extensions[f]? = _ at h
  rw [h] at hb
  split at hb
  · cases hb
  · exact Or.inl hb

theorem sweep (w : Node) (place : Place) (test : String → Bool) :
    Gains P w (w.sweep place test) := by
  intro f b hb
  have h := w.readFile_sweep place test ⟨.extensions, f⟩
  change (w.sweep place test).extensions[f]? = _ at h
  rw [h] at hb
  split at hb
  · cases hb
  · exact Or.inl hb

variable {env : Environment}

theorem remove (p : Path) : Within (Gains P) (durableRemove env p) := by
  refine Within.read fun w => ?_
  split
  · apply Act.durable_within
    · exact fun w => unlink w p
    · intro w reached leftover
      split
      · exact unlink w p
      · exact of_same rfl
  · exact Within.pure ()

theorem prune (place : Place) (start finish : String) (keep : Option String) :
    Within (Gains P) (pruneMatchingIn env place start finish keep) := by
  apply Act.durable_within
  · exact fun w => sweep w place _
  · exact fun w reached leftover => sweep w place _

theorem mode (p : Path) : Within (Gains P) (durableMode env p) :=
  Act.durable_within (fun _ => of_same rfl) fun _ _ _ => of_same rfl

theorem store : Within (Gains P) (store env) := by
  apply Act.durable_within
  · exact fun w => of_same rfl
  · intro w reached leftover
    split <;> exact of_same rfl

/-- Bytes that are published, and what an unfinished copy of them may leave. -/
theorem publish {bytes : Bytes} {target : Path} (whole : P target.name bytes)
    (part : ∀ n, P (temporaryName target.name) (bytes.take n)) :
    Within (Gains P) (durablePublish env bytes target) := by
  have published : ∀ w : Node, Gains P w (w.publish target bytes) := by
    intro w f b hb
    cases hp : target.place with
    | staging =>
      rw [Node.publish, hp] at hb
      exact Or.inl hb
    | extensions =>
      rw [Node.publish, hp] at hb
      have hb : ((w.extensions.erase _).insert _ _ : Dir)[f]? = some b := hb
      rw [Dir.get_insert, Dir.get_erase] at hb
      split at hb
      · cases hb
        exact Or.inr (‹target.name = f› ▸ whole)
      · split at hb
        · cases hb
        · exact Or.inl hb
  have left : ∀ (w : Node) leftover, Gains P w (w.leaveBehind target bytes leftover) := by
    intro w leftover f b hb
    cases hp : target.place with
    | staging =>
      cases leftover <;> rw [Node.leaveBehind, hp] at hb <;> exact Or.inl hb
    | extensions =>
      cases leftover with
      | none =>
        rw [Node.leaveBehind, hp] at hb
        have hb : (w.extensions.erase _ : Dir)[f]? = some b := hb
        rw [Dir.get_erase] at hb
        split at hb
        · cases hb
        · exact Or.inl hb
      | some n =>
        rw [Node.leaveBehind, hp] at hb
        have hb : (w.extensions.insert _ _ : Dir)[f]? = some b := hb
        rw [Dir.get_insert] at hb
        split at hb
        · cases hb
          exact Or.inr (‹temporaryName target.name = f› ▸ part n)
        · exact Or.inl hb
  apply Act.durable_within
  · exact fun w => published w
  · intro w reached leftover
    split
    · exact IsTrans.trans _ _ _ (left w leftover) (published _)
    · exact left w leftover

/-- A copy into the staging directory. -/
theorem publishStaging {bytes : Bytes} {target : Path} (h : target.place = .staging) :
    Within (Gains P) (durablePublish env bytes target) := by
  apply Act.durable_within
  · intro w
    rw [Node.publish, h]
    exact of_same rfl
  · intro w reached leftover
    split <;> cases leftover <;> simp only [Node.publish, Node.leaveBehind, h] <;> exact of_same rfl

end Gains

/-- The bytes were validated as a private copy, which declares the extension and a base
that is no other than the one requested. -/
structure Accepted (env : Environment) (name : String) (requested : Option String) (bytes : Bytes)
    (declared : String) (x : Node) : Prop where
  validated : ∃ finished, env.dissectValidate bytes x = .ok finished ∧ finished.ok = true
  declares : ∃ assignments, env.dissectRelease bytes x.tick = .ok assignments ∧
    (parseSysextRelease assignments).name = some name ∧
    (parseSysextRelease assignments).base = some declared
  usable : versionValid declared = true
  wanted : requested.getD declared = declared

/-- Where an image goes that declares a base: to a candidate for the running one, to
the image of another. -/
inductive Slot (x : Node) (name declared : String) : Path → Prop where
  | candidate (version : String) (running : x.osVersion = some declared) :
    Slot x name declared (x.candidatePath name version)
  | image (elsewhere : x.osVersion ≠ some declared) :
    Slot x name declared (scopedActivePath name declared)

/-- The contents of a file placed from a private copy: all of it in its slot, or what
an unfinished copy left in the sibling of the slot. -/
def PlacedFrom (env : Environment) (name : String) (requested : Option String) (staging : Path)
    (x : Node) (f : String) (b : Bytes) : Prop :=
  ∃ bytes declared target, x.readFile staging = some bytes ∧
    Accepted env name requested bytes declared x ∧ Slot x name declared target ∧
    (f = target.name ∧ b = bytes ∨ f = temporaryName target.name ∧ ∃ n, b = bytes.take n)

/-- The private copies and the base are as they were. -/
def Undisturbed (w u : Node) : Prop := u.staging = w.staging ∧ u.osRelease = w.osRelease

instance : IsPreorder Node Undisturbed where
  refl _ := ⟨rfl, rfl⟩
  trans _ _ _ h h' := ⟨h'.1.trans h.1, h'.2.trans h.2⟩

namespace Undisturbed
variable {env : Environment} {w u : Node} {ε α : Type}

theorem mode (p : Path) : Within Undisturbed (durableMode env p) :=
  Act.durable_within (fun _ => ⟨rfl, rfl⟩) fun _ _ _ => ⟨rfl, rfl⟩

theorem prune (start finish : String) (keep : Option String) :
    Within Undisturbed (pruneMatchingIn env .extensions start finish keep) :=
  Act.durable_within (fun _ => ⟨rfl, rfl⟩) fun _ _ _ => ⟨rfl, rfl⟩

theorem readFile (h : Undisturbed w u) {p : Path} (hp : p.place = .staging) :
    u.readFile p = w.readFile p := by
  rw [Node.readFile, Node.readFile, hp]
  exact congrArg (·[p.name]?) h.1

end Undisturbed

section
variable {env : Environment} {name : String} {requested : Option String} {staging : Path}
  {w u : Node}

theorem validateImage_ok {bytes : Bytes} (h : validateImage env name bytes w = .ok () u) :
    (∃ finished, env.dissectValidate bytes w = .ok finished ∧ finished.ok = true) ∧ u = w.tick := by
  obtain ⟨finished, v, hv, h⟩ := Prog.bind_eq_ok.mp h
  obtain ⟨validated, rfl⟩ := askFor_ok hv
  obtain ⟨accepted, rfl⟩ := demand_ok h
  exact ⟨⟨finished, validated, accepted⟩, rfl⟩

theorem imageRelease_ok {bytes : Bytes} {release : ImageRelease}
    (h : imageRelease env bytes w = .ok release u) :
    (∃ assignments, env.dissectRelease bytes w = .ok assignments ∧
      release = parseSysextRelease assignments) ∧ u = w.tick := by
  obtain ⟨assignments, v, hv, h⟩ := Prog.bind_eq_ok.mp h
  obtain ⟨inspected, rfl⟩ := askFor_ok hv
  cases h
  exact ⟨⟨assignments, inspected, rfl⟩, rfl⟩

theorem checkRelease_ok {release : ImageRelease} {base : String}
    (h : checkRelease name requested release w = .ok base u) :
    w = u ∧ release.name = some name ∧ release.base = some base ∧ versionValid base = true ∧
      requested.getD base = base := by
  obtain ⟨_, v, hv, h⟩ := Prog.bind_eq_ok.mp h
  obtain ⟨named, rfl⟩ := demand_ok hv
  cases hb : release.base.filter versionValid with
  | none =>
    rw [hb] at h
    cases h
  | some declared =>
    rw [hb] at h
    dsimp only at h
    split at h
    · cases h
      obtain ⟨hr, hv⟩ := Option.filter_eq_some_iff.mp hb
      exact ⟨rfl, by simpa using named, hr, hv, ‹_›⟩
    · cases h

theorem placement_ok {base : String} {version : Option String} {target : Path}
    (h : placement name base version (w.osVersion == some base) w = .ok target u) :
    w = u ∧ Slot w name base target := by
  rw [placement, read_apply] at h
  split at h
  · rename_i running
    cases version with
    | none => cases h
    | some version =>
      cases h
      exact ⟨rfl, .candidate version (by simpa using running)⟩
  · rename_i elsewhere
    cases h
    exact ⟨rfl, .image (by simpa using elsewhere)⟩

/-- The space of an image is known only where it is there. -/
theorem fileSize_present {p : Path} {n : Nat} (h : fileSize env p w = .ok n u) :
    ∃ bytes, w.readFile p = some bytes ∧ n = bytes.length := by
  unfold fileSize at h
  cases hu : env.unreadable (.metadata p) w with
  | some e =>
    rw [hu] at h
    cases h
  | none =>
    cases hr : w.readFile p with
    | none =>
      rw [hu, hr] at h
      cases h
    | some bytes =>
      rw [hu, hr] at h
      cases h
      exact ⟨bytes, rfl, rfl⟩

theorem requirePlacementSpace_present {running : Bool}
    (h : requirePlacementSpace env name staging running w = .ok () u) :
    ∃ bytes, w.readFile staging = some bytes := by
  obtain ⟨size, v, hv, -⟩ := Prog.bind_eq_ok.mp h
  obtain ⟨bytes, hb, -⟩ := fileSize_present (Prog.mapError_eq_ok.mp hv)
  exact ⟨bytes, hb⟩

theorem clearCandidates_gains {P : String → Bytes → Prop} (running : Bool) :
    Within (Gains P) (clearCandidates env name running) := by
  unfold clearCandidates
  split
  · exact Within.mapError (Within.read fun _ => Gains.prune _ _ _ _)
  · exact Within.pure ()

theorem clearCandidates_undisturbed (running : Bool) :
    Within Undisturbed (clearCandidates env name running) := by
  unfold clearCandidates
  split
  · exact Within.mapError (Within.read fun _ => Undisturbed.prune _ _ _)
  · exact Within.pure ()

theorem recordPlaced_gains {P : String → Bytes → Prop} (version : Option String) (running : Bool)
    (target : Path) : Within (Gains P) (recordPlaced env name version running target) := by
  unfold recordPlaced
  split
  · refine Within.bind (Within.mapError (Gains.of_quiet (loadState_quiet env))) fun s => ?_
    refine Within.bind (fun _ => Gains.of_same rfl) fun _ => ?_
    refine Within.bind (fun _ => Gains.of_same rfl) fun _ => ?_
    refine Within.bind (Within.attempt Gains.store) fun r => ?_
    cases r with
    | ok _ => exact Within.pure ()
    | error e => exact Within.bind (Within.attempt (Gains.remove _)) fun _ => Within.fail _
  · exact Within.pure ()

/-- Moving a private copy places its bytes. -/
theorem moveIntoPlace_gains {P : String → Bytes → Prop} {target : Path} {bytes : Bytes}
    (hs : staging.place = .staging) (read : w.readFile staging = some bytes)
    (whole : P target.name bytes) (part : ∀ n, P (temporaryName target.name) (bytes.take n)) :
    Gains P w (moveIntoPlace env staging target w).state := by
  refine Within.bind_at ((Within.mapError (Gains.mode staging)) w) fun _ v hv => ?_
  have same : Undisturbed w v := (Within.mapError (Undisturbed.mode staging)).of_ok hv
  rw [Prog.mapError_state]
  refine Within.bind_at ?_ fun _ v' _ => Gains.remove staging v'
  rw [durableCopy, read_apply, same.readFile hs, read]
  exact Gains.publish whole part v

/-- Whatever validating and placing puts in the directory comes from the private copy
it was given. -/
theorem validateAndPlace_gains (hs : staging.place = .staging) (w : Node) :
    Gains (PlacedFrom env name requested staging w) w
      (validateAndPlace env name requested staging w).state := by
  have validates : Quiet (validateImage env name ((w.readFile staging).getD [])) :=
    Returns.bind (Returns.mapError (Quiet.askFor _) _) fun _ => Returns.demand _ _
  rw [validateAndPlace, read_apply]
  refine Within.bind_at (Gains.of_quiet validates w) fun _ v₁ h₁ => ?_
  obtain ⟨validated, rfl⟩ := validateImage_ok h₁
  have inspects : Quiet (imageRelease env ((w.readFile staging).getD [])) :=
    Returns.bind (Returns.mapError (Quiet.askFor _) _) fun _ => Returns.pure _
  refine Within.bind_at (Gains.of_quiet inspects _) fun release v₂ h₂ => ?_
  obtain ⟨⟨assignments, inspected, rfl⟩, rfl⟩ := imageRelease_ok h₂
  refine Within.bind_at (Gains.of_quiet (checkRelease_quiet _ _) _) fun declared v₃ h₃ => ?_
  obtain ⟨rfl, named, based, usable, wanted⟩ := checkRelease_ok h₃
  rw [read_apply]
  refine Within.bind_at (Gains.of_quiet (placement_quiet _ _ _) _) fun target v₄ h₄ => ?_
  obtain ⟨rfl, slot⟩ := placement_ok h₄
  refine Within.bind_at (Gains.of_quiet (requirePlacementSpace_quiet env _ _) _) fun _ v₅ h₅ => ?_
  obtain ⟨bytes, read⟩ := requirePlacementSpace_present h₅
  obtain ⟨t, rfl⟩ := (requirePlacementSpace_quiet env _ _).of_ok h₅
  have read : w.readFile staging = some bytes := read
  rw [read, Option.getD_some] at validated inspected
  refine Within.bind_at (clearCandidates_gains _ _) fun _ v₆ h₆ => ?_
  have same : Undisturbed _ v₆ := (clearCandidates_undisturbed _).of_ok h₆
  have placed : ∀ f b, (f = target.name ∧ b = bytes ∨
      f = temporaryName target.name ∧ ∃ n, b = bytes.take n) →
        PlacedFrom env name requested staging w f b := by
    intro f b hf
    have moved : Slot w name declared target := by
      cases slot with
      | candidate version running => exact .candidate version running
      | image elsewhere => exact .image elsewhere
    exact ⟨bytes, declared, target, read,
      ⟨validated, ⟨assignments, inspected, named, based⟩, usable, wanted⟩, moved, hf⟩
  refine Within.bind_at ?_ fun _ v₇ h₇ => ?_
  · exact moveIntoPlace_gains hs ((same.readFile hs).trans read) (placed _ _ (Or.inl ⟨rfl, rfl⟩))
      fun n => placed _ _ (Or.inr ⟨rfl, n, rfl⟩)
  · exact Within.bind_at (recordPlaced_gains _ _ _ _) fun _ _ _ => Gains.refl _

/-- A caller's image, up to a private copy with the digest the caller declared. -/
def suppliedCopy (env : Environment) (name : String) (base : Option String) (path digest : String) :
    Act Failure Unit := do
  Prog.demand (Text.startsWith path "/")
    (Failure.new .malformed "an image path must be absolute")
  let imageSize ← openSource env path
  let w ← Prog.read
  let running := base.all fun requested => w.osVersion == some requested
  let rollbackSize ←
    (if running then failedAt .checking (missingRollbackSize env name) else pure 0)
  requireSpace env (stagingSpace imageSize rollbackSize)
  Prog.mapError (fun error =>
      (Failure.new .failed s!"could not stage the image: {error}").atStage .staging)
    (copySource env path ⟨.staging, name ++ ".raw"⟩ imageSize)
  checkDigest env ⟨.staging, name ++ ".raw"⟩ digest

/-- An image of the feed, up to a private copy that is there and not too large. -/
def acquiredCopy (env : Environment) (name base : String) (version : Option String) :
    Act Failure Path := do
  let selected ← acquireVersion env name base version
  let finished ← Prog.mapError (fun error =>
      (Failure.new .failed s!"could not run systemd-sysupdate: {error}").atStage .staging)
    (acquireComponent env name selected)
  let staged : Path := ⟨.staging, name ++ "_" ++ selected ++ ".raw"⟩
  let w ← Prog.read
  Prog.demand (finished.ok && w.fileExists staged)
    (finishedFailure .failed s!"could not acquire {name}" .staging finished)
  let size ← failedAt .staging (fileSize env staged)
  let limit := maxAcquiredImage
  Prog.demand (size ≤ limit)
    ((Failure.new .noSpace s!"acquired image is {size} bytes; limit is {limit}").atStage .staging)
  pure staged

/-- A request gets to the validation of a private copy, made for a base. -/
inductive Receives (env : Environment) (name : String) (base : Option String) (w : Node) :
    Source → Path → Option String → Node → Prop where
  | supplied {path digest : String} {x : Node}
      (copied : suppliedCopy env name base path digest w = .ok () x) :
    Receives env name base w (.supplied path digest) ⟨.staging, name ++ ".raw"⟩ base x
  | acquired {version : Option String} {wanted : String} {staged : Path} {v x : Node}
      (resolved : (match base with
        | some base => pure base
        | none => targetBase none : Act Failure String) w = .ok wanted v)
      (copied : acquiredCopy env name wanted version v = .ok staged x) :
    Receives env name base w (.acquire version) staged (some wanted) x

/-- What a request may put in the extensions directory: the bytes of its private copy. -/
def Certified (env : Environment) (name : String) (base : Option String) (source : Source)
    (w : Node) (f : String) (b : Bytes) : Prop :=
  ∃ staging requested x, Receives env name base w source staging requested x ∧
    PlacedFrom env name requested staging x f b

theorem copySource_gains {P : String → Bytes → Prop} (hs : staging.place = .staging)
    (path : String) (maximum : Nat) : Within (Gains P) (copySource env path staging maximum) := by
  intro v
  unfold copySource
  split
  · exact Gains.of_same rfl
  · exact Gains.of_same rfl
  · split
    · exact IsTrans.trans v v.tick _ (Gains.of_same rfl) (Gains.publishStaging hs v.tick)
    · exact Gains.of_same rfl

theorem checkDigest_gains {P : String → Bytes → Prop} (staging : Path) (digest : String) :
    Within (Gains P) (checkDigest env staging digest) := by
  refine Within.read fun v => ?_
  refine Within.bind (Within.attempt (Gains.of_quiet (Quiet.askFor _))) fun r => ?_
  cases r with
  | error e => exact Within.bind (Within.attempt (Gains.remove _)) fun _ => Within.fail _
  | ok actual =>
    dsimp only
    split
    · exact Within.pure ()
    · exact Within.bind (Within.attempt (Gains.remove _)) fun _ => Within.fail _

theorem suppliedCopy_gains {P : String → Bytes → Prop} (base : Option String)
    (path digest : String) : Within (Gains P) (suppliedCopy env name base path digest) := by
  refine Within.bind (Within.demand _ _) fun _ => ?_
  refine Within.bind (Gains.of_quiet (openSource_quiet env path)) fun size => ?_
  refine Within.read fun v => ?_
  refine Within.bind ?_ fun rollbackSize => ?_
  · split
    · exact Gains.of_quiet (failedAt_quiet (missingRollbackSize_quiet env) _)
    · exact Within.pure 0
  refine Within.bind (Gains.of_quiet (requireActivationSpace_quiet env _)) fun _ => ?_
  refine Within.bind (Within.mapError (copySource_gains rfl path size)) fun _ => ?_
  exact checkDigest_gains _ digest

/-- What is reported of an image that was placed or not. -/
def reports {σ : Type} (report : Placed → σ) : Except Failure Placed → Act Failure σ
  | .ok p => pure (report p)
  | .error e => Prog.fail e

/-- A supplied image is placed from its private copy, which is taken away afterwards. -/
theorem supplied_eq (base : Option String) (path digest : String) :
    supplied env name base path digest = (do
      suppliedCopy env name base path digest
      let placed ← Prog.attempt (validateAndPlace env name base ⟨.staging, name ++ ".raw"⟩)
      let _ ← Prog.attempt (durableRemove env ⟨.staging, name ++ ".raw"⟩)
      reports (fun p => ⟨name, p.base, p.path, false, p.extensionVersion, p.forRunningBase⟩)
        placed) := by
  unfold supplied suppliedCopy
  simp only [Prog.bind_assoc]
  rfl

/-- What a supplied image leaves comes from the private copy made of it. -/
theorem supplied_gains (base : Option String) (path digest : String) (w : Node) :
    Gains (Certified env name base (.supplied path digest) w) w
      (supplied env name base path digest w).state := by
  rw [supplied_eq]
  refine Within.bind_at (suppliedCopy_gains base path digest w) fun _ x hx => ?_
  refine Within.bind_at ?_ fun placed v _ => ?_
  · rw [Prog.attempt_state]
    have placed : Gains _ x _ :=
      @validateAndPlace_gains env name base ⟨.staging, name ++ ".raw"⟩ rfl x
    exact placed.mono fun f b h => ⟨_, _, _, .supplied hx, h⟩
  · refine Within.bind_at (Within.attempt (Gains.remove _) v) fun _ u _ => ?_
    cases placed <;> exact Gains.refl u

theorem acquireComponent_gains {P : String → Bytes → Prop} (version : String) :
    Within (Gains P) (acquireComponent env name version) := by
  intro v
  unfold acquireComponent
  split <;> exact Gains.of_same rfl

theorem clearStaged_gains {P : String → Bytes → Prop} :
    Within (Gains P) (clearStaged env name) := Gains.prune _ _ _ _

/-- What acquired bytes leave comes from the copy they arrived in. -/
theorem placeAcquired_gains {base selected : String} {version : Option String}
    {finished : Finished} {v x : Node} (worked : finished.ok = true)
    (chosen : acquireVersion env name base version w = .ok selected v)
    (acquired : acquireComponent env name selected v = .ok finished x) :
    Gains (fun f b => ∃ staged y, acquiredCopy env name base version w = .ok staged y ∧
      PlacedFrom env name (some base) staged y f b) x
      (placeAcquired env name base selected finished x).state := by
  rw [placeAcquired, read_apply]
  refine Within.bind_at (Gains.of_quiet (Returns.demand _ _) x) fun _ x₁ h₁ => ?_
  obtain ⟨there, rfl⟩ := demand_ok h₁
  refine Within.bind_at (Gains.of_quiet (failedAt_quiet (fileSize_quiet env _) _) x)
    fun size x₂ h₂ => ?_
  refine Within.bind_at (Gains.of_quiet (Returns.demand _ _) x₂) fun _ x₃ h₃ => ?_
  obtain ⟨small, rfl⟩ := demand_ok h₃
  refine (validateAndPlace_gains rfl x₂).mono fun f b h => ⟨_, x₂, ?_, h⟩
  have ready : (Prog.demand (finished.ok && x.fileExists ⟨.staging,
      name ++ "_" ++ selected ++ ".raw"⟩)
      (finishedFailure .failed s!"could not acquire {name}" .staging finished) :
        Act Failure Unit) x = .ok () x := by
    rw [Prog.demand_apply, worked, there]
    rfl
  have fits : (Prog.demand (size ≤ maxAcquiredImage)
      ((Failure.new .noSpace
        s!"acquired image is {size} bytes; limit is {maxAcquiredImage}").atStage .staging) :
        Act Failure Unit) x₂ = .ok () x₂ := by
    rw [Prog.demand_apply, if_pos small]
  refine (Prog.bind_of_ok chosen _).trans ?_
  refine (Prog.bind_of_ok (Prog.mapError_eq_ok.mpr acquired) _).trans ?_
  refine (read_apply _ _).trans ((Prog.bind_of_ok ready _).trans ?_)
  exact (Prog.bind_of_ok h₂ _).trans (Prog.bind_of_ok fits _)

theorem acquire_gains (base : String) (version : Option String) (w : Node) :
    Gains (fun f b => ∃ staged x, acquiredCopy env name base version w = .ok staged x ∧
      PlacedFrom env name (some base) staged x f b) w (acquire env name base version w).state := by
  refine Within.bind_at (Gains.of_quiet (acquireVersion_quiet env _ _) w) fun selected v hv => ?_
  refine Within.bind_at (Within.mapError (acquireComponent_gains _) v) fun finished x hx => ?_
  split
  · refine Within.bind_at ?_ fun placed u _ => ?_
    · rw [Prog.attempt_state]
      exact placeAcquired_gains ‹_› hv (Prog.mapError_eq_ok.mp hx)
    · refine Within.bind_at (Within.attempt clearStaged_gains u) fun _ y _ => ?_
      cases placed <;> exact Gains.refl y
  · exact Within.bind_at (Within.attempt clearStaged_gains x) fun _ y _ => Gains.refl y

/-- A request puts nothing in the extensions directory but what comes from the private
copy it validated. -/
theorem stageExtension_gains (base : Option String) (source : Source) (w : Node) :
    Gains (Certified env name base source w) w (stageExtension env name base source w).state := by
  refine Within.bind_at (Gains.of_quiet (Returns.demand _ _) w) fun _ v h => ?_
  obtain ⟨-, rfl⟩ := demand_ok h
  cases source with
  | supplied path digest => exact supplied_gains base path digest w
  | acquire version =>
    have resolves : Quiet (match base with
        | some base => pure base
        | none => targetBase none : Act Failure String) := by
      cases base with
      | some base => exact Returns.pure _
      | none =>
        refine Returns.read fun w => ?_
        cases w.osVersion with
        | some version => exact Returns.pure _
        | none => exact Returns.fail _
    refine Within.bind_at (Gains.of_quiet resolves w) fun wanted v hv => ?_
    refine (acquire_gains wanted version v).mono ?_
    rintro f b ⟨staged, x, copied, h⟩
    exact ⟨staged, some wanted, x, .acquired hv copied, h⟩

/-- The private copy of a supplied image has the digest its caller declared. -/
def Hashed (env : Environment) (digest : String) (bytes : Bytes) (x : Node) : Prop :=
  ∃ z actual, x = z.tick ∧ env.sha256sum bytes z = .ok actual ∧
    Text.eqIgnoreAsciiCase actual ((Text.stripPrefix digest "sha256:").getD digest) = true

theorem checkDigest_ok {digest : String} {z : Node}
    (h : checkDigest env staging digest z = .ok () w) :
    Hashed env digest ((w.readFile staging).getD []) w ∧ SameRecord z w := by
  rw [checkDigest, read_apply] at h
  obtain ⟨r, v, hv, h⟩ := Prog.bind_eq_ok.mp h
  rcases Prog.attempt_eq_ok.mp hv with ⟨actual, rfl, asked⟩ | ⟨e, rfl, -⟩
  · dsimp only at h
    obtain ⟨hashed, rfl⟩ : env.sha256sum ((z.readFile staging).getD []) z = .ok actual ∧
        v = z.tick := askFor_ok (g := id) (Prog.mapError_eq_ok.mpr asked)
    split at h
    · cases h
      exact ⟨⟨z, actual, rfl, hashed, ‹_›⟩, (SameRecord.refl z).tick⟩
    · obtain ⟨_, u, -, h⟩ := Prog.bind_eq_ok.mp h
      cases h
  · obtain ⟨_, u, -, h⟩ := Prog.bind_eq_ok.mp h
    cases h

theorem copySource_record (path : String) (maximum : Nat) :
    Within SameRecord (copySource env path staging maximum) := by
  intro v
  have later := (SameRecord.refl v).tick
  unfold copySource
  split
  · exact later
  · exact later
  · split
    · exact later.trans (durablePublish_record env _ _ v.tick)
    · exact later

theorem suppliedCopy_ok {base : Option String} {path digest : String}
    (h : suppliedCopy env name base path digest w = .ok () u) : SameRecord w u ∧
      Hashed env digest ((u.readFile ⟨.staging, name ++ ".raw"⟩).getD []) u := by
  obtain ⟨_, v₁, h₁, h⟩ := Prog.bind_eq_ok.mp h
  obtain ⟨-, rfl⟩ := demand_ok h₁
  obtain ⟨size, v₂, h₂, h⟩ := Prog.bind_eq_ok.mp h
  rw [read_apply] at h
  obtain ⟨rollbackSize, v₃, h₃, h⟩ := Prog.bind_eq_ok.mp h
  obtain ⟨_, v₄, h₄, h⟩ := Prog.bind_eq_ok.mp h
  obtain ⟨_, v₅, h₅, h⟩ := Prog.bind_eq_ok.mp h
  have step₃ : SameRecord v₂ v₃ := by
    split at h₃
    · exact ((failedAt_quiet (missingRollbackSize_quiet env) _).record).of_ok h₃
    · cases h₃
      exact SameRecord.refl _
  have step₂ : SameRecord w v₂ := ((openSource_quiet env path).record).of_ok h₂
  have step₄ : SameRecord v₃ v₄ := ((requireActivationSpace_quiet env _).record).of_ok h₄
  have step₅ : SameRecord v₄ v₅ := (Within.mapError (copySource_record path size)).of_ok h₅
  obtain ⟨hashed, step₆⟩ := checkDigest_ok h
  exact ⟨((step₂.trans step₃).trans (step₄.trans step₅)).trans step₆, hashed⟩

theorem acquiredCopy_ok {base : String} {version : Option String} {staged : Path}
    (h : acquiredCopy env name base version w = .ok staged u) :
    u.osRelease = w.osRelease ∧ staged.place = .staging := by
  obtain ⟨selected, v₁, h₁, h⟩ := Prog.bind_eq_ok.mp h
  obtain ⟨t₁, rfl⟩ := (acquireVersion_quiet env base version).of_ok h₁
  obtain ⟨finished, v₂, h₂, h⟩ := Prog.bind_eq_ok.mp h
  have step₂ : v₂.osRelease = w.osRelease := by
    have h₂ : acquireComponent env name selected (w.clock t₁) = .ok finished v₂ :=
      Prog.mapError_eq_ok.mp h₂
    unfold acquireComponent at h₂
    split at h₂ <;> cases h₂
    rfl
  rw [read_apply] at h
  obtain ⟨_, v₃, h₃, h⟩ := Prog.bind_eq_ok.mp h
  obtain ⟨-, rfl⟩ := demand_ok h₃
  obtain ⟨size, v₄, h₄, h⟩ := Prog.bind_eq_ok.mp h
  obtain ⟨t₄, rfl⟩ := (failedAt_quiet (fileSize_quiet env _) _).of_ok h₄
  obtain ⟨_, v₅, h₅, h⟩ := Prog.bind_eq_ok.mp h
  obtain ⟨-, rfl⟩ := demand_ok h₅
  cases h
  exact ⟨step₂, rfl⟩

/-- The private copy is outside the directory that is merged, the base is the running
one, and what was requested is what the caller asked for. -/
theorem Receives.facts {base requested : Option String} {source : Source} {x : Node}
    (h : Receives env name base w source staging requested x) : staging.place = .staging ∧
      x.osVersion = w.osVersion ∧ (∀ wanted, base = some wanted → requested = some wanted) ∧
      ∀ path digest, source = .supplied path digest →
        Hashed env digest ((x.readFile staging).getD []) x := by
  have version : ∀ {v : Node}, v.osRelease = w.osRelease → v.osVersion = w.osVersion := by
    intro v hv
    unfold Node.osVersion Node.osReleaseValue
    rw [hv]
  cases h with
  | supplied copied =>
    obtain ⟨same, hashed⟩ := suppliedCopy_ok copied
    refine ⟨rfl, version same.osRelease, fun _ h => h, ?_⟩
    rintro path digest ⟨⟩
    exact hashed
  | @acquired _ wanted staged v x resolved copied =>
    obtain ⟨same, place⟩ := acquiredCopy_ok copied
    have start : v.osRelease = w.osRelease ∧ ∀ b, base = some b → wanted = b := by
      cases base with
      | some b =>
        cases resolved
        exact ⟨rfl, fun _ h => Option.some_inj.mp h⟩
      | none =>
        have resolved : (match w.osVersion with
          | some version => pure version
          | none => Prog.fail (Failure.new .failed "could not read the running base version") :
            Act Failure String) w = .ok wanted v := resolved
        cases hv : w.osVersion <;> rw [hv] at resolved <;> cases resolved
        exact ⟨rfl, nofun⟩
    refine ⟨place, version (same.trans start.1), fun b hb => congrArg some (start.2 b hb), nofun⟩

/-- Every new content of a file in the extensions directory is that of the private copy
the request validated, or the part of it an unfinished copy left in a sibling that is
never merged. An image for the running base is a candidate. -/
theorem staged_files_certified {base : Option String} {source : Source} {f : String} {b : Bytes}
    (after : (stageExtension env name base source w).state.extensions[f]? = some b)
    (new : w.extensions[f]? ≠ some b) :
    ∃ staging requested x bytes declared target,
      Receives env name base w source staging requested x ∧ staging.place = .staging ∧
      x.readFile staging = some bytes ∧ Accepted env name requested bytes declared x ∧
      (∀ wanted, base = some wanted → declared = wanted) ∧
      (∀ path digest, source = .supplied path digest → Hashed env digest bytes x) ∧
      Slot w name declared target ∧
      (f = target.name ∧ b = bytes ∨ f = temporaryName target.name ∧ ∃ n, b = bytes.take n) ∧
      (w.osVersion = some declared → Text.endsWith f ".raw" = false) := by
  obtain ⟨staging, requested, x, received, bytes, declared, target, read, accepted,
    slot, contents⟩ :=
    (stageExtension_gains base source w f b after).resolve_left new
  obtain ⟨place, running, asked, hashed⟩ := received.facts
  rw [read] at hashed
  have slot : Slot w name declared target := by
    cases slot with
    | candidate version here =>
      have path : x.candidatePath name version = w.candidatePath name version := by
        simp only [Node.candidatePath, Node.scope, running]
      rw [path]
      exact .candidate version (running ▸ here)
    | image elsewhere => exact .image (running ▸ elsewhere)
  refine ⟨staging, requested, x, bytes, declared, target, received, place, read,
    accepted, ?_, hashed,
    slot, contents, ?_⟩
  · intro wanted hb
    have h := accepted.wanted
    rw [asked wanted hb] at h
    exact h.symm
  · intro hr
    rcases contents with ⟨rfl, -⟩ | ⟨rfl, -⟩
    · cases slot with
      | candidate version _ => exact endsWith_false (w.endsWith_candidate name version) (by decide)
      | image elsewhere => exact absurd hr elsewhere
    · exact endsWith_false (endsWith_new_temporary target) (by decide)

end

theorem staged_files_certified_candidate :
    ∃ staging requested x bytes declared target,
      Receives (calm twoVersions) "n" none (.with "1" []) (.supplied "/2" "d") staging requested x ∧
      staging.place = .staging ∧ x.readFile staging = some bytes ∧
      Accepted (calm twoVersions) "n" requested bytes declared x ∧
      (∀ wanted, none = some wanted → declared = wanted) ∧
      (∀ path digest, Source.supplied "/2" "d" = .supplied path digest →
        Hashed (calm twoVersions) digest bytes x) ∧
      Slot (.with "1" []) "n" declared target ∧
      ("n_1.raw.b.candidate" = target.name ∧ [2] = bytes ∨
        "n_1.raw.b.candidate" = temporaryName target.name ∧ ∃ n, [2] = bytes.take n) ∧
      ((Node.with "1" []).osVersion = some declared →
        Text.endsWith "n_1.raw.b.candidate" ".raw" = false) :=
  staged_files_certified (by decide +kernel) (by decide +kernel)

/-- The copy into the candidate slot fails, and so does clearing it away. -/
def tornCopy : Environment :=
  { calm twoVersions with
    fault := fun step _ =>
      if step = .copy ⟨.extensions, "n_1.raw.b.candidate"⟩ then
        some ⟨false, fun _ => false, some 0, "Input/output error (os error 5)"⟩
      else none }

/-- An empty file is left, which is no copy of anything that was validated. -/
theorem torn_copy_left :
    let w := Node.with "1" []
    let u := (stageExtension tornCopy "n" none (.supplied "/2" "d") w).state
    u.extensions[".n_1.raw.b.candidate.new"]? = some [] ∧
      w.extensions[".n_1.raw.b.candidate.new"]? ≠ some [] ∧
      ¬ ∃ staging requested x declared,
        Receives tornCopy "n" none w (.supplied "/2" "d") staging requested x ∧
        x.readFile staging = some [] ∧ Accepted tornCopy "n" requested [] declared x := by
  refine ⟨by decide +kernel, by decide +kernel, ?_⟩
  rintro ⟨staging, requested, x, declared, received, read, -⟩
  cases received with
  | supplied copied =>
    have held : (suppliedCopy tornCopy "n" none "/2" "d" (.with "1" [])).state.readFile
        ⟨.staging, "n.raw"⟩ = some [2] := by decide +kernel
    rw [copied] at held
    exact absurd (read.symm.trans held) (by decide)

end CarbideOS.Agent
