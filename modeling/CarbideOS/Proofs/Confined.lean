import CarbideOS.Proofs.Enclosed
import CarbideOS.Proofs.Calm
import CarbideOS.Proofs.Revisions

namespace CarbideOS.Agent
open Interruptible

section
variable (env : Environment) (other : Durable → Node → Option Fault) {ε α : Type}
  {name version : String}

theorem failedAt_enclosing {m m' : Act String α} (alike : Enclosing m m') (stage : Stage) :
    Enclosing (failedAt stage m) (failedAt stage m') :=
  alike.mapError _

theorem fileSize_enclosing (p : Path) :
    Enclosing (fileSize env p) (fileSize (env.beyond other) p) :=
  (fileSize_quiet env p).enclosing

theorem requireSpace_enclosing (required : Nat) :
    Enclosing (requireSpace env required) (requireSpace (env.beyond other) required) :=
  (requireSpace_quiet env required).enclosing

theorem outgoingSize_enclosing (previous : Option String) :
    Enclosing (outgoingSize env name previous) (outgoingSize (env.beyond other) name previous) :=
  (outgoingSize_quiet env name previous).enclosing

theorem adoptUnrecorded_enclosing (plain : NoSlash name) :
    Enclosing (adoptUnrecorded env name) (adoptUnrecorded (env.beyond other) name) := by
  refine Alike.read fun w _ => ?_
  split
  · refine (mergedVersion_enclosed env other).bind fun version clean => ?_
    cases version with
    | none => exact Alike.pure trivial
    | some current =>
      have adopts := adoptActive_enclosing env other plain (clean current rfl)
      refine adopts.attempt.andThen fun adopted => ?_
      cases adopted with
      | ok _ => exact Alike.pure trivial
      | error error => cases error <;> first | exact Alike.pure trivial | exact Alike.fail
  · exact Alike.pure trivial

theorem retainOutgoing_enclosing (plain : NoSlash name) {previous : Option String}
    (clean : ∀ v, previous = some v → NoSlash v) :
    Enclosing (retainOutgoing env name previous)
      (retainOutgoing (env.beyond other) name previous) := by
  refine Alike.read fun w h => ?_
  cases previous with
  | none => exact Alike.pure trivial
  | some version =>
    dsimp only
    split
    · have direct := direct_rollback h plain (clean version rfl)
      exact (durableCopy_enclosing env other _ direct).mapError _
    · exact Alike.pure trivial

theorem recordActivating_enclosing (plain : NoSlash name) (clean : NoSlash version)
    (requestId : Option String) {previous : Option String}
    (before : ∀ v, previous = some v → NoSlash v) :
    Enclosing (recordActivating env name version requestId previous)
      (recordActivating (env.beyond other) name version requestId previous) := by
  refine (entry_enclosing plain fun e h => ?_).andThen fun _ =>
    failedAt_enclosing (store_enclosing env other) _
  refine ⟨h.active, fun v same => ?_, noSlash_some clean⟩
  cases previous with
  | none => exact h.knownGood v same
  | some p => exact before v same

theorem promote_enclosing (plain : NoSlash name) (candidate : Path) :
    Enclosing (promote env name candidate) (promote (env.beyond other) name candidate) := by
  refine ((stopCurrent_quiet env name).enclosing.mapError _).andThen fun _ => ?_
  refine ((installActive_enclosing env other candidate plain).mapError _).andThen fun _ => ?_
  refine ((sysextRefresh_enclosing env other).mapError _).andThen fun _ => ?_
  refine ((daemonReload_enclosing env other).mapError _).andThen fun _ => ?_
  exact (loadNamed_enclosing env other).mapError _

theorem judged_enclosing (image : Option Bytes) {m m' : Act String Unit}
    (alike : Enclosing m m') (setback : String → Setback) :
    Enclosing (judged name image m setback) (judged name image m' setback) := by
  refine alike.attempt.andThen fun result => ?_
  cases result with
  | ok _ => exact Alike.pure trivial
  | error reason => exact (note_enclosing image .failed).andThen fun _ => Alike.fail

theorem prove_enclosing (plain : NoSlash name) (image : Option Bytes) (ruleset : Ruleset) :
    Enclosing (prove env name image ruleset) (prove (env.beyond other) name image ruleset) := by
  have phased : ∀ phase : Phase, Enclosing (Act.entry name fun e => { e with phase := phase } :
      Act Setback Unit) (Act.entry name fun e => { e with phase := phase }) :=
    fun phase => entry_enclosing plain fun e h => ⟨h.active, h.knownGood, h.candidate⟩
  refine (phased .starting).andThen fun _ => ?_
  refine ((store_enclosing env other).mapError _).andThen fun _ => ?_
  refine (judged_enclosing image (waitUntilReady_enclosing env other ruleset) _).andThen fun _ => ?_
  refine (phased .soaking).andThen fun _ => ?_
  refine ((store_enclosing env other).mapError _).andThen fun _ => ?_
  refine (judged_enclosing image (soak_enclosing env other ruleset) _).andThen fun _ => ?_
  exact note_enclosing image .soaked

theorem commit_enclosing (plain : NoSlash name) (clean : NoSlash version)
    (requestId : Option String) (unit : String) :
    Enclosing (commit env name version requestId unit)
      (commit (env.beyond other) name version requestId unit) := by
  refine Alike.read fun w h => ?_
  refine (entry_enclosing plain fun e h => ?_).andThen fun _ => ?_
  · have active := noSlash_some clean
    cases requestId with
    | none => exact ⟨active, h.knownGood, nofun⟩
    | some id =>
      dsimp only [ExtensionState.recordCompleted]
      split
      · exact ⟨active, h.knownGood, nofun⟩
      · exact ⟨active, h.knownGood, nofun⟩
  · refine (store_enclosing env other).attempt.andThen fun stored => ?_
    cases stored with
    | ok _ => exact Alike.pure trivial
    | error error => exact (hold_enclosing h.memory).andThen fun _ => Alike.fail

theorem tryCandidate_enclosing (plain : NoSlash name) (clean : NoSlash version)
    (requestId : Option String) (candidate : Path) :
    Enclosing (tryCandidate env name version requestId candidate)
      (tryCandidate (env.beyond other) name version requestId candidate) := by
  refine Alike.read fun w _ => ?_
  refine (note_enclosing _ .attempted).andThen fun _ => ?_
  refine (promote_enclosing env other plain candidate).andThen fun ruleset => ?_
  refine (prove_enclosing env other plain _ ruleset).andThen fun _ => ?_
  exact commit_enclosing env other plain clean requestId _

theorem revertSetback_enclosing (plain : NoSlash name) (setback : Setback) :
    Enclosing (revertSetback env name setback) (revertSetback (env.beyond other) name setback) := by
  have same : (journalLines (env.beyond other) setback.unit : Act Failure (List String)) =
      journalLines env setback.unit := by
    cases setback.unit <;> rfl
  have looks := (journalLines_quiet env setback.unit : Quiet (_ : Act Failure _)).enclosing
  unfold revertSetback
  rw [same]
  refine looks.andThen fun log => ?_
  refine (recover_enclosing env other plain _).attempt.andThen fun recovered => ?_
  cases recovered with
  | ok _ => exact Alike.fail
  | error error => exact Alike.fail

theorem activateRecorded_enclosing (plain : NoSlash name) (clean : NoSlash version)
    (requestId previous : Option String) (candidate : Path) :
    Enclosing (activateRecorded env name version requestId previous candidate)
      (activateRecorded (env.beyond other) name version requestId previous candidate) := by
  refine (tryCandidate_enclosing env other plain clean requestId candidate).attempt.andThen
    fun tried => ?_
  cases tried with
  | error setback => exact revertSetback_enclosing env other plain setback
  | ok _ =>
    refine (pruneCandidates_enclosing env other none).attempt.andThen fun _ => ?_
    exact (pruneRollbacks_enclosing env other previous).attempt.andThen fun _ => Alike.pure trivial

theorem activateCandidate_enclosing (plain : NoSlash name) (clean : NoSlash version)
    (requestId : Option String) :
    Enclosing (activateCandidate env name version requestId)
      (activateCandidate (env.beyond other) name version requestId) := by
  refine (adoptUnrecorded_enclosing env other plain).andThen fun _ => Alike.read fun w h => ?_
  have before : ∀ v, (w.memory.get name).bind ExtensionState.activeVersion = some v → NoSlash v :=
    fun v active => h.memory.named (fun _ => ExtensionState.Enclosed.active) active
  refine (failedAt_enclosing (fileSize_enclosing env other _) _).andThen fun size => ?_
  refine (outgoingSize_enclosing env other _).andThen fun retained => ?_
  refine (requireSpace_enclosing env other _).andThen fun _ => ?_
  refine (retainOutgoing_enclosing env other plain before).andThen fun _ => ?_
  refine (recordActivating_enclosing env other plain clean requestId before).andThen fun _ => ?_
  exact activateRecorded_enclosing env other plain clean requestId _ _

theorem activateExtension_enclosing (plain : NoSlash name) (clean : NoSlash version)
    (requestId : Option String) :
    Enclosing (activateExtension env name version requestId)
      (activateExtension (env.beyond other) name version requestId) := by
  refine loaded_enclosing ((loadState_enclosed env other).mapError _) fun s => ?_
  refine Alike.read fun w _ => ?_
  split
  · exact Alike.pure trivial
  dsimp only
  split
  · exact activateCandidate_enclosing env other plain clean requestId
  · exact Alike.fail

theorem validateImage_enclosing (bytes : Bytes) :
    Enclosing (validateImage env name bytes) (validateImage (env.beyond other) name bytes) :=
  (validateImage_quiet env bytes).enclosing

theorem imageRelease_enclosing (bytes : Bytes) :
    Enclosing (imageRelease env bytes) (imageRelease (env.beyond other) bytes) :=
  (imageRelease_quiet env bytes).enclosing

theorem requirePlacementSpace_enclosing (staging : Path) (running : Bool) :
    Enclosing (requirePlacementSpace env name staging running)
      (requirePlacementSpace (env.beyond other) name staging running) :=
  (requirePlacementSpace_quiet env staging running).enclosing

theorem checkRelease_enclosed (requested : Option String) (release : ImageRelease) :
    Alike Enclosed (fun base => versionValid base = true ∧ requested.getD base = base)
      (checkRelease name requested release) (checkRelease name requested release) := by
  refine Alike.demand.andThen fun _ => ?_
  cases declared : release.base.filter versionValid with
  | none => exact Alike.fail
  | some base =>
    dsimp only
    split
    · rename_i wanted
      exact Alike.pure ⟨(Option.filter_eq_some_iff.mp declared).2, wanted⟩
    · exact Alike.fail

theorem placement_enclosed (plain : NoSlash name) {base : String} (clean : NoSlash base)
    {version : Option String} (valid : ∀ v, version = some v → NoSlash v) (running : Bool) :
    Alike Enclosed (fun target => Direct target.name) (placement name base version running)
      (placement name base version running) := by
  refine Alike.read fun w h => ?_
  cases running with
  | false => exact Alike.pure (direct_scoped plain clean)
  | true =>
    cases version with
    | none => exact Alike.fail
    | some version => exact Alike.pure (direct_candidate h plain (valid version rfl))

theorem recordStaged_enclosing (plain : NoSlash name) (clean : NoSlash version) {target : Path}
    (direct : Direct target.name) :
    Enclosing (recordStaged env name version target)
      (recordStaged (env.beyond other) name version target) := by
  refine loaded_enclosing ((loadState_enclosed env other).mapError _) fun _ => ?_
  refine (entry_enclosing plain fun e h => ?_).andThen fun _ => ?_
  · exact ⟨h.active, h.knownGood, noSlash_some clean⟩
  refine (store_enclosing env other).attempt.andThen fun stored => ?_
  cases stored with
  | ok _ => exact Alike.pure trivial
  | error error =>
    exact (durableRemove_enclosing env other direct).attempt.andThen fun _ => Alike.fail

theorem recordPlaced_enclosing (plain : NoSlash name) {version : Option String}
    (valid : ∀ v, version = some v → NoSlash v) (running : Bool) {target : Path}
    (direct : Direct target.name) :
    Enclosing (recordPlaced env name version running target)
      (recordPlaced (env.beyond other) name version running target) := by
  cases running with
  | false => exact Alike.pure trivial
  | true =>
    cases version with
    | none => exact Alike.pure trivial
    | some version => exact recordStaged_enclosing env other plain (valid version rfl) direct

theorem clearCandidates_enclosing (running : Bool) :
    Enclosing (clearCandidates env name running)
      (clearCandidates (env.beyond other) name running) := by
  cases running with
  | false => exact Alike.pure trivial
  | true => exact (pruneCandidates_enclosing env other none).mapError _

theorem moveIntoPlace_enclosing {staging target : Path} (start : Direct staging.name)
    (direct : Direct target.name) :
    Enclosing (moveIntoPlace env staging target)
      (moveIntoPlace (env.beyond other) staging target) :=
  ((durableMode_enclosing env other start).mapError _).andThen fun _ =>
    (durableMove_enclosing env other start direct).mapError _

/-- What is placed is a file of its directory if a base without a slash makes it one. -/
theorem validateAndPlace_enclosed (plain : NoSlash name) {requested : Option String}
    {staging : Path} (start : ∀ base, NoSlash base → requested.getD base = base →
      Direct staging.name) :
    Alike Enclosed (fun placed => ∀ v, placed.extensionVersion = some v → NoSlash v)
      (validateAndPlace env name requested staging)
      (validateAndPlace (env.beyond other) name requested staging) := by
  refine Alike.read fun w _ => ?_
  refine (validateImage_enclosing env other _).andThen fun _ => ?_
  refine (imageRelease_enclosing env other _).andThen fun release => ?_
  refine (checkRelease_enclosed requested release).bind fun base declared => ?_
  obtain ⟨valid, wanted⟩ := declared
  have clean := noSlash_of_valid valid
  have version : ∀ v, release.version.filter versionValid = some v → NoSlash v :=
    fun v named => noSlash_of_valid (Option.filter_eq_some_iff.mp named).2
  refine Alike.read fun w _ => ?_
  refine (placement_enclosed plain clean version _).bind fun target direct => ?_
  refine (requirePlacementSpace_enclosing env other staging _).andThen fun _ => ?_
  refine (clearCandidates_enclosing env other _).andThen fun _ => ?_
  refine (moveIntoPlace_enclosing env other (start base clean wanted) direct).andThen fun _ => ?_
  exact (recordPlaced_enclosing env other plain version _ direct).andThen fun _ =>
    Alike.pure version

theorem noSlash_toString (n : Nat) : NoSlash (toString n) := by
  intro there
  have digits : (toString n).toList = Nat.toDigits 10 n := by simp
  rw [digits] at there
  have digit := Nat.isDigit_of_mem_toDigits (by decide) (by decide) there
  revert digit
  decide

theorem Revises.noSlash {base version : String} {n : Nat} (revises : Revises base version n)
    (clean : NoSlash base) : NoSlash version := by
  rcases revises with ⟨-, rfl⟩ | ⟨-, rfl⟩
  · exact clean
  · simp only [noSlash_append]
    exact ⟨⟨clean, by decide⟩, noSlash_toString n⟩

theorem resolveRevision_enclosed (base : String) :
    Alike Enclosed (fun selected => NoSlash base → NoSlash selected)
      (resolveRevision env name base) (resolveRevision (env.beyond other) name base) := by
  have lists := (Quiet.askFor (env.listComponent name)).enclosing
  refine (lists.mapError _).andThen fun answer => ?_
  obtain ⟨listed, versions⟩ := answer
  refine Alike.demand.andThen fun _ => ?_
  cases versions with
  | none => exact Alike.fail
  | some versions =>
    dsimp only
    split
    · rename_i newest
      obtain ⟨-, n, ⟨revises, -⟩, -⟩ := newestForBase_eq_some_iff.mp newest
      exact Alike.pure revises.noSlash
    · exact Alike.fail

theorem acquireVersion_enclosed (base : String) (version : Option String) :
    Alike Enclosed (fun selected => NoSlash base → NoSlash selected)
      (acquireVersion env name base version)
      (acquireVersion (env.beyond other) name base version) := by
  refine Alike.demand.bind fun _ valid => ?_
  refine (Quiet.ask env.components).enclosing.andThen fun components => ?_
  refine Alike.demand.andThen fun _ => ?_
  refine (requireSpace_enclosing env other _).andThen fun _ => ?_
  cases version with
  | none => exact resolveRevision_enclosed env other base
  | some version => exact Alike.pure fun _ => noSlash_of_valid valid

theorem acquireComponent_enclosing (version : String) :
    Enclosing (acquireComponent env name version)
      (acquireComponent (env.beyond other) name version) := by
  intro w h
  refine ⟨rfl, ?_⟩
  unfold acquireComponent
  cases env.acquire name version w with
  | error error => exact h.clock _
  | ok answer => exact ⟨trivial, h.scope, h.candidates, h.memory, h.stored⟩

theorem placeAcquired_enclosed (plain : NoSlash name) {base selected : String}
    (clean : NoSlash base → NoSlash selected) (finished : Finished) :
    Alike Enclosed (fun placed => ∀ v, placed.extensionVersion = some v → NoSlash v)
      (placeAcquired env name base selected finished)
      (placeAcquired (env.beyond other) name base selected finished) := by
  refine Alike.read fun w _ => ?_
  refine Alike.demand.andThen fun _ => ?_
  refine (failedAt_enclosing (fileSize_enclosing env other _) _).andThen fun size => ?_
  refine Alike.demand.andThen fun _ => ?_
  refine validateAndPlace_enclosed env other plain fun declared usable same => ?_
  obtain rfl : base = declared := same
  exact direct_scoped plain (clean usable)

theorem acquire_enclosed (plain : NoSlash name) (base : String) (version : Option String) :
    Alike Enclosed (fun staged => ∀ v, staged.extensionVersion = some v → NoSlash v)
      (acquire env name base version) (acquire (env.beyond other) name base version) := by
  refine (acquireVersion_enclosed env other base version).bind fun selected clean => ?_
  refine ((acquireComponent_enclosing env other selected).mapError _).andThen fun finished => ?_
  split
  · have places := placeAcquired_enclosed env other plain clean finished
    refine places.attempt.bind fun placed good => ?_
    refine (clearStaged_enclosing env other).attempt.andThen fun _ => ?_
    cases placed with
    | ok p => exact Alike.pure (good p rfl)
    | error e => exact Alike.fail
  · exact (clearStaged_enclosing env other).attempt.andThen fun _ => Alike.fail

theorem openSource_enclosing (path : String) :
    Enclosing (openSource env path) (openSource (env.beyond other) path) :=
  (openSource_quiet env path).enclosing

theorem copySource_enclosing (path : String) {target : Path} (direct : Direct target.name)
    (maximum : Nat) :
    Enclosing (copySource env path target maximum)
      (copySource (env.beyond other) path target maximum) := by
  intro w h
  have same : (env.beyond other).source path w = env.source path w := rfl
  unfold copySource
  rw [same]
  rcases env.source path w with _ | error | opened
  · exact ⟨rfl, h.clock _⟩
  · exact ⟨rfl, h.clock _⟩
  · dsimp only
    split
    · exact durablePublish_enclosing env other opened.2 direct _ (h.clock _)
    · exact ⟨rfl, h.clock _⟩

theorem checkDigest_enclosing {staging : Path} (direct : Direct staging.name) (digest : String) :
    Enclosing (checkDigest env staging digest) (checkDigest (env.beyond other) staging digest) := by
  have removes : Enclosing (Prog.attempt (durableRemove env staging) : Act Failure _)
      (Prog.attempt (durableRemove (env.beyond other) staging)) :=
    (durableRemove_enclosing env other direct).attempt.mono fun _ _ => trivial
  refine Alike.read fun w _ => ?_
  refine (Quiet.askFor (env.sha256sum ((w.readFile staging).getD []))).enclosing.attempt.andThen
    fun sum => ?_
  cases sum with
  | error error => exact removes.andThen fun _ => Alike.fail
  | ok actual =>
    dsimp only
    split
    · exact Alike.pure trivial
    · exact removes.andThen fun _ => Alike.fail

theorem supplied_enclosed (plain : NoSlash name) (base : Option String) (path digest : String) :
    Alike Enclosed (fun staged => ∀ v, staged.extensionVersion = some v → NoSlash v)
      (supplied env name base path digest) (supplied (env.beyond other) name base path digest) := by
  have direct : Direct (name ++ ".raw") := direct_legacy plain
  refine Alike.demand.andThen fun _ => ?_
  refine (openSource_enclosing env other path).andThen fun size => ?_
  refine Alike.read fun w _ => ?_
  refine Alike.andThen (Q := fun _ => True) ?_ fun retained => ?_
  · split
    · exact failedAt_enclosing (missingRollbackSize_quiet env).enclosing _
    · exact Alike.pure trivial
  refine (requireSpace_enclosing env other _).andThen fun _ => ?_
  refine ((copySource_enclosing env other path direct size).mapError _).andThen fun _ => ?_
  refine (checkDigest_enclosing env other direct digest).andThen fun _ => ?_
  refine (validateAndPlace_enclosed env other plain fun _ _ _ => direct).attempt.bind
    fun placed good => ?_
  refine (durableRemove_enclosing env other direct).attempt.andThen fun _ => ?_
  cases placed with
  | ok p => exact Alike.pure (good p rfl)
  | error e => exact Alike.fail

theorem stageExtension_enclosed (base : Option String) (source : Source) :
    Alike Enclosed (fun staged => NoSlash name ∧ ∀ v, staged.extensionVersion = some v → NoSlash v)
      (stageExtension env name base source)
      (stageExtension (env.beyond other) name base source) := by
  refine Alike.demand.bind fun _ valid => ?_
  have plain := noSlash_of_valid valid
  cases source with
  | supplied path digest =>
    exact (supplied_enclosed env other plain base path digest).mono fun _ clean => ⟨plain, clean⟩
  | acquire version =>
    refine Alike.andThen (Q := fun _ => True) ?_ fun base => ?_
    · cases base with
      | some base => exact Alike.pure trivial
      | none =>
        refine Alike.read fun w _ => ?_
        cases w.osVersion with
        | none => exact Alike.fail
        | some version => exact Alike.pure trivial
    · exact (acquire_enclosed env other plain base version).mono fun _ clean => ⟨plain, clean⟩

theorem verifyEach_beyond (pending : String) (names : List String) :
    verifyEach (env.beyond other) pending names = verifyEach env pending names := by
  induction names with
  | nil => rfl
  | cons name rest ih =>
    rw [verifyEach, verifyEach, ih]
    rfl

/-- Staging a base leaves the agent's files alone. -/
theorem stageBase_enclosing (version : Option String) :
    Enclosing (stageBase env version) (stageBase (env.beyond other) version) := by
  have same : stageBase (env.beyond other) version = stageBase env version := by
    simp only [stageBase, stageTarget, verifyExtensionsFor, verifyEach_beyond]
    rfl
  rw [same]
  refine Alike.of_keeps (within_preserves_iff.mp ((stageBase_untouched env version).mono
    fun w u untouched h => ?_))
  refine ⟨?_, ?_, ?_, ?_⟩
  · rw [Node.scope, Node.osVersion, Node.osReleaseValue, untouched.osRelease]
    exact h.scope
  · rw [untouched.extensions]
    exact h.candidates
  · rw [untouched.memory]
    exact h.memory
  · rw [untouched.stored]
    exact h.stored

theorem acquireLock_enclosing : Enclosing (acquireLock env) (acquireLock (env.beyond other)) := by
  intro w h
  refine ⟨rfl, ?_⟩
  unfold acquireLock
  cases env.unreadable .lock w with
  | some error => exact h.clock _
  | none => exact ⟨trivial, h.clock _⟩

theorem adopt_enclosing {arguments : List String} (plain : ∀ a ∈ arguments, NoSlash a) :
    Enclosing (adopt env arguments) (adopt (env.beyond other) arguments) := by
  rcases arguments with _ | ⟨name, _ | ⟨version, rest⟩⟩
  · exact Alike.fail
  · exact Alike.fail
  refine loaded_enclosing (loadState_enclosed env other) fun _ => ?_
  have adopts := adoptActive_enclosing env other (plain name (by simp)) (plain version (by simp))
  exact adopts.mapError _

theorem activate_enclosing {arguments : List String} (plain : ∀ a ∈ arguments, NoSlash a) :
    Enclosing (activate env arguments) (activate (env.beyond other) arguments) := by
  rcases arguments with _ | ⟨name, _ | ⟨version, rest⟩⟩
  · exact Alike.fail
  · exact Alike.fail
  have activates := activateExtension_enclosing env other (plain name (by simp))
    (plain version (by simp)) rest.head?
  exact (activates.mapError _).andThen fun _ => Alike.pure trivial

theorem activateStaged_enclosing (plain : NoSlash name) {version : Option String}
    (clean : ∀ v, version = some v → NoSlash v) :
    Enclosing (activateStaged env name version)
      (activateStaged (env.beyond other) name version) := by
  cases version with
  | none => exact Alike.fail
  | some version =>
    refine (Quiet.ask env.randomUuid).enclosing.andThen fun requestId => ?_
    have activates := activateExtension_enclosing env other plain (clean version rfl)
      (requestId.map Text.trim)
    exact (activates.mapError _).andThen fun _ => Alike.pure trivial

theorem stageExtensionCommand_enclosing (arguments : List String) :
    Enclosing (stageExtensionCommand env arguments)
      (stageExtensionCommand (env.beyond other) arguments) := by
  have stages : ∀ name source, Enclosing (stageSource env name arguments source)
      (stageSource (env.beyond other) name arguments source) := by
    intro name source
    refine ((stageExtension_enclosed env other _ source).mapError _).bind fun staged good => ?_
    split
    · exact Alike.pure trivial
    · exact activateStaged_enclosing env other good.1 good.2
  unfold stageExtensionCommand
  split
  · exact Alike.fail
  · split
    · exact stages _ _
    · exact Alike.fail
    · exact stages _ _

theorem named_enclosing {arguments : List String} (plain : ∀ a ∈ arguments, NoSlash a)
    (usage : String) {m m' : String → Act String Unit}
    (alike : ∀ name, NoSlash name → Enclosing (m name) (m' name)) :
    Enclosing (named arguments usage m) (named arguments usage m') := by
  cases arguments with
  | nil => exact Alike.fail
  | cons name rest => exact alike name (plain name List.mem_cons_self)

theorem rollbackCommand_enclosing {arguments : List String}
    (plain : ∀ a ∈ arguments, NoSlash a) :
    Enclosing (rollbackCommand env arguments) (rollbackCommand (env.beyond other) arguments) := by
  refine named_enclosing plain _ fun name plain => ?_
  refine loaded_enclosing (loadState_enclosed env other) fun _ => ?_
  refine (recover_enclosing env other plain _).attempt.andThen fun result => ?_
  refine (store_enclosing env other).andThen fun _ => ?_
  cases result with
  | ok _ => exact Alike.pure trivial
  | error error => exact Alike.fail

theorem removeExtension_enclosing {arguments : List String}
    (plain : ∀ a ∈ arguments, NoSlash a) :
    Enclosing (removeExtension env arguments) (removeExtension (env.beyond other) arguments) := by
  refine named_enclosing plain _ fun name plain => ?_
  refine loaded_enclosing (loadState_enclosed env other) fun _ => ?_
  refine (entry_enclosing plain fun e h => ?_).andThen fun _ => ?_
  · exact ⟨h.active, h.knownGood, h.candidate⟩
  refine (store_enclosing env other).andThen fun _ => ?_
  exact (completeRemoval_enclosing env other plain).andThen fun _ => store_enclosing env other

theorem setRequired_enclosing {arguments : List String} (plain : ∀ a ∈ arguments, NoSlash a)
    (required : Bool) :
    Enclosing (setRequired env arguments required)
      (setRequired (env.beyond other) arguments required) := by
  refine named_enclosing plain _ fun name plain => ?_
  refine loaded_enclosing (loadState_enclosed env other) fun _ => ?_
  refine (entry_enclosing plain fun e h => ?_).andThen fun _ => store_enclosing env other
  exact ⟨h.active, h.knownGood, h.candidate⟩

theorem reset_enclosing {arguments : List String} (plain : ∀ a ∈ arguments, NoSlash a) :
    Enclosing (reset env arguments) (reset (env.beyond other) arguments) := by
  refine named_enclosing plain _ fun name plain => ?_
  refine loaded_enclosing (loadState_enclosed env other) fun _ => ?_
  refine (entry_enclosing plain fun e h => ?_).andThen fun _ => store_enclosing env other
  exact ⟨h.active, h.knownGood, h.candidate⟩

theorem Command.run_enclosing {c : Command} {arguments : List String}
    (confined : (Event.command c arguments).Confined) :
    Enclosing (c.run env arguments) (c.run (env.beyond other) arguments) := by
  refine (acquireLock_enclosing env other).andThen fun _ => ?_
  refine (reconcileState_enclosing env other).andThen fun _ => ?_
  cases c with
  | healthGate => exact healthGate_enclosing env other
  | activate => exact activate_enclosing env other (confined.resolve_left (by decide))
  | stageExtension => exact stageExtensionCommand_enclosing env other arguments
  | stageBase =>
    exact ((stageBase_enclosing env other _).mapError _).andThen fun _ => Alike.pure trivial
  | adopt => exact adopt_enclosing env other (confined.resolve_left (by decide))
  | rollback => exact rollbackCommand_enclosing env other (confined.resolve_left (by decide))
  | remove => exact removeExtension_enclosing env other (confined.resolve_left (by decide))
  | require => exact setRequired_enclosing env other (confined.resolve_left (by decide)) true
  | unrequire => exact setRequired_enclosing env other (confined.resolve_left (by decide)) false
  | reset => exact reset_enclosing env other (confined.resolve_left (by decide))

theorem tryLock_enclosing : Enclosing (tryLock env) (tryLock (env.beyond other)) := by
  intro w h
  refine ⟨rfl, ?_⟩
  unfold tryLock
  cases env.unreadable .busy w with
  | some error => exact h.clock _
  | none =>
    cases env.unreadable .lock w with
    | some error => exact h.clock _
    | none => exact ⟨trivial, h.clock _⟩

theorem answerStageExtension_enclosing (r : Request) :
    Enclosing (answerStageExtension env r) (answerStageExtension (env.beyond other) r) := by
  unfold answerStageExtension
  cases r.name with
  | none => exact Alike.fail
  | some name =>
    refine Alike.demand.andThen fun _ => ?_
    cases r.source with
    | error failure => exact Alike.fail
    | ok source =>
      exact (stageExtension_enclosed env other r.base source).andThen fun _ => Alike.pure trivial

/-- The name and the version of a request are checked before anything is done with them. -/
theorem answerActivateExtension_enclosing (r : Request) :
    Enclosing (answerActivateExtension env r) (answerActivateExtension (env.beyond other) r) := by
  unfold answerActivateExtension
  cases r.name with
  | none => exact Alike.fail
  | some name =>
    cases r.version with
    | none => exact Alike.fail
    | some version =>
      refine Alike.demand.bind fun _ valid => ?_
      rw [Bool.and_eq_true] at valid
      have activates := activateExtension_enclosing env other (noSlash_of_valid valid.1)
        (noSlash_of_valid valid.2) r.requestId
      exact activates.andThen fun _ => Alike.pure trivial

theorem Call.run_enclosing (c : Call) (r : Request) :
    Enclosing (c.run env r) (c.run (env.beyond other) r) := by
  refine (tryLock_enclosing env other).andThen fun _ => ?_
  refine ((reconcileState_enclosing env other).mapError _).andThen fun _ => ?_
  cases c with
  | stageExtension => exact answerStageExtension_enclosing env other r
  | activateExtension => exact answerActivateExtension_enclosing env other r
  | stageBase => exact (stageBase_enclosing env other _).andThen fun _ => Alike.pure trivial

theorem Enclosed.process {w : Node} (h : Enclosed w) : Enclosed w.process :=
  ⟨h.scope, h.candidates, State.Enclosed.empty, h.stored⟩

theorem after_enclosed {e : Event} (confined : e.Confined) {w : Node} (h : Enclosed w) :
    e.after (env.beyond other) w = e.after env w ∧ Enclosed (e.after env w) := by
  cases e with
  | command c arguments => exact (Command.run_enclosing env other confined).state h.process
  | request c r => exact (c.run_enclosing env other r).state h.process
  | boot osRelease bootEntries =>
    exact ⟨rfl, confined, h.candidates, State.Enclosed.empty, h.stored⟩

theorem run_cons (e : Event) (rest : List Event) (w : Node) :
    run env (e :: rest) w = run env rest (e.after env w) := rfl

/-- Whatever requests say, the agent makes no durable step but on entries of its own two
directories and on the record: a run does not depend on what would come of any other. -/
theorem run_confined {events : List Event} (confined : ∀ e ∈ events, e.Confined) {w : Node}
    (h : Enclosed w) :
    run (env.beyond other) events w = run env events w ∧ Enclosed (run env events w) := by
  induction events generalizing w with
  | nil =>
    -- By `rfl` the two runs would be compared event by event.
    have stays : ∀ env, run env [] w = w := fun _ => rfl
    rw [stays, stays]
    exact ⟨rfl, h⟩
  | cons e rest ih =>
    obtain ⟨same, kept⟩ := after_enclosed env other (confined e List.mem_cons_self) h
    rw [run_cons, run_cons, same]
    exact ih (fun d there => confined d (List.mem_cons_of_mem e there)) kept

end

/-- What a node is provisioned with under direct names. -/
theorem enclosed_with {base : String} {images : List (String × Bytes)}
    (clean : NoSlash (Node.with base images).scope)
    (direct : ∀ p ∈ images, Text.endsWith p.1 ".candidate" = true → Direct p.1) :
    Enclosed (.with base images) := by
  refine ⟨clean, ?_, State.Enclosed.empty, State.Enclosed.empty⟩
  suffices filled : ∀ d : Dir, (∀ f ∈ d, Text.endsWith f ".candidate" = true → Direct f) →
      ∀ f ∈ images.foldl (fun d p => d.insert p.1 p.2) d,
        Text.endsWith f ".candidate" = true → Direct f by
    exact filled ∅ fun f there => absurd there Std.ExtTreeMap.not_mem_empty
  clear clean
  induction images with
  | nil => exact fun d held => held
  | cons p rest ih =>
    intro d held
    refine ih (fun q there => direct q (List.mem_cons_of_mem p there)) _ fun f there ending => ?_
    rcases Std.ExtTreeMap.mem_insert.mp there with same | before
    · obtain rfl := compare_eq_iff_eq.mp same
      exact direct p List.mem_cons_self ending
    · exact held f before ending

/-- Requests that try to lead elsewhere, and those of a caller that does not. -/
def crafted : List Event :=
  [.request .stageExtension { name := some "../../etc/n", path := some "/1", digest := some "d" },
    .request .stageExtension { name := some "n", path := some "/1", digest := some "d" },
    .request .activateExtension { name := some "n", version := some "../../../etc/passwd" },
    .boot (some "VERSION_ID=1") [],
    .request .activateExtension { name := some "n", version := some "a" }]

/-- A step on any other file would have stopped the machine. -/
theorem crafted_confined :
    run ((calm twoVersions).beyond fun _ _ => some ⟨true, fun _ => true, none, ""⟩) crafted
        (Node.with "1" [("../../../etc/passwd", [0])]) =
      run (calm twoVersions) crafted (Node.with "1" [("../../../etc/passwd", [0])]) ∧
    Enclosed (run (calm twoVersions) crafted (Node.with "1" [("../../../etc/passwd", [0])])) := by
  have enclosed : Enclosed (Node.with "1" [("../../../etc/passwd", [0])]) :=
    enclosed_with (by decide) (by decide)
  exact run_confined (calm twoVersions) _ (by decide) enclosed

end CarbideOS.Agent
