import CarbideOS.Lib.Alike
import CarbideOS.Proofs.Events

namespace CarbideOS.Agent
open Interruptible

def NoSlash (s : String) : Prop := '/' ∉ s.toList

instance (s : String) : Decidable (NoSlash s) := inferInstanceAs (Decidable ('/' ∉ s.toList))

/-- A name that an entry of a directory can have. -/
def Direct (f : String) : Prop := NoSlash f ∧ f ∉ ["", ".", ".."]

instance (f : String) : Decidable (Direct f) := inferInstanceAs (Decidable (_ ∧ _))

/-- The step is on an entry of one of the two directories, or on the record. A prune goes
through the entries of a directory. -/
def Durable.Inside : Durable → Prop
  | .copy target | .remove target | .mode target => Direct target.name
  | .prune .. | .store => True

instance (step : Durable) : Decidable step.Inside :=
  match step with
  | .copy target | .remove target | .mode target => inferInstanceAs (Decidable (Direct target.name))
  | .prune .. | .store => isTrue trivial

/-- The same surroundings, but for what comes of a step on any other path. -/
def Environment.beyond (env : Environment) (other : Durable → Node → Option Fault) : Environment :=
  { env with fault := fun step w => if step.Inside then env.fault step w else other step w }

/-- No version in an entry leads anywhere else. -/
structure ExtensionState.Enclosed (e : ExtensionState) : Prop where
  active : ∀ v, e.activeVersion = some v → NoSlash v
  knownGood : ∀ v, e.knownGoodVersion = some v → NoSlash v
  candidate : ∀ v, e.candidateVersion = some v → NoSlash v

/-- No name on record leads anywhere else. -/
def State.Enclosed (s : State) : Prop := ∀ name e, s.get name = some e → NoSlash name ∧ e.Enclosed

/-- Neither the base nor a name on record leads anywhere else, and the candidates there are
entries of their directory. Any other file may be there under a name that leads to it. -/
structure Enclosed (w : Node) : Prop where
  scope : NoSlash w.scope
  candidates : ∀ f ∈ w.extensions, Text.endsWith f ".candidate" = true → Direct f
  memory : w.memory.Enclosed
  stored : w.stored.Enclosed

/-- The operator names extensions and versions without a slash, and a boot is of such a base.
What a request asks for does not matter, nor what is given to a command that stages. -/
def Event.Confined : Event → Prop
  | .command c arguments =>
    c ∈ [.healthGate, .stageExtension, .stageBase] ∨ ∀ argument ∈ arguments, NoSlash argument
  | .request .. => True
  | .boot osRelease _ => NoSlash ({ osRelease := osRelease } : Node).scope

instance (e : Event) : Decidable e.Confined :=
  match e with
  | .command _ _ => inferInstanceAs (Decidable (_ ∨ _))
  | .request .. => isTrue trivial
  | .boot osRelease _ =>
    inferInstanceAs (Decidable (NoSlash ({ osRelease := osRelease } : Node).scope))

section
variable {s t name version : String} {w : Node} {e : ExtensionState}

@[simp] theorem noSlash_append : NoSlash (s ++ t) ↔ NoSlash s ∧ NoSlash t := by
  simp [NoSlash, not_or]

theorem noSlash_some (clean : NoSlash version) : ∀ v, some version = some v → NoSlash v :=
  fun _ same => Option.some.inj same ▸ clean

theorem noSlash_of_valid (valid : versionValid s = true) : NoSlash s := by
  intro there
  simp only [versionValid, Bool.and_eq_true, List.all_eq_true] at valid
  have allowed := valid.2 '/' there
  revert allowed
  decide

/-- A name with a proper ending. -/
theorem direct_append (plain : NoSlash s) (ending : NoSlash t) (long : 2 < t.toList.length) :
    Direct (s ++ t) := by
  refine ⟨noSlash_append.mpr ⟨plain, ending⟩, fun short => ?_⟩
  have size : (s ++ t).toList.length ≤ 2 := by
    simp only [List.mem_cons, List.not_mem_nil, or_false] at short
    rcases short with same | same | same
    all_goals
      rw [same]
      decide
  rw [String.toList_append, List.length_append] at size
  omega

theorem direct_legacy (plain : NoSlash name) : Direct (legacyActivePath name).name :=
  direct_append plain (by decide) (by decide)

theorem direct_scoped {base : String} (plain : NoSlash name) (clean : NoSlash base) :
    Direct (scopedActivePath name base).name := by
  have whole : NoSlash (name ++ "_" ++ base) := by
    simp only [noSlash_append]
    exact ⟨⟨plain, by decide⟩, clean⟩
  exact direct_append whole (by decide) (by decide)

theorem noSlash_slot (h : Enclosed w) (plain : NoSlash name) (clean : NoSlash version) :
    NoSlash (slotPrefix name w.scope ++ version) := by
  simp only [slotPrefix, noSlash_append]
  exact ⟨⟨⟨⟨plain, by decide⟩, h.scope⟩, by decide⟩, clean⟩

theorem direct_rollback (h : Enclosed w) (plain : NoSlash name) (clean : NoSlash version) :
    Direct (w.rollbackPath name version).name :=
  direct_append (noSlash_slot h plain clean) (by decide) (by decide)

theorem direct_candidate (h : Enclosed w) (plain : NoSlash name) (clean : NoSlash version) :
    Direct (w.candidatePath name version).name :=
  direct_append (noSlash_slot h plain clean) (by decide) (by decide)

theorem ExtensionState.Enclosed.blank : ({} : ExtensionState).Enclosed := ⟨nofun, nofun, nofun⟩

theorem State.Enclosed.empty : State.Enclosed {} := by
  intro name e there
  simp [State.get] at there

theorem State.Enclosed.entry {s : State} (h : s.Enclosed) (plain : NoSlash name)
    {f : ExtensionState → ExtensionState} (kept : ∀ e, e.Enclosed → (f e).Enclosed) :
    (s.entry name f).Enclosed := by
  intro other e there
  rw [State.get_entry] at there
  split at there
  · rename_i same
    subst same
    obtain rfl := Option.some.inj there
    refine ⟨plain, kept _ ?_⟩
    cases was : s.get name with
    | none => exact ExtensionState.Enclosed.blank
    | some e => exact (h name e was).2
  · exact h other e there

theorem State.Enclosed.forget {s : State} (h : s.Enclosed) (current : String) :
    (s.forgetStaleTerminals current).1.Enclosed := by
  intro name e there
  rw [State.get_forget] at there
  obtain ⟨d, was, rfl⟩ := Option.map_eq_some_iff.mp there
  obtain ⟨plain, versions⟩ := h name d was
  refine ⟨plain, ?_⟩
  split
  · exact ⟨versions.active, versions.knownGood, versions.candidate⟩
  · exact versions

theorem State.Enclosed.named {s : State} (h : s.Enclosed) {f : ExtensionState → Option String}
    (field : ∀ e, e.Enclosed → ∀ v, f e = some v → NoSlash v)
    (there : (s.get name).bind f = some version) : NoSlash version := by
  obtain ⟨e, was, named⟩ := Option.bind_eq_some_iff.mp there
  exact field e (h name e was).2 version named

theorem Enclosed.clock (h : Enclosed w) (t : Nat) : Enclosed (w.clock t) :=
  ⟨h.scope, h.candidates, h.memory, h.stored⟩

theorem Enclosed.setDir (h : Enclosed w) {place : Place} {d : Dir}
    (names : ∀ f ∈ d, f ∈ w.dir place ∨ Direct f) : Enclosed (w.setDir place d) := by
  cases place with
  | staging => exact ⟨h.scope, h.candidates, h.memory, h.stored⟩
  | extensions =>
    refine ⟨h.scope, fun f there ending => ?_, h.memory, h.stored⟩
    exact (names f there).elim (fun before => h.candidates f before ending) id

theorem direct_temporaryName (h : Direct s) : Direct (temporaryName s) := by
  have plain : NoSlash ("." ++ s) := noSlash_append.mpr ⟨by decide, h.1⟩
  exact direct_append plain (by decide) (by decide)

theorem Enclosed.publish (h : Enclosed w) {target : Path} (direct : Direct target.name)
    (bytes : Bytes) : Enclosed (w.publish target bytes) := by
  refine h.setDir fun f there => ?_
  rcases Std.ExtTreeMap.mem_insert.mp there with same | before
  · exact Or.inr (compare_eq_iff_eq.mp same ▸ direct)
  · exact Or.inl (Std.ExtTreeMap.mem_of_mem_erase before)

theorem Enclosed.unlink (h : Enclosed w) (p : Path) : Enclosed (w.unlink p) :=
  h.setDir fun _ there => Or.inl (Std.ExtTreeMap.mem_of_mem_erase there)

theorem Enclosed.leaveBehind (h : Enclosed w) {target : Path} (direct : Direct target.name)
    (bytes : Bytes) (leftover : Option Nat) : Enclosed (w.leaveBehind target bytes leftover) := by
  cases leftover with
  | none => exact h.setDir fun _ there => Or.inl (Std.ExtTreeMap.mem_of_mem_erase there)
  | some n =>
    refine h.setDir fun f there => ?_
    rcases Std.ExtTreeMap.mem_insert.mp there with same | before
    · exact Or.inr (compare_eq_iff_eq.mp same ▸ direct_temporaryName direct)
    · exact Or.inl before

theorem Enclosed.sweep (h : Enclosed w) (place : Place) (test : String → Bool) :
    Enclosed (w.sweep place test) := by
  refine h.setDir fun f there => Or.inl ?_
  rw [Std.ExtTreeMap.mem_iff_isSome_getElem?, Dir.get_sweep] at there
  split at there
  · cases there
  · exact Std.ExtTreeMap.mem_iff_isSome_getElem?.mpr there

end

section
variable (env : Environment) (other : Durable → Node → Option Fault) {ε α : Type}
  {name version : String}

/-- Two programs that do the same, and keep the names enclosed. -/
abbrev Enclosing (m m' : Act ε α) : Prop := Alike Enclosed (fun _ => True) m m'

theorem Quiet.enclosing {m : Act ε α} (quiet : Quiet m) : Enclosing m m := by
  refine Alike.of_keeps (within_preserves_iff.mp (quiet.within.mono fun w u later h => ?_))
  obtain ⟨t, rfl⟩ := later
  exact h.clock t

theorem durable_enclosing {step : Durable} (inside : step.Inside)
    {effect : (String → Bool) → Node → Node} {residue : Option Nat → Node → Node}
    (effects : ∀ reached w, Enclosed w → Enclosed (effect reached w))
    (residues : ∀ leftover w, Enclosed w → Enclosed (residue leftover w)) :
    Enclosing (Act.durable env step effect residue)
      (Act.durable (env.beyond other) step effect residue) := by
  intro w h
  have same : (env.beyond other).fault step w = env.fault step w := if_pos inside
  unfold Act.durable
  rw [same]
  refine ⟨rfl, ?_⟩
  cases env.fault step w with
  | none => exact ⟨trivial, (effects _ w h).clock _⟩
  | some fault =>
    have ends := (effects fault.reached _ (residues fault.leftover w h)).clock
      ((effect fault.reached (residue fault.leftover w)).now + 1)
    dsimp only
    split
    · exact ends
    · exact ends

theorem durablePublish_enclosing (bytes : Bytes) {target : Path} (direct : Direct target.name) :
    Enclosing (durablePublish env bytes target)
      (durablePublish (env.beyond other) bytes target) := by
  have inside : (Durable.copy target).Inside := direct
  refine durable_enclosing env other inside (fun reached w h => ?_) fun leftover w h =>
    h.leaveBehind direct bytes leftover
  split
  · exact h.publish direct bytes
  · exact h

theorem durableCopy_enclosing (source : Path) {target : Path} (direct : Direct target.name) :
    Enclosing (durableCopy env source target) (durableCopy (env.beyond other) source target) := by
  refine Alike.read fun w _ => ?_
  cases w.readFile source with
  | none => exact Alike.fail
  | some bytes => exact durablePublish_enclosing env other bytes direct

theorem durableRemove_enclosing {p : Path} (direct : Direct p.name) :
    Enclosing (durableRemove env p) (durableRemove (env.beyond other) p) := by
  have inside : (Durable.remove p).Inside := direct
  refine Alike.read fun w _ => ?_
  split
  · refine durable_enclosing env other inside (fun reached w h => ?_) fun _ w h => h
    split
    · exact h.unlink p
    · exact h
  · exact Alike.pure trivial

theorem durableMode_enclosing {p : Path} (direct : Direct p.name) :
    Enclosing (durableMode env p) (durableMode (env.beyond other) p) := by
  have inside : (Durable.mode p).Inside := direct
  exact durable_enclosing env other inside (fun _ _ h => h) fun _ _ h => h

theorem durableMove_enclosing {source target : Path} (start : Direct source.name)
    (direct : Direct target.name) :
    Enclosing (durableMove env source target) (durableMove (env.beyond other) source target) :=
  (durableCopy_enclosing env other source direct).andThen fun _ =>
    durableRemove_enclosing env other start

theorem pruneMatchingIn_enclosing (place : Place) (start finish : String) (keep : Option String) :
    Enclosing (pruneMatchingIn env place start finish keep)
      (pruneMatchingIn (env.beyond other) place start finish keep) := by
  have inside : (Durable.prune place start finish).Inside := trivial
  exact durable_enclosing env other inside (fun _ _ h => h.sweep place _) fun _ _ h => h

theorem pruneRollbacks_enclosing (keep : Option String) :
    Enclosing (pruneRollbacks env name keep) (pruneRollbacks (env.beyond other) name keep) :=
  Alike.read fun _ _ => pruneMatchingIn_enclosing env other _ _ _ _

theorem pruneCandidates_enclosing (keep : Option String) :
    Enclosing (pruneCandidates env name keep) (pruneCandidates (env.beyond other) name keep) :=
  Alike.read fun _ _ => pruneMatchingIn_enclosing env other _ _ _ _

theorem pruneTransactionFiles_enclosing :
    Enclosing (pruneTransactionFiles env) (pruneTransactionFiles (env.beyond other)) :=
  (pruneMatchingIn_enclosing env other _ _ _ _).andThen fun _ =>
    pruneMatchingIn_enclosing env other _ _ _ _

theorem clearStaged_enclosing :
    Enclosing (clearStaged env name) (clearStaged (env.beyond other) name) :=
  pruneMatchingIn_enclosing env other _ _ _ _

theorem candidateFiles_enclosed :
    Alike Enclosed (fun files => ∀ p ∈ files, Direct p.name)
      (candidateFiles env : Act String (List Path)) (candidateFiles (env.beyond other)) := by
  intro w h
  refine ⟨rfl, ?_⟩
  unfold candidateFiles
  cases env.unreadable .candidates w with
  | some error => exact h.clock _
  | none =>
    refine ⟨fun p listed => ?_, h.clock _⟩
    obtain ⟨f, there, rfl⟩ := List.mem_map.mp listed
    obtain ⟨there, named⟩ := List.mem_filter.mp there
    rw [Bool.and_eq_true] at named
    exact h.candidates f (Std.ExtTreeMap.mem_keys.mp there) named.2

theorem removeActive_enclosing (plain : NoSlash name) :
    Enclosing (removeActive env name) (removeActive (env.beyond other) name) := by
  refine Alike.read fun w h => ?_
  exact (durableRemove_enclosing env other (direct_scoped plain h.scope)).andThen fun _ =>
    durableRemove_enclosing env other (direct_legacy plain)

theorem installActive_enclosing (source : Path) (plain : NoSlash name) :
    Enclosing (installActive env source name) (installActive (env.beyond other) source name) := by
  have hides : Enclosing (hideLegacy env name) (hideLegacy (env.beyond other) name) := by
    refine Alike.read fun w _ => ?_
    dsimp only
    split
    · exact durableRemove_enclosing env other (direct_legacy plain)
    · exact Alike.pure trivial
  refine Alike.read fun w h => ?_
  exact hides.andThen fun _ =>
    durableCopy_enclosing env other source (direct_scoped plain h.scope)

theorem loadState_enclosed :
    Alike Enclosed State.Enclosed (loadState env) (loadState (env.beyond other)) := by
  intro w h
  refine ⟨rfl, ?_⟩
  unfold loadState
  cases env.unreadable .state w with
  | some error => exact h.clock _
  | none => exact ⟨h.stored, h.clock _⟩

theorem hold_enclosing {s : State} (enclosed : s.Enclosed) :
    Enclosing (Act.hold s : Act ε Unit) (Act.hold s) :=
  fun _ h => ⟨rfl, trivial, h.scope, h.candidates, enclosed, h.stored⟩

/-- A program that takes the record from disk and works on it. -/
theorem loaded_enclosing {load load' : Act ε State}
    (loads : Alike Enclosed State.Enclosed load load') {f f' : State → Act ε α}
    (rest : ∀ s, Enclosing (f s) (f' s)) :
    Enclosing (load >>= fun s => Act.hold s >>= fun _ => f s)
      (load' >>= fun s => Act.hold s >>= fun _ => f' s) :=
  loads.bind fun s enclosed => (hold_enclosing enclosed).andThen fun _ => rest s

theorem store_enclosing : Enclosing (store env) (store (env.beyond other)) := by
  have inside : Durable.store.Inside := trivial
  refine durable_enclosing env other inside (fun reached w h => ?_) fun _ _ h => h
  split
  · exact ⟨h.scope, h.candidates, h.memory, h.memory⟩
  · exact h

theorem entry_enclosing (plain : NoSlash name) {f : ExtensionState → ExtensionState}
    (kept : ∀ e, e.Enclosed → (f e).Enclosed) :
    Enclosing (Act.entry name f : Act ε Unit) (Act.entry name f) :=
  fun _ h => ⟨rfl, trivial, h.scope, h.candidates, h.memory.entry plain kept, h.stored⟩

theorem note_enclosing (image : Option Bytes) (verdict : Verdict) :
    Enclosing (Act.note name image verdict : Act ε Unit) (Act.note name image verdict) := by
  intro w h
  refine ⟨rfl, trivial, ?_⟩
  cases image <;> exact ⟨h.scope, h.candidates, h.memory, h.stored⟩

theorem sysextRefresh_enclosing :
    Enclosing (sysextRefresh env) (sysextRefresh (env.beyond other)) := by
  intro w h
  have merged : Enclosed { w with merged := (env.refresh w).2 }.tick :=
    ⟨h.scope, h.candidates, h.memory, h.stored⟩
  refine ⟨rfl, ?_⟩
  unfold sysextRefresh
  dsimp only
  cases (env.refresh w).1 with
  | ok _ => exact ⟨trivial, merged⟩
  | error _ => exact merged

/-- What only looks does not ask for a durable step. -/
theorem daemonReload_enclosing :
    Enclosing (daemonReload env) (daemonReload (env.beyond other)) :=
  (daemonReload_quiet env).enclosing

theorem loadNamed_enclosing :
    Enclosing (loadNamed env name) (loadNamed (env.beyond other) name) :=
  (loadNamed_quiet env name).enclosing

theorem stopMerged_enclosing :
    Enclosing (stopMerged env name : Act ε Unit) (stopMerged (env.beyond other) name) :=
  (stopMerged_quiet env name).enclosing

theorem pollReady_beyond (unit : String) (looks : Nat) :
    (pollReady (env.beyond other) unit looks : Act ε Bool) = pollReady env unit looks := by
  induction looks with
  | zero => rfl
  | succ looks ih =>
    rw [pollReady, pollReady, ih]
    rfl

theorem startRemaining_beyond (ruleset : Ruleset) (remaining : Nat) :
    startRemaining (env.beyond other) ruleset remaining = startRemaining env ruleset remaining := by
  induction remaining with
  | zero => rfl
  | succ remaining ih =>
    simp only [startRemaining, ih, pollReady_beyond]
    rfl

theorem soakRounds_beyond (ruleset : Ruleset) (rounds : Nat) :
    soakRounds (env.beyond other) ruleset rounds = soakRounds env ruleset rounds := by
  induction rounds with
  | zero => rfl
  | succ rounds ih =>
    rw [soakRounds, soakRounds, ih]
    rfl

theorem waitUntilReady_enclosing (ruleset : Ruleset) :
    Enclosing (waitUntilReady env ruleset) (waitUntilReady (env.beyond other) ruleset) := by
  rw [waitUntilReady, waitUntilReady, startRemaining_beyond]
  exact (waitUntilReady_quiet env ruleset).enclosing

theorem probe_enclosing (ruleset : Ruleset) :
    Enclosing (probe env ruleset) (probe (env.beyond other) ruleset) :=
  (probe_quiet env ruleset).enclosing

theorem healthyNow_enclosing (ruleset : Ruleset) :
    Enclosing (healthyNow env ruleset) (healthyNow (env.beyond other) ruleset) :=
  (waitUntilReady_enclosing env other ruleset).andThen fun _ => probe_enclosing env other ruleset

theorem soak_enclosing (ruleset : Ruleset) :
    Enclosing (soak env ruleset) (soak (env.beyond other) ruleset) := by
  have same : soak (env.beyond other) ruleset = soak env ruleset := by
    simp only [soak, soakRounds_beyond]
    rfl
  rw [same]
  exact (soak_quiet env ruleset).enclosing

theorem recordFailure_enclosing (plain : NoSlash name) (reason : String) :
    Enclosing (recordFailure name reason : Act ε Unit) (recordFailure name reason) :=
  Alike.read fun _ _ => entry_enclosing plain fun _ h => ⟨h.active, h.knownGood, h.candidate⟩

theorem terminal_enclosing (plain : NoSlash name) (reason : String) :
    Enclosing (terminal env name reason) (terminal (env.beyond other) name reason) := by
  refine (recordFailure_enclosing plain reason).andThen fun _ => ?_
  exact ((store_enclosing env other).mapError _).andThen fun _ => Alike.fail

theorem restoreKnownGood_enclosing (plain : NoSlash name) (reason : String) (image : Path) :
    Enclosing (restoreKnownGood env name reason version image)
      (restoreKnownGood (env.beyond other) name reason version image) := by
  refine (stopMerged_enclosing env other).andThen fun _ => ?_
  refine ((installActive_enclosing env other image plain).mapError _).andThen fun _ => ?_
  refine ((sysextRefresh_enclosing env other).mapError _).andThen fun _ => ?_
  refine ((daemonReload_enclosing env other).mapError _).andThen fun _ => ?_
  refine ((loadNamed_enclosing env other).mapError _).andThen fun ruleset => ?_
  exact (healthyNow_enclosing env other ruleset).mapError _

theorem concludeRecovery_enclosing (plain : NoSlash name) (clean : NoSlash version)
    (reason : String) :
    Enclosing (concludeRecovery env name reason version)
      (concludeRecovery (env.beyond other) name reason version) := by
  refine (entry_enclosing plain ?_).andThen fun _ => ?_
  · exact fun e h => ⟨noSlash_some clean, h.knownGood, nofun⟩
  refine ((store_enclosing env other).mapError _).andThen fun _ => ?_
  refine (pruneCandidates_enclosing env other none).attempt.andThen fun _ => ?_
  exact (pruneRollbacks_enclosing env other _).attempt.andThen fun _ => Alike.pure trivial

theorem revertTo_enclosing (plain : NoSlash name) (clean : NoSlash version) (reason : String)
    (image : Path) :
    Enclosing (revertTo env name reason version image)
      (revertTo (env.beyond other) name reason version image) := by
  refine (entry_enclosing plain ?_).andThen fun _ => ?_
  · exact fun e h => ⟨h.active, h.knownGood, h.candidate⟩
  refine ((store_enclosing env other).mapError _).andThen fun _ => ?_
  refine (restoreKnownGood_enclosing env other plain reason image).attempt.andThen
    fun restored => ?_
  cases restored with
  | error message => exact terminal_enclosing env other plain message
  | ok _ => exact concludeRecovery_enclosing env other plain clean reason

theorem recover_enclosing (plain : NoSlash name) (reason : String) :
    Enclosing (recover env name reason) (recover (env.beyond other) name reason) := by
  refine Alike.read fun w h => ?_
  cases known : (w.memory.get name).bind ExtensionState.knownGoodVersion with
  | none => exact terminal_enclosing env other plain _
  | some version =>
    have clean := h.memory.named (fun _ => ExtensionState.Enclosed.knownGood) known
    dsimp only
    split
    · exact revertTo_enclosing env other plain clean reason _
    · exact terminal_enclosing env other plain _

theorem retainActive_enclosing (plain : NoSlash name) (clean : NoSlash version) :
    Enclosing (retainActive env name version) (retainActive (env.beyond other) name version) := by
  refine Alike.read fun w h => ?_
  split
  · exact Alike.pure trivial
  · exact durableCopy_enclosing env other _ (direct_rollback h plain clean)

theorem adoptActive_enclosing (plain : NoSlash name) (clean : NoSlash version) :
    Enclosing (adoptActive env name version) (adoptActive (env.beyond other) name version) := by
  refine ((loadNamed_enclosing env other).mapError _).andThen fun ruleset => ?_
  refine Alike.read fun w _ => ?_
  refine Alike.demand.andThen fun _ => ?_
  refine ((healthyNow_enclosing env other ruleset).mapError _).andThen fun _ => ?_
  refine ((retainActive_enclosing env other plain clean).mapError _).andThen fun _ => ?_
  refine (entry_enclosing plain fun e h => ?_).andThen fun _ => ?_
  · exact ⟨noSlash_some clean, noSlash_some clean, h.candidate⟩
  · exact (store_enclosing env other).mapError _

/-- A version that an image declares is checked where it is read. -/
theorem mergedVersion_enclosed :
    Alike Enclosed (fun version => ∀ v, version = some v → NoSlash v)
      (mergedVersion env name : Act ε (Option String)) (mergedVersion (env.beyond other) name) := by
  refine fun w h => ⟨rfl, fun v declared => ?_, h.clock _⟩
  obtain ⟨contents, -, found⟩ := Option.bind_eq_some_iff.mp declared
  obtain ⟨line, -, read⟩ := List.exists_of_findSome?_eq_some found
  exact noSlash_of_valid (Option.filter_eq_some_iff.mp read).2

theorem retainHealthy_enclosing (plain : NoSlash name) (clean : NoSlash version)
    (ruleset : Ruleset) :
    Enclosing (retainHealthy env name version ruleset)
      (retainHealthy (env.beyond other) name version ruleset) := by
  refine (soak_enclosing env other ruleset).andThen fun _ => Alike.read fun w h => ?_
  refine (note_enclosing _ _).andThen fun _ => ?_
  refine ((durableCopy_enclosing env other _ (direct_rollback h plain clean)).mapError _).andThen
    fun _ => ?_
  refine entry_enclosing plain fun e _ => ?_
  exact ⟨noSlash_some clean, noSlash_some clean, nofun⟩

theorem retainMerged_enclosing (plain : NoSlash name) (ruleset : Ruleset) :
    Enclosing (retainMerged env name ruleset) (retainMerged (env.beyond other) name ruleset) := by
  refine (mergedVersion_enclosed env other).bind fun version clean => ?_
  cases version with
  | none => exact Alike.pure trivial
  | some version =>
    refine Alike.read fun w _ => ?_
    dsimp only
    split
    · exact retainHealthy_enclosing env other plain (clean version rfl) ruleset
    · exact Alike.pure trivial

theorem verifyOrRecover_enclosing (plain : NoSlash name) (merged : List String) :
    Enclosing (verifyOrRecover env name merged)
      (verifyOrRecover (env.beyond other) name merged) := by
  refine Alike.read fun w _ => ?_
  split
  · exact Alike.fail
  refine (loadNamed_enclosing env other).attempt.andThen fun loaded => ?_
  cases loaded with
  | error error => exact recover_enclosing env other plain _
  | ok ruleset =>
    dsimp only
    split
    · exact recover_enclosing env other plain _
    refine (healthyNow_enclosing env other ruleset).attempt.andThen fun healthy => ?_
    cases healthy with
    | error reason => exact recover_enclosing env other plain reason
    | ok _ =>
      refine (retainMerged_enclosing env other plain ruleset).andThen fun _ => ?_
      exact entry_enclosing plain fun e h => ⟨h.active, h.knownGood, h.candidate⟩

theorem examineRequired_enclosing (merged : List String) {names : List String}
    (plain : ∀ name ∈ names, NoSlash name) :
    Enclosing (examineRequired env merged names : Act ε _)
      (examineRequired (env.beyond other) merged names) := by
  induction names with
  | nil => exact Alike.pure trivial
  | cons name rest ih =>
    have others := ih fun other there => plain other (List.mem_cons_of_mem name there)
    refine (verifyOrRecover_enclosing env other (plain name List.mem_cons_self)
      merged).attempt.andThen fun verified => ?_
    cases verified with
    | ok _ => exact others
    | error _ => exact others.andThen fun _ => Alike.pure trivial

theorem loadForgetting_enclosing :
    Enclosing (loadForgetting env) (loadForgetting (env.beyond other)) := by
  refine (loadState_enclosed env other).bind fun s enclosed => Alike.read fun w _ => ?_
  cases w.osVersion with
  | none => exact hold_enclosing enclosed
  | some version => exact hold_enclosing (enclosed.forget version)

theorem healthGate_enclosing : Enclosing (healthGate env) (healthGate (env.beyond other)) := by
  refine (loadForgetting_enclosing env other).andThen fun _ => Alike.read fun w h => ?_
  dsimp only
  split
  · exact Alike.pure trivial
  have plain : ∀ name ∈ w.memory.required, NoSlash name := by
    intro name required
    obtain ⟨e, there, -⟩ := State.mem_required.mp required
    exact (h.memory name e there).1
  refine (mergedExtensions_quiet env).enclosing.andThen fun merged => ?_
  refine (examineRequired_enclosing env other merged plain).andThen fun failures => ?_
  exact (store_enclosing env other).andThen fun _ => Alike.demand.mono fun _ _ => trivial

theorem report_enclosing {m m' : Act String Unit} (message : String → String)
    (alike : Enclosing m m') :
    Enclosing (report message m : Act ε _) (report message m') := by
  refine alike.attempt.andThen fun result => ?_
  cases result with
  | ok _ => exact Alike.pure trivial
  | error error => exact Alike.pure trivial

theorem completeRemoval_enclosing (plain : NoSlash name) :
    Enclosing (completeRemoval env name) (completeRemoval (env.beyond other) name) := by
  refine (stopMerged_enclosing env other).andThen fun _ => ?_
  refine (removeActive_enclosing env other plain).andThen fun _ => ?_
  refine (sysextRefresh_enclosing env other).andThen fun _ => ?_
  refine (daemonReload_enclosing env other).andThen fun _ => ?_
  refine (pruneCandidates_enclosing env other none).andThen fun _ => ?_
  refine (pruneRollbacks_enclosing env other none).andThen fun _ => ?_
  exact entry_enclosing plain fun e _ => ⟨nofun, nofun, nofun⟩

theorem reconcileStaged_enclosing (plain : NoSlash name) (candidate : Option String) :
    Enclosing (reconcileStaged name candidate : Act ε _) (reconcileStaged name candidate) := by
  refine Alike.read fun w _ => ?_
  split
  · exact Alike.pure trivial
  refine (entry_enclosing plain fun e h => ?_).andThen fun _ => Alike.pure trivial
  refine ⟨fun v same => h.active v ?_, fun v same => h.knownGood v ?_, nofun⟩
  all_goals
    dsimp only at same
    split at same
    · cases same
    · exact same

theorem reportCandidates_enclosing :
    Enclosing (reportCandidates env name : Act ε _) (reportCandidates (env.beyond other) name) :=
  report_enclosing _ (pruneCandidates_enclosing env other none)

theorem reconcileActive_enclosing (plain : NoSlash name) :
    Enclosing (reconcileActive env name : Act ε _) (reconcileActive (env.beyond other) name) := by
  refine Alike.read fun w _ => ?_
  split
  · exact reportCandidates_enclosing env other
  split
  · refine (report_enclosing _ (recover_enclosing env other plain _)).andThen fun _ => ?_
    exact (reportCandidates_enclosing env other).andThen fun _ => Alike.pure trivial
  · refine (entry_enclosing plain fun e _ => ?_).andThen fun _ =>
      reportCandidates_enclosing env other
    exact ⟨nofun, nofun, nofun⟩

theorem reconcileIdle_enclosing (plain : NoSlash name) :
    Enclosing (reconcileIdle env name : Act ε _) (reconcileIdle (env.beyond other) name) := by
  refine Alike.read fun w _ => ?_
  split
  · refine (entry_enclosing plain fun e _ => ?_).andThen fun _ =>
      reportCandidates_enclosing env other
    exact ⟨nofun, nofun, nofun⟩
  · exact reportCandidates_enclosing env other

theorem reconcilePhase_enclosing {s : Snapshot} (plain : NoSlash s.name) :
    Enclosing (reconcilePhase env s : Act ε _) (reconcilePhase (env.beyond other) s) := by
  have recovers : ∀ reason, Enclosing
      (report (fun error => s!"{s.name}: {error}") (recover env s.name reason) : Act ε _)
      (report (fun error => s!"{s.name}: {error}") (recover (env.beyond other) s.name reason)) :=
    fun reason => report_enclosing _ (recover_enclosing env other plain reason)
  unfold reconcilePhase
  cases s.phase with
  | staged => exact reconcileStaged_enclosing plain _
  | activating => exact recovers _
  | starting => exact recovers _
  | soaking => exact recovers _
  | reverting => exact recovers _
  | removing => exact report_enclosing _ (completeRemoval_enclosing env other plain)
  | active => exact reconcileActive_enclosing env other plain
  | recovered => exact reconcileActive_enclosing env other plain
  | idle => exact reconcileIdle_enclosing env other plain
  | unrecoverable => exact reportCandidates_enclosing env other

theorem reconcileEntries_enclosing {entries : List Snapshot}
    (plain : ∀ s ∈ entries, NoSlash s.name) :
    Enclosing (reconcileEntries env entries : Act ε _)
      (reconcileEntries (env.beyond other) entries) := by
  induction entries with
  | nil => exact Alike.pure trivial
  | cons s rest ih =>
    have turn : Enclosing (reconcileEntry env s : Act ε _)
        (reconcileEntry (env.beyond other) s) := by
      refine (reconcilePhase_enclosing env other (plain s List.mem_cons_self)).andThen fun _ => ?_
      exact (report_enclosing _ (pruneRollbacks_enclosing env other _)).andThen fun _ =>
        Alike.pure trivial
    have others := ih fun t there => plain t (List.mem_cons_of_mem s there)
    exact turn.andThen fun _ => others.andThen fun _ => Alike.pure trivial

theorem removeOrphans_enclosing (kept : List Path) {candidates : List Path}
    (direct : ∀ p ∈ candidates, Direct p.name) :
    Enclosing (removeOrphans env kept candidates : Act ε _)
      (removeOrphans (env.beyond other) kept candidates) := by
  induction candidates with
  | nil => exact Alike.pure trivial
  | cons candidate rest ih =>
    have others := ih fun p there => direct p (List.mem_cons_of_mem candidate there)
    have removes := durableRemove_enclosing env other (direct candidate List.mem_cons_self)
    unfold removeOrphans
    split
    · exact others
    · exact (report_enclosing _ removes).andThen fun _ => others.andThen fun _ => Alike.pure trivial

theorem reconcileOrphans_enclosing (kept : List Path) :
    Enclosing (reconcileOrphans env kept : Act ε _) (reconcileOrphans (env.beyond other) kept) := by
  refine (candidateFiles_enclosed env other).attempt.bind fun files direct => ?_
  cases files with
  | ok candidates => exact removeOrphans_enclosing env other kept (direct candidates rfl)
  | error error => exact Alike.pure trivial

theorem reconcileRecord_enclosing :
    Enclosing (reconcileRecord env) (reconcileRecord (env.beyond other)) := by
  refine Alike.read fun w h => ?_
  have plain : ∀ s ∈ w.memory.snapshots, NoSlash s.name := by
    intro s there
    obtain ⟨e, recorded, -⟩ := mem_snapshots.mp there
    exact (h.memory s.name e recorded).1
  refine (reconcileEntries_enclosing env other plain).andThen fun failures => ?_
  refine (reconcileOrphans_enclosing env other _).andThen fun orphans => ?_
  exact (store_enclosing env other).andThen fun _ => Alike.demand.mono fun _ _ => trivial

theorem reconcileState_enclosing :
    Enclosing (reconcileState env) (reconcileState (env.beyond other)) := by
  refine ((pruneTransactionFiles_enclosing env other).mapError _).andThen fun _ => ?_
  exact (loadForgetting_enclosing env other).andThen fun _ => reconcileRecord_enclosing env other

end
end CarbideOS.Agent
