import CarbideOS.Proofs.Records

namespace CarbideOS.Agent
open Interruptible

/-- An unpublished copy, by its name. -/
def Temporary (f : String) : Prop := Text.startsWith f "." = true ∧ Text.endsWith f ".new" = true

/-- A retained image of an extension under a base, by its name. -/
def Retained (name osVersion f : String) : Prop :=
  Text.startsWith f (slotPrefix name osVersion) = true ∧ Text.endsWith f ".rollback" = true

/-- The other names in the extensions directory that work on an extension may write
or remove, under a running base. -/
inductive Touches (name osVersion : String) : String → Prop where
  | legacy : Touches name osVersion (legacyActivePath name).name
  | active (base : String) : Touches name osVersion (scopedActivePath name base).name
  | candidate {f : String} (slot : Text.startsWith f (slotPrefix name osVersion) = true)
      (finish : Text.endsWith f ".candidate" = true) : Touches name osVersion f
  | temporary {f : String} (h : Temporary f) : Touches name osVersion f

theorem temporary_temporaryName (f : String) : Temporary (temporaryName f) := by
  constructor
  · rw [temporaryName, String.append_assoc]
    exact Text.startsWith_append _ _
  · simp [temporaryName]

theorem retained_rollbackPath (w : Node) (name version : String) :
    Retained name w.scope (w.rollbackPath name version).name :=
  ⟨by simp [Node.rollbackPath, String.append_assoc], w.endsWith_rollback name version⟩

theorem touches_candidatePath (w : Node) (name version : String) :
    Touches name w.scope (w.candidatePath name version).name :=
  .candidate (by simp [Node.candidatePath, String.append_assoc]) (w.endsWith_candidate name version)

/-- No other work writes or removes a retained image. -/
theorem not_touches_of_rollback {name osVersion f : String}
    (hf : Text.endsWith f ".rollback" = true) : ¬ Touches name osVersion f := by
  intro h
  cases h with
  | legacy => exact ne_of_endings hf (endsWith_raw_legacy name) (by decide) rfl
  | active base => exact ne_of_endings hf (endsWith_raw_scoped name base) (by decide) rfl
  | candidate _ finish => exact ne_of_endings hf finish (by decide) rfl
  | temporary h => exact ne_of_endings hf h.2 (by decide) rfl

theorem not_temporary {f finish : String} (hf : Text.endsWith f finish = true)
    (hn : Text.endsWith finish ".new" = false ∧ Text.endsWith ".new" finish = false) :
    ¬ Temporary f :=
  fun h => ne_of_endings hf h.2 hn rfl

theorem legacy_ne_active (name osVersion : String) :
    legacyActivePath name ≠ scopedActivePath name osVersion := by
  intro h
  have h := congrArg (fun p : Path => p.name.toList.length) h
  simp [legacyActivePath, scopedActivePath] at h

theorem scoped_inj {name other base base' : String} (hn : Plain name) (ho : Plain other)
    (h : (scopedActivePath name base).name = (scopedActivePath other base').name) :
    name = other := by
  have hl : (name ++ "_" ++ base ++ ".raw").toList = name.toList ++
      '_' :: (base ++ ".raw").toList := by
    simp
  have hr : (other ++ "_" ++ base' ++ ".raw").toList =
      other.toList ++ '_' :: (base' ++ ".raw").toList := by
    simp
  have he := congrArg String.toList h
  simp only [scopedActivePath] at he
  rw [hl, hr] at he
  have hp : name.toList ++ '_' :: (base ++ ".raw").toList <+:
      other.toList ++ '_' :: (base' ++ ".raw").toList := by rw [he]
  exact String.toList_inj.mp (Text.field_of_prefix hn ho hp).1

theorem legacy_ne_scoped {name other base : String} (hn : Plain name) :
    (legacyActivePath name).name ≠ (scopedActivePath other base).name := by
  intro h
  have h := Text.append_right_cancel h
  apply hn
  rw [h]
  simp

theorem legacy_inj {name other : String}
    (h : (legacyActivePath name).name = (legacyActivePath other).name) : name = other :=
  Text.append_right_cancel h

/-- No retained image of a plain extension is one of another. -/
theorem not_retained_rollback {name other base version osVersion : String} (hn : Plain name)
    (ho : Plain other) (hne : name ≠ other) :
    ¬ Retained other osVersion (slotPrefix name base ++ version ++ ".rollback") := by
  rintro ⟨slot, -⟩
  rw [String.append_assoc] at slot
  exact hne (slot_owner hn ho slot).1.symm

theorem not_retained_of {name osVersion f finish : String} (hf : Text.endsWith f finish = true)
    (hfin : Text.endsWith finish ".rollback" = false ∧ Text.endsWith ".rollback" finish = false) :
    ¬ Retained name osVersion f :=
  fun h => ne_of_endings hf h.2 hfin rfl

theorem not_touches_candidate {name other base version osVersion : String} (hn : Plain name)
    (ho : Plain other) (hne : name ≠ other) :
    ¬ Touches other osVersion (slotPrefix name base ++ version ++ ".candidate") := by
  have he : Text.endsWith (slotPrefix name base ++ version ++ ".candidate") ".candidate" =
      true := by
    simp
  intro h
  generalize hf : slotPrefix name base ++ version ++ ".candidate" = f at h he
  cases h with
  | legacy => exact ne_of_endings he (endsWith_raw_legacy other) (by decide) rfl
  | active base' => exact ne_of_endings he (endsWith_raw_scoped other base') (by decide) rfl
  | candidate slot _ =>
    subst hf
    rw [String.append_assoc] at slot
    exact hne (slot_owner hn ho slot).1.symm
  | temporary h => exact ne_of_endings he h.2 (by decide) rfl

theorem not_touches_scoped {name other base osVersion : String} (hn : Plain name) (ho : Plain other)
    (hne : name ≠ other) : ¬ Touches other osVersion (scopedActivePath name base).name := by
  have he := endsWith_raw_scoped name base
  intro h
  generalize hf : (scopedActivePath name base).name = f at h he
  cases h with
  | legacy => exact legacy_ne_scoped ho hf.symm
  | active base' => exact hne (scoped_inj hn ho hf)
  | candidate _ finish => exact ne_of_endings he finish (by decide) rfl
  | temporary h => exact ne_of_endings he h.2 (by decide) rfl

theorem not_touches_legacy {name other osVersion : String} (hn : Plain name)
    (hne : name ≠ other) : ¬ Touches other osVersion (legacyActivePath name).name := by
  have he := endsWith_raw_legacy name
  intro h
  generalize hf : (legacyActivePath name).name = f at h he
  cases h with
  | legacy => exact hne (legacy_inj hf)
  | active base' => exact legacy_ne_scoped hn hf
  | candidate _ finish => exact ne_of_endings he finish (by decide) rfl
  | temporary h => exact ne_of_endings he h.2 (by decide) rfl

/-- A step that changes nothing but files of certain names, and unpublished copies. -/
structure Confined (names : String → Prop) (w u : Node) : Prop extends SameRecord w u where
  merged : u.merged = w.merged
  files : ∀ f, ¬ names f → ¬ Temporary f → u.extensions[f]? = w.extensions[f]?

section Files
variable (env : Environment) {ε α : Type} {names : String → Prop} {name : String}

instance : IsPreorder Node (Confined names) where
  refl w := ⟨SameRecord.refl w, rfl, fun _ _ _ => rfl⟩
  trans _ _ _ h h' := ⟨h.toSameRecord.trans h'.toSameRecord, h'.merged.trans h.merged,
    fun f hn ht => (h'.files f hn ht).trans (h.files f hn ht)⟩

theorem Confined.refl (w : Node) : Confined names w w := Std.Refl.refl w

theorem Confined.tick {w u : Node} (h : Confined names w u) : Confined names w u.tick :=
  ⟨h.toSameRecord.tick, h.merged, h.files⟩

theorem Confined.setDir {w : Node} {place : Place} {d : Dir}
    (h : place = .extensions → ∀ f, ¬ names f → ¬ Temporary f → d[f]? = w.extensions[f]?) :
    Confined names w (w.setDir place d) := by
  cases place with
  | extensions => exact ⟨SameRecord.setDir w _ _, rfl, h rfl⟩
  | staging => exact ⟨SameRecord.setDir w _ _, rfl, fun _ _ _ => rfl⟩

/-- A path whose file may be written. -/
def Allowed (names : String → Prop) (p : Path) : Prop := p.place = .extensions → names p.name

theorem ne_temporaryName {f target : String} (hf : ¬ Temporary f) : temporaryName target ≠ f := by
  rintro rfl
  exact hf (temporary_temporaryName target)

theorem Confined.publish {w : Node} {target : Path} (h : Allowed names target) (bytes : Bytes) :
    Confined names w (w.publish target bytes) := by
  refine Confined.setDir fun hp f hn hf => ?_
  have ht : target.name ≠ f := by
    rintro rfl
    exact hn (h hp)
  rw [Dir.get_insert, Dir.get_erase, if_neg ht, if_neg (ne_temporaryName hf), hp]
  rfl

theorem Confined.leaveBehind (w : Node) (target : Path) (bytes : Bytes) (leftover : Option Nat) :
    Confined names w (w.leaveBehind target bytes leftover) := by
  cases leftover with
  | none =>
    refine Confined.setDir fun hp f _ hf => ?_
    rw [Dir.get_erase, if_neg (ne_temporaryName hf), hp]
    rfl
  | some n =>
    refine Confined.setDir fun hp f _ hf => ?_
    rw [Dir.get_insert, if_neg (ne_temporaryName hf), hp]
    rfl

theorem Confined.unlink {w : Node} {p : Path} (h : Allowed names p) :
    Confined names w (w.unlink p) := by
  refine Confined.setDir fun hp f hn _ => ?_
  have ht : p.name ≠ f := by
    rintro rfl
    exact hn (h hp)
  rw [Dir.get_erase, if_neg ht, hp]
  rfl

theorem Confined.sweep {w : Node} {place : Place} {test : String → Bool}
    (h : place = .extensions → ∀ f, test f = true → names f ∨ Temporary f) :
    Confined names w (w.sweep place test) := by
  refine Confined.setDir fun hp f hn hf => ?_
  have ht : ¬ test f = true := fun ht => (h hp f ht).elim hn hf
  rw [Dir.get_sweep, if_neg ht, hp]
  rfl

theorem durablePublish_confined {target : Path} (h : Allowed names target) (bytes : Bytes) :
    Within (Confined names) (durablePublish env bytes target) := by
  apply Act.durable_within
  · intro w
    exact (Confined.publish h bytes).tick
  · intro w reached leftover
    have hl : Confined names w _ := Confined.leaveBehind w target bytes leftover
    split
    · exact Confined.tick (IsTrans.trans _ _ _ hl (Confined.publish h bytes))
    · exact hl.tick

theorem durableCopy_confined {target : Path} (h : Allowed names target) (source : Path) :
    Within (Confined names) (durableCopy env source target) := by
  refine Within.read fun w => ?_
  cases w.readFile source with
  | none => exact Within.fail _
  | some bytes => exact durablePublish_confined env h bytes

theorem durableRemove_confined {p : Path} (h : Allowed names p) :
    Within (Confined names) (durableRemove env p) := by
  refine Within.read fun w => ?_
  split
  · apply Act.durable_within
    · intro u
      exact (Confined.unlink h).tick
    · intro u reached leftover
      split
      · exact (Confined.unlink h).tick
      · exact (Confined.refl u).tick
  · exact Within.pure ()

theorem pruneMatchingIn_confined {place : Place} {start finish : String}
    (h : place = .extensions → ∀ f, Text.startsWith f start = true → Text.endsWith f finish = true →
      names f ∨ Temporary f) (keep : Option String) :
    Within (Confined names) (pruneMatchingIn env place start finish keep) := by
  have ht : place = .extensions → ∀ f, prunable start finish keep f = true →
      names f ∨ Temporary f := by
    intro hp f hf
    simp only [prunable, Bool.and_eq_true] at hf
    exact h hp f hf.1.1 hf.1.2
  apply Act.durable_within
  · intro w
    refine Confined.tick (Confined.sweep fun hp f hf => ht hp f ?_)
    simpa using hf
  · intro w reached leftover
    refine Confined.tick (Confined.sweep fun hp f hf => ht hp f ?_)
    simp only [Bool.and_eq_true] at hf
    exact hf.1

theorem durableMode_confined (p : Path) : Within (Confined names) (durableMode env p) :=
  Act.durable_within (fun w => (Confined.refl w).tick) fun w _ _ => (Confined.refl w).tick

theorem Quiet.confined {m : Act ε α} (h : Quiet m) : Within (Confined names) m := by
  refine (Returns.within h).mono ?_
  rintro w _ ⟨t, rfl⟩
  exact ⟨⟨rfl, rfl, rfl, rfl⟩, rfl, fun _ _ _ => rfl⟩

/-- A step that keeps to the files of one extension and to its retained images. -/
def OwnFiles (name : String) (w u : Node) : Prop := Confined (Touches name w.scope) w u

instance : IsPreorder Node (OwnFiles name) where
  refl w := Confined.refl w
  trans w u v h h' := by
    have h' : Confined (Touches name u.scope) u v := h'
    rw [h.toSameRecord.scope] at h'
    exact IsTrans.trans (r := Confined (Touches name w.scope)) w u v h h'

theorem OwnFiles.refl (w : Node) : OwnFiles name w w := Confined.refl w

theorem OwnFiles.scope {w u : Node} (h : OwnFiles name w u) : u.scope = w.scope :=
  h.toSameRecord.scope

theorem OwnFiles.tick {w u : Node} (h : OwnFiles name w u) : OwnFiles name w u.tick :=
  Confined.tick h

theorem Quiet.own {m : Act ε α} (h : Quiet m) : Within (OwnFiles name) m := fun w =>
  Quiet.confined h w

/-- A path that work on an extension may write. -/
def Owned (name : String) (w : Node) (p : Path) : Prop := Allowed (Touches name w.scope) p

theorem owned_scoped (w : Node) (base : String) : Owned name w (scopedActivePath name base) :=
  fun _ => .active base

theorem owned_legacy (w : Node) : Owned name w (legacyActivePath name) := fun _ => .legacy

theorem owned_candidate (w : Node) (version : String) :
    Owned name w (w.candidatePath name version) :=
  fun _ => touches_candidatePath w name version

theorem owned_staging (w : Node) (file : String) : Owned name w ⟨.staging, file⟩ :=
  fun hp => nomatch hp

theorem Owned.of_scope {w u : Node} {p : Path} (h : Owned name w p) (hs : u.scope = w.scope) :
    Owned name u p := by
  intro hp
  rw [hs]
  exact h hp

theorem durableCopy_own {w : Node} {target : Path} (h : Owned name w target) (source : Path) :
    OwnFiles name w (durableCopy env source target w).state :=
  durableCopy_confined env h source w

theorem durableRemove_own {w : Node} {p : Path} (h : Owned name w p) :
    OwnFiles name w (durableRemove env p w).state :=
  durableRemove_confined env h w

theorem pruneCandidates_own (keep : Option String) :
    Within (OwnFiles name) (pruneCandidates env name keep) :=
  Within.read_at fun w =>
    pruneMatchingIn_confined env (fun _ _ hs hf => Or.inl (.candidate hs hf)) _ w

theorem pruneTransactionFiles_confined : Within (Confined names) (pruneTransactionFiles env) := by
  refine Within.bind (pruneMatchingIn_confined env (fun _ _ hs hf => Or.inr ⟨hs, hf⟩) _) fun _ => ?_
  apply pruneMatchingIn_confined
  rintro ⟨⟩

theorem clearStaged_own (staged : String) : Within (OwnFiles name) (clearStaged env staged) := by
  intro w
  apply pruneMatchingIn_confined
  rintro ⟨⟩

theorem durableMode_own (p : Path) : Within (OwnFiles name) (durableMode env p) := fun w =>
  durableMode_confined env p w

theorem removeActive_own : Within (OwnFiles name) (removeActive env name) := by
  refine Within.read fun w => ?_
  exact Within.bind (fun u => durableRemove_own env (owned_scoped u w.scope)) fun _ u =>
    durableRemove_own env (owned_legacy u)

theorem hideLegacy_own : Within (OwnFiles name) (hideLegacy env name) := by
  refine Within.read fun w => ?_
  dsimp only
  split
  · exact fun u => durableRemove_own env (owned_legacy u)
  · exact Within.pure ()

theorem installActive_own (source : Path) :
    Within (OwnFiles name) (installActive env source name) := by
  refine Within.read fun w => ?_
  exact Within.bind (hideLegacy_own env) fun _ u =>
    durableCopy_own env (owned_scoped u w.scope) source

/-- Pruning retained images can only take some away. -/
theorem pruneRollbacks_confined (keep : Option String) (w : Node) :
    Confined (Retained name w.scope) w (pruneRollbacks env name keep w).state :=
  pruneMatchingIn_confined env (fun _ _ hs hf => Or.inl ⟨hs, hf⟩) _ w

theorem pruneMatchingIn_shrinks (start finish : String) (keep : Option String) (f : String) :
    Within (fun w u => u.extensions[f]? = w.extensions[f]? ∨ u.extensions[f]? = none)
      (pruneMatchingIn env .extensions start finish keep) := by
  have swept : ∀ (w : Node) (test : String → Bool),
      (w.sweep .extensions test).extensions[f]? = w.extensions[f]? ∨
        (w.sweep .extensions test).extensions[f]? = none := by
    intro w test
    have he : (w.sweep .extensions test).extensions[f]? =
        if test f then none else w.extensions[f]? := Dir.get_sweep _ _ _
    rw [he]
    split
    · exact Or.inr rfl
    · exact Or.inl rfl
  exact Act.durable_within (fun w => swept w _) fun w _ _ => swept w _

/-- The kept image survives a prune of the others. -/
theorem pruneRollbacks_keeps (version : String) (w : Node) :
    (pruneRollbacks env name (some version) w).state.rollbackImage name version =
      w.rollbackImage name version := by
  have swept : ∀ (v : Node) (test : String → Bool),
      test (w.rollbackPath name version).name = false →
      (v.sweep .extensions test).readFile (w.rollbackPath name version) =
        v.readFile (w.rollbackPath name version) := by
    intro v test ht
    rw [Node.readFile_sweep, ht]
    simp
  have hk : prunable (slotPrefix name w.scope) ".rollback"
      (some (w.rollbackPath name version).name) (w.rollbackPath name version).name = false := by
    simp [prunable]
  have hc : Confined (Retained name w.scope) w _ := pruneRollbacks_confined env (some version) w
  have hs := hc.toSameRecord.scope
  rw [Node.rollbackImage, Node.rollbackPath, hs]
  change Node.readFile _ (w.rollbackPath name version) = _
  have hd : Within (fun v u => u.readFile (w.rollbackPath name version) =
      v.readFile (w.rollbackPath name version))
      (pruneMatchingIn env .extensions (slotPrefix name w.scope) ".rollback"
        (some (w.rollbackPath name version).name)) := by
    apply Act.durable_within
    · intro v
      exact swept v _ (by rw [hk]; rfl)
    · intro v reached _
      exact swept v _ (by rw [hk]; rfl)
  exact hd w

theorem durableCopy_retains {w u : Node} {version : String} (hs : u.scope = w.scope)
    (source : Path) :
    Confined (Retained name u.scope) u
      (durableCopy env source (w.rollbackPath name version) u).state := by
  refine durableCopy_confined env ?_ source u
  intro _
  rw [hs]
  exact retained_rollbackPath w name version

theorem retainActive_retains (version : String) (w : Node) :
    Confined (Retained name w.scope) w (retainActive env name version w).state := by
  rw [retainActive, read_apply]
  split
  · exact Confined.refl w
  · exact durableCopy_retains env rfl _

end Files

theorem activePath_of_files {w u : Node} {name : String} (hs : u.scope = w.scope)
    (hscoped : u.readFile (scopedActivePath name w.scope) =
      w.readFile (scopedActivePath name w.scope))
    (hlegacy : u.readFile (legacyActivePath name) = w.readFile (legacyActivePath name)) :
    u.activePath name = w.activePath name ∧ u.activeImage name = w.activeImage name := by
  have hp : u.activePath name = w.activePath name := by
    simp only [Node.activePath, Node.fileExists, hs, hscoped, hlegacy]
    rfl
  refine ⟨hp, ?_⟩
  rw [Node.activeImage, Node.activeImage, hp]
  simp only [Node.activePath]
  split
  · exact hscoped
  · split
    · exact hlegacy
    · exact hscoped

/-- What work on one extension leaves of the node to all others. -/
structure Elsewhere (name : String) (w u : Node) : Prop where
  osRelease : u.osRelease = w.osRelease
  files : ∀ f, ¬ Touches name w.scope f → ¬ Retained name w.scope f →
    u.extensions[f]? = w.extensions[f]?
  standing : ∀ other, other ≠ name → ∀ x, u.standing other x = w.standing other x

namespace Elsewhere
variable {name other : String} {w u v : Node}

theorem scope (h : Elsewhere name w u) : u.scope = w.scope := by
  unfold Node.scope Node.osVersion Node.osReleaseValue
  rw [h.osRelease]

theorem candidateImage (h : Elsewhere name w u) (hn : Plain name) (ho : Plain other)
    (hne : other ≠ name) (version : String) :
    u.candidateImage other version = w.candidateImage other version := by
  rw [Node.candidateImage, Node.candidateImage, Node.candidatePath, Node.candidatePath, h.scope]
  exact h.files _ (not_touches_candidate ho hn hne)
    (not_retained_of (w.endsWith_candidate other version) (by decide))

theorem scopedImage (h : Elsewhere name w u) (hn : Plain name) (ho : Plain other)
    (hne : other ≠ name) (base : String) :
    u.readFile (scopedActivePath other base) = w.readFile (scopedActivePath other base) :=
  h.files _ (not_touches_scoped ho hn hne)
    (not_retained_of (endsWith_raw_scoped other base) (by decide))

theorem legacyImage (h : Elsewhere name w u) (ho : Plain other) (hne : other ≠ name) :
    u.readFile (legacyActivePath other) = w.readFile (legacyActivePath other) :=
  h.files _ (not_touches_legacy ho hne) (not_retained_of (endsWith_raw_legacy other) (by decide))

protected theorem refl (w : Node) : Elsewhere name w w :=
  ⟨rfl, fun _ _ _ => rfl, fun _ _ _ => rfl⟩

protected theorem trans (h : Elsewhere name w u) (h' : Elsewhere name u v) :
    Elsewhere name w v := by
  refine ⟨h'.osRelease.trans h.osRelease, fun f hf hr => ?_, fun other ho x => ?_⟩
  · rw [h'.files f (by rwa [h.scope]) (by rwa [h.scope]), h.files f hf hr]
  · rw [h'.standing other ho, h.standing other ho]

end Elsewhere

theorem Confined.elsewhere {names : String → Prop} {name : String} {w u : Node}
    (h : Confined names w u)
    (hn : ∀ f, names f → Touches name w.scope f ∨ Retained name w.scope f) :
    Elsewhere name w u := by
  refine ⟨h.osRelease, fun f ht hr => ?_, fun other _ x => ?_⟩
  · exact h.files f (fun hf => (hn f hf).elim ht hr) fun hf => ht (.temporary hf)
  · rw [Node.standing, h.history, Node.standing]

/-- Work on one extension with one record in memory. -/
structure Beside (name : String) (w u : Node) : Prop extends Elsewhere name w u where
  memory : ∀ other, other ≠ name → u.memory.get other = w.memory.get other
  stored : ∀ other, other ≠ name →
    u.stored.get other = w.stored.get other ∨ u.stored.get other = w.memory.get other

/-- Work on one extension that may take the record from disk. -/
structure Aside (name : String) (w u : Node) : Prop extends Elsewhere name w u where
  memory : ∀ other, other ≠ name →
    u.memory.get other = w.memory.get other ∨ u.memory.get other = w.stored.get other
  stored : ∀ other, other ≠ name →
    u.stored.get other = w.stored.get other ∨ u.stored.get other = w.memory.get other

instance (name : String) : IsPreorder Node (Beside name) where
  refl w := ⟨Elsewhere.refl w, fun _ _ => rfl, fun _ _ => Or.inl rfl⟩
  trans w u v h h' := by
    refine ⟨h.toElsewhere.trans h'.toElsewhere, fun other ho => ?_, fun other ho => ?_⟩
    · rw [h'.memory other ho, h.memory other ho]
    · rcases h'.stored other ho with he | he
      · rw [he]
        exact h.stored other ho
      · rw [he, h.memory other ho]
        exact Or.inr rfl

instance (name : String) : IsPreorder Node (Aside name) where
  refl w := ⟨Elsewhere.refl w, fun _ _ => Or.inl rfl, fun _ _ => Or.inl rfl⟩
  trans w u v h h' := by
    refine ⟨h.toElsewhere.trans h'.toElsewhere, fun other ho => ?_, fun other ho => ?_⟩
    · rcases h'.memory other ho with he | he
      · rw [he]
        exact h.memory other ho
      · rw [he]
        exact (h.stored other ho).symm
    · rcases h'.stored other ho with he | he
      · rw [he]
        exact h.stored other ho
      · rw [he]
        exact (h.memory other ho).symm

theorem Beside.aside {name : String} {w u : Node} (h : Beside name w u) :
    Aside name w u :=
  ⟨h.toElsewhere, fun other ho => Or.inl (h.memory other ho), h.stored⟩

theorem Confined.beside {names : String → Prop} {name : String} {w u : Node}
    (h : Confined names w u)
    (hn : ∀ f, names f → Touches name w.scope f ∨ Retained name w.scope f) :
    Beside name w u := by
  refine ⟨h.elsewhere hn, fun other _ => ?_, fun other _ => Or.inl ?_⟩
  · rw [h.memory]
  · rw [h.toSameRecord.stored]

/-- The entries a name has, in memory and on disk. -/
def Entry (w : Node) (name : String) (e : ExtensionState) : Prop :=
  w.memory.get name = some e ∨ w.stored.get name = some e

/-- An entry that has the known-good version another had, or none, and still has an
active version if that other did. -/
def Carries (e e' : ExtensionState) : Prop :=
  e'.knownGoodVersion = none ∨ e'.knownGoodVersion = e.knownGoodVersion ∧
    (e.activeVersion.isSome = true → e'.activeVersion.isSome = true)

/-- Every entry after a step carries one before it. -/
def EntriesCarried (name : String) (w u : Node) : Prop :=
  ∀ e', Entry u name e' → ∃ e, (e = {} ∨ Entry w name e) ∧ Carries e e'

theorem SameRecord.carried {w u : Node} (h : SameRecord w u) (name : String) :
    EntriesCarried name w u := by
  intro e he
  refine ⟨e, Or.inr ?_, Or.inr ⟨rfl, id⟩⟩
  rw [Entry, h.memory, h.stored] at he
  exact he

instance (name : String) : IsPreorder Node (EntriesCarried name) where
  refl _ e h := ⟨e, Or.inr h, Or.inr ⟨rfl, id⟩⟩
  trans w u v h h' e'' he'' := by
    obtain ⟨e', he' | he', hc'⟩ := h' e'' he''
    · exact ⟨e', Or.inl he', hc'⟩
    · obtain ⟨e, he, hc⟩ := h e' he'
      refine ⟨e, he, ?_⟩
      rcases hc' with hn | ⟨hk, ha⟩
      · exact Or.inl hn
      · rcases hc with hn | ⟨hk', ha'⟩
        · exact Or.inl (hk.trans hn)
        · exact Or.inr ⟨hk.trans hk', fun hs => ha (ha' hs)⟩

/-- Work on one extension that carries its entries and adds no retained image. -/
structure Sober (name : String) (w u : Node) : Prop extends Beside name w u where
  carried : EntriesCarried name w u
  shrinks : ∀ f, Text.endsWith f ".rollback" = true →
    u.extensions[f]? = w.extensions[f]? ∨ u.extensions[f]? = none

/-- Work on one extension that besides takes no retained image away. -/
structure Steady (name : String) (w u : Node) : Prop extends Sober name w u where
  same : ∀ f, Text.endsWith f ".rollback" = true → u.extensions[f]? = w.extensions[f]?

instance (name : String) : IsPreorder Node (Sober name) where
  refl w := ⟨Std.Refl.refl w, Std.Refl.refl (r := EntriesCarried name) w, fun _ _ => Or.inl rfl⟩
  trans w u v h h' := by
    refine ⟨IsTrans.trans w u v h.toBeside h'.toBeside, IsTrans.trans w u v h.carried h'.carried,
      fun f hf => ?_⟩
    rcases h'.shrinks f hf with he | he
    · rw [he]
      exact h.shrinks f hf
    · exact Or.inr he

instance (name : String) : IsPreorder Node (Steady name) where
  refl w := ⟨Std.Refl.refl w, fun _ _ => rfl⟩
  trans w u v h h' := ⟨IsTrans.trans w u v h.toSober h'.toSober, fun f hf =>
    (h'.same f hf).trans (h.same f hf)⟩

/-- An operation on one extension that carries its entries and leaves its retained
images alone. -/
structure Tame (name : String) (w u : Node) : Prop extends Aside name w u where
  carried : EntriesCarried name w u
  same : ∀ f, Text.endsWith f ".rollback" = true → u.extensions[f]? = w.extensions[f]?

instance (name : String) : IsPreorder Node (Tame name) where
  refl w := ⟨Std.Refl.refl w, Std.Refl.refl (r := EntriesCarried name) w, fun _ _ => rfl⟩
  trans w u v h h' := ⟨IsTrans.trans w u v h.toAside h'.toAside,
    IsTrans.trans w u v h.carried h'.carried, fun f hf => (h'.same f hf).trans (h.same f hf)⟩

theorem Steady.tame {name : String} {w u : Node} (h : Steady name w u) :
    Tame name w u :=
  ⟨h.toBeside.aside, h.carried, h.same⟩

theorem OwnFiles.steady {name : String} {w u : Node} (h : OwnFiles name w u) :
    Steady name w u := by
  have same : ∀ f, Text.endsWith f ".rollback" = true → u.extensions[f]? = w.extensions[f]? :=
    fun f hf => h.files f (not_touches_of_rollback hf) fun ht =>
      ne_of_endings hf ht.2 (by decide) rfl
  exact ⟨⟨Confined.beside h fun f hf => Or.inl hf, h.toSameRecord.carried name,
    fun f hf => Or.inl (same f hf)⟩, same⟩

theorem retains_beside {name : String} {w u : Node}
    (h : Confined (Retained name w.scope) w u) : Beside name w u :=
  h.beside fun _ hf => Or.inr hf

end CarbideOS.Agent
