import CarbideOS.Lib.Triple
import CarbideOS.Agent.Base

namespace CarbideOS.Agent
open Interruptible

/-- The same node at another time. -/
def Node.clock (w : Node) (t : Nat) : Node := { w with now := t }

namespace Node
variable (w : Node) (t : Nat) (name version : String)

@[simp] theorem clock_memory : (w.clock t).memory = w.memory := rfl
@[simp] theorem clock_stored : (w.clock t).stored = w.stored := rfl
@[simp] theorem clock_extensions : (w.clock t).extensions = w.extensions := rfl
@[simp] theorem clock_staging : (w.clock t).staging = w.staging := rfl
@[simp] theorem clock_merged : (w.clock t).merged = w.merged := rfl
@[simp] theorem clock_history : (w.clock t).history = w.history := rfl
@[simp] theorem clock_osRelease : (w.clock t).osRelease = w.osRelease := rfl
@[simp] theorem clock_osVersion : (w.clock t).osVersion = w.osVersion := rfl
@[simp] theorem clock_scope : (w.clock t).scope = w.scope := rfl
@[simp] theorem clock_readFile (p : Path) : (w.clock t).readFile p = w.readFile p := by
  cases p with | mk place name => cases place <;> rfl

@[simp] theorem clock_fileExists (p : Path) : (w.clock t).fileExists p = w.fileExists p := by
  simp [fileExists]

@[simp] theorem clock_rollbackPath :
    (w.clock t).rollbackPath name version = w.rollbackPath name version := rfl

@[simp] theorem clock_candidatePath :
    (w.clock t).candidatePath name version = w.candidatePath name version := rfl

@[simp] theorem clock_activePath : (w.clock t).activePath name = w.activePath name := rfl
@[simp] theorem clock_activeImage : (w.clock t).activeImage name = w.activeImage name := rfl
@[simp] theorem clock_rollbackImage :
    (w.clock t).rollbackImage name version = w.rollbackImage name version := rfl

@[simp] theorem clock_candidateImage :
    (w.clock t).candidateImage name version = w.candidateImage name version := rfl

@[simp] theorem clock_mergedImage : (w.clock t).mergedImage name = w.mergedImage name := rfl
@[simp] theorem clock_clock (s : Nat) : (w.clock t).clock s = w.clock s := rfl
theorem tick_eq_clock : w.tick = w.clock (w.now + 1) := rfl

theorem clock_now : w.clock w.now = w := rfl

end Node

/-- Nothing but time has passed between two nodes. -/
def Later (w u : Node) : Prop := ∃ t, u = w.clock t

instance : IsPreorder Node Later where
  refl w := ⟨w.now, rfl⟩
  trans := by
    rintro w _ _ ⟨t, rfl⟩ ⟨s, rfl⟩
    exact ⟨s, rfl⟩

theorem Later.tick (w : Node) : Later w w.tick := ⟨w.now + 1, rfl⟩

/-- A program that only looks: it comes back, and nothing but time has passed. -/
abbrev Quiet {ε α : Type} (m : Act ε α) : Prop := Returns Later m

namespace Quiet

variable {ε ε' α β : Type}

theorem ask (f : Node → α) : Quiet (Act.ask f : Act ε α) :=
  fun w => Or.inl ⟨f w, w.tick, rfl, Later.tick w⟩

theorem askFor (f : Node → Except String α) : Quiet (Act.askFor f) := by
  intro w
  unfold Act.askFor
  cases f w with
  | ok a => exact Or.inl ⟨a, w.tick, rfl, Later.tick w⟩
  | error e => exact Or.inr ⟨e, w.tick, rfl, Later.tick w⟩

/-- A quiet program that returned has left everything but the clock alone. -/
theorem of_ok {m : Act ε α} (h : Quiet m) {w u : Node} {a : α} (hr : m w = .ok a u) :
    ∃ t, u = w.clock t := by
  rcases h w with ⟨b, v, he, hl⟩ | ⟨e, v, he, hl⟩
  · rw [hr] at he
    cases he
    exact hl
  · rw [hr] at he
    cases he

theorem of_error {m : Act ε α} (h : Quiet m) {w u : Node} {e : ε} (hr : m w = .error e u) :
    ∃ t, u = w.clock t := by
  rcases h w with ⟨b, v, he, hl⟩ | ⟨d, v, he, hl⟩
  · rw [hr] at he
    cases he
  · rw [hr] at he
    cases he
    exact hl

theorem not_halt {m : Act ε α} (h : Quiet m) {w u : Node} : m w ≠ .halt u := by
  intro hr
  rcases h w with ⟨b, v, he, -⟩ | ⟨e, v, he, -⟩ <;> rw [hr] at he <;> cases he

end Quiet

section
variable (env : Environment) {ε : Type}

theorem unitIsActive_quiet (unit : String) : Quiet (unitIsActive env unit : Act ε Bool) :=
  Quiet.ask _

theorem unitFailed_quiet (unit : String) : Quiet (unitFailed env unit : Act ε Bool) :=
  Quiet.ask _

theorem startUnit_quiet (unit : String) : Quiet (startUnit env unit) := Quiet.askFor _

theorem stopUnit_quiet (unit : String) : Quiet (stopUnit env unit) := Quiet.askFor _

theorem daemonReload_quiet : Quiet (daemonReload env) := Quiet.askFor _

theorem availableBytes_quiet : Quiet (availableBytes env) := Quiet.askFor _

theorem mergedExtensions_quiet : Quiet (mergedExtensions env : Act ε _) :=
  fun w => Or.inl ⟨_, w.tick, rfl, Later.tick w⟩

theorem mergedVersion_quiet (name : String) : Quiet (mergedVersion env name : Act ε _) :=
  Quiet.ask _

theorem loadNamed_quiet (name : String) : Quiet (loadNamed env name) := by
  intro w
  unfold loadNamed
  cases env.ruleset name w with
  | error e => exact Or.inr ⟨e, w.tick, rfl, Later.tick w⟩
  | ok contents =>
    dsimp only
    cases Ruleset.load contents with
    | ok r => exact Or.inl ⟨r, w.tick, rfl, Later.tick w⟩
    | error reason => exact Or.inr ⟨_, w.tick, rfl, Later.tick w⟩

theorem loadState_quiet : Quiet (loadState env) := by
  intro w
  unfold loadState
  cases env.unreadable .state w with
  | some e => exact Or.inr ⟨e, w.tick, rfl, Later.tick w⟩
  | none => exact Or.inl ⟨w.stored, w.tick, rfl, Later.tick w⟩

theorem fileSize_quiet (p : Path) : Quiet (fileSize env p) := by
  intro w
  unfold fileSize
  cases env.unreadable (.metadata p) w with
  | some e => exact Or.inr ⟨e, w.tick, rfl, Later.tick w⟩
  | none =>
    cases w.readFile p with
    | none => exact Or.inr ⟨_, w.tick, rfl, Later.tick w⟩
    | some bytes => exact Or.inl ⟨bytes.length, w.tick, rfl, Later.tick w⟩

theorem candidateFiles_quiet : Quiet (candidateFiles env) := by
  intro w
  unfold candidateFiles
  cases env.unreadable .candidates w with
  | some e => exact Or.inr ⟨e, w.tick, rfl, Later.tick w⟩
  | none => exact Or.inl ⟨_, w.tick, rfl, Later.tick w⟩

theorem pollReady_quiet (unit : String) (looks : Nat) :
    Quiet (pollReady env unit looks : Act ε Bool) := by
  induction looks with
  | zero => exact Returns.pure _
  | succ looks ih =>
    refine Returns.bind (unitIsActive_quiet env unit) fun active => ?_
    cases active with
    | true => exact Returns.pure _
    | false =>
      refine Returns.bind (unitFailed_quiet env unit) fun failed => ?_
      cases failed with
      | true => exact Returns.pure _
      | false => exact ih

theorem stopBetween_quiet (unit : String) (remaining : Nat) :
    Quiet (stopBetween env unit remaining : Act ε Unit) := by
  unfold stopBetween
  split
  · exact Returns.pure _
  · exact Returns.bind (Returns.attempt (stopUnit_quiet env unit)) fun _ => Returns.pure _

theorem startRemaining_quiet (ruleset : Ruleset) (remaining : Nat) :
    Quiet (startRemaining env ruleset remaining) := by
  induction remaining with
  | zero => exact Returns.fail _
  | succ remaining ih =>
    refine Returns.bind (startUnit_quiet env _) fun _ => ?_
    refine Returns.bind (Quiet.ask _) fun looks => ?_
    refine Returns.bind (pollReady_quiet env _ looks) fun ready => ?_
    cases ready with
    | true => exact Returns.pure _
    | false =>
      refine Returns.bind (unitIsActive_quiet env _) fun active => ?_
      cases active with
      | true => exact Returns.pure _
      | false => exact Returns.bind (stopBetween_quiet env _ _) fun _ => ih

theorem waitUntilReady_quiet (ruleset : Ruleset) : Quiet (waitUntilReady env ruleset) :=
  startRemaining_quiet env ruleset _

theorem probe_quiet (ruleset : Ruleset) : Quiet (probe env ruleset) := by
  unfold probe
  cases ruleset.healthCommand with
  | none => exact Returns.pure _
  | some command => exact Quiet.askFor _

theorem requireActive_quiet (ruleset : Ruleset) : Quiet (requireActive env ruleset) :=
  Returns.bind (unitIsActive_quiet env _) fun _ => Returns.demand _ _

theorem soakRounds_quiet (ruleset : Ruleset) (rounds : Nat) :
    Quiet (soakRounds env ruleset rounds) := by
  induction rounds with
  | zero => exact Returns.pure _
  | succ rounds ih =>
    exact Returns.bind (requireActive_quiet env _) fun _ =>
      Returns.bind (probe_quiet env _) fun _ => ih

theorem soak_quiet (ruleset : Ruleset) : Quiet (soak env ruleset) := by
  unfold soak
  split
  · exact probe_quiet env _
  · exact Returns.bind (Quiet.ask _) fun rounds =>
      Returns.bind (soakRounds_quiet env _ rounds) fun _ =>
        Returns.bind (requireActive_quiet env _) fun _ => probe_quiet env _

theorem healthyNow_quiet (ruleset : Ruleset) : Quiet (healthyNow env ruleset) :=
  Returns.bind (waitUntilReady_quiet env _) fun _ => probe_quiet env _

theorem stopMerged_quiet (name : String) : Quiet (stopMerged env name : Act ε Unit) := by
  refine Returns.bind (Returns.attempt (loadNamed_quiet env name)) fun loaded => ?_
  cases loaded with
  | ok current =>
    exact Returns.bind (Returns.attempt (stopUnit_quiet env _)) fun _ => Returns.pure _
  | error e => exact Returns.pure _

theorem stopCurrent_quiet (name : String) : Quiet (stopCurrent env name) := by
  refine Returns.bind (Returns.attempt (loadNamed_quiet env name)) fun loaded => ?_
  cases loaded with
  | ok current => exact stopUnit_quiet env _
  | error e => exact Returns.pure _

theorem journalLines_quiet (unit : Option String) :
    Quiet (journalLines env unit : Act ε (List String)) := by
  cases unit with
  | none => exact Returns.pure _
  | some unit => exact Quiet.ask _

theorem failedAt_quiet {α : Type} {m : Act String α} (h : Quiet m) (stage : Stage) :
    Quiet (failedAt stage m) :=
  Returns.mapError h _

theorem outgoingSize_quiet (name : String) (previous : Option String) :
    Quiet (outgoingSize env name previous) := by
  refine Returns.read fun w => ?_
  cases previous with
  | none => exact Returns.pure _
  | some version =>
    dsimp only
    split
    · exact Returns.pure _
    · exact failedAt_quiet (fileSize_quiet env _) _

theorem requireActivationSpace_quiet (required : Nat) :
    Quiet (requireActivationSpace env required) :=
  Returns.bind (failedAt_quiet (availableBytes_quiet env) _) fun _ => Returns.demand _ _

section
variable {name : String}

theorem requireSpace_quiet (required : Nat) : Quiet (requireSpace env required) :=
  requireActivationSpace_quiet env required

theorem missingRollbackSize_quiet : Quiet (missingRollbackSize env name) := by
  refine Returns.bind (loadState_quiet env) fun s => ?_
  refine Returns.read fun w => ?_
  dsimp only
  split
  · exact Returns.pure _
  · split
    · exact fileSize_quiet env _
    · exact Returns.pure _

theorem validateImage_quiet (bytes : Bytes) : Quiet (validateImage env name bytes) :=
  Returns.bind (Returns.mapError (Quiet.askFor _) _) fun _ => Returns.demand _ _

theorem imageRelease_quiet (bytes : Bytes) : Quiet (imageRelease env bytes) :=
  Returns.bind (Returns.mapError (Quiet.askFor _) _) fun _ => Returns.pure _

theorem checkRelease_quiet (requested : Option String) (release : ImageRelease) :
    Quiet (checkRelease name requested release) := by
  refine Returns.bind (Returns.demand _ _) fun _ => ?_
  cases release.base.filter versionValid with
  | none => exact Returns.fail _
  | some base =>
    dsimp only
    split
    · exact Returns.pure _
    · exact Returns.fail _

theorem placement_quiet (base : String) (version : Option String) (running : Bool) :
    Quiet (placement name base version running) := by
  refine Returns.read fun w => ?_
  cases running with
  | false => exact Returns.pure _
  | true => cases version <;> first | exact Returns.pure _ | exact Returns.fail _

theorem requirePlacementSpace_quiet (staging : Path) (running : Bool) :
    Quiet (requirePlacementSpace env name staging running) := by
  refine Returns.bind (failedAt_quiet (fileSize_quiet env _) _) fun _ => ?_
  refine Returns.bind ?_ fun _ => requireSpace_quiet env _
  split
  · exact failedAt_quiet (missingRollbackSize_quiet env) _
  · exact Returns.pure _

theorem resolveRevision_quiet (base : String) : Quiet (resolveRevision env name base) := by
  refine Returns.bind (Returns.mapError (Quiet.askFor _) _) fun p => ?_
  obtain ⟨listed, versions⟩ := p
  refine Returns.bind (Returns.demand _ _) fun _ => ?_
  cases versions with
  | none => exact Returns.fail _
  | some versions =>
    dsimp only
    split
    · exact Returns.pure _
    · exact Returns.fail _

theorem acquireVersion_quiet (base : String) (version : Option String) :
    Quiet (acquireVersion env name base version) := by
  refine Returns.bind (Returns.demand _ _) fun _ => ?_
  refine Returns.bind (Quiet.ask _) fun _ => ?_
  refine Returns.bind (Returns.demand _ _) fun _ => ?_
  refine Returns.bind (requireSpace_quiet env _) fun _ => ?_
  cases version with
  | none => exact resolveRevision_quiet env base
  | some version => exact Returns.pure _

theorem openSource_quiet (path : String) : Quiet (openSource env path) := by
  intro w
  unfold openSource
  rcases env.source path w with _ | e | p
  · exact Or.inr ⟨_, w.tick, rfl, Later.tick w⟩
  · exact Or.inr ⟨_, w.tick, rfl, Later.tick w⟩
  · exact Or.inl ⟨p.1, w.tick, rfl, Later.tick w⟩

theorem verifyExtensionFor_quiet (pending name : String) :
    Quiet (verifyExtensionFor env pending name) := by
  refine Returns.read fun w => ?_
  cases w.readFile (scopedActivePath name pending) with
  | none => exact Returns.fail _
  | some bytes =>
    refine Returns.bind (Returns.mapError (Quiet.askFor _) _) fun _ => ?_
    refine Returns.bind (Returns.demand _ _) fun _ => ?_
    refine Returns.bind (Returns.mapError (Quiet.askFor _) _) fun _ => ?_
    exact Returns.demand _ _

theorem verifyEach_quiet (pending : String) (names : List String) :
    Quiet (verifyEach env pending names) := by
  induction names with
  | nil => exact Returns.pure ()
  | cons name rest ih => exact Returns.bind (verifyExtensionFor_quiet env pending name) fun _ => ih

end

end
end CarbideOS.Agent
