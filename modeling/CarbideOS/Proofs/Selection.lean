import CarbideOS.Proofs.Effects
import CarbideOS.Proofs.Calm

namespace CarbideOS.Agent
open Interruptible

/-- A base about to be selected: its version, its boot entry, and the node as the last
check of the extensions found it. -/
structure Selection where
  pending : String
  entry : String
  checked : Node

/-- The extension has something on this node that a new base would have to replace. A
file name with an underscore is that of a scoped image. -/
inductive Needed (w : Node) (name : String) : Prop where
  | scoped (named : name ≠ "") (present : w.fileExists (scopedActivePath name w.scope) = true)
  | legacy (named : name ≠ "") (plain : Plain name)
      (unscoped : w.fileExists (scopedActivePath name w.scope) = false)
      (present : w.fileExists (legacyActivePath name) = true)
  | merged (present : (w.mergedImage name).isSome = true)
  | required (present : name ∈ w.stored.required)

/-- A check finds the image, validates it and reads the right declarations from it. -/
def Validated (env : Environment) (pending name : String) (w : Node) : Prop :=
  ∃ bytes finished assignments, w.readFile (scopedActivePath name pending) = some bytes ∧
    (env.dissectValidate bytes w = .ok finished ∧ finished.ok = true) ∧
    env.dissectRelease bytes w.tick = .ok assignments ∧
    (parseSysextRelease assignments).name = some name ∧
    (parseSysextRelease assignments).base = some pending

/-- A source that could be read names the extension: the directory by a scoped image,
the status of the merge, or the record. -/
inductive Listed (env : Environment) (running : String) (w : Node) (name : String) : Prop where
  | installed (readable : env.unreadable .installed w = none) (named : name ≠ "")
      (present : w.fileExists (scopedActivePath name running) = true)
  | merged {images : List String} (readable : env.sysextStatus w.tick = some images)
      (present : name ∈ images.map Node.extensionName)
  | required (readable : env.unreadable .state w.tick.tick = none)
      (present : name ∈ w.stored.required)

section
variable (env : Environment) {ε : Type}

/-- The checks of a list of extensions, each with the node it is made on. -/
def checksOf (pending : String) : List String → Node → List (String × Node)
  | [], _ => []
  | name :: rest, w => (name,
    w) :: checksOf pending rest (verifyExtensionFor env pending name w).state

/-- Point the boot loader at an entry, once. -/
def selectEntry (pending entry : String) : Act Failure StagedBase := do
  let selected ← Prog.mapError (fun error =>
      (Failure.new .failed s!"could not run bootctl: {error}").atStage .staging)
    (Act.askFor (env.setOneshot entry))
  Prog.demand selected.ok
    (finishedFailure .failed "could not select the staged boot entry" .staging selected)
  pure ⟨some pending, true, some entry⟩

/-- The staging of a base up to the selection: it ends early or says what to select. -/
def chooseTarget (target : String) : Act Failure (Except StagedBase Selection) := do
  verifyExtensionsFor env target
  let finished ← Prog.mapError (fun error =>
      (Failure.new .failed s!"could not run systemd-sysupdate: {error}").atStage .staging)
    (installBase env target)
  Prog.demand finished.ok
    (finishedFailure .failed "could not stage the base image" .staging finished)
  match ← failedAt .checking (pendingBaseVersion env) with
  | none => pure (.error ⟨some target, false, none⟩)
  | some pending => do
    Prog.demand (pending == target)
      ((Failure.new .precondition
        s!"requested base {target}, but sysupdate left {pending} pending").atStage .checking)
    let checked ← Prog.read
    verifyExtensionsFor env pending
    match ← pendingBootEntry env pending with
    | none =>
      Prog.fail ((Failure.new .failed
        s!"no counted boot entry was written for {pending}").atStage .staging)
    | some entry => pure (.ok ⟨pending, entry, checked⟩)

def choose (version : Option String) : Act Failure (Except StagedBase Selection) := do
  Prog.demand (version.all versionValid)
    (Failure.new .malformed ("unusable base version " ++ (version.getD "").quote))
  match ← targetVersion env version with
  | none => pure (.error ⟨none, false, none⟩)
  | some target => chooseTarget env target

/-- Nothing follows the selection but the call of the boot loader. -/
theorem stageTarget_eq (target : String) :
    stageTarget env target = chooseTarget env target >>= fun
      | .error staged => pure staged
      | .ok s => selectEntry env s.pending s.entry := by
  unfold stageTarget chooseTarget
  simp only [Prog.bind_assoc]
  refine congrArg _ (funext fun _ => congrArg _ (funext fun _ => congrArg _ (funext fun _ =>
    congrArg _ (funext fun pending => ?_))))
  cases pending with
  | none => rfl
  | some pending =>
    simp only [Prog.bind_assoc]
    refine congrArg _ (funext fun _ => funext fun w => ?_)
    rw [read_apply, selectBase]
    refine congrFun (congrArg _ (funext fun _ => congrArg _ (funext fun entry => ?_))) w
    cases entry <;> rfl

theorem stageBase_eq (version : Option String) :
    stageBase env version = choose env version >>= fun
      | .error staged => pure staged
      | .ok s => selectEntry env s.pending s.entry := by
  unfold stageBase choose
  simp only [Prog.bind_assoc]
  refine congrArg _ (funext fun _ => congrArg _ (funext fun target => ?_))
  cases target with
  | none => rfl
  | some target => exact stageTarget_eq env target

variable {env}

theorem askFor_ok {ε α : Type} {f : Node → Except String α} {g : String → ε} {w u : Node} {a : α}
    (h : Prog.mapError g (Act.askFor f) w = .ok a u) : f w = .ok a ∧ u = w.tick := by
  have h : Act.askFor f w = .ok a u := Prog.mapError_eq_ok.mp h
  unfold Act.askFor at h
  cases hf : f w with
  | ok b =>
    rw [hf] at h
    cases h
    exact ⟨rfl, rfl⟩
  | error e =>
    rw [hf] at h
    cases h

theorem demand_ok {ε : Type} {c : Bool} {e : ε} {w u : Node}
    (h : (Prog.demand c e : Act ε Unit) w = .ok () u) : c = true ∧ w = u := by
  cases c with
  | true =>
    cases h
    exact ⟨rfl, rfl⟩
  | false => cases h

theorem verifyExtensionFor_ok {pending name : String} {w u : Node}
    (h : verifyExtensionFor env pending name w = .ok () u) : Validated env pending name w := by
  rw [verifyExtensionFor, read_apply] at h
  cases hb : w.readFile (scopedActivePath name pending) with
  | none =>
    rw [hb] at h
    cases h
  | some bytes =>
    rw [hb] at h
    obtain ⟨finished, v₁, h₁, h⟩ := Prog.bind_eq_ok.mp h
    obtain ⟨validated, rfl⟩ := askFor_ok h₁
    obtain ⟨_, v₂, h₂, h⟩ := Prog.bind_eq_ok.mp h
    obtain ⟨accepted, rfl⟩ := demand_ok h₂
    obtain ⟨assignments, v₃, h₃, h⟩ := Prog.bind_eq_ok.mp h
    obtain ⟨inspected, rfl⟩ := askFor_ok h₃
    obtain ⟨declared, -⟩ := demand_ok h
    simp only [Bool.and_eq_true, beq_iff_eq] at declared
    exact ⟨bytes, finished, assignments, hb, ⟨validated, accepted⟩, inspected, declared⟩

/-- Where all checks pass, each is made and finds a valid image. -/
theorem verifyEach_ok {pending : String} {names : List String} {w u : Node}
    (h : verifyEach env pending names w = .ok () u) {name : String} (hn : name ∈ names) :
    ∃ c ∈ checksOf env pending names w, c.1 = name ∧ Validated env pending name c.2 := by
  induction names generalizing w with
  | nil => cases hn
  | cons first rest ih =>
    obtain ⟨_, v, hv, h⟩ := Prog.bind_eq_ok.mp h
    rcases List.mem_cons.mp hn with rfl | hn
    · exact ⟨(name, w), List.mem_cons_self, rfl, verifyExtensionFor_ok hv⟩
    · obtain ⟨c, hc, checked⟩ := ih h hn
      refine ⟨c, List.mem_cons_of_mem _ ?_, checked⟩
      rw [hv]
      exact hc

theorem checksOf_names {pending : String} {names : List String} {w : Node} {c : String × Node}
    (h : c ∈ checksOf env pending names w) : c.1 ∈ names := by
  induction names generalizing w with
  | nil => cases h
  | cons first rest ih =>
    rcases List.mem_cons.mp h with rfl | h
    · exact List.mem_cons_self
    · exact List.mem_cons_of_mem _ (ih h)

/-- What the directory names: nothing if it cannot be listed. -/
def installedNames (env : Environment) (running : String) (w : Node) : List String :=
  match env.unreadable .installed w with
  | some _ => []
  | none =>
    w.extensions.keys.filterMap fun f =>
      (Text.stripSuffix f ("_" ++ running ++ ".raw")).filter fun name => !name.isEmpty

/-- What the status of the merge names: nothing if it cannot be read. -/
def statusNames (env : Environment) (w : Node) : List String :=
  (((env.sysextStatus w).getD []).map Node.extensionName).dedup

/-- What the record names: nothing if it cannot be read. -/
def recordNames (env : Environment) (w : Node) : List String :=
  match env.unreadable .state w with
  | some _ => []
  | none => w.stored.required

theorem mem_installedNames {running name : String} {w : Node} :
    name ∈ installedNames env running w ↔ env.unreadable .installed w = none ∧ name ≠ "" ∧
      w.fileExists (scopedActivePath name running) = true := by
  have file : name ++ ("_" ++ running ++ ".raw") = (scopedActivePath name running).name := by
    simp [scopedActivePath, String.append_assoc]
  unfold installedNames
  cases env.unreadable .installed w with
  | some e => simp
  | none =>
    simp [Option.filter_eq_some_iff, Text.stripSuffix_eq_some, file, Node.fileExists,
      Node.readFile, Node.dir, scopedActivePath, and_comm]

theorem mem_statusNames {name : String} {w : Node} : name ∈ statusNames env w ↔
    ∃ images, env.sysextStatus w = some images ∧ name ∈ images.map Node.extensionName := by
  unfold statusNames
  cases env.sysextStatus w <;> simp

theorem mem_recordNames {name : String} {w : Node} :
    name ∈ recordNames env w ↔ env.unreadable .state w = none ∧ name ∈ w.stored.required := by
  unfold recordNames
  cases env.unreadable .state w <;> simp

theorem installedExtensionsFor_apply (running : String) (w : Node) :
    (installedExtensionsFor env running : Act ε _) w =
      .ok (installedNames env running w) w.tick := by
  unfold installedExtensionsFor installedNames
  cases env.unreadable .installed w <;> rfl

theorem requiredOnDisk_apply (w : Node) :
    (requiredOnDisk env : Act ε _) w = .ok (recordNames env w) w.tick := by
  unfold recordNames
  cases hs : env.unreadable .state w with
  | some e =>
    have unread : loadState env w = .error e w.tick := by
      simp only [loadState, hs]
    exact Prog.bind_of_ok (Prog.attempt_eq_ok.mpr (Or.inr ⟨e, rfl, unread⟩)) _
  | none =>
    have read : loadState env w = .ok w.stored w.tick := by
      simp only [loadState, hs]
    exact Prog.bind_of_ok (Prog.attempt_eq_ok.mpr (Or.inl ⟨_, rfl, read⟩)) _

/-- What the three sources name, read one after the other. -/
def sources (env : Environment) (running : String) (w : Node) : List String :=
  installedNames env running w ++ statusNames env w.tick ++ recordNames env w.tick.tick

theorem mem_sources {running name : String} {w : Node} :
    name ∈ sources env running w ↔ Listed env running w name := by
  rw [sources, List.mem_append, List.mem_append, mem_installedNames, mem_statusNames,
    mem_recordNames]
  constructor
  · rintro ((⟨hu, hn, hf⟩ | ⟨l, hl, hn⟩) | ⟨hu, hn⟩)
    · exact .installed hu hn hf
    · exact .merged hl hn
    · exact .required hu hn
  · rintro (⟨hu, hn, hf⟩ | ⟨hl, hn⟩ | ⟨hu, hn⟩)
    · exact Or.inl (Or.inl ⟨hu, hn, hf⟩)
    · exact Or.inl (Or.inr ⟨_, hl, hn⟩)
    · exact Or.inr ⟨hu, hn⟩

/-- The extensions the check goes through: each that a source names, once. -/
def checkedNames (env : Environment) (running : String) (w : Node) : List String :=
  ((sources env running w).mergeSort (· ≤ ·)).dedup

theorem mem_checkedNames {running name : String} {w : Node} :
    name ∈ checkedNames env running w ↔ Listed env running w name := by
  rw [checkedNames, List.mem_dedup, List.mem_mergeSort, mem_sources]

/-- The check of another base goes through them. -/
theorem verifyExtensionsFor_eq {pending : String} {w : Node} (known : w.osVersion = some w.scope)
    (elsewhere : w.scope ≠ pending) : verifyExtensionsFor env pending w =
      verifyEach env pending (checkedNames env w.scope w) w.tick.tick.tick := by
  rw [verifyExtensionsFor, read_apply]
  simp only [known]
  rw [if_neg elsewhere, Prog.bind_of_ok (installedExtensionsFor_apply _ _)]
  have merged : (mergedExtensions env : Act Failure _) w.tick =
      .ok (statusNames env w.tick) w.tick.tick := rfl
  rw [Prog.bind_of_ok merged, Prog.bind_of_ok (requiredOnDisk_apply _)]
  rfl

/-- The checks made before a base is selected. -/
def extensionChecks (env : Environment) (pending : String) (w : Node) : List (String × Node) :=
  checksOf env pending (checkedNames env w.scope w) w.tick.tick.tick

/-- A check is made of nothing but what a source names. -/
theorem listed_of_check {pending : String} {w : Node} {c : String × Node}
    (h : c ∈ extensionChecks env pending w) : Listed env w.scope w c.1 :=
  mem_checkedNames.mp (checksOf_names h)

theorem osVersion_of_verified {pending : String} {w u : Node}
    (h : verifyExtensionsFor env pending w = .ok () u) : w.osVersion = some w.scope := by
  rw [verifyExtensionsFor, read_apply] at h
  cases hv : w.osVersion with
  | none =>
    rw [hv] at h
    cases h
  | some running => simp [Node.scope, hv]

/-- Where the check of another base passes, all that the sources name is validated. -/
theorem verifyExtensionsFor_ok {pending : String} {w u : Node}
    (h : verifyExtensionsFor env pending w = .ok () u) (elsewhere : w.osVersion ≠ some pending)
    {name : String} (listed : Listed env w.scope w name) :
    ∃ c ∈ extensionChecks env pending w, c.1 = name ∧ Validated env pending name c.2 := by
  have known := osVersion_of_verified h
  rw [verifyExtensionsFor_eq known fun he : w.scope = pending => elsewhere (he ▸ known)] at h
  exact verifyEach_ok h (mem_checkedNames.mpr listed)

theorem verifyExtensionsFor_later {pending : String} {w u : Node}
    (h : verifyExtensionsFor env pending w = .ok () u) : ∃ t, u = w.clock t := by
  have known := osVersion_of_verified h
  by_cases here : w.scope = pending
  · rw [verifyExtensionsFor, read_apply, known] at h
    dsimp only at h
    rw [if_pos here] at h
    cases h
    exact ⟨w.now, rfl⟩
  · rw [verifyExtensionsFor_eq known here] at h
    obtain ⟨t, rfl⟩ := (verifyEach_quiet env pending _).of_ok h
    exact ⟨t, rfl⟩

/-- What led to a selection: the target was asked for, it is what is pending, the
extensions were checked, and an entry for it was found. -/
structure Chosen (env : Environment) (version : Option String) (w : Node) (s : Selection) :
    Prop where
  target : ∃ u, targetVersion env version w = .ok (some s.pending) u
  pending : ∃ x, pendingBaseVersion env x = .ok (some s.pending) s.checked
  verified : ∃ u, verifyExtensionsFor env s.pending s.checked = .ok () u
  entry : ∃ u v, pendingBootEntry env s.pending (s.checked.clock u) =
    (.ok (some s.entry) v : Outcome Node Failure _)

theorem choose_steps {version : Option String} {w v : Node} {s : Selection}
    (h : choose env version w = .ok (.ok s) v) :
    Chosen env version w s ∧ ∃ t, v = (s.checked.clock t).tick := by
  obtain ⟨_, v₁, h₁, h⟩ := Prog.bind_eq_ok.mp h
  obtain ⟨-, rfl⟩ := demand_ok h₁
  obtain ⟨target, v₂, h₂, h⟩ := Prog.bind_eq_ok.mp h
  cases target with
  | none => cases h
  | some target =>
    obtain ⟨_, v₃, h₃, h⟩ := Prog.bind_eq_ok.mp h
    obtain ⟨finished, v₄, h₄, h⟩ := Prog.bind_eq_ok.mp h
    obtain ⟨_, v₅, h₅, h⟩ := Prog.bind_eq_ok.mp h
    obtain ⟨left, v₆, h₆, h⟩ := Prog.bind_eq_ok.mp h
    cases left with
    | none => cases h
    | some pending =>
      obtain ⟨_, v₇, h₇, rest⟩ := Prog.bind_eq_ok.mp h
      obtain ⟨same, rfl⟩ := demand_ok h₇
      obtain rfl : pending = target := by simpa using same
      rw [read_apply] at rest
      obtain ⟨_, v₈, h₈, rest⟩ := Prog.bind_eq_ok.mp rest
      obtain ⟨entry, v₉, h₉, rest⟩ := Prog.bind_eq_ok.mp rest
      cases entry with
      | none => cases rest
      | some entry =>
        cases rest
        obtain ⟨t, rfl⟩ := verifyExtensionsFor_later h₈
        refine ⟨⟨⟨_, h₂⟩, ⟨_, Prog.mapError_eq_ok.mp h₆⟩, ⟨_, h₈⟩, t, _, h₉⟩, t, ?_⟩
        unfold pendingBootEntry at h₉
        injection h₉ with _ after
        exact after.symm

theorem choose_ok {version : Option String} {w v : Node} {s : Selection}
    (h : choose env version w = .ok (.ok s) v) : Chosen env version w s :=
  (choose_steps h).1

/-- A staging that selects nothing reports nothing pending. -/
theorem choose_early {version : Option String} {w v : Node} {staged : StagedBase}
    (h : choose env version w = .ok (.error staged) v) : staged.pending = false := by
  obtain ⟨_, v₁, h₁, h⟩ := Prog.bind_eq_ok.mp h
  obtain ⟨target, v₂, h₂, h⟩ := Prog.bind_eq_ok.mp h
  cases target with
  | none =>
    cases h
    rfl
  | some target =>
    obtain ⟨_, v₃, h₃, h⟩ := Prog.bind_eq_ok.mp h
    obtain ⟨finished, v₄, h₄, h⟩ := Prog.bind_eq_ok.mp h
    obtain ⟨_, v₅, h₅, h⟩ := Prog.bind_eq_ok.mp h
    obtain ⟨left, v₆, h₆, h⟩ := Prog.bind_eq_ok.mp h
    cases left with
    | none =>
      cases h
      rfl
    | some pending =>
      obtain ⟨_, v₇, h₇, h⟩ := Prog.bind_eq_ok.mp h
      rw [read_apply] at h
      obtain ⟨_, v₈, h₈, h⟩ := Prog.bind_eq_ok.mp h
      obtain ⟨entry, v₉, h₉, h⟩ := Prog.bind_eq_ok.mp h
      cases entry <;> cases h

/-- The start and the end of a boot entry for a version make it counted for it. -/
theorem countedVersion_of_ends {id version entry : String} (hv : versionValid version = true)
    (start : Text.startsWith entry (id ++ "_" ++ version ++ "+") = true)
    (finish : Text.endsWith entry ".efi" = true) : countedVersion id entry = some version := by
  obtain ⟨l, hl⟩ := Text.startsWith_iff.mp start
  have plus : '+' ∉ version.toList := by
    intro hm
    simp only [versionValid, Bool.and_eq_true, List.all_eq_true] at hv
    have := hv.2 '+' hm
    revert this
    decide
  have shape : entry = id ++ "_" ++ (version ++ String.ofList ['+'] ++ String.ofList l) := by
    apply String.toList_inj.mp
    rw [← hl]
    simp
  have split : Text.splitOnce (version ++ String.ofList ['+'] ++ String.ofList l) '+' =
      some (version, String.ofList l) := Text.splitOnce_append plus
  have rest : Text.endsWith (String.ofList l) ".efi" = true := by
    -- an ending without a plus sign that reached further would hold the one before it
    rw [shape] at finish
    rw [Text.endsWith_iff] at finish ⊢
    have hl : (id ++ "_" ++ (version ++ String.ofList ['+'] ++ String.ofList l)).toList =
        (id ++ "_" ++ version).toList ++ '+' :: l := by simp
    rw [hl] at finish
    rw [String.toList_ofList (l := l)]
    rcases List.suffix_or_suffix_of_suffix finish (List.suffix_append _ _) with h | h
    · rcases List.suffix_cons_iff.mp h with h | h
      · exact absurd (congrArg List.head? h) (by simp)
      · exact h
    · have hm : '+' ∈ ".efi".toList := h.subset List.mem_cons_self
      exact absurd hm (by decide)
  rw [countedVersion, Text.stripPrefix_eq_some.mpr shape]
  simp [split, rest, hv]

theorem pendingBaseVersion_single {w : Node} {id version : String} (image : imageId w = some id)
    (readable : env.bootEntriesReadable w = true)
    (counted : w.bootEntries.filterMap (countedVersion id) = [version]) :
    pendingBaseVersion env w = .ok (some version) w.tick := by
  unfold pendingBaseVersion
  simp only [image, readable, counted, if_true]

theorem pendingBaseVersion_ok {pending : String} {x w : Node}
    (h : pendingBaseVersion env x = .ok (some pending) w) : w = x.tick ∧ ∃ id,
      imageId x = some id ∧ x.bootEntries.filterMap (countedVersion id) = [pending] := by
  unfold pendingBaseVersion at h
  cases hid : imageId x with
  | none =>
    rw [hid] at h
    cases h
  | some id =>
    rw [hid] at h
    dsimp only at h
    split at h
    · cases hc : x.bootEntries.filterMap (countedVersion id) with
      | nil =>
        rw [hc] at h
        cases h
      | cons version others =>
        rw [hc] at h
        cases others with
        | nil =>
          cases h
          exact ⟨rfl, id, rfl, hc⟩
        | cons second others => cases h
    · cases h

theorem countedVersion_valid {id entry version : String}
    (h : countedVersion id entry = some version) : versionValid version = true := by
  obtain ⟨rest, -, h⟩ := Option.bind_eq_some_iff.mp h
  obtain ⟨⟨v, counter⟩, -, h⟩ := Option.bind_eq_some_iff.mp h
  dsimp only at h
  split at h
  · cases h
    simp_all
  · cases h

/-- Where a list has one element a function is defined at, filtering leaves it. -/
theorem filter_of_filterMap {α β : Type} {f : α → Option β} {l : List α} {a : α} {b : β}
    (h : l.filterMap f = [b]) (ha : a ∈ l) (hb : (f a).isSome = true) :
    l.filter (fun x => (f x).isSome) = [a] := by
  have one : (l.filter fun x => (f x).isSome).length = 1 := by
    rw [← List.countP_eq_length_filter, ← List.length_filterMap_eq_countP, h]
    rfl
  obtain ⟨x, hx⟩ := List.length_eq_one_iff.mp one
  have hm : a ∈ l.filter fun x => (f x).isSome := List.mem_filter.mpr ⟨ha, hb⟩
  rw [hx, List.mem_singleton] at hm
  rw [hx, hm]

/-- An entry found for a pending version is counted for it, and it is the only one. -/
theorem entry_unique {pending entry : String} {w x u : Node} {t : Nat}
    (left : pendingBaseVersion env x = .ok (some pending) w)
    (found : pendingBootEntry env pending (w.clock t) =
      (.ok (some entry) u : Outcome Node Failure _)) :
    ∃ id, imageId w = some id ∧ countedVersion id entry = some pending ∧
      w.bootEntries.filter (fun e => (countedVersion id e).isSome) = [entry] := by
  obtain ⟨rfl, id, hid, counted⟩ := pendingBaseVersion_ok left
  have valid : versionValid pending = true := by
    obtain ⟨e, -, he⟩ := List.mem_filterMap.mp (counted ▸ List.mem_cons_self : pending ∈ _)
    exact countedVersion_valid he
  have found : (imageId x).bind (fun id => if env.bootEntriesReadable (x.tick.clock t) then
      x.bootEntries.find? fun e =>
        Text.startsWith e (id ++ "_" ++ pending ++ "+") && Text.endsWith e ".efi"
      else none) = some entry := by
    unfold pendingBootEntry at found
    injection found
  rw [hid, Option.bind_some] at found
  split at found
  · have matches_ := List.find?_some found
    rw [Bool.and_eq_true] at matches_
    have hc := countedVersion_of_ends valid matches_.1 matches_.2
    refine ⟨id, hid, hc, ?_⟩
    exact filter_of_filterMap counted (List.mem_of_find?_eq_some found) (by rw [hc]; rfl)
  · cases found

/-- What a selection owes the node: every extension it needs was validated for the
pending base, which is the one asked for, and its entry is the only counted one. -/
structure Accounted (env : Environment) (version : Option String) (w : Node) (s : Selection) :
    Prop where
  extensions : ∀ name, Needed s.checked name → ∃ c ∈ extensionChecks env s.pending s.checked,
    c.1 = name ∧ Validated env s.pending name c.2
  target : ∃ u, targetVersion env version w = .ok (some s.pending) u
  entry : ∃ id, imageId s.checked = some id ∧ countedVersion id s.entry = some s.pending ∧
    s.checked.bootEntries.filter (fun e => (countedVersion id e).isSome) = [s.entry]

/-- A base is selected without orphaning an extension exactly if every extension the
node needs is named by a source the check could read. -/
theorem selection_accounted_iff {version : Option String} {w v : Node} {s : Selection}
    (selects : choose env version w = .ok (.ok s) v)
    (elsewhere : s.checked.osVersion ≠ some s.pending) :
    Accounted env version w s ↔
      ∀ name, Needed s.checked name → Listed env s.checked.scope s.checked name := by
  obtain ⟨target, ⟨x, left⟩, ⟨u, verified⟩, t, y, found⟩ := choose_ok selects
  constructor
  · intro h name needed
    obtain ⟨c, hc, rfl, -⟩ := h.extensions name needed
    exact listed_of_check hc
  · intro h
    exact ⟨fun name needed => verifyExtensionsFor_ok verified elsewhere (h name needed), target,
      entry_unique left found⟩

end

/-- A staging in which every step works selects the base. -/
theorem choose_runs {env : Environment} {target entry : String} {entries : List String}
    {finished : Finished} {w v x u y : Node} (valid : versionValid target = true)
    (verified : verifyExtensionsFor env target w = .ok () v)
    (installed : env.stageBase target v = (.ok finished, entries)) (worked : finished.ok = true)
    (left : pendingBaseVersion env ({ v with bootEntries := entries } : Node).tick =
      .ok (some target) x)
    (again : verifyExtensionsFor env target x = .ok () u)
    (found : pendingBootEntry env target u = (.ok (some entry) y : Outcome Node Failure _)) :
    choose env (some target) w = .ok (.ok ⟨target, entry, x⟩) y := by
  have install : installBase env target v =
      .ok finished ({ v with bootEntries := entries } : Node).tick := by
    simp only [installBase, installed]
  have first : (Prog.demand ((some target).all versionValid)
      (Failure.new .malformed ("unusable base version " ++ ((some target).getD "").quote)) :
        Act Failure Unit) w = .ok () w := by
    rw [Prog.demand_apply, if_pos (by simpa using valid)]
  have asked : targetVersion env (some target) w = .ok (some target) w := rfl
  have accepted : ∀ v : Node, (Prog.demand finished.ok
      (finishedFailure .failed "could not stage the base image" .staging finished) :
        Act Failure Unit) v = .ok () v := by
    intro v
    rw [Prog.demand_apply, if_pos worked]
  have same : ∀ (e : Failure) (v : Node),
      (Prog.demand (target == target) e : Act Failure Unit) v = .ok () v := by
    intro e v
    rw [Prog.demand_apply, if_pos (by simp)]
  have checked : failedAt .checking (pendingBaseVersion env) _ = .ok (some target) x :=
    Prog.mapError_eq_ok.mpr left
  refine (Prog.bind_of_ok first _).trans ((Prog.bind_of_ok asked _).trans ?_)
  refine (Prog.bind_of_ok verified _).trans ?_
  refine (Prog.bind_of_ok (Prog.mapError_eq_ok.mpr install) _).trans ?_
  refine (Prog.bind_of_ok (accepted _) _).trans ((Prog.bind_of_ok checked _).trans ?_)
  refine (Prog.bind_of_ok (same _ _) _).trans ((read_apply _ _).trans ?_)
  exact (Prog.bind_of_ok again _).trans (Prog.bind_of_ok found _)

/-- At most one name needs no sorting. -/
theorem verifyExtensionsFor_few {env : Environment} {pending : String} {w : Node}
    (known : w.osVersion = some w.scope) (elsewhere : w.scope ≠ pending)
    (few : (sources env w.scope w).length ≤ 1) : verifyExtensionsFor env pending w =
      verifyEach env pending (sources env w.scope w) w.tick.tick.tick := by
  rw [verifyExtensionsFor_eq known elsewhere, checkedNames]
  cases h : sources env w.scope w with
  | nil => rw [List.mergeSort_nil, List.dedup_nil]
  | cons name rest =>
    rw [h, List.length_cons] at few
    obtain rfl : rest = [] := List.length_eq_zero_iff.mp (by omega)
    rw [List.mergeSort_singleton, List.dedup_cons_of_notMem (by simp), List.dedup_nil]

/-- The same version of an extension for two bases. -/
def bothBases : Bytes → Make
  | [1] => ⟨"n", "1", "a", true⟩
  | _ => ⟨"n", "2", "a", true⟩

/-- A feed with base 2 on a node whose merge status cannot be read. -/
def withNextBase : Environment :=
  { calm bothBases with
    sysextStatus := fun _ => none
    stageBase := fun _ _ => (.ok ⟨"systemd-sysupdate", some 0, "", "", true⟩, ["id_2+3-0.efi"])
    setOneshot := fun _ _ => .ok ⟨"bootctl", some 0, "", "", true⟩ }

/-- A node of base 1. -/
def ofBaseOne (images : List (String × Bytes)) : Node :=
  run withNextBase [.boot (some "IMAGE_ID=id\nVERSION_ID=1") []] (.with "1" images)

/-- The node once the named extensions are checked for base 2. -/
def checkedNode (w : Node) : Node :=
  (verifyEach withNextBase "2" (sources withNextBase w.scope w) w.tick.tick.tick).state

/-- The node a second check starts from. -/
def installedNode (w : Node) : Node :=
  ({ checkedNode w with bootEntries := ["id_2+3-0.efi"] } : Node).tick.tick

/-- A check for base 2 that needs no sorting and passes. -/
def Passes (w : Node) : Prop :=
  w.osVersion = some w.scope ∧ w.scope ≠ "2" ∧ (sources withNextBase w.scope w).length ≤ 1 ∧
    (verifyEach withNextBase "2" (sources withNextBase w.scope w) w.tick.tick.tick).isOk = true ∧
    imageId w = some "id"

instance (w : Node) : Decidable (Passes w) := by
  unfold Passes
  infer_instance

theorem Passes.verified {w : Node} (h : Passes w) :
    verifyExtensionsFor withNextBase "2" w = .ok () (checkedNode w) := by
  obtain ⟨known, elsewhere, few, passes, -⟩ := h
  rw [verifyExtensionsFor_few known elsewhere few]
  obtain ⟨_, h⟩ := Outcome.ok_of_isOk passes
  exact h

/-- Where both checks pass, base 2 is selected. -/
theorem selects_next {w : Node} (first : Passes w) (second : Passes (installedNode w)) :
    ∃ v, choose withNextBase (some "2") w =
      .ok (.ok ⟨"2", "id_2+3-0.efi", installedNode w⟩) v := by
  have image : imageId ({ checkedNode w with bootEntries := ["id_2+3-0.efi"] } : Node).tick =
      some "id" := second.2.2.2.2
  have left : pendingBaseVersion withNextBase
      ({ checkedNode w with bootEntries := ["id_2+3-0.efi"] } : Node).tick =
        .ok (some "2") (installedNode w) := by
    have counted : ["id_2+3-0.efi"].filterMap (countedVersion "id") = ["2"] := by decide +kernel
    exact pendingBaseVersion_single image rfl counted
  have found : pendingBootEntry withNextBase "2" (checkedNode (installedNode w)) =
      (.ok (some "id_2+3-0.efi")
        (checkedNode (installedNode w)).tick : Outcome Node Failure _) := by
    have there : (["id_2+3-0.efi"].find? fun e =>
        Text.startsWith e ("id" ++ "_" ++ "2" ++ "+") && Text.endsWith e ".efi") =
          some "id_2+3-0.efi" := by decide +kernel
    obtain ⟨t, ht⟩ := verifyExtensionsFor_later second.verified
    have image : imageId (checkedNode (installedNode w)) = some "id" := by
      rw [ht]
      exact image
    have entries : (checkedNode (installedNode w)).bootEntries = ["id_2+3-0.efi"] := by
      rw [ht]
      rfl
    unfold pendingBootEntry
    rw [image, entries, Option.bind_some]
    exact congrArg (fun e => Outcome.ok e _) there
  exact ⟨_, choose_runs (by decide) first.verified rfl rfl left second.verified found⟩

/-- An image scoped to the running base is active, and one for base 2 is staged. -/
def scopedNode : Node := ofBaseOne [("n_1.raw", [1]), ("n_2.raw", [2])]

theorem selection_accounted_scoped :
    Accounted withNextBase (some "2") scopedNode ⟨"2", "id_2+3-0.efi", installedNode scopedNode⟩ ↔
      ∀ name, Needed (installedNode scopedNode) name →
        Listed withNextBase (installedNode scopedNode).scope (installedNode scopedNode) name := by
  obtain ⟨v, h⟩ := selects_next (w := scopedNode) (by decide +kernel) (by decide +kernel)
  exact selection_accounted_iff h (by decide +kernel)

/-- An unscoped image is active and merged. -/
def unscopedNode : Node := ofBaseOne [("n.raw", [1])]

/-- Base 2 is selected on a node whose only image is unscoped, without an image for it. -/
theorem unscoped_orphaned :
    (∃ v, choose withNextBase (some "2") unscopedNode =
      .ok (.ok ⟨"2", "id_2+3-0.efi", installedNode unscopedNode⟩) v) ∧
      unscopedNode.activeImage "n" = some [1] ∧
      ¬ Accounted withNextBase (some "2") unscopedNode
        ⟨"2", "id_2+3-0.efi", installedNode unscopedNode⟩ := by
  refine ⟨selects_next (by decide +kernel) (by decide +kernel), by decide +kernel, fun h => ?_⟩
  have needed : Needed (installedNode unscopedNode) "n" :=
    .legacy (by decide) (by decide) (by decide +kernel) (by decide +kernel)
  obtain ⟨c, hc, -⟩ := h.extensions "n" needed
  have none_checked : sources withNextBase "1" (installedNode unscopedNode) = [] := by
    decide +kernel
  have scope : (installedNode unscopedNode).scope = "1" := by decide +kernel
  have listed := listed_of_check hc
  rw [scope] at listed
  have named : c.1 ∈ sources withNextBase "1" (installedNode unscopedNode) := mem_sources.mpr listed
  rw [none_checked] at named
  cases named

end CarbideOS.Agent
