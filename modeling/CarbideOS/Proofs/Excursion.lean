import CarbideOS.Proofs.Entries
import CarbideOS.Proofs.KnownGood

namespace CarbideOS.Agent
open Interruptible

/-- The name of an image retained under a base. -/
def retainedName (name base version : String) : String :=
  slotPrefix name base ++ version ++ ".rollback"

/-- No image of that name is retained under a running base. -/
def Foreign (running f : String) : Prop := ∀ other, Plain other → ¬ Retained other running f

/-- The running base is another one, as the names of retained images tell bases apart. -/
def OtherBase (base version running : String) : Prop :=
  Text.startsWith (base ++ ".raw." ++ (version ++ ".rollback")) (running ++ ".raw.") = false

instance (base version running : String) : Decidable (OtherBase base version running) :=
  inferInstanceAs (Decidable (_ = _))

theorem OtherBase.foreign {name base version running : String} (hn : Plain name)
    (h : OtherBase base version running) : Foreign running (retainedName name base version) := by
  rintro other ho ⟨slot, -⟩
  rw [retainedName, String.append_assoc] at slot
  have same := (slot_owner hn ho slot).2
  rw [OtherBase] at h
  rw [h] at same
  cases same

theorem endsWith_retainedName (name base version : String) :
    Text.endsWith (retainedName name base version) ".rollback" = true :=
  Text.endsWith_append _ _

theorem rollbackPath_name (w : Node) (name version : String) :
    (w.rollbackPath name version).name = retainedName name w.scope version := rfl

/-- What happens while a base other than the one of a retained image runs. -/
def Event.Abroad (base version : String) : Event → Node → Prop
  | .boot _ _, _ => True
  | _, w => OtherBase base version w.scope

instance (base version : String) (e : Event) (w : Node) : Decidable (e.Abroad base version w) :=
  match e with
  | .boot _ _ => isTrue trivial
  | .command _ _ => inferInstanceAs (Decidable (OtherBase base version w.scope))
  | .request _ _ => inferInstanceAs (Decidable (OtherBase base version w.scope))

/-- On a running base, with plain names on record, a file has a certain content. -/
structure Safekept (running f : String) (content : Option Bytes) (w : Node) : Prop where
  plain : PlainRecord w
  scope : w.scope = running
  content : w.extensions[f]? = content

section
variable (env : Environment) {running f : String} {content : Option Bytes} {w u : Node}

theorem Aside.safekept {other : String} (h : Aside other w u) (ho : Plain other)
    (finish : Text.endsWith f ".rollback" = true) (foreign : Foreign running f) :
    Preserves (Safekept running f content) w u := by
  intro hw
  refine ⟨h.plainRecord ho hw.plain, h.toElsewhere.scope.trans hw.scope, ?_⟩
  rw [h.files f (not_touches_of_rollback finish) (hw.scope ▸ foreign other ho), hw.content]

theorem Tidied.safekept (h : Tidied w u) (finish : Text.endsWith f ".rollback" = true) :
    Preserves (Safekept running f content) w u := by
  intro hw
  refine ⟨h.toSameRecord.plainRecord hw.plain, h.toSameRecord.scope.trans hw.scope, ?_⟩
  rw [h.files f (endsWith_false finish (by decide)) (endsWith_false finish (by decide)), hw.content]

theorem Safekept.recall (hw : Safekept running f content w) : Safekept running f content w.recall :=
  ⟨plainRecord_remembered hw.plain, hw.scope, hw.content⟩

variable (finish : Text.endsWith f ".rollback" = true) (foreign : Foreign running f)
include finish

theorem store_safekept : Keeps (Safekept running f content) (store env) := by
  refine within_preserves_iff.mp fun w hw => ?_
  have steady : Steady "" w (store env w).state := store_steady env w
  refine ⟨within_preserves_iff.mpr (store_plain env) w hw.plain, ?_, ?_⟩
  · exact steady.toBeside.toElsewhere.scope.trans hw.scope
  · rw [steady.same f finish, hw.content]

include foreign

theorem reconcileRecord_safekept : Keeps (Safekept running f content) (reconcileRecord env) := by
  refine within_preserves_iff.mp (Within.read_at fun w hw => ?_)
  refine (?_ : Preserves (Safekept running f content) w _) hw
  refine Within.bind_at ?_ fun failures u _ => ?_
  · exact reconcileEntries_within env (fun s hs => (reconcileEntry_sober env s).mono fun _ _ h =>
      h.toBeside.aside.safekept (plainRecord_snapshot hw.plain hs) finish foreign) w
  refine Within.bind ((reconcileOrphans_tidied env _).mono fun _ _ h => h.safekept finish)
    (fun _ => ?_) u
  exact Within.bind (within_preserves_iff.mpr (store_safekept env finish)) fun _ =>
    Within.demand _ _

theorem reconcileState_safekept : Keeps (Safekept running f content) (reconcileState env) := by
  refine reconcileState_through env (fun _ _ h => h.safekept finish) fun w hw => ?_
  exact ⟨hw.recall, reconcileRecord_safekept env finish foreign _ hw.recall⟩

theorem healthGate_safekept : Keeps (Safekept running f content) (healthGate env) := by
  have clock : ∀ w t, Safekept running f content w → Safekept running f content (w.clock t) :=
    fun w t hw => ⟨hw.plain, hw.scope, hw.content⟩
  refine healthGate_keeps env clock clock (fun w =>
    Safekept.recall) (fun w merged hw other ho => ?_)
    (store_safekept env finish)
  exact within_preserves_iff.mp ((verifyOrRecover_beside env merged).mono fun _ _ h =>
    h.aside.safekept (plainRecord_required hw.plain ho) finish foreign)

/-- No event on another base changes the file. -/
theorem after_safekept {e : Event} (named : e.Named)
    (hw : Safekept running f content w) :
    (e.after env w).extensions[f]? = content := by
  have clock : ∀ w t, Safekept running f content w → Safekept running f content (w.clock t) :=
    fun w t hw => ⟨hw.plain, hw.scope, hw.content⟩
  have process : Safekept running f content w.process := by
    refine ⟨?_, hw.scope, hw.content⟩
    rintro other d (hd | hd)
    · simp [Node.process, State.get] at hd
    · exact hw.plain other d (Or.inr hd)
  have untouched : ∀ {ε : Type} {m : Act ε Unit}, Within Untouched m →
      Keeps (Safekept running f content) m := by
    intro ε m hm
    refine within_preserves_iff.mp (hm.mono fun w u h hw => ?_)
    exact ⟨h.toSameRecord.plainRecord hw.plain, h.toSameRecord.scope.trans hw.scope,
      by rw [h.extensions, hw.content]⟩
  have aside : ∀ {ε : Type} {m : Act ε Unit} {other : String}, Plain other →
      Within (Aside other) m → Keeps (Safekept running f content) m := fun ho hm =>
    within_preserves_iff.mp (hm.mono fun _ _ h => h.safekept ho finish foreign)
  cases e with
  | boot osRelease bootEntries => exact hw.content
  | command c arguments =>
    have operated : Keeps (Safekept running f content) (c.operation env arguments) := by
      rcases c.operation_cases env arguments with rfl | hu | ⟨other, hs, ha⟩
      · exact healthGate_safekept env finish foreign
      · exact untouched hu
      · exact aside (named other hs) ha
    exact (Outcome.meets_always.mp (locked_keeps env clock
      (reconcileState_safekept env finish foreign) operated w.process process)).content
  | request c r =>
    have operated : Keeps (Safekept running f content) (c.operation env r) := by
      rcases c.operation_cases env r with hu | ⟨other, hs, ha⟩
      · exact untouched hu
      · exact aside (named other hs) ha
    exact (Outcome.meets_always.mp (exclusive_keeps env clock
      (reconcileState_safekept env finish foreign) operated w.process process)).content

end

section
variable (env : Environment) {name base version : String} {w : Node}

/-- A retained image outlasts whatever is done while other bases run. -/
theorem run_abroad (hn : Plain name) (plain : PlainRecord w) {events : List Event}
    (named : ∀ e ∈ events, e.Named)
    (abroad : EachMeets (Event.after env) (Event.Abroad base version) events w) :
    (run env events w).extensions[retainedName name base version]? =
      w.extensions[retainedName name base version]? := by
  have each :
      EachMeets (Event.after env) (fun e u => e.Named ∧ e.Abroad base version u) events w := by
    rw [eachMeets_iff] at abroad ⊢
    intro before e rest split
    exact ⟨named e (by rw [split]; simp), abroad before e rest split⟩
  refine (runAll_invariant (I := fun u => PlainRecord u ∧
    u.extensions[retainedName name base version]? =
      w.extensions[retainedName name base version]?) (fun e u hu he => ?_) ⟨plain, rfl⟩ each).2
  refine ⟨after_plain env he.1 hu.1, ?_⟩
  cases e with
  | boot osRelease bootEntries => exact hu.2
  | command c arguments =>
    have elsewhere : OtherBase base version u.scope := he.2
    exact after_safekept env (endsWith_retainedName name base version) (elsewhere.foreign hn) he.1
      ⟨hu.1, rfl, hu.2⟩
  | request c r =>
    have elsewhere : OtherBase base version u.scope := he.2
    exact after_safekept env (endsWith_retainedName name base version) (elsewhere.foreign hn) he.1
      ⟨hu.1, rfl, hu.2⟩

/-- On one base an extension whose known-good version has its image keeps it. -/
theorem run_resting (hn : Plain name) {events : List Event} (named : ∀ e ∈ events, e.Named)
    (home : ∀ e ∈ events, e.On base) (scope : w.scope = base) (rests : Resting name w) :
    Resting name (run env events w) ∧ (run env events w).scope = base := by
  have each : EachMeets (Event.after env) (fun e _ => e.Named ∧ e.On base) events w :=
    eachMeets_of_forall (fun e he _ => ⟨named e he, home e he⟩) w
  refine runAll_invariant (I := fun u => Resting name u ∧ u.scope = base)
    (fun e u hu he => ?_) ⟨rests, scope⟩ each
  exact ⟨after_resting env hn he.1 (hu.2 ▸ he.2) hu.1, after_base env he.2 hu.2⟩

/-- Back on its base, an extension is backed if the record names the version that was known
good when the base was left. -/
theorem boot_resting {u : Node} (plain : PlainRecord u) {d : ExtensionState}
    (recorded : u.stored.get name = some d) (known : d.knownGoodVersion = some version)
    (consistent : d.Consistent) {osRelease : Option String} {bootEntries : List String}
    (scope : (u.boot env osRelease bootEntries).scope = base)
    (there : (u.extensions[retainedName name base version]?).isSome = true) :
    Resting name (u.boot env osRelease bootEntries) := by
  have entries : ∀ {other e}, Entry (u.boot env osRelease bootEntries) other e →
      u.stored.get other = some e := by
    rintro other e (he | he)
    · simp [Node.boot, Node.tick, State.get] at he
    · exact he
  refine ⟨fun other e he => plain other e (Or.inr (entries he)), fun e he _ v hv => ?_⟩
  obtain rfl : d = e := Option.some.inj (recorded.symm.trans (entries he))
  obtain rfl : version = v := Option.some.inj (known.symm.trans hv)
  refine ⟨consistent.fallback (by rw [known]; rfl), ?_⟩
  rw [Node.fileExists, Node.readFile, rollbackPath_name, scope]
  exact there

end

/-- One version of an extension, built for two bases. -/
def twoBases : Bytes → Make
  | [1] => ⟨"n", "1", "a", true⟩
  | _ => ⟨"n", "2", "a", true⟩

/-- A node that has adopted its image under one base. -/
def leavingNode : Node :=
  run (calm twoBases) [.boot (some "VERSION_ID=1") [], .command .adopt ["n", "a"]]
    (.with "1" [("n_1.raw", [1]), ("n_2.raw", [2])])

/-- The same after a gate under the other base. -/
def returningNode : Node :=
  run (calm twoBases) ([.boot (some "VERSION_ID=1") [], .command .adopt ["n", "a"]] ++
    [.boot (some "VERSION_ID=2") [], .command .healthGate []])
    (.with "1" [("n_1.raw", [1]), ("n_2.raw", [2])])

end CarbideOS.Agent
