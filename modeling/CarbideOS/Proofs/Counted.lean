import CarbideOS.Lib.Decimal
import CarbideOS.Proofs.Selection

namespace CarbideOS.Agent
open Interruptible

/-- A decimal number, of any length and with leading zeros if it likes. -/
def Digits (ds : String) : Prop := ds.toList ≠ [] ∧ ∀ d ∈ ds.toList, d.isDigit = true

/-- What a counted entry has after its version: the tries left and perhaps those done. -/
inductive BootCounter (left : Nat) : String → Prop where
  | both {tries done : String} (digits : Digits tries) (counted : Digits done)
      (value : Decimal.value tries.toList = left) : BootCounter left
        (tries ++ "-" ++ done ++ ".efi")
  | left {tries : String} (digits : Digits tries) (value : Decimal.value tries.toList = left) :
      BootCounter left (tries ++ ".efi")

/-- The entry of a version, with this many tries left. -/
def EntryOf (id version : String) (left : Nat) (entry : String) : Prop :=
  versionValid version = true ∧ ∃ counter, BootCounter left counter ∧
    entry = id ++ "_" ++ version ++ "+" ++ counter

/-- An entry the boot loader still has tries for. -/
def Bootable (id version entry : String) : Prop := ∃ left, 0 < left ∧ EntryOf id version left entry

theorem BootCounter.ends {left : Nat} {counter : String} (h : BootCounter left counter) :
    Text.endsWith counter ".efi" = true := by
  cases h <;> exact Text.endsWith_append _ _

theorem EntryOf.counted {id version entry : String} {left : Nat}
    (h : EntryOf id version left entry) : countedVersion id entry = some version := by
  obtain ⟨valid, counter, number, rfl⟩ := h
  refine countedVersion_of_ends valid ?_ ?_
  · exact Text.startsWith_append _ _
  · exact Text.endsWith_append_right number.ends

theorem Bootable.counted {id version entry : String} (h : Bootable id version entry) :
    countedVersion id entry = some version := by
  obtain ⟨left, -, entryOf⟩ := h
  exact entryOf.counted

/-- The tries left are the digits a counter starts with. -/
theorem BootCounter.tries {left : Nat} {counter : String} (h : BootCounter left counter) :
    Decimal.value (counter.toList.takeWhile Char.isDigit) = left := by
  cases h with
  | both digits counted value =>
    simpa [String.toList_append, List.append_assoc,
      List.takeWhile_append_of_pos digits.2] using value
  | left digits value =>
    simpa [String.toList_append, List.takeWhile_append_of_pos digits.2] using value

theorem EntryOf.unique {id v v' entry : String} {left right : Nat} (h : EntryOf id v left entry)
    (h' : EntryOf id v' right entry) : left = right := by
  have same : v = v' := by
    have := h.counted
    rw [h'.counted] at this
    exact (Option.some.inj this).symm
  subst same
  obtain ⟨-, counter, number, rfl⟩ := h
  obtain ⟨-, counter', number', shape⟩ := h'
  have shape : counter = counter' := Text.append_left_cancel shape
  rw [← number.tries, ← number'.tries, shape]

/-- The entry is the only one of the listing the boot loader has tries for. -/
structure Sole (id version entry : String) (entries : List String) : Prop where
  listed : entry ∈ entries
  bootable : Bootable id version entry
  alone : ∀ other ∈ entries, ∀ v, Bootable id v other → other = entry

/-- What a selection of a boot entry owes: it is the only bootable one, of the version
asked for, and its tries are not used up. -/
structure Fresh (env : Environment) (requested : Option String) (w u : Node) (staged : StagedBase) :
    Prop where
  selected : ∃ id version entry, imageId u = some id ∧ staged = ⟨some version, true, some entry⟩ ∧
    Sole id version entry u.bootEntries ∧ (∀ v, ¬ EntryOf id v 0 entry) ∧
    ∃ x, targetVersion env requested w = .ok (some version) x

variable {env : Environment} {requested : Option String}

theorem selectEntry_ok {pending entry : String} {w u : Node} {staged : StagedBase}
    (h : selectEntry env pending entry w = .ok staged u) :
    staged = ⟨some pending, true, some entry⟩ ∧ u = w.tick := by
  obtain ⟨finished, v, h₁, h⟩ := Prog.bind_eq_ok.mp h
  obtain ⟨-, rfl⟩ := askFor_ok h₁
  obtain ⟨_, x, h₂, h⟩ := Prog.bind_eq_ok.mp h
  obtain ⟨-, rfl⟩ := demand_ok h₂
  cases h
  exact ⟨rfl, rfl⟩

/-- A staging that reports a pending base made a selection and told the boot loader. -/
theorem stageBase_pending {w u : Node} {staged : StagedBase}
    (h : stageBase env requested w = .ok staged u) (pending : staged.pending = true) :
    ∃ s v, choose env requested w = .ok (.ok s) v ∧
      staged = ⟨some s.pending, true, some s.entry⟩ ∧ u = v.tick := by
  rw [stageBase_eq] at h
  obtain ⟨chosen, v, h₁, h⟩ := Prog.bind_eq_ok.mp h
  cases chosen with
  | error early =>
    cases h
    rw [choose_early h₁] at pending
    cases pending
  | ok s =>
    obtain ⟨rfl, rfl⟩ := selectEntry_ok h
    exact ⟨s, v, h₁, rfl, rfl⟩

/-- A staging that reports a pending base keeps to entries with tries left exactly if
every entry that counts as pending has a decimal counter with tries left. -/
theorem pending_fresh_iff {w u : Node} {staged : StagedBase}
    (h : stageBase env requested w = .ok staged u) (pending : staged.pending = true) :
    Fresh env requested w u staged ↔ ∀ id, imageId u = some id → ∀ entry ∈ u.bootEntries,
      ∀ version, countedVersion id entry = some version → Bootable id version entry := by
  obtain ⟨s, v, chosen, rfl, rfl⟩ := stageBase_pending h pending
  obtain ⟨⟨target, ⟨x, left⟩, -, t, y, found⟩, t', rfl⟩ := choose_steps chosen
  obtain ⟨id, hid, counted, only⟩ := entry_unique left found
  have listed : s.entry ∈ s.checked.bootEntries ∧ (countedVersion id s.entry).isSome = true := by
    have : s.entry ∈ s.checked.bootEntries.filter fun e => (countedVersion id e).isSome := by
      simp [only]
    simpa using this
  have single : ∀ entry ∈ s.checked.bootEntries, (countedVersion id entry).isSome = true →
      entry = s.entry := by
    intro entry member counts
    have : entry ∈ s.checked.bootEntries.filter fun e => (countedVersion id e).isSome :=
      List.mem_filter.mpr ⟨member, counts⟩
    simpa [only] using this
  constructor
  · rintro ⟨id', version, entry, hid', same, sole, -⟩ i hi other member v counts
    obtain rfl : id = id' := Option.some.inj (hid.symm.trans hid')
    obtain rfl : id = i := Option.some.inj (hid.symm.trans hi)
    obtain rfl : s.entry = entry := by
      injection same with _ _ same
      exact Option.some.inj same
    obtain rfl : other = s.entry := single other member (by rw [counts]; rfl)
    have bootable := sole.bootable
    rw [bootable.counted] at counts
    exact Option.some.inj counts ▸ bootable
  · intro fresh
    have bootable : Bootable id s.pending s.entry := fresh id hid s.entry listed.1 _ counted
    refine ⟨id, s.pending, s.entry, hid, rfl, ⟨listed.1, bootable, ?_⟩, ?_, target⟩
    · intro other member v boots
      exact single other member (by rw [boots.counted]; rfl)
    · intro v used
      obtain ⟨left, positive, entryOf⟩ := bootable
      rw [entryOf.unique used] at positive
      exact absurd positive (lt_irrefl 0)

/-- A feed that installs base 2 under the given boot entry. -/
def leaving (entry : String) : Environment :=
  { withNextBase with
    stageBase := fun _ _ => (.ok ⟨"systemd-sysupdate", some 0, "", "", true⟩, [entry]) }

/-- A node of base 1 without extensions. -/
def bareNode : Node := ofBaseOne []

/-- The bare node once base 2 was installed and its extensions were checked twice. -/
def bareInstalled (entry : String) : Node :=
  ({ bareNode.tick.tick.tick with bootEntries := [entry] } : Node).tick.tick

theorem nothing_to_verify {w : Node} (known : w.osVersion = some w.scope)
    (elsewhere : w.scope ≠ "2") (nothing : sources env w.scope w = []) :
    verifyExtensionsFor env "2" w = .ok () w.tick.tick.tick := by
  rw [verifyExtensionsFor_few known elsewhere (by rw [nothing]; simp), nothing]
  rfl

/-- Base 2 is reported pending whatever counter its entry has. -/
theorem bare_pending (entry : String) (counts : countedVersion "id" entry = some "2")
    (named : (Text.startsWith entry
      ("id" ++ "_" ++ "2" ++ "+") && Text.endsWith entry ".efi") = true)
    (first : sources (leaving entry) "1" bareNode = [])
    (second : sources (leaving entry) "1" (bareInstalled entry) = []) :
    ∃ u, stageBase (leaving entry) (some "2") bareNode = .ok ⟨some "2", true, some entry⟩ u ∧
      imageId u = some "id" ∧ u.bootEntries = [entry] := by
  have known : bareNode.osVersion = some "1" ∧ imageId bareNode = some "id" := by decide +kernel
  have scope : ∀ w : Node, w.osVersion = some "1" → w.scope = "1" := fun w h => by
    simp [Node.scope, h]
  have verified : ∀ w : Node, w.osVersion = some "1" → sources (leaving entry) "1" w = [] →
      verifyExtensionsFor (leaving entry) "2" w = .ok () w.tick.tick.tick := by
    intro w h nothing
    have here := scope w h
    exact nothing_to_verify (by rw [h, here]) (by rw [here]; decide) (by rw [here]; exact nothing)
  have left : pendingBaseVersion (leaving entry)
      ({ bareNode.tick.tick.tick with bootEntries := [entry] } : Node).tick =
        .ok (some "2") (bareInstalled entry) := by
    have image : imageId ({ bareNode.tick.tick.tick with bootEntries := [entry] } : Node).tick =
        some "id" := known.2
    have counted : [entry].filterMap (countedVersion "id") = ["2"] := by simp [counts]
    exact pendingBaseVersion_single image rfl counted
  have found : pendingBootEntry (leaving entry) "2" (bareInstalled entry).tick.tick.tick =
      (.ok (some entry) (bareInstalled entry).tick.tick.tick.tick : Outcome Node Failure _) := by
    have image : imageId (bareInstalled entry).tick.tick.tick = some "id" := known.2
    have there : ([entry].find? fun e =>
        Text.startsWith e ("id" ++ "_" ++ "2" ++ "+") && Text.endsWith e ".efi") = some entry := by
      simp only [List.find?_cons, named]
    unfold pendingBootEntry
    rw [image, Option.bind_some]
    exact congrArg (fun e => Outcome.ok e _) there
  have chosen : choose (leaving entry) (some "2") bareNode =
      .ok (.ok ⟨"2", entry, bareInstalled entry⟩)
      (bareInstalled entry).tick.tick.tick.tick :=
    choose_runs (by decide) (verified bareNode known.1 first) rfl rfl left
      (verified _ known.1 second) found
  refine ⟨(bareInstalled entry).tick.tick.tick.tick.tick, ?_, ?_, ?_⟩
  · rw [stageBase_eq]
    exact Prog.bind_of_ok chosen _
  · exact known.2
  · rfl

/-- Tries are left for base 2. -/
theorem pending_fresh_next : ∃ u staged, stageBase (leaving "id_2+3-0.efi") (some "2") bareNode =
    .ok staged u ∧ (Fresh (leaving "id_2+3-0.efi") (some "2") bareNode u staged ↔
      ∀ id, imageId u = some id → ∀ entry ∈ u.bootEntries, ∀ version,
        countedVersion id entry = some version → Bootable id version entry) := by
  obtain ⟨u, stages, -, -⟩ := bare_pending "id_2+3-0.efi" (by decide +kernel)
    (by decide +kernel) (by decide +kernel) (by decide +kernel)
  exact ⟨u, _, stages, pending_fresh_iff stages rfl⟩

/-- The node fell back from base 2 three times, and base 2 is pending again. -/
theorem exhausted_pending : ∃ u, stageBase (leaving "id_2+0-3.efi") (some "2") bareNode =
      .ok ⟨some "2", true, some "id_2+0-3.efi"⟩ u ∧
    EntryOf "id" "2" 0 "id_2+0-3.efi" ∧
    ¬ Fresh (leaving "id_2+0-3.efi") (some "2") bareNode u ⟨some "2", true,
      some "id_2+0-3.efi"⟩ := by
  obtain ⟨u, stages, image, -⟩ := bare_pending "id_2+0-3.efi" (by decide +kernel)
    (by decide +kernel) (by decide +kernel) (by decide +kernel)
  have used : EntryOf "id" "2" 0 "id_2+0-3.efi" := by
    have number : BootCounter 0 ("0" ++ "-" ++ "3" ++ ".efi") :=
      .both ⟨by decide, by simp⟩ ⟨by decide, by simp⟩ (by decide)
    exact ⟨by decide, _, number, by decide⟩
  refine ⟨u, stages, used, ?_⟩
  rintro ⟨id, version, entry, hid, same, -, fresh, -⟩
  obtain rfl : "id" = id := Option.some.inj (image.symm.trans hid)
  injection same with _ _ same
  obtain rfl := Option.some.inj same
  exact fresh "2" used

end CarbideOS.Agent
