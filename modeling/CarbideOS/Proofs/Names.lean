import CarbideOS.Proofs.Slots
import CarbideOS.Agent.Base

namespace CarbideOS.Agent
open Interruptible

/-- The extension a file is read as when the images of a base are listed. -/
def listedName (base file : String) : Option String :=
  (Text.stripSuffix file ("_" ++ base ++ ".raw")).filter fun name => !name.isEmpty

theorem installedExtensionsFor_listed (env : Environment) {ε : Type} (base : String) (w : Node) :
    (installedExtensionsFor env base : Act ε _) w = .ok
      (if (env.unreadable .installed w).isSome then []
        else w.extensions.keys.filterMap (listedName base)) w.tick := by
  unfold installedExtensionsFor
  cases env.unreadable .installed w <;> rfl

theorem listedName_eq_some {base file name : String} :
    listedName base file = some name ↔ file = name ++ "_" ++ base ++ ".raw" ∧ name ≠ "" := by
  simp only [listedName, Option.filter_eq_some_iff, Text.stripSuffix_eq_some, String.append_assoc,
    Bool.not_eq_true', String.isEmpty_eq_false_iff]

/-- An image name starts with the extension's, up to the first separator. -/
theorem extensionName_plain (image : String) : Plain (Node.extensionName image) := by
  unfold Node.extensionName Text.splitOnce
  by_cases there : '_' ∈ image.toList
  · simp only [if_pos there]
    intro mem
    rw [String.toList_ofList] at mem
    simpa using List.mem_takeWhile_imp mem
  · simp only [if_neg there]
    exact there

theorem extensionName_scoped {name : String} (plain : Plain name) (base : String) :
    Node.extensionName (name ++ "_" ++ base) = name := by
  unfold Node.extensionName
  rw [show ("_" : String) = String.ofList ['_'] from rfl, Text.splitOnce_append plain]

theorem extensionName_unscoped {name : String} (plain : Plain name) :
    Node.extensionName name = name := by
  unfold Node.extensionName Text.splitOnce
  simp only [if_neg (show '_' ∉ name.toList from plain)]

/-- Two texts with a separator, of which the first has none before it. -/
theorem separated {name other base rest : String} (plain : Plain name)
    (h : name ++ "_" ++ base = other ++ "_" ++ rest) :
    other = name ∧ rest = base ∨ Text.endsWith base ("_" ++ rest) = true := by
  have chars : name.toList ++ '_' :: base.toList = other.toList ++ '_' :: rest.toList := by
    simpa using congrArg String.toList h
  rcases List.append_eq_append_iff.mp chars with ⟨gap, ho, hb⟩ | ⟨gap, hn, hr⟩
  · cases gap with
    | nil =>
      left
      rw [List.append_nil] at ho
      rw [List.nil_append, List.cons.injEq] at hb
      exact ⟨String.toList_inj.mp ho, String.toList_inj.mp hb.2.symm⟩
    | cons c gap =>
      right
      rw [List.cons_append, List.cons.injEq] at hb
      rw [Text.endsWith_iff]
      refine ⟨gap, ?_⟩
      rw [hb.2]
      simp
  · cases gap with
    | nil =>
      left
      rw [List.append_nil] at hn
      rw [List.nil_append, List.cons.injEq] at hr
      exact ⟨String.toList_inj.mp hn.symm, String.toList_inj.mp hr.2⟩
    | cons c gap =>
      rw [List.cons_append, List.cons.injEq] at hr
      refine absurd ?_ plain
      rw [hn, hr.1]
      simp

/-- The slots of two images tell them apart, and each is read back as what it was built from. -/
structure Identified (name base version name' base' version' : String) : Prop where
  active : scopedActivePath name base = scopedActivePath name' base' → name = name' ∧ base = base'
  candidate : ∀ w : Node, w.scope = base →
    w.candidatePath name version = w.candidatePath name' version' → name = name' ∧
      version = version'
  rollback : ∀ w : Node, w.scope = base →
    w.rollbackPath name version = w.rollbackPath name' version' → name = name' ∧ version = version'
  unscoped : scopedActivePath name base ≠ legacyActivePath name'
  listed : listedName base (scopedActivePath name base).name = some name
  scopedRead : ∀ read, listedName base' (scopedActivePath name base).name = some read → read = name
  unscopedRead : ∀ read, listedName base' (legacyActivePath name).name = some read → read = name
  merged : Node.extensionName (name ++ "_" ++ base) = name
  unscopedMerged : Node.extensionName name = name

section
variable {name base version name' base' version' : String}

theorem slot_inj {finish finish' : String} (plain : Plain name) (plain' : Plain name')
    (h : name ++ "_" ++ finish = name' ++ "_" ++ finish') : name = name' ∧ finish = finish' := by
  have read := congrArg (fun image => Text.splitOnce image '_') h
  rw [show ("_" : String) = String.ofList ['_'] from rfl] at read
  simp only [Text.splitOnce_append plain, Text.splitOnce_append plain', Option.some.injEq,
    Prod.mk.injEq] at read
  exact read

theorem versionValid_ne_empty (valid : versionValid name = true) : name ≠ "" := by
  rintro rfl
  cases valid

theorem Identified.of_plain (valid : versionValid name = true) (plain : Plain name)
    (plain' : Plain name') (apart : Text.endsWith base ("_" ++ base') = false) :
    Identified name base version name' base' version' := by
  have cut : ∀ {rest : String}, name ++ "_" ++ base = name' ++ "_" ++ rest →
      name = name' ∧ base = rest := slot_inj plain plain'
  have slot : ∀ {scope finish : String},
      slotPrefix name scope ++ version ++ finish = slotPrefix name' scope ++ version' ++ finish →
        name = name' ∧ version = version' := by
    intro scope finish same
    have regrouped : ∀ n v : String, slotPrefix n scope ++ v ++ finish =
        n ++ "_" ++ (scope ++ (".raw." ++ (v ++ finish))) := by
      intro n v
      simp only [slotPrefix, String.append_assoc]
    rw [regrouped, regrouped] at same
    obtain ⟨names, rest⟩ := slot_inj plain plain' same
    have tails := Text.append_left_cancel (Text.append_left_cancel rest)
    exact ⟨names, Text.append_right_cancel tails⟩
  refine ⟨fun same => ?_, fun w _ same => ?_, fun w _ same => ?_, fun same => ?_, ?_,
    fun read h => ?_,
    fun read h => ?_, extensionName_scoped plain base, extensionName_unscoped plain⟩
  · exact cut (Text.append_right_cancel (congrArg Path.name same))
  · exact slot (congrArg Path.name same)
  · exact slot (congrArg Path.name same)
  · have names : name ++ "_" ++ base = name' :=
      Text.append_right_cancel (congrArg Path.name same)
    refine plain' ?_
    rw [← names]
    simp
  · exact listedName_eq_some.mpr ⟨rfl, versionValid_ne_empty valid⟩
  · obtain ⟨file, -⟩ := listedName_eq_some.mp h
    rcases separated plain (Text.append_right_cancel file) with ⟨same, -⟩ | overlap
    · exact same
    · rw [apart] at overlap
      cases overlap
  · obtain ⟨file, -⟩ := listedName_eq_some.mp h
    have names : name = read ++ "_" ++ base' := Text.append_right_cancel file
    refine absurd ?_ plain
    rw [names]
    simp

/-- The slots of two images identify them exactly when no name holds the separator and no base
ends in the separator and the other base. -/
theorem slots_identify_iff (valid : versionValid name = true) (valid' : versionValid name' = true) :
    (Identified name base version name' base' version' ∧
      Identified name' base' version' name base version) ↔
        Plain name ∧ Plain name' ∧ Text.endsWith base ("_" ++ base') = false ∧
          Text.endsWith base' ("_" ++ base) = false := by
  have overlaps : ∀ {n b n' b' v v' : String}, Identified n b v n' b' v' →
      Text.endsWith b ("_" ++ b') = false := by
    intro n b n' b' v v' identified
    by_contra overlap
    rw [Bool.not_eq_false] at overlap
    obtain ⟨l, hl⟩ := Text.endsWith_iff.mp overlap
    have whole : b = String.ofList l ++ "_" ++ b' := by
      apply String.toList_inj.mp
      rw [← hl]
      simp
    have read := identified.scopedRead (n ++ "_" ++ String.ofList l) (listedName_eq_some.mpr
      ⟨by simp only [scopedActivePath, whole, String.append_assoc], by simp⟩)
    have longer := congrArg (fun s => s.toList.length) read
    simp at longer
  constructor
  · rintro ⟨first, second⟩
    have plain := extensionName_plain (name ++ "_" ++ base)
    have plain' := extensionName_plain (name' ++ "_" ++ base')
    rw [first.merged] at plain
    rw [second.merged] at plain'
    exact ⟨plain, plain', overlaps first, overlaps second⟩
  · rintro ⟨plain, plain', apart, apart'⟩
    exact ⟨.of_plain valid plain plain' apart, .of_plain valid' plain' plain apart'⟩

end

theorem slots_identify_two :
    Identified "watchtower" "0.3.4" "2" "chrome" "0.3.3" "1" ∧
      Identified "chrome" "0.3.3" "1" "watchtower" "0.3.4" "2" :=
  (slots_identify_iff (by decide) (by decide)).mpr (by decide)

/-- Names and bases that are accepted, and two images of which each takes the slot of the other. -/
theorem slots_collide :
    (["a", "b_c", "a_b", "c", "1"].all versionValid = true ∧
      scopedActivePath "a" "b_c" = scopedActivePath "a_b" "c") ∧
    ¬ (Identified "a" "b_c" "1" "a_b" "c" "1" ∧ Identified "a_b" "c" "1" "a" "b_c" "1") := by
  refine ⟨by decide, fun identified => ?_⟩
  exact absurd (identified.1.active (by decide)).1 (by decide)

end CarbideOS.Agent
