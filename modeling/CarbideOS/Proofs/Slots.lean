import CarbideOS.Proofs.Quiet

namespace CarbideOS.Agent
open Interruptible

theorem Dir.get_erase (d : Dir) (name f : String) :
    (d.erase name)[f]? = if name = f then none else d[f]? := by
  simp [Std.ExtTreeMap.getElem?_erase]

theorem Dir.get_insert (d : Dir) (name f : String) (bytes : Bytes) :
    (d.insert name bytes)[f]? = if name = f then some bytes else d[f]? := by
  simp [Std.ExtTreeMap.getElem?_insert]

theorem Dir.get_eraseAll (d : Dir) (names : List String) (f : String) :
    (d.eraseAll names)[f]? = if f ∈ names then none else d[f]? := by
  induction names generalizing d with
  | nil => simp [Dir.eraseAll]
  | cons name names ih =>
    have hc : d.eraseAll (name :: names) = Dir.eraseAll (d.erase name) names := rfl
    rw [hc, ih, Dir.get_erase]
    by_cases hm : f ∈ names
    · simp [hm]
    · by_cases hn : name = f
      · simp [hn]
      · have hf : f ≠ name := fun h => hn h.symm
        simp [hm, hn, hf]

/-- A sweep takes the files that satisfy its test, and no others. -/
theorem Dir.get_sweep (d : Dir) (test : String → Bool) (f : String) :
    (d.eraseAll (d.keys.filter test))[f]? = if test f then none else d[f]? := by
  rw [Dir.get_eraseAll]
  by_cases ht : test f = true
  · by_cases hm : f ∈ d
    · simp [ht, hm]
    · simp [ht, hm]
  · simp [ht]

namespace Node

@[simp] theorem dir_setDir (w : Node) (place : Place) (d : Dir) :
    (w.setDir place d).dir place = d := by
  cases place <;> rfl

theorem dir_setDir_of_ne {w : Node} {place place' : Place} (h : place' ≠ place) (d : Dir) :
    (w.setDir place d).dir place' = w.dir place' := by
  cases place <;> cases place' <;> first | rfl | exact absurd rfl h

theorem readFile_setDir (w : Node) (place : Place) (d : Dir) (p : Path) :
    (w.setDir place d).readFile p = if p.place = place then d[p.name]? else w.readFile p := by
  unfold readFile
  split
  · rename_i h
    rw [h, dir_setDir]
  · rename_i h
    rw [dir_setDir_of_ne h]

theorem readFile_sweep (w : Node) (place : Place) (test : String → Bool) (p : Path) :
    (w.sweep place test).readFile p =
      if p.place = place ∧ test p.name = true then none else w.readFile p := by
  rw [sweep, readFile_setDir]
  by_cases hp : p.place = place
  · rw [if_pos hp, Dir.get_sweep]
    subst hp
    simp [readFile]
  · simp [hp]

theorem readFile_unlink (w : Node) (q p : Path) :
    (w.unlink q).readFile p = if p = q then none else w.readFile p := by
  rw [unlink, readFile_setDir]
  by_cases hp : p.place = q.place
  · rw [if_pos hp, Dir.get_erase]
    by_cases hn : q.name = p.name
    · have he : p = q := by
        cases p
        cases q
        simp_all
      simp [hn, he]
    · have he : p ≠ q := fun h => hn (by rw [h])
      simp [hn, he, readFile, hp]
  · have he : p ≠ q := fun h => hp (by rw [h])
    simp [hp, he]

/-- The sibling a copy is published from. -/
def temporary (target : Path) : Path := ⟨target.place, temporaryName target.name⟩

theorem readFile_publish {w : Node} {target p : Path} {bytes : Bytes}
    (hp : p ≠ temporary target) :
    (w.publish target bytes).readFile p = if p = target then some bytes else w.readFile p := by
  rw [publish, readFile_setDir]
  by_cases hd : p.place = target.place
  · rw [if_pos hd, Dir.get_insert, Dir.get_erase]
    by_cases hn : target.name = p.name
    · have he : p = target := by
        cases p
        cases target
        simp_all
      simp [hn, he]
    · have he : p ≠ target := fun h => hn (by rw [h])
      have ht : temporaryName target.name ≠ p.name := by
        intro h
        apply hp
        cases p
        simp_all [temporary]
      simp [hn, he, ht, readFile, hd]
  · have he : p ≠ target := fun h => hd (by rw [h])
    simp [hd, he]

theorem readFile_leaveBehind {w : Node} {target p : Path} {bytes : Bytes} {leftover : Option Nat}
    (hp : p ≠ temporary target) :
    (w.leaveBehind target bytes leftover).readFile p = w.readFile p := by
  have ht : p.place = target.place → temporaryName target.name ≠ p.name := by
    intro hd h
    apply hp
    cases p
    simp_all [temporary]
  cases leftover with
  | none =>
    rw [leaveBehind, readFile_setDir]
    split
    · rename_i hd
      rw [Dir.get_erase, if_neg (ht hd), readFile, hd]
    · rfl
  | some n =>
    rw [leaveBehind, readFile_setDir]
    split
    · rename_i hd
      rw [Dir.get_insert, if_neg (ht hd), readFile, hd]
    · rfl

end Node

theorem endsWith_raw_scoped (name osVersion : String) :
    Text.endsWith (scopedActivePath name osVersion).name ".raw" = true := by
  simp [scopedActivePath]

theorem endsWith_raw_legacy (name : String) :
    Text.endsWith (legacyActivePath name).name ".raw" = true := by
  simp [legacyActivePath]

theorem endsWith_new_temporary (target : Path) :
    Text.endsWith (Node.temporary target).name ".new" = true := by
  simp [Node.temporary, temporaryName]

namespace Node
variable (w : Node) (name version : String)

theorem endsWith_rollback :
    Text.endsWith (w.rollbackPath name version).name ".rollback" = true := by
  simp [rollbackPath]

theorem endsWith_candidate :
    Text.endsWith (w.candidatePath name version).name ".candidate" = true := by
  simp [candidatePath]

end Node

/-- Names with different endings are different, when neither ending ends in the
other. -/
theorem ne_of_endings {f g p q : String} (hf : Text.endsWith f p = true)
    (hg : Text.endsWith g q = true)
    (hpq : Text.endsWith p q = false ∧ Text.endsWith q p = false) : f ≠ g := by
  rintro rfl
  rcases Text.endsWith_unique hf hg with h | h
  · rw [hpq.1] at h
    cases h
  · rw [hpq.2] at h
    cases h

/-- A name with one of these endings has no other. -/
theorem endsWith_false {f p q : String} (hf : Text.endsWith f p = true)
    (hpq : Text.endsWith p q = false ∧ Text.endsWith q p = false) : Text.endsWith f q = false := by
  cases hq : Text.endsWith f q with
  | false => rfl
  | true => exact absurd rfl (ne_of_endings hf hq hpq)

theorem path_ne_of_endings {f g : Path} {p q : String} (hf : Text.endsWith f.name p = true)
    (hg : Text.endsWith g.name q = true)
    (hpq : Text.endsWith p q = false ∧ Text.endsWith q p = false) : f ≠ g :=
  fun h => ne_of_endings hf hg hpq (congrArg Path.name h)

/-- A published name never ends like the sibling it is published from. -/
theorem ne_temporary {p : Path} {finish : String} (hp : Text.endsWith p.name finish = true)
    (hf : Text.endsWith finish ".new" = false ∧ Text.endsWith ".new" finish = false)
    (target : Path) : p ≠ Node.temporary target :=
  path_ne_of_endings hp (endsWith_new_temporary target) hf

/-- An extension name without the separator of the slot names. -/
def Plain (name : String) : Prop := '_' ∉ name.toList

instance (name : String) : Decidable (Plain name) :=
  inferInstanceAs (Decidable ('_' ∉ name.toList))

/-- A file in the slots of one plain extension is in the slots of no other, and a
file of one base is in the slots of another only if the bases overlap. -/
theorem slot_owner {name other base osVersion rest : String} (hn : Plain name) (ho : Plain other)
    (h : Text.startsWith (slotPrefix name base ++ rest) (slotPrefix other osVersion) = true) :
    other = name ∧ Text.startsWith (base ++ ".raw." ++ rest) (osVersion ++ ".raw.") = true := by
  rw [Text.startsWith_iff] at h
  have hl : (slotPrefix name base ++ rest).toList =
      name.toList ++ '_' :: ((base ++ ".raw." ++ rest).toList) := by
    simp [slotPrefix]
  have hp : (slotPrefix other osVersion).toList =
      other.toList ++ '_' :: ((osVersion ++ ".raw.").toList) := by
    simp [slotPrefix]
  rw [hl, hp] at h
  obtain ⟨he, hr⟩ := Text.field_of_prefix ho hn h
  exact ⟨String.toList_inj.mp he, Text.startsWith_iff.mpr hr⟩

theorem slot_unique {name other base osVersion f : String} (hn : Plain name) (ho : Plain other)
    (h : Text.startsWith f (slotPrefix name base) = true)
    (h' : Text.startsWith f (slotPrefix other osVersion) = true) : other = name := by
  obtain ⟨rest, hr⟩ := Text.startsWith_iff.mp h
  have whole : f = slotPrefix name base ++ String.ofList rest := by
    apply String.toList_inj.mp
    rw [← hr]
    simp
  rw [whole] at h'
  exact (slot_owner hn ho h').1

end CarbideOS.Agent
