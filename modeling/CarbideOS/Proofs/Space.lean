import CarbideOS.Lib.Sizes
import CarbideOS.Proofs.Placement

namespace CarbideOS.Agent
open Interruptible

/-- The bytes in the extensions directory and in the staging directory. -/
def Node.used (w : Node) : Nat := Sizes.total w.extensions + Sizes.total w.staging

/-- The length of a file that may not be there. -/
def Node.sizeOf (w : Node) (p : Path) : Nat := ((w.readFile p).getD []).length

theorem Node.sizeOf_eq {w : Node} {p : Path} {bytes : Bytes} (h : w.readFile p = some bytes) :
    w.sizeOf p = bytes.length := by
  rw [sizeOf, h]
  rfl

/-- What is free is what the images leave of the file system, whose size the agent's
64 bits can hold. -/
structure Environment.Accounts (env : Environment) (capacity : Nat) : Prop where
  free : ∀ w, env.available w = .ok (capacity - w.used)
  fits : capacity < 2 ^ 64 - 1

theorem activationSpace_le_iff {size outgoing available : Nat} (h : available < 2 ^ 64 - 1) :
    activationSpace size outgoing ≤ available ↔ size + outgoing + spaceMargin ≤ available := by
  unfold activationSpace saturatingAdd
  omega

namespace Node

theorem used_setDir (w : Node) (place : Place) (d : Dir) :
    (w.setDir place d).used + Sizes.total (w.dir place) = w.used + Sizes.total d := by
  cases place <;> simp only [used, setDir, dir] <;> omega

theorem used_unlink (w : Node) (p : Path) : (w.unlink p).used + w.sizeOf p = w.used := by
  have dirs := w.used_setDir p.place ((w.dir p.place).erase p.name)
  have erased := Sizes.total_erase (w.dir p.place) p.name
  rw [unlink, sizeOf, readFile]
  omega

theorem temporaryName_ne (f : String) : temporaryName f ≠ f := by
  intro h
  have h := congrArg (fun s => s.toList.length) h
  simp [temporaryName] at h
  omega

/-- A published copy takes its bytes, in place of what its sibling and its target held. -/
theorem used_publish (w : Node) (target : Path) (bytes : Bytes) :
    (w.publish target bytes).used + w.sizeOf (temporary target) + w.sizeOf target =
      w.used + bytes.length := by
  have dirs := w.used_setDir target.place
    (((w.dir target.place).erase (temporaryName target.name)).insert target.name bytes)
  have erased := Sizes.total_erase (w.dir target.place) (temporaryName target.name)
  have inserted := Sizes.total_insert ((w.dir target.place).erase (temporaryName target.name))
    target.name bytes
  rw [Dir.get_erase, if_neg (temporaryName_ne target.name)] at inserted
  simp only [publish, sizeOf, readFile, temporary]
  omega

theorem used_sweep (w : Node) (place : Place) (test : String → Bool) :
    (w.sweep place test).used ≤ w.used := by
  have dirs := w.used_setDir place ((w.dir place).eraseAll ((w.dir place).keys.filter test))
  have erased : Sizes.total ((w.dir place).eraseAll ((w.dir place).keys.filter test)) ≤
      Sizes.total (w.dir place) := Sizes.total_foldl_erase_le _ _
  rw [sweep]
  omega

theorem used_tick (w : Node) : w.tick.used = w.used := rfl

end Node

/-- No more space is taken than before. -/
def Frees (w u : Node) : Prop := u.used ≤ w.used

instance : IsPreorder Node Frees where
  refl _ := le_refl _
  trans _ _ _ h h' := le_trans h' h

section
variable {env : Environment} {ε α : Type} {w u : Node}

theorem pruneMatchingIn_frees (place : Place) (start finish : String) (keep : Option String) :
    Within Frees (pruneMatchingIn env place start finish keep) :=
  Act.durable_within (fun w => w.used_sweep place _) fun w _ _ => w.used_sweep place _

theorem unlink_frees (w : Node) (p : Path) : Frees w (w.unlink p) := by
  have h := w.used_unlink p
  unfold Frees
  omega

theorem durableRemove_frees (p : Path) : Within Frees (durableRemove env p) := by
  refine Within.read fun w => ?_
  split
  · apply Act.durable_within
    · exact fun w => unlink_frees w p
    · intro w reached leftover
      split
      · exact unlink_frees w p
      · exact le_refl w.used
  · exact Within.pure ()

/-- A copy that worked takes the length of its source. -/
theorem durableCopy_used {source target : Path} (h : durableCopy env source target w = .ok () u) :
    u.used + w.sizeOf (Node.temporary target) + w.sizeOf target = w.used + w.sizeOf source := by
  obtain ⟨bytes, hb, rfl⟩ := durableCopy_ok h
  have published := w.used_publish target bytes
  rw [Node.used_tick, Node.sizeOf_eq hb]
  exact published

theorem used_of_dirs (h : u.extensions = w.extensions) (h' : u.staging = w.staging) :
    u.used = w.used := by
  rw [Node.used, Node.used, h, h']

/-- A move that worked takes no more space, its source being gone. -/
theorem durableMove_used {source target : Path} (apart : source.place ≠ target.place)
    (h : durableMove env source target w = .ok () u) : u.used ≤ w.used := by
  obtain ⟨_, v, copied, removed⟩ := Prog.bind_eq_ok.mp h
  have taken := durableCopy_used copied
  have still : v.sizeOf source = w.sizeOf source := by
    have ne : source ≠ target := fun he => apart (congrArg Path.place he)
    have other : source ≠ Node.temporary target := fun he => apart (by rw [he]; rfl)
    rw [Node.sizeOf, durableCopy_reads copied other, if_neg ne, Node.sizeOf]
  have gone : u.used + v.sizeOf source = v.used := by
    rcases durableRemove_ok removed with ⟨rfl, hn⟩ | rfl
    · rw [Node.sizeOf, hn]
      rfl
    · exact v.used_unlink source
  omega

/-- Where there is room, and what was asked for is known. -/
theorem requireActivationSpace_ok {capacity required : Nat} (accounts : env.Accounts capacity)
    (h : requireActivationSpace env required w = .ok () u) :
    required ≤ capacity - w.used ∧ u = w.tick := by
  obtain ⟨available, v, asked, h⟩ := Prog.bind_eq_ok.mp h
  obtain ⟨free, rfl⟩ : env.available w = .ok available ∧ v = w.tick :=
    askFor_ok (g := fun error => (Failure.new .failed error).atStage .checking) asked
  obtain ⟨room, rfl⟩ := demand_ok h
  rw [accounts.free w] at free
  cases free
  exact ⟨by simpa using room, rfl⟩

theorem fileSize_ok {p : Path} {n : Nat} (h : fileSize env p w = .ok n u) :
    (∃ bytes, w.readFile p = some bytes) ∧ n = w.sizeOf p ∧ u = w.tick := by
  obtain ⟨bytes, read, rfl⟩ := fileSize_present h
  obtain ⟨t, rfl⟩ := (fileSize_quiet env p).of_ok h
  refine ⟨⟨bytes, read⟩, (Node.sizeOf_eq read).symm, ?_⟩
  unfold fileSize at h
  cases hu : env.unreadable (.metadata p) w with
  | some e =>
    rw [hu] at h
    cases h
  | none =>
    rw [hu, read] at h
    exact (Outcome.ok.inj h).2.symm

end
end CarbideOS.Agent
