import CarbideOS.Proofs.Records

namespace CarbideOS.Agent
open Interruptible

section
variable {env : Environment} {name : String} {w u : Node}

theorem Act.durable_ok {step : Durable} {effect : (String → Bool) → Node → Node}
    {residue : Option Nat → Node → Node} (h : Act.durable env step effect residue w = .ok () u) :
    env.fault step w = none ∧ u = (effect (fun _ => true) w).tick := by
  unfold Act.durable at h
  cases hf : env.fault step w with
  | none =>
    rw [hf] at h
    cases h
    exact ⟨rfl, rfl⟩
  | some f =>
    rw [hf] at h
    dsimp only at h
    split at h <;> cases h

theorem store_ok (h : store env w = .ok () u) : u = w.saved := (Act.durable_ok h).2

theorem loadState_ok {s : State} (h : loadState env w = .ok s u) : s = w.stored ∧ u = w.tick := by
  unfold loadState at h
  cases hu : env.unreadable .state w <;> rw [hu] at h <;> cases h
  exact ⟨rfl, rfl⟩

theorem durableCopy_ok {source target : Path} (h : durableCopy env source target w = .ok () u) :
    ∃ bytes, w.readFile source = some bytes ∧ u = (w.publish target bytes).tick := by
  rw [durableCopy, read_apply] at h
  cases hs : w.readFile source with
  | none =>
    simp only [hs] at h
    cases h
  | some bytes =>
    simp only [hs] at h
    exact ⟨bytes, rfl, (Act.durable_ok h).2⟩

theorem readFile_tick (w : Node) (p : Path) : w.tick.readFile p = w.readFile p :=
  Node.clock_readFile w _ p

/-- A copy that worked is there whole, and everything else that is no unpublished copy
is as it was. -/
theorem durableCopy_reads {source target : Path} (h : durableCopy env source target w = .ok () u)
    {p : Path} (hp : p ≠ Node.temporary target) :
    u.readFile p = if p = target then w.readFile source else w.readFile p := by
  obtain ⟨bytes, hs, rfl⟩ := durableCopy_ok h
  rw [readFile_tick, Node.readFile_publish hp, hs]

/-- However a publication ends, its target has the old contents or all of the new. -/
theorem durablePublish_reads {target p : Path} {bytes : Bytes} (hp : p ≠ Node.temporary target)
    (w : Node) :
    (durablePublish env bytes target w).state.readFile p = w.readFile p ∨
      p = target ∧ (durablePublish env bytes target w).state.readFile p = some bytes := by
  have published : ∀ v : Node, (v.publish target bytes).readFile p = v.readFile p ∨
      p = target ∧ (v.publish target bytes).readFile p = some bytes := by
    intro v
    rw [Node.readFile_publish hp]
    split
    · exact Or.inr ⟨‹_›, rfl⟩
    · exact Or.inl rfl
  have steps : Within (fun v u => u.readFile p = v.readFile p ∨
      p = target ∧ u.readFile p = some bytes) (durablePublish env bytes target) := by
    apply Act.durable_within
    · intro v
      rw [readFile_tick]
      exact published v
    · intro v reached leftover
      rw [readFile_tick]
      split
      · have h := published (v.leaveBehind target bytes leftover)
        rwa [Node.readFile_leaveBehind hp] at h
      · exact Or.inl (Node.readFile_leaveBehind hp)
  exact steps w

theorem durableCopy_exists {source target : Path} {finish : String}
    (ht : Text.endsWith target.name finish = true)
    (hf : Text.endsWith finish ".new" = false ∧ Text.endsWith ".new" finish = false)
    (h : durableCopy env source target w = .ok () u) : u.fileExists target = true := by
  obtain ⟨bytes, hs, -⟩ := durableCopy_ok h
  rw [Node.fileExists, durableCopy_reads h (ne_temporary ht hf _), if_pos rfl, hs]
  rfl

theorem durableRemove_ok {p : Path} (h : durableRemove env p w = .ok () u) :
    u = w ∧ w.readFile p = none ∨ u = (w.unlink p).tick := by
  rw [durableRemove, read_apply] at h
  split at h
  · exact Or.inr (Act.durable_ok h).2
  · rename_i hf
    cases h
    refine Or.inl ⟨rfl, ?_⟩
    simpa [Node.fileExists] using hf

theorem durableRemove_reads {p q : Path} (h : durableRemove env p w = .ok () u) :
    u.readFile q = if q = p then none else w.readFile q := by
  rcases durableRemove_ok h with ⟨rfl, hn⟩ | rfl
  · split
    · rename_i he
      rw [he, hn]
    · rfl
  · rw [readFile_tick, Node.readFile_unlink]

/-- Hiding the legacy image takes that and nothing else. -/
theorem hideLegacy_reads {p : Path} (hp : p ≠ legacyActivePath name)
    (h : hideLegacy env name w = .ok () u) : u.readFile p = w.readFile p := by
  rw [hideLegacy, read_apply] at h
  split at h
  · rw [durableRemove_reads h, if_neg hp]
  · cases h
    rfl

theorem activeImage_of_scoped {bytes : Bytes}
    (h : u.readFile (scopedActivePath name u.scope) = some bytes) :
    u.activePath name = scopedActivePath name u.scope ∧ u.activeImage name = some bytes := by
  have hp : u.activePath name = scopedActivePath name u.scope := by
    simp [Node.activePath, Node.fileExists, h]
  exact ⟨hp, by rw [Node.activeImage, hp, h]⟩

/-- A file that is neither an active image nor an unpublished copy. -/
theorem installActive_ok {source : Path} {finish : String}
    (hs : Text.endsWith source.name finish = true)
    (hraw : Text.endsWith finish ".raw" = false ∧ Text.endsWith ".raw" finish = false)
    (h : installActive env source name w = .ok () u) :
    ∃ bytes, w.readFile source = some bytes ∧ u.activeImage name = some bytes := by
  rw [installActive, read_apply] at h
  obtain ⟨_, v, hv, h⟩ := Prog.bind_eq_ok.mp h
  have hne : source ≠ legacyActivePath name :=
    path_ne_of_endings hs (endsWith_raw_legacy name) hraw
  have hscope : u.scope = w.scope :=
    ((durableCopy_record env _ _).of_ok h).scope.trans ((hideLegacy_record env name).of_ok hv).scope
  obtain ⟨bytes, hb, -⟩ := durableCopy_ok h
  refine ⟨bytes, ?_, ?_⟩
  · rw [← hideLegacy_reads hne hv, hb]
  · have hr := durableCopy_reads h
      (ne_temporary (endsWith_raw_scoped name w.scope) (by decide) _)
    rw [if_pos rfl, hb, ← hscope] at hr
    exact (activeImage_of_scoped hr).2

/-- An outgoing image whose size is known is there to be copied, or has been. -/
theorem outgoingSize_present {previous : String} {size : Nat} {w u : Node}
    (h : outgoingSize env name (some previous) w = .ok size u) :
    w.fileExists (w.rollbackPath name previous) = true ∨
      w.fileExists (w.activePath name) = true := by
  rw [outgoingSize, read_apply] at h
  dsimp only at h
  split at h
  · exact Or.inl ‹_›
  · right
    have h : fileSize env (w.activePath name) w = .ok size u := Prog.mapError_eq_ok.mp h
    unfold fileSize at h
    rw [Node.fileExists]
    cases hr : w.readFile (w.activePath name) with
    | some bytes => rfl
    | none =>
      rw [hr] at h
      cases hu : env.unreadable (.metadata (w.activePath name)) w <;> rw [hu] at h <;> cases h

end
end CarbideOS.Agent
