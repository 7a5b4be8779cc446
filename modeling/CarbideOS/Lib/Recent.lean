import Mathlib

namespace Recent

variable {α : Type} [DecidableEq α]

/-- Put a value at the end of a list of distinct ones; past the capacity the oldest go. -/
def remember (capacity : Nat) (l : List α) (a : α) : List α :=
  if a ∈ l then l else (l ++ [a]).drop (l.length + 1 - capacity)

theorem remember_of_mem {capacity : Nat} {l : List α} {a : α} (h : a ∈ l) :
    remember capacity l a = l := if_pos h

theorem remember_of_not_mem {capacity : Nat} {l : List α} {a : α} (h : a ∉ l) :
    remember capacity l a = (l ++ [a]).drop (l.length + 1 - capacity) := if_neg h

theorem mem_of_mem_remember {capacity : Nat} {l : List α} {a b : α}
    (h : b ∈ remember capacity l a) : b ∈ l ∨ b = a := by
  by_cases ha : a ∈ l
  · rw [remember_of_mem ha] at h
    exact Or.inl h
  · rw [remember_of_not_mem ha] at h
    have whole := List.mem_of_mem_drop h
    rw [List.mem_append, List.mem_singleton] at whole
    exact whole

theorem nodup_remember {capacity : Nat} {l : List α} {a : α} (h : l.Nodup) :
    (remember capacity l a).Nodup := by
  by_cases ha : a ∈ l
  · rw [remember_of_mem ha]
    exact h
  · rw [remember_of_not_mem ha]
    have whole : (l ++ [a]).Nodup := by
      rw [List.nodup_append]
      refine ⟨h, List.nodup_singleton a, fun x hx y hy => ?_⟩
      rw [List.mem_singleton.mp hy]
      rintro rfl
      exact ha hx
    exact whole.sublist (List.drop_sublist _ _)

theorem length_remember {capacity : Nat} {l : List α} {a : α} (h : l.length ≤ capacity) :
    (remember capacity l a).length ≤ capacity := by
  by_cases ha : a ∈ l
  · rw [remember_of_mem ha]
    exact h
  · rw [remember_of_not_mem ha, List.length_drop, List.length_append, List.length_singleton]
    omega

/-- A value that was not there is the newest. -/
theorem getLast_remember {capacity : Nat} {l : List α} {a : α} (room : 0 < capacity) (h : a ∉ l) :
    (remember capacity l a).getLast? = some a := by
  have short : l.length + 1 - capacity ≤ l.length := by omega
  rw [remember_of_not_mem h, List.drop_append_of_le_length short]
  simp

theorem mem_remember {capacity : Nat} (room : 0 < capacity) (l : List α) (a : α) :
    a ∈ remember capacity l a := by
  by_cases there : a ∈ l
  · rw [remember_of_mem there]
    exact there
  · exact List.mem_of_getLast? (getLast_remember room there)

/-- Twice is once. -/
theorem remember_remember {capacity : Nat} (room : 0 < capacity) (l : List α) (a : α) :
    remember capacity (remember capacity l a) a = remember capacity l a :=
  remember_of_mem (mem_remember room l a)

/-- A value is there, and what has come after it is among some others. -/
structure Since (a : α) (others : Finset α) (l : List α) : Prop where
  nodup : l.Nodup
  place : ∃ older newer, l = older ++ a :: newer ∧ ∀ b ∈ newer, b ∈ others

omit [DecidableEq α] in
theorem Since.mem {a : α} {others : Finset α} {l : List α} (h : Since a others l) : a ∈ l := by
  obtain ⟨older, newer, rfl, -⟩ := h.place
  simp

/-- The newest value has nothing after it. -/
theorem Since.newest {capacity : Nat} {l : List α} {a : α} (room : 0 < capacity) (h : l.Nodup)
    (ha : a ∉ l) : Since a ∅ (remember capacity l a) := by
  refine ⟨nodup_remember h, l.drop (l.length + 1 - capacity), [], ?_, fun b hb => ?_⟩
  · rw [remember_of_not_mem ha, List.drop_append_of_le_length (by omega)]
  · cases hb

/-- It stays while fewer others than the capacity come after it. -/
theorem Since.remember {capacity : Nat} {others : Finset α} {l : List α} {a b : α}
    (h : Since a others l) (few : ((insert b others).erase a).card < capacity) :
    Since a (insert b others) (remember capacity l b) := by
  obtain ⟨nodup, older, newer, rfl, among⟩ := h
  by_cases there : b ∈ older ++ a :: newer
  · rw [remember_of_mem there]
    exact ⟨nodup, older, newer, rfl, fun c hc => Finset.mem_insert_of_mem (among c hc)⟩
  · have nodup' : (newer ++ [b]).Nodup := by
      have tail : newer.Nodup := (List.nodup_cons.mp (List.nodup_append.mp nodup).2.1).2
      rw [List.nodup_append]
      refine ⟨tail, List.nodup_singleton b, fun x hx y hy => ?_⟩
      rw [List.mem_singleton.mp hy]
      rintro rfl
      exact there (by simp [hx])
    have inside : ∀ c ∈ newer ++ [b], c ∈ (insert b others).erase a := by
      intro c hc
      rw [Finset.mem_erase, Finset.mem_insert]
      rcases List.mem_append.mp hc with hc | hc
      · refine ⟨?_, Or.inr (among c hc)⟩
        rintro rfl
        exact (List.nodup_cons.mp (List.nodup_append.mp nodup).2.1).1 hc
      · obtain rfl := List.mem_singleton.mp hc
        refine ⟨?_, Or.inl rfl⟩
        rintro rfl
        exact there (by simp)
    have short : (newer ++ [b]).length ≤ ((insert b others).erase a).card := by
      rw [← List.toFinset_card_of_nodup nodup']
      exact Finset.card_le_card fun c hc => inside c (List.mem_toFinset.mp hc)
    rw [List.length_append, List.length_singleton] at short
    refine ⟨nodup_remember nodup, older.drop ((older ++ a :: newer).length + 1 - capacity),
      newer ++ [b], ?_, fun c hc => ?_⟩
    · rw [remember_of_not_mem there, List.append_assoc, List.cons_append,
        List.drop_append_of_le_length]
      rw [List.length_append, List.length_cons]
      omega
    · exact Finset.mem_of_mem_erase (inside c hc)

omit [DecidableEq α] in
theorem Since.mono {others others' : Finset α} {l : List α} {a : α} (h : Since a others l)
    (sub : others ⊆ others') : Since a others' l := by
  obtain ⟨nodup, older, newer, rfl, among⟩ := h
  exact ⟨nodup, older, newer, rfl, fun b hb => sub (among b hb)⟩

end Recent
