import CarbideOS.Installer.Screens

namespace CarbideOS.Installer.AppWindow

/-- The event enters the confirm screen. -/
def enters : Event → AppWindow → Bool
  | .key text, s => s.phase == .target && text == Key.enter && s.selectedEligible
  | .click index, s => s.pickerVisible && (s.rows[index]?).any DiskInfo.eligible
  | _, _ => false

/-- The card that is selected once the event has entered the confirm screen. -/
def chosen : Event → AppWindow → Nat
  | .click index, _ => index
  | _, s => s.selected

/-- The window shows what the host keeps. -/
def Synced (s : AppWindow) : Prop := s.rows = s.disks.map toRow

section
variable {t : Texts} {s : AppWindow} {e : Event} {p : Phase} {d : Disk} {text : String}

@[simp] theorem setPhase_phase : (s.setPhase p).phase = p := rfl
@[simp] theorem setPhase_rows : (s.setPhase p).rows = s.rows := rfl
@[simp] theorem setPhase_disks : (s.setPhase p).disks = s.disks := rfl
@[simp] theorem setPhase_selected : (s.setPhase p).selected = s.selected := rfl
@[simp] theorem setPhase_typed : (s.setPhase p).typed = s.typed := rfl
@[simp] theorem setPhase_committed : (s.setPhase p).committed = s.committed := rfl
@[simp] theorem setPhase_hold : (s.setPhase p).hold = s.hold := rfl
@[simp] theorem setPhase_image : (s.setPhase p).image = s.image := rfl
@[simp] theorem setPhase_started : (s.setPhase p).started = s.started := rfl
@[simp] theorem setPhase_writing : (s.setPhase p).writing = s.writing := rfl
@[simp] theorem setPhase_power : (s.setPhase p).power = s.power := rfl

/-- The commit timer finds a disk to write, or changes nothing. -/
theorem beginInstall_cases (s : AppWindow) : s.beginInstall = s ∨
    ∃ d, s.disks[s.selected]? = some d ∧ d.eligible = true ∧ s.image = true ∧
      s.beginInstall =
        { s.setPhase .install with started := s.started ++ [d], writing := true } := by
  unfold beginInstall
  cases found : s.disks[s.selected]? with
  | none => exact .inl rfl
  | some d =>
    cases eligible : d.eligible with
    | false => exact .inl (by simp [eligible])
    | true =>
      cases image : s.image with
      | false => exact .inl (by simp [eligible])
      | true => exact .inr ⟨d, rfl, eligible, rfl, by simp [eligible]⟩

/-- Time wears the fade and the timer down, or the timer starts a write. -/
theorem pass_cases (ms : Nat) (s : AppWindow) :
    (∃ hold, min (s.hold - ms) commitHold ≤ hold ∧
      s.pass ms = { s with fade := s.fade - ms, hold }) ∨
    ∃ d, s.committed = true ∧ s.phase = .confirm ∧ s.hold ≤ ms ∧ s.disks[s.selected]? = some d ∧
      d.eligible = true ∧ s.image = true ∧
      s.pass ms = { s with
        phase := .install, fade := s.fade - ms, hold := commitHold, started := s.started ++ [d],
        writing := true } := by
  by_cases running : s.committed = true ∧ s.phase = .confirm
  · by_cases due : s.hold ≤ ms
    · have triggers : s.pass ms =
          { s with fade := s.fade - ms, hold := commitHold }.beginInstall := by
        simp [pass, running, due]
      rcases beginInstall_cases { s with fade := s.fade - ms, hold := commitHold } with
        idle | ⟨d, found, eligible, image, begins⟩
      · exact .inl ⟨commitHold, Nat.min_le_right _ _, triggers.trans idle⟩
      · refine .inr ⟨d, running.1, running.2, due, found, eligible, image, ?_⟩
        rw [triggers, begins, setPhase]
        simp [running]
    · refine .inl ⟨s.hold - ms, Nat.min_le_left _ _, ?_⟩
      simp [pass, running, due]
  · refine .inl ⟨s.hold, (Nat.min_le_left _ _).trans (Nat.sub_le _ _), ?_⟩
    have off : ¬ (s.committed && s.phase == .confirm) = true := by simpa using running
    exact if_neg off

/-- A key on the confirm screen edits the typed code and may commit. -/
theorem typeKey_cases (t : Texts) (text : String) (s : AppWindow) :
    s.typeKey t text = s ∨
    s.typeKey t text = { s with typed := s.typed - 1 } ∨
    s.typeKey t text = { s with typed := 0, miss := s.miss + 1 } ∨
    ∃ row, s.rows[s.selected]? = some row ∧ row.codeChars[s.typed]? = some (t.toUppercase text) ∧
      (s.typed + 1 < row.codeChars.length ∧ s.typeKey t text = { s with typed := s.typed + 1 } ∨
        row.codeChars.length = s.typed + 1 ∧
          s.typeKey t text = { s with typed := s.typed + 1 }.commit) := by
  unfold typeKey
  split
  · exact .inr (.inl rfl)
  · split
    · exact .inl rfl
    · cases shown : s.rows[s.selected]? with
      | none => exact .inr (.inr (.inl (if_neg (by simp))))
      | some row =>
        simp only [Option.map_some, Option.getD_some]
        split
        · rename_i here
          have there : s.typed < row.codeChars.length := (List.getElem?_eq_some_iff.mp here).1
          refine .inr (.inr (.inr ⟨row, rfl, here, ?_⟩))
          split
          · exact .inr ⟨by omega, rfl⟩
          · exact .inl ⟨by omega, rfl⟩
        · exact .inr (.inr (.inl rfl))

theorem typeKey_phase : (s.typeKey t text).phase = s.phase := by
  rcases typeKey_cases t text s with h | h | h | ⟨row, -, -, ⟨-, h⟩ | ⟨-, h⟩⟩ <;>
    simp only [h, commit]

/-- An event that enters the confirm screen selects its disk and starts afresh. -/
theorem after_enters (h : enters e s = true) :
    after t e s = { s with selected := chosen e s }.enterConfirm ∧
      (s.rows[chosen e s]?).any DiskInfo.eligible = true := by
  cases e with
  | key text =>
    simp only [enters, Bool.and_eq_true, beq_iff_eq] at h
    obtain ⟨⟨target, rfl⟩, eligible⟩ := h
    refine ⟨?_, eligible⟩
    have letter : Key.enter ≠ "r" ∧ Key.enter ≠ "R" ∧ Key.enter ≠ "p" ∧ Key.enter ≠ "P" ∧
        Key.enter ≠ Key.upArrow ∧ Key.enter ≠ Key.downArrow := by decide
    have entering : s.keyPressed t Key.enter = s.enterConfirm := by
      simp [keyPressed, target, letter, eligible]
    exact entering
  | click index =>
    simp only [enters, Bool.and_eq_true] at h
    refine ⟨?_, h.2⟩
    change (if s.pickerVisible then s.pick index else s) = _
    rw [if_pos h.1, pick]
    exact if_pos h.2
  | pass ms => cases h
  | attach disks => cases h
  | finish failed => cases h

@[simp] theorem moveSelection_phase {step : Int} : (s.moveSelection step).phase = s.phase := by
  rw [moveSelection]
  split <;> rfl

/-- No key but the one that enters it leads to the confirm screen. -/
theorem keyPressed_confirm (shown : (s.keyPressed t text).phase = .confirm)
    (stays : enters (.key text) s = false) : s.phase = .confirm := by
  unfold keyPressed at shown
  split at shown
  · exact shown
  · split at shown
    · exact shown
    · split at shown
      · split at shown
        · cases shown
        · exact shown
      · rename_i target
        split at shown
        · simpa using shown
        · split at shown
          · simpa using shown
          · split at shown
            · rename_i entered
              split at shown
              · rename_i eligible
                simp [enters, target, entered, eligible] at stays
              · exact shown
            · split at shown <;> exact shown
      · assumption
      · exact shown
      all_goals
        split at shown
        · exact shown
        · split at shown
          · cases shown
          · exact shown

/-- An event that leaves the confirm screen showing, and does not enter it, was a key
for the code, a click on a card that cannot be chosen, or time. -/
theorem confirm_cases (shown : (after t e s).phase = .confirm) (stays : enters e s = false) :
    s.phase = .confirm ∧
    ((∃ text, e = .key text ∧ s.committed = false ∧ after t e s = s.typeKey t text) ∨
      (∃ index, e = .click index ∧ s.pickerVisible = true ∧
        (s.rows[index]?).any DiskInfo.eligible = false ∧
        after t e s = { s with selected := index }) ∨
      ∃ fade hold attached, after t e s = { s with fade, hold, attached }) := by
  cases e with
  | key text =>
    have still := keyPressed_confirm shown stays
    refine ⟨still, ?_⟩
    have keys : s.systemKeys = false := by simp [systemKeys, still]
    by_cases committed : s.committed = true
    · have swallowed : s.keyPressed t text = s := by simp [keyPressed, keys, still, committed]
      exact .inr (.inr ⟨s.fade, s.hold, s.attached, swallowed⟩)
    · rw [Bool.not_eq_true] at committed
      refine .inl ⟨text, rfl, committed, ?_⟩
      by_cases escape : text = Key.escape
      · simp [after, keyPressed, keys, still, committed, escape] at shown
      · simp [after, keyPressed, keys, still, committed, escape]
  | click index =>
    change (if s.pickerVisible then s.pick index else s).phase = .confirm at shown
    change _ ∧ (_ ∨ _ ∨ ∃ fade hold attached, (if s.pickerVisible then s.pick index else s) = _)
    cases visible : s.pickerVisible with
    | false =>
      simp only [visible, Bool.false_eq_true, if_false] at shown
      exact ⟨shown, .inr (.inr ⟨s.fade, s.hold, s.attached, rfl⟩)⟩
    | true =>
      simp only [enters, visible, Bool.true_and] at stays
      have picked : s.pick index = { s with selected := index } := by
        rw [pick]
        exact if_neg (by simpa [selectedEligible] using stays)
      simp only [visible, if_true, picked] at shown
      exact ⟨shown, .inr (.inl ⟨index, rfl, rfl, stays, by simp [after, visible, picked]⟩)⟩
  | pass ms =>
    change (s.pass ms).phase = .confirm at shown
    rcases pass_cases ms s with ⟨hold, -, waits⟩ | ⟨d, -, -, -, -, -, -, begins⟩
    · rw [waits] at shown
      exact ⟨shown, .inr (.inr ⟨s.fade - ms, hold, s.attached, waits⟩)⟩
    · rw [begins] at shown
      cases shown
  | attach disks => exact ⟨shown, .inr (.inr ⟨s.fade, s.hold, disks, rfl⟩)⟩
  | finish failed =>
    change (s.finish failed).phase = .confirm at shown
    change _ ∧ (_ ∨ _ ∨ ∃ fade hold attached, s.finish failed = _)
    unfold finish at shown ⊢
    split at shown
    · cases failed <;> cases shown
    · rename_i idle
      exact ⟨shown, .inr (.inr ⟨s.fade, s.hold, s.attached, if_neg idle⟩)⟩

/-- What keys leave alone. -/
structure SameWrite (s s' : AppWindow) : Prop where
  image : s'.image = s.image
  started : s'.started = s.started
  writing : s'.writing = s.writing

theorem moveSelection_same {step : Int} : SameWrite s (s.moveSelection step) := by
  unfold moveSelection
  split <;> exact ⟨rfl, rfl, rfl⟩

theorem typeKey_same : SameWrite s (s.typeKey t text) := by
  rcases typeKey_cases t text s with h | h | h | ⟨row, -, -, ⟨-, h⟩ | ⟨-, h⟩⟩ <;>
    (rw [h]; exact ⟨rfl, rfl, rfl⟩)

theorem keyPressed_same : SameWrite s (s.keyPressed t text) := by
  unfold keyPressed
  split
  · exact ⟨rfl, rfl, rfl⟩
  · split
    · exact ⟨rfl, rfl, rfl⟩
    · split
      · split <;> exact ⟨rfl, rfl, rfl⟩
      · split
        · exact moveSelection_same
        · split
          · exact moveSelection_same
          · split
            · split <;> exact ⟨rfl, rfl, rfl⟩
            · split <;> exact ⟨rfl, rfl, rfl⟩
      · split
        · exact ⟨rfl, rfl, rfl⟩
        · split
          · exact ⟨rfl, rfl, rfl⟩
          · exact typeKey_same
      · exact ⟨rfl, rfl, rfl⟩
      all_goals
        split
        · exact ⟨rfl, rfl, rfl⟩
        · split <;> exact ⟨rfl, rfl, rfl⟩

theorem moveSelection_disks {step : Int} : (s.moveSelection step).rows = s.rows ∧
    (s.moveSelection step).disks = s.disks := by
  unfold moveSelection
  split <;> exact ⟨rfl, rfl⟩

theorem typeKey_disks : (s.typeKey t text).rows = s.rows ∧
    (s.typeKey t text).disks = s.disks := by
  rcases typeKey_cases t text s with h | h | h | ⟨row, -, -, ⟨-, h⟩ | ⟨-, h⟩⟩ <;>
    (rw [h]; exact ⟨rfl, rfl⟩)

theorem typeKey_selected : (s.typeKey t text).selected = s.selected := by
  rcases typeKey_cases t text s with h | h | h | ⟨row, -, -, ⟨-, h⟩ | ⟨-, h⟩⟩ <;>
    simp only [h, commit]

/-- Rows and disks change together, in a scan. -/
theorem keyPressed_disks : (s.keyPressed t text).rows = s.rows ∧
    (s.keyPressed t text).disks = s.disks ∨ s.keyPressed t text = s.refresh := by
  unfold keyPressed
  split
  · exact .inl ⟨rfl, rfl⟩
  · split
    · exact .inl ⟨rfl, rfl⟩
    · split
      · split <;> exact .inl ⟨rfl, rfl⟩
      · split
        · exact .inl moveSelection_disks
        · split
          · exact .inl moveSelection_disks
          · split
            · split <;> exact .inl ⟨rfl, rfl⟩
            · split
              · exact .inr rfl
              · exact .inl ⟨rfl, rfl⟩
      · split
        · exact .inl ⟨rfl, rfl⟩
        · split
          · exact .inl ⟨rfl, rfl⟩
          · exact .inl typeKey_disks
      · exact .inl ⟨rfl, rfl⟩
      all_goals
        split
        · exact .inl ⟨rfl, rfl⟩
        · split <;> exact .inl ⟨rfl, rfl⟩

theorem pick_same {index : Nat} : SameWrite s (s.pick index) ∧ (s.pick index).rows = s.rows ∧
    (s.pick index).disks = s.disks := by
  unfold pick
  dsimp only
  split <;> exact ⟨⟨rfl, rfl, rfl⟩, rfl, rfl⟩

theorem after_synced (h : Synced s) : Synced (after t e s) := by
  cases e with
  | key text =>
    have pressed : (s.keyPressed t text).rows = s.rows ∧ (s.keyPressed t text).disks = s.disks ∨
        s.keyPressed t text = s.refresh := keyPressed_disks
    rcases pressed with ⟨rows, disks⟩ | scanned
    · change (s.keyPressed t text).rows = (s.keyPressed t text).disks.map toRow
      rw [rows, disks]
      exact h
    · change Synced (s.keyPressed t text)
      rw [scanned]
      rfl
  | click index =>
    change Synced (if s.pickerVisible then s.pick index else s)
    split
    · exact (pick_same.2.1.trans h).trans (by rw [pick_same.2.2])
    · exact h
  | pass ms =>
    change Synced (s.pass ms)
    rcases pass_cases ms s with ⟨hold, -, waits⟩ | ⟨d, -, -, -, -, -, -, begins⟩
    · rw [waits]
      exact h
    · rw [begins]
      exact h
  | attach disks => exact h
  | finish failed =>
    change Synced (s.finish failed)
    unfold finish
    split <;> exact h

/-- Writes are started by the commit timer only. -/
theorem started_cases (t : Texts) (e : Event) (s : AppWindow) :
    (after t e s).started = s.started ∨
    ∃ ms d, e = .pass ms ∧ s.committed = true ∧ s.phase = .confirm ∧
      s.disks[s.selected]? = some d ∧ d.eligible = true ∧ s.image = true ∧
      (after t e s).started = s.started ++ [d] := by
  cases e with
  | key text => exact .inl keyPressed_same.started
  | click index =>
    change (if s.pickerVisible then s.pick index else s).started = s.started ∨ _
    split
    · exact .inl pick_same.1.started
    · exact .inl rfl
  | pass ms =>
    change (s.pass ms).started = s.started ∨ ∃ ms' d, _ ∧ _ ∧ _ ∧ _ ∧ _ ∧ _ ∧
      (s.pass ms).started = _
    rcases pass_cases ms s with ⟨hold, -, waits⟩ | ⟨d, committed, confirm, -, found, eligible,
      image, begins⟩
    · rw [waits]
      exact .inl rfl
    · rw [begins]
      exact .inr ⟨ms, d, rfl, committed, confirm, found, eligible, image, rfl⟩
  | attach disks => exact .inl rfl
  | finish failed =>
    change (s.finish failed).started = s.started ∨ _
    unfold finish
    split <;> exact .inl rfl

/-- A disk that is shown as one to choose is one the host would erase. -/
theorem Synced.row {s : AppWindow} (h : Synced s) {index : Nat}
    (eligible : (s.rows[index]?).any DiskInfo.eligible = true) :
    ∃ d, s.disks[index]? = some d ∧ s.rows[index]? = some (toRow d) ∧ d.eligible = true := by
  rw [h, List.getElem?_map] at eligible ⊢
  cases found : s.disks[index]? with
  | none =>
    rw [found] at eligible
    cases eligible
  | some d =>
    rw [found] at eligible
    exact ⟨d, rfl, rfl, eligible⟩

theorem start_synced (image : Bool) (attached : List Disk) : Synced (start image attached) := by
  cases image <;> rfl

end
end CarbideOS.Installer.AppWindow
