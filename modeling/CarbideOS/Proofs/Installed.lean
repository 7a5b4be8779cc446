import CarbideOS.Installer.Session
import CarbideOS.Lib.Runs
import CarbideOS.Proofs.Ending
import CarbideOS.Proofs.Scanned

namespace CarbideOS.Installer

namespace Write

variable {job : Job} {s s' : State job} {e : Event job}

/-- Another write has no part in the steps of the one before, but for those of the decoder. -/
theorem renew_step (h : Step s e s') : s'.renew = s.renew ∨ Step s.renew e s'.renew := by
  cases h
  case start_failed message h => exact .inr (.start_failed s.renew message h)
  case start_decoding h => exact .inr (.start_decoding s.renew h)
  case call_failed consumed pos message h =>
    exact .inr (.call_failed s.renew consumed pos message h)
  case call consumed pos pos' hint produced' memory' h input output kept moves =>
    exact .inr (.call s.renew consumed pos pos' hint produced' memory' h input output kept moves)
  case store consumed pos hint h on => exact .inr (.store s.renew consumed pos hint h on)
  case store_left consumed pos hint h left =>
    exact .inr (.store_left s.renew consumed pos hint h left)
  case fail_decoding message h => exact .inr (.fail_decoding s.renew message h)
  all_goals exact .inl rfl

/-- Another write starts as if the decoder had run by itself. -/
theorem run_renew {events : List (Event job)} (h : Run events s) :
    ∃ events', Run events' s.renew := by
  induction h with
  | start => exact ⟨[], .start⟩
  | step before last ih =>
    obtain ⟨events', run⟩ := ih
    rcases renew_step last with same | steps
    · exact ⟨events', same ▸ run⟩
    · exact ⟨_, run.step steps⟩

theorem published_step (h : Step s e s') (decoded : Decoded s) :
    s.ready ≤ s'.ready ∧ ∀ x < s.ready, s'.memory x = s.memory x := by
  cases h
  case call kept _ =>
    exact ⟨Nat.le_refl _, fun x hx => kept x (.inl (hx.trans_le decoded.published))⟩
  case store => exact ⟨decoded.published, fun _ _ => rfl⟩
  case store_left => exact ⟨decoded.published, fun _ _ => rfl⟩
  all_goals exact ⟨Nat.le_refl _, fun _ _ => rfl⟩

theorem finished_step {error : Option String} (h : Step s e s') (ended : s.main = .finished error) :
    s'.main = .finished error := by
  cases h
  case prepare_failed h _ | prepare h _ | open_failed h | open_block h | size_failed h |
      too_small h _ | device_size h _ | discard h | join h _ | join_failed h _ | join_done h _ |
      flush_failed h | fdatasync h | verify_failed h | spot_check h =>
    cases h.symm.trans ended
  all_goals exact ended

end Write

namespace AppWindow

variable {t : Texts} {s : AppWindow} {e : Event} {text : String}

/-- What a key can change. -/
def Typed (s s' : AppWindow) : Prop :=
  s' = s.refresh ∨ ∃ phase selected typed committed miss fade hold power,
    s' = { s with phase, selected, typed, committed, miss, fade, hold, power } ∧
      (phase = s.phase ∨ phase = .target ∨ phase = .confirm)

theorem Typed.refl : Typed s s :=
  .inr ⟨s.phase, s.selected, s.typed, s.committed, s.miss, s.fade, s.hold, s.power, rfl, .inl rfl⟩

theorem Typed.target : Typed s (s.setPhase .target) :=
  .inr ⟨_, _, _, _, _, _, _, _, rfl, .inr (.inl rfl)⟩

theorem typed_power (power : List Power) : Typed s { s with power } :=
  .inr ⟨_, _, _, _, _, _, _, _, rfl, .inl rfl⟩

theorem moveSelection_typed {step : Int} : Typed s (s.moveSelection step) := by
  unfold moveSelection
  split
  · exact .refl
  · exact .inr ⟨_, _, _, _, _, _, _, _, rfl, .inl rfl⟩

theorem typeKey_typed : Typed s (s.typeKey t text) := by
  rcases typeKey_cases t text s with h | h | h | ⟨row, -, -, ⟨-, h⟩ | ⟨-, h⟩⟩
  all_goals
    rw [h]
    exact .inr ⟨_, _, _, _, _, _, _, _, rfl, .inl rfl⟩

theorem keyPressed_typed : Typed s (s.keyPressed t text) := by
  unfold keyPressed
  split
  · exact typed_power _
  · split
    · exact typed_power _
    · split
      · split
        · exact .target
        · exact .refl
      · split
        · exact moveSelection_typed
        · split
          · exact moveSelection_typed
          · split
            · split
              · exact .inr ⟨_, _, _, _, _, _, _, _, rfl, .inr (.inr rfl)⟩
              · exact .refl
            · split
              · exact .inl rfl
              · exact .refl
      · split
        · exact .refl
        · split
          · exact .target
          · exact typeKey_typed
      · exact .refl
      all_goals
        split
        · exact typed_power _
        · split
          · exact .target
          · exact .refl

/-- What an event can change that neither starts a write nor ends one. -/
structure Idles (s s' : AppWindow) : Prop where
  image : s'.image = s.image
  started : s'.started = s.started
  writing : s'.writing = s.writing
  phase : s'.phase = s.phase ∨ s'.phase = .target ∨ s'.phase = .confirm
  disks : s'.disks = s.disks ∨ s'.disks = s.attached
  attached : s'.attached = s.attached ∨ e = .attach s'.attached

theorem Typed.idles {s' : AppWindow} (h : Typed s s') : Idles (e := e) s s' := by
  rcases h with rfl | ⟨phase, _, _, _, _, _, _, _, rfl, shown⟩
  · exact ⟨rfl, rfl, rfl, .inl rfl, .inr rfl, .inl rfl⟩
  · exact ⟨rfl, rfl, rfl, shown, .inl rfl, .inl rfl⟩

theorem pick_typed {index : Nat} : Typed s (s.pick index) := by
  unfold pick
  dsimp only
  split
  · exact .inr ⟨_, _, _, _, _, _, _, _, rfl, .inr (.inr rfl)⟩
  · exact .inr ⟨_, _, _, _, _, _, _, _, rfl, .inl rfl⟩

/-- The event starts a write of a disk that the host keeps. -/
structure Begins (d : Disk) (s s' : AppWindow) : Prop where
  was : s.phase = .confirm
  kept : d ∈ s.disks
  eligible : d.eligible = true
  carried : s.image = true
  image : s'.image = s.image
  started : s'.started = s.started ++ [d]
  phase : s'.phase = .install
  disks : s'.disks = s.disks
  attached : s'.attached = s.attached

theorem after_cases (own : ∀ failed, e ≠ .finish failed) :
    Idles (e := e) s (after t e s) ∨ ∃ d, Begins d s (after t e s) := by
  cases e with
  | key text => exact .inl keyPressed_typed.idles
  | click index =>
    left
    change Idles s (if s.pickerVisible then s.pick index else s)
    split
    · exact pick_typed.idles
    · exact Typed.refl.idles
  | pass ms =>
    change Idles s (s.pass ms) ∨ ∃ d, Begins d s (s.pass ms)
    rcases pass_cases ms s with
      ⟨hold, -, waits⟩ | ⟨d, -, confirm, -, found, eligible, image, begins⟩
    · rw [waits]
      exact .inl ⟨rfl, rfl, rfl, .inl rfl, .inl rfl, .inl rfl⟩
    · rw [begins]
      exact .inr ⟨d, confirm, List.mem_of_getElem? found, eligible, image, rfl, rfl, rfl, rfl, rfl⟩
  | attach disks => exact .inl ⟨rfl, rfl, rfl, .inl rfl, .inl rfl, .inr rfl⟩
  | finish failed => exact absurd rfl (own failed)

end AppWindow

namespace Session

open AppWindow (Idles Begins)

section
variable {job : Write.Job} {t : Texts} {found : List Disk → Prop} {s s' : Session job} {e : Event}
  {d : Disk}

/-- What holds of the installer at all times. There are bytes of the image where writes were
started, and a write is over before another begins. -/
structure Inv (s : Session job) : Prop where
  runs : ∃ events, Write.Run events s.write
  sound : Installer.Sound s.window
  carried : s.window.started ≠ [] → s.window.image = true
  eligible : ∀ d ∈ s.window.started, d.eligible = true
  fresh : s.window.started = [] → s.window.writing = false ∧ s.write.main = .preparing
  rests : s.window.started ≠ [] → s.window.writing = false → ∃ error, s.write.main = .finished error
  target : ∀ d, s.target = some d → s.devices d.node = s.write.device
  written : ∀ node x byte, s.devices node x = some byte →
    (∃ d ∈ s.window.started, d.node = node) ∧ x < s.write.ready ∧ byte = s.write.memory x
  summary : s.window.phase = .summary → s.write.main = .finished none
  failure : s.window.phase = .failure → s.window.image = true →
    ∃ message, s.write.main = .finished (some message)

theorem start_inv (image : Bool) (attached : List Disk) :
    Inv ({ window := .start image attached } : Session job) := by
  have started : (AppWindow.start image attached).started = [] := by cases image <;> rfl
  have writing : (AppWindow.start image attached).writing = false := by cases image <;> rfl
  refine ⟨⟨[], .start⟩, start_sound image attached, fun other => absurd started other, ?_,
    fun _ => ⟨writing, rfl⟩, fun other => absurd started other, fun _ _ => rfl, nofun, ?_, ?_⟩
  · intro d member
    rw [started] at member
    cases member
  · intro shown
    cases image <;> cases shown
  · intro shown carried
    cases image
    · cases carried
    · cases shown

/-- Events that start no write leave what is written alone. -/
theorem Inv.idles (inv : Inv s) {window : AppWindow} (sound : Installer.Sound window)
    (h : Idles (e := e) s.window window) : Inv { s with window } := by
  have was : ∀ {p : Phase}, window.phase = p → p ≠ .target → p ≠ .confirm → s.window.phase = p := by
    intro p shown notTarget notConfirm
    rcases h.phase with same | other | other
    · exact same.symm.trans shown
    · exact absurd (shown.symm.trans other) notTarget
    · exact absurd (shown.symm.trans other) notConfirm
  refine ⟨inv.runs, sound, ?_, ?_, ?_, ?_, ?_, ?_, ?_, ?_⟩
  · exact fun other => h.image.trans (inv.carried (h.started ▸ other))
  · exact fun d member => inv.eligible d (h.started ▸ member)
  · exact fun none_ => h.writing.symm ▸ inv.fresh (h.started ▸ none_)
  · exact fun other idle => inv.rests (h.started ▸ other) (h.writing ▸ idle)
  · intro d last
    refine inv.target d ?_
    rw [Session.target] at last ⊢
    rwa [← h.started]
  · intro node x byte there
    obtain ⟨⟨d, member, same⟩, inside⟩ := inv.written node x byte there
    exact ⟨⟨d, h.started.symm ▸ member, same⟩, inside⟩
  · exact fun shown => inv.summary (was shown (by decide) (by decide))
  · exact fun shown carried => inv.failure (was shown (by decide) (by decide)) (h.image ▸ carried)

theorem shows_idle (same : (AppWindow.after t e s.window).started = s.window.started) :
    s.shows t e = { s with window := AppWindow.after t e s.window } := by
  rw [shows, if_pos same]

theorem shows_begin {d : Disk}
    (more : (AppWindow.after t e s.window).started = s.window.started ++ [d]) :
    s.shows t e = { window := AppWindow.after t e s.window, write := s.write.renew,
                    devices := Function.update s.devices d.node fun _ => none } := by
  have other : (AppWindow.after t e s.window).started ≠ s.window.started := by
    rw [more]
    simp
  rw [shows, if_neg other]
  simp [put, target, more]

/-- Another write begins on a disk of which nothing is known any more. -/
theorem Inv.begins (inv : Inv s) {d : Disk} (h : Begins d s.window (AppWindow.after t e s.window)) :
    Inv (s.shows t e) := by
  rw [shows_begin h.started]
  obtain ⟨events, run⟩ := inv.runs
  have writing : (AppWindow.after t e s.window).writing = true :=
    (after_sound inv.sound).writing.mpr h.phase
  have other : (AppWindow.after t e s.window).started ≠ [] := by
    rw [h.started]
    simp
  refine ⟨Write.run_renew run, after_sound inv.sound, fun _ => h.image.trans h.carried, ?_,
    fun none_ => absurd none_ other, ?_, ?_, ?_, ?_, ?_⟩
  · intro d' member
    dsimp only at member
    rw [h.started, List.mem_append, List.mem_singleton] at member
    rcases member with old | rfl
    · exact inv.eligible d' old
    · exact h.eligible
  · intro _ idle
    exact absurd (writing.symm.trans idle) (by decide)
  · intro d' last
    rw [Session.target] at last
    dsimp only at last
    rw [h.started, List.getLast?_append_of_ne_nil _ (by simp)] at last
    obtain rfl : d = d' := by simpa using last
    exact Function.update_self ..
  · intro node x byte there
    dsimp only at there
    by_cases same : node = d.node
    · rw [same, Function.update_self] at there
      cases there
    · rw [Function.update_of_ne same] at there
      obtain ⟨⟨d', member, named⟩, inside⟩ := inv.written node x byte there
      refine ⟨⟨d', ?_, named⟩, inside⟩
      rw [h.started]
      exact List.mem_append_left _ member
  · intro shown
    exact absurd (h.phase.symm.trans shown) (by decide)
  · intro shown
    exact absurd (h.phase.symm.trans shown) (by decide)

theorem Inv.shows (inv : Inv s) (own : ∀ failed, e ≠ .finish failed) : Inv (s.shows t e) := by
  rcases AppWindow.after_cases (t := t) (s := s.window) own with idles | ⟨d, begins⟩
  · rw [shows_idle idles.started]
    exact inv.idles (after_sound inv.sound) idles
  · exact inv.begins begins

/-- A thread's step adds bytes of the image to the disk of the write that is going on. -/
theorem Inv.works (inv : Inv s) {we : Write.Event job} {w : Write.State job}
    (step : Write.Step s.write we w) (only : s.window.started = [] → w.main = .preparing) :
    Inv { s with write := w, devices := s.put w.device } := by
  obtain ⟨events, run⟩ := inv.runs
  obtain ⟨ready, memory⟩ := Write.published_step step (Write.run_decoded run)
  have later : ∀ {x byte}, x < s.write.ready ∧ byte = s.write.memory x →
      x < w.ready ∧ byte = w.memory x := by
    rintro x byte ⟨below, same⟩
    exact ⟨below.trans_le ready, same.trans (memory x below).symm⟩
  refine ⟨⟨_, run.step step⟩, inv.sound, inv.carried, inv.eligible,
    fun none_ => ⟨(inv.fresh none_).1, only none_⟩, ?_, ?_, ?_, ?_, ?_⟩
  · intro other idle
    obtain ⟨error, ended⟩ := inv.rests other idle
    exact ⟨error, Write.finished_step step ended⟩
  · intro d last
    have last : s.target = some d := last
    dsimp only [put]
    rw [last]
    exact Function.update_self ..
  · intro node x byte there
    dsimp only [put] at there
    cases last : s.target with
    | none =>
      rw [last] at there
      obtain ⟨on, inside⟩ := inv.written node x byte there
      exact ⟨on, later inside⟩
    | some d =>
      rw [last] at there
      by_cases same : node = d.node
      · dsimp only at there
        rw [same, Function.update_self] at there
        have member : d ∈ s.window.started := List.mem_of_getLast? last
        exact ⟨⟨d, member, same.symm⟩, Write.run_exact (run.step step) x byte there⟩
      · dsimp only at there
        rw [Function.update_of_ne same] at there
        obtain ⟨on, inside⟩ := inv.written node x byte there
        exact ⟨on, later inside⟩
  · exact fun shown => Write.finished_step step (inv.summary shown)
  · intro shown carried
    obtain ⟨message, ended⟩ := inv.failure shown carried
    exact ⟨message, Write.finished_step step ended⟩

theorem Inv.polls (inv : Inv s) {error : Option String} (ended : s.write.main = .finished error)
    (writing : s.window.writing = true) :
    Inv { s with window := s.window.finish error.isSome } := by
  have shown : s.window.finish error.isSome =
      { s.window.setPhase (if error.isSome then .failure else .summary) with
        writing := false } := by
    rw [AppWindow.finish, if_pos writing]
  have other : s.window.started ≠ [] := by
    intro none_
    exact absurd (writing.symm.trans (inv.fresh none_).1) (by decide)
  have started : (s.window.finish error.isSome).started = s.window.started := by
    rw [shown]
    rfl
  refine ⟨inv.runs, finish_sound inv.sound, ?_, ?_, ?_, ?_, ?_, ?_, ?_, ?_⟩
  · intro _
    dsimp only
    rw [shown]
    exact inv.carried other
  · exact fun d member => inv.eligible d (started ▸ member)
  · exact fun none_ => absurd (started.symm.trans none_) other
  · exact fun _ _ => ⟨error, ended⟩
  · intro d last
    refine inv.target d ?_
    rw [Session.target] at last ⊢
    rwa [← started]
  · intro node x byte there
    obtain ⟨⟨d, member, same⟩, inside⟩ := inv.written node x byte there
    exact ⟨⟨d, started.symm ▸ member, same⟩, inside⟩
  · intro summary
    cases error with
    | none => exact ended
    | some message =>
      dsimp only at summary
      rw [shown] at summary
      cases summary
  · intro failure _
    cases error with
    | none =>
      dsimp only at failure
      rw [shown] at failure
      cases failure
    | some message => exact ⟨message, ended⟩

theorem inv_step (inv : Inv s) (step : Step t found s s') : Inv s' := by
  cases step with
  | window e scanned own => exact inv.shows own
  | work e w step carried only => exact inv.works step only
  | poll error ended writing => exact inv.polls ended writing

theorem reachable_inv (reach : Reachable t found s) : Inv s := by
  induction reach with
  | start image attached scanned => exact start_inv image attached
  | step before last ih => exact inv_step ih last

/-- While a write is shown, the threads can go on until it has ended. -/
theorem can_end (inv : Inv s) (writing : s.window.writing = true) :
    ∃ s', Relation.ReflTransGen (Step t found) s s' ∧ (Inv s' ∧ s'.window = s.window) ∧
      ∃ error, s'.write.main = .finished error := by
  have other : s.window.started ≠ [] := by
    intro none_
    exact absurd (writing.symm.trans (inv.fresh none_).1) (by decide)
  refine Ranked.can_finish (fun u => u.write.rank) ?_ ⟨inv, rfl⟩
  rintro u ⟨inv, window⟩ on
  rw [not_exists] at on
  obtain ⟨events, run⟩ := inv.runs
  have goes : ∀ {u : Session job}, Inv u → u.window = s.window → ∀ {e w}, Write.Step u.write e w →
      Step t found u { u with write := w, devices := u.put w.device } := by
    intro u inv window e w step
    rw [← window] at other
    exact .work u e w step (inv.carried other) fun none_ => absurd none_ other
  rcases Write.moves (Write.run_inv run) on with
    ⟨e, w, does, next⟩ | ⟨w, e, w', waits, does, next⟩
  · have first := goes inv window next
    have less := Write.rank_step next (Write.run_decoded run)
    rw [if_neg (by simp [does])] at less
    exact ⟨_, .single first, ⟨inv_step inv first, window⟩, less⟩
  · have first := goes inv window waits
    have inv' := inv_step inv first
    have second := goes inv' window next
    have same : w.rank = u.write.rank := Write.rank_step waits (Write.run_decoded run)
    have less := Write.rank_step next (Write.run_decoded (run.step waits))
    rw [if_neg (by simp [does]), same] at less
    exact ⟨_, .head first (.single second), ⟨inv_step inv' second, window⟩, less⟩

/-- The disk that the summary is about has all of the image. Whatever happens to the window, only
bytes of the image are written, to disks that were confirmed and could be written to. A write
begins after the one before is over, and ends in the summary or in a failure. -/
theorem session_installs (reach : Reachable t found s) :
    (s.window.phase = .summary → ∃ d, s.target = some d ∧ s.write.ready = job.total ∧
      ∀ x < job.total, s.devices d.node x = some (s.write.memory x)) ∧
    (∀ node x byte, s.devices node x = some byte →
      (∃ d ∈ s.window.started, d.node = node ∧ d.eligible = true) ∧ x < s.write.ready ∧
        byte = s.write.memory x) ∧
    (∀ s', Step t found s s' → s'.window.started ≠ s.window.started →
      s.window.started = [] ∨ ∃ error, s.write.main = .finished error) ∧
    (s.window.phase = .install → ∃ s', Relation.ReflTransGen (Step t found) s s' ∧
      s'.window.started = s.window.started ∧
      (s'.window.phase = .summary ∨ s'.window.phase = .failure)) := by
  have inv := reachable_inv reach
  refine ⟨fun shown => ?_, fun node x byte there => ?_, fun s' step changed => ?_, fun shown => ?_⟩
  · have ended := inv.summary shown
    obtain ⟨events, run⟩ := inv.runs
    have all := (Write.run_inv run).complete (.inr (.inr ended))
    cases last : s.target with
    | none =>
      have none_ : s.window.started = [] := List.getLast?_eq_none_iff.mp last
      exact absurd (ended.symm.trans (inv.fresh none_).2) nofun
    | some d =>
      refine ⟨d, rfl, all.ready, fun x below => ?_⟩
      rw [inv.target d last]
      exact all.landed x (Nat.zero_le x) below
  · obtain ⟨⟨d, member, same⟩, inside⟩ := inv.written node x byte there
    exact ⟨⟨d, member, same, inv.eligible d member⟩, inside⟩
  · by_cases none_ : s.window.started = []
    · exact .inl none_
    · refine .inr (inv.rests none_ ?_)
      cases step with
      | window e scanned own =>
        rcases AppWindow.after_cases (t := t) (s := s.window) own with idles | ⟨d, begins⟩
        · rw [shows_idle idles.started] at changed
          exact absurd idles.started changed
        · exact inv.sound.idle begins.was
      | work e w step carried only => exact absurd rfl changed
      | poll error ended writing =>
        refine absurd ?_ changed
        dsimp only
        rw [AppWindow.finish, if_pos writing]
        rfl
  · have writing := inv.sound.writing.mpr shown
    have ends : ∃ s', Relation.ReflTransGen (Step t found) s s' ∧
        (Inv s' ∧ s'.window = s.window) ∧ ∃ error, s'.write.main = .finished error :=
      can_end inv writing
    obtain ⟨s', steps, ⟨-, window⟩, error, ended⟩ := ends
    have seen : Step t found s' { s' with window := s'.window.finish error.isSome } :=
      .poll s' error ended (window ▸ writing)
    refine ⟨_, steps.tail seen, ?_, ?_⟩
    all_goals
      dsimp only
      rw [window, AppWindow.finish, if_pos writing]
    · rfl
    · cases error with
      | none => exact .inl rfl
      | some message => exact .inr rfl

/-- Any events of the window alone. -/
theorem Reachable.shows {events : List Event} (own : ∀ e ∈ events, ∀ failed, e ≠ .finish failed)
    (scanned : ∀ e ∈ events, ∀ disks, e = .attach disks → found disks)
    (reach : Reachable t found s) :
    Reachable t found (Interruptible.runAll (shows t) events s) := by
  induction events generalizing s with
  | nil => exact reach
  | cons e events ih =>
    have next : Reachable t found (s.shows t e) :=
      reach.step (.window s e (scanned e List.mem_cons_self) (own e List.mem_cons_self))
    exact ih (fun e member => own e (List.mem_cons_of_mem _ member))
      (fun e member => scanned e (List.mem_cons_of_mem _ member)) next

/-- A whole run of the write that has just begun. -/
theorem Reachable.writes {events : List (Write.Event job)} {w : Write.State job}
    (run : Write.Run events w) (reach : Reachable t found s) (new : s.write = {})
    (begun : s.target = some d) (blank : s.devices d.node = fun _ => none) :
    Reachable t found { s with
      write := w, devices := Function.update s.devices d.node w.device } := by
  have other : s.window.started ≠ [] := by
    intro none_
    rw [Session.target, none_] at begun
    cases begun
  induction run with
  | start =>
    have same : Function.update s.devices d.node (fun _ => none) = s.devices := by
      rw [← blank]
      exact Function.update_eq_self _ _
    change Reachable t found { s with
      write := {}, devices := Function.update s.devices d.node fun _ => none }
    rw [same, ← new]
    exact reach
  | @step events w w' e before last ih =>
    have goes : Step t found _ _ := .work { s with
      write := w, devices := Function.update s.devices d.node w.device } e w' last
      ((reachable_inv reach).carried other) fun none_ => absurd none_ other
    have next := ih.step goes
    have put : ({ s with write := w, devices := Function.update s.devices d.node w.device } :
        Session job).put w'.device = Function.update s.devices d.node w'.device := by
      have last : ({ s with write := w, devices := Function.update s.devices d.node w.device } :
        Session job).target = some d := begun
      rw [Session.put, last]
      exact Function.update_idem ..
    rw [put] at next
    exact next

end

/-- The erase of a drive has been confirmed. -/
def confirmed : Session Write.twoSpans :=
  Interruptible.runAll (shows plainTexts)
    ([Key.enter, Key.enter, "a", "1", "b", "2"].map .key ++ [.pass 500])
    { window := .start true [drive] }

theorem session_installs_two : ∃ s : Session Write.twoSpans, s.window.phase = .summary ∧
    (s.window.phase = .summary → ∃ d, s.target = some d ∧ s.write.ready = Write.twoSpans.total ∧
      ∀ x < Write.twoSpans.total, s.devices d.node x = some (s.write.memory x)) ∧
    (∀ node x byte, s.devices node x = some byte →
      (∃ d ∈ s.window.started, d.node = node ∧ d.eligible = true) ∧ x < s.write.ready ∧
        byte = s.write.memory x) ∧
    (∀ s', Step plainTexts (fun _ => True) s s' → s'.window.started ≠ s.window.started →
      s.window.started = [] ∨ ∃ error, s.write.main = .finished error) ∧
    (s.window.phase = .install → ∃ s', Relation.ReflTransGen (Step plainTexts fun _ => True) s s' ∧
      s'.window.started = s.window.started ∧
      (s'.window.phase = .summary ∨ s'.window.phase = .failure)) := by
  obtain ⟨events, w, run, finished⟩ := Write.twoSpans_written
  have reach : Reachable plainTexts (fun _ => True) confirmed :=
    (Reachable.start true [drive] trivial).shows (by decide) fun _ _ _ _ => trivial
  have begun : confirmed.target = some drive := by decide +kernel
  have written := reach.writes run rfl begun rfl
  have writing : confirmed.window.writing = true := by decide +kernel
  have seen := written.step (.poll _ none finished writing)
  have shown : (confirmed.window.finish false).phase = .summary := by decide +kernel
  exact ⟨_, shown, session_installs seen⟩

section
variable {job : Write.Job} {t : Texts} {boot part : String} {found : List Disk → Prop}
  {s s' : Session job}

/-- The disks are those of a scan on a machine that was started from the given disk. -/
inductive Scans (t : Texts) (boot part : String) : List Disk → Prop where
  | scan (sys : Sysfs) (names : List String) (regular : sys.Regular t names)
      (loaded : sys.LoadedFrom t part) (member : boot ∈ names)
      (holds : sys.contains boot part = true) :
    Scans t boot part ((sys.enumerate t).map FoundDisk.toDisk)

/-- A scan has offered the disk. -/
def Offered (t : Texts) (boot part : String) (d : Disk) : Prop :=
  ∃ (sys : Sysfs) (names : List String) (name : String), sys.Regular t names ∧
    sys.LoadedFrom t part ∧ sys.contains boot part = true ∧ boot ∈ names ∧ name ∈ names ∧
    d.node = "/dev/" ++ name ∧ ¬ sys.Barred t name ∧ minBytes ≤ sys.sectors name * 512 % 2 ^ 64

theorem Scans.offered {disks : List Disk} {d : Disk} (h : Scans t boot part disks)
    (member : d ∈ disks) (eligible : d.eligible = true) : Offered t boot part d := by
  obtain ⟨sys, names, regular, loaded, held, holds⟩ := h
  obtain ⟨f, listed, rfl⟩ := List.mem_map.mp member
  obtain ⟨name, here, examined⟩ := (Sysfs.mem_enumerate regular).mp listed
  have free := (Sysfs.found_eligible regular here examined).mp eligible
  exact ⟨sys, names, name, regular, loaded, holds, held, here,
    (Sysfs.examine_eq_some examined).2.1, free⟩

/-- The disk that holds the loader's partition is never offered. -/
theorem Offered.not_boot {d : Disk} (h : Offered t boot part d) : d.node ≠ "/dev/" ++ boot := by
  obtain ⟨sys, names, name, regular, loaded, holds, held, here, node, free, -⟩ := h
  intro same
  obtain rfl : name = boot := Text.append_left_cancel (node.symm.trans same)
  exact free (.inr (.inr ⟨part, Sysfs.bootPartition_eq loaded, holds⟩))

/-- What the host keeps comes from scans. -/
structure FromScans (found : List Disk → Prop) (w : AppWindow) : Prop where
  attached : found w.attached
  disks : found w.disks
  started : ∀ d ∈ w.started, ∃ disks, found disks ∧ d ∈ disks ∧ d.eligible = true

theorem fromScans_step (h : FromScans found s.window) (step : Step t found s s') :
    FromScans found s'.window := by
  cases step with
  | window e scanned own =>
    rcases AppWindow.after_cases (t := t) (s := s.window) own with idles | ⟨d, begins⟩
    · rw [shows_idle idles.started]
      refine ⟨?_, ?_, ?_⟩
      · rcases idles.attached with same | other
        · exact same ▸ h.attached
        · exact scanned _ other
      · rcases idles.disks with same | same
        · exact same ▸ h.disks
        · exact same ▸ h.attached
      · exact fun d member => h.started d (idles.started ▸ member)
    · rw [shows_begin begins.started]
      refine ⟨begins.attached ▸ h.attached, begins.disks ▸ h.disks, fun d' member => ?_⟩
      dsimp only at member
      rw [begins.started, List.mem_append, List.mem_singleton] at member
      rcases member with old | rfl
      · exact h.started d' old
      · exact ⟨_, h.disks, begins.kept, begins.eligible⟩
  | work e w step carried only => exact h
  | poll error ended writing =>
    dsimp only
    rw [AppWindow.finish, if_pos writing]
    exact ⟨h.attached, h.disks, h.started⟩

theorem reachable_fromScans (reach : Reachable t found s) : FromScans found s.window := by
  induction reach with
  | start image attached scanned =>
    cases image <;> exact ⟨scanned, scanned, fun d member => nomatch member⟩
  | step before last ih => exact fromScans_step ih last

/-- On a machine whose firmware names the partition that the installer was loaded from, no write
is ever started on the disk with that partition, whatever disks come and go and whatever is
done at the screen: the disk is neither cleared nor written to. Every disk that is was offered
by a scan, so it was none of those to keep clear of, and large enough. -/
theorem media_untouched (reach : Reachable t (Scans t boot part) s) :
    (∀ d ∈ s.window.started, Offered t boot part d ∧ d.node ≠ "/dev/" ++ boot) ∧
    (∀ x, s.devices ("/dev/" ++ boot) x = none) := by
  have started : ∀ d ∈ s.window.started, Offered t boot part d := by
    intro d member
    obtain ⟨disks, scanned, listed, eligible⟩ := (reachable_fromScans reach).started d member
    exact scanned.offered listed eligible
  refine ⟨fun d member => ⟨started d member, (started d member).not_boot⟩, fun x => ?_⟩
  cases there : s.devices ("/dev/" ++ boot) x with
  | none => rfl
  | some byte =>
    obtain ⟨⟨d, member, same⟩, -⟩ := (reachable_inv reach).written _ x byte there
    exact absurd same (started d member).not_boot

end

theorem bench_scans : Scans plainTexts "sdb" "sdb1"
    ((Sysfs.bench.enumerate plainTexts).map FoundDisk.toDisk) :=
  .scan Sysfs.bench _ Sysfs.bench_regular Sysfs.bench_loaded (by decide) (by decide)

/-- The drive of the bench is confirmed by the name of its device. -/
def benchConfirmed : Session Write.twoSpans :=
  Interruptible.runAll (shows plainTexts)
    ([Key.enter, Key.enter, "s", "d", "a"].map .key ++ [.pass 500])
    { window := .start true ((Sysfs.bench.enumerate plainTexts).map FoundDisk.toDisk) }

theorem benchConfirmed_new : benchConfirmed.write = {} := by
  have each : Interruptible.EachMeets (@shows Write.twoSpans plainTexts) (fun _ _ => True)
      ([Key.enter, Key.enter, "s", "d", "a"].map .key ++ [.pass 500])
      { window := .start true ((Sysfs.bench.enumerate plainTexts).map FoundDisk.toDisk) } :=
    Interruptible.eachMeets_of_forall (fun _ _ _ => trivial) _
  refine Interruptible.runAll_invariant (I := fun s => s.write = {}) (fun e s new _ => ?_) rfl each
  unfold shows
  dsimp only
  split
  · exact new
  · change s.write.renew = {}
    rw [new]
    rfl

/-- The whole image is written to the drive, beside the stick that the installer came from. -/
theorem media_untouched_bench : ∃ s : Session Write.twoSpans, s.write.main = .finished none ∧
    s.window.started ≠ [] ∧
    (∀ d ∈ s.window.started, Offered plainTexts "sdb" "sdb1" d ∧ d.node ≠ "/dev/" ++ "sdb") ∧
    (∀ x, s.devices ("/dev/" ++ "sdb") x = none) := by
  obtain ⟨events, w, run, finished⟩ := Write.twoSpans_written
  have reach : Reachable plainTexts (Scans plainTexts "sdb" "sdb1") benchConfirmed :=
    (Reachable.start true _ bench_scans).shows (by decide)
      fun e member disks attach => absurd (attach ▸ member) (by simp)
  have started : benchConfirmed.window.started ≠ [] := by
    rw [benchConfirmed, Sysfs.bench_found]
    decide +kernel
  obtain ⟨d, begun⟩ : ∃ d, benchConfirmed.target = some d :=
    ⟨_, List.getLast?_eq_some_getLast started⟩
  have blank : benchConfirmed.devices d.node = fun _ => none := by
    funext x
    cases there : benchConfirmed.devices d.node x with
    | none => rfl
    | some byte =>
      have early := ((reachable_inv reach).written _ x byte there).2.1
      rw [benchConfirmed_new] at early
      exact absurd early (Nat.not_lt_zero x)
  have written := reach.writes run benchConfirmed_new begun blank
  refine ⟨_, ?_, ?_, media_untouched written⟩
  · exact finished
  · exact started

end Session
end CarbideOS.Installer
