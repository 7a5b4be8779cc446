import CarbideOS.Proofs.Written

namespace CarbideOS.Installer.Write

/-! A write of an image comes to an end. Every step but a look or a call without any effect
uses up some of what there is to do. -/

variable {job : Job} {s s' : State job} {e : Event job}

instance (consumed pos hint produced : Nat) : Decidable (Leaves job consumed pos hint produced) :=
  inferInstanceAs (Decidable (_ ∨ _ ∨ _))

/-- What the decoder has to do at most, in calls and their publication. -/
def decoderRank (s : State job) : Nat :=
  match s.decoder with
  | .starting => 2 * (job.source + job.total) + 3
  | .calling _ pos => 2 * (job.source - pos + (job.total - s.produced)) + 2
  | .storing consumed pos hint =>
    2 * (job.source - (if Leaves job consumed pos hint s.produced then job.fed consumed else pos) +
      (job.total - s.produced)) + 3
  | .failing _ => 1
  | .ended => 0

/-- What a worker has to do at most before it claims another span. -/
def Worker.rank : Worker → Nat
  | .waiting _ | .asking _ => spanSize + 6
  | .writing _ done => spanSize - done + 5
  | .counting _ => 4
  | .checking => 3
  | .claiming => 2
  | .failing _ => 1
  | .exited => 0

def Main.rank : Main → Nat
  | .preparing => 8
  | .opening => 7
  | .sizing => 6
  | .discarding => 5
  | .writing => 4
  | .joined => 3
  | .flushing => 2
  | .verifying => 1
  | .finished _ => 0

def State.rank (s : State job) : Nat :=
  decoderRank s + (spanSize + 6) * (job.spans - s.next) + ∑ w, (s.worker w).rank + s.main.rank

/-- What there is to do at the start. -/
def Job.bound (job : Job) : Nat :=
  2 * (job.source + job.total) + 3 + (spanSize + 6) * job.spans + job.workers * 3 + 8

theorem fed_le (job : Job) (consumed : Nat) : job.fed consumed ≤ job.source :=
  Nat.min_le_right _ _

theorem len_le (job : Job) (index : Nat) : job.len index ≤ spanSize := Nat.min_le_left _ _

theorem sum_setWorker (w : Fin job.workers) (p : Worker) :
    (∑ v, ((s.setWorker w p).worker v).rank) + (s.worker w).rank =
      (∑ v, (s.worker v).rank) + p.rank := by
  rw [← Finset.add_sum_erase _ _ (Finset.mem_univ w), setWorker_self,
    ← Finset.add_sum_erase _ (fun v => (s.worker v).rank) (Finset.mem_univ w)]
  have others : ∑ v ∈ Finset.univ.erase w, ((s.setWorker w p).worker v).rank =
      ∑ v ∈ Finset.univ.erase w, (s.worker v).rank := by
    refine Finset.sum_congr rfl fun v hv => ?_
    rw [setWorker_other (Finset.ne_of_mem_erase hv)]
  rw [others]
  omega

/-- What is left to do after the publication of what a call has decoded. -/
theorem decodeOn_rank (s' : State job) (consumed : Nat)
    (decoder : s'.decoder = decodeOn job consumed s'.produced) :
    decoderRank s' ≤ 2 * (job.source - consumed + (job.total - s'.produced)) + 2 := by
  unfold decoderRank
  rcases decodeOn_cases job consumed s'.produced with ⟨-, -, on⟩ | ⟨message, on⟩ | ⟨-, on⟩
  all_goals rw [decoder, on]
  · exact Nat.succ_le_succ (Nat.zero_le _)
  · exact Nat.zero_le _

/-- The decoder is not concerned by a step of another. -/
theorem decoderRank_other (decoder : s'.decoder = s.decoder) (produced : s'.produced = s.produced) :
    decoderRank s' = decoderRank s := by
  unfold decoderRank
  rw [decoder, produced]

/-- What a worker's step takes of what there is to do. -/
theorem rank_worked (s s' : State job) {w : Fin job.workers} {p : Worker}
    (decoder : s'.decoder = s.decoder) (produced : s'.produced = s.produced)
    (worker : s'.worker = (s.setWorker w p).worker) (main : s'.main = s.main) :
    s'.rank + ((spanSize + 6) * (job.spans - s.next) + (s.worker w).rank) =
      s.rank + ((spanSize + 6) * (job.spans - s'.next) + p.rank) := by
  have sum := sum_setWorker (s := s) w p
  unfold State.rank
  rw [decoderRank_other decoder produced, worker, main]
  omega

/-- A worker's step that does something. -/
theorem rank_used {w : Fin job.workers} {p : Worker}
    (less : (spanSize + 6) * (job.spans - s'.next) + p.rank <
      (spanSize + 6) * (job.spans - s.next) + (s.worker w).rank)
    (decoder : s'.decoder = s.decoder) (produced : s'.produced = s.produced)
    (worker : s'.worker = (s.setWorker w p).worker) (main : s'.main = s.main) :
    s'.rank < s.rank := by
  have all := rank_worked s s' decoder produced worker main
  omega

/-- A worker's step that claims nothing. -/
theorem rank_less {w : Fin job.workers} {p : Worker} (less : p.rank < (s.worker w).rank)
    (decoder : s'.decoder = s.decoder) (produced : s'.produced = s.produced)
    (worker : s'.worker = (s.setWorker w p).worker) (main : s'.main = s.main)
    (next : s'.next = s.next) : s'.rank < s.rank := by
  refine rank_used ?_ decoder produced worker main
  rw [next]
  exact Nat.add_lt_add_left less _

/-- A step of the decoder takes some of what it has to do. -/
theorem rank_decoded (less : decoderRank s' < decoderRank s) (next : s'.next = s.next)
    (worker : s'.worker = s.worker) (main : s'.main = s.main) : s'.rank < s.rank := by
  unfold State.rank
  rw [next, worker, main]
  omega

theorem rank_main {m m' : Main} (was : s.main = m) (now : s'.main = m') (less : m'.rank < m.rank)
    (decoder : s'.decoder = s.decoder) (produced : s'.produced = s.produced)
    (worker : s'.worker = s.worker) (next : s'.next = s.next) : s'.rank < s.rank := by
  unfold State.rank
  rw [decoderRank_other decoder produced, worker, next, was, now]
  omega

/-- A run that has finished has nothing more to do. -/
theorem rank_finish (on : 0 < s.main.rank) {error : Option String}
    (main : s'.main = .finished error) (decoder : s'.decoder = s.decoder)
    (produced : s'.produced = s.produced) (worker : s'.worker = s.worker)
    (next : s'.next = s.next) : s'.rank < s.rank := by
  exact rank_main rfl main on decoder produced worker next

theorem rank_step (h : Step s e s') (decoded : Decoded s) :
    if e.idles then s'.rank = s.rank else s'.rank < s.rank := by
  cases h
  case start_failed message h =>
    refine rank_decoded ?_ rfl rfl rfl
    simp only [decoderRank, h]
    omega
  case start_decoding h =>
    have nothing := decoded.fresh h
    refine rank_decoded ?_ rfl rfl rfl
    have all : decoderRank s = 2 * (job.source + job.total) + 3 := by
      simp only [decoderRank, h]
    split
    · rw [all]
      simp only [decoderRank, nothing]
      omega
    · have less := decodeOn_rank { s with decoder := decodeOn job 0 s.produced } 0 rfl
      dsimp only at less
      omega
  case call_failed consumed pos message h =>
    refine rank_decoded ?_ rfl rfl rfl
    simp only [decoderRank, h]
    omega
  case call consumed pos pos' hint produced' memory' h input output kept moves =>
    refine rank_decoded ?_ rfl rfl rfl
    have short := decoded.called consumed pos h
    have fits := fed_le job consumed
    simp only [decoderRank, h]
    split
    · omega
    · rename_i on
      have moved : pos < pos' ∨ s.produced < produced' := by
        rcases moves with fed | decoded | left
        · exact .inl fed
        · exact .inr decoded
        · exact absurd left on
      omega
  case stall => exact rfl
  case store consumed pos hint h on =>
    refine rank_decoded ?_ rfl rfl rfl
    simp only [decoderRank, h, if_neg on]
    omega
  case store_left consumed pos hint h left =>
    refine rank_decoded ?_ rfl rfl rfl
    have less := decodeOn_rank { s with
      ready := s.produced, decoder := decodeOn job (job.fed consumed) s.produced }
      (job.fed consumed) rfl
    have now : decoderRank s =
        2 * (job.source - job.fed consumed + (job.total - s.produced)) + 3 := by
      simp only [decoderRank, h, if_pos left]
    dsimp only at less
    omega
  case fail_decoding message h =>
    refine rank_decoded ?_ rfl rfl rfl
    simp only [decoderRank, h]
    omega
  case prepare_failed message h _ =>
    exact rank_finish (by rw [h]; decide) rfl rfl rfl rfl rfl
  case prepare h _ => exact rank_main h rfl (Nat.le_refl _) rfl rfl rfl rfl
  case open_failed message h => exact rank_finish (by rw [h]; decide) rfl rfl rfl rfl rfl
  case open_block h => exact rank_main h rfl (Nat.le_refl _) rfl rfl rfl rfl
  case size_failed message h => exact rank_finish (by rw [h]; decide) rfl rfl rfl rfl rfl
  case too_small size h _ => exact rank_finish (by rw [h]; decide) rfl rfl rfl rfl rfl
  case device_size size h _ => exact rank_main h rfl (Nat.le_refl _) rfl rfl rfl rfl
  case discard h => exact rank_main h rfl (Nat.le_refl _) rfl rfl rfl rfl
  case check w on h _ => exact rank_less (by rw [h]; decide) rfl rfl rfl rfl rfl
  case check_failed w on h _ => exact rank_less (by rw [h]; decide) rfl rfl rfl rfl rfl
  case claim w on h left =>
    refine rank_used (p := .waiting s.next) ?_ rfl rfl rfl rfl
    have one : job.spans - s.next = job.spans - (s.next + 1) + 1 := by omega
    change (spanSize + 6) * (job.spans - (s.next + 1)) + (spanSize + 6) < _
    simp only [h, Worker.rank, one, Nat.mul_add]
    omega
  case claim_none w on h none_ =>
    refine rank_used (p := .exited) ?_ rfl rfl rfl rfl
    have none' : job.spans - s.next = job.spans - (s.next + 1) := by omega
    change (spanSize + 6) * (job.spans - (s.next + 1)) + 0 < _
    simp only [h, Worker.rank, none']
    omega
  case wait_over w index on h _ =>
    have less : (Worker.writing index 0).rank < (s.worker w).rank := by
      simp only [h, Worker.rank]
      omega
    exact rank_less less rfl rfl rfl rfl rfl
  case wait w index on h _ =>
    have all := rank_worked s (s.setWorker w (.asking index)) rfl rfl rfl rfl
    simp only [h, Worker.rank] at all
    exact Nat.add_right_cancel all
  case ask_failed w index message on h _ =>
    have less : (Worker.failing message).rank < (s.worker w).rank := by
      simp only [h, Worker.rank]
      omega
    exact rank_less less rfl rfl rfl rfl rfl
  case ask w index on h _ =>
    have all := rank_worked s (s.setWorker w (.waiting index)) rfl rfl rfl rfl
    simp only [h, Worker.rank] at all
    exact Nat.add_right_cancel all
  case pwrite w index k count on h some_ part =>
    have fits := len_le job index
    have less : (Worker.writing index (k + count)).rank < (s.worker w).rank := by
      simp only [h, Worker.rank]
      omega
    exact rank_less less rfl rfl rfl rfl rfl
  case interrupted => exact rfl
  case short_write w index k on h _ =>
    have less : (Worker.failing "short write").rank < (s.worker w).rank := by
      simp only [h, Worker.rank]
      omega
    exact rank_less less rfl rfl rfl rfl rfl
  case write_failed w index k message on h _ =>
    have less : (Worker.failing message).rank < (s.worker w).rank := by
      simp only [h, Worker.rank]
      omega
    exact rank_less less rfl rfl rfl rfl rfl
  case write_over w index k on h _ =>
    have less : (Worker.counting index).rank < (s.worker w).rank := by
      simp only [h, Worker.rank]
      omega
    exact rank_less less rfl rfl rfl rfl rfl
  case count w index on h =>
    have less : Worker.checking.rank < (s.worker w).rank := by
      simp only [h, Worker.rank]
      omega
    exact rank_less less rfl rfl rfl rfl rfl
  case fail_writing w message on h =>
    exact rank_less (by rw [h]; exact Nat.one_pos) rfl rfl rfl rfl rfl
  case join on _ => exact rank_main on rfl (Nat.le_refl _) rfl rfl rfl rfl
  case join_failed message h _ => exact rank_finish (by rw [h]; decide) rfl rfl rfl rfl rfl
  case join_done h _ => exact rank_main h rfl (Nat.le_refl _) rfl rfl rfl rfl
  case flush_failed message h => exact rank_finish (by rw [h]; decide) rfl rfl rfl rfl rfl
  case fdatasync h => exact rank_main h rfl (Nat.le_refl _) rfl rfl rfl rfl
  case verify_failed message h => exact rank_finish (by rw [h]; decide) rfl rfl rfl rfl rfl
  case spot_check h => exact rank_main h rfl (Nat.le_refl _) rfl rfl rfl rfl

/-- All the steps of a run but those that do nothing are paid for at its start. -/
theorem run_rank {events : List (Event job)} (h : Run events s) :
    events.countP (fun e => !e.idles) + s.rank ≤ job.bound := by
  induction h with
  | start =>
    have workers : ∑ _w : Fin job.workers, Worker.checking.rank = job.workers * 3 := by
      rw [Finset.sum_const, Finset.card_univ, Fintype.card_fin]
      rfl
    change 0 + (2 * (job.source + job.total) + 3 + (spanSize + 6) * (job.spans - 0) +
      ∑ _w : Fin job.workers, Worker.checking.rank + 8) ≤ job.bound
    rw [workers, Nat.zero_add, Nat.sub_zero, Job.bound]
  | @step events before after e run last ih =>
    have paid := rank_step last (run_decoded run)
    rw [List.countP_append, List.countP_singleton]
    cases idle : e.idles with
    | true =>
      rw [if_pos idle] at paid
      rw [if_neg (by simp)]
      omega
    | false =>
      rw [if_neg (by simp [idle])] at paid
      rw [if_pos (by simp)]
      omega

/-- A decoder that has not ended can go on. -/
theorem decoder_moves (inv : Inv s) (on : s.decoder ≠ .ended) :
    ∃ s', Step s .other s' := by
  cases h : s.decoder with
  | starting => exact ⟨_, .start_decoding s h⟩
  | calling consumed pos =>
    have short := inv.decoded.called consumed pos h
    refine ⟨_, .call s consumed pos (job.fed consumed) 0 s.produced s.memory h ?_ ?_ ?_ ?_⟩
    · exact ⟨short.le, Nat.le_refl _⟩
    · exact ⟨Nat.le_refl _, inv.decoded.fits⟩
    · exact fun _ _ => rfl
    · exact .inl short
  | storing consumed pos hint =>
    by_cases left : Leaves job consumed pos hint s.produced
    · exact ⟨_, .store_left s consumed pos hint h left⟩
    · exact ⟨_, .store s consumed pos hint h left⟩
  | failing message => exact ⟨_, .fail_decoding s message h⟩
  | ended => exact absurd h on

/-- Some step is taken, or one that does nothing and then some other. -/
def Moves (s : State job) : Prop :=
  (∃ e s', e.idles = false ∧ Step s e s') ∨
    ∃ s' e s'', Step s .idle s' ∧ e.idles = false ∧ Step s' e s''

/-- While a span is missing the decoder can go on, or has failed. -/
theorem missing_moves (inv : Inv s) {upto : Nat} (fits : upto ≤ job.total)
    (missing : s.ready < upto) (fine : s.failed = none) : Moves s := by
  have on : s.decoder ≠ .ended := by
    intro ended
    have all := inv.decoded.ended ended fine
    omega
  obtain ⟨s', next⟩ := decoder_moves inv on
  exact .inl ⟨.other, s', rfl, next⟩

/-- A worker that is not gone can go on, or the decoder can, or it learns of its failure. -/
theorem worker_moves (inv : Inv s) (on : s.main = .writing) {w : Fin job.workers}
    (here : s.worker w ≠ .exited) : Moves s := by
  obtain ⟨done, sound⟩ := inv.working (by rw [on]; rfl)
  cases h : s.worker w with
  | checking =>
    by_cases fine : s.failure = none
    · exact .inl ⟨_, _, rfl, .check s w on h fine⟩
    · exact .inl ⟨_, _, rfl, .check_failed s w on h fine⟩
  | claiming =>
    by_cases left : s.next < job.spans
    · exact .inl ⟨_, _, rfl, .claim s w on h left⟩
    · exact .inl ⟨_, _, rfl, .claim_none s w on h (Nat.le_of_not_lt left)⟩
  | waiting i =>
    have fits := span_fits (sound.held w i (by rw [h]; rfl)).1
    by_cases there : offset i + job.len i ≤ s.ready
    · exact .inl ⟨_, _, rfl, .wait_over s w i on h there⟩
    · have missing := Nat.lt_of_not_le there
      cases failed : s.failed with
      | none => exact missing_moves inv fits missing failed
      | some message =>
        have told :=
          Step.ask_failed (s.setWorker w (.asking i)) w i message on setWorker_self failed
        exact .inr ⟨_, .other, _, .wait s w i on h missing, rfl, told⟩
  | asking i =>
    have fits := span_fits (sound.held w i (by rw [h]; rfl)).1
    cases failed : s.failed with
    | some message => exact .inl ⟨_, _, rfl, .ask_failed s w i message on h failed⟩
    | none =>
      by_cases there : offset i + job.len i ≤ s.ready
      · have goes := Step.wait_over (s.setWorker w (.waiting i)) w i on setWorker_self there
        exact .inr ⟨_, .other, _, .ask s w i on h failed, rfl, goes⟩
      · exact missing_moves inv fits (Nat.lt_of_not_le there) failed
  | writing i k =>
    have part := (sound.wrote w i k h).2.1
    by_cases left : k < job.len i
    · exact .inl ⟨_, _, rfl, .pwrite s w i k 1 on h Nat.one_pos left⟩
    · have whole := Nat.le_antisymm part (Nat.le_of_not_lt left)
      exact .inl ⟨_, _, rfl, .write_over s w i k on h whole⟩
  | counting i => exact .inl ⟨_, _, rfl, .count s w i on h⟩
  | failing message => exact .inl ⟨_, _, rfl, .fail_writing s w message on h⟩
  | exited => exact absurd h here

/-- A run that has not finished is not stuck. -/
theorem moves (inv : Inv s) (on : ∀ error, s.main ≠ .finished error) : Moves s := by
  cases h : s.main with
  | preparing =>
    cases failed : s.failed with
    | none => exact .inl ⟨_, _, rfl, .prepare s h failed⟩
    | some message => exact .inl ⟨_, _, rfl, .prepare_failed s message h failed⟩
  | opening => exact .inl ⟨_, _, rfl, .open_block s h⟩
  | sizing => exact .inl ⟨_, _, rfl, .device_size s job.total h (Nat.le_refl _)⟩
  | discarding => exact .inl ⟨_, _, rfl, .discard s h⟩
  | writing =>
    by_cases gone : ∀ w, s.worker w = .exited
    · exact .inl ⟨_, _, rfl, .join s h gone⟩
    · rw [not_forall] at gone
      obtain ⟨w, here⟩ := gone
      exact worker_moves inv h here
  | joined =>
    cases failed : s.failure with
    | none => exact .inl ⟨_, _, rfl, .join_done s h failed⟩
    | some message => exact .inl ⟨_, _, rfl, .join_failed s message h failed⟩
  | flushing => exact .inl ⟨_, _, rfl, .fdatasync s h⟩
  | verifying => exact .inl ⟨_, _, rfl, .spot_check s h⟩
  | finished error => exact absurd h (on error)

/-- Any run can be finished. -/
theorem run_finishes {events : List (Event job)} (run : Run events s) :
    ∃ more s' error, Run (events ++ more) s' ∧ s'.main = .finished error := by
  induction rank : s.rank using Nat.strong_induction_on generalizing s events with
  | _ n ih =>
    subst rank
    by_cases over_ : ∃ error, s.main = .finished error
    · obtain ⟨error, finished⟩ := over_
      exact ⟨[], s, error, by rwa [List.append_nil], finished⟩
    · rw [not_exists] at over_
      rcases moves (run_inv run) over_ with ⟨e, s', does, next⟩ | ⟨s', e, s'', waits, does, next⟩
      · have less := rank_step next (run_decoded run)
        rw [if_neg (by simp [does])] at less
        obtain ⟨more, last, error, ends, finished⟩ := ih _ less (run.step next) rfl
        exact ⟨e :: more, last, error, by simpa using ends, finished⟩
      · have first := run.step waits
        have same : s'.rank = s.rank := rank_step waits (run_decoded run)
        have less := rank_step next (run_decoded first)
        rw [if_neg (by simp [does]), same] at less
        obtain ⟨more, last, error, ends, finished⟩ := ih _ less (first.step next) rfl
        exact ⟨.idle :: e :: more, last, error, by simpa using ends, finished⟩

/-- No span is claimed twice, and only what is decoded is read, and written at its own offset
and nowhere else. A run that finishes without an error has claimed each span once, and all of
the image is decoded, written and counted. A run takes but so many steps that do anything,
and can always be finished. -/
theorem run_writes {events : List (Event job)} (run : Run events s) :
    (∀ i, (events.filterMap Event.span).count i ≤ 1) ∧
    (∀ x, Reads s x → x < s.ready) ∧
    (∀ x byte, s.device x = some byte → x < s.ready ∧ byte = s.memory x) ∧
    (s.main = .finished none → (∀ i < job.spans, (events.filterMap Event.span).count i = 1) ∧
      s.ready = job.total ∧ s.written = job.total ∧
      ∀ x < job.total, s.device x = some (s.memory x)) ∧
    events.countP (fun e => !e.idles) ≤ job.bound ∧
    ∃ more s' error, Run (events ++ more) s' ∧ s'.main = .finished error := by
  have inv := run_inv run
  have claims := run_claims run
  refine ⟨fun i => ?_, fun x => inv.reads, run_exact run, fun finished => ?_, ?_,
    run_finishes run⟩
  · rw [claims]
    exact List.nodup_iff_count_le_one.mp List.nodup_range i
  · have all := inv.complete (.inr (.inr finished))
    refine ⟨fun i some_ => ?_, all.ready, all.written, fun x below => ?_⟩
    · rw [claims, Nat.min_eq_right all.claimed]
      exact List.count_eq_one_of_mem List.nodup_range (List.mem_range.mpr some_)
    · exact all.landed x (Nat.zero_le x) below
  · exact (Nat.le_add_right _ _).trans (run_rank run)

/-- An image of two spans, whose payload is fed in two parts, written with two workers. -/
def twoSpans : Job where
  total := spanSize + 4096
  source := feed + 1
  workers := 2
  some_worker := Nat.two_pos
  formatSize := fun n => s!"{n} B"

/-- A buffer that is decoded so far. -/
def filled (n : Nat) : Nat → UInt8 := fun x => if x < n then 1 else 0

theorem filled_on {n m : Nat} (on : n ≤ m) :
    ∀ x, x < n ∨ m ≤ x → filled m x = filled n x := by
  intro x out
  unfold filled
  rcases out with below | beyond
  · rw [if_pos below, if_pos (below.trans_le on)]
  · rw [if_neg (by omega), if_neg (by omega)]

/-- The second worker writes the first span in two parts, while the first one waits for the rest
of the image to be decoded. -/
theorem twoSpans_written :
    ∃ events, ∃ s : State twoSpans, Run events s ∧ s.main = .finished none := by
  let w : Fin twoSpans.workers := ⟨0, Nat.two_pos⟩
  let v : Fin twoSpans.workers := ⟨1, Nat.one_lt_two⟩
  have started : Run [] ({} : State twoSpans) := .start
  have decoding := started.step (.start_decoding _ rfl)
  have called := decoding.step (.call _ 0 0 1 1 spanSize (filled spanSize) rfl
    ⟨by decide, by decide⟩ ⟨by decide, by decide⟩ (filled_on (n := 0) (Nat.zero_le _))
    (.inl Nat.one_pos))
  have stored := called.step (.store _ 0 1 1 rfl (by rintro (h | h | h) <;> revert h <;> decide))
  have writing := (((stored.step (.prepare _ rfl rfl)).step (.open_block _ rfl)).step
    (.device_size _ twoSpans.total rfl (Nat.le_refl _))).step (.discard _ rfl)
  have checked := (writing.step (.check _ w rfl rfl rfl)).step (.check _ v rfl rfl rfl)
  have claimed := (checked.step (.claim _ v rfl rfl (by decide))).step
    (.claim _ w rfl rfl (by decide))
  have waits := (claimed.step (.wait _ w 1 rfl rfl (by decide))).step (.ask _ w 1 rfl rfl rfl)
  have first := (waits.step (.wait_over _ v 0 rfl rfl (by decide))).step
    (.pwrite _ v 0 0 4096 rfl rfl (by decide) (by decide))
  have again := first.step (.call _ 0 1 feed 0 twoSpans.total (filled twoSpans.total) rfl
    ⟨by decide, by decide⟩ ⟨by decide, by decide⟩ (filled_on (by decide)) (.inl (by decide)))
  have decoded := again.step (.store_left _ 0 feed 0 rfl (.inl rfl))
  have second := (decoded.step (.wait_over _ w 1 rfl rfl (by decide))).step
    (.pwrite _ w 1 0 4096 rfl rfl (by decide) (by decide))
  have rest := second.step
    (.pwrite _ v 0 4096 (spanSize - 4096) rfl rfl (by decide) (by decide))
  have counted := ((rest.step (.write_over _ v 0 spanSize rfl rfl (by decide))).step
    (.count _ v 0 rfl rfl)).step (.write_over _ w 1 4096 rfl rfl (by decide))
  have exiting := ((counted.step (.count _ w 1 rfl rfl)).step (.check _ v rfl rfl rfl)).step
    (.claim_none _ v rfl rfl (by decide))
  have gone := (exiting.step (.check _ w rfl rfl rfl)).step
    (.claim_none _ w rfl rfl (by decide))
  have joined := (gone.step (.join _ rfl (Fin.forall_fin_two.mpr ⟨rfl, rfl⟩))).step
    (.join_done _ rfl rfl)
  exact ⟨_, _, (joined.step (.fdatasync _ rfl)).step (.spot_check _ rfl), rfl⟩

theorem run_writes_two : ∃ (events : List (Event twoSpans)) (s : State twoSpans),
    s.main = .finished none ∧
    (∀ i, (events.filterMap Event.span).count i ≤ 1) ∧
    (∀ x, Reads s x → x < s.ready) ∧
    (∀ x b, s.device x = some b → x < s.ready ∧ b = s.memory x) ∧
    (s.main = .finished none → (∀ i < twoSpans.spans, (events.filterMap Event.span).count i = 1) ∧
      s.ready = twoSpans.total ∧ s.written = twoSpans.total ∧
      ∀ x < twoSpans.total, s.device x = some (s.memory x)) ∧
    events.countP (fun e => !e.idles) ≤ twoSpans.bound ∧
    ∃ more s' error, Run (events ++ more) s' ∧ s'.main = .finished error := by
  obtain ⟨events, s, run, finished⟩ := twoSpans_written
  exact ⟨events, s, finished, run_writes run⟩

/-- A run that fails early leaves spans that nobody claims. -/
theorem failed_unclaimed : ¬ ∀ (job : Job) (events : List (Event job)) (s : State job)
    (error : Option String), Run events s → s.main = .finished error →
      ∀ i < job.spans, (events.filterMap Event.span).count i = 1 := by
  intro all
  have started : Run [] ({} : State twoSpans) := .start
  have failing := started.step (.start_failed _ "no memory" rfl)
  have failed := failing.step (.fail_decoding _ "no memory" rfl)
  have finished := failed.step (.prepare_failed _ "no memory" rfl rfl)
  have once := all twoSpans _ _ _ finished rfl 0 (by decide)
  cases once

end CarbideOS.Installer.Write
