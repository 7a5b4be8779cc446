import CarbideOS.Installer.Write

namespace CarbideOS.Installer.Write

variable {job : Job} {s s' : State job} {e : Event job}

/-- The span a worker has claimed and not counted. -/
def Worker.holds : Worker → Option Nat
  | .waiting i | .asking i | .writing i _ | .counting i => some i
  | _ => none

/-- What holds of the decoder and what it shares. -/
structure Decoded (s : State job) : Prop where
  published : s.ready ≤ s.produced
  fits : s.produced ≤ job.total
  fresh : s.decoder = .starting → s.produced = 0
  called : ∀ consumed pos, s.decoder = .calling consumed pos → pos < job.fed consumed
  stored : ∀ consumed pos hint, s.decoder = .storing consumed pos hint → pos ≤ job.fed consumed
  ended : s.decoder = .ended → s.failed = none → s.ready = job.total

theorem feed_pos : 0 < feed := by decide

theorem fed_gt {consumed : Nat} (h : consumed < job.source) : consumed < job.fed consumed := by
  have := feed_pos
  unfold Job.fed
  omega

/-- What decoding goes on with is well formed, and it ends only with all of the image. -/
theorem decodeOn_cases (job : Job) (consumed produced : Nat) :
    (consumed < job.source ∧ produced ≠ job.total ∧
      decodeOn job consumed produced = .calling consumed consumed) ∨
    (∃ message, decodeOn job consumed produced = .failing message) ∨
    produced = job.total ∧ decodeOn job consumed produced = .ended := by
  unfold decodeOn
  split
  · rename_i more
    exact .inl ⟨more.1, more.2, rfl⟩
  · split
    · exact .inr (.inl ⟨_, rfl⟩)
    · rename_i done
      exact .inr (.inr ⟨not_not.mp done, rfl⟩)

theorem Decoded.other (d : Decoded s) (decoder : s'.decoder = s.decoder)
    (produced : s'.produced = s.produced) (ready : s'.ready = s.ready)
    (failed : s'.failed = s.failed) : Decoded s' := by
  refine ⟨?_, ?_, ?_, ?_, ?_, ?_⟩
  · rw [ready, produced]
    exact d.published
  · rw [produced]
    exact d.fits
  · rw [decoder, produced]
    exact d.fresh
  · rw [decoder]
    exact d.called
  · rw [decoder]
    exact d.stored
  · rw [decoder, failed, ready]
    exact d.ended

/-- The decoder after it has published what is produced. -/
theorem Decoded.went_on (d : Decoded s) (consumed : Nat)
    (decoder : s'.decoder = decodeOn job consumed s.produced) (produced : s'.produced = s.produced)
    (ready : s'.ready = s.produced) : Decoded s' := by
  refine ⟨?_, ?_, ?_, ?_, ?_, ?_⟩
  · rw [ready, produced]
  · rw [produced]
    exact d.fits
  all_goals
    rw [decoder]
    rcases decodeOn_cases job consumed s.produced with ⟨more, -, on⟩ | ⟨message, on⟩ | ⟨all, on⟩
  all_goals
    rw [on]
  · intro no; cases no
  · intro no; cases no
  · intro no; cases no
  · intro c p same
    cases same
    exact fed_gt more
  · intro c p no; cases no
  · intro c p no; cases no
  · intro c p h no; cases no
  · intro c p h no; cases no
  · intro c p h no; cases no
  · intro no; cases no
  · intro no; cases no
  · intro _ _
    rw [ready, all]

theorem decoded_step (h : Step s e s') (d : Decoded s) : Decoded s' := by
  cases h
  case start_failed message h =>
    exact ⟨d.published, d.fits, nofun, nofun, nofun, nofun⟩
  case start_decoding h =>
    have nothing := d.fresh h
    have unpublished : s.ready = 0 := Nat.le_zero.mp (nothing ▸ d.published)
    split
    · rename_i source
      refine ⟨d.published, d.fits, nofun, ?_, nofun, nofun⟩
      intro c p same
      cases same
      exact fed_gt source
    · exact d.went_on 0 rfl rfl (unpublished.trans nothing.symm)
  case call_failed consumed pos message h =>
    exact ⟨d.published, d.fits, nofun, nofun, nofun, nofun⟩
  case call consumed pos pos' hint produced' memory' h input output kept moves =>
    refine ⟨d.published.trans output.1, output.2, nofun, nofun, ?_, nofun⟩
    intro c p h' same
    cases same
    exact input.2
  case stall => exact d
  case store consumed pos hint h on =>
    refine ⟨Nat.le_refl _, d.fits, nofun, ?_, nofun, nofun⟩
    intro c p same
    cases same
    have short := d.stored consumed pos hint h
    have other : pos ≠ job.fed consumed := fun same => on (.inl same)
    omega
  case store_left consumed pos hint h left => exact d.went_on _ rfl rfl rfl
  case fail_decoding message h =>
    exact ⟨d.published, d.fits, nofun, nofun, nofun, nofun⟩
  all_goals exact d.other rfl rfl rfl rfl

theorem run_decoded {events : List (Event job)} (h : Run events s) : Decoded s := by
  induction h with
  | start => exact ⟨Nat.le_refl _, Nat.zero_le _, fun _ => rfl, nofun, nofun, nofun⟩
  | step _ last ih => exact decoded_step last ih

/-- These bytes of the image are on the device, at their own offset. -/
def Landed (s : State job) (a b : Nat) : Prop :=
  ∀ x, a ≤ x → x < b → s.device x = some (s.memory x)

/-- The spans that are written and counted, and what holds of the others. Of the claimed
spans each is done or held by one worker, unless a worker has failed. -/
structure Sound (s : State job) (done : Finset Nat) : Prop where
  below : ∀ i ∈ done, i < job.spans ∧ i < s.next
  landed : ∀ i ∈ done, offset i + job.len i ≤ s.ready ∧ Landed s (offset i) (offset i + job.len i)
  counted : s.written = ∑ i ∈ done, job.len i
  held : ∀ w i, (s.worker w).holds = some i → i < job.spans ∧ i < s.next ∧ i ∉ done
  apart : ∀ w v i, (s.worker w).holds = some i → (s.worker v).holds = some i → w = v
  kept : (∃ w message, s.worker w = .failing message) ∨ s.failure ≠ none ∨
    ∀ i, i < job.spans → i < s.next → i ∈ done ∨ ∃ w, (s.worker w).holds = some i
  wrote : ∀ w i k, s.worker w = .writing i k → offset i + job.len i ≤ s.ready ∧
    k ≤ job.len i ∧ Landed s (offset i) (offset i + k)
  counting : ∀ w i, s.worker w = .counting i → offset i + job.len i ≤ s.ready ∧
    Landed s (offset i) (offset i + job.len i)
  gone : ∀ w, s.worker w = .exited → s.failure ≠ none ∨ job.spans ≤ s.next

section
variable {done : Finset Nat} {w : Fin job.workers} {p : Worker} {i : Nat}

/-- The workers keep to what is published, so they are not disturbed by the decoder, nor
by each other's writes. -/
theorem Sound.shared (h : Sound s done) (worker : s'.worker = s.worker) (next : s'.next = s.next)
    (failure : s'.failure = s.failure) (written : s'.written = s.written)
    (ready : s.ready ≤ s'.ready)
    (device : ∀ x < s.ready, s.device x = some (s.memory x) → s'.device x = some (s'.memory x)) :
    Sound s' done := by
  have still : ∀ {a b}, b ≤ s.ready → Landed s a b → Landed s' a b :=
    fun short l x lower upper => device x (upper.trans_le short) (l x lower upper)
  refine ⟨?_, ?_, ?_, ?_, ?_, ?_, ?_, ?_, ?_⟩
  · rw [next]
    exact h.below
  · intro i hi
    obtain ⟨there, l⟩ := h.landed i hi
    exact ⟨there.trans ready, still there l⟩
  · rw [written]
    exact h.counted
  · rw [worker, next]
    exact h.held
  · rw [worker]
    exact h.apart
  · rw [worker, failure, next]
    exact h.kept
  · intro v i k hv
    rw [worker] at hv
    obtain ⟨there, short, l⟩ := h.wrote v i k hv
    exact ⟨there.trans ready, short, still (by omega) l⟩
  · intro v i hv
    rw [worker] at hv
    obtain ⟨there, l⟩ := h.counting v i hv
    exact ⟨there.trans ready, still there l⟩
  · rw [worker, failure, next]
    exact h.gone

theorem setWorker_self : (s.setWorker w p).worker w = p := by simp [State.setWorker]

theorem setWorker_other {v : Fin job.workers} (other : v ≠ w) :
    (s.setWorker w p).worker v = s.worker v := by
  simp [State.setWorker, other]

/-- A worker that goes on to hold what it held, or fails, or has nothing and goes. -/
theorem Sound.moved (h : Sound s done)
    (was : (∀ message, s.worker w ≠ .failing message) ∨ s.failure ≠ none)
    (holds : ∀ i, p.holds = some i → (s.worker w).holds = some i)
    (loses : (∃ message, p = .failing message) ∨ (s.worker w).holds = p.holds)
    (wrote : ∀ i k, p = .writing i k → offset i + job.len i ≤ s.ready ∧ k ≤ job.len i ∧
      Landed s (offset i) (offset i + k))
    (counting : ∀ i, p = .counting i → offset i + job.len i ≤ s.ready ∧
      Landed s (offset i) (offset i + job.len i))
    (gone : p = .exited → s.failure ≠ none ∨ job.spans ≤ s.next) :
    Sound (s.setWorker w p) done := by
  have back : ∀ v i, ((s.setWorker w p).worker v).holds = some i → (s.worker v).holds = some i := by
    intro v i hv
    by_cases same : v = w
    · subst same
      rw [setWorker_self] at hv
      exact holds i hv
    · rwa [setWorker_other same] at hv
  refine ⟨h.below, h.landed, h.counted, fun v i hv => h.held v i (back v i hv),
    fun v u i hv hu => h.apart v u i (back v i hv) (back u i hu), ?_, ?_, ?_, ?_⟩
  · rcases h.kept with ⟨v, message, failing⟩ | failed | kept
    · by_cases same : v = w
      · subst same
        exact .inr (.inl (was.resolve_left fun no => no message failing))
      · exact .inl ⟨v, message, (setWorker_other same).trans failing⟩
    · exact .inr (.inl failed)
    · rcases loses with ⟨message, rfl⟩ | same
      · exact .inl ⟨w, message, setWorker_self⟩
      · refine .inr (.inr fun i spans next => (kept i spans next).imp_right ?_)
        rintro ⟨v, hv⟩
        refine ⟨v, ?_⟩
        by_cases self : v = w
        · subst self
          rw [setWorker_self, ← same]
          exact hv
        · rwa [setWorker_other self]
  · intro v i k hv
    by_cases self : v = w
    · subst self
      rw [setWorker_self] at hv
      exact wrote i k hv
    · rw [setWorker_other self] at hv
      exact h.wrote v i k hv
  · intro v i hv
    by_cases self : v = w
    · subst self
      rw [setWorker_self] at hv
      exact counting i hv
    · rw [setWorker_other self] at hv
      exact h.counting v i hv
  · intro v hv
    by_cases self : v = w
    · subst self
      rw [setWorker_self] at hv
      exact gone hv
    · rw [setWorker_other self] at hv
      exact h.gone v hv

theorem Sound.claimed (h : Sound s done) (claiming : s.worker w = .claiming)
    (left : s.next < job.spans) :
    Sound { s.setWorker w (.waiting s.next) with next := s.next + 1 } done := by
  have self : (s.setWorker w (.waiting s.next)).worker w = .waiting s.next := setWorker_self
  have fresh : ∀ v, (s.worker v).holds ≠ some s.next := fun v hv =>
    Nat.lt_irrefl _ (h.held v _ hv).2.1
  have cases_ : ∀ v i, ((s.setWorker w (.waiting s.next)).worker v).holds = some i →
      v = w ∧ i = s.next ∨ v ≠ w ∧ (s.worker v).holds = some i := by
    intro v i hv
    by_cases same : v = w
    · subst same
      rw [self] at hv
      exact .inl ⟨rfl, (Option.some.inj hv).symm⟩
    · rw [setWorker_other same] at hv
      exact .inr ⟨same, hv⟩
  refine ⟨?_, h.landed, h.counted, ?_, ?_, ?_, ?_, ?_, ?_⟩
  · intro i hi
    exact ⟨(h.below i hi).1, Nat.lt_succ_of_lt (h.below i hi).2⟩
  · intro v i hv
    rcases cases_ v i hv with ⟨-, rfl⟩ | ⟨-, hv⟩
    · exact ⟨left, Nat.lt_succ_self _, fun there => Nat.lt_irrefl _ (h.below _ there).2⟩
    · obtain ⟨spans, next, open_⟩ := h.held v i hv
      exact ⟨spans, Nat.lt_succ_of_lt next, open_⟩
  · intro v u i hv hu
    rcases cases_ v i hv with ⟨here, hi⟩ | ⟨-, before⟩ <;>
      rcases cases_ u i hu with ⟨there, hi'⟩ | ⟨-, before'⟩
    · exact here.trans there.symm
    · exact absurd (hi ▸ before') (fresh u)
    · exact absurd (hi' ▸ before) (fresh v)
    · exact h.apart v u i before before'
  · rcases h.kept with ⟨v, message, failing⟩ | failed | kept
    · refine .inl ⟨v, message, ?_⟩
      rw [← failing]
      refine setWorker_other ?_
      rintro rfl
      rw [claiming] at failing
      cases failing
    · exact .inr (.inl failed)
    · refine .inr (.inr fun i spans next => ?_)
      rcases Nat.lt_succ_iff_lt_or_eq.mp next with next | rfl
      · refine (kept i spans next).imp_right ?_
        rintro ⟨v, hv⟩
        refine ⟨v, ?_⟩
        rw [← hv]
        refine congrArg Worker.holds (setWorker_other ?_)
        rintro rfl
        rw [claiming] at hv
        cases hv
      · exact .inr ⟨w, congrArg Worker.holds self⟩
  · intro v i k hv
    by_cases same : v = w
    · subst same
      cases self.symm.trans hv
    · exact h.wrote v i k ((setWorker_other same).symm.trans hv)
  · intro v i hv
    by_cases same : v = w
    · subst same
      cases self.symm.trans hv
    · exact h.counting v i ((setWorker_other same).symm.trans hv)
  · intro v hv
    by_cases same : v = w
    · subst same
      cases self.symm.trans hv
    · exact (h.gone v ((setWorker_other same).symm.trans hv)).imp_right Nat.le_succ_of_le

theorem Sound.passed (h : Sound s done) (none_ : job.spans ≤ s.next) :
    Sound { s with next := s.next + 1 } done := by
  refine ⟨?_, h.landed, h.counted, ?_, h.apart, ?_, h.wrote, h.counting, ?_⟩
  · intro i hi
    exact ⟨(h.below i hi).1, Nat.lt_succ_of_lt (h.below i hi).2⟩
  · intro v i hv
    obtain ⟨spans, next, open_⟩ := h.held v i hv
    exact ⟨spans, Nat.lt_succ_of_lt next, open_⟩
  · refine h.kept.imp_right (Or.imp_right fun kept i spans _ => ?_)
    exact kept i spans (spans.trans_le none_)
  · intro v hv
    exact (h.gone v hv).imp_right Nat.le_succ_of_le

theorem Sound.failed (h : Sound s done) (message : String) :
    Sound { s with failure := some message } done :=
  ⟨h.below, h.landed, h.counted, h.held, h.apart, .inr (.inl (Option.some_ne_none _)), h.wrote,
    h.counting, fun _ _ => .inl (Option.some_ne_none _)⟩

/-- A span that is written becomes one of those that are done. -/
theorem Sound.counts (h : Sound s done) (counting : s.worker w = .counting i) :
    Sound { s.setWorker w .checking with written := s.written + job.len i } (insert i done) := by
  have self : (s.setWorker w .checking).worker w = .checking := setWorker_self
  have mine : (s.worker w).holds = some i := congrArg Worker.holds counting
  obtain ⟨spans, next, open_⟩ := h.held w i mine
  have back : ∀ v j, ((s.setWorker w .checking).worker v).holds = some j →
      v ≠ w ∧ (s.worker v).holds = some j := by
    intro v j hv
    by_cases same : v = w
    · subst same
      rw [self] at hv
      cases hv
    · rw [setWorker_other same] at hv
      exact ⟨same, hv⟩
  refine ⟨?_, ?_, ?_, ?_, ?_, ?_, ?_, ?_, ?_⟩
  · intro j hj
    rcases Finset.mem_insert.mp hj with rfl | hj
    · exact ⟨spans, next⟩
    · exact h.below j hj
  · intro j hj
    rcases Finset.mem_insert.mp hj with rfl | hj
    · exact h.counting w j counting
    · exact h.landed j hj
  · change s.written + job.len i = _
    rw [Finset.sum_insert open_, h.counted, Nat.add_comm]
  · intro v j hv
    obtain ⟨other, before⟩ := back v j hv
    obtain ⟨spans, next, free⟩ := h.held v j before
    refine ⟨spans, next, fun there => ?_⟩
    rcases Finset.mem_insert.mp there with same | there
    · exact other (h.apart v w i (same ▸ before) mine)
    · exact free there
  · intro v u j hv hu
    exact h.apart v u j (back v j hv).2 (back u j hu).2
  · rcases h.kept with ⟨v, message, failing⟩ | failed | kept
    · refine .inl ⟨v, message, ?_⟩
      rw [← failing]
      refine setWorker_other ?_
      rintro rfl
      rw [counting] at failing
      cases failing
    · exact .inr (.inl failed)
    · refine .inr (.inr fun j spans next => ?_)
      rcases kept j spans next with there | ⟨v, hv⟩
      · exact .inl (Finset.mem_insert_of_mem there)
      · by_cases same : v = w
        · subst same
          obtain rfl := Option.some.inj (mine.symm.trans hv)
          exact .inl (Finset.mem_insert_self _ _)
        · exact .inr ⟨v, (congrArg Worker.holds (setWorker_other same)).trans hv⟩
  · intro v j k hv
    by_cases same : v = w
    · subst same
      cases self.symm.trans hv
    · exact h.wrote v j k ((setWorker_other same).symm.trans hv)
  · intro v j hv
    by_cases same : v = w
    · subst same
      cases self.symm.trans hv
    · exact h.counting v j ((setWorker_other same).symm.trans hv)
  · intro v hv
    by_cases same : v = w
    · subst same
      cases self.symm.trans hv
    · exact h.gone v ((setWorker_other same).symm.trans hv)

/-- Writing goes on from what is on the device. -/
theorem landed_put {a k n : Nat} (h : Landed s a (a + k)) :
    Landed { s with device := s.put (a + k) n } a (a + (k + n)) := by
  intro x lower upper
  change s.put (a + k) n x = some (s.memory x)
  unfold State.put
  split
  · rfl
  · rename_i out
    exact h x lower (by omega)

end

theorem sum_len (job : Job) (n : Nat) :
    ∑ i ∈ Finset.range n, job.len i = min (n * spanSize) job.total := by
  induction n with
  | zero => simp
  | succ n ih =>
    rw [Finset.sum_range_succ, ih, Job.len, offset, Nat.add_mul, Nat.one_mul]
    omega

theorem spans_cover (job : Job) : job.total ≤ job.spans * spanSize := by
  have pos : 0 < spanSize := by decide
  have := Nat.div_add_mod (job.total + spanSize - 1) spanSize
  have := Nat.mod_lt (job.total + spanSize - 1) pos
  unfold Job.spans
  rw [Nat.mul_comm]
  omega

theorem span_fits {i : Nat} (h : i < job.spans) : offset i + job.len i ≤ job.total := by
  have pos : 0 < spanSize := by decide
  have whole := (Nat.le_div_iff_mul_le pos).mp h
  rw [Nat.succ_mul] at whole
  unfold Job.len offset
  omega

/-- Every byte of the image is in one of the spans. -/
theorem in_span {job : Job} {x : Nat} (h : x < job.total) : x / spanSize < job.spans ∧
    offset (x / spanSize) ≤ x ∧ x < offset (x / spanSize) + job.len (x / spanSize) := by
  have pos : 0 < spanSize := by decide
  have split := Nat.div_add_mod x spanSize
  have part := Nat.mod_lt x pos
  have comm := Nat.mul_comm spanSize (x / spanSize)
  have cover := spans_cover job
  refine ⟨?_, ?_, ?_⟩
  · rw [Nat.div_lt_iff_lt_mul pos]
    omega
  · unfold offset
    omega
  · unfold Job.len offset
    omega

/-- All of the image is decoded, on the device at its own place, and counted. -/
structure Complete (s : State job) : Prop where
  ready : s.ready = job.total
  written : s.written = job.total
  landed : Landed s 0 job.total
  claimed : job.spans ≤ s.next

/-- Once all workers are gone without a failure, everything is done. -/
theorem Sound.complete {done : Finset Nat} (h : Sound s done) (decoded : Decoded s)
    (exited : ∀ w, s.worker w = .exited) (fine : s.failure = none) : Complete s := by
  have claimed : job.spans ≤ s.next :=
    (h.gone ⟨0, job.some_worker⟩ (exited _)).resolve_left fun no => no fine
  have all : ∀ i < job.spans, i ∈ done := by
    intro i hi
    rcases h.kept with ⟨w, message, failing⟩ | failed | kept
    · rw [exited w] at failing
      cases failing
    · exact absurd fine failed
    · rcases kept i hi (hi.trans_le claimed) with there | ⟨w, held⟩
      · exact there
      · rw [exited w] at held
        cases held
  have whole : done = Finset.range job.spans := by
    ext i
    rw [Finset.mem_range]
    exact ⟨fun hi => (h.below i hi).1, all i⟩
  refine ⟨?_, ?_, ?_, claimed⟩
  · apply Nat.le_antisymm (decoded.published.trans decoded.fits)
    by_contra short
    rw [Nat.not_le] at short
    obtain ⟨spans, -, upper⟩ := in_span short
    have there := (h.landed _ (all _ spans)).1
    omega
  · rw [h.counted, whole, sum_len]
    exact Nat.min_eq_right (spans_cover job)
  · intro x _ upper
    obtain ⟨spans, lower, upper⟩ := in_span upper
    exact (h.landed _ (all _ spans)).2 x lower upper

/-- The workers have not been waited for, or not been asked for failures. -/
def Main.early : Main → Bool
  | .preparing | .opening | .sizing | .discarding | .writing | .joined => true
  | _ => false

structure Inv (s : State job) : Prop where
  decoded : Decoded s
  working : s.main.early = true → ∃ done, Sound s done
  joined : s.main = .joined → ∀ w, s.worker w = .exited
  complete : s.main = .flushing ∨ s.main = .verifying ∨ s.main = .finished none → Complete s

/-- The decoder does not touch what is published. -/
theorem Inv.decodes (inv : Inv s) (decoded : Decoded s') (worker : s'.worker = s.worker)
    (next : s'.next = s.next) (failure : s'.failure = s.failure) (written : s'.written = s.written)
    (device : s'.device = s.device) (main : s'.main = s.main) (ready : s.ready ≤ s'.ready)
    (memory : ∀ x < s.produced, s'.memory x = s.memory x) : Inv s' := by
  have kept : ∀ x < s.ready, s.device x = some (s.memory x) → s'.device x = some (s'.memory x) := by
    intro x hx hd
    rw [device, memory x (hx.trans_le inv.decoded.published)]
    exact hd
  refine ⟨decoded, ?_, ?_, ?_⟩
  · rw [main]
    intro early
    obtain ⟨done, sound⟩ := inv.working early
    exact ⟨done, sound.shared worker next failure written ready kept⟩
  · rw [main, worker]
    exact inv.joined
  · rw [main]
    intro late
    have complete := inv.complete late
    refine ⟨?_, written.trans complete.written, ?_, complete.claimed.trans_eq next.symm⟩
    · exact Nat.le_antisymm (decoded.published.trans decoded.fits)
        (complete.ready.symm.trans_le ready)
    · intro x lower upper
      exact kept x (upper.trans_eq complete.ready.symm) (complete.landed x lower upper)

/-- A worker's step while the run waits for the workers. -/
theorem Inv.works (inv : Inv s) (on : s.main = .writing) (decoded : Decoded s')
    (main : s'.main = s.main) (sound : ∀ done, Sound s done → ∃ done', Sound s' done') :
    Inv s' := by
  have early : s.main.early = true := by rw [on]; rfl
  refine ⟨decoded, fun _ => ?_, ?_, ?_⟩
  · obtain ⟨done, before⟩ := inv.working early
    exact sound done before
  · rw [main, on]
    exact nofun
  · rw [main, on]
    rintro (no | no | no) <;> cases no

/-- The run goes on, and nothing else happens. -/
theorem Inv.goes_on (inv : Inv s) {main : Main} (early : s.main.early = true)
    (soon : main.early = true) (apart : main ≠ .joined) : Inv { s with main := main } := by
  obtain ⟨done, sound⟩ := inv.working early
  refine ⟨inv.decoded.other rfl rfl rfl rfl, fun _ => ⟨done, ?_⟩, fun same => absurd same apart, ?_⟩
  · exact sound.shared rfl rfl rfl rfl (Nat.le_refl _) fun _ _ same => same
  · rintro (late | late | late)
    all_goals
      cases late
      cases soon

/-- A run that has failed says nothing about what it has done. -/
theorem Inv.fails (decoded : Decoded s') {error : String}
    (main : s'.main = .finished (some error)) : Inv s' := by
  refine ⟨decoded, ?_, ?_, ?_⟩
  all_goals rw [main]
  · intro no; cases no
  · intro no; cases no
  · rintro (no | no | no) <;> cases no

/-- What is complete stays so while the run flushes and verifies. -/
theorem Inv.ends (inv : Inv s) {main : Main} (complete : Complete s) (late : main.early = false) :
    Inv { s with main := main } := by
  refine ⟨inv.decoded.other rfl rfl rfl rfl, fun early => ?_, fun same => ?_, fun _ => ?_⟩
  · change main.early = true at early
    rw [late] at early
    cases early
  · change main = .joined at same
    rw [same] at late
    cases late
  · exact ⟨complete.ready, complete.written, complete.landed, complete.claimed⟩

theorem inv_step (h : Step s e s') (inv : Inv s) : Inv s' := by
  have decoded := decoded_step h inv.decoded
  cases h
  case start_failed =>
    exact inv.decodes decoded rfl rfl rfl rfl rfl rfl (Nat.le_refl _) fun _ _ => rfl
  case start_decoding =>
    exact inv.decodes decoded rfl rfl rfl rfl rfl rfl (Nat.le_refl _) fun _ _ => rfl
  case call_failed =>
    exact inv.decodes decoded rfl rfl rfl rfl rfl rfl (Nat.le_refl _) fun _ _ => rfl
  case call kept _ =>
    exact inv.decodes decoded rfl rfl rfl rfl rfl rfl (Nat.le_refl _) fun x hx => kept x (.inl hx)
  case stall => exact inv
  case store =>
    exact inv.decodes decoded rfl rfl rfl rfl rfl rfl inv.decoded.published fun _ _ => rfl
  case store_left =>
    exact inv.decodes decoded rfl rfl rfl rfl rfl rfl inv.decoded.published fun _ _ => rfl
  case fail_decoding =>
    exact inv.decodes decoded rfl rfl rfl rfl rfl rfl (Nat.le_refl _) fun _ _ => rfl
  case prepare_failed => exact Inv.fails decoded rfl
  case prepare h _ => exact inv.goes_on (by rw [h]; rfl) rfl nofun
  case open_failed => exact Inv.fails decoded rfl
  case open_block h => exact inv.goes_on (by rw [h]; rfl) rfl nofun
  case size_failed => exact Inv.fails decoded rfl
  case too_small => exact Inv.fails decoded rfl
  case device_size h _ => exact inv.goes_on (by rw [h]; rfl) rfl nofun
  case discard h => exact inv.goes_on (by rw [h]; rfl) rfl nofun
  case check w on h _ =>
    refine inv.works on decoded rfl fun done sound => ⟨done, ?_⟩
    exact sound.moved (.inl (by simp [h])) nofun
      (.inr (by simp [h, Worker.holds])) nofun nofun nofun
  case check_failed w on h failed =>
    refine inv.works on decoded rfl fun done sound => ⟨done, ?_⟩
    exact sound.moved (.inl (by simp [h])) nofun (.inr (by simp [h, Worker.holds])) nofun nofun
      fun _ => .inl failed
  case claim w on h left =>
    exact inv.works on decoded rfl fun done sound => ⟨done, sound.claimed h left⟩
  case claim_none w on h none_ =>
    refine inv.works on decoded rfl fun done sound => ⟨done, ?_⟩
    refine Sound.passed (s := s.setWorker w .exited) ?_ none_
    exact sound.moved (.inl (by simp [h])) nofun (.inr (by simp [h, Worker.holds])) nofun nofun
      fun _ => .inr none_
  case wait_over w index on h there =>
    refine inv.works on decoded rfl fun done sound => ⟨done, ?_⟩
    have none_yet : Landed s (offset index) (offset index + 0) := by
      intro x lower upper
      omega
    refine sound.moved (.inl (by simp [h])) ?_ (.inr (by simp [h, Worker.holds])) ?_ nofun nofun
    · simp [h, Worker.holds]
    · intro i k same
      cases same
      exact ⟨there, Nat.zero_le _, none_yet⟩
  case wait w index on h missing =>
    refine inv.works on decoded rfl fun done sound => ⟨done, ?_⟩
    exact sound.moved (.inl (by simp [h])) (by simp [h, Worker.holds])
      (.inr (by simp [h, Worker.holds])) nofun nofun nofun
  case ask_failed w index message on h failed =>
    refine inv.works on decoded rfl fun done sound => ⟨done, ?_⟩
    exact sound.moved (.inl (by simp [h])) nofun (.inl ⟨message, rfl⟩) nofun nofun nofun
  case ask w index on h fine =>
    refine inv.works on decoded rfl fun done sound => ⟨done, ?_⟩
    exact sound.moved (.inl (by simp [h])) (by simp [h, Worker.holds])
      (.inr (by simp [h, Worker.holds])) nofun nofun nofun
  case pwrite w index k count on h some_ part =>
    refine inv.works on decoded rfl fun done sound => ⟨done, ?_⟩
    obtain ⟨there, short, landed⟩ := sound.wrote w index k h
    have put : Sound { s with device := s.put (offset index + k) count } done := by
      refine sound.shared rfl rfl rfl rfl (Nat.le_refl _) fun x _ same => ?_
      change s.put (offset index + k) count x = some (s.memory x)
      unfold State.put
      split
      · rfl
      · exact same
    refine put.moved (.inl (by simp [h])) ?_ (.inr (by simp [h, Worker.holds])) ?_ nofun nofun
    · simp [h, Worker.holds]
    · intro i n same
      cases same
      exact ⟨there, part, landed_put landed⟩
  case interrupted => exact inv
  case short_write w index k on h left =>
    refine inv.works on decoded rfl fun done sound => ⟨done, ?_⟩
    exact sound.moved (.inl (by simp [h])) nofun (.inl ⟨_, rfl⟩) nofun nofun nofun
  case write_failed w index k message on h left =>
    refine inv.works on decoded rfl fun done sound => ⟨done, ?_⟩
    exact sound.moved (.inl (by simp [h])) nofun (.inl ⟨message, rfl⟩) nofun nofun nofun
  case write_over w index k on h whole =>
    refine inv.works on decoded rfl fun done sound => ⟨done, ?_⟩
    obtain ⟨there, -, landed⟩ := sound.wrote w index k h
    refine sound.moved (.inl (by simp [h])) ?_ (.inr (by simp [h, Worker.holds])) nofun ?_ nofun
    · simp [h, Worker.holds]
    · intro i same
      cases same
      exact ⟨there, whole ▸ landed⟩
  case count w index on h =>
    exact inv.works on decoded rfl fun done sound => ⟨insert index done, sound.counts h⟩
  case fail_writing w message on h =>
    refine inv.works on decoded rfl fun done sound => ⟨done, ?_⟩
    refine (sound.failed message).moved (.inr (Option.some_ne_none _)) nofun ?_ nofun nofun ?_
    · exact .inr (by simp [h, Worker.holds])
    · exact fun _ => .inl (Option.some_ne_none _)
  case join on gone =>
    have early : s.main.early = true := by rw [on]; rfl
    obtain ⟨done, sound⟩ := inv.working early
    refine ⟨decoded, fun _ => ⟨done, ?_⟩, fun _ => gone, nofun⟩
    exact sound.shared rfl rfl rfl rfl (Nat.le_refl _) fun _ _ same => same
  case join_failed => exact Inv.fails decoded rfl
  case join_done h fine =>
    have early : s.main.early = true := by rw [h]; rfl
    obtain ⟨done, sound⟩ := inv.working early
    exact inv.ends (sound.complete inv.decoded (inv.joined h) fine) rfl
  case flush_failed => exact Inv.fails decoded rfl
  case fdatasync h => exact inv.ends (inv.complete (.inl h)) rfl
  case verify_failed => exact Inv.fails decoded rfl
  case spot_check h => exact inv.ends (inv.complete (.inr (.inl h))) rfl

theorem run_inv {events : List (Event job)} (h : Run events s) : Inv s := by
  induction h with
  | start =>
    refine ⟨⟨Nat.le_refl _, Nat.zero_le _, fun _ => rfl, nofun, nofun, nofun⟩, fun _ => ⟨∅, ?_⟩,
      nofun, nofun⟩
    refine ⟨nofun, nofun, rfl, nofun, nofun, .inr (.inr fun i _ no => ?_), nofun, nofun, nofun⟩
    exact absurd no (Nat.not_lt_zero i)
  | step _ last ih => exact inv_step last ih

theorem claims_step (h : Step s e s') :
    List.range (min s.next job.spans) ++ [e].filterMap Event.span =
      List.range (min s'.next job.spans) := by
  cases h
  case claim w on h left =>
    have now : min (s.next + 1) job.spans = min s.next job.spans + 1 := by omega
    change List.range (min s.next job.spans) ++ [s.next] = List.range (min (s.next + 1) job.spans)
    rw [now, List.range_succ, Nat.min_eq_left left.le]
  case claim_none w on h none_ =>
    change List.range (min s.next job.spans) ++ [] = List.range (min (s.next + 1) job.spans)
    rw [Nat.min_eq_right none_, Nat.min_eq_right (Nat.le_succ_of_le none_), List.append_nil]
  all_goals exact List.append_nil _

/-- The spans are claimed in their order, each once. -/
theorem run_claims {events : List (Event job)} (h : Run events s) :
    events.filterMap Event.span = List.range (min s.next job.spans) := by
  induction h with
  | start => simp
  | step _ last ih => rw [List.filterMap_append, ih, claims_step last]

theorem sample_fits {i x : Nat} (some_ : i < samples)
    (inside : x < (job.sample i).1 + (job.sample i).2) : x < job.total := by
  have split := Nat.div_add_mod job.total samples
  have within : i * (job.total / samples) ≤ samples * (job.total / samples) :=
    Nat.mul_le_mul_right _ some_.le
  unfold Job.sample at inside
  dsimp only at inside
  omega

/-- Only what is published is read. -/
theorem Inv.reads (inv : Inv s) {x : Nat} (h : Reads s x) : x < s.ready := by
  cases h with
  | span w index k on h inside =>
    obtain ⟨done, sound⟩ := inv.working (by rw [on]; rfl)
    exact inside.2.trans_le (sound.wrote w index k h).1
  | sample i h some_ inside =>
    rw [(inv.complete (.inr (.inl h))).ready]
    exact sample_fits some_ inside.2

/-- What is on the device is published, and at its own offset. -/
def Exact (s : State job) : Prop :=
  ∀ x byte, s.device x = some byte → x < s.ready ∧ byte = s.memory x

theorem Exact.shared (h : Exact s) (device : s'.device = s.device) (ready : s.ready ≤ s'.ready)
    (memory : ∀ x < s.ready, s'.memory x = s.memory x) : Exact s' := by
  intro x byte there
  rw [device] at there
  obtain ⟨below, same⟩ := h x byte there
  exact ⟨below.trans_le ready, same.trans (memory x below).symm⟩

theorem exact_step (h : Step s e s') (inv : Inv s) (ex : Exact s) : Exact s' := by
  cases h
  case call kept _ =>
    exact ex.shared rfl (Nat.le_refl _) fun x hx =>
      kept x (.inl (hx.trans_le inv.decoded.published))
  case store => exact ex.shared rfl inv.decoded.published fun _ _ => rfl
  case store_left => exact ex.shared rfl inv.decoded.published fun _ _ => rfl
  case pwrite w index k count on h some_ part =>
    obtain ⟨done, sound⟩ := inv.working (by rw [on]; rfl)
    have there := (sound.wrote w index k h).1
    intro x byte hx
    change s.put (offset index + k) count x = some byte at hx
    unfold State.put at hx
    split at hx
    · rename_i inside
      refine ⟨?_, (Option.some.inj hx).symm⟩
      change x < s.ready
      omega
    · exact ex x byte hx
  all_goals exact ex.shared rfl (Nat.le_refl _) fun _ _ => rfl

theorem run_exact {events : List (Event job)} (h : Run events s) : Exact s := by
  induction h with
  | start => exact nofun
  | step before last ih => exact exact_step last (run_inv before) ih

end CarbideOS.Installer.Write
