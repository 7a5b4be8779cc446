import CarbideOS.Installer.Decoding
import CarbideOS.Lib.Runs
import CarbideOS.Proofs.Decoded
import CarbideOS.Proofs.Installed

namespace CarbideOS.Installer
open Streaming

namespace Image

section
variable {D : Decoder UInt8 UInt8} {len fuel : Nat} {input : List UInt8} {z : D.State} {b : Buffer}
  {call : Call D.State UInt8} {slice source : List UInt8} {slices : List (List UInt8)}
  {result : Except String D.State} {r : Except String Unit × Buffer} {b' : Buffer}

variable (D len) in
/-- Feeding goes on behind a slice that was drained. -/
def after (slices : List (List UInt8)) : Option (Except String D.State × Buffer) →
    Option (Except String D.State × Buffer)
  | none => none
  | some (.error e, b) => some (.error e, b)
  | some (.ok z, b) => if b.produced = len then some (.ok z, b) else feed D len slices z b

variable (len) in
/-- What decoding comes to when nothing is left to feed. -/
def conclude : Option (Except String D.State × Buffer) → Option (Except String Unit × Buffer)
  | none => none
  | some (.error e, b) => some (.error e, b)
  | some (.ok _, b) =>
    if b.produced ≠ len then
      some (.error s!"image decoded to {b.produced} bytes, expected {len}", b)
    else some (.ok (), b)

theorem feed_cons : feed D len (slice :: slices) z b =
    after D len slices (drain D len (slice.length + len + 1) slice z b) := by
  rw [feed]
  rcases drain D len (slice.length + len + 1) slice z b with _ | ⟨_ | _, _⟩ <;> rfl

theorem decodeSlices_create (created : D.create = some z) :
    decodeSlices D len slices = conclude len (feed D len slices z {}) := by
  rw [decodeSlices, created]
  simp only
  rcases feed D len slices z {} with _ | ⟨_ | _, _⟩ <;> rfl

theorem decodeSlices_refuse (refused : D.create = none) :
    decodeSlices D len slices = some (.error "could not raise the zstd window limit", {}) := by
  rw [decodeSlices, refused]

theorem drain_error {code : String}
    (called : D.decompress z input (len - b.produced) = .error code) :
    drain D len (fuel + 1) input z b = some (.error ("image decode failed: " ++ code), b) := by
  rw [drain, called]
  rfl

theorem drain_stops (called : D.decompress z input (len - b.produced) = .ok call)
    (stop : input.drop call.taken = [] ∨ call.hint = 0 ∨ (b.push call.given).produced = len) :
    drain D len (fuel + 1) input z b = some (.ok call.state, b.push call.given) := by
  rw [drain, called]
  simp only
  split
  · rfl
  · rename_i on
    rw [if_pos (by tauto)]

theorem drain_goes_on (called : D.decompress z input (len - b.produced) = .ok call)
    (on : ¬ (input.drop call.taken = [] ∨ call.hint = 0 ∨ (b.push call.given).produced = len)) :
    drain D len (fuel + 1) input z b =
      drain D len fuel (input.drop call.taken) call.state (b.push call.given) := by
  rw [drain, called]
  simp only
  rw [if_neg (by tauto), if_neg (by tauto)]

/-- Draining only adds to the buffer. -/
theorem drain_grows (h : drain D len fuel input z b = some (result, b')) :
    b.written <+: b'.written := by
  induction fuel generalizing input z b with
  | zero => cases h
  | succ fuel ih =>
    cases called : D.decompress z input (len - b.produced) with
    | error code =>
      rw [drain_error called] at h
      cases h
      exact List.prefix_rfl
    | ok call =>
      have front : b.written <+: (b.push call.given).written := List.prefix_append _ _
      by_cases stop :
        input.drop call.taken = [] ∨ call.hint = 0 ∨ (b.push call.given).produced = len
      · rw [drain_stops called stop] at h
        cases h
        exact front
      · rw [drain_goes_on called stop] at h
        exact front.trans (ih h)

theorem feed_grows (h : feed D len slices z b = some (result, b')) : b.written <+: b'.written := by
  induction slices generalizing z b with
  | nil =>
    cases h
    exact List.prefix_rfl
  | cons slice slices ih =>
    rw [feed_cons] at h
    cases drained : drain D len (slice.length + len + 1) slice z b with
    | none =>
      rw [drained] at h
      cases h
    | some went =>
      obtain ⟨ended, b₁⟩ := went
      have front := drain_grows drained
      rw [drained] at h
      cases ended with
      | error e =>
        cases h
        exact front
      | ok z₁ =>
        rw [after] at h
        split at h
        · cases h
          exact front
        · exact front.trans (ih h)

theorem after_grows {o : Option (Except String D.State × Buffer)}
    (grows : ∀ result b', o = some (result, b') → b.written <+: b'.written)
    (h : after D len slices o = some (result, b')) : b.written <+: b'.written := by
  rcases o with _ | ⟨_ | z, b₁⟩
  · cases h
  · cases h
    exact grows _ _ rfl
  · rw [after] at h
    split at h
    · cases h
      exact grows _ _ rfl
    · exact (grows _ _ rfl).trans (feed_grows h)

theorem conclude_eq_some {o : Option (Except String D.State × Buffer)}
    (h : conclude len o = some r) : (∃ result, o = some (result, r.2)) ∧
      (r.1 = .ok () → r.2.produced = len) := by
  rcases o with _ | ⟨_ | z, b⟩
  · cases h
  · cases h
    exact ⟨⟨_, rfl⟩, nofun⟩
  · rw [conclude] at h
    split at h
    · cases h
      exact ⟨⟨_, rfl⟩, nofun⟩
    · rename_i full
      cases h
      exact ⟨⟨_, rfl⟩, fun _ => not_not.mp full⟩

/-- The slices of a payload do not depend on the fuel they are cut with. -/
theorem slicesOf_fuel {size : Nat} (pos : 0 < size) (enough : source.length ≤ fuel) :
    slicesOf size fuel source = slicesOf size source.length source := by
  induction fuel using Nat.strong_induction_on generalizing source with
  | _ fuel ih =>
    cases source with
    | nil => cases fuel <;> rfl
    | cons a rest =>
      cases fuel with
      | zero => cases enough
      | succ fuel =>
        have enough' : rest.length ≤ fuel := Nat.le_of_succ_le_succ enough
        have short : ((a :: rest).drop size).length ≤ rest.length := by
          rw [List.length_drop, List.length_cons]
          omega
        rw [List.length_cons, slicesOf, slicesOf,
          ih fuel (Nat.lt_succ_self _) (short.trans enough'),
          ih rest.length (Nat.lt_succ_of_le enough') short]

theorem slicesOf_cons {size : Nat} (pos : 0 < size) (some_ : source ≠ []) :
    slicesOf size source.length source =
      source.take size :: slicesOf size (source.drop size).length (source.drop size) := by
  obtain ⟨a, rest, rfl⟩ := List.exists_cons_of_ne_nil some_
  have short : ((a :: rest).drop size).length ≤ rest.length := by
    rw [List.length_drop, List.length_cons]
    omega
  rw [List.length_cons, slicesOf, if_neg some_, slicesOf_fuel pos short]

/-- A payload is decoded to something, and to all that is declared if it is accepted. -/
theorem decode_ends {F : Format UInt8 UInt8} (follows : Follows F D) (lawful : F.Lawful)
    (usable : 0 < len) (payload : List UInt8) :
    ∃ r, decode D len payload = some r ∧ r.2.Sound len ∧ (r.1 = .ok () → r.2.produced = len) := by
  obtain ⟨z, created, place⟩ := follows.fresh
  obtain ⟨-, some_⟩ := slicesOf_flatten Write.feed_pos payload.length payload (Nat.le_refl _)
  obtain ⟨⟨result, b⟩, fed, sound, -⟩ := feed_spec follows lawful _ some_ z {} 0
    (between_fresh lawful place) (sound_empty len) rfl usable
  have decoded : decode D len payload = conclude len (some (result, b)) := by
    rw [decode, decodeSlices_create created, fed]
  cases result with
  | error e => exact ⟨(.error e, b), decoded, sound, nofun⟩
  | ok z' =>
    by_cases full : b.produced = len
    · refine ⟨(.ok (), b), ?_, sound, fun _ => full⟩
      rw [decoded, conclude, if_neg (not_not.mpr full)]
    · refine ⟨(.error s!"image decoded to {b.produced} bytes, expected {len}", b), ?_, sound, nofun⟩
      rw [decoded, conclude, if_pos full]

/-- One complete frame of the declared size is decoded to its content. -/
theorem decode_frame {F : Format UInt8 UInt8} (follows : Follows F D) (lawful : F.Lawful)
    (usable : 0 < len) {payload c : List UInt8} (complete : F.complete payload)
    (content : F.soFar payload = some c) (size : c.length = len) :
    ∃ b, decode D len payload = some (.ok (), b) ∧ b.written = c := by
  obtain ⟨z, created, place⟩ := follows.fresh
  obtain ⟨whole, some_⟩ := slicesOf_flatten Write.feed_pos payload.length payload (Nat.le_refl _)
  obtain ⟨z', b, fed, written, full, -⟩ := feed_exact follows lawful complete content size _
    some_ z {} (between_fresh lawful place) (sound_empty len) rfl usable whole
  refine ⟨b, ?_, written⟩
  rw [decode, decodeSlices_create created, fed, conclude, if_neg (not_not.mpr full)]

end

end Image

namespace Carried
variable {image : Carried} {consumed pos n : Nat}

/-- The slices behind a place in the payload. -/
def behind (image : Carried) (consumed : Nat) : List (List UInt8) :=
  Image.slicesOf Write.feed (image.payload.drop consumed).length (image.payload.drop consumed)

theorem fed_le (image : Carried) (consumed : Nat) :
    image.job.fed consumed ≤ image.payload.length :=
  (Write.fed_le image.job consumed).trans_eq image.whole

theorem input_length : (image.input consumed pos).length = image.job.fed consumed - pos := by
  rw [input, List.length_drop, List.length_take, Nat.min_eq_left (image.fed_le consumed)]

theorem input_drop : (image.input consumed pos).drop n = image.input consumed (pos + n) := by
  rw [input, List.drop_drop, input]

theorem behind_nil (past : image.job.source ≤ consumed) : image.behind consumed = [] := by
  rw [behind, List.drop_eq_nil_of_le (image.whole ▸ past)]
  rfl

theorem behind_cons (more : consumed < image.job.source) : image.behind consumed =
    image.input consumed consumed :: image.behind (image.job.fed consumed) := by
  have some_ : image.payload.drop consumed ≠ [] := by
    rw [Ne, List.drop_eq_nil_iff, Nat.not_le, ← image.whole]
    exact more
  have first : (image.payload.drop consumed).take Write.feed = image.input consumed consumed := by
    rw [input, List.drop_take, List.take_eq_take_iff, List.length_drop, Write.Job.fed, image.whole]
    omega
  have next : (image.payload.drop consumed).drop Write.feed =
      image.payload.drop (image.job.fed consumed) := by
    rw [List.drop_drop, Write.Job.fed, image.whole]
    rcases Nat.le_total (consumed + Write.feed) image.payload.length with less | more
    · rw [Nat.min_eq_left less]
    · rw [Nat.min_eq_right more, List.drop_length, List.drop_eq_nil_of_le more]
  rw [behind, Image.slicesOf_cons Write.feed_pos some_, first, next, behind]

end Carried

section
variable {D : Decoder UInt8 UInt8} {F : Format UInt8 UInt8} {image : Carried}
  {s w : Write.State image.job} {dctx dctx' : Option D.State} {e : Write.Event image.job}
  {r : Except String Unit × Image.Buffer} {b : Image.Buffer} {z : D.State} {consumed pos : Nat}

variable (D image r) in
/-- After a slice, decoding comes to the given result. -/
def Goes (consumed : Nat) (drained : Option (Except String D.State × Image.Buffer)) : Prop :=
  Image.conclude image.job.total
    (Image.after D image.job.total (image.behind (image.job.fed consumed)) drained) = some r

variable (D image r) in
/-- What is left to decode comes to the given result. -/
def Rest (dctx : Option D.State) (b : Image.Buffer) (failed : Option String) :
    Write.Decoder → Prop
  | .starting => failed = none ∧ b = {} ∧ Image.decode D image.job.total image.payload = some r
  | .calling consumed pos => failed = none ∧ b.produced ≠ image.job.total ∧ ∃ z fuel,
      dctx = some z ∧
        Goes D image r consumed (Image.drain D image.job.total fuel (image.input consumed pos) z b)
  | .storing consumed pos hint => failed = none ∧ ∃ z, dctx = some z ∧
      if Write.Leaves image.job consumed pos hint b.produced then
        Goes D image r consumed (some (.ok z, b))
      else ∃ fuel,
        Goes D image r consumed (Image.drain D image.job.total fuel (image.input consumed pos) z b)
  | .failing message => failed = none ∧ b.produced ≠ image.job.total ∧ r = (.error message, b)
  | .ended => match failed with
    | none => b.produced = image.job.total ∧ r = (.ok (), b)
    | some message => b.produced ≠ image.job.total ∧ r = (.error message, b)

/-- The threads and the decoding that they are about have come equally far. -/
structure Tracks (follows : Follows F D) (r : Except String Unit × Image.Buffer)
    (s : Write.State image.job) (dctx : Option D.State) (b : Image.Buffer) : Prop where
  produced : b.produced = s.produced
  counts : b.produced = b.written.length
  memory : ∀ x < s.produced, b.written[x]? = some (s.memory x)
  valid : ∀ z, dctx = some z → Valid F (follows.place z).1 (follows.place z).2
  rest : Rest D image r dctx b s.failed s.decoder

/-- What decoding goes on with behind a slice is what the decoder thread goes on with. -/
theorem rest_decodeOn
    (goes : Image.conclude image.job.total
      (Image.after D image.job.total (image.behind consumed) (some (.ok z, b))) = some r) :
    Rest D image r (some z) b none (Write.decodeOn image.job consumed b.produced) := by
  unfold Write.decodeOn
  rw [Image.after] at goes
  by_cases full : b.produced = image.job.total
  · rw [if_pos full, Image.conclude, if_neg (not_not.mpr full)] at goes
    rw [if_neg (fun more => more.2 full), if_neg (not_not.mpr full)]
    exact ⟨full, (Option.some.inj goes).symm⟩
  · rw [if_neg full] at goes
    by_cases more : consumed < image.job.source
    · rw [image.behind_cons more, Image.feed_cons] at goes
      rw [if_pos ⟨more, full⟩]
      exact ⟨rfl, full, z, _, rfl, goes⟩
    · rw [image.behind_nil (Nat.le_of_not_lt more), Image.feed, Image.conclude, if_pos full] at goes
      rw [if_neg (fun more' => more more'.1), if_pos full]
      exact ⟨rfl, full, (Option.some.inj goes).symm⟩

theorem fill_before {memory : Nat → UInt8} {start x : Nat} {given : List UInt8}
    (h : x < start ∨ start + given.length ≤ x) : fill memory start given x = memory x := by
  unfold fill
  split
  · rw [List.getElem?_eq_none (by omega)]
    rfl
  · rfl

/-- The buffer with what a call gives is the memory with it. -/
theorem push_memory (given : List UInt8) (counts : b.produced = b.written.length)
    (produced : b.produced = s.produced)
    (memory : ∀ x < s.produced, b.written[x]? = some (s.memory x)) :
    ∀ x < s.produced + given.length,
      (b.push given).written[x]? = some (fill s.memory s.produced given x) := by
  intro x below
  rw [Image.push_written]
  rcases Nat.lt_or_ge x s.produced with old | new
  · rw [List.getElem?_append_left (by omega), memory x old, fill_before (.inl old)]
  · rw [List.getElem?_append_right (by omega), fill, if_pos new, ← counts, produced]
    have there : x - s.produced < given.length := by omega
    rw [List.getElem?_eq_getElem there]
    rfl

theorem Tracks.same {follows : Follows F D} (tracks : Tracks follows r s dctx b)
    (decoder : w.decoder = s.decoder) (memory : w.memory = s.memory)
    (produced : w.produced = s.produced) (failed : w.failed = s.failed) :
    Tracks follows r w dctx b := by
  refine ⟨tracks.produced.trans produced.symm, tracks.counts, ?_, tracks.valid, ?_⟩
  · rw [produced, memory]
    exact tracks.memory
  · rw [failed, decoder]
    exact tracks.rest

/-- What is to be drained is used up when the call has been fed to the end of the slice. -/
theorem leaves_iff {call : Call D.State UInt8}
    (takes : call.taken ≤ (image.input consumed pos).length)
    (inside : pos ≤ image.job.fed consumed) :
    Write.Leaves image.job consumed (pos + call.taken) call.hint (b.push call.given).produced ↔
      (image.input consumed pos).drop call.taken = [] ∨ call.hint = 0 ∨
        (b.push call.given).produced = image.job.total := by
  rw [Carried.input_length] at takes
  unfold Write.Leaves
  rw [List.drop_eq_nil_iff, Carried.input_length]
  have used : pos + call.taken = image.job.fed consumed ↔
      image.job.fed consumed - pos ≤ call.taken := by omega
  rw [used]

/-- A call of the decoder thread is one of the decoding that it is about. -/
theorem call_tracks {follows : Follows F D} (lawful : F.Lawful)
    (tracks : Tracks follows r s (some z) b) (decoded : Write.Decoded s)
    {call : Call D.State UInt8} (h : s.decoder = .calling consumed pos)
    (called : D.decompress z (image.input consumed pos) (image.job.total - s.produced) = .ok call) :
    pos + call.taken ≤ image.job.fed consumed ∧
      s.produced + call.given.length ≤ image.job.total ∧
      (∀ z', some call.state = some z' →
        Valid F (follows.place z').1 (follows.place z').2) ∧
      s.failed = none ∧
      if Write.Leaves image.job consumed (pos + call.taken) call.hint
          (b.push call.given).produced then
        Goes D image r consumed (some (.ok call.state, b.push call.given))
      else ∃ fuel, Goes D image r consumed (Image.drain D image.job.total fuel
        (image.input consumed (pos + call.taken)) call.state (b.push call.given)) := by
  have inside := (decoded.called consumed pos h).le
  have fits := decoded.fits
  have valid := tracks.valid z rfl
  obtain ⟨c, returns, place⟩ := follows.call valid called
  have takes := returns.takes
  have given := returns.fits
  have rest := tracks.rest
  rw [h] at rest
  obtain ⟨fine, short, z', fuel, same, goes⟩ := rest
  obtain rfl := Option.some.inj same
  rw [← tracks.produced] at called
  refine ⟨?_, by omega, ?_, fine, ?_⟩
  · rw [Carried.input_length] at takes
    omega
  · intro z' same
    obtain rfl := Option.some.inj same
    rw [place]
    split
    · exact ⟨[], lawful.start, Nat.le_refl _, fun no => lawful.open_ no.1⟩
    · rename_i more
      exact returns.valid lawful valid more
  · cases fuel with
    | zero => cases goes
    | succ fuel =>
      have stops := leaves_iff (b := b) takes inside
      split
      · rename_i left
        rwa [Image.drain_stops called (stops.mp left)] at goes
      · rename_i on
        have more := fun stop => on (stops.mpr stop)
        rw [Image.drain_goes_on called more, Carried.input_drop] at goes
        exact ⟨fuel, goes⟩

/-- Every step of the threads is one of the write that knows no decoder, and keeps to the
decoding of the payload. -/
theorem works_step {follows : Follows F D} (lawful : F.Lawful)
    (works : Works D image s dctx e w dctx') (tracks : Tracks follows r s dctx b)
    (decoded : Write.Decoded s) : Write.Step s e w ∧ ∃ b', Tracks follows r w dctx' b' := by
  have rest := tracks.rest
  cases works with
  | refuse dctx h refused =>
    rw [h] at rest
    obtain ⟨fine, rfl, decodes⟩ := rest
    rw [Image.decode, Image.decodeSlices_refuse refused] at decodes
    refine ⟨.start_failed s _ h, {}, tracks.produced, tracks.counts, tracks.memory, tracks.valid,
      ?_⟩
    exact ⟨fine, image.usable.ne, (Option.some.inj decodes).symm⟩
  | create dctx z h created =>
    rw [h] at rest
    obtain ⟨fine, rfl, decodes⟩ := rest
    have nothing : s.produced = 0 := tracks.produced.symm
    refine ⟨.start_decoding s h, {}, tracks.produced, tracks.counts, tracks.memory, ?_, ?_⟩
    · intro z' same
      obtain rfl := Option.some.inj same
      obtain ⟨z', made, place⟩ := follows.fresh
      obtain rfl := Option.some.inj (created.symm.trans made)
      rw [place]
      exact ⟨[], lawful.start, Nat.le_refl _, fun no => lawful.open_ no.1⟩
    · have begins : (if 0 < image.job.source then .calling 0 0
          else Write.decodeOn image.job 0 s.produced) = Write.decodeOn image.job 0 0 := by
        rw [nothing, Write.decodeOn]
        split
        · rename_i some_
          rw [if_pos ⟨some_, image.usable.ne⟩]
        · rfl
      dsimp only
      rw [begins, fine]
      refine rest_decodeOn (b := {}) ?_
      rw [Image.decode, Image.decodeSlices_create created] at decodes
      rw [Image.after, if_neg image.usable.ne]
      exact decodes
  | call_failed z consumed pos code h called =>
    rw [h] at rest
    obtain ⟨fine, short, z', fuel, same, goes⟩ := rest
    obtain rfl := Option.some.inj same
    rw [← tracks.produced] at called
    refine ⟨.call_failed s consumed pos code h, b, tracks.produced, tracks.counts, tracks.memory,
      tracks.valid, ?_⟩
    cases fuel with
    | zero => cases goes
    | succ fuel =>
      rw [Image.drain_error called] at goes
      exact ⟨fine, short, (Option.some.inj goes).symm⟩
  | call z consumed pos call h called moves =>
    obtain ⟨takes, fits, valid, fine, goes⟩ := call_tracks lawful tracks decoded h called
    refine ⟨?_, b.push call.given, ?_, ?_, ?_, valid, fine, call.state, rfl, goes⟩
    · refine .call s consumed pos _ _ _ _ h ⟨Nat.le_add_right _ _, takes⟩
        ⟨Nat.le_add_right _ _, fits⟩ (fun i outside => fill_before outside) ?_
      rcases moves with some_ | some_ | left
      · exact .inl (by omega)
      · exact .inr (.inl (by omega))
      · exact .inr (.inr left)
    · rw [Image.push_produced, tracks.produced]
    · rw [Image.push_produced, Image.push_written, List.length_append, tracks.counts]
    · exact push_memory _ tracks.counts tracks.produced tracks.memory
  | stall z consumed pos call h called nothing on =>
    obtain ⟨-, -, valid, fine, goes⟩ := call_tracks lawful tracks decoded h called
    obtain ⟨taken, given⟩ := nothing
    have short : s.produced ≠ image.job.total := fun full => on (.inr (.inr full))
    have same : (b.push call.given).produced = s.produced := by
      rw [Image.push_produced, given]
      exact tracks.produced
    rw [taken, Nat.add_zero, same, if_neg on] at goes
    obtain ⟨fuel, goes⟩ := goes
    refine ⟨.stall s consumed pos h, b.push call.given, same, ?_, ?_, valid, ?_⟩
    · rw [Image.push_produced, Image.push_written, List.length_append, tracks.counts]
    · intro x below
      have there := push_memory call.given tracks.counts tracks.produced tracks.memory x
        (by omega)
      rwa [fill_before (.inl below)] at there
    · rw [h]
      exact ⟨fine, same.symm ▸ short, call.state, fuel, rfl, goes⟩
  | other dctx e w step apart =>
    refine ⟨step, ?_⟩
    cases step
    case start_failed message h => cases (apart (by rw [h]; rfl)).trans h
    case start_decoding h =>
      have still := (apart (by rw [h]; rfl)).trans h
      dsimp only at still
      split at still
      · cases still
      · rcases Write.decodeOn_cases image.job 0 s.produced with
          ⟨-, -, on⟩ | ⟨message, on⟩ | ⟨-, on⟩
        all_goals cases on.symm.trans still
    case call_failed consumed pos message h => cases (apart (by rw [h]; rfl)).trans h
    case call consumed pos pos' hint produced' memory' h input output kept moves =>
      cases (apart (by rw [h]; rfl)).trans h
    case store consumed pos hint h on =>
      rw [h] at rest
      obtain ⟨fine, z, same, goes⟩ := rest
      rw [tracks.produced, if_neg on] at goes
      obtain ⟨fuel, goes⟩ := goes
      have short : b.produced ≠ image.job.total := by
        rw [tracks.produced]
        exact fun full => on (.inr (.inr full))
      exact ⟨b, tracks.produced, tracks.counts, tracks.memory, tracks.valid,
        fine, short, z, fuel, same, goes⟩
    case store_left consumed pos hint h left =>
      rw [h] at rest
      obtain ⟨fine, z, rfl, goes⟩ := rest
      rw [tracks.produced, if_pos left] at goes
      refine ⟨b, tracks.produced, tracks.counts, tracks.memory, tracks.valid, ?_⟩
      dsimp only
      rw [fine, ← tracks.produced]
      exact rest_decodeOn goes
    case fail_decoding message h =>
      rw [h] at rest
      obtain ⟨fine, short, fails⟩ := rest
      exact ⟨b, tracks.produced, tracks.counts, tracks.memory, tracks.valid, short, fails⟩
    all_goals exact ⟨b, tracks.same rfl rfl rfl rfl⟩

/-- What is decoded stays. -/
theorem goes_grows {drained : Option (Except String D.State × Image.Buffer)}
    (grows : ∀ result b', drained = some (result, b') → b.written <+: b'.written)
    (goes : Goes D image r consumed drained) : b.written <+: r.2.written := by
  obtain ⟨⟨result, ended⟩, -⟩ := Image.conclude_eq_some goes
  exact Image.after_grows grows ended

theorem Tracks.grows {follows : Follows F D} (tracks : Tracks follows r s dctx b) :
    b.written <+: r.2.written := by
  have rest := tracks.rest
  cases h : s.decoder with
  | starting =>
    rw [h] at rest
    obtain ⟨-, rfl, -⟩ := rest
    exact List.nil_prefix
  | calling consumed pos =>
    rw [h] at rest
    obtain ⟨-, -, z, fuel, -, goes⟩ := rest
    exact goes_grows (fun _ _ drained => Image.drain_grows drained) goes
  | storing consumed pos hint =>
    rw [h] at rest
    obtain ⟨-, z, -, goes⟩ := rest
    split at goes
    · refine goes_grows (fun _ _ drained => ?_) goes
      cases drained
      exact List.prefix_rfl
    · obtain ⟨fuel, goes⟩ := goes
      exact goes_grows (fun _ _ drained => Image.drain_grows drained) goes
  | failing message =>
    rw [h] at rest
    obtain ⟨-, -, rfl⟩ := rest
    exact List.prefix_rfl
  | ended =>
    cases failed : s.failed with
    | none =>
      rw [h, failed] at rest
      obtain ⟨-, rfl⟩ := rest
      exact List.prefix_rfl
    | some message =>
      rw [h, failed] at rest
      obtain ⟨-, rfl⟩ := rest
      exact List.prefix_rfl

/-- A failure of the decoder thread is the one that the decoding comes to. -/
theorem Tracks.refused {follows : Follows F D} {message : String}
    (tracks : Tracks follows r s dctx b) (failed : s.failed = some message) :
    r.1 = .error message := by
  have rest := tracks.rest
  rw [failed] at rest
  cases h : s.decoder with
  | starting =>
    rw [h] at rest
    cases rest.1
  | calling consumed pos =>
    rw [h] at rest
    cases rest.1
  | storing consumed pos hint =>
    rw [h] at rest
    cases rest.1
  | failing message =>
    rw [h] at rest
    cases rest.1
  | ended =>
    rw [h] at rest
    obtain ⟨-, rfl⟩ := rest
    rfl

/-- Once all that is declared is there, the payload is accepted. -/
theorem Tracks.accepted {follows : Follows F D} (tracks : Tracks follows r s dctx b)
    (full : s.produced = image.job.total) : r.1 = .ok () := by
  have whole : b.produced = image.job.total := tracks.produced.trans full
  have rest := tracks.rest
  cases h : s.decoder with
  | starting =>
    rw [h] at rest
    obtain ⟨-, rfl, -⟩ := rest
    exact absurd whole image.usable.ne
  | calling consumed pos =>
    rw [h] at rest
    exact absurd whole rest.2.1
  | storing consumed pos hint =>
    rw [h] at rest
    obtain ⟨-, z, -, goes⟩ := rest
    rw [if_pos (.inr (.inr whole)), Goes, Image.after, if_pos whole, Image.conclude,
      if_neg (not_not.mpr whole)] at goes
    cases goes
    rfl
  | failing message =>
    rw [h] at rest
    exact absurd whole rest.2.1
  | ended =>
    cases failed : s.failed with
    | none =>
      rw [h, failed] at rest
      obtain ⟨-, rfl⟩ := rest
      rfl
    | some message =>
      rw [h, failed] at rest
      exact absurd whole rest.1

end

namespace Installation
variable {D : Decoder UInt8 UInt8} {F : Format UInt8 UInt8} {image : Carried} {t : Texts}
  {found : List Disk → Prop} {s s' : Installation D image} {follows : Follows F D}
  {r : Except String Unit × Image.Buffer}

/-- What holds of the installation at all times, when the payload decodes to the given result. -/
structure Inv (follows : Follows F D) (r : Except String Unit × Image.Buffer)
    (s : Installation D image) : Prop where
  session : Session.Inv s.session
  tracks : ∃ b, Tracks follows r s.session.write s.dctx b

theorem shows_tracks {e : Event} {b : Image.Buffer}
    (tracks : Tracks follows r s.session.write s.dctx b) :
    Tracks follows r (s.session.shows t e).write s.dctx b := by
  unfold Session.shows
  dsimp only
  split
  · exact tracks
  · exact tracks.same rfl rfl rfl rfl

/-- A step is one of the installer that knows no decoder. -/
theorem step_refines (lawful : F.Lawful) (inv : Inv follows r s) (step : Step t found s s') :
    Session.Step t found s.session s'.session ∧ Inv follows r s' := by
  obtain ⟨b, tracks⟩ := inv.tracks
  cases step with
  | window e scanned own =>
    have steps : Session.Step t found s.session (s.session.shows t e) := .window _ e scanned own
    exact ⟨steps, Session.inv_step inv.session steps, b, shows_tracks tracks⟩
  | work e w dctx works carried only =>
    obtain ⟨events, run⟩ := inv.session.runs
    obtain ⟨step, b', tracks'⟩ := works_step lawful works tracks (Write.run_decoded run)
    have steps : Session.Step t found s.session _ := .work _ e w step carried only
    exact ⟨steps, Session.inv_step inv.session steps, b', tracks'⟩
  | poll error ended writing =>
    have steps : Session.Step t found s.session _ := .poll _ error ended writing
    exact ⟨steps, Session.inv_step inv.session steps, b, tracks⟩

theorem reachable_refines (follows : Follows F D) (lawful : F.Lawful)
    (decodes : Image.decode D image.job.total image.payload = some r)
    (reach : Reachable t found s) :
    Session.Reachable t found s.session ∧ Inv follows r s := by
  induction reach with
  | start carried attached scanned =>
    have tracks : Tracks follows r ({} : Write.State image.job) none {} :=
      ⟨rfl, rfl, nofun, nofun, rfl, rfl, decodes⟩
    exact ⟨.start carried attached scanned, Session.start_inv carried attached, {}, tracks⟩
  | step before last ih =>
    obtain ⟨reach, inv⟩ := ih
    obtain ⟨step, inv'⟩ := step_refines lawful inv last
    exact ⟨reach.step step, inv'⟩

/-- The next step of the decoder thread itself. -/
theorem call_works {s : Write.State image.job} {dctx : Option D.State} {b : Image.Buffer}
    (tracks : Tracks follows r s dctx b) (decoded : Write.Decoded s)
    (calls : s.decoder.calls = true) : ∃ w dctx', Works D image s dctx .other w dctx' := by
  cases h : s.decoder with
  | starting =>
    cases created : D.create with
    | none => exact ⟨_, _, .refuse s dctx h created⟩
    | some z => exact ⟨_, _, .create s dctx z h created⟩
  | calling consumed pos =>
    have rest := tracks.rest
    rw [h] at rest
    obtain ⟨-, short, z, fuel, rfl, -⟩ := rest
    cases called :
        D.decompress z (image.input consumed pos) (image.job.total - s.produced) with
    | error code => exact ⟨_, _, .call_failed s z consumed pos code h called⟩
    | ok call =>
      refine ⟨_, _, .call s z consumed pos call h called ?_⟩
      -- A call with input and room does something.
      obtain ⟨c, returns, -⟩ := follows.call (tracks.valid z rfl) called
      have inside := decoded.called consumed pos h
      have some_ : image.input consumed pos ≠ [] := by
        rw [Ne, ← List.length_eq_zero_iff, Carried.input_length]
        omega
      have fits := decoded.fits
      have room : s.produced ≠ image.job.total := tracks.produced ▸ short
      have progress := returns.progress some_ (by omega)
      omega
  | storing consumed pos hint =>
    rw [h] at calls
    cases calls
  | failing message =>
    rw [h] at calls
    cases calls
  | ended =>
    rw [h] at calls
    cases calls

/-- A write that has not ended can go on with a step that does something, or that is followed
by one. -/
theorem works_moves {s : Write.State image.job} {dctx : Option D.State} {b : Image.Buffer}
    (lawful : F.Lawful) (tracks : Tracks follows r s dctx b) (inv : Write.Inv s)
    (on : ∀ error, s.main ≠ .finished error) :
    (∃ e w dctx', e.idles = false ∧ Works D image s dctx e w dctx') ∨
      ∃ w, Works D image s dctx .idle w dctx ∧
        ∃ e w' dctx', e.idles = false ∧ Works D image w dctx e w' dctx' := by
  have goes : ∀ {s w : Write.State image.job} {e b}, Tracks follows r s dctx b → Write.Decoded s →
      e.idles = false → Write.Step s e w →
      ∃ e w dctx', e.idles = false ∧ Works D image s dctx e w dctx' := by
    intro s w e b tracks decoded does step
    by_cases calls : s.decoder.calls = true
    · obtain ⟨w, dctx', works⟩ := call_works tracks decoded calls
      exact ⟨.other, w, dctx', rfl, works⟩
    · exact ⟨e, w, dctx, does, .other s dctx e w step fun no => absurd no calls⟩
  rcases Write.moves inv on with ⟨e, w, does, step⟩ | ⟨w, e, w', waits, does, step⟩
  · exact .inl (goes tracks inv.decoded does step)
  · have idles : Works D image s dctx .idle w dctx := by
      refine .other s dctx .idle w waits fun _ => ?_
      cases waits <;> rfl
    obtain ⟨-, b', tracks'⟩ := works_step lawful idles tracks inv.decoded
    exact .inr ⟨w, idles, goes tracks' (Write.decoded_step waits inv.decoded) does step⟩

/-- While a write is shown, the threads can go on until it has ended. -/
theorem can_end (lawful : F.Lawful) (inv : Inv follows r s)
    (writing : s.session.window.writing = true) :
    ∃ s', Relation.ReflTransGen (Step t found) s s' ∧
      (Inv follows r s' ∧ s'.session.window = s.session.window) ∧
      ∃ error, s'.session.write.main = .finished error := by
  have other : s.session.window.started ≠ [] := by
    intro none_
    exact absurd (writing.symm.trans (inv.session.fresh none_).1) (by decide)
  refine Ranked.can_finish (fun u => u.session.write.rank) ?_ ⟨inv, rfl⟩
  rintro u ⟨inv, window⟩ on
  rw [not_exists] at on
  obtain ⟨events, run⟩ := inv.session.runs
  obtain ⟨b, tracks⟩ := inv.tracks
  have decoded := Write.run_decoded run
  have goes : ∀ {u : Installation D image}, Inv follows r u → u.session.window = s.session.window →
      ∀ {e w dctx}, Works D image u.session.write u.dctx e w dctx → Step t found u
        { session := { u.session with write := w, devices := u.session.put w.device }, dctx } := by
    intro u inv window e w dctx works
    rw [← window] at other
    exact .work u e w dctx works (inv.session.carried other) fun none_ => absurd none_ other
  rcases works_moves lawful tracks (Write.run_inv run) on with
    ⟨e, w, dctx, does, works⟩ | ⟨w, waits, e, w', dctx, does, works⟩
  · have first := goes inv window works
    have less := Write.rank_step (works_step lawful works tracks decoded).1 decoded
    rw [if_neg (by simp [does])] at less
    exact ⟨_, .single first, ⟨(step_refines lawful inv first).2, window⟩, less⟩
  · obtain ⟨step, b', tracks'⟩ := works_step lawful waits tracks decoded
    have first := goes inv window waits
    have inv' := (step_refines lawful inv first).2
    have second := goes inv' window works
    have same : w.rank = u.session.write.rank := Write.rank_step step decoded
    have decoded' := Write.decoded_step step decoded
    have less := Write.rank_step (works_step lawful works tracks' decoded').1 decoded'
    rw [if_neg (by simp [does]), same] at less
    exact ⟨_, .head first (.single second), ⟨(step_refines lawful inv' second).2, window⟩, less⟩

/-- Whatever happens to the window and however the threads take turns, the installer with its
decoder does what the installer does that knows none. All that it ever puts on a disk is what
the payload decodes to, at its own place; the disk that the summary is about has exactly that,
and the decoder thread fails only as decoding the payload does. Of a payload that is one
complete frame of the declared size this is the content of the frame. -/
theorem payload_installed (follows : Follows F D) (lawful : F.Lawful)
    (reach : Reachable t found s) :
    Session.Reachable t found s.session ∧
    ∃ result b, Image.decode D image.job.total image.payload = some (result, b) ∧
      (∀ node x byte, s.session.devices node x = some byte → b.written[x]? = some byte) ∧
      (∀ message, s.session.write.failed = some message → result = .error message) ∧
      (s.session.window.phase = .summary → result = .ok () ∧
        ∃ d, s.session.target = some d ∧ ∀ x, s.session.devices d.node x = b.written[x]?) ∧
      (s.session.window.phase = .install → ∃ s', Relation.ReflTransGen (Step t found) s s' ∧
        s'.session.window.started = s.session.window.started ∧
        (s'.session.window.phase = .summary ∨ s'.session.window.phase = .failure)) ∧
      (∀ c, F.complete image.payload → F.soFar image.payload = some c →
        c.length = image.job.total → result = .ok () ∧ b.written = c) := by
  obtain ⟨⟨result, b⟩, decodes, sound, whole⟩ :=
    Image.decode_ends follows lawful image.usable image.payload
  obtain ⟨reach', inv⟩ := reachable_refines follows lawful decodes reach
  obtain ⟨b', tracks⟩ := inv.tracks
  obtain ⟨events, run⟩ := inv.session.runs
  have decoded := Write.run_decoded run
  have there : ∀ node x byte, s.session.devices node x = some byte →
      b.written[x]? = some byte := by
    intro node x byte here
    obtain ⟨-, below, rfl⟩ := inv.session.written node x byte here
    have early := tracks.memory x (below.trans_le decoded.published)
    obtain ⟨inside, -⟩ := List.getElem?_eq_some_iff.mp early
    have grows : b'.written <+: b.written := tracks.grows
    obtain ⟨rest, split⟩ := grows
    rw [← split, List.getElem?_append_left inside, early]
  refine ⟨reach', result, b, decodes, there, fun message => tracks.refused, fun shown => ?_,
    fun shown => ?_, fun c complete content size => ?_⟩
  · have ended := inv.session.summary shown
    have all := (Write.run_inv run).complete (.inr (.inr ended))
    have full : s.session.write.produced = image.job.total :=
      Nat.le_antisymm decoded.fits (all.ready.symm.trans_le decoded.published)
    have accepted : result = .ok () := tracks.accepted full
    have size := (sound.counts).symm.trans (whole accepted)
    cases last : s.session.target with
    | none =>
      have none_ : s.session.window.started = [] := List.getLast?_eq_none_iff.mp last
      exact absurd (ended.symm.trans (inv.session.fresh none_).2) nofun
    | some d =>
      refine ⟨accepted, d, rfl, fun x => ?_⟩
      rcases Nat.lt_or_ge x image.job.total with below | above
      · have landed := all.landed x (Nat.zero_le x) below
        rw [← inv.session.target d last] at landed
        exact landed.trans (there d.node x _ landed).symm
      · rw [List.getElem?_eq_none (size.trans_le above)]
        cases here : s.session.devices d.node x with
        | none => rfl
        | some byte =>
          obtain ⟨-, below, -⟩ := inv.session.written _ _ _ here
          rw [all.ready] at below
          omega
  · have writing := inv.session.sound.writing.mpr shown
    have ends : ∃ s', Relation.ReflTransGen (Step t found) s s' ∧
        (Inv follows (result, b) s' ∧ s'.session.window = s.session.window) ∧
        ∃ error, s'.session.write.main = .finished error := can_end lawful inv writing
    obtain ⟨s', steps, ⟨-, window⟩, error, ended⟩ := ends
    have seen : Step t found s' { s' with session :=
        { s'.session with window := s'.session.window.finish error.isSome } } :=
      .poll s' error ended (window ▸ writing)
    refine ⟨_, steps.tail seen, ?_, ?_⟩
    all_goals
      dsimp only
      rw [window, AppWindow.finish, if_pos writing]
    · rfl
    · cases error with
      | none => exact .inl rfl
      | some message => exact .inr rfl
  · obtain ⟨b₁, frame, written⟩ :=
      Image.decode_frame follows lawful image.usable complete content size
    obtain ⟨rfl, rfl⟩ := Prod.mk.inj (Option.some.inj (decodes.symm.trans frame))
    exact ⟨rfl, written⟩

/-- Any events of the window alone. -/
theorem Reachable.shows {events : List Event} (own : ∀ e ∈ events, ∀ failed, e ≠ .finish failed)
    (scanned : ∀ e ∈ events, ∀ disks, e = .attach disks → found disks)
    (reach : Reachable t found s) : Reachable t found
      { s with session := Interruptible.runAll (Session.shows t) events s.session } := by
  induction events generalizing s with
  | nil => exact reach
  | cons e events ih =>
    have next : Reachable t found { s with session := s.session.shows t e } :=
      reach.step (.window s e (scanned e List.mem_cons_self) (own e List.mem_cons_self))
    exact ih (fun e member => own e (List.mem_cons_of_mem _ member))
      (fun e member => scanned e (List.mem_cons_of_mem _ member)) next

/-- A whole run of the threads of the write that has just begun. -/
theorem Reachable.runs {d : Disk} {w : Write.State image.job} {dctx : Option D.State}
    (lawful : F.Lawful) (follows : Follows F D) (run : Running D image w dctx)
    (reach : Reachable t found s) (new : s.session.write = {}) (context : s.dctx = none)
    (begun : s.session.target = some d) (blank : s.session.devices d.node = fun _ => none) :
    Reachable t found (D := D) { session := { s.session with
      write := w, devices := Function.update s.session.devices d.node w.device }, dctx } := by
  have other : s.session.window.started ≠ [] := by
    intro none_
    rw [Session.target, none_] at begun
    cases begun
  obtain ⟨r, decodes, -⟩ := Image.decode_ends follows lawful image.usable image.payload
  obtain ⟨-, inv⟩ := reachable_refines follows lawful decodes reach
  have carried := inv.session.carried other
  induction run with
  | start =>
    have same : Function.update s.session.devices d.node (fun _ => none) = s.session.devices := by
      rw [← blank]
      exact Function.update_eq_self _ _
    change Reachable t found {
      session := { s.session with
        write := {}, devices := Function.update s.session.devices d.node fun _ => none }
      dctx := none }
    rw [same, ← new, ← context]
    exact reach
  | @step w w' dctx dctx' e before last ih =>
    have goes : Step t found _ _ := .work { session := { s.session with
      write := w, devices := Function.update s.session.devices d.node w.device }, dctx } e w' dctx'
      last carried fun none_ => absurd none_ other
    have next := ih.step goes
    have put : ({ s.session with
        write := w, devices := Function.update s.session.devices d.node w.device } :
        Session image.job).put w'.device = Function.update s.session.devices d.node w'.device := by
      have last : ({ s.session with
          write := w, devices := Function.update s.session.devices d.node w.device } :
          Session image.job).target = some d := begun
      rw [Session.put, last]
      exact Function.update_idem ..
    rw [put] at next
    exact next

/-- An image of two bytes, written with one worker. -/
def small : Carried where
  payload := Image.smallFrame
  job := { total := 2, source := 11, workers := 1, some_worker := Nat.one_pos,
           formatSize := fun n => s!"{n} B" }
  whole := rfl
  usable := Nat.two_pos

theorem small_runs : ∃ w dctx, Running Image.smallDecoder small w dctx ∧
    w.main = .finished none := by
  let w : Fin small.job.workers := ⟨0, small.job.some_worker⟩
  have started : Running Image.smallDecoder small {} none := .start
  have created := started.step (.create _ _ ([], 0) rfl rfl)
  have called := created.step (.call _ _ 0 0 ⟨([], 0), 11, Image.smallContent, 0⟩ rfl
    rfl (.inl (by decide)))
  have go : ∀ {s w : Write.State small.job} {e dctx}, s.decoder.calls = false →
      Running Image.smallDecoder small s dctx → Write.Step s e w →
      Running Image.smallDecoder small w dctx := by
    intro s w e dctx idle before step
    exact before.step (.other s dctx e w step fun calls => absurd (idle.symm.trans calls) nofun)
  have decoded := go rfl called (.store_left _ 0 11 0 rfl (.inr (.inl rfl)))
  have writing := go rfl (go rfl (go rfl (go rfl decoded (.prepare _ rfl rfl)) (.open_block _ rfl))
    (.device_size _ 2 rfl (Nat.le_refl _))) (.discard _ rfl)
  have claimed := go rfl (go rfl writing (.check _ w rfl rfl rfl)) (.claim _ w rfl rfl (by decide))
  have there := go rfl claimed (.wait_over _ w 0 rfl rfl (by decide))
  have put := go rfl there (.pwrite _ w 0 0 2 rfl rfl Nat.two_pos (by decide))
  have counted := go rfl (go rfl put (.write_over _ w 0 2 rfl rfl rfl)) (.count _ w 0 rfl rfl)
  have gone := go rfl (go rfl counted (.check _ w rfl rfl rfl))
    (.claim_none _ w rfl rfl (by decide))
  have only : ∀ (f : Fin small.job.workers → Write.Worker) (v : Fin small.job.workers),
      Function.update f w .exited v = .exited := by
    intro f v
    obtain rfl : v = w := Subsingleton.elim (α := Fin 1) v w
    exact Function.update_self ..
  have joined := go rfl (go rfl gone (.join _ rfl (only _))) (.join_done _ rfl rfl)
  exact ⟨_, _, go rfl (go rfl joined (.fdatasync _ rfl)) (.spot_check _ rfl), rfl⟩

/-- The erase of a drive has been confirmed. -/
def smallConfirmed : Installation Image.smallDecoder small where
  session := Interruptible.runAll (Session.shows plainTexts)
    ([Key.enter, Key.enter, "a", "1", "b", "2"].map .key ++ [.pass 500])
    { window := .start true [drive] }

theorem small_installed : ∃ s : Installation Image.smallDecoder small,
    s.session.window.phase = .summary ∧
    Session.Reachable plainTexts (fun _ => True) s.session ∧
    ∃ result b, Image.decode Image.smallDecoder small.job.total small.payload = some (result, b) ∧
      (∀ node x byte, s.session.devices node x = some byte → b.written[x]? = some byte) ∧
      (∀ message, s.session.write.failed = some message → result = .error message) ∧
      (s.session.window.phase = .summary → result = .ok () ∧
        ∃ d, s.session.target = some d ∧ ∀ x, s.session.devices d.node x = b.written[x]?) ∧
      (s.session.window.phase = .install →
        ∃ s', Relation.ReflTransGen (Step plainTexts fun _ => True) s s' ∧
          s'.session.window.started = s.session.window.started ∧
          (s'.session.window.phase = .summary ∨ s'.session.window.phase = .failure)) ∧
      (∀ c, Image.smallFormat.complete small.payload →
        Image.smallFormat.soFar small.payload = some c → c.length = small.job.total →
        result = .ok () ∧ b.written = c) := by
  obtain ⟨w, dctx, run, finished⟩ := small_runs
  have lawful : Image.smallFormat.Lawful := Image.oneFrame_lawful (by decide)
  have reach : Reachable plainTexts (fun _ => True) smallConfirmed :=
    (Reachable.start true [drive] trivial).shows (by decide) fun _ _ _ _ => trivial
  have begun : smallConfirmed.session.target = some drive := by decide +kernel
  have written := reach.runs lawful Image.oneFrame_follows run rfl rfl begun rfl
  have writing : smallConfirmed.session.window.writing = true := by decide +kernel
  have seen := written.step (.poll _ none finished writing)
  have shown : (smallConfirmed.session.window.finish false).phase = .summary := by decide +kernel
  exact ⟨_, shown, payload_installed Image.oneFrame_follows lawful seen⟩

end Installation
end CarbideOS.Installer
