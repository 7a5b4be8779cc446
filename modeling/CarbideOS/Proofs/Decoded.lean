import CarbideOS.Installer.Image

namespace CarbideOS.Installer.Image
open Streaming

/-- What holds of the buffer at any time. -/
structure Buffer.Sound (len : Nat) (b : Buffer) : Prop where
  counts : b.produced = b.written.length
  fits : b.produced ≤ len
  marked : b.Watermarked

section
variable {len : Nat} {b : Buffer} {given : List UInt8}

@[simp] theorem push_written : (b.push given).written = b.written ++ given := rfl
@[simp] theorem push_produced : (b.push given).produced = b.produced + given.length := rfl

theorem sound_empty (len : Nat) : Buffer.Sound len {} :=
  ⟨rfl, Nat.zero_le _, List.Pairwise.nil, by simp⟩

theorem Buffer.Sound.push (h : b.Sound len) (fits : given.length ≤ len - b.produced) :
    (b.push given).Sound len := by
  have counts := h.counts
  have room := h.fits
  refine ⟨by simp [counts], by simp; omega, ?_, ?_⟩
  · rw [Buffer.push, List.map_append, List.pairwise_append]
    refine ⟨h.marked.grows, List.pairwise_singleton _ _, ?_⟩
    intro mark member last here
    obtain ⟨store, old, rfl⟩ := List.mem_map.mp member
    obtain rfl := List.mem_singleton.mp here
    have := h.marked.behind store old
    simp only
    omega
  · intro store member
    rcases List.mem_append.mp member with old | new
    · have := h.marked.behind store old
      rw [push_written, List.length_append]
      omega
    · obtain rfl := List.mem_singleton.mp new
      simp [counts]

end

section
variable {D : Decoder UInt8 UInt8} {F : Format UInt8 UInt8} {len n m : Nat}
  {t input c : List UInt8} {g : Nat} {b : Buffer}

/-- How draining a slice ends: the decoder refuses it, the destination is full, a frame is
complete, or the slice is used up. -/
inductive Drained (follows : Follows F D) (len : Nat) (t : List UInt8) (g : Nat)
    (input : List UInt8) (b : Buffer) : Except String D.State × Buffer → Prop where
  | refused {e b'} : Refuses F t input → Drained follows len t g input b (.error e, b')
  | full {s n c m b'} : F.soFar (t ++ input.take n) = some c → g + m ≤ c.length →
      b'.written = b.written ++ (c.drop g).take m → b.produced + m = len → b'.produced = len →
      Drained follows len t g input b (.ok s, b')
  | ended {s n c b'} : n ≤ input.length → F.complete (t ++ input.take n) →
      F.soFar (t ++ input.take n) = some c → b'.written = b.written ++ c.drop g →
      b'.produced < len → follows.place s = ([], 0) →
      Drained follows len t g input b (.ok s, b')
  | used {s c b'} : F.soFar (t ++ input) = some c → ¬F.complete (t ++ input) →
      b'.written = b.written ++ c.drop g → b'.produced < len →
      follows.place s = (t ++ input, c.length) → Drained follows len t g input b (.ok s, b')

theorem drop_prefix {c' : List UInt8} (part : c <+: c') (inside : g ≤ c.length) :
    c'.drop g = c.drop g ++ c'.drop c.length := by
  obtain ⟨rest, rfl⟩ := part
  rw [List.drop_append_of_le_length inside, List.drop_left]

/-- Bytes that were drained before, of the same frame, go in front. -/
theorem Drained.before {follows : Follows F D} (lawful : F.Lawful) {b₁ : Buffer}
    {r : Except String D.State × Buffer} (inside : g ≤ c.length)
    (taken : n ≤ input.length) (content : F.soFar (t ++ input.take n) = some c)
    (written : b₁.written = b.written ++ c.drop g)
    (produced : b₁.produced = b.produced + (c.length - g))
    (h : Drained follows len (t ++ input.take n) c.length (input.drop n) b₁ r) :
    Drained follows len t g input b r := by
  have join : ∀ k, t ++ input.take n ++ (input.drop n).take k = t ++ input.take (n + k) := by
    intro k
    rw [List.append_assoc, List.take_add]
  have whole : t ++ input.take n ++ input.drop n = t ++ input := by
    rw [List.append_assoc, List.take_append_drop]
  cases h with
  | refused refuses =>
    obtain ⟨k, small, none_, first⟩ := refuses
    rw [List.length_drop] at small
    refine .refused ⟨n + k, by omega, by rw [← join]; exact none_, ?_⟩
    intro i before
    rcases Nat.lt_or_ge i n with early | late
    · intro over_
      have split : t ++ input.take n = t ++ input.take i ++ (input.drop i).take (n - i) := by
        rw [List.append_assoc, ← List.take_add]
        congr 2
        omega
      rw [split] at content
      have nothing := congrArg List.length (lawful.final over_ content)
      rw [List.length_take, List.length_drop, List.length_nil] at nothing
      omega
    · have here := first (i - n) (by omega)
      rw [join, Nat.add_sub_cancel' late] at here
      exact here
  | full content' inside' written' room' produced' =>
    rename_i n' c' m _
    obtain ⟨b', same, part⟩ := lawful.grows content'
    obtain rfl := Option.some.inj (content.symm.trans same)
    rw [join] at content'
    refine .full (m := c.length - g + m) content' (by omega) ?_ (by omega) produced'
    rw [written', written, List.append_assoc, drop_prefix part inside]
    congr 1
    rw [← List.length_drop, List.take_length_add_append]
  | ended taken' over_ content' written' produced' place' =>
    obtain ⟨b', same, part⟩ := lawful.grows content'
    obtain rfl := Option.some.inj (content.symm.trans same)
    rw [join] at content' over_
    rw [List.length_drop] at taken'
    refine .ended (by omega) over_ content' ?_ produced' place'
    rw [written', written, List.append_assoc, drop_prefix part inside]
  | used content' over_ written' produced' place' =>
    obtain ⟨b', same, part⟩ := lawful.grows content'
    obtain rfl := Option.some.inj (content.symm.trans same)
    rw [whole] at content' over_ place'
    refine .used content' over_ ?_ produced' place'
    rw [written', written, List.append_assoc, drop_prefix part inside]

/-- A call that fills the destination, uses the slice up or ends the frame ends the
draining. -/
theorem drained_call {follows : Follows F D} (lawful : F.Lawful) {s : D.State}
    (valid : Valid F (follows.place s).1 (follows.place s).2) (room : b.produced < len)
    {call : Call D.State UInt8}
    (returns : Returns F (follows.place s).1 (follows.place s).2 input (len - b.produced)
      call.taken call.given (call.hint = 0) c)
    (place : follows.place call.state = if call.hint = 0 then ([], 0)
      else ((follows.place s).1 ++ input.take call.taken,
        (follows.place s).2 + call.given.length))
    (stop : input.drop call.taken = [] ∨ call.hint = 0 ∨ b.produced + call.given.length = len) :
    Drained follows len (follows.place s).1 (follows.place s).2 input b
      (.ok call.state, b.push call.given) := by
  have inside := returns.within lawful valid
  have fits := returns.fits
  rcases Nat.lt_or_ge (b.produced + call.given.length) len with short | full
  · have flushed := returns.flushed (by omega)
    have given := returns.rest (by omega)
    by_cases hint : call.hint = 0
    · rw [if_pos hint] at place
      exact .ended returns.takes (returns.ends.mp hint).1 returns.content
        (by rw [push_written, given])
        short place
    · rw [if_neg hint, flushed] at place
      have used : input.take call.taken = input := by
        rcases stop with nothing | no | no
        · exact List.take_of_length_le (List.drop_eq_nil_iff.mp nothing)
        · exact absurd no hint
        · omega
      have content := returns.content
      have more := mt returns.ends.mpr hint
      rw [used] at content more place
      exact .used content (fun complete => more ⟨complete, flushed⟩) (by rw [push_written, given])
        short place
  · have whole : b.produced + call.given.length = len := by omega
    refine .full returns.content inside ?_ whole whole
    rw [push_written, ← returns.next]

/-- Draining a slice ends, in one of these ways. -/
theorem drain_spec (follows : Follows F D) (lawful : F.Lawful) (fuel : Nat) (input : List UInt8)
    (s : D.State) (b : Buffer) (valid : Valid F (follows.place s).1 (follows.place s).2)
    (sound : b.Sound len) (room : b.produced < len) (some_ : input ≠ [])
    (enough : input.length + (len - b.produced) < fuel) :
    ∃ r, drain D len fuel input s b = some r ∧
      Drained follows len (follows.place s).1 (follows.place s).2 input b r ∧ r.2.Sound len := by
  induction fuel generalizing input s b with
  | zero => omega
  | succ fuel ih =>
    rw [drain]
    cases called : D.decompress s input (len - b.produced) with
    | error code => exact ⟨_, rfl, .refused (follows.refuse valid called), sound⟩
    | ok call =>
      obtain ⟨c, returns, place⟩ := follows.call valid called
      have pushed := sound.push returns.fits
      have stopped := drained_call lawful valid room returns place
      have produced : (b.push call.given).produced = b.produced + call.given.length := rfl
      simp only
      split
      · rename_i stop
        exact ⟨_, rfl, stopped (stop.elim .inl fun zero => .inr (.inl zero)), pushed⟩
      · rename_i more
        obtain ⟨left, hint⟩ := not_or.mp more
        split
        · rename_i full
          exact ⟨_, rfl, stopped (.inr (.inr full)), pushed⟩
        · rename_i short
          have fits := returns.fits
          have progress := returns.progress some_ (by omega)
          have flushed := returns.flushed (by omega)
          rw [if_neg hint] at place
          have open_ := returns.valid lawful valid hint
          obtain ⟨r, drains, drained, soundly⟩ := ih (input.drop call.taken) call.state
            (b.push call.given) (by rw [place]; exact open_) pushed (by omega) left
            (by rw [List.length_drop]; have := returns.takes; omega)
          refine ⟨r, drains, ?_, soundly⟩
          rw [place, flushed] at drained
          have inside := returns.within lawful valid
          have given := returns.rest (by omega)
          exact drained.before lawful (by omega) returns.takes returns.content
            (by rw [push_written, given]) (by rw [push_produced]; omega)

/-- Between two slices, all of the content so far has been given. -/
structure Between (follows : Follows F D) (s : D.State) (t c : List UInt8) : Prop where
  place : follows.place s = (t, c.length)
  content : F.soFar t = some c
  open_ : ¬F.complete t

theorem Between.valid {follows : Follows F D} {s : D.State} (h : Between follows s t c) :
    Valid F (follows.place s).1 (follows.place s).2 := by
  rw [h.place]
  exact ⟨c, h.content, Nat.le_refl _, fun no => h.open_ no.1⟩

theorem between_fresh {follows : Follows F D} (lawful : F.Lawful) {s : D.State}
    (h : follows.place s = ([], 0)) : Between follows s [] [] :=
  ⟨h, lawful.start, lawful.open_⟩

/-- What the frame had given so far, and what it gives in a slice, is its content. -/
theorem written_length {b' : Buffer} {c' : List UInt8} {base : Nat} (sound : b.Sound len)
    (sound' : b'.Sound len) (part : c <+: c') (produced : b.produced = base + c.length)
    (written : b'.written = b.written ++ c'.drop c.length) :
    b'.produced = base + c'.length := by
  have := part.length_le
  have size := congrArg List.length written
  rw [List.length_append, List.length_drop, ← sound.counts, ← sound'.counts] at size
  omega

theorem slice_split (n : Nat) (t slice rest : List UInt8) :
    t ++ slice ++ rest = t ++ slice.take n ++ (slice.drop n ++ rest) := by
  calc
    t ++ slice ++ rest = t ++ (slice.take n ++ slice.drop n) ++ rest := by
      rw [List.take_append_drop]
    _ = t ++ slice.take n ++ (slice.drop n ++ rest) := by simp only [List.append_assoc]

/-- Feeding slices ends, and comes to the declared size only where the payload reaches it. -/
theorem feed_spec (follows : Follows F D) (lawful : F.Lawful) (slices : List (List UInt8))
    (some_ : [] ∉ slices) (s : D.State) (b : Buffer) (base : Nat)
    (between : Between follows s t c) (sound : b.Sound len)
    (produced : b.produced = base + c.length) (room : b.produced < len) :
    ∃ r, feed D len slices s b = some r ∧ r.2.Sound len ∧
      (∀ s', r.1 = .ok s' → r.2.produced = len → Reaches F (t ++ slices.flatten) (len - base)) := by
  induction slices generalizing s b base t c with
  | nil => exact ⟨_, rfl, sound, fun _ _ full => absurd full (Nat.ne_of_lt room)⟩
  | cons slice slices ih =>
    rw [List.mem_cons, not_or] at some_
    obtain ⟨r, drains, drained, soundly⟩ := drain_spec follows lawful (slice.length + len + 1)
      slice s b between.valid sound room (Ne.symm some_.1) (by omega)
    rw [feed, drains]
    rw [between.place] at drained
    have regroup : ∀ n, t ++ (slice :: slices).flatten =
        t ++ slice.take n ++ (slice.drop n ++ slices.flatten) := by
      intro n
      rw [List.flatten_cons, ← List.append_assoc, slice_split n]
    cases drained with
    | refused refuses => exact ⟨_, rfl, soundly, nofun⟩
    | full content inside written whole full =>
      simp only [full, if_true]
      refine ⟨_, rfl, soundly, fun _ _ _ => ?_⟩
      rw [regroup]
      exact .here content (by omega)
    | @ended s₁ n c₁ b₁ taken complete content written short fresh =>
      obtain ⟨b', same, part⟩ := lawful.grows content
      obtain rfl := Option.some.inj (between.content.symm.trans same)
      have counted : b₁.produced = base + c₁.length :=
        written_length sound soundly part produced written
      simp only [if_neg (Nat.ne_of_lt short)]
      obtain ⟨r, feeds, still, reaches⟩ := ih some_.2 _ _ _ (between_fresh lawful fresh) soundly
        rfl short
      refine ⟨r, feeds, still, fun s' ok full => ?_⟩
      have rest := reaches s' ok full
      rw [regroup, ← List.append_assoc]
      refine .next complete content (by omega) ?_
      rwa [Nat.sub_sub, ← counted]
    | @used s₁ c₁ b₁ content open_ written short place =>
      obtain ⟨b', same, part⟩ := lawful.grows content
      obtain rfl := Option.some.inj (between.content.symm.trans same)
      have counted : b₁.produced = base + c₁.length :=
        written_length sound soundly part produced written
      simp only [if_neg (Nat.ne_of_lt short)]
      obtain ⟨r, feeds, still, reaches⟩ := ih some_.2 _ _ base ⟨place, content, open_⟩ soundly
        counted short
      refine ⟨r, feeds, still, fun s' ok full => ?_⟩
      have rest := reaches s' ok full
      rwa [List.append_assoc, ← List.flatten_cons] at rest

/-- No part of a frame is refused. -/
theorem not_refuses (lawful : F.Lawful) {p rest : List UInt8} {whole : List UInt8}
    (content : F.soFar p = some whole) (split : t ++ input ++ rest = p) : ¬Refuses F t input := by
  rintro ⟨k, -, none_, -⟩
  rw [← split, ← List.take_append_drop k input, ← List.append_assoc t, List.append_assoc] at content
  obtain ⟨b, same, -⟩ := lawful.grows content
  rw [none_] at same
  cases same

/-- A complete frame of the declared size is decoded to its content. -/
theorem feed_exact (follows : Follows F D) (lawful : F.Lawful) {p whole : List UInt8}
    (complete : F.complete p) (all : F.soFar p = some whole) (size : whole.length = len)
    (slices : List (List UInt8)) (some_ : [] ∉ slices) (s : D.State) (b : Buffer)
    (between : Between follows s t c) (sound : b.Sound len) (written : b.written = c)
    (room : b.produced < len) (split : t ++ slices.flatten = p) :
    ∃ s' b', feed D len slices s b = some (.ok s', b') ∧ b'.written = whole ∧
      b'.produced = len ∧ b'.Sound len := by
  induction slices generalizing s b t c with
  | nil =>
    rw [List.flatten_nil, List.append_nil] at split
    exact absurd (split ▸ complete) between.open_
  | cons slice slices ih =>
    rw [List.mem_cons, not_or] at some_
    rw [List.flatten_cons, ← List.append_assoc] at split
    obtain ⟨r, drains, drained, soundly⟩ := drain_spec follows lawful (slice.length + len + 1)
      slice s b between.valid sound room (Ne.symm some_.1) (by omega)
    rw [feed, drains]
    rw [between.place] at drained
    have partly : ∀ n, p = t ++ slice.take n ++ (slice.drop n ++ slices.flatten) := by
      intro n
      rw [← split, slice_split n]
    cases drained with
    | refused refuses => exact absurd refuses (not_refuses lawful all split)
    | @full s₁ n c₁ m b₁ content inside written₁ _ full =>
      simp only [full, if_true]
      refine ⟨s₁, b₁, rfl, ?_, full, soundly⟩
      obtain ⟨b', same, inFrame⟩ := lawful.grows content
      obtain rfl := Option.some.inj (between.content.symm.trans same)
      rw [partly n] at all
      obtain ⟨b', same, part⟩ := lawful.grows all
      obtain rfl := Option.some.inj (content.symm.trans same)
      have front : b₁.written <+: whole := by
        obtain ⟨more, rfl⟩ := inFrame
        rw [written₁, written, List.drop_left]
        exact ((List.prefix_append_right_inj _).mpr (List.take_prefix _ _)).trans part
      apply front.eq_of_length
      rw [← soundly.counts, full, size]
    | @ended s₁ n c₁ b₁ taken complete₁ content written₁ short fresh =>
      rw [partly n] at all
      have nothing := lawful.final complete₁ all
      rw [nothing, List.append_nil, content] at all
      obtain rfl := Option.some.inj all
      obtain ⟨b', same, inFrame⟩ := lawful.grows content
      obtain rfl := Option.some.inj (between.content.symm.trans same)
      have counted : b₁.produced = 0 + c₁.length :=
        written_length sound soundly inFrame (by rw [sound.counts, written, Nat.zero_add]) written₁
      omega
    | @used s₁ c₁ b₁ content open_ written₁ short place =>
      simp only [if_neg (Nat.ne_of_lt short)]
      obtain ⟨b', same, inFrame⟩ := lawful.grows content
      obtain rfl := Option.some.inj (between.content.symm.trans same)
      refine ih some_.2 s₁ b₁ ⟨place, content, open_⟩ soundly ?_ short split
      obtain ⟨more, rfl⟩ := inFrame
      rw [written₁, written, List.drop_left]

/-- What has content of a frame and of what follows it, is of the frame. -/
theorem take_prefix_frame (lawful : F.Lawful) {f x : List UInt8} (complete : F.complete f)
    (content : F.soFar ((f ++ x).take n) = some c) : (f ++ x).take n <+: f := by
  rcases Nat.le_total n f.length with early | late
  · rw [List.take_append_of_le_length early]
    exact List.take_prefix _ _
  · rw [List.take_append, List.take_of_length_le late] at content ⊢
    rw [lawful.final complete content, List.append_nil]

/-- A slice that has as much of a frame as the image still needs fills the buffer. -/
theorem feed_fills (follows : Follows F D) (lawful : F.Lawful) {q : List UInt8}
    (some_ : q ≠ []) (content : F.soFar q = some c) (slices : List (List UInt8)) (s : D.State)
    (b : Buffer) (between : Between follows s [] []) (sound : b.Sound len)
    (room : b.produced < len) (enough : len ≤ b.produced + c.length) :
    ∃ s' b', feed D len (q :: slices) s b = some (.ok s', b') ∧ b'.produced = len := by
  obtain ⟨⟨result, b₁⟩, drains, drained, soundly⟩ := drain_spec follows lawful
    (q.length + len + 1) q s b between.valid sound room some_ (by omega)
  rw [feed, drains]
  rw [between.place] at drained
  cases drained with
  | refused refuses =>
    exact absurd refuses (not_refuses lawful content (List.append_nil _))
  | full _ _ _ _ full =>
    simp only [full, if_true]
    exact ⟨_, _, rfl, full⟩
  | @ended s₁ n c₁ b₁ taken complete content' written short fresh =>
    rw [List.nil_append] at complete content'
    rw [lawful.take_eq content complete, content] at content'
    obtain rfl := Option.some.inj content'
    have counted : b₁.produced = b.produced + c.length :=
      written_length sound soundly List.nil_prefix rfl written
    omega
  | @used s₁ c₁ b₁ content' open_ written short place =>
    rw [List.nil_append, content] at content'
    obtain rfl := Option.some.inj content'
    have counted : b₁.produced = b.produced + c.length :=
      written_length sound soundly List.nil_prefix rfl written
    omega

/-- A slice with a whole frame is taken up to the frame's end, and what follows it there is
dropped. -/
theorem feed_frame (follows : Follows F D) (lawful : F.Lawful) {f x : List UInt8}
    (some_ : f ++ x ≠ []) (complete : F.complete f) (content : F.soFar f = some c)
    (slices : List (List UInt8)) (s : D.State) (b : Buffer) (between : Between follows s [] [])
    (sound : b.Sound len) (short : b.produced + c.length < len) :
    ∃ s' b', feed D len ((f ++ x) :: slices) s b = feed D len slices s' b' ∧
      Between follows s' [] [] ∧ b'.Sound len ∧ b'.produced = b.produced + c.length := by
  obtain ⟨⟨result, b₁⟩, drains, drained, soundly⟩ := drain_spec follows lawful
    ((f ++ x).length + len + 1) (f ++ x) s b between.valid sound (by omega) some_ (by omega)
  rw [feed, drains]
  rw [between.place] at drained
  cases drained with
  | refused refuses =>
    obtain ⟨k, -, none_, before⟩ := refuses
    rcases Nat.lt_or_ge f.length k with late | early
    · have open_ := before f.length late
      rw [List.nil_append, List.take_left' rfl] at open_
      exact absurd complete open_
    · rw [List.nil_append, List.take_append_of_le_length early] at none_
      obtain ⟨b', same, -⟩ := lawful.soFar_isSome content k
      rw [none_] at same
      cases same
  | @full s₁ n c₁ m b₁ content₁ inside _ whole_ full =>
    rw [List.nil_append] at content₁
    obtain ⟨rest, split⟩ := take_prefix_frame lawful complete content₁
    rw [← split] at content
    obtain ⟨b', same, part⟩ := lawful.grows content
    obtain rfl := Option.some.inj (content₁.symm.trans same)
    have := part.length_le
    simp only [List.length_nil] at inside
    omega
  | @ended s₁ n c₁ b₁ taken complete₁ content₁ written short₁ fresh =>
    rw [List.nil_append] at complete₁ content₁
    obtain ⟨rest, split⟩ := take_prefix_frame lawful complete content₁
    rw [← split] at content
    rw [lawful.final complete₁ content, List.append_nil, content₁] at content
    obtain rfl := Option.some.inj content
    simp only [if_neg (Nat.ne_of_lt short₁)]
    exact ⟨s₁, b₁, rfl, between_fresh lawful fresh, soundly,
      written_length sound soundly List.nil_prefix rfl written⟩
  | @used s₁ c₁ b₁ content₁ open_ written short₁ place =>
    rw [List.nil_append] at open_ content₁
    rw [lawful.final complete content₁, List.append_nil] at open_
    exact absurd complete open_

/-- What a payload reaches, it is decoded to when it is fed in the right slices. -/
theorem feed_complete (follows : Follows F D) (lawful : F.Lawful) {p : List UInt8} {left : Nat}
    (reaches : Reaches F p left) (pos : 0 < left) :
    ∃ slices : List (List UInt8), slices.flatten = p ∧ [] ∉ slices ∧
      ∀ s b, Between follows s [] [] → b.Sound len → b.produced + left = len →
        ∃ s' b', feed D len slices s b = some (.ok s', b') ∧ b'.produced = len := by
  induction reaches with
  | @here q r c L content size =>
    have first : q ≠ [] := by
      rintro rfl
      rw [lawful.start] at content
      obtain rfl := Option.some.inj content
      simp at size
      omega
    refine ⟨q :: if r = [] then [] else [r], ?_, ?_, ?_⟩
    · split <;> simp_all
    · rw [List.mem_cons, not_or]
      refine ⟨Ne.symm first, ?_⟩
      split
      · simp
      · rename_i more
        simpa using Ne.symm more
    · intro s b between sound room
      exact feed_fills follows lawful first content _ s b between sound (by omega) (by omega)
  | @next f x q c L complete content short reaches ih =>
    obtain ⟨slices, whole, some_, feeds⟩ := ih (by omega)
    have first : f ++ x ≠ [] := by
      intro nothing
      obtain ⟨rfl, -⟩ := List.append_eq_nil_iff.mp nothing
      exact lawful.open_ complete
    refine ⟨(f ++ x) :: slices, by rw [List.flatten_cons, whole], ?_, ?_⟩
    · rw [List.mem_cons, not_or]
      exact ⟨Ne.symm first, some_⟩
    · intro s b between sound room
      obtain ⟨s₁, b₁, taken, fresh, soundly, counted⟩ := feed_frame follows lawful first
        complete content slices s b between sound (by omega)
      rw [taken]
      exact feeds s₁ b₁ fresh soundly (by omega)

theorem reaches_exact {source : List UInt8} (h : Exact F source len) :
    Reaches F source len := by
  obtain ⟨c, -, content, size⟩ := h
  have reaches : Reaches F (source ++ []) len := .here content (Nat.le_of_eq size.symm)
  rwa [List.append_nil] at reaches

/-- The declared image is all that is accepted when the payload is it, or comes to fewer
bytes however it is fed. -/
theorem decodesExactly_iff (follows : Follows F D) (lawful : F.Lawful) (declared : Meta)
    (source : List UInt8) : DecodesExactly D F declared.size source ↔
      Exact F source declared.size ∨ ¬Reaches F source declared.size := by
  have usable := declared.usable
  obtain ⟨s, created, place⟩ := follows.fresh
  have fresh := between_fresh lawful place
  have sound := sound_empty declared.size
  have room : ({} : Buffer).produced < declared.size := usable
  constructor
  · intro exactly
    by_contra neither
    obtain ⟨other, reaches⟩ := not_or.mp neither
    obtain ⟨slices, whole, some_, feeds⟩ := feed_complete follows lawful (not_not.mp reaches) usable
    obtain ⟨s', b, fed, full⟩ := feeds s {} fresh sound (Nat.zero_add _)
    obtain ⟨result, b', decoded, accepts, -⟩ := exactly slices whole some_
    have accepted : decodeSlices D declared.size slices = some (.ok (), b) := by
      rw [decodeSlices, created]
      simp [fed, full]
    rw [accepted] at decoded
    obtain ⟨rfl, rfl⟩ := Prod.mk.inj (Option.some.inj decoded)
    exact other (accepts.mp rfl)
  · rintro (image | never) slices whole some_
    · obtain ⟨c, complete, content, size⟩ := image
      obtain ⟨s', b, fed, written, full, still⟩ := feed_exact follows lawful complete content size
        slices some_ s {} fresh sound rfl room whole
      refine ⟨.ok (), b, ?_, ⟨fun _ => ⟨c, complete, content, size⟩, fun _ => rfl⟩, fun _ => ?_,
        still.marked⟩
      · rw [decodeSlices, created]
        simp [fed, full]
      · rw [content, written]
    · have image : ¬Exact F source declared.size := fun h => never (reaches_exact h)
      obtain ⟨⟨result, b⟩, fed, still, reaches⟩ :=
        feed_spec follows lawful slices some_ s {} 0 fresh
        sound rfl room
      rw [List.nil_append, whole, Nat.sub_zero] at reaches
      rw [decodeSlices, created]
      simp only [fed]
      cases result with
      | error e =>
        refine ⟨.error e, b, rfl, iff_of_false nofun image, nofun, still.marked⟩
      | ok s' =>
        have short : b.produced ≠ declared.size := fun full => never (reaches s' rfl full)
        simp only [if_pos short]
        exact ⟨_, b, rfl, iff_of_false nofun image, nofun, still.marked⟩

end

/-- The slices of a payload are the payload, and none of them is empty. -/
theorem slicesOf_flatten {size : Nat} (pos : 0 < size) (fuel : Nat) (source : List UInt8)
    (enough : source.length ≤ fuel) :
    (slicesOf size fuel source).flatten = source ∧ [] ∉ slicesOf size fuel source := by
  induction fuel generalizing source with
  | zero =>
    obtain rfl := List.length_eq_zero_iff.mp (Nat.le_zero.mp enough)
    exact ⟨rfl, List.not_mem_nil⟩
  | succ fuel ih =>
    rw [slicesOf]
    split
    · rename_i nothing
      exact ⟨nothing.symm, List.not_mem_nil⟩
    · rename_i some_
      have := List.length_pos_iff.mpr some_
      obtain ⟨rest, others⟩ := ih (source.drop size) (by rw [List.length_drop]; omega)
      rw [List.flatten_cons, rest, List.take_append_drop, List.mem_cons, not_or]
      refine ⟨rfl, fun empty => ?_, others⟩
      have none_ := congrArg List.length empty
      rw [List.length_take, List.length_nil] at none_
      omega

section
variable {α β : Type} [DecidableEq α] (frame : List α) (content : List β)

/-- What is known of the content behind some bytes of the only frame. -/
def soFarOf (p : List α) : List β := if p = frame then content else []

/-- The format of one frame, of one block. -/
def oneFrame : Format α β where
  soFar p := if p <+: frame then some (soFarOf frame content p) else none
  complete p := p = frame

/-- A decoder of one frame, which has its content once it has all of its bytes. -/
def oneFrameDecoder : Decoder α β where
  State := List α × Nat
  create := some ([], 0)
  decompress s input room :=
    let n := min input.length (frame.length - s.1.length)
    let taken := s.1 ++ input.take n
    if taken <+: frame then
      let out := ((soFarOf frame content taken).drop s.2).take room
      if taken = frame ∧ s.2 + out.length = content.length then .ok ⟨([], 0), n, out, 0⟩
      else .ok ⟨(taken, s.2 + out.length), n, out, 1⟩
    else .error "Data corruption detected"

variable {frame} {content}

theorem oneFrame_lawful (some_ : frame ≠ []) : (oneFrame frame content).Lawful where
  start := by simp [oneFrame, soFarOf, Ne.symm some_]
  open_ no := some_ no.symm
  grows := by
    intro p q c whole
    simp only [oneFrame] at whole ⊢
    split at whole
    · rename_i part
      obtain rfl := Option.some.inj whole
      have first := (List.prefix_append p q).trans part
      refine ⟨_, if_pos first, ?_⟩
      by_cases all : p = frame
      · subst all
        have nothing : q = [] := by simpa using part.length_le
        subst nothing
        rw [List.append_nil]
      · rw [soFarOf, if_neg all]
        exact List.nil_prefix
    · cases whole
  final := by
    intro p q c complete whole
    obtain rfl : p = frame := complete
    simp only [oneFrame] at whole
    split at whole
    · rename_i part
      simpa using part.length_le
    · cases whole

theorem oneFrame_content {p : List α} {c : List β} (h : (oneFrame frame content).soFar p = some c) :
    p <+: frame ∧ c = soFarOf frame content p := by
  simp only [oneFrame] at h
  split at h
  · rename_i part
    exact ⟨part, (Option.some.inj h).symm⟩
  · cases h

theorem soFarOf_prefix {p q : List α} (part : p ++ q <+: frame) :
    (soFarOf frame content p).length ≤ (soFarOf frame content (p ++ q)).length := by
  by_cases all : p = frame
  · subst all
    have nothing : q = [] := by simpa using part.length_le
    rw [nothing, List.append_nil]
  · rw [soFarOf, if_neg all]
    exact Nat.zero_le _

theorem oneFrame_returns {t input : List α} {g room : Nat} {zero : Prop}
    (inside : g ≤ (soFarOf frame content t).length)
    (open_ : ¬(t = frame ∧ g = (soFarOf frame content t).length)) (part₀ : t <+: frame)
    (part : t ++ input.take (min input.length (frame.length - t.length)) <+: frame)
    (ends : zero ↔ t ++ input.take (min input.length (frame.length - t.length)) = frame ∧
      g + (((soFarOf frame content (t ++ input.take (min input.length (frame.length -
        t.length)))).drop g).take room).length = content.length) :
    Returns (oneFrame frame content) t g input room (min input.length (frame.length - t.length))
      (((soFarOf frame content (t ++ input.take (min input.length (frame.length -
        t.length)))).drop g).take room) zero
      (soFarOf frame content (t ++ input.take (min input.length (frame.length - t.length)))) := by
  have grown : (soFarOf frame content t).length ≤ _ := soFarOf_prefix part
  refine ⟨Nat.min_le_left _ _, if_pos part, ?_, List.length_take_le _ _, ?_, ?_, ?_⟩
  · rw [List.length_take, ← List.take_eq_take_min]
  · rw [ends]
    refine and_congr_right fun whole => ?_
    rw [whole, soFarOf, if_pos rfl]
  · intro short
    rw [List.length_take, List.length_drop] at short ⊢
    omega
  · intro some_ space
    by_cases whole : t = frame
    · subst whole
      have more : g ≠ (soFarOf t content t).length := fun no => open_ ⟨rfl, no⟩
      rw [List.length_take, List.length_drop]
      simp only [Nat.sub_self, Nat.min_zero, List.take_zero, List.append_nil]
      omega
    · have shorter : t.length < frame.length := by
        rcases Nat.lt_or_ge t.length frame.length with less | more
        · exact less
        · exact absurd (part₀.eq_of_length_le more) whole
      have := List.length_pos_iff.mpr some_
      omega

/-- The decoder of one frame follows the format of that frame. -/
def oneFrame_follows :
    Follows (oneFrame frame content) (oneFrameDecoder frame content) where
  place := id
  fresh := ⟨([], 0), rfl, rfl⟩
  call := by
    rintro ⟨t, g⟩ input room r ⟨c₀, before, inside, open_⟩ returned
    obtain ⟨part₀, rfl⟩ := oneFrame_content before
    simp only [oneFrameDecoder, id_eq] at returned part₀ inside open_ ⊢
    split at returned
    · rename_i part
      split at returned
      · rename_i whole
        obtain rfl := Except.ok.inj returned
        exact ⟨_, oneFrame_returns inside open_ part₀ part (iff_of_true rfl whole), rfl⟩
      · rename_i more
        obtain rfl := Except.ok.inj returned
        exact ⟨_, oneFrame_returns inside open_ part₀ part (iff_of_false Nat.one_ne_zero more), rfl⟩
    · cases returned
  refuse := by
    rintro ⟨t, g⟩ input room e ⟨c₀, before, inside, open_⟩ refused
    obtain ⟨part₀, rfl⟩ := oneFrame_content before
    simp only [oneFrameDecoder, id_eq] at refused part₀ ⊢
    split at refused
    · split at refused <;> cases refused
    · rename_i other
      refine ⟨_, Nat.min_le_left _ _, if_neg other, ?_⟩
      intro i less whole
      have size := congrArg List.length (show t ++ input.take i = frame from whole)
      rw [List.length_append, List.length_take] at size
      omega

end

/-- A frame of two bytes in one block, as zstd writes it. -/
def smallFrame : List UInt8 := [0x28, 0xB5, 0x2F, 0xFD, 0x20, 0x02, 0x11, 0x00, 0x00, 0x61, 0x62]

def smallContent : List UInt8 := [0x61, 0x62]

def smallFormat : Format UInt8 UInt8 := oneFrame smallFrame smallContent

def smallDecoder : Decoder UInt8 UInt8 := oneFrameDecoder smallFrame smallContent

theorem decodesExactly_small : DecodesExactly smallDecoder smallFormat 2 smallFrame :=
  (decodesExactly_iff oneFrame_follows (oneFrame_lawful (by decide)) ⟨2, "", by decide⟩
    smallFrame).mpr (.inl ⟨smallContent, rfl, by decide, rfl⟩)

theorem decode_small : decode smallDecoder 1 smallFrame =
    some (.ok (), ⟨[0x61], 1, [(1, 1)]⟩) := by
  decide +kernel

/-- A frame of two bytes is accepted as an image of one. -/
theorem accepts_more : (∃ b, decode smallDecoder 1 smallFrame = some (.ok (), b)) ∧
    ¬Exact smallFormat smallFrame 1 ∧ ¬DecodesExactly smallDecoder smallFormat 1 smallFrame := by
  have other : ¬Exact smallFormat smallFrame 1 := by
    rintro ⟨c, -, content, size⟩
    have whole : smallFormat.soFar smallFrame = some smallContent := by decide
    obtain rfl := Option.some.inj (whole.symm.trans content)
    cases size
  refine ⟨⟨_, decode_small⟩, other, fun exactly => ?_⟩
  obtain ⟨whole, some_⟩ := slicesOf_flatten (show 0 < Write.feed by decide)
    smallFrame.length smallFrame (Nat.le_refl _)
  obtain ⟨result, b, decoded, accepts, -⟩ := exactly _ whole some_
  have same := decoded.symm.trans decode_small
  obtain ⟨rfl, -⟩ := Prod.mk.inj (Option.some.inj same)
  exact other (accepts.mp rfl)

end CarbideOS.Installer.Image
