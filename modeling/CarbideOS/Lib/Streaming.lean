import Mathlib

/-! Frames that are decoded piece by piece: a format, decoders that follow it, and what of
a payload a decoder can come to. -/

namespace Streaming

/-- What can be known of a frame from its first bytes. -/
structure Format (α β : Type) where
  /-- The content that the first bytes of a frame decode to, unless they start no frame. -/
  soFar : List α → Option (List β)
  /-- The frame is complete. -/
  complete : List α → Prop

structure Format.Lawful {α β : Type} (F : Format α β) : Prop where
  start : F.soFar [] = some []
  open_ : ¬F.complete []
  grows : ∀ {p q c}, F.soFar (p ++ q) = some c → ∃ b, F.soFar p = some b ∧ b <+: c
  final : ∀ {p q c}, F.complete p → F.soFar (p ++ q) = some c → q = []

/-- One call of a decoder: how much of its input it took, what it gave, and zero once the
frame is complete and all of it given. -/
structure Call (σ β : Type) where
  state : σ
  taken : Nat
  given : List β
  hint : Nat

structure Decoder (α β : Type) where
  State : Type
  create : Option State
  /-- Decode some input into so much room. -/
  decompress : State → List α → Nat → Except String (Call State β)

section
variable {α β : Type} (F : Format α β)

/-- The bytes taken of a frame and how much of their content was given, before the frame
is complete and all of it given. -/
def Valid (taken : List α) (given : Nat) : Prop :=
  ∃ c, F.soFar taken = some c ∧ given ≤ c.length ∧ ¬(F.complete taken ∧ given = c.length)

/-- A call takes some of its input and gives what comes next of the content, as much as
there is room for. It starts afresh behind a frame. -/
structure Returns (taken : List α) (given : Nat) (input : List α) (room : Nat) (n : Nat)
    (out : List β) (zero : Prop) (c : List β) : Prop where
  takes : n ≤ input.length
  content : F.soFar (taken ++ input.take n) = some c
  next : out = (c.drop given).take out.length
  fits : out.length ≤ room
  ends : zero ↔ F.complete (taken ++ input.take n) ∧ given + out.length = c.length
  flushed : out.length < room → given + out.length = c.length
  progress : input ≠ [] → 0 < room → 0 < n + out.length

/-- Some of the input is no part of the frame. -/
def Refuses (taken input : List α) : Prop :=
  ∃ k ≤ input.length, F.soFar (taken ++ input.take k) = none ∧
    ∀ i < k, ¬F.complete (taken ++ input.take i)

/-- A decoder follows a format. -/
structure Follows (D : Decoder α β) where
  /-- The bytes that were taken of the current frame, and how much was given of them. -/
  place : D.State → List α × Nat
  fresh : ∃ s, D.create = some s ∧ place s = ([], 0)
  call : ∀ {s input room r}, Valid F (place s).1 (place s).2 →
    D.decompress s input room = .ok r → ∃ c,
      Returns F (place s).1 (place s).2 input room r.taken r.given (r.hint = 0) c ∧
        place r.state = if r.hint = 0 then ([], 0)
          else ((place s).1 ++ input.take r.taken, (place s).2 + r.given.length)
  refuse : ∀ {s input room e}, Valid F (place s).1 (place s).2 →
    D.decompress s input room = .error e → Refuses F (place s).1 input

/-- Some way to feed the payload comes to so much content: a frame has it, or has less and
the payload goes on behind it. What is fed together with the end of a frame is skipped. -/
inductive Reaches : List α → Nat → Prop where
  | here {q r c L} : F.soFar q = some c → L ≤ c.length → Reaches (q ++ r) L
  | next {f x q c L} : F.complete f → F.soFar f = some c → c.length < L →
      Reaches q (L - c.length) → Reaches (f ++ x ++ q) L

end

section
variable {α β : Type} {F : Format α β} {p q t input : List α} {b c out : List β}
  {g n m room : Nat} {zero : Prop}

theorem Format.Lawful.soFar_isSome (h : F.Lawful) (whole : F.soFar p = some c) (k : Nat) :
    ∃ b, F.soFar (p.take k) = some b ∧ b <+: c := by
  rw [← List.take_append_drop k p] at whole
  exact h.grows whole

/-- Of two complete frames, neither is a part of the other. -/
theorem Format.Lawful.take_eq (h : F.Lawful) (whole : F.soFar p = some c)
    (whole_ : F.complete (p.take n)) : p.take n = p := by
  have split := List.take_append_drop n p
  rw [← split] at whole
  have nothing := h.final whole_ whole
  rw [nothing, List.append_nil] at split
  exact split

/-- What is given is a part of the content. -/
theorem Returns.within (h : Returns F t g input room n out zero c) (lawful : F.Lawful)
    (valid : Valid F t g) : g + out.length ≤ c.length := by
  obtain ⟨b, before, inside, -⟩ := valid
  obtain ⟨b', same, part⟩ := lawful.grows h.content
  obtain rfl := Option.some.inj (before.symm.trans same)
  have len := congrArg List.length h.next
  have := part.length_le
  rw [List.length_take, List.length_drop] at len
  omega

/-- A call that had room left gave the rest of the content. -/
theorem Returns.rest (h : Returns F t g input room n out zero c) (short : out.length < room) :
    out = c.drop g := by
  have flushed := h.flushed short
  rw [h.next, List.take_of_length_le]
  rw [List.length_drop]
  omega

/-- A call that does not end the frame leaves it open. -/
theorem Returns.valid (h : Returns F t g input room n out zero c) (lawful : F.Lawful)
    (valid : Valid F t g) (more : ¬zero) :
    Valid F (t ++ input.take n) (g + out.length) :=
  ⟨c, h.content, h.within lawful valid, fun no => more (h.ends.mpr no)⟩

end
end Streaming
