import CarbideOS.Lib.Streaming
import CarbideOS.Lib.Text
import CarbideOS.Installer.Write

namespace CarbideOS.Installer.Image
open Streaming

/-- What the sidecar of the image declares. -/
structure Meta where
  size : Nat
  label : String
  usable : 0 < size
  deriving DecidableEq

/-- One more line of the sidecar. -/
def Meta.readLine (read : Option Nat × String) (line : String) : Option Nat × String :=
  match Text.splitOnce line '=' with
  | none => read
  | some (key, value) =>
    if Text.trim key = "size" then (Text.parseUnsigned 64 (Text.trim value), read.2)
    else if Text.trim key = "label" then (read.1, Text.trim value)
    else read

def Meta.read (text : String) : Except String Meta :=
  let read := (Text.lines text).foldl Meta.readLine (none, "")
  match read.1 with
  | none => .error "image metadata has no usable size"
  | some size =>
    if usable : 0 < size then .ok ⟨size, read.2, usable⟩
    else .error "image metadata has no usable size"

/-- The destination, and the watermark that is published while it is filled: each store of
it, with how many bytes had been produced. -/
structure Buffer where
  written : List UInt8 := []
  produced : Nat := 0
  stores : List (Nat × Nat) := []
  deriving DecidableEq, Repr

/-- Some bytes more, and the watermark behind them. -/
def Buffer.push (b : Buffer) (given : List UInt8) : Buffer :=
  let produced := b.produced + given.length
  let written := b.written ++ given
  ⟨written, produced, b.stores ++ [(produced, written.length)]⟩

section
variable (D : Decoder UInt8 UInt8) (len : Nat)

/-- Decode what was fed, until it is used up, a frame ends or the destination is full. -/
def drain : Nat → List UInt8 → D.State → Buffer → Option (Except String D.State × Buffer)
  | 0, _, _, _ => none
  | fuel + 1, input, s, b =>
    match D.decompress s input (len - b.produced) with
    | .error code => some (.error s!"image decode failed: {code}", b)
    | .ok call =>
      let b := b.push call.given
      if input.drop call.taken = [] ∨ call.hint = 0 then some (.ok call.state, b)
      else if b.produced = len then some (.ok call.state, b)
      else drain fuel (input.drop call.taken) call.state b

/-- Feed the slices one after the other. What is left of a slice is not fed again. -/
def feed : List (List UInt8) → D.State → Buffer → Option (Except String D.State × Buffer)
  | [], s, b => some (.ok s, b)
  | slice :: slices, s, b =>
    match drain D len (slice.length + len + 1) slice s b with
    | none => none
    | some (.error e, b) => some (.error e, b)
    | some (.ok s, b) => if b.produced = len then some (.ok s, b) else feed slices s b

/-- Decode a payload that is fed in slices. -/
def decodeSlices (slices : List (List UInt8)) : Option (Except String Unit × Buffer) :=
  match D.create with
  | none => some (.error "could not raise the zstd window limit", {})
  | some s =>
    match feed D len slices s {} with
    | none => none
    | some (.error e, b) => some (.error e, b)
    | some (.ok _, b) =>
      if b.produced ≠ len then
        some (.error s!"image decoded to {b.produced} bytes, expected {len}", b)
      else some (.ok (), b)

/-- A payload in slices of some size. -/
def slicesOf (size : Nat) : Nat → List UInt8 → List (List UInt8)
  | 0, _ => []
  | fuel + 1, source =>
    if source = [] then [] else source.take size :: slicesOf size fuel (source.drop size)

def decode (source : List UInt8) : Option (Except String Unit × Buffer) :=
  decodeSlices D len (slicesOf Write.feed source.length source)

end

/-- The payload is one complete frame of the declared size. -/
def Exact (F : Format UInt8 UInt8) (source : List UInt8) (len : Nat) : Prop :=
  ∃ c, F.complete source ∧ F.soFar source = some c ∧ c.length = len

/-- The watermark only grows, and no store passes what was produced by then. -/
structure Buffer.Watermarked (b : Buffer) : Prop where
  grows : (b.stores.map Prod.fst).Pairwise (· ≤ ·)
  behind : ∀ store ∈ b.stores, store.1 ≤ store.2 ∧ store.2 ≤ b.written.length

/-- However the payload is fed, decoding ends, accepts exactly the declared image, and then
leaves its content in the buffer. -/
def DecodesExactly (D : Decoder UInt8 UInt8) (F : Format UInt8 UInt8) (len : Nat)
    (source : List UInt8) : Prop :=
  ∀ slices : List (List UInt8), slices.flatten = source → [] ∉ slices →
    ∃ result b, decodeSlices D len slices = some (result, b) ∧
      (result = .ok () ↔ Exact F source len) ∧
      (result = .ok () → F.soFar source = some b.written) ∧ b.Watermarked

end CarbideOS.Installer.Image
