import ClassPrune.Codec

/-!
# Stack map frames

A frame is kept as its bytes. Its extent is found by walking over it, and the same walk collects
the classes that it names.

- `StackMapFrame.walk`: over one frame; the classes seen are reported even when it fails.
- `StackMapFrame.codec`: a frame is the bytes that the walk consumes.
- `StackMapFrame.objects`: the class indices in a frame, up to the first fault.
-/

namespace ClassPrune

/-- One frame: its type, and all its bytes, the type included. -/
structure StackMapFrame where
  frameType : UInt8
  data : Bytes
  deriving DecidableEq, Repr

namespace StackMapFrame

/-- A walk over bytes: the class indices seen, and where it ended. -/
abbrev Walk := List PoolIndex × Except Fault Cursor

/-- Continues a walk that has not failed. -/
def Walk.andThen (w : Walk) (next : Cursor → Walk) : Walk :=
  match w.2 with
  | .ok c =>
    let more := next c
    (w.1 ++ more.1, more.2)
  | .error fault => (w.1, .error fault)

/-- Continues with a value that is read. -/
def reading {α : Type} (r : Reader α) (c : Cursor) (next : α → Cursor → Walk) : Walk :=
  match r c with
  | .ok (v, c) => next v c
  | .error fault => ([], .error fault)

/-- Over one verification type. Only tag 7 names a class. -/
def walkType (c : Cursor) : Walk :=
  reading Reader.u1 c fun tag c =>
    if tag.toNat ≤ 6 then ([], .ok c)
    else if tag = 7 then reading Reader.u2 c fun index c => ([index], .ok c)
    else if tag = 8 then reading Reader.u2 c fun _ c => ([], .ok c)
    else ([], .error ⟨c.pos, .unknownVerification tag⟩)

/-- Over `n` verification types. -/
def walkTypes : Nat → Cursor → Walk
  | 0, c => ([], .ok c)
  | n + 1, c => (walkType c).andThen (walkTypes n)

/-- Over what follows the type of a frame. -/
def walkBody (frameType : UInt8) (c : Cursor) : Walk :=
  let n := frameType.toNat
  if n ≤ 63 then ([], .ok c)
  else if n ≤ 127 then walkTypes 1 c
  else if n < 247 then ([], .error ⟨c.pos, .reservedFrame frameType⟩)
  else reading Reader.u2 c fun _ c =>
    if n = 247 then walkTypes 1 c
    else if n ≤ 251 then ([], .ok c)
    else if n ≤ 254 then walkTypes (n - 251) c
    else
      reading Reader.u2 c fun locals c =>
        (walkTypes locals.toNat c).andThen fun c =>
          reading Reader.u2 c fun stack c => walkTypes stack.toNat c

/-- Over one frame. -/
def walk (c : Cursor) : Walk :=
  reading Reader.u1 c walkBody

/-- Cuts one frame off the input. -/
def read : Reader StackMapFrame := fun c =>
  match (walk c).2 with
  | .ok after =>
    let data := c.rest.take (after.pos - c.pos)
    .ok (⟨data.headD 0, data⟩, after)
  | .error fault => .error fault

/-- A frame is written as its bytes. -/
def codec : Codec StackMapFrame where
  read := read
  write f := .ok f.data

/-- The class indices in a frame, up to the first fault in it. -/
def objects (f : StackMapFrame) : List PoolIndex :=
  (walk (.ofBytes f.data)).1

end StackMapFrame

end ClassPrune
