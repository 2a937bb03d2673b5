import ClassPrune.Attribute.StackMap
import ClassPrune.Proofs.Codec

/-!
# The grammar of stack map frames

A frame is kept as bytes, so a frame made in memory may hold anything. It is read again when its
bytes are one frame of the grammar.

- `VerificationType`: what a frame says of one local variable or one stack entry.
- `StackMapFrame.Follows`: what may follow the type of a frame, by ranges of that type.
- `StackMapFrame.Covers`: a walk passes over exactly the given bytes, whatever stands behind them.
- `StackMapFrame.walk_covers`, `StackMapFrame.walk_sound`: the walk passes over a frame of the
  grammar, and over nothing else.
- `StackMapFrame.codec_sound`, `StackMapFrame.codec_within`: a frame is kept as the bytes that the
  walk over it passes, and a frame of the grammar is cut off where it ends.
-/

namespace ClassPrune

/-! ## Verification types -/

/-- What is known of one local variable or one stack entry. -/
inductive VerificationType where
  /-- A primitive type, null, or an object that is not initialised yet: only a tag. -/
  | simple (tag : UInt8)
  /-- An object of the class at an index. -/
  | object (index : PoolIndex)
  /-- An object that the instruction at an offset made. -/
  | uninitialized (offset : UInt16)
  deriving DecidableEq, Repr

namespace VerificationType

/-- The bytes of a verification type. -/
inductive Spells : Bytes → VerificationType → Prop
  | simple {tag : UInt8} (small : tag.toNat ≤ 6) : Spells [tag] (.simple tag)
  | object (index : PoolIndex) : Spells (7 :: Bytes.ofU2 index) (.object index)
  | uninitialized (offset : UInt16) : Spells (8 :: Bytes.ofU2 offset) (.uninitialized offset)

/-- The classes that a verification type names. -/
def classes : VerificationType → List PoolIndex
  | .object index => [index]
  | _ => []

end VerificationType

namespace StackMapFrame

open VerificationType (Spells classes)

/-- What follows the type of a frame, and the verification types in it: the local variables, then
the stack. The types 128 to 246 are reserved. -/
inductive Follows (frameType : UInt8) : Bytes → List VerificationType → Prop
  | same (high : frameType.toNat ≤ 63) : Follows frameType [] []
  | sameLocals {front : Bytes} {item : VerificationType} (low : 64 ≤ frameType.toNat)
    (high : frameType.toNat ≤ 127) (stack : Spells front item) : Follows frameType front [item]
  | sameLocalsExtended {front : Bytes} {item : VerificationType} (eq : frameType.toNat = 247)
    (offset : UInt16) (stack : Spells front item) :
    Follows frameType (Bytes.ofU2 offset ++ front) [item]
  /-- Fewer local variables than before, or the same ones. -/
  | chop (low : 248 ≤ frameType.toNat) (high : frameType.toNat ≤ 251) (offset : UInt16) :
    Follows frameType (Bytes.ofU2 offset) []
  | append {rows : Bytes} {locals : List VerificationType} (low : 252 ≤ frameType.toNat)
    (high : frameType.toNat ≤ 254) (offset : UInt16)
    (count : locals.length = frameType.toNat - 251) (more : Rows Spells rows locals) :
    Follows frameType (Bytes.ofU2 offset ++ rows) locals
  | full {rows rows' : Bytes} {locals stack : List VerificationType} (eq : frameType.toNat = 255)
    (offset localCount stackCount : UInt16) (hlocals : locals.length = localCount.toNat)
    (hstack : stack.length = stackCount.toNat) (localRows : Rows Spells rows locals)
    (stackRows : Rows Spells rows' stack) :
    Follows frameType (Bytes.ofU2 offset ++ (Bytes.ofU2 localCount ++
      (rows ++ (Bytes.ofU2 stackCount ++ rows')))) (locals ++ stack)

/-- The bytes of one frame, and the verification types in it. -/
inductive IsFrame : Bytes → List VerificationType → Prop
  | mk {frameType : UInt8} {front : Bytes} {types : List VerificationType}
    (follows : Follows frameType front types) : IsFrame (frameType :: front) types

/-- The bytes of the frame are its type and one frame of that type. -/
def Canonical (f : StackMapFrame) : Prop :=
  ∃ front types, f.data = f.frameType :: front ∧ Follows f.frameType front types

/-! ## Walks -/

/-- In front of any rest, the walk passes over exactly `front` and sees `seen`. -/
def Covers (walk : Cursor → Walk) (front : Bytes) (seen : List PoolIndex) : Prop :=
  ∀ pos rest, walk ⟨pos, front ++ rest⟩ = (seen, .ok ⟨pos + front.length, rest⟩)

theorem Covers.stay (seen : List PoolIndex) : Covers (fun c => (seen, .ok c)) [] seen :=
  fun _ _ => rfl

/-- A walk that reads something first covers what was read, then what the rest covers. -/
theorem Covers.reading {α : Type} {r : Reader α} {next : α → Cursor → Walk} {front back : Bytes}
    {v : α} {seen : List PoolIndex} (hr : Reads r front v) (hnext : Covers (next v) back seen) :
    Covers (fun c => reading r c next) (front ++ back) seen := by
  intro pos rest
  show StackMapFrame.reading r _ next = _
  rw [StackMapFrame.reading, List.append_assoc, hr pos (back ++ rest)]
  show next v _ = _
  rw [hnext, List.length_append, Nat.add_assoc]

/-- Two walks one after the other cover their bytes one behind the other, and see what both have
seen. -/
theorem Covers.andThen {walk next : Cursor → Walk} {front back : Bytes}
    {seen seen' : List PoolIndex} (hwalk : Covers walk front seen)
    (hnext : Covers next back seen') :
    Covers (fun c => (walk c).andThen next) (front ++ back) (seen ++ seen') := by
  intro pos rest
  show (walk _).andThen next = _
  rw [List.append_assoc, hwalk pos (back ++ rest)]
  show (seen ++ (next _).1, (next _).2) = _
  rw [hnext, List.length_append, Nat.add_assoc]

/-- The walk over the type of one variable covers its bytes and sees the class, if the type has one.
-/
theorem walkType_covers {front : Bytes} {t : VerificationType} (h : Spells front t) :
    Covers walkType front t.classes := by
  cases h with
  | @simple tag small =>
    refine Covers.reading (u1_reads tag) (?_ : Covers _ [] [])
    simp only [if_pos small]
    exact .stay []
  | object index => exact .reading (u1_reads 7) (.reading (u2_reads index) (.stay [index]))
  | uninitialized offset => exact .reading (u1_reads 8) (.reading (u2_reads offset) (.stay []))

theorem walkTypes_covers {bytes : Bytes} {types : List VerificationType}
    (h : Rows Spells bytes types) :
    Covers (walkTypes types.length) bytes (types.flatMap classes) := by
  induction h with
  | nil => exact .stay []
  | cons head _ ih =>
    rw [List.flatMap_cons]
    exact .andThen (walkType_covers head) ih

theorem walkTypes_one_covers {bytes : Bytes} {t : VerificationType} (h : Spells bytes t) :
    Covers (walkTypes 1) bytes ([t].flatMap classes) := by
  have hcovers := walkTypes_covers (Rows.cons h .nil)
  rw [List.append_nil] at hcovers
  exact hcovers

/-- Past the short frames, a walk reads an offset first. -/
theorem walkBody_offset {frameType : UInt8} (h : 247 ≤ frameType.toNat) :
    walkBody frameType = fun c => reading Reader.u2 c fun _ c =>
      if frameType.toNat = 247 then walkTypes 1 c
      else if frameType.toNat ≤ 251 then ([], .ok c)
      else if frameType.toNat ≤ 254 then walkTypes (frameType.toNat - 251) c
      else
        reading Reader.u2 c fun locals c =>
          (walkTypes locals.toNat c).andThen fun c =>
            reading Reader.u2 c fun stack c => walkTypes stack.toNat c := by
  funext c
  unfold walkBody
  rw [if_neg (by omega), if_neg (by omega), if_neg (by omega)]

/-- What follows the type of a frame is covered by the walk that this type asks for. -/
theorem walkBody_covers {frameType : UInt8} {front : Bytes} {types : List VerificationType}
    (h : Follows frameType front types) :
    Covers (walkBody frameType) front (types.flatMap classes) := by
  cases h with
  | same high =>
    have hwalk : walkBody frameType = fun c => ([], .ok c) := by
      funext c
      unfold walkBody
      rw [if_pos high]
    rw [hwalk]
    exact .stay []
  | sameLocals low high stack =>
    have hwalk : walkBody frameType = walkTypes 1 := by
      funext c
      unfold walkBody
      rw [if_neg (by omega), if_pos high]
    rw [hwalk]
    exact walkTypes_one_covers stack
  | sameLocalsExtended eq offset stack =>
    rw [walkBody_offset (by omega)]
    refine .reading (u2_reads offset) ?_
    simp only [if_pos eq]
    exact walkTypes_one_covers stack
  | chop low high offset =>
    rw [walkBody_offset (by omega)]
    refine .reading (u2_reads offset) (?_ : Covers _ [] [])
    have hne : frameType.toNat ≠ 247 := by omega
    simp only [if_neg hne, if_pos high]
    exact .stay []
  | append low high offset count more =>
    rw [walkBody_offset (by omega)]
    refine .reading (u2_reads offset) ?_
    have hne : frameType.toNat ≠ 247 := by omega
    have hgt : ¬frameType.toNat ≤ 251 := by omega
    simp only [if_neg hne, if_neg hgt, if_pos high, ← count]
    exact walkTypes_covers more
  | full eq offset localCount stackCount hlocals hstack localRows stackRows =>
    rw [walkBody_offset (by omega), List.flatMap_append]
    refine .reading (u2_reads offset) ?_
    have hne : frameType.toNat ≠ 247 := by omega
    have hgt : ¬frameType.toNat ≤ 251 := by omega
    have hgt' : ¬frameType.toNat ≤ 254 := by omega
    simp only [if_neg hne, if_neg hgt, if_neg hgt']
    refine .reading (u2_reads localCount) ?_
    rw [← hlocals]
    refine .andThen (walkTypes_covers localRows) (.reading (u2_reads stackCount) ?_)
    rw [← hstack]
    exact walkTypes_covers stackRows

/-- The walk over a frame ends where the frame does, and sees the classes of its types in order. -/
theorem walk_covers {front : Bytes} {types : List VerificationType} (h : IsFrame front types) :
    Covers walk front (types.flatMap classes) := by
  obtain ⟨hfollows⟩ := h
  exact .reading (u1_reads _) (walkBody_covers hfollows)

/-! ## Walks that end -/

/-- A walk that reads and ends has read a value and gone on from there. -/
theorem exists_of_reading {α : Type} {r : Reader α} {c after : Cursor}
    {next : α → Cursor → Walk} (h : (reading r c next).2 = .ok after) :
    ∃ v d, r c = .ok (v, d) ∧ (next v d).2 = .ok after := by
  unfold reading at h
  cases hr : r c with
  | error fault =>
    rw [hr] at h
    cases h
  | ok p =>
    rw [hr] at h
    exact ⟨p.1, p.2, rfl, h⟩

/-- Two walks that end one after the other. -/
theorem exists_of_andThen {w : Walk} {next : Cursor → Walk} {after : Cursor}
    (h : (w.andThen next).2 = .ok after) : ∃ d, w.2 = .ok d ∧ (next d).2 = .ok after := by
  obtain ⟨seen, ended⟩ := w
  cases ended with
  | error fault => cases h
  | ok d => exact ⟨d, rfl, h⟩

/-- A walk that ends has passed over the type of one variable. -/
theorem walkType_sound {c after : Cursor} (h : (walkType c).2 = .ok after) :
    ∃ front t, c.Passes front after ∧ Spells front t := by
  obtain ⟨tag, d, htag, h⟩ := exists_of_reading h
  obtain ⟨front, hpass, rfl⟩ := u1_sound htag
  by_cases hsmall : tag.toNat ≤ 6
  · rw [if_pos hsmall] at h
    cases h
    exact ⟨_, _, hpass, .simple hsmall⟩
  rw [if_neg hsmall] at h
  by_cases hobject : tag = 7
  · subst hobject
    obtain ⟨index, e, hindex, h⟩ := exists_of_reading h
    obtain ⟨back, hpass', rfl⟩ := u2_sound hindex
    cases h
    exact ⟨_, _, hpass.trans hpass', .object index⟩
  rw [if_neg hobject] at h
  by_cases hfresh : tag = 8
  · subst hfresh
    obtain ⟨offset, e, hoffset, h⟩ := exists_of_reading h
    obtain ⟨back, hpass', rfl⟩ := u2_sound hoffset
    cases h
    exact ⟨_, _, hpass.trans hpass', .uninitialized offset⟩
  · rw [if_neg hfresh] at h
    cases h

/-- A walk over several types has passed over that many. -/
theorem walkTypes_sound {n : Nat} {c after : Cursor} (h : (walkTypes n c).2 = .ok after) :
    ∃ front types, c.Passes front after ∧ types.length = n ∧ Rows Spells front types := by
  induction n generalizing c with
  | zero =>
    cases h
    exact ⟨[], [], .nil _, rfl, .nil⟩
  | succ n ih =>
    obtain ⟨d, hhead, h⟩ := exists_of_andThen h
    obtain ⟨front, t, hpass, hspells⟩ := walkType_sound hhead
    obtain ⟨back, types, hpass', hlen, hrows⟩ := ih h
    exact ⟨_, t :: types, hpass.trans hpass', congrArg Nat.succ hlen, .cons hspells hrows⟩

theorem walkTypes_one_sound {c after : Cursor} (h : (walkTypes 1 c).2 = .ok after) :
    ∃ front t, c.Passes front after ∧ Spells front t := by
  obtain ⟨d, hhead, h⟩ := exists_of_andThen h
  cases h
  exact walkType_sound hhead

/-- One case for each layout of a frame, in the order of the walk. -/
theorem walkBody_sound {frameType : UInt8} {c after : Cursor}
    (h : (walkBody frameType c).2 = .ok after) :
    ∃ front types, c.Passes front after ∧ Follows frameType front types := by
  by_cases hsame : frameType.toNat ≤ 63
  · rw [walkBody, if_pos hsame] at h
    cases h
    exact ⟨[], [], .nil c, .same hsame⟩
  by_cases hlocals : frameType.toNat ≤ 127
  · rw [walkBody, if_neg hsame, if_pos hlocals] at h
    obtain ⟨front, t, hpass, hspells⟩ := walkTypes_one_sound h
    exact ⟨front, [t], hpass, .sameLocals (by omega) hlocals hspells⟩
  by_cases hreserved : frameType.toNat < 247
  · rw [walkBody, if_neg hsame, if_neg hlocals, if_pos hreserved] at h
    cases h
  rw [walkBody_offset (by omega)] at h
  obtain ⟨offset, d, hoffset, h⟩ := exists_of_reading h
  obtain ⟨front, hpass, rfl⟩ := u2_sound hoffset
  by_cases hextended : frameType.toNat = 247
  · rw [if_pos hextended] at h
    obtain ⟨back, t, hpass', hspells⟩ := walkTypes_one_sound h
    exact ⟨_, [t], hpass.trans hpass', .sameLocalsExtended hextended offset hspells⟩
  rw [if_neg hextended] at h
  by_cases hchop : frameType.toNat ≤ 251
  · rw [if_pos hchop] at h
    cases h
    exact ⟨_, [], hpass, .chop (by omega) hchop offset⟩
  rw [if_neg hchop] at h
  by_cases happend : frameType.toNat ≤ 254
  · rw [if_pos happend] at h
    obtain ⟨back, types, hpass', hlen, hrows⟩ := walkTypes_sound h
    exact ⟨_, types, hpass.trans hpass', .append (by omega) happend offset hlen hrows⟩
  · rw [if_neg happend] at h
    -- a full frame: local variables, then the stack
    have hfull : frameType.toNat = 255 := by
      have hlt := frameType.toNat_lt
      omega
    obtain ⟨localCount, e, hcount, h⟩ := exists_of_reading h
    obtain ⟨front', hpass', rfl⟩ := u2_sound hcount
    obtain ⟨e', hlocals, h⟩ := exists_of_andThen h
    obtain ⟨rows, locals, hpassLocals, hlen, hrows⟩ := walkTypes_sound hlocals
    obtain ⟨stackCount, f, hcount', h⟩ := exists_of_reading h
    obtain ⟨front'', hpass'', rfl⟩ := u2_sound hcount'
    obtain ⟨rows', stack, hpassStack, hlen', hrows'⟩ := walkTypes_sound h
    exact ⟨_, locals ++ stack,
      hpass.trans (hpass'.trans (hpassLocals.trans (hpass''.trans hpassStack))),
      .full hfull offset localCount stackCount hlen hlen' hrows hrows'⟩

/-- **A walk that does not fail passes over one frame of the grammar.** -/
theorem walk_sound {c after : Cursor} (h : (walk c).2 = .ok after) :
    ∃ front types, c.Passes front after ∧ IsFrame front types := by
  obtain ⟨frameType, d, htype, h⟩ := exists_of_reading h
  obtain ⟨front, hpass, rfl⟩ := u1_sound htype
  obtain ⟨back, types, hpass', hfollows⟩ := walkBody_sound h
  exact ⟨_, types, hpass.trans hpass', .mk hfollows⟩

/-! ## Cutting frames -/

/-- The frame is kept as its bytes, and these are one frame of the grammar. -/
structure Cut (front : Bytes) (f : StackMapFrame) : Prop where
  data_eq : f.data = front
  head_eq : f.data.head? = some f.frameType
  grammar : ∃ types, IsFrame front types

/-- What is cut off is a frame by the grammar, with its bytes kept. -/
theorem read_sound : Sound read Cut := by
  intro c c' f h
  unfold read at h
  cases hwalk : (walk c).2 with
  | error fault =>
    rw [hwalk] at h
    cases h
  | ok after =>
    rw [hwalk] at h
    cases h
    obtain ⟨front, types, hpass, hframe⟩ := walk_sound hwalk
    -- the bytes between the two positions are the bytes that the walk passes
    have hdata : c.rest.take (c'.pos - c.pos) = front := by
      rw [hpass.pos_eq, Nat.add_sub_cancel_left, hpass.rest_eq, List.take_left]
    refine ⟨front, hpass, hdata, ?_, types, hframe⟩
    show (c.rest.take (c'.pos - c.pos)).head? = some ((c.rest.take (c'.pos - c.pos)).headD 0)
    rw [hdata]
    cases hframe
    rfl

/-- A frame is cut off where it ends, whatever stands behind it. -/
theorem read_complete : Complete read Cut := by
  rintro front f ⟨rfl, hhead, types, hframe⟩ pos rest
  have hlen : pos + f.data.length - pos = f.data.length := Nat.add_sub_cancel_left _ _
  simp only [read, walk_covers hframe pos rest, hlen, List.take_left]
  rw [List.headD_eq_head?_getD, hhead]
  rfl

/-- A frame is written as the bytes that it was cut from. -/
theorem codec_sound : codec.Sound := by
  intro c c' f h
  obtain ⟨front, hpass, hcut⟩ := read_sound h
  exact ⟨front, hpass, congrArg Except.ok hcut.data_eq⟩

theorem codec_within (n : Nat) : codec.CompleteWithin n Canonical := by
  rintro bytes f ⟨hspells, ⟨front, types, hdata, hfollows⟩, -⟩
  refine read_complete ⟨Except.ok.inj hspells, ?_, types, ?_⟩
  · rw [hdata]
    rfl
  · rw [← Except.ok.inj hspells, hdata]
    exact .mk hfollows

end StackMapFrame

end ClassPrune
