import ClassPrune.Proofs.Class.RoundTrip

/-!
# Where reading a class file fails

Reading never leaves the input. `Confined` says so of one reader: the end of the input stays where
it is, and any error is one of the errors that are expected of that input. It is closed under
sequences, so each reader of the file has its lemma from those of its parts; what is carried
through the pool besides is where each constant stood, since the second pass reports there.

- `Cause.isLayout`: the faults in the layout of a file. The others are faults in payloads.
- `ClassFile.read_confined`, `ClassFile.fault_of_parse`: every failure is a fault in the layout,
  seen at a place in the input or at its end.
-/

namespace ClassPrune

/-- Whether the fault is one in the layout of the file, and not one in a payload or in a value. -/
def Cause.isLayout : Cause → Bool
  | .unexpectedEnd | .badMagic _ | .zeroPoolCount | .unknownTag _ | .badHandleKind _
  | .noSecondSlot .. | .badLink .. | .attributeTooLong .. | .trailingBytes _ => true
  | _ => false

/-- A fault in the layout of an input of `stop` bytes. -/
structure Fault.Inside (stop : Nat) (f : Fault) : Prop where
  offset_le : f.offset ≤ stop
  isLayout : f.cause.isLayout = true

/-- Where the input ends that the cursor stands in. -/
def Cursor.stop (c : Cursor) : Nat := c.pos + c.rest.length

theorem Cursor.pos_le_stop (c : Cursor) : c.pos ≤ c.stop := Nat.le_add_right _ _

/-- Reading does not move the end of the input. -/
theorem Cursor.Passes.stop_eq {c c' : Cursor} {front : Bytes} (h : c.Passes front c') :
    c'.stop = c.stop := by
  rw [stop, stop, h.pos_eq, h.rest_eq, List.length_append, Nat.add_assoc]

/-! ## Readers that stay in the input -/

variable {ε α β : Type}

/-- In an input that ends at `stop`, the end of the input stays there, a value that `r` gives
meets `Q`, and an error that it gives meets `E`. -/
def Confined (stop : Nat) (E : ε → Prop) (r : StateT Cursor (Except ε) α) (Q : α → Prop) : Prop :=
  ∀ c : Cursor, c.stop = stop →
    match r c with
    | .ok (v, c') => c'.stop = stop ∧ Q v
    | .error e => E e

section Confined

variable {stop : Nat} {E : ε → Prop} {r : StateT Cursor (Except ε) α} {P Q : α → Prop}
  {R : β → Prop}

/-- A reader that reads nothing is where it was. -/
theorem Confined.pure {v : α} (hv : Q v) :
    Confined stop E (pure v : StateT Cursor (Except ε) α) Q :=
  fun _ hc => ⟨hc, hv⟩

/-- Two readers one after the other. What the first one guarantees of its value is all that the
second may rely on. -/
theorem Confined.bind {next : α → StateT Cursor (Except ε) β} (hr : Confined stop E r Q)
    (hnext : ∀ v, Q v → Confined stop E (next v) R) : Confined stop E (r >>= next) R := by
  intro c hc
  have hrun : (r >>= next) c = (r c >>= fun p => next p.1 p.2) := rfl
  have h := hr c hc
  rw [hrun]
  cases hfirst : r c with
  | error e =>
    rw [hfirst] at h
    exact h
  | ok p =>
    rw [hfirst] at h
    exact hnext p.1 h.2 p.2 h.1

/-- A step at the end that consumes nothing. -/
theorem Confined.bind_pure {f : α → β} (hr : Confined stop E r Q) :
    Confined stop E (r >>= fun v => Pure.pure (f v)) fun _ => True :=
  hr.bind fun _ _ => .pure trivial

/-- A reader that fails needs an error of the expected ones, and nothing else. -/
theorem confined_throw {e : ε} (he : E e) :
    Confined stop E (throw e : StateT Cursor (Except ε) α) Q :=
  fun _ _ => he

end Confined

/-! ## Words and byte strings -/

section Reader

variable {stop : Nat}

/-- A reader that passes over bytes or fails where it stands. -/
theorem confined_of_sound {r : Reader α} {P : Bytes → α → Prop} (hr : Sound r P)
    (herror : ∀ c f, r c = .error f → f.offset = c.pos ∧ f.cause.isLayout = true) :
    Confined stop (Fault.Inside stop) r fun _ => True := by
  rintro c rfl
  cases hrun : r c with
  | error f =>
    obtain ⟨hoffset, hlayout⟩ := herror c f hrun
    exact ⟨hoffset ▸ c.pos_le_stop, hlayout⟩
  | ok p =>
    obtain ⟨front, hpass, -⟩ := hr hrun
    exact ⟨hpass.stop_eq, trivial⟩

/-- An offset that was noted on the way lies in the input. This is what later faults report. -/
theorem position_confined :
    Confined stop (Fault.Inside stop) Reader.position fun start => start ≤ stop :=
  fun c hc => ⟨hc, hc ▸ c.pos_le_stop⟩

theorem u1_confined : Confined stop (Fault.Inside stop) Reader.u1 fun _ => True := by
  refine confined_of_sound u1_sound fun c f h => ?_
  unfold Reader.u1 at h
  split at h <;> cases h
  exact ⟨rfl, rfl⟩

theorem u2_confined : Confined stop (Fault.Inside stop) Reader.u2 fun _ => True := by
  refine confined_of_sound u2_sound fun c f h => ?_
  unfold Reader.u2 at h
  split at h <;> cases h
  exact ⟨rfl, rfl⟩

theorem u4_confined : Confined stop (Fault.Inside stop) Reader.u4 fun _ => True := by
  refine confined_of_sound u4_sound fun c f h => ?_
  unfold Reader.u4 at h
  split at h <;> cases h
  exact ⟨rfl, rfl⟩

theorem u8_confined : Confined stop (Fault.Inside stop) Reader.u8 fun _ => True :=
  u4_confined.bind fun _ _ => u4_confined.bind_pure

/-- Where bytes are missing the fault is at the place from which they were asked for. -/
theorem bytesOr_error {n : Nat} {cause : Nat → Cause} {c : Cursor} {f : Fault}
    (h : Reader.bytesOr n cause c = .error f) : f = ⟨c.pos, cause c.rest.length⟩ := by
  unfold Reader.bytesOr at h
  split at h <;> cases h
  rfl

theorem bytes_confined (n : Nat) :
    Confined stop (Fault.Inside stop) (Reader.bytes n) fun _ => True := by
  refine confined_of_sound (bytesOr_sound n _) fun c f h => ?_
  rw [bytesOr_error h]
  exact ⟨rfl, rfl⟩

/-- A reader may be repeated. -/
theorem times_confined {r : Reader α} {Q : α → Prop}
    (hr : Confined stop (Fault.Inside stop) r Q) :
    ∀ n, Confined stop (Fault.Inside stop) (Reader.times n r) fun _ => True
  | 0 => .pure trivial
  | n + 1 => hr.bind fun _ _ => (times_confined hr n).bind_pure

theorem words_confined :
    Confined stop (Fault.Inside stop) Codec.words.read fun _ => True :=
  u2_confined.bind fun count _ => times_confined u2_confined count.toNat

/-- A place in front of a fault does not change where the fault is. -/
theorem Confined.within {r : Reader α} {Q : α → Prop}
    (h : Confined stop (Fault.Inside stop) r Q) (place : Place) :
    Confined stop (fun e : ParseError => e.fault.Inside stop) (r.within place) Q := by
  intro c hc
  have hrun := h c hc
  unfold Reader.within
  cases hr : r c with
  | error f =>
    rw [hr] at hrun
    exact hrun
  | ok p =>
    rw [hr] at hrun
    exact hrun

/-! ## Attributes and members -/

/-- A payload that is too long for the reader is a fault at its start, which is in the input. -/
theorem RawAttribute.readPayload_confined (ordinal : Nat) (length : UInt32) :
    Confined stop (Fault.Inside stop) (readPayload ordinal length) fun _ => True := by
  refine confined_of_sound (readPayload_sound ordinal length) fun c f h => ?_
  unfold readPayload at h
  split at h
  · cases h
    exact ⟨rfl, rfl⟩
  · rw [bytesOr_error h]
    exact ⟨rfl, rfl⟩

theorem RawAttribute.readRows_confined :
    ∀ n ordinal, Confined stop (Fault.Inside stop) (readRows n ordinal) fun _ => True
  | 0, _ => .pure trivial
  | n + 1, ordinal =>
    u2_confined.bind fun _ _ => u4_confined.bind fun length _ =>
      (readPayload_confined ordinal length).bind fun _ _ =>
        (readRows_confined n (ordinal + 1)).bind_pure

/-- Decoding the payloads of a table cannot fail: only its rows can be cut off. -/
theorem Attribute.readTable_confined (pool : Pool) :
    Confined stop (Fault.Inside stop) (readTable pool) fun _ => True :=
  Confined.bind_pure (u2_confined.bind fun count _ =>
    RawAttribute.readRows_confined count.toNat 0)

theorem Member.read_confined (pool : Pool) :
    Confined stop (Fault.Inside stop) (Member.read pool) fun _ => True :=
  u2_confined.bind fun _ _ => u2_confined.bind fun _ _ => u2_confined.bind fun _ _ =>
    (Attribute.readTable_confined pool).bind_pure

/-- Each member reports its faults with its own number. -/
theorem Member.readMany_confined (pool : Pool) (place : Nat → Place) :
    ∀ n ordinal, Confined stop (fun e : ParseError => e.fault.Inside stop)
      (readMany pool place n ordinal) fun _ => True
  | 0, _ => .pure trivial
  | n + 1, ordinal =>
    ((Member.read_confined pool).within _).bind fun _ _ =>
      (readMany_confined pool place n (ordinal + 1)).bind_pure

/-! ## Constants -/

namespace Entry

theorem readNamed_confined (kind : NamedKind) :
    Confined stop (Fault.Inside stop) (readNamed kind) fun _ => True :=
  u2_confined.bind_pure

theorem readMember_confined (kind : MemberKind) :
    Confined stop (Fault.Inside stop) (readMember kind) fun _ => True :=
  u2_confined.bind fun _ _ => u2_confined.bind_pure

theorem readComputed_confined (kind : ComputedKind) :
    Confined stop (Fault.Inside stop) (readComputed kind) fun _ => True :=
  u2_confined.bind fun _ _ => u2_confined.bind_pure

/-- A handle of an unknown kind is a fault at the start of the constant, which was noted before. -/
theorem readMethodHandle_confined {start : Nat} (hstart : start ≤ stop) :
    Confined stop (Fault.Inside stop) (readMethodHandle start) fun _ => True := by
  refine u1_confined.bind fun kind _ => u2_confined.bind fun reference _ => ?_
  split
  · exact .pure trivial
  · exact confined_throw ⟨hstart, rfl⟩

/-- The contents of a constant, by its tag. -/
theorem readBody_confined {start : Nat} (hstart : start ≤ stop) (tag : Tag) :
    Confined stop (Fault.Inside stop) (readBody start tag) fun _ => True := by
  cases tag with
  | utf8 => exact u2_confined.bind fun length _ => (bytes_confined length.toNat).bind_pure
  | integer | float => exact u4_confined.bind_pure
  | long | double => exact u8_confined.bind_pure
  | classRef | string | methodType | moduleRef | packageRef => exact readNamed_confined _
  | fieldref | methodref | interfaceMethodref => exact readMember_confined _
  | nameAndType => exact u2_confined.bind fun _ _ => u2_confined.bind_pure
  | methodHandle => exact readMethodHandle_confined hstart
  | dynamic | invokeDynamic => exact readComputed_confined _

/-- A constant reports an unknown tag at its start. -/
theorem read_confined :
    Confined stop (Fault.Inside stop) Entry.read fun _ => True := by
  refine position_confined.bind fun start hstart => u1_confined.bind fun byte _ => ?_
  split
  · exact readBody_confined hstart _
  · exact confined_throw ⟨hstart, rfl⟩

end Entry

/-- A constant remembers where it stood. -/
theorem readLocated_confined (index : Nat) :
    Confined stop (fun e : ParseError => e.fault.Inside stop) (readLocated index)
      fun l => l.offset ≤ stop :=
  (position_confined.within _).bind fun _ hoffset => (Entry.read_confined.within _).bind fun _ _ =>
    .pure hoffset

/-- All constants of a file, each with the offset at which it stood. -/
theorem readEntries_confined :
    ∀ room index, Confined stop (fun e : ParseError => e.fault.Inside stop)
      (readEntries room index) fun ls => ∀ l ∈ ls, l.offset ≤ stop
  | 0, _ => .pure fun _ hl => (nomatch hl)
  | 1, index => by
    refine (readLocated_confined index).bind fun l hl => ?_
    by_cases hwide : l.entry.isWide = true
    · simp only [hwide, if_true]
      exact confined_throw ⟨hl, rfl⟩
    · simp only [hwide]
      exact .pure fun l' hl' => List.mem_singleton.mp hl' ▸ hl
  | room + 2, index => by
    refine (readLocated_confined index).bind fun l hl => ?_
    have hrest : ∀ more : List Located, (∀ l' ∈ more, l'.offset ≤ stop) →
        Confined stop (fun e : ParseError => e.fault.Inside stop)
          (pure (l :: more) : FileReader (List Located)) fun ls => ∀ l' ∈ ls, l'.offset ≤ stop :=
      fun more hmore => .pure (List.forall_mem_cons.mpr ⟨hl, hmore⟩)
    by_cases hwide : l.entry.isWide = true
    · simp only [hwide, if_true]
      exact (readEntries_confined room (index + 2)).bind hrest
    · simp only [hwide]
      exact (readEntries_confined (room + 1) (index + 1)).bind hrest

end Reader

namespace Pool

variable {stop : Nat}

/-- A reference that cannot be bound is reported where its constant stood. -/
theorem inside_of_link_error {ls : List Located} (hls : ∀ l ∈ ls, l.offset ≤ stop)
    {e : ParseError} (h : link ls = .error e) : e.fault.Inside stop := by
  rcases bind_eq_error.mp h with hcells | ⟨cells, -, h⟩
  · obtain ⟨l, hl, herror⟩ := exists_of_mapM_error hcells
    unfold linkEntry at herror
    split at herror <;> cases herror
    exact ⟨hls l hl, rfl⟩
  · cases h

/-- The second pass over the pool reads nothing more. Its faults are at the offsets that the first
pass has noted. -/
theorem link_confined {ls : List Located} (hls : ∀ l ∈ ls, l.offset ≤ stop) :
    Confined stop (fun e : ParseError => e.fault.Inside stop)
      (link ls : FileReader Pool) fun _ => True := by
  intro c hc
  cases h : link ls with
  | ok p => exact ⟨hc, trivial⟩
  | error e => exact inside_of_link_error hls h

theorem read_confined :
    Confined stop (fun e : ParseError => e.fault.Inside stop) Pool.read fun _ => True := by
  refine (position_confined.within _).bind fun start hstart =>
    (u2_confined.within _).bind fun count _ => ?_
  split
  · exact (confined_throw (Q := fun _ => False) ⟨hstart, rfl⟩).bind fun _ h => h.elim
  · exact (readEntries_confined _ _).bind fun ls hls => link_confined hls

end Pool

/-! ## Class files -/

namespace ClassFile

variable {stop : Nat}

/-- A file that begins with other bytes is refused at its start. -/
theorem readMagic_confined : Confined stop (Fault.Inside stop) readMagic fun _ => True := by
  refine position_confined.bind fun start hstart => u4_confined.bind fun found _ => ?_
  split
  · exact confined_throw ⟨hstart, rfl⟩
  · exact .pure trivial

/-- **Reading a class file never leaves the input.** -/
theorem read_confined :
    Confined stop (fun e : ParseError => e.fault.Inside stop) ClassFile.read fun _ => True :=
  (readMagic_confined.within _).bind fun _ _ =>
    (u2_confined.within _).bind fun _ _ => (u2_confined.within _).bind fun _ _ =>
    Pool.read_confined.bind fun pool _ =>
    (u2_confined.within _).bind fun _ _ => (u2_confined.within _).bind fun _ _ =>
    (u2_confined.within _).bind fun _ _ => (words_confined.within _).bind fun _ _ =>
    (u2_confined.within _).bind fun fieldCount _ =>
    (Member.readMany_confined pool _ fieldCount.toNat 0).bind fun _ _ =>
    (u2_confined.within _).bind fun methodCount _ =>
    (Member.readMany_confined pool _ methodCount.toNat 0).bind fun _ _ =>
    ((Attribute.readTable_confined pool).within _).bind_pure

/-- Every failure is a fault in the layout, seen at a byte of the input or at its end. -/
theorem fault_of_parse {data : Bytes} {e : ParseError} (h : parse data = .error e) :
    e.fault.Inside data.length := by
  have hstart : (Cursor.ofBytes data).stop = data.length := Nat.zero_add _
  have hrun := read_confined _ hstart
  unfold parse at h
  cases hread : ClassFile.read (.ofBytes data) with
  | error e' =>
    rw [hread] at h hrun
    cases h
    exact hrun
  | ok p =>
    obtain ⟨k, c'⟩ := p
    obtain ⟨pos, rest⟩ := c'
    rw [hread] at h hrun
    obtain ⟨hstop, -⟩ := hrun
    cases rest with
    | nil => cases h
    | cons b rest =>
      -- what is left over is seen where the class file ends
      cases h
      exact ⟨hstop ▸ Nat.le_add_right _ _, rfl⟩

end ClassFile

end ClassPrune
