import Mathlib.Data.List.Forall2
import ClassPrune.Codec
import ClassPrune.Proofs.Bytes

/-!
# Readers against formats

A *format* is a relation `P front v` between byte strings and values. A reader is compared with
a format in both directions, each in the form that composes:

- `Sound r P`: what `r` consumes spells the value that it gives.
- `Complete r P`: in front of any rest, `r` consumes exactly a spelling and gives its value.
- `Codec.Sound`, `Codec.Complete`: the same for the format that the writer of a codec defines.
- `Codec.CompleteWithin`: the same for a reader that is told how many bytes are left, and for the
  values that its format can tell apart.

The laws of the combinators (`pair`, `iso`, `table1`, `table2`, `measured`) are proved once here, so
that the layout of a record needs only the two directions of its field isomorphism.
-/

namespace ClassPrune

variable {ε α β : Type}

/-! ## Computations that may fail -/

theorem ok_bind (a : α) (f : α → Except ε β) : (Except.ok a >>= f) = f a := rfl

/-- A sequence of two steps succeeds when both do. -/
theorem bind_eq_ok {x : Except ε α} {f : α → Except ε β} {b : β} :
    (x >>= f) = .ok b ↔ ∃ a, x = .ok a ∧ f a = .ok b := by
  cases x with
  | error e =>
    constructor
    · intro h
      cases h
    · rintro ⟨a, ha, -⟩
      cases ha
  | ok a =>
    constructor
    · intro h
      exact ⟨a, rfl, h⟩
    · rintro ⟨a', ha, h⟩
      cases ha
      exact h

/-- A sequence of two steps fails in the first or in the second. -/
theorem bind_eq_error {x : Except ε α} {f : α → Except ε β} {e : ε} :
    (x >>= f) = .error e ↔ x = .error e ∨ ∃ a, x = .ok a ∧ f a = .error e := by
  cases x with
  | error e' =>
    constructor
    · intro h
      cases h
      exact .inl rfl
    · rintro (h | ⟨a, ha, -⟩)
      · cases h
        rfl
      · cases ha
  | ok a =>
    constructor
    · intro h
      exact .inr ⟨a, rfl, h⟩
    · rintro (h | ⟨a', ha, h⟩)
      · cases h
      · cases ha
        exact h

theorem map_eq_ok {x : Except ε α} {f : α → β} {b : β} :
    x.map f = .ok b ↔ ∃ a, x = .ok a ∧ f a = b := by
  cases x with
  | error e => simp [Except.map]
  | ok a => simp [Except.map]

/-- A guarded computation succeeds when the guard lets it pass. -/
theorem ite_error_eq_ok {c : Prop} [Decidable c] {e : ε} {x : Except ε α} {a : α} :
    (if c then .error e else x) = .ok a ↔ ¬c ∧ x = .ok a := by
  by_cases hc : c
  · rw [if_pos hc]
    constructor
    · intro h
      cases h
    · rintro ⟨hnot, -⟩
      exact absurd hc hnot
  · rw [if_neg hc]
    exact ⟨fun h => ⟨hc, h⟩, fun h => h.2⟩

/-- A traversal succeeds exactly when it does so at every member. -/
theorem mapM_eq_ok {f : α → Except ε β} {xs : List α} {ys : List β} :
    xs.mapM f = .ok ys ↔ List.Forall₂ (fun x y => f x = .ok y) xs ys := by
  induction xs generalizing ys with
  | nil =>
    rw [List.mapM_nil, List.forall₂_nil_left_iff]
    constructor
    · intro h
      cases h
      rfl
    · rintro rfl
      rfl
  | cons x xs ih =>
    rw [List.mapM_cons, bind_eq_ok, List.forall₂_cons_left_iff]
    constructor
    · rintro ⟨y, hy, h⟩
      obtain ⟨zs, hzs, h⟩ := bind_eq_ok.mp h
      cases h
      exact ⟨y, zs, hy, ih.mp hzs, rfl⟩
    · rintro ⟨y, zs, hy, hzs, rfl⟩
      exact ⟨y, hy, bind_eq_ok.mpr ⟨zs, ih.mpr hzs, rfl⟩⟩

/-- A traversal fails where it fails at some member. -/
theorem exists_of_mapM_error {f : α → Except ε β} {xs : List α} {e : ε}
    (h : xs.mapM f = .error e) : ∃ x ∈ xs, f x = .error e := by
  induction xs with
  | nil => cases h
  | cons x xs ih =>
    rw [List.mapM_cons] at h
    rcases bind_eq_error.mp h with hx | ⟨y, -, h⟩
    · exact ⟨x, List.mem_cons_self, hx⟩
    · rcases bind_eq_error.mp h with hxs | ⟨ys, -, h⟩
      · obtain ⟨x', hx', herror⟩ := ih hxs
        exact ⟨x', List.mem_cons_of_mem _ hx', herror⟩
      · cases h

/-- A relation between lists, looked at from one member: it is related to some member of the other
list. -/
theorem exists_of_forall₂_right {R : α → β → Prop} {xs : List α} {ys : List β}
    (h : List.Forall₂ R xs ys) {y : β} (hy : y ∈ ys) : ∃ x ∈ xs, R x y := by
  induction h with
  | nil => cases hy
  | cons hxy _ ih =>
    rcases List.mem_cons.mp hy with rfl | hy
    · exact ⟨_, List.mem_cons_self, hxy⟩
    · obtain ⟨x, hx, hR⟩ := ih hy
      exact ⟨x, List.mem_cons_of_mem _ hx, hR⟩

theorem exists_of_forall₂_left {R : α → β → Prop} {xs : List α} {ys : List β}
    (h : List.Forall₂ R xs ys) {x : α} (hx : x ∈ xs) : ∃ y ∈ ys, R x y :=
  exists_of_forall₂_right h.flip hx

/-- Related lists are related at each position. -/
theorem exists_getElem?_of_forall₂ {R : α → β → Prop} {xs : List α} {ys : List β}
    (h : List.Forall₂ R xs ys) {i : Nat} {x : α} (hx : xs[i]? = some x) :
    ∃ y, ys[i]? = some y ∧ R x y := by
  induction h generalizing i with
  | nil => cases hx
  | cons hxy _ ih =>
    cases i with
    | zero =>
      cases hx
      exact ⟨_, rfl, hxy⟩
    | succ i => exact ih hx

/-- Members that can be chosen one by one can be chosen together. -/
theorem exists_forall₂ {R : α → β → Prop} {xs : List α} (h : ∀ x ∈ xs, ∃ y, R x y) :
    ∃ ys, List.Forall₂ R xs ys := by
  induction xs with
  | nil => exact ⟨[], .nil⟩
  | cons x xs ih =>
    obtain ⟨y, hy⟩ := h x List.mem_cons_self
    obtain ⟨ys, hys⟩ := ih fun x' hx' => h x' (List.mem_cons_of_mem _ hx')
    exact ⟨y :: ys, .cons hy hys⟩

theorem forall₂_map_of_mem {R : α → β → Prop} {f : α → β} {xs : List α}
    (h : ∀ x ∈ xs, R x (f x)) : List.Forall₂ R xs (xs.map f) := by
  induction xs with
  | nil => exact .nil
  | cons x xs ih =>
    exact .cons (h x List.mem_cons_self) (ih fun y hy => h y (List.mem_cons_of_mem _ hy))

/-- Lists with equal images correspond member by member. -/
theorem forall₂_of_map_eq {γ : Type} {P : α → Prop} {f : α → γ} {g : β → γ} {xs : List α}
    {ys : List β} (hP : ∀ x ∈ xs, P x) (h : xs.map f = ys.map g) :
    List.Forall₂ (fun x y => P x ∧ f x = g y) xs ys := by
  induction xs generalizing ys with
  | nil =>
    cases ys with
    | nil => exact .nil
    | cons y ys => cases h
  | cons x xs ih =>
    cases ys with
    | nil => cases h
    | cons y ys =>
      obtain ⟨hhead, htail⟩ := List.cons.inj h
      exact .cons ⟨hP x List.mem_cons_self, hhead⟩
        (ih (fun x' hx' => hP x' (List.mem_cons_of_mem _ hx')) htail)

/-- A sequence of two steps succeeds exactly when both do, one after the other. -/
theorem run_bind_eq_ok {r : StateT Cursor (Except ε) α} {next : α → StateT Cursor (Except ε) β}
    {c c' : Cursor} {w : β} :
    (r >>= next) c = .ok (w, c') ↔ ∃ v d, r c = .ok (v, d) ∧ next v d = .ok (w, c') := by
  have hrun : (r >>= next) c = (r c >>= fun p => next p.1 p.2) := rfl
  rw [hrun, bind_eq_ok]
  constructor
  · rintro ⟨⟨v, d⟩, hr, hn⟩
    exact ⟨v, d, hr, hn⟩
  · rintro ⟨v, d, hr, hn⟩
    exact ⟨(v, d), hr, hn⟩

theorem run_pure_eq_ok {c c' : Cursor} {v w : α} :
    (pure v : StateT Cursor (Except ε) α) c = .ok (w, c') ↔ v = w ∧ c = c' := by
  have hrun : (pure v : StateT Cursor (Except ε) α) c = .ok (v, c) := rfl
  rw [hrun]
  constructor
  · intro h
    exact Prod.mk.inj (Except.ok.inj h)
  · rintro ⟨rfl, rfl⟩
    rfl

/-! ## Reading a spelling -/

/-- In front of any rest, `r` consumes exactly `front` and gives `v`. -/
def Reads (r : StateT Cursor (Except ε) α) (front : Bytes) (v : α) : Prop :=
  ∀ pos rest, r ⟨pos, front ++ rest⟩ = .ok (v, ⟨pos + front.length, rest⟩)

/-- A reader that reads nothing leaves the rest. -/
theorem Reads.pure (v : α) : Reads (pure v : StateT Cursor (Except ε) α) [] v :=
  fun _ _ => rfl

/-- Two readers one after the other read two spellings one behind the other. -/
theorem Reads.bind {r : StateT Cursor (Except ε) α} {next : α → StateT Cursor (Except ε) β}
    {front back : Bytes} {v : α} {w : β} (hr : Reads r front v) (hn : Reads (next v) back w) :
    Reads (r >>= next) (front ++ back) w := by
  intro pos rest
  rw [run_bind_eq_ok]
  refine ⟨v, ⟨pos + front.length, back ++ rest⟩, ?_, ?_⟩
  · rw [List.append_assoc]
    exact hr pos (back ++ rest)
  · rw [List.length_append, ← Nat.add_assoc]
    exact hn (pos + front.length) rest

/-- A step at the end that consumes nothing. -/
theorem Reads.bind_pure {r : StateT Cursor (Except ε) α} {front : Bytes} {v : α} (f : α → β)
    (hr : Reads r front v) : Reads (r >>= fun x => Pure.pure (f x)) front (f v) := by
  have h : Reads (r >>= fun x => Pure.pure (f x)) (front ++ []) (f v) :=
    hr.bind (Reads.pure (f v))
  rw [List.append_nil] at h
  exact h

/-! ## Moving over bytes -/

/-- From `c` to `c'` exactly the bytes `front` are passed over. -/
structure Cursor.Passes (c : Cursor) (front : Bytes) (c' : Cursor) : Prop where
  rest_eq : c.rest = front ++ c'.rest
  pos_eq : c'.pos = c.pos + front.length

theorem Cursor.Passes.nil (c : Cursor) : c.Passes [] c := ⟨rfl, rfl⟩

/-- Passing over bytes, and then over more. -/
theorem Cursor.Passes.trans {a b c : Cursor} {front back : Bytes} (h : a.Passes front b)
    (h' : b.Passes back c) : a.Passes (front ++ back) c := by
  constructor
  · rw [h.rest_eq, h'.rest_eq, List.append_assoc]
  · rw [h'.pos_eq, h.pos_eq, List.length_append, Nat.add_assoc]

/-! ## Formats -/

/-- What `r` consumes spells the value that it gives. -/
def Sound (r : StateT Cursor (Except ε) α) (P : Bytes → α → Prop) : Prop :=
  ∀ {c c' : Cursor} {v : α}, r c = .ok (v, c') → ∃ front, c.Passes front c' ∧ P front v

/-- `r` consumes exactly a spelling, whatever follows it. -/
def Complete (r : StateT Cursor (Except ε) α) (P : Bytes → α → Prop) : Prop :=
  ∀ {front : Bytes} {v : α}, P front v → Reads r front v

/-- Spellings one after the other. -/
inductive Rows (P : Bytes → α → Prop) : Bytes → List α → Prop
  | nil : Rows P [] []
  | cons {front back : Bytes} {v : α} {vs : List α} (head : P front v) (tail : Rows P back vs) :
    Rows P (front ++ back) (v :: vs)

/-- Reading `n` values gives `n` values, spelled one behind the other. -/
theorem times_sound {r : Reader α} {P : Bytes → α → Prop} (hr : Sound r P) (n : Nat) :
    Sound (Reader.times n r) fun front vs => vs.length = n ∧ Rows P front vs := by
  induction n with
  | zero =>
    intro c c' vs h
    obtain ⟨rfl, rfl⟩ := run_pure_eq_ok.mp h
    exact ⟨[], .nil c, rfl, .nil⟩
  | succ n ih =>
    intro c c' vs h
    obtain ⟨v, d, hv, h⟩ := run_bind_eq_ok.mp h
    obtain ⟨ws, d', hws, h⟩ := run_bind_eq_ok.mp h
    obtain ⟨rfl, rfl⟩ := run_pure_eq_ok.mp h
    obtain ⟨front, hpass, hP⟩ := hr hv
    obtain ⟨back, hpass', hlen, hrows⟩ := ih hws
    exact ⟨front ++ back, hpass.trans hpass', by rw [List.length_cons, hlen], .cons hP hrows⟩

/-- Rows spell the same values in another format that the rows themselves meet. No row is longer
than all of them are. -/
theorem Rows.imp {P Q : Bytes → α → Prop} {bytes : Bytes} {vs : List α} (h : Rows P bytes vs)
    (hPQ : ∀ front v, v ∈ vs → front.length ≤ bytes.length → P front v → Q front v) :
    Rows Q bytes vs := by
  induction h with
  | nil => exact .nil
  | @cons front back v vs head _ ih =>
    rw [List.length_append] at hPQ
    refine .cons (hPQ front v List.mem_cons_self (by omega) head) (ih fun front' w hw hle hP => ?_)
    exact hPQ front' w (List.mem_cons_of_mem _ hw) (by omega) hP

/-- Values that can be read one by one can be read in a row. -/
theorem times_complete {r : Reader α} {P : Bytes → α → Prop} (hr : Complete r P)
    {front : Bytes} {vs : List α} (h : Rows P front vs) :
    Reads (Reader.times vs.length r) front vs := by
  induction h with
  | nil => exact Reads.pure []
  | cons head _ ih => exact (hr head).bind (ih.bind_pure _)

/-! ## Words and byte strings -/

/-- A byte read is the byte passed over. -/
theorem u1_sound : Sound Reader.u1 fun front v => front = [v] := by
  intro c c' v h
  obtain ⟨pos, rest⟩ := c
  cases rest with
  | nil => cases h
  | cons a rest =>
    obtain ⟨rfl, rfl⟩ := Prod.mk.inj (Except.ok.inj h)
    exact ⟨[a], ⟨rfl, rfl⟩, rfl⟩

theorem u1_reads (v : UInt8) : Reads Reader.u1 [v] v := fun _ _ => rfl

theorem u2_sound : Sound Reader.u2 fun front v => front = Bytes.ofU2 v := by
  intro c c' v h
  obtain ⟨pos, rest⟩ := c
  match rest, h with
  | [], h => cases h
  | [_], h => cases h
  | a :: b :: rest, h =>
    cases h
    exact ⟨[a, b], ⟨rfl, rfl⟩, (Bytes.ofU2_toU2 a b).symm⟩

theorem u2_reads (v : UInt16) : Reads Reader.u2 (Bytes.ofU2 v) v := by
  intro pos rest
  show Except.ok (Bytes.toU2 _ _, _) = _
  rw [Bytes.toU2_ofNat]
  rfl

theorem u4_sound : Sound Reader.u4 fun front v => front = Bytes.ofU4 v := by
  intro c c' v h
  obtain ⟨pos, rest⟩ := c
  match rest, h with
  | [], h => cases h
  | [_], h => cases h
  | [_, _], h => cases h
  | [_, _, _], h => cases h
  | a :: b :: d :: e :: rest, h =>
    cases h
    exact ⟨[a, b, d, e], ⟨rfl, rfl⟩, (Bytes.ofU4_toU4 a b d e).symm⟩

theorem u4_reads (v : UInt32) : Reads Reader.u4 (Bytes.ofU4 v) v := by
  intro pos rest
  show Except.ok (Bytes.toU4 _ _ _ _, _) = _
  rw [Bytes.toU4_ofNat]
  rfl

theorem u8_sound : Sound Reader.u8 fun front v => front = Bytes.ofU8 v := by
  intro c c' v h
  obtain ⟨upper, d, hu, h⟩ := run_bind_eq_ok.mp h
  obtain ⟨lower, d', hl, h⟩ := run_bind_eq_ok.mp h
  obtain ⟨rfl, rfl⟩ := run_pure_eq_ok.mp h
  obtain ⟨front, hpass, rfl⟩ := u4_sound hu
  obtain ⟨back, hpass', rfl⟩ := u4_sound hl
  exact ⟨_, hpass.trans hpass', (Bytes.ofU8_toU8 upper lower).symm⟩

theorem u8_reads (v : UInt64) : Reads Reader.u8 (Bytes.ofU8 v) v := by
  have h : Reads Reader.u8 (Bytes.ofU8 v)
      (Bytes.toU8 (UInt32.ofNat (v.toNat / 4294967296)) (UInt32.ofNat v.toNat)) :=
    (u4_reads _).bind ((u4_reads _).bind_pure _)
  rw [Bytes.toU8_ofNat] at h
  exact h

/-- A byte string of a known length spells itself. -/
theorem bytesOr_sound (n : Nat) (cause : Nat → Cause) :
    Sound (Reader.bytesOr n cause) fun front v => front = v ∧ v.length = n := by
  intro c c' v h
  simp only [Reader.bytesOr, Cursor.take?] at h
  cases hsplit : Bytes.split? n c.rest with
  | none =>
    rw [hsplit] at h
    cases h
  | some p =>
    obtain ⟨front, rest⟩ := p
    rw [hsplit] at h
    obtain ⟨rfl, rfl⟩ := Prod.mk.inj (Except.ok.inj h)
    obtain ⟨hrest, hlen⟩ := Bytes.split?_eq_some_iff.mp hsplit
    exact ⟨front, ⟨hrest, by rw [hlen]⟩, rfl, hlen⟩

theorem bytesOr_reads (cause : Nat → Cause) (v : Bytes) :
    Reads (Reader.bytesOr v.length cause) v v := by
  intro pos rest
  have hsplit : Bytes.split? v.length (v ++ rest) = some (v, rest) :=
    Bytes.split?_eq_some_iff.mpr ⟨rfl, rfl⟩
  simp only [Reader.bytesOr, Cursor.take?]
  rw [hsplit]
  rfl

/-- A count that fits into a word is what the word says. -/
theorem toNat_u2_of_le {n : Nat} (h : n ≤ 0xFFFF) : (UInt16.ofNat n).toNat = n := by
  rw [UInt16.toNat_ofNat', Nat.mod_eq_of_lt (by omega)]

/-- A two-byte count, and that many rows. -/
theorem counted_sound {r : Reader α} {P : Bytes → α → Prop} (hr : Sound r P) {c d c' : Cursor}
    {count : UInt16} {vs : List α} (hcount : Reader.u2 c = .ok (count, d))
    (hvs : Reader.times count.toNat r d = .ok (vs, c')) :
    ∃ rows, c.Passes (Bytes.ofU2 (UInt16.ofNat vs.length) ++ rows) c' ∧ vs.length ≤ 0xFFFF ∧
      Rows P rows vs := by
  obtain ⟨front, hpass, rfl⟩ := u2_sound hcount
  obtain ⟨rows, hpass', hlen, hrows⟩ := times_sound hr count.toNat hvs
  have hlt := count.toNat_lt
  rw [hlen, UInt16.ofNat_toNat]
  exact ⟨rows, hpass.trans hpass', by omega, hrows⟩

/-- A two-byte count and that many rows, and a step at the end that consumes nothing. -/
theorem counted_reads {r : Reader α} {P : Bytes → α → Prop} (hr : Complete r P) {rows : Bytes}
    {vs : List α} (f : List α → β) (hlen : vs.length ≤ 0xFFFF) (hrows : Rows P rows vs) :
    Reads (Reader.u2 >>= fun count => Reader.times count.toNat r >>= fun vs => pure (f vs))
      (Bytes.ofU2 (UInt16.ofNat vs.length) ++ rows) (f vs) := by
  have hread := (times_complete hr hrows).bind_pure f
  rw [← toNat_u2_of_le hlen] at hread
  exact (u2_reads _).bind hread

/-! ## Codecs -/

namespace Codec

/-- The format that a writer defines. -/
def Spells (a : Codec α) (front : Bytes) (v : α) : Prop := a.write v = .ok front

/-- What is read can be written, as the bytes that were read. -/
def Sound (a : Codec α) : Prop := ClassPrune.Sound a.read a.Spells

/-- What is written can be read, whatever follows. -/
def Complete (a : Codec α) : Prop := ClassPrune.Complete a.read a.Spells

/-- A codec that loses nothing in either direction. -/
structure Lawful (a : Codec α) : Prop where
  sound : a.Sound
  complete : a.Complete

/-- The codecs of single words are exact in both directions. -/
theorem u1_lawful : u1.Lawful where
  sound := by
    intro c c' v h
    obtain ⟨front, hpass, rfl⟩ := u1_sound h
    exact ⟨[v], hpass, rfl⟩
  complete := by
    intro front v h
    cases h
    exact u1_reads v

theorem u2_lawful : u2.Lawful where
  sound := by
    intro c c' v h
    obtain ⟨front, hpass, rfl⟩ := u2_sound h
    exact ⟨Bytes.ofU2 v, hpass, rfl⟩
  complete := by
    intro front v h
    cases h
    exact u2_reads v

/-- A pair is spelled by its parts, one behind the other. -/
theorem pair_spells {a : Codec α} {b : Codec β} {bytes : Bytes} {v : α × β} :
    (a.pair b).Spells bytes v ↔
      ∃ front back, a.Spells front v.1 ∧ b.Spells back v.2 ∧ bytes = front ++ back := by
  constructor
  · intro h
    obtain ⟨front, hfront, h⟩ := bind_eq_ok.mp h
    obtain ⟨back, hback, h⟩ := bind_eq_ok.mp h
    cases h
    exact ⟨front, back, hfront, hback, rfl⟩
  · rintro ⟨front, back, hfront, hback, rfl⟩
    exact bind_eq_ok.mpr ⟨front, hfront, bind_eq_ok.mpr ⟨back, hback, rfl⟩⟩

/-- Soundness of a pair, from its parts. -/
theorem pair_sound {a : Codec α} {b : Codec β} (ha : a.Sound) (hb : b.Sound) :
    (a.pair b).Sound := by
  intro c c' v h
  obtain ⟨x, d, hx, h⟩ := run_bind_eq_ok.mp h
  obtain ⟨y, d', hy, h⟩ := run_bind_eq_ok.mp h
  obtain ⟨rfl, rfl⟩ := run_pure_eq_ok.mp h
  obtain ⟨front, hpass, hfront⟩ := ha hx
  obtain ⟨back, hpass', hback⟩ := hb hy
  exact ⟨front ++ back, hpass.trans hpass', pair_spells.mpr ⟨front, back, hfront, hback, rfl⟩⟩

/-- Both laws of a pair, from its parts. -/
theorem pair_lawful {a : Codec α} {b : Codec β} (ha : a.Lawful) (hb : b.Lawful) :
    (a.pair b).Lawful where
  sound := pair_sound ha.sound hb.sound
  complete := by
    intro bytes v h
    obtain ⟨front, back, hfront, hback, rfl⟩ := pair_spells.mp h
    exact (ha.complete hfront).bind ((hb.complete hback).bind_pure _)

/-- Another way to group the same fields does not change what is written, provided that it can be
undone. -/
theorem iso_sound {a : Codec α} {f : α → β} {g : β → α} (ha : a.Sound)
    (hgf : ∀ x, g (f x) = x) : (a.iso f g).Sound := by
  intro c c' v h
  obtain ⟨x, d, hx, h⟩ := run_bind_eq_ok.mp h
  obtain ⟨rfl, rfl⟩ := run_pure_eq_ok.mp h
  obtain ⟨front, hpass, hfront⟩ := ha hx
  refine ⟨front, hpass, ?_⟩
  show a.write (g (f x)) = .ok front
  rw [hgf]
  exact hfront

/-- Both laws survive a regrouping of the fields that is one-to-one. -/
theorem iso_lawful {a : Codec α} {f : α → β} {g : β → α} (ha : a.Lawful)
    (hgf : ∀ x, g (f x) = x) (hfg : ∀ y, f (g y) = y) : (a.iso f g).Lawful where
  sound := iso_sound ha.sound hgf
  complete := by
    intro front v h
    have hread := (ha.complete (v := g v) h).bind_pure f
    rw [hfg] at hread
    exact hread

/-- Rows are written one after the other. -/
theorem writeRows_eq_ok {row : Codec α} {vs : List α} {bytes : Bytes} :
    writeRows row vs = .ok bytes ↔ Rows row.Spells bytes vs := by
  induction vs generalizing bytes with
  | nil =>
    constructor
    · intro h
      cases h
      exact .nil
    · intro h
      cases h
      rfl
  | cons v vs ih =>
    constructor
    · intro h
      obtain ⟨front, hfront, h⟩ := bind_eq_ok.mp h
      obtain ⟨back, hback, h⟩ := bind_eq_ok.mp h
      cases h
      exact .cons hfront (ih.mp hback)
    · intro h
      cases h with
      | cons head tail =>
        exact bind_eq_ok.mpr ⟨_, head, bind_eq_ok.mpr ⟨_, ih.mpr tail, rfl⟩⟩

/-- A table with a count of one byte is written when it has no more rows than the byte can say. -/
theorem withCount1_eq_ok {count : Nat} {rows : Except WriteError Bytes} {bytes : Bytes} :
    withCount1 count rows = .ok bytes ↔
      count ≤ 0xFF ∧ ∃ body, rows = .ok body ∧ bytes = UInt8.ofNat count :: body := by
  rw [withCount1, ite_error_eq_ok, map_eq_ok, Nat.not_lt]
  refine and_congr_right fun _ => ?_
  constructor
  · rintro ⟨body, hbody, rfl⟩
    exact ⟨body, hbody, rfl⟩
  · rintro ⟨body, hbody, rfl⟩
    exact ⟨body, hbody, rfl⟩

/-- The same for a count of two bytes. -/
theorem withCount2_eq_ok {count : Nat} {rows : Except WriteError Bytes} {bytes : Bytes} :
    withCount2 count rows = .ok bytes ↔
      count ≤ 0xFFFF ∧ ∃ body, rows = .ok body ∧
        bytes = Bytes.ofU2 (UInt16.ofNat count) ++ body := by
  rw [withCount2, ite_error_eq_ok, map_eq_ok, Nat.not_lt]
  refine and_congr_right fun _ => ?_
  constructor
  · rintro ⟨body, hbody, rfl⟩
    exact ⟨body, hbody, rfl⟩
  · rintro ⟨body, hbody, rfl⟩
    exact ⟨body, hbody, rfl⟩

theorem table1_sound {row : Codec α} (hrow : row.Sound) : row.table1.Sound := by
  intro c c' vs h
  obtain ⟨count, d, hcount, h⟩ := run_bind_eq_ok.mp h
  obtain ⟨front, hpass, rfl⟩ := u1_sound hcount
  obtain ⟨back, hpass', hlen, hrows⟩ := times_sound hrow count.toNat h
  refine ⟨[count] ++ back, hpass.trans hpass', withCount1_eq_ok.mpr ⟨?_, back, ?_, ?_⟩⟩
  · have hlt := count.toNat_lt
    omega
  · exact writeRows_eq_ok.mpr hrows
  · rw [hlen, UInt8.ofNat_toNat]
    rfl

/-- A table is sound when its rows are. No writer has to be told how many rows there are, for the
count was read. -/
theorem table2_sound {row : Codec α} (hrow : row.Sound) : row.table2.Sound := by
  intro c c' vs h
  obtain ⟨count, d, hcount, h⟩ := run_bind_eq_ok.mp h
  obtain ⟨rows, hpass, hlen, hrows⟩ := counted_sound hrow hcount h
  exact ⟨_, hpass, withCount2_eq_ok.mpr ⟨hlen, rows, writeRows_eq_ok.mpr hrows, rfl⟩⟩

/-! ### Within a number of bytes -/

/-- What is written of a value that meets `ok` can be read, whatever follows, as long as it takes
no more than `n` bytes. A reader that is told how many bytes are left is complete only so. -/
def CompleteWithin (a : Codec α) (n : Nat) (ok : α → Prop) : Prop :=
  ClassPrune.Complete a.read fun front v => a.Spells front v ∧ ok v ∧ front.length ≤ n

/-- What is always read again is read again within any number of bytes. -/
theorem Complete.within {a : Codec α} (ha : a.Complete) (n : Nat) :
    a.CompleteWithin n fun _ => True :=
  fun h => ha h.1

theorem CompleteWithin.complete {a : Codec α} (ha : ∀ n, a.CompleteWithin n fun _ => True) :
    a.Complete :=
  fun h => ha _ ⟨h, trivial, Nat.le_refl _⟩

/-- The parts of a pair share the number of bytes that are left. -/
theorem pair_within {a : Codec α} {b : Codec β} {n : Nat} {okA : α → Prop} {okB : β → Prop}
    (ha : a.CompleteWithin n okA) (hb : b.CompleteWithin n okB) :
    (a.pair b).CompleteWithin n fun v => okA v.1 ∧ okB v.2 := by
  rintro bytes v ⟨h, ⟨hokA, hokB⟩, hle⟩
  obtain ⟨front, back, hfront, hback, rfl⟩ := pair_spells.mp h
  rw [List.length_append] at hle
  have hreadA := ha ⟨hfront, hokA, by omega⟩
  have hreadB := hb ⟨hback, hokB, by omega⟩
  exact hreadA.bind (hreadB.bind_pure _)

theorem iso_within {a : Codec α} {f : α → β} {g : β → α} {n : Nat} {ok : α → Prop}
    (ha : a.CompleteWithin n ok) (hfg : ∀ y, f (g y) = y) :
    (a.iso f g).CompleteWithin n fun y => ok (g y) := by
  rintro front v ⟨h, hok, hle⟩
  have hread := (ha (v := g v) ⟨h, hok, hle⟩).bind_pure f
  rw [hfg] at hread
  exact hread

/-- The rows of a table are no longer than the table. -/
theorem times_within {row : Codec α} {n : Nat} {ok : α → Prop} (hrow : row.CompleteWithin n ok)
    {body : Bytes} {vs : List α} (hbody : writeRows row vs = .ok body) (hok : ∀ v ∈ vs, ok v)
    (hle : body.length ≤ n) : Reads (Reader.times vs.length row.read) body vs :=
  times_complete hrow ((writeRows_eq_ok.mp hbody).imp fun _ v hv hfront hspells =>
    ⟨hspells, hok v hv, Nat.le_trans hfront hle⟩)

/-- A table is read again when each of its rows is. -/
theorem table1_within {row : Codec α} {n : Nat} {ok : α → Prop} (hrow : row.CompleteWithin n ok) :
    row.table1.CompleteWithin n fun vs => ∀ v ∈ vs, ok v := by
  rintro bytes vs ⟨h, hok, hle⟩
  obtain ⟨hlen, body, hbody, rfl⟩ := withCount1_eq_ok.mp h
  have hcount : (UInt8.ofNat vs.length).toNat = vs.length := by
    rw [UInt8.toNat_ofNat', Nat.mod_eq_of_lt (by omega)]
  rw [List.length_cons] at hle
  have hread := times_within hrow hbody hok (by omega)
  rw [← hcount] at hread
  exact (u1_reads _).bind hread

theorem table2_within {row : Codec α} {n : Nat} {ok : α → Prop} (hrow : row.CompleteWithin n ok) :
    row.table2.CompleteWithin n fun vs => ∀ v ∈ vs, ok v := by
  rintro bytes vs ⟨h, hok, hle⟩
  obtain ⟨hlen, body, hbody, rfl⟩ := withCount2_eq_ok.mp h
  rw [List.length_append] at hle
  have hread := times_within hrow hbody hok (by omega)
  rw [← toNat_u2_of_le hlen] at hread
  exact (u2_reads _).bind hread

theorem table2_lawful {row : Codec α} (hrow : row.Lawful) : row.table2.Lawful where
  sound := table2_sound hrow.sound
  complete := CompleteWithin.complete fun n _ _ h =>
    table2_within (Complete.within hrow.complete n) ⟨h.1, fun _ _ => trivial, h.2.2⟩

/-- A value that takes no bytes. -/
theorem nothing_sound (value : α) : (nothing value).Sound := by
  intro c c' v h
  obtain ⟨rfl, rfl⟩ := run_pure_eq_ok.mp h
  exact ⟨[], .nil c, rfl⟩

/-- What is left is passed over as a whole. -/
theorem rest_sound : rest.Sound := by
  intro c c' v h
  obtain ⟨rfl, rfl⟩ := Prod.mk.inj (Except.ok.inj h)
  exact ⟨c.rest, ⟨(List.append_nil _).symm, rfl⟩, rfl⟩

/-- The number of bytes left may guide the reader, but not the writer. -/
theorem measured_sound {layout : Nat → Codec α} (h : ∀ left, (layout left).Sound)
    (hwrite : ∀ left, (layout left).write = (layout 0).write) : (measured layout).Sound := by
  intro c c' v hread
  obtain ⟨front, hpass, hspells⟩ := h c.rest.length hread
  refine ⟨front, hpass, ?_⟩
  show (layout 0).write v = .ok front
  rw [← hwrite c.rest.length]
  exact hspells

/-- A layout that is told how many bytes are left is told enough of them. -/
theorem measured_within {layout : Nat → Codec α} {ok : α → Prop}
    (h : ∀ left, (layout left).CompleteWithin left ok)
    (hwrite : ∀ left, (layout left).write = (layout 0).write) (n : Nat) :
    (measured layout).CompleteWithin n ok := by
  rintro front v ⟨hspells, hok, -⟩ pos rest
  refine h (front ++ rest).length ⟨?_, hok, ?_⟩ pos rest
  · show (layout (front ++ rest).length).write v = .ok front
    rw [hwrite]
    exact hspells
  · rw [List.length_append]
    omega

/-- What a codec writes does not depend on its reader. So two codecs that write alike may be
exchanged, at each place where a format is used only for writing. -/
theorem write_pair_congr {a a' : Codec α} {b b' : Codec β} (ha : a.write = a'.write)
    (hb : b.write = b'.write) : (a.pair b).write = (a'.pair b').write := by
  funext v
  show (do
    let front ← a.write v.1
    let back ← b.write v.2
    return front ++ back) = _
  rw [ha, hb]
  rfl

theorem write_iso_congr {a a' : Codec α} (f : α → β) (g : β → α) (h : a.write = a'.write) :
    (a.iso f g).write = (a'.iso f g).write := by
  funext v
  exact congrFun h (g v)

/-- Tables are written by the writer of their rows alone. -/
theorem writeRows_congr {row row' : Codec α} (h : row.write = row'.write) :
    writeRows row = writeRows row' := by
  funext vs
  induction vs with
  | nil => rfl
  | cons v vs ih => rw [writeRows, writeRows, h, ih]

theorem write_table1_congr {row row' : Codec α} (h : row.write = row'.write) :
    row.table1.write = row'.table1.write := by
  funext vs
  show withCount1 _ (writeRows row vs) = withCount1 _ (writeRows row' vs)
  rw [writeRows_congr h]

theorem write_table2_congr {row row' : Codec α} (h : row.write = row'.write) :
    row.table2.write = row'.table2.write := by
  funext vs
  show withCount2 _ (writeRows row vs) = withCount2 _ (writeRows row' vs)
  rw [writeRows_congr h]

theorem words_lawful : words.Lawful := table2_lawful u2_lawful

/-- A list of words can be written when it can be counted. -/
theorem words_eq_ok {vs : List UInt16} (h : vs.length ≤ 0xFFFF) :
    ∃ bytes, words.write vs = .ok bytes := by
  have hrows : writeRows u2 vs = .ok (vs.flatMap Bytes.ofU2) := by
    clear h
    induction vs with
    | nil => rfl
    | cons v vs ih => exact bind_eq_ok.mpr ⟨_, rfl, bind_eq_ok.mpr ⟨_, ih, rfl⟩⟩
  exact ⟨_, withCount2_eq_ok.mpr ⟨h, _, hrows, rfl⟩⟩

end Codec

end ClassPrune
