import ClassPrune.Pool.Entry
import ClassPrune.Proofs.Codec

/-!
# Constants: links and layout

- `Entry.links`: the references of a constant, each with what it may name. What `Entry.mapRefs`
  does is stated once in terms of links, so that no later proof looks at the kinds of constant.
- `Entry.Storable`: the value of a constant has a place in the format.
- `Entry.read_sound`, `Entry.read_reads`: the reader of constants accepts exactly the encodings of
  storable constants.

Constants are of one type whatever their references are: indices in a file, and names of cells in
memory. Reading a pool, writing it and comparing two pools each replace one by the other, and they
share the lemmas on `mapRefs` that are proved here over any two types of reference.
-/

namespace ClassPrune

theorem Tag.toByte_of_ofByte? {b : UInt8} {t : Tag} (h : Tag.ofByte? b = some t) :
    t.toByte = b := by
  have hfound := List.find?_some h
  exact of_decide_eq_true hfound

namespace Entry

variable {ρ σ τ ε : Type}

/-! ## Links -/

/-- The references in the order of the file, each with what it may name. -/
def links : Entry ρ → List (Target × ρ)
  | .named _ text => [(.text, text)]
  | .member _ owner nameType => [(.classRef, owner), (.nameAndType, nameType)]
  | .nameAndType name descriptor => [(.text, name), (.text, descriptor)]
  | .methodHandle _ reference => [(.member, reference)]
  | .computed _ _ nameType => [(.nameAndType, nameType)]
  | _ => []

/-- The links of a constant are its references, in their order. -/
theorem map_snd_links (e : Entry ρ) : e.links.map Prod.snd = e.references := by
  cases e <;> rfl

/-- The value of a constant has a place in the format: a text is short enough for its length, and
a method handle is of one of the nine kinds. -/
def Storable : Entry ρ → Prop
  | .utf8 raw => raw.length ≤ 0xFFFF
  | .methodHandle kind _ => 1 ≤ kind.toNat ∧ kind.toNat ≤ 9
  | _ => True

/-! ## Replacing references -/

/-- Two references are replaced one after the other. -/
theorem bind_pair_eq_ok {x : Except ε ρ} {y : Except ε σ} {make : ρ → σ → τ} {v : τ} :
    (do let a ← x; let b ← y; return make a b) = .ok v ↔
      ∃ a b, x = .ok a ∧ y = .ok b ∧ make a b = v := by
  constructor
  · intro h
    obtain ⟨a, ha, h⟩ := bind_eq_ok.mp h
    obtain ⟨b, hb, h⟩ := bind_eq_ok.mp h
    exact ⟨a, b, ha, hb, Except.ok.inj h⟩
  · rintro ⟨a, b, ha, hb, rfl⟩
    exact bind_eq_ok.mpr ⟨a, ha, bind_eq_ok.mpr ⟨b, hb, rfl⟩⟩

theorem bind_one_eq_ok {x : Except ε ρ} {make : ρ → τ} {v : τ} :
    (do let a ← x; return make a) = .ok v ↔ ∃ a, x = .ok a ∧ make a = v := by
  constructor
  · intro h
    obtain ⟨a, ha, h⟩ := bind_eq_ok.mp h
    exact ⟨a, ha, Except.ok.inj h⟩
  · rintro ⟨a, ha, rfl⟩
    exact bind_eq_ok.mpr ⟨a, ha, rfl⟩

/-- Replacing references keeps the kind and the value, and replaces link by link. -/
structure Relinked (f : Target → ρ → Except ε σ) (e : Entry ρ) (e' : Entry σ) : Prop where
  tag_eq : e'.tag = e.tag
  storable_iff : e'.Storable ↔ e.Storable
  links : List.Forall₂ (fun a b => a.1 = b.1 ∧ f a.1 a.2 = .ok b.2) e.links e'.links

/-- Replacing references keeps the form and the values of a constant, and each link keeps its
target. -/
theorem mapRefs_relinked {f : Target → ρ → Except ε σ} {e : Entry ρ} {e' : Entry σ}
    (h : e.mapRefs f = .ok e') : Relinked f e e' := by
  cases e with
  | utf8 _ | integer _ | float _ | long _ | double _ =>
    cases h
    exact ⟨rfl, Iff.rfl, .nil⟩
  | named _ _ | methodHandle _ _ | computed _ _ _ =>
    obtain ⟨a, ha, rfl⟩ := bind_one_eq_ok.mp h
    exact ⟨rfl, Iff.rfl, .cons ⟨rfl, ha⟩ .nil⟩
  | member _ _ _ | nameAndType _ _ =>
    obtain ⟨a, b, ha, hb, rfl⟩ := bind_pair_eq_ok.mp h
    exact ⟨rfl, Iff.rfl, .cons ⟨rfl, ha⟩ (.cons ⟨rfl, hb⟩ .nil)⟩

/-- A link that is there afterwards comes from one that was there before, -/
theorem Relinked.exists_old {f : Target → ρ → Except ε σ} {e : Entry ρ} {e' : Entry σ}
    (h : Relinked f e e') {t : Target} {r' : σ} (hmem : (t, r') ∈ e'.links) :
    ∃ r, (t, r) ∈ e.links ∧ f t r = .ok r' := by
  obtain ⟨⟨t', r⟩, hr, rfl, hf⟩ := exists_of_forall₂_right h.links hmem
  exact ⟨r, hr, hf⟩

/-- and every link from before is still there. -/
theorem Relinked.exists_new {f : Target → ρ → Except ε σ} {e : Entry ρ} {e' : Entry σ}
    (h : Relinked f e e') {t : Target} {r : ρ} (hmem : (t, r) ∈ e.links) :
    ∃ r', (t, r') ∈ e'.links ∧ f t r = .ok r' := by
  obtain ⟨⟨t', r'⟩, hr', rfl, hf⟩ := exists_of_forall₂_left h.links hmem
  exact ⟨r', hr', hf⟩

/-- References can be replaced when each of them can. -/
theorem mapRefs_total {f : Target → ρ → Except ε σ} {e : Entry ρ}
    (h : ∀ t r, (t, r) ∈ e.links → ∃ r', f t r = .ok r') : ∃ e', e.mapRefs f = .ok e' := by
  cases e with
  | utf8 _ | integer _ | float _ | long _ | double _ => exact ⟨_, rfl⟩
  | named _ _ | methodHandle _ _ | computed _ _ _ =>
    obtain ⟨a, ha⟩ := h _ _ (List.mem_singleton.mpr rfl)
    exact ⟨_, bind_one_eq_ok.mpr ⟨a, ha, rfl⟩⟩
  | member _ _ _ | nameAndType _ _ =>
    obtain ⟨a, ha⟩ := h _ _ List.mem_cons_self
    obtain ⟨b, hb⟩ := h _ _ (List.mem_cons_of_mem _ (List.mem_singleton.mpr rfl))
    exact ⟨_, bind_pair_eq_ok.mpr ⟨a, b, ha, hb, rfl⟩⟩

/-- Replacements that undo each other. -/
theorem mapRefs_inverse {f : Target → ρ → Except ε σ} {ε' : Type} {g : Target → σ → Except ε' ρ}
    {e : Entry ρ} {e' : Entry σ} (h : e.mapRefs f = .ok e')
    (hinv : ∀ {t r r'}, (t, r) ∈ e.links → f t r = .ok r' → g t r' = .ok r) :
    e'.mapRefs g = .ok e := by
  cases e with
  | utf8 _ | integer _ | float _ | long _ | double _ =>
    cases h
    rfl
  | named _ _ | methodHandle _ _ | computed _ _ _ =>
    obtain ⟨a, ha, rfl⟩ := bind_one_eq_ok.mp h
    exact bind_one_eq_ok.mpr ⟨_, hinv (List.mem_singleton.mpr rfl) ha, rfl⟩
  | member _ _ _ | nameAndType _ _ =>
    obtain ⟨a, b, ha, hb, rfl⟩ := bind_pair_eq_ok.mp h
    exact bind_pair_eq_ok.mpr ⟨_, _, hinv List.mem_cons_self ha,
      hinv (List.mem_cons_of_mem _ (List.mem_singleton.mpr rfl)) hb, rfl⟩

/-- A replacement that agrees with a successful one on the links of a constant succeeds as well,
with the same result. -/
theorem mapRefs_transfer {f : Target → ρ → Except ε σ} {ε' : Type} {g : Target → ρ → Except ε' σ}
    {e : Entry ρ} {e' : Entry σ} (h : e.mapRefs f = .ok e')
    (hfg : ∀ {t r r'}, (t, r) ∈ e.links → f t r = .ok r' → g t r = .ok r') :
    e.mapRefs g = .ok e' := by
  cases e with
  | utf8 _ | integer _ | float _ | long _ | double _ =>
    cases h
    rfl
  | named _ _ | methodHandle _ _ | computed _ _ _ =>
    obtain ⟨a, ha, rfl⟩ := bind_one_eq_ok.mp h
    exact bind_one_eq_ok.mpr ⟨_, hfg (List.mem_singleton.mpr rfl) ha, rfl⟩
  | member _ _ _ | nameAndType _ _ =>
    obtain ⟨a, b, ha, hb, rfl⟩ := bind_pair_eq_ok.mp h
    exact bind_pair_eq_ok.mpr ⟨_, _, hfg List.mem_cons_self ha,
      hfg (List.mem_cons_of_mem _ (List.mem_singleton.mpr rfl)) hb, rfl⟩

/-- Only what is done to the links of a constant matters. -/
theorem mapRefs_congr {f g : Target → ρ → Except ε σ} {e : Entry ρ}
    (h : ∀ {t r}, (t, r) ∈ e.links → f t r = g t r) : e.mapRefs f = e.mapRefs g := by
  cases e with
  | utf8 _ | integer _ | float _ | long _ | double _ => rfl
  | named _ _ | methodHandle _ _ | computed _ _ _ =>
    simp only [mapRefs, h (List.mem_singleton.mpr rfl)]
  | member _ _ _ | nameAndType _ _ =>
    simp only [mapRefs, h List.mem_cons_self,
      h (List.mem_cons_of_mem _ (List.mem_singleton.mpr rfl))]

/-! ## Layout -/

/-- The rest of a constant of kind `tag`, after its tag. -/
def Follows (tag : Tag) (front : Bytes) (e : Entry PoolIndex) : Prop :=
  e.encode = tag.toByte :: front ∧ e.tag = tag ∧ e.Storable

theorem readNamed_sound (kind : NamedKind) : Sound (readNamed kind) (Follows kind.tag) := by
  intro c c' e h
  obtain ⟨text, d, htext, h⟩ := run_bind_eq_ok.mp h
  obtain ⟨rfl, rfl⟩ := run_pure_eq_ok.mp h
  obtain ⟨front, hpass, rfl⟩ := u2_sound htext
  exact ⟨_, hpass, rfl, rfl, trivial⟩

theorem readMember_sound (kind : MemberKind) : Sound (readMember kind) (Follows kind.tag) := by
  intro c c' e h
  obtain ⟨owner, d, howner, h⟩ := run_bind_eq_ok.mp h
  obtain ⟨nameType, d', hnameType, h⟩ := run_bind_eq_ok.mp h
  obtain ⟨rfl, rfl⟩ := run_pure_eq_ok.mp h
  obtain ⟨front, hpass, rfl⟩ := u2_sound howner
  obtain ⟨back, hpass', rfl⟩ := u2_sound hnameType
  exact ⟨_, hpass.trans hpass', rfl, rfl, trivial⟩

theorem readComputed_sound (kind : ComputedKind) :
    Sound (readComputed kind) (Follows kind.tag) := by
  intro c c' e h
  obtain ⟨bootstrap, d, hbootstrap, h⟩ := run_bind_eq_ok.mp h
  obtain ⟨nameType, d', hnameType, h⟩ := run_bind_eq_ok.mp h
  obtain ⟨rfl, rfl⟩ := run_pure_eq_ok.mp h
  obtain ⟨front, hpass, rfl⟩ := u2_sound hbootstrap
  obtain ⟨back, hpass', rfl⟩ := u2_sound hnameType
  exact ⟨_, hpass.trans hpass', rfl, rfl, trivial⟩

/-- A handle that was read has a kind that there is. -/
theorem readMethodHandle_sound (start : Nat) :
    Sound (readMethodHandle start) (Follows .methodHandle) := by
  intro c c' e h
  obtain ⟨kind, d, hkind, h⟩ := run_bind_eq_ok.mp h
  obtain ⟨reference, d', href, h⟩ := run_bind_eq_ok.mp h
  obtain ⟨front, hpass, rfl⟩ := u1_sound hkind
  obtain ⟨back, hpass', rfl⟩ := u2_sound href
  by_cases hrange : 1 ≤ kind.toNat ∧ kind.toNat ≤ 9
  · rw [if_pos hrange] at h
    obtain ⟨rfl, rfl⟩ := run_pure_eq_ok.mp h
    exact ⟨_, hpass.trans hpass', rfl, rfl, hrange⟩
  · rw [if_neg hrange] at h
    cases h

/-- The contents of a constant follow its tag, with nothing between. -/
theorem readBody_sound (start : Nat) (tag : Tag) : Sound (readBody start tag) (Follows tag) := by
  cases tag with
  | utf8 =>
    intro c c' e h
    obtain ⟨length, d, hlength, h⟩ := run_bind_eq_ok.mp h
    obtain ⟨raw, d', hraw, h⟩ := run_bind_eq_ok.mp h
    obtain ⟨rfl, rfl⟩ := run_pure_eq_ok.mp h
    obtain ⟨front, hpass, rfl⟩ := u2_sound hlength
    obtain ⟨back, hpass', rfl, hlen⟩ := bytesOr_sound _ _ hraw
    refine ⟨_, hpass.trans hpass', ?_, rfl, ?_⟩
    · show _ :: (Bytes.ofU2 (UInt16.ofNat back.length) ++ back) = _
      rw [hlen, UInt16.ofNat_toNat]
      rfl
    · have hlt := length.toNat_lt
      show back.length ≤ 0xFFFF
      omega
  | integer | float =>
    intro c c' e h
    obtain ⟨bits, d, hbits, h⟩ := run_bind_eq_ok.mp h
    obtain ⟨rfl, rfl⟩ := run_pure_eq_ok.mp h
    obtain ⟨front, hpass, rfl⟩ := u4_sound hbits
    exact ⟨_, hpass, rfl, rfl, trivial⟩
  | long | double =>
    intro c c' e h
    obtain ⟨bits, d, hbits, h⟩ := run_bind_eq_ok.mp h
    obtain ⟨rfl, rfl⟩ := run_pure_eq_ok.mp h
    obtain ⟨front, hpass, rfl⟩ := u8_sound hbits
    exact ⟨_, hpass, rfl, rfl, trivial⟩
  | classRef => exact readNamed_sound .classRef
  | string => exact readNamed_sound .string
  | methodType => exact readNamed_sound .methodType
  | moduleRef => exact readNamed_sound .moduleRef
  | packageRef => exact readNamed_sound .packageRef
  | fieldref => exact readMember_sound .field
  | methodref => exact readMember_sound .method
  | interfaceMethodref => exact readMember_sound .interfaceMethod
  | nameAndType =>
    intro c c' e h
    obtain ⟨name, d, hname, h⟩ := run_bind_eq_ok.mp h
    obtain ⟨descriptor, d', hdescriptor, h⟩ := run_bind_eq_ok.mp h
    obtain ⟨rfl, rfl⟩ := run_pure_eq_ok.mp h
    obtain ⟨front, hpass, rfl⟩ := u2_sound hname
    obtain ⟨back, hpass', rfl⟩ := u2_sound hdescriptor
    exact ⟨_, hpass.trans hpass', rfl, rfl, trivial⟩
  | methodHandle => exact readMethodHandle_sound start
  | dynamic => exact readComputed_sound .constant
  | invokeDynamic => exact readComputed_sound .callSite

/-- A constant is read as what its bytes encode. -/
theorem read_sound : Sound read fun front e => front = e.encode ∧ e.Storable := by
  intro c c' e h
  obtain ⟨start, d, hstart, h⟩ := run_bind_eq_ok.mp h
  cases hstart
  obtain ⟨byte, d, hbyte, h⟩ := run_bind_eq_ok.mp h
  obtain ⟨front, hpass, rfl⟩ := u1_sound hbyte
  cases htag : Tag.ofByte? byte with
  | none =>
    rw [htag] at h
    cases h
  | some tag =>
    rw [htag] at h
    obtain ⟨back, hpass', hencode, -, hstorable⟩ := readBody_sound _ tag h
    refine ⟨[byte] ++ back, hpass.trans hpass', ?_, hstorable⟩
    rw [hencode, Tag.toByte_of_ofByte? htag]
    rfl

/-- After its tag, a storable constant is read from the rest of its encoding. -/
theorem readBody_reads (start : Nat) (e : Entry PoolIndex) (h : e.Storable) :
    Reads (readBody start e.tag) e.encode.tail e := by
  cases e with
  | utf8 raw =>
    have hlen : (UInt16.ofNat raw.length).toNat = raw.length := by
      have hle : raw.length ≤ 0xFFFF := h
      rw [UInt16.toNat_ofNat', Nat.mod_eq_of_lt (by omega)]
    have hraw : Reads (Reader.bytes (UInt16.ofNat raw.length).toNat) raw raw := by
      rw [hlen]
      exact bytesOr_reads _ raw
    exact (u2_reads _).bind (hraw.bind_pure _)
  | integer bits => exact (u4_reads bits).bind_pure _
  | float bits => exact (u4_reads bits).bind_pure _
  | long bits => exact (u8_reads bits).bind_pure _
  | double bits => exact (u8_reads bits).bind_pure _
  | named kind text =>
    cases kind <;> exact (u2_reads text).bind_pure _
  | member kind owner nameType =>
    cases kind <;> exact (u2_reads owner).bind ((u2_reads nameType).bind_pure _)
  | nameAndType name descriptor =>
    exact (u2_reads name).bind ((u2_reads descriptor).bind_pure _)
  | methodHandle kind reference =>
    have hrange : 1 ≤ kind.toNat ∧ kind.toNat ≤ 9 := h
    -- the kind is checked after both fields were read
    intro pos rest
    refine run_bind_eq_ok.mpr ⟨kind, _, u1_reads kind pos _, ?_⟩
    refine run_bind_eq_ok.mpr ⟨reference, _, u2_reads reference _ _, ?_⟩
    rw [if_pos hrange]
    rfl
  | computed kind bootstrap nameType =>
    cases kind <;> exact (u2_reads bootstrap).bind ((u2_reads nameType).bind_pure _)

/-- The encoding of a storable constant is read back, whatever follows it. -/
theorem read_reads (e : Entry PoolIndex) (h : e.Storable) : Reads read e.encode e := by
  intro pos rest
  refine run_bind_eq_ok.mpr ⟨pos, _, rfl, ?_⟩
  have hbyte : Reads Reader.u1 [e.tag.toByte] e.tag.toByte := u1_reads _
  have hbody := readBody_reads pos e h
  refine run_bind_eq_ok.mpr ⟨e.tag.toByte, _, hbyte pos (e.encode.tail ++ rest), ?_⟩
  have hlen : pos + e.encode.length = pos + 1 + e.encode.tail.length := by
    rw [Nat.add_assoc, Nat.add_comm 1]
    rfl
  -- behind the tag its body is read
  rw [Tag.ofByte?_toByte, hlen]
  exact hbody (pos + 1) rest

end Entry

end ClassPrune
