import ClassPrune.Attribute.Basic
import ClassPrune.Proofs.Attribute.Leaf

/-!
# Stack maps are cut and read alike

The frames of a stack map have no lengths of their own: they are cut where a walk over them ends,
and the classes that they name are collected by a second walk over the bytes that were cut. Both
walks follow the grammar, so that every reading of the payload by the grammar finds the same
frames, and in them the classes that the attribute is said to refer to.

- `StackMapFrame.IsTable`: a payload by the grammar.
- `StackMapFrame.walk_ofBytes`, `StackMapFrame.objects_eq`: the second walk, over one frame.
- `StackMapFrame.ofPayload_stackMapTable`: the first walk, over the payload.
- `StackMapFrame.cut_by_grammar`: a payload that decodes, against the grammar.
-/

namespace ClassPrune

namespace StackMapFrame

open VerificationType (classes)

/-- A payload by the grammar: how many frames there are, then the frames. What is known of a frame
is the verification types in it. -/
def IsTable (payload : Bytes) (types : List (List VerificationType)) : Prop :=
  types.length ≤ 0xFFFF ∧ ∃ rows, Rows IsFrame rows types ∧
    payload = Bytes.ofU2 (UInt16.ofNat types.length) ++ rows

/-! ## One frame -/

section OneFrame

variable {f : StackMapFrame} {types : List VerificationType}

/-- The second walk starts at the front of the frame and ends where the frame does. -/
theorem walk_ofBytes (h : IsFrame f.data types) :
    walk (.ofBytes f.data) = (types.flatMap classes, .ok ⟨f.data.length, []⟩) := by
  have hwalk := walk_covers h 0 []
  rw [List.append_nil, Nat.zero_add] at hwalk
  exact hwalk

theorem objects_eq (h : IsFrame f.data types) : f.objects = types.flatMap classes := by
  rw [objects, walk_ofBytes h]

end OneFrame

/-! ## Rows of frames -/

/-- Frames that were cut off one after the other are their bytes, and each is one frame of the
grammar. -/
theorem rows_eq {rows : Bytes} {frames : List StackMapFrame} (h : Rows Cut rows frames) :
    rows = frames.flatMap data ∧ (∀ f ∈ frames, Cut f.data f) ∧
      ∃ types, Rows IsFrame rows types ∧ types.length = frames.length := by
  induction h with
  | nil => exact ⟨rfl, fun f hf => (nomatch hf), [], .nil, rfl⟩
  | @cons front back f frames head _ ih =>
    obtain ⟨hrows, hcut, types, htypes, hlen⟩ := ih
    obtain ⟨t, hframe⟩ := head.grammar
    have hdata := head.data_eq
    subst hdata
    refine ⟨?_, ?_, t :: types, .cons hframe htypes, congrArg Nat.succ hlen⟩
    · rw [List.flatMap_cons, ← hrows]
    · exact List.forall_mem_cons.mpr ⟨head, hcut⟩

/-- Rows of the grammar are cut off as they stand. -/
theorem exists_cut {rows : Bytes} {types : List (List VerificationType)}
    (h : Rows IsFrame rows types) :
    ∃ frames, Rows Cut rows frames ∧
      List.Forall₂ (fun f t => IsFrame (data f) t) frames types := by
  induction h with
  | nil => exact ⟨[], .nil, .nil⟩
  | @cons front back t types head _ ih =>
    obtain ⟨frames, hrows, hforms⟩ := ih
    cases head with
    | @mk frameType rest _ hfollows =>
      have hcut : Cut (frameType :: rest) ⟨frameType, frameType :: rest⟩ :=
        ⟨rfl, rfl, t, .mk hfollows⟩
      exact ⟨_ :: frames, .cons hcut hrows, .cons (.mk hfollows) hforms⟩

/-- The second walk collects the classes of the types, frame by frame. -/
theorem flatMap_objects {frames : List StackMapFrame} {types : List (List VerificationType)}
    (h : List.Forall₂ (fun f t => IsFrame (data f) t) frames types) :
    frames.flatMap objects = types.flatten.flatMap classes := by
  induction h with
  | nil => rfl
  | cons hframe _ ih =>
    rw [List.flatMap_cons, List.flatten_cons, List.flatMap_append, objects_eq hframe, ih]

/-! ## Payloads -/

/-- The payload of a stack map is its count and the frames that are cut off it. -/
theorem ofPayload_stackMapTable {payload : Bytes} {frames : List StackMapFrame} :
    Body.ofPayload .stackMapTable payload = .ok (.leaf (.stackMapTable frames)) ↔
      frames.length ≤ 0xFFFF ∧ ∃ rows, Rows Cut rows frames ∧
        payload = Bytes.ofU2 (UInt16.ofNat frames.length) ++ rows := by
  rw [Body.ofPayload_eq_ok]
  constructor
  · rintro ⟨pos, h⟩
    obtain ⟨found, d, hfound, h⟩ := run_bind_eq_ok.mp h
    obtain ⟨hbody, rfl⟩ := run_pure_eq_ok.mp h
    cases hbody
    obtain ⟨count, e, hcount, hfound⟩ := run_bind_eq_ok.mp hfound
    obtain ⟨rows, hpass, hlen, hrows⟩ := counted_sound read_sound hcount hfound
    exact ⟨hlen, rows, hrows, (Body.Passes.eq_info hpass).symm⟩
  · rintro ⟨hlen, rows, hrows, rfl⟩
    have htimes := times_complete read_complete hrows
    rw [← toNat_u2_of_le hlen] at htimes
    have hreads : Reads (Body.read .stackMapTable)
        (Bytes.ofU2 (UInt16.ofNat frames.length) ++ rows) (.leaf (.stackMapTable frames)) :=
      ((u2_reads _).bind htimes).bind_pure _
    have hread := hreads 0 []
    rw [List.append_nil] at hread
    exact ⟨_, hread⟩

/-- Every reading of a payload by the grammar finds the frames that are cut off it. -/
theorem forms_of_isTable {payload : Bytes} {frames : List StackMapFrame}
    {types : List (List VerificationType)}
    (h : Body.ofPayload .stackMapTable payload = .ok (.leaf (.stackMapTable frames)))
    (htable : IsTable payload types) :
    List.Forall₂ (fun f t => IsFrame (data f) t) frames types := by
  obtain ⟨hlen, rows, hrows, rfl⟩ := htable
  obtain ⟨found, hcut, hforms⟩ := exists_cut hrows
  rw [← hforms.length_eq] at hlen h
  rw [ofPayload_stackMapTable.mpr ⟨hlen, rows, hcut, rfl⟩] at h
  cases h
  exact hforms

/-- What decodes under the name of stack maps is a stack map. -/
theorem exists_frames {pool : Pool} {payload : Bytes} {body : Body Attribute}
    (h : decodeBody pool AttributeKind.stackMapTable.name payload = .ok body) :
    ∃ frames, body = .leaf (.stackMapTable frames) ∧
      Body.ofPayload .stackMapTable payload = .ok (.leaf (.stackMapTable frames)) := by
  have hkind : AttributeKind.ofName? AttributeKind.stackMapTable.name = some .stackMapTable := by
    decide
  simp only [decodeBody, hkind] at h
  cases hbody : Body.ofPayload .stackMapTable payload with
  | error fault =>
    rw [hbody] at h
    cases h
  | ok raw =>
    rw [hbody] at h
    cases h
    obtain ⟨pos, hread⟩ := Body.ofPayload_eq_ok.mp hbody
    obtain ⟨frames, d, -, hread⟩ := run_bind_eq_ok.mp hread
    obtain ⟨rfl, -⟩ := run_pure_eq_ok.mp hread
    exact ⟨frames, rfl, rfl⟩

/-- **Stack map frames are cut and read alike.** A payload that decodes is the number of its frames
and their bytes. The type of each frame is its first byte, and a walk over its bytes alone ends
where they do. The payload can be read by the grammar, and however it is read, the frames are those
of the grammar, and the references of the attribute are the classes that the grammar finds, in the
order of the payload. -/
theorem cut_by_grammar {pool : Pool} {payload : Bytes} {body : Body Attribute}
    (h : decodeBody pool AttributeKind.stackMapTable.name payload = .ok body) :
    ∃ frames, body = .leaf (.stackMapTable frames) ∧
      (frames.length ≤ 0xFFFF ∧
        payload = Bytes.ofU2 (UInt16.ofNat frames.length) ++ frames.flatMap data) ∧
      (∀ f ∈ frames, f.data.head? = some f.frameType ∧
        (walk (.ofBytes f.data)).2 = .ok ⟨f.data.length, []⟩) ∧
      (∃ types, IsTable payload types) ∧
      ∀ types, IsTable payload types →
        List.Forall₂ (fun f t => IsFrame (data f) t) frames types ∧
          body.references = types.flatten.flatMap classes := by
  obtain ⟨frames, rfl, hbody⟩ := exists_frames h
  obtain ⟨hlen, rows, hrows, rfl⟩ := ofPayload_stackMapTable.mp hbody
  obtain ⟨rfl, hcut, types, htypes, hcount⟩ := rows_eq hrows
  refine ⟨frames, rfl, ⟨hlen, rfl⟩, fun f hf => ?_, ⟨types, ?_⟩, fun types' htable => ?_⟩
  · obtain ⟨-, hhead, t, hframe⟩ := hcut f hf
    refine ⟨hhead, ?_⟩
    rw [walk_ofBytes hframe]
  · rw [← hcount] at hlen ⊢
    exact ⟨hlen, _, htypes, rfl⟩
  · have hforms := forms_of_isTable hbody htable
    exact ⟨hforms, flatMap_objects hforms⟩

/-- An append frame with an object and an uninitialised one, a frame without a change, and a full
frame whose local variable is an object and whose stack is null and an object. -/
def mixedFrames : Bytes :=
  [0x00, 0x03, 0xFD, 0x00, 0x05, 0x07, 0x00, 0x09, 0x08, 0x00, 0x01, 0x0A,
    0xFF, 0x00, 0x02, 0x00, 0x01, 0x07, 0x00, 0x03, 0x00, 0x02, 0x05, 0x07, 0x00, 0x04]

/-- A payload with three frames of different types, two of which name classes. -/
theorem cut_by_grammar_mixedFrames :
    ∃ frames, decodeBody .empty "StackMapTable" mixedFrames = .ok (.leaf (.stackMapTable frames)) ∧
      mixedFrames = Bytes.ofU2 3 ++ frames.flatMap data ∧
      (∃ types, IsTable mixedFrames types) ∧
      ∀ types, IsTable mixedFrames types → types.flatten.flatMap classes = [9, 3, 4] := by
  have hdecode : decodeBody .empty AttributeKind.stackMapTable.name mixedFrames
      = .ok (.leaf (.stackMapTable [⟨0xFD, [0xFD, 0, 5, 7, 0, 9, 8, 0, 1]⟩, ⟨0x0A, [0x0A]⟩,
        ⟨0xFF, [0xFF, 0, 2, 0, 1, 7, 0, 3, 0, 2, 5, 7, 0, 4]⟩])) := rfl
  obtain ⟨frames, hbody, ⟨-, hpayload⟩, -, htable, hread⟩ := cut_by_grammar hdecode
  cases hbody
  refine ⟨_, hdecode, hpayload, htable, fun types htypes => ?_⟩
  rw [← (hread types htypes).2]
  decide

end StackMapFrame

end ClassPrune
