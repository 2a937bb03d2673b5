import ClassPrune.Proofs.Class.RoundTrip

/-!
# Where a class file ends

No byte behind a class file changes how the class file itself is read: the counts and lengths in
it decide where it ends.

- `ClassFile.read_append`: a class file is read to its last byte, whatever follows it.
- `ClassFile.parse_append`: so anything that follows it is a fault, at its end.
- `ClassFile.parse_prefix`: and no part of a class file from its start is one.

The reader never looks ahead and never asks how much is left, except to see that nothing is left in
the end. So the two statements about parsing come from one about reading.
-/

namespace ClassPrune.ClassFile

/-- What follows a class file is left over when the class file has been read. -/
theorem read_append {data : Bytes} {k : ClassFile} (h : parse data = .ok k) (extra : Bytes) :
    ∃ k', ClassFile.read (.ofBytes (data ++ extra)) = .ok (k', ⟨data.length, extra⟩) := by
  obtain ⟨hencode, hwritable, -⟩ := parse_sound h
  obtain ⟨written, hwritten, hread⟩ := read_encode hwritable
  -- the bytes that the class is written as are those that it was read from
  obtain rfl : data = written := Except.ok.inj (hencode.symm.trans hwritten)
  obtain ⟨pool, hpool, -⟩ := hread extra
  exact ⟨k.reread pool, hpool⟩

/-- What follows a class file is seen where the class file ends, and counted. -/
theorem parse_append {data : Bytes} {k : ClassFile} (h : parse data = .ok k) {extra : Bytes}
    (hextra : extra ≠ []) :
    parse (data ++ extra) = .error ⟨.file, ⟨data.length, .trailingBytes extra.length⟩⟩ := by
  obtain ⟨k', hread⟩ := read_append h extra
  rw [parse, hread]
  cases extra with
  | nil => exact absurd rfl hextra
  | cons b extra => rfl

/-- If a proper part from the start were a class file too, then the rest of the bytes would follow
it. -/
theorem parse_prefix {data front : Bytes} {k : ClassFile} (h : parse data = .ok k)
    (hfront : front <+: data) (hne : front ≠ data) : ∃ e, parse front = .error e := by
  cases hparse : parse front with
  | error e => exact ⟨e, rfl⟩
  | ok k' =>
    obtain ⟨extra, rfl⟩ := hfront
    have hextra : extra ≠ [] := by
      rintro rfl
      exact hne (List.append_nil front).symm
    -- the whole would have to stop where its front does
    rw [parse_append hparse hextra] at h
    cases h

/-- **A class file says itself where it ends**: nothing that is shorter is a class file, and
anything longer is refused at the very byte where the class file is over. -/
theorem parse_delimited {data : Bytes} {k : ClassFile} (h : parse data = .ok k) :
    (∀ front, front <+: data → front ≠ data → ∃ e, parse front = .error e) ∧
      ∀ extra, extra ≠ [] →
        parse (data ++ extra) = .error ⟨.file, ⟨data.length, .trailingBytes extra.length⟩⟩ :=
  ⟨fun _ hfront hne => parse_prefix h hfront hne, fun _ hextra => parse_append h hextra⟩

theorem parse_delimited_oddClass :
    (∃ k, parse oddClass = .ok k) ∧ (∃ e, parse oddClass.dropLast = .error e) ∧
      parse (oddClass ++ [0, 1]) = .error ⟨.file, ⟨94, .trailingBytes 2⟩⟩ := by
  obtain ⟨k, hk⟩ : ∃ k, parse oddClass = .ok k := ⟨_, rfl⟩
  obtain ⟨hshorter, hlonger⟩ := parse_delimited hk
  exact ⟨⟨k, hk⟩, hshorter _ (List.dropLast_prefix _) (by decide), hlonger [0, 1] (by decide)⟩

end ClassPrune.ClassFile
