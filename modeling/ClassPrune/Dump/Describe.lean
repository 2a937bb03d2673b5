import ClassPrune.Class.Basic
import ClassPrune.Decimal.Floating

/-!
# Descriptions

How dumps show a constant and the state of an attribute. A reference is shown as the index of
the referenced constant, or as `#?` while it is unbound.
-/

namespace ClassPrune

/-- A reference of a constant. -/
def Pool.describeRef (p : Pool) : Option EntryId → String
  | some id => s!"#{(p.cell id).index.toNat}"
  | none => "#?"

/-- The contents of a constant. -/
def Pool.describeEntry (p : Pool) : Entry (Option EntryId) → String
  | .utf8 raw => Text.quote (ModifiedUtf8.toString raw)
  | .integer bits => toString bits.toInt32.toInt
  | .float bits => s!"{Decimal.single.text bits.toNat} (0x{Text.hex 8 bits.toNat})"
  | .long bits => s!"{bits.toInt64.toInt}L"
  | .double bits => s!"{Decimal.double.text bits.toNat} (0x{Text.hex 16 bits.toNat})"
  | .named _ text => p.describeRef text
  | .member _ owner nameType => s!"{p.describeRef owner}.{p.describeRef nameType}"
  | .nameAndType name descriptor => s!"{p.describeRef name}:{p.describeRef descriptor}"
  | .methodHandle kind reference => s!"kind {kind.toNat} {p.describeRef reference}"
  | .computed _ bootstrap nameType => s!"bsm {bootstrap.toNat} {p.describeRef nameType}"

/-- The contents of the constant named `id`. -/
def Pool.describe (p : Pool) (id : EntryId) : String := p.describeEntry (p.cell id).entry

/-- Whether an attribute has a typed form, has none because its name is unknown, or has none
because its payload does not decode. -/
def Attribute.state (a : Attribute) : String :=
  if a.body.isSome then "parsed" else if a.malformed then "malformed" else "opaque"

end ClassPrune
