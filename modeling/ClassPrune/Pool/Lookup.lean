import ClassPrune.Pool.Basic

/-!
# Typed look-ups

What the constant at an index says, when it is of the kind asked for. Text look-ups answer with
the empty string when the index names nothing of the kind, or when a reference on the way is
unbound.
-/

namespace ClassPrune.Pool

/-- The text of a reference to a text constant. -/
def textOf (p : Pool) : Option EntryId → String
  | some id =>
    match (p.cell id).entry with
    | .utf8 raw => ModifiedUtf8.toString raw
    | _ => ""
  | none => ""

/-- The stored bytes of the text at `index`. -/
def raw? (p : Pool) (index : PoolIndex) : Option Bytes :=
  match p.entry? index with
  | some (.utf8 raw) => some raw
  | _ => none

/-- The text at `index`. -/
def utf8 (p : Pool) (index : PoolIndex) : String :=
  match p.raw? index with
  | some raw => ModifiedUtf8.toString raw
  | none => ""

/-- The text that a constant of kind `kind` at `index` wraps. -/
def named (p : Pool) (kind : NamedKind) (index : PoolIndex) : String :=
  match p.entry? index with
  | some (.named found text) => if found = kind then p.textOf text else ""
  | _ => ""

/-- The name of the class at `index`. -/
def className (p : Pool) (index : PoolIndex) : String := p.named .classRef index

/-- Name and descriptor of a reference to a name and type. -/
def nameAndTypeOf (p : Pool) : Option EntryId → String × String
  | some id =>
    match (p.cell id).entry with
    | .nameAndType name descriptor => (p.textOf name, p.textOf descriptor)
    | _ => ("", "")
  | none => ("", "")

/-- The class name of a reference to a class. -/
def classNameOf (p : Pool) : Option EntryId → String
  | some id =>
    match (p.cell id).entry with
    | .named .classRef text => p.textOf text
    | _ => ""
  | none => ""

/-- Name and descriptor at `index`. -/
def nameAndType (p : Pool) (index : PoolIndex) : String × String :=
  match p.entry? index with
  | some (.nameAndType name descriptor) => (p.textOf name, p.textOf descriptor)
  | _ => ("", "")

/-- Owner, name and descriptor of the member at `index`. -/
def member (p : Pool) (kind : MemberKind) (index : PoolIndex) : String × String × String :=
  match p.entry? index with
  | some (.member found owner nameAndType) =>
    if found = kind then (p.classNameOf owner, p.nameAndTypeOf nameAndType) else ("", "", "")
  | _ => ("", "", "")

/-- The number at `index`. -/
def integer? (p : Pool) (index : PoolIndex) : Option Int :=
  match p.entry? index with
  | some (.integer bits) => some bits.toInt32.toInt
  | _ => none

/-- The long number at `index`. -/
def long? (p : Pool) (index : PoolIndex) : Option Int :=
  match p.entry? index with
  | some (.long bits) => some bits.toInt64.toInt
  | _ => none

/-- The bits of the single-precision number at `index`. -/
def float? (p : Pool) (index : PoolIndex) : Option UInt32 :=
  match p.entry? index with
  | some (.float bits) => some bits
  | _ => none

/-- The bits of the double-precision number at `index`. -/
def double? (p : Pool) (index : PoolIndex) : Option UInt64 :=
  match p.entry? index with
  | some (.double bits) => some bits
  | _ => none

/-- The constant at `index`, when it is of kind `tag`. -/
def ofKind? (p : Pool) (tag : Tag) (index : PoolIndex) : Option EntryId :=
  (p.find? index).filter fun id => (p.cell id).entry.tag = tag

end ClassPrune.Pool
