import ClassPrune.Code.Opcode
import ClassPrune.Text.Quoted

/-!
# Machine profiles

A virtual machine numbers its internal opcodes in its own way. A profile names those that stand
for a standard instruction; every other opcode above the standard ones is refused.

- `Profile.lookup?`: the built-in profiles by name, in any case of letters.
- `Profile.standardForm?`: the standard instruction that a reserved opcode stands for.
-/

namespace ClassPrune

/-- One numbering of the internal opcodes. -/
structure Profile where
  name : String
  /-- Followed by one operand byte; stands for two `nop`. -/
  breakpoint : Opcode
  /-- Stands for `aload_0`. -/
  fastAload0 : Opcode
  /-- Stands for `ldc`, its operand being the number of a resolved reference. -/
  fastAldc : Opcode
  /-- Stands for `ldc_w`, its operand being the number of a resolved reference. -/
  fastAldcW : Opcode
  /-- Stands for `return`. -/
  returnRegisterFinalizer : Opcode
  /-- Stands for `nop`. -/
  shouldNotReachHere : Opcode
  /-- The highest internal opcode that the machine assigns. -/
  last : Opcode
  deriving DecidableEq, Repr

namespace Profile

/-- The numbering of the eighth generation. -/
def hotspot8 : Profile where
  name := "hotspot8"
  breakpoint := ⟨0xCA⟩
  fastAload0 := ⟨0xDB⟩
  fastAldc := ⟨0xE5⟩
  fastAldcW := ⟨0xE6⟩
  returnRegisterFinalizer := ⟨0xE7⟩
  shouldNotReachHere := ⟨0xE9⟩
  last := ⟨0xE9⟩

/-- The numbering of the eleventh generation and later ones. -/
def hotspot11 : Profile where
  name := "hotspot11"
  breakpoint := ⟨0xCA⟩
  fastAload0 := ⟨0xDC⟩
  fastAldc := ⟨0xE6⟩
  fastAldcW := ⟨0xE7⟩
  returnRegisterFinalizer := ⟨0xE8⟩
  shouldNotReachHere := ⟨0xEE⟩
  last := ⟨0xEE⟩

/-- The profile used when none is named. -/
def standard : Profile := hotspot11

/-- The profiles that can be named. -/
def builtin : List Profile := [hotspot8, hotspot11]

/-- The built-in profile of a name, whatever the case of its letters. No letter outside ASCII
has an ASCII lower-case form that occurs in a profile's name. -/
def lookup? (name : String) : Option Profile :=
  builtin.find? fun p => p.name.toList = name.toList.map Char.toLower

/-- The text for a name that is no profile's. -/
def unknownMessage (name : String) : String :=
  s!"unknown VM profile {Text.quote name}"

/-- The standard opcode that a reserved opcode stands for, and how many bytes the reserved form
takes. -/
def standardForm? (p : Profile) (op : Opcode) : Option (Opcode × Nat) :=
  if op = p.breakpoint then some (.nop, 2)
  else if op = p.fastAload0 then some (.aload0, 1)
  else if op = p.fastAldc then some (.ldc, 2)
  else if op = p.fastAldcW then some (.ldcW, 3)
  else if op = p.returnRegisterFinalizer then some (.return_, 1)
  else if op = p.shouldNotReachHere then some (.nop, 1)
  else none

end Profile

end ClassPrune
