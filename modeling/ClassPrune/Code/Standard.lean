import ClassPrune.Code.Decoding

/-!
# Standard code

Code in which no reserved opcode is left. Code without any is not touched, so that the padding of
its switches stays as it is; code that does not decode is not touched either.
-/

namespace ClassPrune

/-- Code in standard form, and how many reserved opcodes were replaced in it. -/
structure StandardCode where
  code : Bytes
  substitutions : Nat := 0
  deriving DecidableEq, Repr

/-- The code with its reserved opcodes replaced, when it decodes. -/
def Decoder.standardize (d : Decoder) (code : Bytes) : StandardCode :=
  match d.decode code with
  | .error _ => { code }
  | .ok insns =>
    let count := (d.substitutions code).length
    if count = 0 then { code }
    else match encodeCode insns with
      | .ok written => ⟨written, count⟩
      | .error _ => { code }

end ClassPrune
