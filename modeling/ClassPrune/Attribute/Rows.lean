import ClassPrune.Codec
import ClassPrune.AccessFlags

/-!
# Rows of attribute tables

The fixed-size records that attributes list, each with its layout. Fields are in the order of
the file.
-/

namespace ClassPrune

open Codec (u1 u2 words)

/-- A range of code and the handler of what is thrown there. -/
structure ExceptionHandler where
  startPc : UInt16
  endPc : UInt16
  handlerPc : UInt16
  catchType : PoolIndex
  deriving DecidableEq, Repr

def ExceptionHandler.codec : Codec ExceptionHandler :=
  (u2.pair (u2.pair (u2.pair u2))).iso (fun (a, b, c, d) => ⟨a, b, c, d⟩)
    (fun h => (h.startPc, h.endPc, h.handlerPc, h.catchType))

/-- A class that is a member of another, or local. -/
structure InnerClass where
  innerIndex : PoolIndex
  outerIndex : PoolIndex
  nameIndex : PoolIndex
  flags : AccessFlags
  deriving DecidableEq, Repr

def InnerClass.codec : Codec InnerClass :=
  (u2.pair (u2.pair (u2.pair u2))).iso (fun (a, b, c, d) => ⟨a, b, c, d⟩)
    (fun k => (k.innerIndex, k.outerIndex, k.nameIndex, k.flags))

/-- Where the code of a source line starts. -/
structure LineNumber where
  startPc : UInt16
  line : UInt16
  deriving DecidableEq, Repr

def LineNumber.codec : Codec LineNumber :=
  (u2.pair u2).iso (fun (a, b) => ⟨a, b⟩) (fun l => (l.startPc, l.line))

/-- A local variable in a range of code; `typeIndex` is its descriptor, or its signature in the
table of signatures. -/
structure LocalVariable where
  startPc : UInt16
  length : UInt16
  nameIndex : PoolIndex
  typeIndex : PoolIndex
  slot : UInt16
  deriving DecidableEq, Repr

def LocalVariable.codec : Codec LocalVariable :=
  (u2.pair (u2.pair (u2.pair (u2.pair u2)))).iso (fun (a, b, c, d, e) => ⟨a, b, c, d, e⟩)
    (fun v => (v.startPc, v.length, v.nameIndex, v.typeIndex, v.slot))

/-- A bootstrap method and its static arguments. -/
structure BootstrapMethod where
  methodIndex : PoolIndex
  arguments : List PoolIndex
  deriving DecidableEq, Repr

def BootstrapMethod.codec : Codec BootstrapMethod :=
  (u2.pair words).iso (fun (a, b) => ⟨a, b⟩) (fun m => (m.methodIndex, m.arguments))

/-- A declared parameter of a method. -/
structure MethodParameter where
  nameIndex : PoolIndex
  flags : AccessFlags
  deriving DecidableEq, Repr

def MethodParameter.codec : Codec MethodParameter :=
  (u2.pair u2).iso (fun (a, b) => ⟨a, b⟩) (fun p => (p.nameIndex, p.flags))

/-- A module that a module depends on. -/
structure ModuleRequires where
  moduleIndex : PoolIndex
  flags : UInt16
  versionIndex : PoolIndex
  deriving DecidableEq, Repr

def ModuleRequires.codec : Codec ModuleRequires :=
  (u2.pair (u2.pair u2)).iso (fun (a, b, c) => ⟨a, b, c⟩)
    (fun r => (r.moduleIndex, r.flags, r.versionIndex))

/-- A package that a module exports or opens, and the modules it does so to. -/
structure ModuleExposes where
  packageIndex : PoolIndex
  flags : UInt16
  targets : List PoolIndex
  deriving DecidableEq, Repr

def ModuleExposes.codec : Codec ModuleExposes :=
  (u2.pair (u2.pair words)).iso (fun (a, b, c) => ⟨a, b, c⟩)
    (fun e => (e.packageIndex, e.flags, e.targets))

/-- A service that a module provides, and its providers. -/
structure ModuleProvides where
  serviceIndex : PoolIndex
  providers : List PoolIndex
  deriving DecidableEq, Repr

def ModuleProvides.codec : Codec ModuleProvides :=
  (u2.pair words).iso (fun (a, b) => ⟨a, b⟩) (fun p => (p.serviceIndex, p.providers))

/-- The declaration of a module. -/
structure ModuleInfo where
  nameIndex : PoolIndex
  flags : UInt16
  versionIndex : PoolIndex
  requires : List ModuleRequires
  exports : List ModuleExposes
  opens : List ModuleExposes
  uses : List PoolIndex
  provides : List ModuleProvides
  deriving DecidableEq, Repr

namespace ModuleInfo

def codec : Codec ModuleInfo :=
  (u2.pair (u2.pair (u2.pair (ModuleRequires.codec.table2.pair (ModuleExposes.codec.table2.pair
    (ModuleExposes.codec.table2.pair (words.pair ModuleProvides.codec.table2))))))).iso
    (fun (a, b, c, d, e, f, g, h) => ⟨a, b, c, d, e, f, g, h⟩)
    (fun m => (m.nameIndex, m.flags, m.versionIndex, m.requires, m.exports, m.opens, m.uses,
      m.provides))

/-- The indices that the declaration of a module stores. -/
def references (m : ModuleInfo) : List PoolIndex :=
  m.nameIndex :: m.versionIndex ::
    (m.requires.flatMap (fun r => [r.moduleIndex, r.versionIndex])
      ++ m.exports.flatMap (fun e => e.packageIndex :: e.targets)
      ++ m.opens.flatMap (fun o => o.packageIndex :: o.targets)
      ++ m.uses
      ++ m.provides.flatMap (fun p => p.serviceIndex :: p.providers))

end ModuleInfo

end ClassPrune
