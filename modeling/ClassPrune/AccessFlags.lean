/-!
# Access flags

The sixteen flag bits of classes, fields and methods. Some bits mean different things on
different holders, so several names share a mask.
-/

namespace ClassPrune

/-- The flag word of a class, field, method or parameter. -/
abbrev AccessFlags := UInt16

namespace AccessFlags

/-- Whether a flag of `mask` is set. -/
def has (flags : AccessFlags) (mask : UInt16) : Bool := flags &&& mask != 0

def isPublic (f : AccessFlags) : Bool := has f 0x0001

def isPrivate (f : AccessFlags) : Bool := has f 0x0002

def isProtected (f : AccessFlags) : Bool := has f 0x0004

def isStatic (f : AccessFlags) : Bool := has f 0x0008

def isFinal (f : AccessFlags) : Bool := has f 0x0010

def isSuper (f : AccessFlags) : Bool := has f 0x0020

def isSynchronized (f : AccessFlags) : Bool := has f 0x0020

def isVolatile (f : AccessFlags) : Bool := has f 0x0040

def isBridge (f : AccessFlags) : Bool := has f 0x0040

def isTransient (f : AccessFlags) : Bool := has f 0x0080

def isVarargs (f : AccessFlags) : Bool := has f 0x0080

def isNative (f : AccessFlags) : Bool := has f 0x0100

def isInterface (f : AccessFlags) : Bool := has f 0x0200

def isAbstract (f : AccessFlags) : Bool := has f 0x0400

def isStrict (f : AccessFlags) : Bool := has f 0x0800

def isSynthetic (f : AccessFlags) : Bool := has f 0x1000

def isAnnotationType (f : AccessFlags) : Bool := has f 0x2000

def isEnum (f : AccessFlags) : Bool := has f 0x4000

def isModule (f : AccessFlags) : Bool := has f 0x8000

end AccessFlags

end ClassPrune
