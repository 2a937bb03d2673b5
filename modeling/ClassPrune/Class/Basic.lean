import ClassPrune.Attribute.Basic
import ClassPrune.Descriptor

/-!
# Class files

A class file in memory: the header, the constant pool, the members and the attributes. Members
and attributes name constants by their index.
-/

namespace ClassPrune

/-- A field or a method. -/
structure Member where
  flags : AccessFlags
  nameIndex : PoolIndex
  descriptorIndex : PoolIndex
  attributes : List Attribute

/-- A class file. -/
structure ClassFile where
  minor : UInt16
  major : UInt16
  pool : Pool
  flags : AccessFlags
  thisClass : PoolIndex
  superClass : PoolIndex
  interfaces : List PoolIndex
  fields : List Member
  methods : List Member
  attributes : List Attribute

namespace Member

def name (m : Member) (pool : Pool) : String := pool.utf8 m.nameIndex

def descriptor (m : Member) (pool : Pool) : String := pool.utf8 m.descriptorIndex

/-- The reading of the descriptor. -/
def type (m : Member) (pool : Pool) : Descriptor := .parse (m.descriptor pool)

/-- The code of a method: the body of the first attribute called so, if it has that form. -/
def code? (m : Member) (pool : Pool) : Option (Code Attribute) :=
  (findAttribute? m.attributes pool AttributeKind.code.name).bind Attribute.code?

def isConstructor (m : Member) (pool : Pool) : Bool := m.name pool = "<init>"

def isStaticInitializer (m : Member) (pool : Pool) : Bool := m.name pool = "<clinit>"

end Member

namespace ClassFile

/-- A class with nothing in it. -/
def empty : ClassFile := ⟨0, 0, .empty, 0, 0, 0, [], [], [], []⟩

def className (k : ClassFile) : String := k.pool.className k.thisClass

/-- The name of the super class; empty when there is none. -/
def superName (k : ClassFile) : String :=
  if k.superClass = 0 then "" else k.pool.className k.superClass

def interfaceNames (k : ClassFile) : List String := k.interfaces.map k.pool.className

def isClass (k : ClassFile) : Bool := !k.flags.isInterface && !k.flags.isModule

def isInterface (k : ClassFile) : Bool := k.flags.isInterface && !k.flags.isAnnotationType

def isAnnotationType (k : ClassFile) : Bool := k.flags.isAnnotationType

def isEnum (k : ClassFile) : Bool := k.flags.isEnum

def isModule (k : ClassFile) : Bool := k.flags.isModule

/-- The first field of the given name. -/
def field? (k : ClassFile) (name : String) : Option Member :=
  k.fields.find? fun f => f.name k.pool = name

/-- The methods of the given name. -/
def methodsNamed (k : ClassFile) (name : String) : List Member :=
  k.methods.filter fun m => m.name k.pool = name

/-- The first method of the given name and descriptor; an empty descriptor fits every method. -/
def method? (k : ClassFile) (name descriptor : String) : Option Member :=
  (k.methodsNamed name).find? fun m => descriptor = "" || m.descriptor k.pool = descriptor

/-- What sort of class it is, as a dump names it. -/
def sort (k : ClassFile) : String :=
  if k.isModule then "module"
  else if k.isAnnotationType then "annotation"
  else if k.isInterface then "interface"
  else if k.isEnum then "enum"
  else if (findAttribute? k.attributes k.pool AttributeKind.record.name).isSome then "record"
  else "class"

end ClassFile

end ClassPrune
