import ClassPrune.Dump.Lines
import ClassPrune.Proofs.Class.Faithful
import ClassPrune.Proofs.Text.Newlines

/-!
# The records of a dump

The dump in lines has one record for the header, the super class, each interface, constant, member,
attribute, code body and record component. A record is one line as long as no newline comes from
the class itself. Constants are quoted, but names and descriptors are shown as they are.

- `Attribute.within`, `ClassFile.allAttributes`: the attributes at every depth.
- `Lines.perm_ofAttributes`: each of them has a record of its own, and so do the code bodies and the
  components in them.
- `ClassFile.length_records`: how many records there are.
- `ClassFile.bareTexts`: the texts of a class that are shown as they are.
- `ClassFile.newlines_lineDump`: the newlines of the dump are one for each record and those of the
  bare texts.
-/

namespace ClassPrune

open Lines (Record)

/-! ## Attributes at every depth -/

namespace Attribute

mutual

/-- The attribute itself, and those in it at any depth. -/
def within : Attribute → List Attribute
  | a@⟨_, _, _, some (.code ⟨_, _, _, _, attributes⟩)⟩ => a :: withinAll attributes
  | a@⟨_, _, _, some (.record components)⟩ => a :: withinComponents components
  | a@⟨_, _, _, some (.leaf _)⟩ => [a]
  | a@⟨_, _, _, none⟩ => [a]

/-- Attributes, and those in them at any depth. -/
def withinAll : List Attribute → List Attribute
  | [] => []
  | a :: more => within a ++ withinAll more

/-- The attributes of record components, and those in them at any depth. -/
def withinComponents : List (Component Attribute) → List Attribute
  | [] => []
  | ⟨_, _, attributes⟩ :: more => withinAll attributes ++ withinComponents more

end

variable {pool : Pool}

mutual

/-- What is nested in a decoded attribute is decoded, at every depth. -/
theorem decoded_of_mem_within : ∀ {a b : Attribute}, a.Decoded pool → b ∈ a.within →
    b.Decoded pool
  | ⟨nameIndex, info, malformed, some (.code ⟨maxStack, maxLocals, code, handlers, attributes⟩)⟩, b,
      h, hb => by
    rw [within, List.mem_cons] at hb
    rcases hb with rfl | hb
    · exact h
    · exact decoded_of_mem_withinAll (h.of_mem_code rfl) hb
  | ⟨nameIndex, info, malformed, some (.record components)⟩, b, h, hb => by
    rw [within, List.mem_cons] at hb
    rcases hb with rfl | hb
    · exact h
    · exact decoded_of_mem_withinComponents (fun c hc => h.of_mem_component rfl hc) hb
  | ⟨nameIndex, info, malformed, some (.leaf body)⟩, b, h, hb => by
    rw [within, List.mem_singleton] at hb
    exact hb ▸ h
  | ⟨nameIndex, info, malformed, none⟩, b, h, hb => by
    rw [within, List.mem_singleton] at hb
    exact hb ▸ h

/-- What is nested in decoded attributes is decoded, at any depth. -/
theorem decoded_of_mem_withinAll : ∀ {attributes : List Attribute} {b : Attribute},
    (∀ a ∈ attributes, a.Decoded pool) → b ∈ withinAll attributes → b.Decoded pool
  | [], b, h, hb => by
    rw [withinAll] at hb
    cases hb
  | a :: more, b, h, hb => by
    rw [withinAll, List.mem_append] at hb
    obtain ⟨hhead, htail⟩ := List.forall_mem_cons.mp h
    rcases hb with hb | hb
    · exact decoded_of_mem_within hhead hb
    · exact decoded_of_mem_withinAll htail hb

theorem decoded_of_mem_withinComponents : ∀ {components : List (Component Attribute)}
    {b : Attribute}, (∀ c ∈ components, ∀ a ∈ c.attributes, a.Decoded pool) →
    b ∈ withinComponents components → b.Decoded pool
  | [], b, h, hb => by
    rw [withinComponents] at hb
    cases hb
  | ⟨nameIndex, descriptorIndex, attributes⟩ :: more, b, h, hb => by
    rw [withinComponents, List.mem_append] at hb
    obtain ⟨hhead, htail⟩ := List.forall_mem_cons.mp h
    rcases hb with hb | hb
    · exact decoded_of_mem_withinAll hhead hb
    · exact decoded_of_mem_withinComponents htail hb

end

end Attribute

/-! ## The records of attributes -/

namespace Lines

/-- The parts of the record of a component. -/
def componentParts (p : Pool) (c : Component Attribute) : List String :=
  ["component", p.utf8 c.nameIndex, p.utf8 c.descriptorIndex]

/-- The parts of the records of an attribute, those of its code body and its components included,
but not those of what is nested in it. -/
def ownParts (p : Pool) (a : Attribute) : List (List String) :=
  (ofHead p 0 a).parts :: (a.code?.toList.map (fun c => (ofCode 0 c).parts)
    ++ (a.components?.getD []).map (componentParts p))

mutual

/-- The records of an attribute are those of the attributes in it, each once. The order differs,
since a code body has its record in front of its attributes. -/
theorem perm_ofAttribute (p : Pool) : ∀ (depth : Nat) (a : Attribute),
    ((ofAttribute p depth a).map Record.parts).Perm (a.within.flatMap (ownParts p))
  | depth, ⟨nameIndex, info, malformed,
      some (.code ⟨maxStack, maxLocals, code, handlers, attributes⟩)⟩ => by
    rw [ofAttribute, Attribute.within, List.flatMap_cons]
    exact ((perm_ofAttributes p (depth + 1) attributes).cons _).cons _
  | depth, ⟨nameIndex, info, malformed, some (.record components)⟩ => by
    rw [ofAttribute, Attribute.within, List.flatMap_cons]
    exact (perm_ofComponents p depth components).cons _
  | depth, ⟨nameIndex, info, malformed, some (.leaf body)⟩ => by
    rw [ofAttribute, Attribute.within]
    exact .refl _
  | depth, ⟨nameIndex, info, malformed, none⟩ => by
    rw [ofAttribute, Attribute.within]
    exact .refl _

/-- **Each attribute has its own records, at whatever depth it is nested.** -/
theorem perm_ofAttributes (p : Pool) : ∀ (depth : Nat) (attributes : List Attribute),
    ((ofAttributes p depth attributes).map Record.parts).Perm
      ((Attribute.withinAll attributes).flatMap (ownParts p))
  | depth, [] => by
    rw [ofAttributes, Attribute.withinAll]
    exact .refl _
  | depth, a :: more => by
    rw [ofAttributes, Attribute.withinAll, List.map_append, List.flatMap_append]
    exact (perm_ofAttribute p depth a).append (perm_ofAttributes p depth more)

/-- The record of a component stands in front of those of its attributes. -/
theorem perm_ofComponents (p : Pool) : ∀ (depth : Nat) (components : List (Component Attribute)),
    ((ofComponents p depth components).map Record.parts).Perm (components.map (componentParts p)
      ++ (Attribute.withinComponents components).flatMap (ownParts p))
  | depth, [] => by
    rw [ofComponents, Attribute.withinComponents]
    exact .refl _
  | depth, ⟨nameIndex, descriptorIndex, attributes⟩ :: more => by
    rw [ofComponents, Attribute.withinComponents, List.map_cons, List.map_append,
      List.flatMap_append, List.map_cons, List.cons_append]
    refine .cons _ ?_
    -- the attributes of the component move behind the records of the others
    refine ((perm_ofAttributes p (depth + 2) attributes).append
      (perm_ofComponents p depth more)).trans ?_
    rw [← List.append_assoc, ← List.append_assoc]
    exact List.perm_append_comm.append_right _

end

/-- The records of attributes by kind: those of attributes, of code bodies and of components. -/
theorem perm_flatMap_ownParts (p : Pool) (attributes : List Attribute) :
    (attributes.flatMap (ownParts p)).Perm (attributes.map (fun a => (ofHead p 0 a).parts)
      ++ ((attributes.filterMap Attribute.code?).map (fun c => (ofCode 0 c).parts)
        ++ (attributes.flatMap (·.components?.getD [])).map (componentParts p))) := by
  rw [List.filterMap_eq_flatMap_toList, List.map_flatMap, List.map_flatMap]
  refine (List.map_append_flatMap_perm _ _ _).symm.trans (.append_left _ ?_)
  exact (List.flatMap_append_perm _ _ _).symm

end Lines

/-! ## The records of a class -/

namespace Member

/-- The attributes of a member at every depth. -/
def allAttributes (m : Member) : List Attribute := Attribute.withinAll m.attributes

/-- The parts of the record of a member. -/
def parts (p : Pool) (word : String) (m : Member) : List String :=
  [word, m.name p, m.descriptor p, Lines.flags m.flags, (m.type p).source]

/-- The members of one list: their own records, and those of the attributes in them. -/
theorem perm_records (p : Pool) (word : String) (members : List Member) :
    ((members.flatMap (Lines.ofMember p word)).map Record.parts).Perm (members.map (parts p word)
      ++ (members.flatMap allAttributes).flatMap (Lines.ownParts p)) := by
  rw [List.map_flatMap, List.flatMap_assoc]
  refine .trans ?_ (List.map_append_flatMap_perm members (parts p word) _).symm
  exact .flatMap (.refl members) fun m _ => (Lines.perm_ofAttributes p 1 m.attributes).cons _

end Member

namespace ClassFile

variable {k : ClassFile}

/-- The attributes of the class and its members at every depth. -/
def allAttributes (k : ClassFile) : List Attribute :=
  k.fields.flatMap Member.allAttributes ++ (k.methods.flatMap Member.allAttributes
    ++ Attribute.withinAll k.attributes)

/-- The code bodies at every depth. -/
def allCodes (k : ClassFile) : List (Code Attribute) := k.allAttributes.filterMap Attribute.code?

/-- The record components at every depth. -/
def allComponents (k : ClassFile) : List (Component Attribute) :=
  k.allAttributes.flatMap (·.components?.getD [])

/-- In a class that was read every attribute is decoded, at every depth. -/
theorem decoded_of_mem_allAttributes (hk : k.Decoded) {a : Attribute} (ha : a ∈ k.allAttributes) :
    a.Decoded k.pool := by
  rw [allAttributes, List.mem_append, List.mem_append, List.mem_flatMap, List.mem_flatMap] at ha
  rcases ha with ⟨f, hf, ha⟩ | ⟨m, hm, ha⟩ | ha
  · exact Attribute.decoded_of_mem_withinAll (hk.fields f hf) ha
  · exact Attribute.decoded_of_mem_withinAll (hk.methods m hm) ha
  · exact Attribute.decoded_of_mem_withinAll hk.attributes ha

/-- The parts of the records of a class that are not nested in others: the header, the super class,
the interfaces, the constants and the members. -/
def outerParts (k : ClassFile) : List (List String) :=
  [k.sort, k.className, s!"{k.major.toNat}.{k.minor.toNat}", Lines.flags k.flags] ::
    ((if k.superName = "" then [] else [["super", k.superName]])
      ++ (k.interfaceNames.map (fun name => ["implements", name])
        ++ (k.pool.occupied.map (fun slot => (Lines.ofEntry k.pool slot).parts)
          ++ (k.fields.map (Member.parts k.pool "field")
            ++ k.methods.map (Member.parts k.pool "method")))))

/-- **The records of a class by kind.** -/
theorem perm_records (k : ClassFile) : ((Lines.ofClass k).map Record.parts).Perm (k.outerParts
    ++ (k.allAttributes.map (fun a => (Lines.ofHead k.pool 0 a).parts)
      ++ (k.allCodes.map (fun c => (Lines.ofCode 0 c).parts)
        ++ k.allComponents.map (Lines.componentParts k.pool)))) := by
  refine .trans ?_ ((Lines.perm_flatMap_ownParts k.pool k.allAttributes).append_left k.outerParts)
  have hfields := Member.perm_records k.pool "field" k.fields
  have hmethods := Member.perm_records k.pool "method" k.methods
  have hattributes := Lines.perm_ofAttributes k.pool 0 k.attributes
  have hsuper : (if k.superName = "" then [] else [(⟨0, ["super", k.superName]⟩ : Record)]).map
      Record.parts = if k.superName = "" then [] else [["super", k.superName]] := by
    split <;> rfl
  simp only [Lines.ofClass, outerParts, allAttributes, List.map_cons, List.map_append, hsuper,
    List.map_map, List.append_assoc, List.cons_append, List.flatMap_append]
  refine .cons _ (.append_left _ (.append_left _ (.append_left _ ?_)))
  refine (hfields.append (hmethods.append hattributes)).trans ?_
  -- the attributes of fields move behind the records of methods
  rw [List.append_assoc, List.append_assoc]
  exact .append_left _ (List.perm_append_comm_assoc _ _ _)

/-! ## How many records there are -/

/-- One record for the header, the super class if there is one, each interface, constant, member and
attribute, each code body and each record component. -/
def recordCount (k : ClassFile) : Nat :=
  1 + (if k.superName = "" then 0 else 1) + k.interfaces.length + k.pool.occupied.length
    + k.fields.length + k.methods.length + k.allAttributes.length + k.allCodes.length
    + k.allComponents.length

/-- **Everything that a class holds has one record.** -/
theorem length_records (k : ClassFile) : (Lines.ofClass k).length = k.recordCount := by
  have hlength := (perm_records k).length_eq
  have hsuper : (if k.superName = "" then [] else [["super", k.superName]]).length
      = if k.superName = "" then 0 else 1 := by
    split <;> rfl
  simp only [List.length_map, List.length_append, outerParts, List.length_cons, hsuper,
    interfaceNames] at hlength
  rw [hlength, recordCount]
  omega

end ClassFile

/-! ## Newlines in records -/

/-- The newlines in a list of texts. -/
def totalNewlines (texts : List String) : Nat := (texts.map newlines).sum

@[simp] theorem totalNewlines_nil : totalNewlines [] = 0 := rfl

@[simp] theorem totalNewlines_cons (text : String) (texts : List String) :
    totalNewlines (text :: texts) = newlines text + totalNewlines texts := rfl

@[simp] theorem totalNewlines_append (texts more : List String) :
    totalNewlines (texts ++ more) = totalNewlines texts + totalNewlines more := by
  rw [totalNewlines, List.map_append, List.sum_append, totalNewlines, totalNewlines]

/-- Newlines are counted part by part. -/
theorem totalNewlines_flatMap {α : Type} (l : List α) (f : α → List String) :
    totalNewlines (l.flatMap f) = (l.map fun a => totalNewlines (f a)).sum := by
  induction l with
  | nil => rfl
  | cons a l ih => rw [List.flatMap_cons, totalNewlines_append, ih, List.map_cons, List.sum_cons]

theorem totalNewlines_eq_zero_iff {texts : List String} :
    totalNewlines texts = 0 ↔ ∀ text ∈ texts, '\n' ∉ text.toList := by
  induction texts with
  | nil => simp
  | cons text texts ih =>
    rw [totalNewlines_cons, Nat.add_eq_zero_iff, ih, newlines_eq_zero_iff, List.forall_mem_cons]

namespace Pool

/-- A reference is shown as a number, or as a question mark. -/
@[simp] theorem newlines_describeRef (p : Pool) (id : Option EntryId) :
    newlines (p.describeRef id) = 0 := by
  cases id with
  | none => exact (by decide : newlines "#?" = 0)
  | some id => simp +decide [describeRef]

/-- **No constant adds a line.** -/
@[simp] theorem newlines_describe (p : Pool) (id : EntryId) : newlines (p.describe id) = 0 := by
  unfold describe describeEntry
  cases (p.cell id).entry <;> simp +decide

end Pool

@[simp] theorem Tag.newlines_name (t : Tag) : newlines t.name = 0 := by
  cases t <;> rfl

@[simp] theorem Attribute.newlines_state (a : Attribute) : newlines a.state = 0 := by
  unfold state
  split_ifs <;> rfl

@[simp] theorem ClassFile.newlines_sort (k : ClassFile) : newlines k.sort = 0 := by
  unfold sort
  split_ifs <;> rfl

namespace Lines

@[simp] theorem newlines_flags (f : AccessFlags) : newlines (flags f) = 0 := by
  simp +decide [flags]

/-- Only the parts of a record can have newlines. -/
theorem newlines_text (r : Record) : newlines r.text = totalNewlines r.parts := by
  rw [Record.text, newlines_append, newlines_intercalate rfl,
    newlines_ofList (by simp [List.mem_replicate]), Nat.zero_add, totalNewlines]

/-- Each record ends its line, and the newlines in its parts break it. -/
theorem newlines_records (records : List Record) :
    newlines (String.join (records.map fun r => r.text ++ "\n"))
      = records.length + ((records.map Record.parts).map totalNewlines).sum := by
  have hend : newlines "\n" = 1 := by decide
  rw [newlines_join, List.map_map, List.map_map]
  induction records with
  | nil => rfl
  | cons r records ih =>
    simp only [List.map_cons, List.sum_cons, List.length_cons, ih, Function.comp_apply,
      newlines_append, newlines_text, hend]
    omega

/-- The record of a constant is one line, whatever the constant is: texts are quoted. -/
theorem totalNewlines_ofEntry (p : Pool) (slot : PoolIndex × EntryId) :
    totalNewlines (ofEntry p slot).parts = 0 := by
  simp +decide [ofEntry]

/-- Of an attribute that can be written only the name is shown as it is. -/
theorem totalNewlines_ofHead {p : Pool} {a : Attribute} (h : a.Decoded p) (depth : Nat) :
    totalNewlines (ofHead p depth a).parts = newlines (a.name p) := by
  simp +decide [ofHead, length, h.payload]

theorem totalNewlines_ofCode (depth : Nat) (c : Code Attribute) :
    totalNewlines (ofCode depth c).parts = 0 := by
  simp +decide [ofCode]

end Lines

/-! ## Texts that are shown as they are -/

/-- The texts of a component that its record shows as they are. -/
def Component.bareTexts (p : Pool) (c : Component Attribute) : List String :=
  [p.utf8 c.nameIndex, p.utf8 c.descriptorIndex]

/-- The newlines in the record of a component are those of its name and its descriptor. -/
theorem Component.totalNewlines_parts (p : Pool) (c : Component Attribute) :
    totalNewlines (Lines.componentParts p c) = totalNewlines (c.bareTexts p) := by
  simp +decide [Lines.componentParts, bareTexts]

/-- The texts of a member that its record shows as they are. -/
def Member.bareTexts (p : Pool) (m : Member) : List String :=
  [m.name p, m.descriptor p, (m.type p).source]

/-- Likewise for a member. -/
theorem Member.totalNewlines_parts (p : Pool) {word : String} (hword : newlines word = 0)
    (m : Member) : totalNewlines (m.parts p word) = totalNewlines (m.bareTexts p) := by
  simp [parts, bareTexts, hword]

namespace ClassFile

variable {k : ClassFile}

/-- The texts of a class that the dump in lines shows as they are: names, descriptors, and the
descriptors of members in source form. -/
def bareTexts (k : ClassFile) : List String :=
  k.className :: k.superName :: (k.interfaceNames
    ++ (k.fields.flatMap (Member.bareTexts k.pool)
      ++ (k.methods.flatMap (Member.bareTexts k.pool)
        ++ (k.allAttributes.map (·.name k.pool)
          ++ k.allComponents.flatMap (Component.bareTexts k.pool)))))

theorem totalNewlines_members (p : Pool) {word : String} (hword : newlines word = 0)
    (members : List Member) : ((members.map (Member.parts p word)).map totalNewlines).sum
      = totalNewlines (members.flatMap (Member.bareTexts p)) := by
  rw [totalNewlines_flatMap, List.map_map]
  exact congrArg List.sum (List.map_congr_left fun m _ => m.totalNewlines_parts p hword)

/-- The newlines of the outer records are those of the names and descriptors in them. -/
theorem totalNewlines_outerParts (k : ClassFile) : (k.outerParts.map totalNewlines).sum
    = totalNewlines (k.className :: k.superName :: (k.interfaceNames
      ++ (k.fields.flatMap (Member.bareTexts k.pool)
        ++ k.methods.flatMap (Member.bareTexts k.pool)))) := by
  have hversion : newlines s!"{k.major.toNat}.{k.minor.toNat}" = 0 := by simp +decide
  have hsuper : ((if k.superName = "" then [] else [["super", k.superName]]).map
      totalNewlines).sum = newlines k.superName := by
    split
    · rename_i hempty
      rw [hempty]
      rfl
    · simp +decide
  have hinterfaces : (k.interfaceNames.map (totalNewlines ∘ fun name => ["implements", name])).sum
      = totalNewlines k.interfaceNames := by
    refine congrArg List.sum (List.map_congr_left fun name _ => ?_)
    simp +decide
  have hpool : (k.pool.occupied.map (totalNewlines ∘ fun slot =>
      (Lines.ofEntry k.pool slot).parts)).sum = 0 := by
    refine List.sum_eq_zero fun n hn => ?_
    obtain ⟨slot, -, rfl⟩ := List.mem_map.mp hn
    exact Lines.totalNewlines_ofEntry k.pool slot
  have hfields := totalNewlines_members k.pool (by decide : newlines "field" = 0) k.fields
  have hmethods := totalNewlines_members k.pool (by decide : newlines "method" = 0) k.methods
  simp only [outerParts, List.map_cons, List.map_append, List.map_map, List.sum_cons,
    List.sum_append, totalNewlines_cons, totalNewlines_append, totalNewlines_nil, newlines_sort,
    Lines.newlines_flags, hversion] at hfields hmethods ⊢
  rw [hsuper, hinterfaces, hpool, hfields, hmethods]
  omega

/-- The newlines of the records of attributes are those of their names, and of the names and
descriptors of components. -/
theorem totalNewlines_attributes (hk : k.Decoded) :
    ((k.allAttributes.map (fun a => (Lines.ofHead k.pool 0 a).parts)
      ++ (k.allCodes.map (fun c => (Lines.ofCode 0 c).parts)
        ++ k.allComponents.map (Lines.componentParts k.pool))).map totalNewlines).sum
      = totalNewlines (k.allAttributes.map (·.name k.pool)
        ++ k.allComponents.flatMap (Component.bareTexts k.pool)) := by
  have hheads : (k.allAttributes.map (totalNewlines ∘ fun a => (Lines.ofHead k.pool 0 a).parts)).sum
      = totalNewlines (k.allAttributes.map (·.name k.pool)) := by
    rw [totalNewlines, List.map_map]
    refine congrArg List.sum (List.map_congr_left fun a ha => ?_)
    exact Lines.totalNewlines_ofHead (decoded_of_mem_allAttributes hk ha) 0
  have hcodes : (k.allCodes.map (totalNewlines ∘ fun c => (Lines.ofCode 0 c).parts)).sum = 0 := by
    refine List.sum_eq_zero fun n hn => ?_
    obtain ⟨c, -, rfl⟩ := List.mem_map.mp hn
    exact Lines.totalNewlines_ofCode 0 c
  have hcomponents : (k.allComponents.map (totalNewlines ∘ Lines.componentParts k.pool)).sum
      = totalNewlines (k.allComponents.flatMap (Component.bareTexts k.pool)) := by
    rw [totalNewlines_flatMap]
    exact congrArg List.sum (List.map_congr_left fun c _ => c.totalNewlines_parts k.pool)
  simp only [List.map_append, List.map_map, List.sum_append, totalNewlines_append]
  rw [hheads, hcodes, hcomponents, Nat.zero_add]

/-- **The newlines of the dump are one for each record and those of the bare texts.** -/
theorem newlines_lineDump (hk : k.Decoded) :
    newlines k.lineDump = k.recordCount + totalNewlines k.bareTexts := by
  have hparts := ((perm_records k).map totalNewlines).sum_eq
  rw [List.map_append, List.sum_append, totalNewlines_outerParts, totalNewlines_attributes hk]
    at hparts
  rw [lineDump, Lines.newlines_records, hparts, length_records, bareTexts]
  simp only [totalNewlines_cons, totalNewlines_append]
  omega

/-- The dump ends with a newline, so that it has as many lines as newlines. -/
theorem getLast?_lineDump (k : ClassFile) : k.lineDump.toList.getLast? = some '\n' := by
  obtain ⟨front, r, hrecords⟩ : ∃ front r, Lines.ofClass k = front ++ [r] :=
    ⟨_, _, (List.dropLast_append_getLast (l := Lines.ofClass k) (List.cons_ne_nil _ _)).symm⟩
  simp [lineDump, hrecords, String.toList_join]

/-- **The dump has one line for each record exactly when no name or descriptor that it shows as it
is has a newline.** Each newline in one of them adds a line, whatever else the class holds. -/
theorem one_line_per_record_iff {data : Bytes} (h : parse data = .ok k) :
    newlines k.lineDump = k.recordCount + totalNewlines k.bareTexts ∧
      (newlines k.lineDump = k.recordCount ↔ ∀ text ∈ k.bareTexts, '\n' ∉ text.toList) ∧
      k.lineDump.toList.getLast? = some '\n' := by
  obtain ⟨-, -, hdecoded⟩ := parse_sound h
  have hnewlines := newlines_lineDump hdecoded
  refine ⟨hnewlines, ?_, getLast?_lineDump k⟩
  rw [hnewlines, ← totalNewlines_eq_zero_iff]
  omega

/-- A class with a newline in its name, and nothing in it. -/
def splitNameClass : Bytes :=
  [0xCA, 0xFE, 0xBA, 0xBE, 0, 0, 0, 60, 0, 3, 1, 0, 3, 65, 10, 66, 7, 0, 1,
    0, 0x21, 0, 2, 0, 0, 0, 0, 0, 0, 0, 0, 0, 0]

/-- The class can be read, and there is one newline in its name. -/
theorem parse_splitNameClass : ∃ k, parse splitNameClass = .ok k ∧ k.recordCount = 3 ∧
    totalNewlines k.bareTexts = 1 :=
  ⟨_, rfl, by decide +kernel, by decide +kernel⟩

/-- The newline in the name is a line more, and nothing else is. -/
theorem one_line_per_record_iff_splitNameClass :
    ∃ k, parse splitNameClass = .ok k ∧ newlines k.lineDump = 4 ∧
      newlines k.lineDump = k.recordCount + totalNewlines k.bareTexts ∧
        (newlines k.lineDump = k.recordCount ↔ ∀ text ∈ k.bareTexts, '\n' ∉ text.toList) ∧
        k.lineDump.toList.getLast? = some '\n' := by
  obtain ⟨k, hk, hcount, hbare⟩ := parse_splitNameClass
  have hlines := one_line_per_record_iff hk
  exact ⟨k, hk, by rw [hlines.1, hcount, hbare], hlines⟩

/-- Its three records take four lines. -/
theorem lines_of_splitNameClass :
    ∃ k, parse splitNameClass = .ok k ∧ newlines k.lineDump ≠ k.recordCount := by
  obtain ⟨k, hk, hcount, hbare⟩ := parse_splitNameClass
  refine ⟨k, hk, ?_⟩
  rw [newlines_lineDump (parse_sound hk).2.2, hcount, hbare]
  decide

end ClassFile

end ClassPrune
