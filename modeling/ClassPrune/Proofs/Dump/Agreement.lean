import ClassPrune.Dump.Document
import ClassPrune.Proofs.Dump.Records

/-!
# The two dumps side by side

A document says what the dump in lines says of constants, members and attributes, in the same order
and at the same depth, with one exception: it does not look into record components, and whatever is
nested in one is missing from it.

- `Document.records`: what a document lists, as records.
- `Lines.Record.isShared`, `Lines.outside`: the records that both dumps have, and those that are
  under no record component.
- `Lines.filter_outside_ofAttributes`: under no component the dumps list the same attributes.
- `Attribute.hidden`: the attributes in record components, which a document leaves out.
- `ClassFile.documentDump_lists`: the dumps agree exactly when no record component has attributes.
-/

namespace ClassPrune

open Lines (Record)
open Text (Json)

/-! ## Reading documents -/

namespace Text.Json

/-- The value of a field; null where there is none. -/
def field (key : String) : Json → Json
  | .object fields => (fields.lookup key).getD .null
  | _ => .null

/-- The items of a list; none where there is no list. -/
def items : Json → List Json
  | .list items => items
  | _ => []

/-- The text of a value; empty where it is none. -/
def asText : Json → String
  | .text value => value
  | _ => ""

/-- The number of a value; zero where it is none. -/
def asNumber : Json → Nat
  | .number value => value
  | _ => 0

end Text.Json

namespace Document

/-- The record of a constant that a document lists. -/
def entryRecord (j : Json) : Record :=
  ⟨0, ["pool", toString (j.field "index").asNumber, (j.field "tag").asText,
    (j.field "value").asText]⟩

/-- The record of an attribute that a document lists. -/
def headRecord (depth : Nat) (j : Json) : Record :=
  ⟨depth, ["attribute", (j.field "name").asText, (j.field "state").asText,
    toString (j.field "length").asNumber]⟩

mutual

/-- The records of an attribute that a document lists, and of those nested in it. -/
def attributeRecords (depth : Nat) : Json → List Record
  | .object fields => headRecord depth (.object fields) :: nestedRecords depth fields
  | _ => []

/-- The records of what is nested in an attribute with the given fields. -/
def nestedRecords (depth : Nat) : List (String × Json) → List Record
  | [] => []
  | (key, value) :: more =>
    (if key = "attributes" then listRecords (depth + 1) value else []) ++ nestedRecords depth more

/-- The records of a list of attributes. -/
def listRecords (depth : Nat) : Json → List Record
  | .list items => itemRecords depth items
  | _ => []

/-- The records of attributes. -/
def itemRecords (depth : Nat) : List Json → List Record
  | [] => []
  | item :: more => attributeRecords depth item ++ itemRecords depth more

end

/-- The records of a member that a document lists, and of its attributes. -/
def memberRecords (word : String) (j : Json) : List Record :=
  let flags := (j.field "accessFlags").asNumber
  ⟨0, [word, (j.field "name").asText, (j.field "descriptor").asText, s!"0x{Text.hex 4 flags}",
    (j.field "type").asText]⟩ ::
    listRecords 1 (j.field "attributes")

/-- The records of the constants, the members and the attributes that a document lists. -/
def records (j : Json) : List Record :=
  (j.field "constantPool").items.map entryRecord
    ++ ((j.field "fields").items.flatMap (memberRecords "field")
      ++ ((j.field "methods").items.flatMap (memberRecords "method")
        ++ listRecords 0 (j.field "attributes")))

end Document

namespace Lines

namespace Record

/-- The first part of a record, which says what it is about. -/
def word (r : Record) : String := r.parts.headD ""

/-- Whether a record is about a constant, a member or an attribute. -/
def isShared (r : Record) : Bool := ["pool", "field", "method", "attribute"].contains r.word

end Record

/-- The records that are neither about a component nor indented under one; `inside` is the depth of
the component that the first of them may stand under. -/
def outside : (inside : Option Nat) → List Record → List Record
  | _, [] => []
  | inside, r :: more =>
    if inside.any (· < r.depth) then outside inside more
    else if r.word = "component" then outside (some r.depth) more
    else r :: outside none more

theorem outside_sublist (inside : Option Nat) (records : List Record) :
    (outside inside records).Sublist records := by
  induction records generalizing inside with
  | nil => exact .slnil
  | cons r more ih =>
    rw [outside]
    split_ifs
    · exact (ih _).cons r
    · exact (ih _).cons r
    · exact (ih _).cons_cons r

/-- A record about something else than a component stays. -/
theorem outside_cons {r : Record} (h : r.word ≠ "component") (more : List Record) :
    outside none (r :: more) = r :: outside none more := by
  simp [outside, h]

/-- A record component hides what is deeper than its own record. -/
theorem outside_component {r : Record} (h : r.word = "component") (more : List Record) :
    outside none (r :: more) = outside (some r.depth) more := by
  simp [outside, h]

/-- Records in front, with no component among them, are all kept. -/
theorem outside_append {records : List Record} (h : ∀ r ∈ records, r.word ≠ "component")
    (more : List Record) : outside none (records ++ more) = records ++ outside none more := by
  induction records with
  | nil => rfl
  | cons r records ih =>
    obtain ⟨hr, hrecords⟩ := List.forall_mem_cons.mp h
    rw [List.cons_append, outside_cons hr, ih hrecords, List.cons_append]

/-- What is indented under a component goes with it. -/
theorem outside_under {d : Nat} {records : List Record} (h : ∀ r ∈ records, d < r.depth)
    (more : List Record) : outside (some d) (records ++ more) = outside (some d) more := by
  induction records with
  | nil => rfl
  | cons r records ih =>
    obtain ⟨hr, hrecords⟩ := List.forall_mem_cons.mp h
    simp [outside, hr, ih hrecords]

/-- The first of the records, if there is any, is indented at most `depth` tabs. -/
def Ends (depth : Nat) (records : List Record) : Prop := ∀ r ∈ records.head?, r.depth ≤ depth

theorem Ends.mono {d d' : Nat} {records : List Record} (h : Ends d records) (hle : d ≤ d') :
    Ends d' records := fun r hr => Nat.le_trans (h r hr) hle

/-- Records end a component when the first of them is not deeper than it. -/
theorem ends_cons {d : Nat} {r : Record} (h : r.depth ≤ d) (more : List Record) :
    Ends d (r :: more) := by
  intro r' hr'
  cases hr'
  exact h

/-- A component ends where the indentation does. -/
theorem outside_of_ends {d : Nat} {records : List Record} (h : Ends d records) :
    outside (some d) records = outside none records := by
  cases records with
  | nil => rfl
  | cons r more =>
    have hle : ¬d < r.depth := Nat.not_lt.mpr (h r rfl)
    simp [outside, hle]

/-! ## Indentation -/

mutual

/-- No record of an attribute is less deep than the attribute. -/
theorem le_depth_ofAttribute {p : Pool} : ∀ {depth : Nat} {a : Attribute},
    ∀ r ∈ ofAttribute p depth a, depth ≤ r.depth
  | depth, ⟨nameIndex, info, malformed,
      some (.code ⟨maxStack, maxLocals, code, handlers, attributes⟩)⟩ => by
    rw [ofAttribute, List.forall_mem_cons, List.forall_mem_cons]
    exact ⟨Nat.le_refl _, Nat.le_succ _, fun r hr => Nat.le_of_succ_le (le_depth_ofAttributes r hr)⟩
  | depth, ⟨nameIndex, info, malformed, some (.record components)⟩ => by
    rw [ofAttribute, List.forall_mem_cons]
    exact ⟨Nat.le_refl _, fun r hr => Nat.le_of_succ_le (le_depth_ofComponents r hr)⟩
  | depth, ⟨nameIndex, info, malformed, some (.leaf body)⟩ => by
    rw [ofAttribute, List.forall_mem_singleton]
    exact Nat.le_refl _
  | depth, ⟨nameIndex, info, malformed, none⟩ => by
    rw [ofAttribute, List.forall_mem_singleton]
    exact Nat.le_refl _

/-- No record of an attribute is indented less than its list. -/
theorem le_depth_ofAttributes {p : Pool} : ∀ {depth : Nat} {attributes : List Attribute},
    ∀ r ∈ ofAttributes p depth attributes, depth ≤ r.depth
  | depth, [] => by
    rw [ofAttributes]
    nofun
  | depth, a :: more => by
    rw [ofAttributes, List.forall_mem_append]
    exact ⟨le_depth_ofAttribute, le_depth_ofAttributes⟩

/-- The records of components are deeper than the record declaration. -/
theorem le_depth_ofComponents {p : Pool} : ∀ {depth : Nat}
    {components : List (Component Attribute)}, ∀ r ∈ ofComponents p depth components,
      depth + 1 ≤ r.depth
  | depth, [] => by
    rw [ofComponents]
    nofun
  | depth, ⟨nameIndex, descriptorIndex, attributes⟩ :: more => by
    rw [ofComponents, List.forall_mem_cons, List.forall_mem_append]
    exact ⟨Nat.le_refl _, fun r hr => Nat.le_of_succ_le (le_depth_ofAttributes r hr),
      le_depth_ofComponents⟩

end

/-- So what comes behind a component, other attributes or something less deep, ends it. -/
theorem ends_ofAttributes {p : Pool} {depth : Nat} {rest : List Record} (h : Ends depth rest)
    (attributes : List Attribute) : Ends depth (ofAttributes p depth attributes ++ rest) := by
  rcases attributes with _ | ⟨⟨nameIndex, info, malformed, _ | code | components | body⟩, more⟩
  · rw [ofAttributes, List.nil_append]
    exact h
  all_goals
    rw [ofAttributes, ofAttribute, List.cons_append, List.cons_append]
    exact ends_cons (Nat.le_refl depth) _

theorem ends_ofComponents {p : Pool} {depth : Nat} {rest : List Record} (h : Ends (depth + 1) rest)
    (components : List (Component Attribute)) :
    Ends (depth + 1) (ofComponents p depth components ++ rest) := by
  cases components with
  | nil =>
    rw [ofComponents, List.nil_append]
    exact h
  | cons c more =>
    rw [ofComponents, List.cons_append]
    exact ends_cons (Nat.le_refl _) _

/-- Nothing of components stays. -/
theorem outside_ofComponents {p : Pool} {depth : Nat} {rest : List Record}
    (h : Ends (depth + 1) rest) (components : List (Component Attribute)) :
    outside none (ofComponents p depth components ++ rest) = outside none rest := by
  induction components with
  | nil => rw [ofComponents, List.nil_append]
  | cons c more ih =>
    have hin : ∀ r ∈ ofAttributes p (depth + 2) c.attributes, depth + 1 < r.depth :=
      le_depth_ofAttributes
    rw [ofComponents, List.cons_append, outside_component rfl, List.append_assoc,
      outside_under hin, outside_of_ends (ends_ofComponents h more), ih]

end Lines

/-! ## Attributes -/

namespace Lines

@[simp] theorem word_ofHead (p : Pool) (depth : Nat) (a : Attribute) :
    (ofHead p depth a).word = "attribute" := rfl

@[simp] theorem word_ofCode (depth : Nat) (c : Code Attribute) : (ofCode depth c).word = "code" :=
  rfl

@[simp] theorem isShared_ofHead (p : Pool) (depth : Nat) (a : Attribute) :
    (ofHead p depth a).isShared = true := by
  simp [Record.isShared]

@[simp] theorem isShared_ofCode (depth : Nat) (c : Code Attribute) :
    (ofCode depth c).isShared = false := by
  simp +decide [Record.isShared]

end Lines

namespace Document

/-- The fields of an attribute say what its record says. -/
theorem headRecord_attributeFields {p : Pool} {a : Attribute} (h : a.Decoded p) (depth : Nat)
    (more : List (String × Json)) :
    headRecord depth (.object (attributeFields p a ++ more)) = Lines.ofHead p depth a := by
  simp [headRecord, attributeFields, Json.field, Json.asText, Json.asNumber, List.lookup_cons,
    Lines.ofHead, Lines.length, Attribute.dumpLength, h.payload]

/-- What a document says of an attribute with others in it: its own record, and then theirs, one
level deeper. -/
theorem attributeRecords_nested {p : Pool} {a : Attribute} (h : a.Decoded p) (depth : Nat)
    (items : List Json) :
    attributeRecords depth (.object (attributeFields p a ++ Json.optionalList "attributes" items))
      = Lines.ofHead p depth a :: itemRecords (depth + 1) items := by
  rw [attributeRecords, headRecord_attributeFields h]
  cases items with
  | nil => simp [attributeFields, nestedRecords, Json.optionalList, itemRecords]
  | cons item more =>
    simp [attributeFields, nestedRecords, Json.optionalList, listRecords]

/-- What it says of any other attribute. -/
theorem attributeRecords_flat {p : Pool} {a : Attribute} (h : a.Decoded p) (depth : Nat) :
    attributeRecords depth (.object (attributeFields p a)) = [Lines.ofHead p depth a] := by
  simpa [Json.optionalList, itemRecords] using attributeRecords_nested h depth []

end Document

namespace Lines

variable {p : Pool}

mutual

/-- **Under no component both dumps list the same attributes.** By induction on the attribute: code
lets both dumps in, a record declaration only the one in lines. -/
theorem filter_outside_ofAttribute : ∀ {depth : Nat} {a : Attribute} {rest : List Record},
    a.Decoded p → Ends depth rest →
    (outside none (ofAttribute p depth a ++ rest)).filter Record.isShared
      = Document.attributeRecords depth (Document.ofAttribute p a)
        ++ (outside none rest).filter Record.isShared
  | depth, ⟨nameIndex, info, malformed,
      some (.code ⟨maxStack, maxLocals, code, handlers, attributes⟩)⟩, rest, h, hrest => by
    rw [ofAttribute, List.cons_append, List.cons_append, outside_cons (by simp),
      outside_cons (by simp), List.filter_cons_of_pos (by simp), List.filter_cons_of_neg (by simp),
      filter_outside_ofAttributes (h.of_mem_code rfl) (hrest.mono (Nat.le_succ depth)),
      Document.ofAttribute, Document.attributeRecords_nested h, List.cons_append]
  | depth, ⟨nameIndex, info, malformed, some (.record components)⟩, rest, h, hrest => by
    rw [ofAttribute, List.cons_append, outside_cons (by simp), List.filter_cons_of_pos (by simp),
      outside_ofComponents (hrest.mono (Nat.le_succ depth)), Document.ofAttribute,
      Document.attributeRecords_flat h, List.singleton_append]
  | depth, ⟨nameIndex, info, malformed, some (.leaf body)⟩, rest, h, hrest => by
    rw [ofAttribute, List.singleton_append, outside_cons (by simp),
      List.filter_cons_of_pos (by simp), Document.ofAttribute, Document.attributeRecords_flat h,
      List.singleton_append]
  | depth, ⟨nameIndex, info, malformed, none⟩, rest, h, hrest => by
    rw [ofAttribute, List.singleton_append, outside_cons (by simp),
      List.filter_cons_of_pos (by simp), Document.ofAttribute, Document.attributeRecords_flat h,
      List.singleton_append]

/-- **Under no component both dumps list the same attributes**, with the same names, states and
lengths, in the same order and at the same depth. -/
theorem filter_outside_ofAttributes : ∀ {depth : Nat} {attributes : List Attribute}
    {rest : List Record}, (∀ a ∈ attributes, a.Decoded p) → Ends depth rest →
    (outside none (ofAttributes p depth attributes ++ rest)).filter Record.isShared
      = Document.itemRecords depth (Document.ofAttributes p attributes)
        ++ (outside none rest).filter Record.isShared
  | depth, [], rest, h, hrest => by
    rw [ofAttributes, Document.ofAttributes, Document.itemRecords, List.nil_append, List.nil_append]
  | depth, a :: more, rest, h, hrest => by
    obtain ⟨hhead, htail⟩ := List.forall_mem_cons.mp h
    rw [ofAttributes, List.append_assoc,
      filter_outside_ofAttribute hhead (ends_ofAttributes hrest more),
      filter_outside_ofAttributes htail hrest, Document.ofAttributes, Document.itemRecords,
      List.append_assoc]

end

end Lines

/-! ## Members and constants -/

namespace Document

/-- A list that is left out when it is empty is found empty. -/
theorem listRecords_optionalList (depth : Nat) (items : List Json) :
    listRecords depth (((Json.optionalList "attributes" items).lookup "attributes").getD .null)
      = itemRecords depth items := by
  cases items with
  | nil => simp [Json.optionalList, listRecords, itemRecords]
  | cons item more => simp [Json.optionalList, listRecords]

/-- The fields of a member say what its record says. -/
theorem memberRecords_ofMember (p : Pool) (word : String) (m : Member) :
    memberRecords word (ofMember p m)
      = ⟨0, m.parts p word⟩ :: itemRecords 1 (ofAttributes p m.attributes) := by
  have hattributes : (ofMember p m).field "attributes"
      = ((Json.optionalList "attributes" (ofAttributes p m.attributes)).lookup
        "attributes").getD .null := by
    simp [ofMember, Json.field, List.lookup_cons]
  rw [memberRecords, hattributes, listRecords_optionalList]
  simp [ofMember, Json.field, List.lookup_cons, Json.asText, Json.asNumber, Member.parts,
    Lines.flags]

/-- A constant has the same record in both dumps. -/
theorem entryRecord_ofEntry (p : Pool) (slot : PoolIndex × EntryId) :
    entryRecord (ofEntry p slot) = Lines.ofEntry p slot := by
  simp [entryRecord, ofEntry, Json.field, List.lookup_cons, Json.asText, Json.asNumber,
    Lines.ofEntry]

/-- The list of constants. -/
theorem items_ofPool (p : Pool) : (ofPool p).items = p.occupied.map (ofEntry p) := by
  unfold ofPool
  split
  · rename_i hempty
    rw [List.isEmpty_iff.mp hempty]
    rfl
  · rfl

end Document

namespace Lines

variable {p : Pool}

theorem ends_ofMembers {rest : List Record} (h : Ends 0 rest) (word : String)
    (members : List Member) : Ends 0 (members.flatMap (ofMember p word) ++ rest) := by
  cases members with
  | nil => exact h
  | cons m members => exact ends_cons (Nat.le_refl 0) _

theorem isShared_member {word : String} (hword : word ∈ ["field", "method"]) (m : Member) :
    (⟨0, m.parts p word⟩ : Record).isShared = true := by
  simp only [List.mem_cons, List.not_mem_nil, or_false] at hword
  rcases hword with rfl | rfl <;> simp [Record.isShared, Record.word, Member.parts]

/-- **Both dumps list the same members with the same attributes under no component.** -/
theorem filter_outside_ofMembers {word : String} (hword : word ∈ ["field", "method"])
    {members : List Member} {rest : List Record} (hrest : Ends 0 rest)
    (h : ∀ m ∈ members, ∀ a ∈ m.attributes, a.Decoded p) :
    (outside none (members.flatMap (ofMember p word) ++ rest)).filter Record.isShared
      = (members.map (Document.ofMember p)).flatMap (Document.memberRecords word)
        ++ (outside none rest).filter Record.isShared := by
  induction members with
  | nil => rfl
  | cons m members ih =>
    obtain ⟨hhead, htail⟩ := List.forall_mem_cons.mp h
    have hends := (ends_ofMembers (p := p) hrest word members).mono (Nat.zero_le 1)
    have hcomponent : (⟨0, m.parts p word⟩ : Record).word ≠ "component" := by
      change word ≠ "component"
      rintro rfl
      exact absurd hword (by decide)
    rw [List.flatMap_cons, ofMember, List.cons_append, List.cons_append, List.append_assoc,
      ← Member.parts, outside_cons hcomponent, List.filter_cons_of_pos (isShared_member hword m),
      filter_outside_ofAttributes hhead hends, ih htail, List.map_cons, List.flatMap_cons,
      Document.memberRecords_ofMember, List.cons_append, List.cons_append, List.append_assoc]

end Lines

/-! ## Classes -/

namespace Document

theorem lookup_optionalList_of_ne {key key' : String} (h : key ≠ key') (items : List Json) :
    (Json.optionalList key' items).lookup key = none := by
  cases items <;> simp [Json.optionalList, List.lookup_cons, beq_false_of_ne h]

theorem items_optionalList (key : String) (items : List Json) :
    (((Json.optionalList key items).lookup key).getD .null).items = items := by
  cases items <;> simp [Json.optionalList, Json.items]

/-- The records of a document are those of its four lists. -/
theorem records_ofClass (k : ClassFile) : records (ofClass k)
    = k.pool.occupied.map (Lines.ofEntry k.pool)
      ++ ((k.fields.map (ofMember k.pool)).flatMap (memberRecords "field")
        ++ ((k.methods.map (ofMember k.pool)).flatMap (memberRecords "method")
          ++ itemRecords 0 (ofAttributes k.pool k.attributes))) := by
  have hsuper : ∀ key : String, key ≠ "superClass" → (if k.superName = "" then []
      else [("superClass", Json.text k.superName)]).lookup key = none := by
    intro key hkey
    split <;> simp [List.lookup_cons, beq_false_of_ne hkey]
  have hpool : (ofClass k).field "constantPool" = ofPool k.pool := by
    simp [ofClass, Json.field, List.lookup_append, List.lookup_cons, hsuper,
      lookup_optionalList_of_ne]
  have hfields : ((ofClass k).field "fields").items = k.fields.map (ofMember k.pool) := by
    rw [← items_optionalList "fields" (k.fields.map (ofMember k.pool))]
    simp [ofClass, Json.field, List.lookup_append, List.lookup_cons, hsuper,
      lookup_optionalList_of_ne]
  have hmethods : ((ofClass k).field "methods").items = k.methods.map (ofMember k.pool) := by
    rw [← items_optionalList "methods" (k.methods.map (ofMember k.pool))]
    simp [ofClass, Json.field, List.lookup_append, List.lookup_cons, hsuper,
      lookup_optionalList_of_ne]
  have hattributes : listRecords 0 ((ofClass k).field "attributes")
      = itemRecords 0 (ofAttributes k.pool k.attributes) := by
    rw [← listRecords_optionalList]
    simp [ofClass, Json.field, List.lookup_append, List.lookup_cons, hsuper,
      lookup_optionalList_of_ne]
  rw [records, hpool, hfields, hmethods, hattributes, items_ofPool, List.map_map]
  exact congrArg (· ++ _) (List.map_congr_left fun slot _ => entryRecord_ofEntry k.pool slot)

end Document

namespace ClassFile

variable {k : ClassFile}

/-- The word of a class is about none of the things that both dumps list. -/
theorem sort_not_mem (k : ClassFile) :
    k.sort ∉ ["pool", "field", "method", "attribute", "component"] := by
  unfold sort
  split_ifs <;> decide

/-- The records of the header, the super class and the interfaces. -/
def outline (k : ClassFile) : List Record :=
  ⟨0, [k.sort, k.className, s!"{k.major.toNat}.{k.minor.toNat}", Lines.flags k.flags]⟩ ::
    ((if k.superName = "" then [] else [⟨0, ["super", k.superName]⟩])
      ++ k.interfaceNames.map fun name => ⟨0, ["implements", name]⟩)

/-- The dump in lines, cut where the document has its lists. -/
theorem ofClass_eq_outline (k : ClassFile) : Lines.ofClass k = k.outline
    ++ (k.pool.occupied.map (Lines.ofEntry k.pool)
      ++ (k.fields.flatMap (Lines.ofMember k.pool "field")
        ++ (k.methods.flatMap (Lines.ofMember k.pool "method")
          ++ Lines.ofAttributes k.pool 0 k.attributes))) := by
  simp [Lines.ofClass, outline]

/-- The outline has nothing that both dumps list. -/
theorem of_mem_outline {r : Record} (hr : r ∈ k.outline) :
    r.isShared = false ∧ r.word ≠ "component" := by
  rw [outline, List.mem_cons, List.mem_append, List.mem_map] at hr
  rcases hr with rfl | hr | ⟨name, -, rfl⟩
  · have hsort := sort_not_mem k
    simp only [List.mem_cons, List.not_mem_nil, or_false, not_or] at hsort
    simp [Record.isShared, Record.word, hsort]
  · split at hr
    · cases hr
    · rw [List.mem_singleton.mp hr]
      simp +decide [Record.isShared, Record.word]
  · simp +decide [Record.isShared, Record.word]

theorem of_mem_entries {r : Record} (hr : r ∈ k.pool.occupied.map (Lines.ofEntry k.pool)) :
    r.isShared = true ∧ r.word ≠ "component" := by
  obtain ⟨slot, -, rfl⟩ := List.mem_map.mp hr
  simp +decide [Record.isShared, Record.word, Lines.ofEntry]

/-- **The document lists what the lines say of everything that is in no component.** -/
theorem records_eq_filter_outside (h : k.Decoded) : Document.records (Document.ofClass k)
    = (Lines.outside none (Lines.ofClass k)).filter Record.isShared := by
  have hnone : Lines.Ends 0 [] := nofun
  have hattributes := Lines.ends_ofAttributes (p := k.pool) hnone k.attributes
  have hmethods := Lines.ends_ofMembers (p := k.pool) hattributes "method" k.methods
  rw [ofClass_eq_outline, Lines.outside_append fun r hr => (of_mem_outline hr).2,
    Lines.outside_append fun r hr => (of_mem_entries hr).2, List.filter_append, List.filter_append,
    List.filter_eq_nil_iff.mpr fun r hr => Bool.eq_false_iff.mp (of_mem_outline hr).1,
    List.filter_eq_self.mpr fun r hr => (of_mem_entries hr).1,
    ← List.append_nil (Lines.ofAttributes k.pool 0 k.attributes),
    Lines.filter_outside_ofMembers (by decide) hmethods h.fields,
    Lines.filter_outside_ofMembers (by decide) hattributes h.methods,
    Lines.filter_outside_ofAttributes h.attributes hnone, Document.records_ofClass, List.nil_append,
    Lines.outside, List.filter_nil, List.append_nil]

end ClassFile

/-! ## What a document leaves out -/

namespace Attribute

mutual

/-- The attributes in components at any depth, with those in them. -/
def hidden : Attribute → List Attribute
  | ⟨_, _, _, some (.code ⟨_, _, _, _, attributes⟩)⟩ => hiddenAll attributes
  | ⟨_, _, _, some (.record components)⟩ => withinComponents components
  | ⟨_, _, _, some (.leaf _)⟩ => []
  | ⟨_, _, _, none⟩ => []

/-- The attributes in components at any depth, with those in them. -/
def hiddenAll : List Attribute → List Attribute
  | [] => []
  | a :: more => hidden a ++ hiddenAll more

end

theorem withinAll_eq_nil {attributes : List Attribute} :
    withinAll attributes = [] ↔ attributes = [] := by
  rcases attributes with _ | ⟨⟨nameIndex, info, malformed, _ | code | components | body⟩, more⟩ <;>
    simp [withinAll, within]

theorem withinComponents_eq_nil {components : List (Component Attribute)} :
    withinComponents components = [] ↔ ∀ c ∈ components, c.attributes = [] := by
  induction components with
  | nil => simp [withinComponents]
  | cons c more ih =>
    rw [withinComponents, List.append_eq_nil_iff, withinAll_eq_nil, ih, List.forall_mem_cons]

mutual

/-- A document leaves nothing of an attribute out when no record component in it has attributes. -/
theorem hidden_eq_nil : ∀ {a : Attribute}, a.hidden = [] ↔
    ∀ b ∈ a.within, ∀ c ∈ b.components?.getD [], c.attributes = []
  | ⟨nameIndex, info, malformed,
      some (.code ⟨maxStack, maxLocals, code, handlers, attributes⟩)⟩ => by
    rw [hidden, within, List.forall_mem_cons, hiddenAll_eq_nil]
    exact (and_iff_right (by simp [components?])).symm
  | ⟨nameIndex, info, malformed, some (.record components)⟩ => by
    rw [hidden, within, List.forall_mem_cons]
    constructor
    · intro h
      refine ⟨withinComponents_eq_nil.mp h, ?_⟩
      rw [h]
      nofun
    · rintro ⟨h, -⟩
      exact withinComponents_eq_nil.mpr h
  | ⟨nameIndex, info, malformed, some (.leaf body)⟩ => by
    simp [hidden, within, components?]
  | ⟨nameIndex, info, malformed, none⟩ => by
    simp [hidden, within, components?]

/-- Nothing is hidden when no component has attributes. -/
theorem hiddenAll_eq_nil : ∀ {attributes : List Attribute}, hiddenAll attributes = [] ↔
    ∀ b ∈ withinAll attributes, ∀ c ∈ b.components?.getD [], c.attributes = []
  | [] => by simp [hiddenAll, withinAll]
  | a :: more => by
    rw [hiddenAll, withinAll, List.append_eq_nil_iff, List.forall_mem_append, hidden_eq_nil,
      hiddenAll_eq_nil]

end

mutual

/-- What a document lists of an attribute and what it leaves out make all that there is. -/
theorem length_attributeRecords {p : Pool} : ∀ (depth : Nat) {a : Attribute}, a.Decoded p →
    (Document.attributeRecords depth (Document.ofAttribute p a)).length + a.hidden.length
      = a.within.length
  | depth, ⟨nameIndex, info, malformed,
      some (.code ⟨maxStack, maxLocals, code, handlers, attributes⟩)⟩, h => by
    rw [Document.ofAttribute, Document.attributeRecords_nested h, hidden, within, List.length_cons,
      List.length_cons, ← length_itemRecords (depth + 1) (h.of_mem_code rfl),
      Nat.add_right_comm]
  | depth, ⟨nameIndex, info, malformed, some (.record components)⟩, h => by
    rw [Document.ofAttribute, Document.attributeRecords_flat h, hidden, within, List.length_cons,
      List.length_cons, List.length_nil, Nat.zero_add, Nat.add_comm]
  | depth, ⟨nameIndex, info, malformed, some (.leaf body)⟩, h => by
    rw [Document.ofAttribute, Document.attributeRecords_flat h, hidden, within]
    rfl
  | depth, ⟨nameIndex, info, malformed, none⟩, h => by
    rw [Document.ofAttribute, Document.attributeRecords_flat h, hidden, within]
    rfl

/-- An attribute is listed in a document or hidden from it. -/
theorem length_itemRecords {p : Pool} : ∀ (depth : Nat) {attributes : List Attribute},
    (∀ a ∈ attributes, a.Decoded p) →
    (Document.itemRecords depth (Document.ofAttributes p attributes)).length
      + (hiddenAll attributes).length = (withinAll attributes).length
  | depth, [], h => by
    rw [Document.ofAttributes, Document.itemRecords, hiddenAll, withinAll]
    rfl
  | depth, a :: more, h => by
    obtain ⟨hhead, htail⟩ := List.forall_mem_cons.mp h
    have ha := length_attributeRecords depth hhead
    have hmore := length_itemRecords depth htail
    rw [Document.ofAttributes, Document.itemRecords, hiddenAll, withinAll, List.length_append,
      List.length_append, List.length_append]
    omega

end

end Attribute

namespace Lines

/-- Of the records of an attribute, its code body and its components both dumps may have one. -/
theorem countP_ownParts (p : Pool) (a : Attribute) :
    (ownParts p a).countP (fun parts => Record.isShared ⟨0, parts⟩) = 1 := by
  have hhead : Record.isShared ⟨0, (ofHead p 0 a).parts⟩ = true := isShared_ofHead p 0 a
  rw [ownParts, List.countP_cons, if_pos hhead, Nat.add_eq_right, List.countP_eq_zero,
    List.forall_mem_append]
  constructor
  · intro parts hparts
    obtain ⟨c, -, rfl⟩ := List.mem_map.mp hparts
    exact Bool.eq_false_iff.mp (isShared_ofCode 0 c)
  · intro parts hparts
    obtain ⟨c, -, rfl⟩ := List.mem_map.mp hparts
    simp +decide [Record.isShared, Record.word, componentParts]

/-- Both dumps may have a record for each attribute at any depth, and for nothing in between. -/
theorem countP_ofAttributes (p : Pool) (depth : Nat) (attributes : List Attribute) :
    (ofAttributes p depth attributes).countP Record.isShared
      = (Attribute.withinAll attributes).length := by
  have hcount := (perm_ofAttributes p depth attributes).countP_eq
    (fun parts => Record.isShared ⟨0, parts⟩)
  have hone : List.countP (fun parts => Record.isShared ⟨0, parts⟩) ∘ ownParts p = fun _ => 1 :=
    funext fun a => countP_ownParts p a
  rw [List.countP_map, List.countP_flatMap, hone, List.map_const', List.sum_replicate_nat,
    Nat.mul_one] at hcount
  exact hcount

/-- The attributes of members are listed in a document or hidden from it. -/
theorem countP_ofMembers {p : Pool} {word : String} (hword : word ∈ ["field", "method"])
    {members : List Member} (h : ∀ m ∈ members, ∀ a ∈ m.attributes, a.Decoded p) :
    (members.flatMap (ofMember p word)).countP Record.isShared
      = ((members.map (Document.ofMember p)).flatMap (Document.memberRecords word)).length
        + (members.flatMap fun m => Attribute.hiddenAll m.attributes).length := by
  induction members with
  | nil => rfl
  | cons m members ih =>
    obtain ⟨hhead, htail⟩ := List.forall_mem_cons.mp h
    have hm := Attribute.length_itemRecords 1 hhead
    simp only [List.flatMap_cons, List.map_cons, List.countP_append, List.length_append, ih htail,
      ofMember, Document.memberRecords_ofMember, List.length_cons]
    rw [← Member.parts, List.countP_cons_of_pos (isShared_member hword m), countP_ofAttributes]
    omega

end Lines

namespace ClassFile

variable {k : ClassFile}

/-- The attributes in the record components of a class, at every depth. -/
def hiddenAttributes (k : ClassFile) : List Attribute :=
  (k.fields.flatMap fun f => Attribute.hiddenAll f.attributes)
    ++ ((k.methods.flatMap fun m => Attribute.hiddenAll m.attributes)
      ++ Attribute.hiddenAll k.attributes)

/-- The same for a whole class. -/
theorem hiddenAttributes_eq_nil (k : ClassFile) :
    k.hiddenAttributes = [] ↔ ∀ c ∈ k.allComponents, c.attributes = [] := by
  simp only [hiddenAttributes, allComponents, allAttributes, Member.allAttributes,
    Attribute.hiddenAll_eq_nil, List.append_eq_nil_iff, List.flatMap_eq_nil_iff,
    List.flatMap_append, List.flatMap_assoc, List.forall_mem_append, List.forall_mem_flatMap]

/-- **The document lacks as many records as there are attributes in components.** -/
theorem countP_isShared (h : k.Decoded) : (Lines.ofClass k).countP Record.isShared
    = (Document.records (Document.ofClass k)).length + k.hiddenAttributes.length := by
  have houtline : k.outline.countP Record.isShared = 0 :=
    List.countP_eq_zero.mpr fun r hr => Bool.eq_false_iff.mp (of_mem_outline hr).1
  have hentries : (k.pool.occupied.map (Lines.ofEntry k.pool)).countP Record.isShared
      = (k.pool.occupied.map (Lines.ofEntry k.pool)).length :=
    List.countP_eq_length.mpr fun r hr => (of_mem_entries hr).1
  have hfields := Lines.countP_ofMembers (by decide : "field" ∈ ["field", "method"]) h.fields
  have hmethods := Lines.countP_ofMembers (by decide : "method" ∈ ["field", "method"]) h.methods
  have hattributes := Attribute.length_itemRecords 0 h.attributes
  simp only [ofClass_eq_outline, Document.records_ofClass, hiddenAttributes, List.countP_append,
    List.length_append, houtline, hentries, hfields, hmethods, Lines.countP_ofAttributes,
    ← hattributes]
  omega

/-- **A document says what the lines say outside components, and all that they say exactly when no
component has attributes.** -/
theorem documentDump_lists {data : Bytes} (h : parse data = .ok k) :
    Document.records (Document.ofClass k)
        = (Lines.outside none (Lines.ofClass k)).filter Record.isShared ∧
      (Document.records (Document.ofClass k) = (Lines.ofClass k).filter Record.isShared ↔
        ∀ c ∈ k.allComponents, c.attributes = []) := by
  obtain ⟨-, -, hdecoded⟩ := parse_sound h
  have hrecords := records_eq_filter_outside hdecoded
  have hcount := countP_isShared hdecoded
  refine ⟨hrecords, ?_⟩
  rw [← hiddenAttributes_eq_nil, ← List.length_eq_zero_iff]
  constructor
  · intro heq
    rw [List.countP_eq_length_filter, ← heq] at hcount
    omega
  · intro hnone
    have hsublist := (Lines.outside_sublist none (Lines.ofClass k)).filter Record.isShared
    rw [← hrecords] at hsublist
    refine hsublist.eq_of_length ?_
    rw [← List.countP_eq_length_filter, hcount, hnone, Nat.add_zero]

/-- A record with one component, which is deprecated. -/
def deprecatedComponentClass : Bytes :=
  [0xCA, 0xFE, 0xBA, 0xBE, 0, 0, 0, 60, 0, 7, 1, 0, 1, 82, 7, 0, 1,
    1, 0, 6, 82, 101, 99, 111, 114, 100, 1, 0, 1, 120, 1, 0, 1, 73,
    1, 0, 10, 68, 101, 112, 114, 101, 99, 97, 116, 101, 100,
    0, 0x21, 0, 2, 0, 0, 0, 0, 0, 0, 0, 0, 0, 1,
    0, 3, 0, 0, 0, 14, 0, 1, 0, 4, 0, 5, 0, 1, 0, 6, 0, 0, 0, 0]

/-- The class can be read, and one attribute of it is hidden. -/
theorem parse_deprecatedComponentClass :
    ∃ k, parse deprecatedComponentClass = .ok k ∧ k.hiddenAttributes.length = 1 :=
  ⟨_, rfl, by decide +kernel⟩

/-- The deprecation is in one component, and so in one dump alone. -/
theorem documentDump_lists_deprecatedComponent : ∃ k, parse deprecatedComponentClass = .ok k ∧
    k.hiddenAttributes.length = 1 ∧
    Document.records (Document.ofClass k)
      = (Lines.outside none (Lines.ofClass k)).filter Record.isShared ∧
    (Document.records (Document.ofClass k) = (Lines.ofClass k).filter Record.isShared ↔
      ∀ c ∈ k.allComponents, c.attributes = []) := by
  obtain ⟨k, hk, hhidden⟩ := parse_deprecatedComponentClass
  exact ⟨k, hk, hhidden, documentDump_lists hk⟩

/-- The lines list the deprecation, and the document does not. -/
theorem documentDump_lacks_deprecation : ∃ k, parse deprecatedComponentClass = .ok k ∧
    Document.records (Document.ofClass k) ≠ (Lines.ofClass k).filter Record.isShared := by
  obtain ⟨k, hk, hhidden⟩ := parse_deprecatedComponentClass
  refine ⟨k, hk, fun heq => ?_⟩
  have hcount := countP_isShared (parse_sound hk).2.2
  rw [List.countP_eq_length_filter, ← heq, hhidden] at hcount
  omega

end ClassFile

end ClassPrune
