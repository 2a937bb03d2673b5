import ClassPrune.Class.Holder
import Mathlib.Data.List.Basic

/-!
# Bodies with attributes of their own

- `Attribute.body_of_code?`, `Attribute.body_of_components?`: the code and the components of an
  attribute are its body.
- `Attribute.mapCode_of_some`, `Attribute.mapComponents_of_some`: an edit changes the body and
  nothing else; attributes without such a body stay as they are.
- `ClassFile.map_filter_holders`: a walk over holders as a walk over what they are in.
- `ClassFile.sections_eq`: so the sections of a class are the lists of its holders.

A class is walked over in two ways. The walk over holders names each of them by numbers, which is
what statements about a class need; the walks of the program go down through members and bodies,
which is what inductions need. The lemmas of this module go from one to the other.
-/

namespace ClassPrune

namespace Attribute

variable {a : Attribute}

theorem body_of_code? {c : Code Attribute} (h : a.code? = some c) : a.body = some (.code c) := by
  unfold code? at h
  split at h
  · rename_i c' hbody
    cases h
    exact hbody
  · cases h

theorem code?_of_body {c : Code Attribute} (h : a.body = some (.code c)) : a.code? = some c := by
  rw [code?, h]

theorem body_of_components? {components : List (Component Attribute)}
    (h : a.components? = some components) : a.body = some (.record components) := by
  unfold components? at h
  split at h
  · rename_i components' hbody
    cases h
    exact hbody
  · cases h

/-! ## Edits -/

/-- An edit of the code does nothing to an attribute without code. -/
theorem mapCode_of_none (h : a.code? = none) (f : Code Attribute → Code Attribute) :
    a.mapCode f = a := by
  unfold mapCode
  split
  · rename_i c hbody
    rw [code?_of_body hbody] at h
    cases h
  · rfl

/-- An edit of the code replaces the typed form, and leaves the name and the bytes. -/
theorem mapCode_of_some {c : Code Attribute} (h : a.code? = some c)
    (f : Code Attribute → Code Attribute) :
    a.mapCode f = { a with body := some (.code (f c)) } := by
  rw [mapCode, body_of_code? h]

theorem mapComponents_of_none (h : a.components? = none)
    (f : List (Component Attribute) → List (Component Attribute)) : a.mapComponents f = a := by
  unfold mapComponents
  split
  · rename_i components hbody
    rw [components?, hbody] at h
    cases h
  · rfl

theorem mapComponents_of_some {components : List (Component Attribute)}
    (h : a.components? = some components)
    (f : List (Component Attribute) → List (Component Attribute)) :
    a.mapComponents f = { a with body := some (.record (f components)) } := by
  rw [mapComponents, body_of_components? h]

@[simp] theorem nameIndex_mapCode (a : Attribute) (f : Code Attribute → Code Attribute) :
    (a.mapCode f).nameIndex = a.nameIndex := by
  cases hc : a.code? with
  | none => rw [mapCode_of_none hc]
  | some c => rw [mapCode_of_some hc]

@[simp] theorem nameIndex_mapComponents (a : Attribute)
    (f : List (Component Attribute) → List (Component Attribute)) :
    (a.mapComponents f).nameIndex = a.nameIndex := by
  cases hc : a.components? with
  | none => rw [mapComponents_of_none hc]
  | some components => rw [mapComponents_of_some hc]

/-- The code after an edit is the edited code. -/
theorem code?_mapCode (a : Attribute) (f : Code Attribute → Code Attribute) :
    (a.mapCode f).code? = a.code?.map f := by
  cases hc : a.code? with
  | none =>
    rw [mapCode_of_none hc, hc]
    rfl
  | some c =>
    rw [mapCode_of_some hc]
    rfl

theorem components?_mapComponents (a : Attribute)
    (f : List (Component Attribute) → List (Component Attribute)) :
    (a.mapComponents f).components? = a.components?.map f := by
  cases hc : a.components? with
  | none =>
    rw [mapComponents_of_none hc, hc]
    rfl
  | some components =>
    rw [mapComponents_of_some hc]
    rfl

/-- Two edits of the code, one after the other, are one. -/
theorem mapCode_mapCode (a : Attribute) (f g : Code Attribute → Code Attribute) :
    (a.mapCode f).mapCode g = a.mapCode fun c => g (f c) := by
  cases hc : a.code? with
  | none => rw [mapCode_of_none hc, mapCode_of_none hc, mapCode_of_none hc]
  | some c =>
    have hcode : (a.mapCode f).code? = some (f c) := by
      rw [code?_mapCode, hc]
      rfl
    rw [mapCode_of_some hcode, mapCode_of_some hc, mapCode_of_some hc]

/-- An edit that leaves the code as it is does nothing. -/
theorem mapCode_eq_self {f : Code Attribute → Code Attribute}
    (h : ∀ c, a.code? = some c → f c = c) : a.mapCode f = a := by
  cases hc : a.code? with
  | none => exact mapCode_of_none hc f
  | some c =>
    rw [mapCode_of_some hc, h c hc, ← body_of_code? hc]
    cases a
    rfl

theorem mapComponents_eq_self {f : List (Component Attribute) → List (Component Attribute)}
    (h : ∀ components, a.components? = some components → f components = components) :
    a.mapComponents f = a := by
  cases hc : a.components? with
  | none => exact mapComponents_of_none hc f
  | some components =>
    rw [mapComponents_of_some hc, h components hc, ← body_of_components? hc]
    cases a
    rfl

end Attribute

/-! ## Holders in order -/

/-- Members with their numbers are the members, one by one. -/
theorem flatMap_zipIdx {α β : Type} {l : List α} {f : α × Nat → List β} {g : α → List β}
    (h : ∀ a i, l[i]? = some a → f (a, i) = g a) : l.zipIdx.flatMap f = l.flatMap g := by
  calc l.zipIdx.flatMap f = l.zipIdx.flatMap fun p => g p.1 :=
        List.flatMap_congr fun p hp => h p.1 p.2 (List.mem_zipIdx_iff_getElem?.mp hp)
    _ = (l.zipIdx.map Prod.fst).flatMap g := (List.flatMap_map Prod.fst g _).symm
    _ = l.flatMap g := by rw [List.zipIdx_map_fst]

/-- A walk over numbered members that does not look at the numbers. -/
theorem filterMap_zipIdx {α β : Type} {l : List α} {f : α × Nat → Option β} {g : α → Option β}
    (h : ∀ a i, l[i]? = some a → f (a, i) = g a) : l.zipIdx.filterMap f = l.filterMap g := by
  rw [List.filterMap_eq_flatMap_toList, List.filterMap_eq_flatMap_toList]
  exact flatMap_zipIdx fun a i ha => by rw [h a i ha]

/-- A walk over the numbers of a list is a walk over its members. -/
theorem map_range_getElem? {α β : Type} {l : List α} {f : Nat → β} {g : α → β}
    (h : ∀ a i, l[i]? = some a → f i = g a) : (List.range l.length).map f = l.map g := by
  refine List.ext_getElem (by simp) fun i hi _ => ?_
  rw [List.length_map, List.length_range] at hi
  simpa using h l[i] i (List.getElem?_eq_getElem hi)

theorem flatMap_filter {α β : Type} (l : List α) (p : α → Bool) (f : α → List β) :
    (l.filter p).flatMap f = l.flatMap fun a => if p a then f a else [] := by
  induction l with
  | nil => rfl
  | cons a l ih => by_cases h : p a <;> simp [h, ih]

namespace ClassFile

section Walk

variable {β : Type} {p : HolderRef → Bool} {F : HolderRef → β}

/-- Whether a code body passes may depend on the attribute that it is in. -/
theorem map_filter_codeRefs {m : Member} {i : Nat} {onCode : Code Attribute → β}
    {passes : Attribute → Bool} (h : ∀ a j, m.attributes[j]? = some a → ∀ c, a.code? = some c →
      p (.code i j) = passes a ∧ F (.code i j) = onCode c) :
    ((codeRefs i m).filter p).map F
      = (m.attributes.filter passes).filterMap fun a => a.code?.map onCode := by
  rw [codeRefs, List.filter_filterMap, List.map_filterMap, List.filterMap_filter]
  refine filterMap_zipIdx fun a j ha => ?_
  cases hc : a.code? with
  | none => simp [hc]
  | some c =>
    obtain ⟨hpass, hvalue⟩ := h a j ha c hc
    by_cases hpasses : passes a = true <;> simp [hc, hpass, hvalue, hpasses]

/-- The components of a record pass together. -/
theorem map_filter_componentRefs {a : Attribute} {i : Nat} {onComponent : Component Attribute → β}
    {passes : Bool} (h : ∀ components, a.components? = some components → ∀ c j,
      components[j]? = some c → p (.component i j) = passes ∧ F (.component i j) = onComponent c) :
    ((componentRefs i a).filter p).map F
      = if passes then (a.components?.getD []).map onComponent else [] := by
  cases hc : a.components? with
  | none => simp [componentRefs, hc]
  | some components =>
    have hsame : ∀ ref ∈ (List.range components.length).map (HolderRef.component i),
        p ref = passes := by
      intro ref href
      obtain ⟨j, hj, rfl⟩ := List.mem_map.mp href
      exact (h components hc _ j (List.getElem?_eq_getElem (List.mem_range.mp hj))).1
    simp only [componentRefs, hc, List.filter_congr hsame, Option.getD_some]
    cases passes with
    | false => simp
    | true =>
      simp only [List.filter_true, List.map_map, if_true]
      exact map_range_getElem? fun c j hj => (h components hc c j hj).2

/-- The methods pass, each with those of its code bodies that do. -/
theorem map_filter_methodRefs {methods : List Member} {onMethod : Member → β}
    {onCode : Member → Code Attribute → β} {passes : Member → Attribute → Bool}
    (hmethod : ∀ m i, methods[i]? = some m → p (.method i) = true ∧ F (.method i) = onMethod m)
    (hcode : ∀ m i, methods[i]? = some m → ∀ a j, m.attributes[j]? = some a →
      ∀ c, a.code? = some c → p (.code i j) = passes m a ∧ F (.code i j) = onCode m c) :
    ((methods.zipIdx.flatMap fun (m, i) => .method i :: codeRefs i m).filter p).map F
      = methods.flatMap fun m => onMethod m ::
        (m.attributes.filter (passes m)).filterMap fun a => a.code?.map (onCode m) := by
  rw [List.filter_flatMap, List.map_flatMap]
  refine flatMap_zipIdx fun m i hm => ?_
  obtain ⟨hpass, hvalue⟩ := hmethod m i hm
  rw [← map_filter_codeRefs (hcode m i hm), ← hvalue]
  simp [hpass]

/-- A record passes with all its components. -/
theorem map_filter_recordRefs {attributes : List Attribute} {onComponent : Component Attribute → β}
    {passes : Attribute → Bool}
    (h : ∀ a i, attributes[i]? = some a → ∀ components, a.components? = some components →
      ∀ c j, components[j]? = some c →
        p (.component i j) = passes a ∧ F (.component i j) = onComponent c) :
    ((attributes.zipIdx.flatMap fun (a, i) => componentRefs i a).filter p).map F
      = (attributes.filter passes).flatMap fun a =>
        (a.components?.getD []).map onComponent := by
  rw [List.filter_flatMap, List.map_flatMap, flatMap_filter]
  exact flatMap_zipIdx fun a i ha => map_filter_componentRefs (h a i ha)

/-- **A walk over the holders that pass a test** goes over the class, its fields, its methods, each
with those of its code bodies that pass, and the components of the records that pass. -/
theorem map_filter_holders (k : ClassFile) {onField onMethod : Member → β}
    {onCode : Member → Code Attribute → β} {onComponent : Component Attribute → β}
    {passes : Member → Attribute → Bool} {passesOnClass : Attribute → Bool}
    (hclass : p .onClass = true)
    (hfield : ∀ f i, k.fields[i]? = some f → p (.field i) = true ∧ F (.field i) = onField f)
    (hmethod : ∀ m i, k.methods[i]? = some m → p (.method i) = true ∧ F (.method i) = onMethod m)
    (hcode : ∀ m i, k.methods[i]? = some m → ∀ a j, m.attributes[j]? = some a →
      ∀ c, a.code? = some c → p (.code i j) = passes m a ∧ F (.code i j) = onCode m c)
    (hcomponent : ∀ a i, k.attributes[i]? = some a → ∀ components, a.components? = some components →
      ∀ c j, components[j]? = some c →
        p (.component i j) = passesOnClass a ∧ F (.component i j) = onComponent c) :
    (k.holders.filter p).map F = F .onClass :: (k.fields.map onField
      ++ k.methods.flatMap (fun m => onMethod m ::
        (m.attributes.filter (passes m)).filterMap fun a => a.code?.map (onCode m))
      ++ (k.attributes.filter passesOnClass).flatMap fun a =>
        (a.components?.getD []).map onComponent) := by
  have hfields : (((List.range k.fields.length).map HolderRef.field).filter p).map F
      = k.fields.map onField := by
    have hall : ∀ ref ∈ (List.range k.fields.length).map HolderRef.field, p ref = true := by
      intro ref href
      obtain ⟨i, hi, rfl⟩ := List.mem_map.mp href
      exact (hfield _ i (List.getElem?_eq_getElem (List.mem_range.mp hi))).1
    rw [List.filter_eq_self.mpr hall, List.map_map]
    exact map_range_getElem? fun f i hf => (hfield f i hf).2
  rw [holders, List.filter_cons_of_pos hclass, List.map_cons, List.filter_append,
    List.filter_append, List.map_append, List.map_append, hfields,
    map_filter_methodRefs hmethod hcode, map_filter_recordRefs hcomponent]

end Walk

/-! ## Lists of holders -/

/-- A holder is found by its number, and its attributes are those of the field with this number. -/
theorem attributesAt_field {k : ClassFile} {f : Member} {i : Nat} (hf : k.fields[i]? = some f) :
    k.attributesAt (.field i) = f.attributes := by
  simp [attributesAt, hf]

theorem attributesAt_method {k : ClassFile} {m : Member} {i : Nat} (hm : k.methods[i]? = some m) :
    k.attributesAt (.method i) = m.attributes := by
  simp [attributesAt, hm]

/-- The code of method number `i` is held by attribute number `j` of the method. -/
theorem attributesAt_code {k : ClassFile} {m : Member} {a : Attribute} {c : Code Attribute}
    {i j : Nat} (hm : k.methods[i]? = some m) (ha : m.attributes[j]? = some a)
    (hc : a.code? = some c) : k.attributesAt (.code i j) = c.attributes := by
  simp [attributesAt, hm, ha, hc]

/-- A record component is found the same way, by the attribute of the class and its own number. -/
theorem attributesAt_component {k : ClassFile} {a : Attribute}
    {components : List (Component Attribute)} {c : Component Attribute} {i j : Nat}
    (ha : k.attributes[i]? = some a) (hcomponents : a.components? = some components)
    (hc : components[j]? = some c) : k.attributesAt (.component i j) = c.attributes := by
  simp [attributesAt, ha, hcomponents, hc]

/-- The attributes of one holder, with the kind of the holder. -/
def sectionAt (k : ClassFile) (h : HolderRef) : Context × List Attribute :=
  (h.context, k.attributesAt h)

/-- **The sections of a class are the lists of its holders**, one by one in the same order. -/
theorem sections_eq (k : ClassFile) : k.sections = k.holders.map k.sectionAt := by
  have hwalk : (k.holders.filter fun _ => true).map k.sectionAt
      = (.onClass, k.attributes) :: (k.fields.map (fun f => (.onField, f.attributes))
        ++ k.methods.flatMap (fun m => (.onMethod, m.attributes) ::
          (m.attributes.filter fun _ => true).filterMap fun a =>
            a.code?.map fun c => (.onCode, c.attributes))
        ++ (k.attributes.filter fun _ => true).flatMap fun a =>
          (a.components?.getD []).map fun c => (.onComponent, c.attributes)) := by
    refine k.map_filter_holders rfl ?_ ?_ ?_ ?_
    · intro f i hf
      exact ⟨rfl, by rw [sectionAt, attributesAt_field hf]; rfl⟩
    · intro m i hm
      exact ⟨rfl, by rw [sectionAt, attributesAt_method hm]; rfl⟩
    · intro m i hm a j ha c hc
      exact ⟨rfl, by rw [sectionAt, attributesAt_code hm ha hc]; rfl⟩
    · intro a i ha components hcomponents c j hc
      exact ⟨rfl, by rw [sectionAt, attributesAt_component ha hcomponents hc]; rfl⟩
  simp only [List.filter_true] at hwalk
  exact hwalk.symm

end ClassFile

end ClassPrune
