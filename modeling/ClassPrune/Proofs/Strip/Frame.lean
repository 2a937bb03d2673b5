import ClassPrune.Proofs.Strip.Settled

/-!
# What stripping leaves as it is

The lists of a stripped class are described holder by holder in terms of the class that was read.
Every verdict is one on the class with its code in standard form and with its own pool, so that it
can depend neither on the attributes beside it nor on the order of the walk.

- `Inspector.judge`: the verdict on an attribute of a holder.
- `Inspector.survivors`: the holders that are left. A code body or a record component goes with the
  attribute that it is in.
- `Inspector.Kept`: what is the same in an attribute that stays. Only code and records may differ,
  and only in what is nested in them and in reserved opcodes.
- `ClassFile.sections_strip`: the lists of the stripped class are those of the surviving holders,
  filtered by the verdicts.
- `ClassFile.strip_frame`: everything that stripping leaves as it is.
-/

namespace ClassPrune

/-! ## Kinds of body -/

namespace Attribute.Decoded

variable {pool : Pool} {a : Attribute}

/-- Code is found under its own name only, because decoded bodies are of the kind of the name. -/
theorem code?_eq_none (h : a.Decoded pool) (hkind : a.kind? pool ≠ some .code) :
    a.code? = none := by
  cases hc : a.code? with
  | none => rfl
  | some c => exact absurd (h.kind?_of_body (body_of_code? hc)) hkind

theorem components?_eq_none (h : a.Decoded pool) (hkind : a.kind? pool ≠ some .record) :
    a.components? = none := by
  cases hc : a.components? with
  | none => rfl
  | some components => exact absurd (h.kind?_of_body (body_of_components? hc)) hkind

/-- And under that name there is no other body. -/
theorem exists_code (h : a.Decoded pool) (hkind : a.kind? pool = some .code)
    {body : Body Attribute} (hbody : a.body = some body) : ∃ c, a.code? = some c := by
  rw [h.kind?_of_body hbody] at hkind
  cases body with
  | leaf leaf => exact absurd (Option.some.inj hkind) leaf.kind_ne.1
  | code c => exact ⟨c, code?_of_body hbody⟩
  | record components => cases hkind

theorem exists_components (h : a.Decoded pool) (hkind : a.kind? pool = some .record)
    {body : Body Attribute} (hbody : a.body = some body) :
    ∃ components, a.components? = some components := by
  rw [h.kind?_of_body hbody] at hkind
  cases body with
  | leaf leaf => exact absurd (Option.some.inj hkind) leaf.kind_ne.2
  | code c => cases hkind
  | record components =>
    refine ⟨components, ?_⟩
    rw [components?, hbody]

end Attribute.Decoded

theorem ClassFile.kind?_of_isBootstrapMethods {pool : Pool} {a : Attribute}
    (h : isBootstrapMethods pool a = true) : a.kind? pool = some .bootstrapMethods := by
  have hname : a.name pool = AttributeKind.bootstrapMethods.name := of_decide_eq_true h
  rw [Attribute.kind?, hname]
  decide

/-! ## Verdicts, holder by holder -/

/-- A holder as verdicts see it. -/
def ClassFile.siteAt (k : ClassFile) : HolderRef → Site
  | .onClass => .ofClass
  | .field _ => .ofField
  | .method i => ⟨.onMethod, k.methods[i]?⟩
  | .code i _ => ⟨.onCode, k.methods[i]?⟩
  | .component _ _ => .ofComponent

namespace Inspector

/-- An attribute of a holder in the class with its code in standard form. -/
def standardAt (i : Inspector) : HolderRef → Attribute → Attribute
  | .method _, a => a.standardize i.decoder
  | _, a => a

/-- The verdict on an attribute of a holder, taken in the class with its code in standard form. -/
def judge (i : Inspector) (k : ClassFile) (h : HolderRef) (a : Attribute) : Option Violation :=
  i.verdict? ((k.standardize i.decoder).siteAt h) (i.standardAt h a)

/-- Whether a holder is left: what is in an attribute goes with the attribute. -/
def survives (i : Inspector) (k : ClassFile) : HolderRef → Bool
  | .code n j => (k.attributesAt (.method n))[j]?.any fun a => (i.judge k (.method n) a).isNone
  | .component n _ => (k.attributesAt .onClass)[n]?.any fun a => (i.judge k .onClass a).isNone
  | _ => true

/-- The holders that are left, in the order of the class that was read. -/
def survivors (i : Inspector) (k : ClassFile) : List HolderRef :=
  k.holders.filter (i.survives k)

/-- How reports call a holder. -/
def holderLabel (i : Inspector) (k : ClassFile) : HolderRef → String
  | .onClass => s!"class {k.className}"
  | .field n => (k.fields[n]?).elim "" fun f => s!"field {f.name i.pool}"
  | .method n => (k.methods[n]?).elim "" i.methodLabel
  | .code n _ => (k.methods[n]?).elim "" fun m => s!"code of {i.methodLabel m}"
  | .component n j =>
    (((k.attributes[n]?).bind Attribute.components?).bind fun components => components[j]?).elim ""
      fun c => s!"record component {i.pool.utf8 c.nameIndex}"

variable {i : Inspector} {k : ClassFile} {a : Attribute}

theorem methods_standardize (d : Decoder) (k : ClassFile) :
    (k.standardize d).methods = k.methods.map (standardMethod d) := rfl

/-- Putting code in standard form changes what the verdict sees of a method only in the attributes
of the method. -/
theorem siteAt_method {m : Member} {n : Nat} (hm : k.methods[n]? = some m) (d : Decoder) :
    (k.standardize d).siteAt (.method n) = .ofMethod (standardMethod d m) := by
  simp [ClassFile.siteAt, methods_standardize, hm, Site.ofMethod]

theorem siteAt_code {m : Member} {n : Nat} (hm : k.methods[n]? = some m) (d : Decoder) (j : Nat) :
    (k.standardize d).siteAt (.code n j) = .ofCode (standardMethod d m) := by
  simp [ClassFile.siteAt, methods_standardize, hm, Site.ofCode]

theorem context_siteAt (k : ClassFile) (h : HolderRef) : (k.siteAt h).context = h.context := by
  cases h <;> rfl

/-- Names, and with them kinds and labels, are those of the class that was read. -/
theorem nameIndex_standardAt (i : Inspector) (h : HolderRef) (a : Attribute) :
    (i.standardAt h a).nameIndex = a.nameIndex := by
  cases h with
  | method n => exact Attribute.nameIndex_mapCode a _
  | _ => rfl

theorem attributeLabel_standardAt (i : Inspector) (h : HolderRef) (a : Attribute) :
    i.attributeLabel (i.standardAt h a) = i.attributeLabel a := by
  rw [attributeLabel, attributeLabel, Attribute.name, Attribute.name, nameIndex_standardAt]

theorem kind?_standardAt (i : Inspector) (h : HolderRef) (a : Attribute) :
    (i.standardAt h a).kind? i.pool = a.kind? i.pool := by
  rw [Attribute.kind?, Attribute.kind?, Attribute.name, Attribute.name, nameIndex_standardAt]

/-! ## Walks over the survivors -/

/-- Whether an attribute of the class may stay. -/
def staysOnClass (i : Inspector) (a : Attribute) : Bool := (i.verdict? .ofClass a).isNone

/-- Whether an attribute of a method may stay once its code is in standard form. -/
def staysOnMethod (i : Inspector) (m : Member) (a : Attribute) : Bool :=
  (i.verdict? (.ofMethod (standardMethod i.decoder m)) (a.standardize i.decoder)).isNone

/-- Two ways to say that an attribute may stay on a method. -/
theorem isNone_judge_method {m : Member} {n : Nat} (hm : k.methods[n]? = some m) (a : Attribute) :
    (i.judge k (.method n) a).isNone = i.staysOnMethod m a := by
  rw [judge, siteAt_method hm]
  rfl

/-- A walk over the survivors goes into the attributes that may stay. -/
theorem map_survivors {β : Type} {F : HolderRef → β} {onField onMethod : Member → β}
    {onCode : Member → Code Attribute → β} {onComponent : Component Attribute → β}
    (hfield : ∀ f n, k.fields[n]? = some f → F (.field n) = onField f)
    (hmethod : ∀ m n, k.methods[n]? = some m → F (.method n) = onMethod m)
    (hcode : ∀ m n, k.methods[n]? = some m → ∀ a j, m.attributes[j]? = some a →
      ∀ c, a.code? = some c → F (.code n j) = onCode m c)
    (hcomponent : ∀ a n, k.attributes[n]? = some a → ∀ components, a.components? = some components →
      ∀ c j, components[j]? = some c → F (.component n j) = onComponent c) :
    (i.survivors k).map F = F .onClass :: (k.fields.map onField
      ++ k.methods.flatMap (fun m => onMethod m ::
        (m.attributes.filter (i.staysOnMethod m)).filterMap fun a => a.code?.map (onCode m))
      ++ (k.attributes.filter i.staysOnClass).flatMap fun a =>
        (a.components?.getD []).map onComponent) := by
  refine k.map_filter_holders rfl (fun f n hf => ⟨rfl, hfield f n hf⟩)
    (fun m n hm => ⟨rfl, hmethod m n hm⟩) ?_ ?_
  · intro m n hm a j ha c hc
    refine ⟨?_, hcode m n hm a j ha c hc⟩
    rw [survives, ← isNone_judge_method hm]
    simp [ClassFile.attributesAt, hm, ha]
  · intro a n ha components hcomponents c j hc
    refine ⟨?_, hcomponent a n ha components hcomponents c j hc⟩
    rw [survives]
    simp only [ClassFile.attributesAt, ha, Option.any_some]
    rfl

/-! ## What is removed -/

/-- The list of a holder as sifting sees it. -/
def rosterAt (i : Inspector) (k : ClassFile) (h : HolderRef) : Roster :=
  ⟨(k.standardize i.decoder).siteAt h, i.holderLabel k h, (k.attributesAt h).map (i.standardAt h)⟩

/-- On a method verdicts are taken on attributes with their code in standard form, and change
nothing more. -/
theorem keep_standardMethod (i : Inspector) (m : Member) :
    i.keep (.ofMethod (standardMethod i.decoder m)) (standardMethod i.decoder m).attributes
      = (m.attributes.filter (i.staysOnMethod m)).map (Attribute.standardize i.decoder) := by
  rw [keep, map_eq_self_of_mem fun a _ => settle_onMethod rfl]
  show (m.attributes.map (Attribute.standardize i.decoder)).filter _ = _
  rw [List.filter_map]
  rfl

/-- On the class itself a list is filtered and nothing else is changed. -/
theorem keep_onClass (hk : k.Decoded) (hpool : i.pool = k.pool) :
    i.keep .ofClass k.attributes = k.attributes.filter i.staysOnClass :=
  keep_eq_filter (hpool ▸ hk.attributes) (by decide)

theorem rosterAt_onClass (i : Inspector) (k : ClassFile) :
    i.rosterAt k .onClass = ⟨.ofClass, s!"class {k.className}", k.attributes⟩ := by
  rw [rosterAt, show k.attributesAt .onClass = k.attributes from rfl]
  exact congrArg _ (List.map_id' _)

theorem rosterAt_field {f : Member} {n : Nat} (hf : k.fields[n]? = some f) :
    i.rosterAt k (.field n) = i.fieldRoster f := by
  rw [rosterAt, ClassFile.attributesAt_field hf, holderLabel, hf]
  exact congrArg _ (List.map_id' _)

theorem rosterAt_method {m : Member} {n : Nat} (hm : k.methods[n]? = some m) :
    i.rosterAt k (.method n) = ⟨.ofMethod (standardMethod i.decoder m), i.methodLabel m,
      (standardMethod i.decoder m).attributes⟩ := by
  rw [rosterAt, ClassFile.attributesAt_method hm, holderLabel, hm, siteAt_method hm]
  rfl

/-- The list of a code body that a method has after its code was put in standard form. -/
def codeRoster (i : Inspector) (m : Member) (c : Code Attribute) : Roster :=
  ⟨.ofCode (standardMethod i.decoder m), s!"code of {i.methodLabel m}", c.attributes⟩

/-- The roster of a code body is that of the class in standard form, for only code on methods is put
in that form. -/
theorem rosterAt_code {m : Member} {n : Nat} (hm : k.methods[n]? = some m) {a : Attribute} {j : Nat}
    (ha : m.attributes[j]? = some a) {c : Code Attribute} (hc : a.code? = some c) :
    i.rosterAt k (.code n j) = i.codeRoster m c := by
  rw [rosterAt, ClassFile.attributesAt_code hm ha hc, holderLabel, hm, siteAt_code hm]
  exact congrArg _ (List.map_id' _)

def componentRoster (i : Inspector) (c : Component Attribute) : Roster :=
  ⟨.ofComponent, s!"record component {i.pool.utf8 c.nameIndex}", c.attributes⟩

theorem rosterAt_component {a : Attribute} {n : Nat} (ha : k.attributes[n]? = some a)
    {components : List (Component Attribute)} (hcomponents : a.components? = some components)
    {c : Component Attribute} {j : Nat} (hc : components[j]? = some c) :
    i.rosterAt k (.component n j) = i.componentRoster c := by
  rw [rosterAt, ClassFile.attributesAt_component ha hcomponents hc, holderLabel, ha,
    Option.bind_some, hcomponents, Option.bind_some, hc]
  exact congrArg _ (List.map_id' _)

/-- A method gives its own roster and those of the code bodies that stay on it. -/
theorem methodRosters_standardMethod (i : Inspector) (m : Member) :
    i.methodRosters (standardMethod i.decoder m)
      = ⟨.ofMethod (standardMethod i.decoder m), i.methodLabel m,
          (standardMethod i.decoder m).attributes⟩ ::
        (m.attributes.filter (i.staysOnMethod m)).filterMap fun a =>
          a.code?.map (i.codeRoster m) := by
  rw [methodRosters, keep_standardMethod, List.filterMap_map]
  congr 1
  refine List.filterMap_congr fun a _ => ?_
  -- standard form changes the instructions of the code and not its attributes
  rw [Function.comp_apply, Attribute.standardize, Attribute.code?_mapCode, Option.map_map]
  rfl

/-- **The lists that are sifted are those of the survivors**, in the same order. -/
theorem rosters_standardize (hk : k.Decoded) (hpool : i.pool = k.pool) :
    i.rosters (k.standardize i.decoder) = (i.survivors k).map (i.rosterAt k) := by
  have hwalk := map_survivors (i := i) (F := i.rosterAt k) (fun f n hf => rosterAt_field hf)
    (fun m n hm => rosterAt_method hm) (fun m n hm a j ha c hc => rosterAt_code hm ha hc)
    (fun a n ha components hcomponents c j hc => rosterAt_component ha hcomponents hc)
  rw [hwalk, rosterAt_onClass, rosters, componentRosters, methods_standardize, List.flatMap_map]
  simp only [methodRosters_standardMethod]
  show _ :: (_ ++ _ ++ (i.keep .ofClass k.attributes).flatMap _) = _
  rw [keep_onClass hk hpool]
  rfl

/-- **What sifting removes** is what the verdicts on the survivors say, each entry with the holder,
the attribute and the violation. -/
theorem drops_standardize (hk : k.Decoded) (hpool : i.pool = k.pool) :
    i.drops (k.standardize i.decoder) = (i.survivors k).flatMap fun h =>
      (k.attributesAt h).filterMap fun a => (i.judge k h a).map fun violation =>
        ⟨i.holderLabel k h, i.attributeLabel a, violation⟩ := by
  rw [drops, rosters_standardize hk hpool, List.flatMap_map]
  refine List.flatMap_congr fun h _ => ?_
  rw [rosterDrops, rosterAt, List.filterMap_map]
  refine List.filterMap_congr fun a _ => ?_
  rw [Function.comp_apply, attributeLabel_standardAt]
  rfl

/-! ## What is left -/

/-- An attribute of a holder as sifting leaves it. -/
def settledAt (i : Inspector) (k : ClassFile) : HolderRef → Attribute → Attribute
  | .onClass, a => i.settledOnClass a
  | .method n, a => (k.methods[n]?).elim a fun m => a.mapCode (i.siftedCode m)
  | _, a => a

/-- Whether an attribute is left on a holder: the verdict is favourable, and it is not one of the
bootstrap methods of a class that loses them. -/
def remains (i : Inspector) (k : ClassFile) (removed : Bool) (h : HolderRef) (a : Attribute) :
    Bool :=
  (i.judge k h a).isNone &&
    !(removed && decide (h = .onClass) && ClassFile.isBootstrapMethods k.pool a)

/-- The attributes that are left on a holder. -/
def leftAt (i : Inspector) (k : ClassFile) (removed : Bool) (h : HolderRef) : List Attribute :=
  ((k.attributesAt h).filter (i.remains k removed h)).map (i.settledAt k h)

/-- The bootstrap methods are removed from the class only, and elsewhere the verdict decides. -/
theorem remains_of_ne {h : HolderRef} (hne : h ≠ .onClass) (removed : Bool) (a : Attribute) :
    i.remains k removed h a = (i.judge k h a).isNone := by
  simp [remains, hne]

/-- Away from the class and its methods sifting filters and does nothing else. -/
theorem leftAt_eq_keep {h : HolderRef} {attributes : List Attribute} (removed : Bool)
    (hlist : k.attributesAt h = attributes) (hdecoded : ∀ a ∈ attributes, a.Decoded i.pool)
    (hclass : h.context ≠ .onClass) (hmethod : h.context ≠ .onMethod) :
    i.leftAt k removed h = i.keep ((k.standardize i.decoder).siteAt h) attributes := by
  have hsite : ((k.standardize i.decoder).siteAt h).context ≠ .onMethod := by
    rw [context_siteAt]
    exact hmethod
  rw [leftAt, hlist, keep_eq_filter hdecoded hsite]
  cases h with
  | onClass => exact absurd rfl hclass
  | method n => exact absurd rfl hmethod
  | _ =>
    refine (map_eq_self_of_mem fun _ _ => rfl).trans ?_
    exact List.filter_congr fun a _ => remains_of_ne (by simp) removed a

/-- What is left on a method is what may stay, with the code sifted. -/
theorem leftAt_method {m : Member} {n : Nat} (hm : k.methods[n]? = some m) (removed : Bool) :
    i.leftAt k removed (.method n)
      = (m.attributes.filter (i.staysOnMethod m)).map fun a => a.mapCode (i.siftedCode m) := by
  rw [leftAt, ClassFile.attributesAt_method hm]
  have hfilter : m.attributes.filter (i.remains k removed (.method n))
      = m.attributes.filter (i.staysOnMethod m) :=
    List.filter_congr fun a _ => by rw [remains_of_ne (by simp), isNone_judge_method hm]
  rw [hfilter]
  refine List.map_congr_left fun a _ => ?_
  rw [settledAt, hm]
  rfl

/-- What sifting leaves of the attributes of a method. -/
theorem attributes_siftMethod (i : Inspector) (m : Member) :
    (i.siftMethod (standardMethod i.decoder m)).attributes
      = (m.attributes.filter (i.staysOnMethod m)).map fun a => a.mapCode (i.siftedCode m) := by
  show (i.keep _ _).map _ = _
  rw [keep_standardMethod, List.map_map]
  refine List.map_congr_left fun a _ => ?_
  -- standard form first and sifting afterwards are one edit of the code
  rw [Function.comp_apply, Attribute.standardize, Attribute.mapCode_mapCode]
  rfl

/-- What sifting leaves of the attributes of a class. -/
theorem siftClassAttributes_eq (hk : k.Decoded) (hpool : i.pool = k.pool) :
    i.siftClassAttributes k.attributes
      = (k.attributes.filter i.staysOnClass).map i.settledOnClass := by
  rw [siftClassAttributes, keep_onClass hk hpool]
  rfl

theorem isBootstrapMethods_settledOnClass (i : Inspector) (pool : Pool) (a : Attribute) :
    ClassFile.isBootstrapMethods pool (i.settledOnClass a)
      = ClassFile.isBootstrapMethods pool a := by
  rw [ClassFile.isBootstrapMethods, ClassFile.isBootstrapMethods, Attribute.name, Attribute.name,
    settledOnClass, Attribute.nameIndex_mapComponents]

theorem leftAt_onClass (i : Inspector) (k : ClassFile) (removed : Bool) :
    i.leftAt k removed .onClass = ((k.attributes.filter i.staysOnClass).map i.settledOnClass).filter
      fun a => !(removed && ClassFile.isBootstrapMethods k.pool a) := by
  rw [List.filter_map, List.filter_filter]
  refine congrArg (List.map i.settledOnClass) (List.filter_congr fun a _ => ?_)
  rw [remains, Function.comp_apply, isBootstrapMethods_settledOnClass, Bool.and_comm,
    decide_eq_true rfl, Bool.and_true]
  rfl

/-! ## What is the same -/

/-- What is the same in an attribute that stays. Under other names than those of code and records
it is the same attribute. Code keeps everything around its instructions and their length, and a
record keeps its components; what is nested in them is left to the holders that they are. -/
structure Kept (i : Inspector) (a a' : Attribute) : Prop where
  nameIndex_eq : a'.nameIndex = a.nameIndex
  whole : a.kind? i.pool ≠ some .code → a.kind? i.pool ≠ some .record → a' = a
  code : a.kind? i.pool = some .code → ∃ c c', a.code? = some c ∧ a'.code? = some c' ∧
    c'.maxStack = c.maxStack ∧ c'.maxLocals = c.maxLocals ∧ c'.handlers = c.handlers ∧
      c'.code = (i.decoder.standardize c.code).code ∧ c'.code.length = c.code.length
  record : a.kind? i.pool = some .record → ∃ components components',
    a.components? = some components ∧ a'.components? = some components' ∧
      List.Forall₂ (fun c c' => c'.nameIndex = c.nameIndex ∧
        c'.descriptorIndex = c.descriptorIndex) components components'

/-- Under a known name an attribute that may stay stands where it may and has decoded. -/
theorem judge_known {h : HolderRef} {kind : AttributeKind} (hjudge : i.judge k h a = none)
    (hkind : a.kind? i.pool = some kind) :
    kind.permitted h.context = true ∧ ∃ body, a.body = some body := by
  obtain ⟨-, hknown⟩ := verdict?_eq_none_iff.mp hjudge
  rw [kind?_standardAt, context_siteAt] at hknown
  obtain ⟨hpermitted, body, hbody, -⟩ := hknown kind hkind
  refine ⟨hpermitted, ?_⟩
  cases hc : a.code? with
  | some c => exact ⟨_, Attribute.body_of_code? hc⟩
  | none =>
    have hstandard : i.standardAt h a = a := by
      cases h with
      | method n => exact Attribute.mapCode_of_none hc _
      | _ => rfl
    rw [hstandard] at hbody
    exact ⟨body, hbody⟩

/-- A record declaration that stays keeps all but the attributes of its components. -/
theorem kept_settledOnClass (hdecoded : a.Decoded i.pool)
    (hjudge : i.judge k .onClass a = none) : i.Kept a (i.settledOnClass a) := by
  refine ⟨Attribute.nameIndex_mapComponents a _, fun _ hrecord => ?_, fun hkind => ?_,
    fun hkind => ?_⟩
  · exact Attribute.mapComponents_of_none (hdecoded.components?_eq_none hrecord) _
  · exact absurd (judge_known hjudge hkind).1 (by decide)
  · obtain ⟨-, body, hbody⟩ := judge_known hjudge hkind
    obtain ⟨components, hcomponents⟩ := hdecoded.exists_components hkind hbody
    have hsettled := components?_settledOnClass i a
    rw [hcomponents, Option.map_some] at hsettled
    exact ⟨components, _, hcomponents, hsettled, forall₂_map_of_mem fun c _ => ⟨rfl, rfl⟩⟩

/-- Code that stays keeps its limits and its handlers, and has its bytes in standard form. -/
theorem kept_siftedCode {n : Nat} (hdecoded : a.Decoded i.pool)
    (hjudge : i.judge k (.method n) a = none) (m : Member) :
    i.Kept a (a.mapCode (i.siftedCode m)) := by
  refine ⟨Attribute.nameIndex_mapCode a _, fun hcode _ => ?_, fun hkind => ?_, fun hkind => ?_⟩
  · exact Attribute.mapCode_of_none (hdecoded.code?_eq_none hcode) _
  · obtain ⟨-, body, hbody⟩ := judge_known hjudge hkind
    obtain ⟨c, hc⟩ := hdecoded.exists_code hkind hbody
    refine ⟨c, i.siftedCode m c, hc, ?_, rfl, rfl, rfl, rfl, Decoder.length_standardize _ _⟩
    rw [Attribute.code?_mapCode, hc]
    rfl
  · exact absurd (judge_known hjudge hkind).1 (by simp [HolderRef.context]; decide)

/-- **What stays is kept.** -/
theorem kept_settledAt {h : HolderRef} (ha : a ∈ k.attributesAt h) (hdecoded : a.Decoded i.pool)
    (hjudge : i.judge k h a = none) : i.Kept a (i.settledAt k h a) := by
  -- code and records stay on no other holders than these two
  have hsame (hcode : AttributeKind.code.permitted h.context = false)
      (hrecord : AttributeKind.record.permitted h.context = false) : i.Kept a a := by
    refine ⟨rfl, fun _ _ => rfl, fun hkind => ?_, fun hkind => ?_⟩
    · exact absurd (judge_known hjudge hkind).1 (by simp [hcode])
    · exact absurd (judge_known hjudge hkind).1 (by simp [hrecord])
  cases h with
  | onClass => exact kept_settledOnClass hdecoded hjudge
  | method n =>
    cases hm : k.methods[n]? with
    | none => simp [ClassFile.attributesAt, hm] at ha
    | some m =>
      rw [settledAt, hm]
      exact kept_siftedCode hdecoded hjudge m
  | _ => exact hsame rfl rfl

/-- The name of the attribute is text that stands for no kind of attribute. -/
def unknown (i : Inspector) (a : Attribute) : Bool :=
  decide (a.kind? i.pool = none ∧ i.pool.tag? a.nameIndex = some .utf8)

/-- Attributes under unknown names may stay wherever they are. -/
theorem judge_unknown (k : ClassFile) (h : HolderRef) (hunknown : i.unknown a = true) :
    i.judge k h a = none := by
  obtain ⟨hkind, htag⟩ := of_decide_eq_true hunknown
  refine verdict?_eq_none_iff.mpr ⟨?_, fun kind hsome => ?_⟩
  · rw [nameIndex_standardAt]
    exact htag
  · rw [kind?_standardAt, hkind] at hsome
    cases hsome

/-- An attribute with an unknown name always stays, whatever it holds. -/
theorem remains_unknown (hpool : i.pool = k.pool) (removed : Bool) (h : HolderRef)
    (hunknown : i.unknown a = true) : i.remains k removed h a = true := by
  have hname : ClassFile.isBootstrapMethods k.pool a = false := by
    refine Bool.eq_false_iff.mpr fun hname => ?_
    obtain ⟨hkind, -⟩ := of_decide_eq_true hunknown
    rw [hpool, ClassFile.kind?_of_isBootstrapMethods hname] at hkind
    cases hkind
  simp [remains, judge_unknown k h hunknown, hname]

/-- What becomes of the attributes of a holder: those that remain are kept in their order, and
those under unknown names are all among them, as they were. -/
structure HolderFrame (i : Inspector) (k : ClassFile) (removed : Bool) (h : HolderRef)
    (after : List Attribute) : Prop where
  kept : List.Forall₂ i.Kept ((k.attributesAt h).filter (i.remains k removed h)) after
  unknown_eq : after.filter i.unknown = (k.attributesAt h).filter i.unknown

/-- What is left on a holder are the attributes that remain, in their order, each with what `Kept`
says. -/
theorem holderFrame_leftAt (hpool : i.pool = k.pool) (removed : Bool) {h : HolderRef}
    (hdecoded : ∀ a ∈ k.attributesAt h, a.Decoded i.pool) :
    i.HolderFrame k removed h (i.leftAt k removed h) := by
  have hkept : ∀ a ∈ (k.attributesAt h).filter (i.remains k removed h),
      i.Kept a (i.settledAt k h a) := by
    intro a ha
    obtain ⟨hmem, hremains⟩ := List.mem_filter.mp ha
    rw [remains, Bool.and_eq_true] at hremains
    exact kept_settledAt hmem (hdecoded a hmem) (Option.isNone_iff_eq_none.mp hremains.1)
  refine ⟨forall₂_map_of_mem hkept, ?_⟩
  have hunknown : ∀ a ∈ (k.attributesAt h).filter (i.remains k removed h),
      (i.unknown ∘ i.settledAt k h) a = i.unknown a := by
    intro a ha
    rw [Function.comp_apply, unknown, unknown, Attribute.kind?, Attribute.kind?, Attribute.name,
      Attribute.name, (hkept a ha).nameIndex_eq]
  have hall : ((k.attributesAt h).filter (i.remains k removed h)).filter i.unknown
      = (k.attributesAt h).filter i.unknown := by
    rw [List.filter_filter]
    refine List.filter_congr fun a _ => ?_
    cases hname : i.unknown a with
    | false => rfl
    | true => rw [remains_unknown hpool removed h hname]; rfl
  rw [leftAt, List.filter_map, List.filter_congr hunknown]
  refine (map_eq_self_of_mem fun a ha => ?_).trans hall
  -- under an unknown name the whole attribute is the same
  obtain ⟨hmem, hname⟩ := List.mem_filter.mp ha
  obtain ⟨hkind, -⟩ := of_decide_eq_true hname
  exact (hkept a hmem).whole (by simp [hkind]) (by simp [hkind])

end Inspector

namespace ClassFile

variable {profile : Profile} {k : ClassFile}

/-! ## The stripped class -/

/-- Look-ups of texts are the same in the pool with filled slots, and those of kinds at the other
slots. -/
theorem agreeOff_patched (hk : k.Writable) (profile : Profile) :
    Pool.AgreeOff (k.disused profile) k.pool (k.patched profile).pool :=
  (fill_disused hk.wellFormed profile).agreeOff hk.wellFormed fun _ hmem =>
    Pool.fillable_of_mem_disused hk.wellFormed hmem

/-- Filling slots does not make or unmake bootstrap methods, for it changes no text. -/
theorem isBootstrapMethods_patched (hk : k.Writable) (profile : Profile) (a : Attribute) :
    isBootstrapMethods (k.patched profile).pool a = isBootstrapMethods k.pool a := by
  rw [isBootstrapMethods, isBootstrapMethods, Attribute.name, Attribute.name,
    (agreeOff_patched hk profile).utf8_eq]

/-- The attributes of a stripped class are those of the sifted one, without its bootstrap methods
when the report says so. -/
theorem attributes_strip (hk : k.Writable) (profile : Profile) :
    (k.strip profile).1.attributes = (k.sifted profile).attributes.filter fun a =>
      !((k.strip profile).2.bootstrapMethodsRemoved && isBootstrapMethods k.pool a) := by
  cases hremoved : (k.strip profile).2.bootstrapMethodsRemoved with
  | false =>
    rw [strip_eq, hremoved]
    simp only [Bool.false_and, Bool.not_false, List.filter_true]
    rfl
  | true =>
    rw [strip_eq, hremoved, if_pos rfl, removeBootstrapMethods]
    simp only [isBootstrapMethods_patched hk, Bool.true_and]
    rfl

/-- The attributes of a stripped class are what is left on it. -/
theorem attributes_strip_eq_leftAt (hwritable : k.Writable) (hdecoded : k.Decoded)
    (profile : Profile) : (k.strip profile).1.attributes
      = (Inspector.ofPool profile k.pool).leftAt k (k.strip profile).2.bootstrapMethodsRemoved
          .onClass := by
  have hsift := Inspector.siftClassAttributes_eq (i := .ofPool profile k.pool) hdecoded rfl
  rw [attributes_strip hwritable, Inspector.leftAt_onClass]
  exact congrArg (List.filter _) hsift

/-- Bootstrap methods are no record. -/
theorem components?_of_isBootstrapMethods {pool : Pool} {a : Attribute} (ha : a.Decoded pool)
    (hname : isBootstrapMethods pool a = true) : a.components? = none := by
  refine ha.components?_eq_none ?_
  rw [kind?_of_isBootstrapMethods hname]
  decide

/-- What is left on the survivors, in the order of a class. -/
theorem map_leftAt {i : Inspector} (hdecoded : k.Decoded) (hpool : i.pool = k.pool)
    (removed : Bool) : (i.survivors k).map (fun h => (h.context, i.leftAt k removed h))
      = (.onClass, i.leftAt k removed .onClass) ::
        (k.fields.map (fun f => (.onField, (i.siftField f).attributes))
          ++ k.methods.flatMap (fun m =>
            (.onMethod, (i.siftMethod (Inspector.standardMethod i.decoder m)).attributes) ::
            (m.attributes.filter (i.staysOnMethod m)).filterMap fun a =>
              a.code?.map fun c => (.onCode, (i.siftedCode m c).attributes))
          ++ (k.attributes.filter i.staysOnClass).flatMap fun a =>
            (a.components?.getD []).map fun c =>
              (.onComponent, i.keep .ofComponent c.attributes)) := by
  obtain ⟨hfields, hmethods, hattributes⟩ := hdecoded
  simp only [Member.Decoded, ← hpool] at hfields hmethods hattributes
  refine Inspector.map_survivors ?_ ?_ ?_ ?_
  · intro f n hf
    rw [Inspector.leftAt_eq_keep removed (attributesAt_field hf)
      (hfields f (List.mem_of_getElem? hf)) (by simp [HolderRef.context])
      (by simp [HolderRef.context])]
    rfl
  · intro m n hm
    rw [Inspector.leftAt_method hm, Inspector.attributes_siftMethod]
    rfl
  · intro m n hm a j ha c hc
    have hnested := (hmethods m (List.mem_of_getElem? hm) a
      (List.mem_of_getElem? ha)).of_mem_code hc
    rw [Inspector.leftAt_eq_keep removed (attributesAt_code hm ha hc) hnested
      (by simp [HolderRef.context]) (by simp [HolderRef.context]), Inspector.siteAt_code hm]
    rfl
  · intro a n ha components hcomponents c j hc
    have hnested := (hattributes a (List.mem_of_getElem? ha)).of_mem_component hcomponents
      (List.mem_of_getElem? hc)
    rw [Inspector.leftAt_eq_keep removed (attributesAt_component ha hcomponents hc) hnested
      (by simp [HolderRef.context]) (by simp [HolderRef.context])]
    rfl

/-- The sections of a sifted method. -/
theorem codes_siftMethod (i : Inspector) (m : Member) :
    ((i.siftMethod (Inspector.standardMethod i.decoder m)).attributes.filterMap fun a =>
        a.code?.map fun c => (Context.onCode, c.attributes))
      = (m.attributes.filter (i.staysOnMethod m)).filterMap fun a =>
        a.code?.map fun c => (.onCode, (i.siftedCode m c).attributes) := by
  rw [Inspector.attributes_siftMethod, List.filterMap_map]
  refine List.filterMap_congr fun a _ => ?_
  rw [Function.comp_apply, Attribute.code?_mapCode, Option.map_map]
  rfl

/-- The record components of the class are the same with and without its bootstrap methods. -/
theorem flatMap_components_remains {i : Inspector} {β : Type} (hdecoded : k.Decoded)
    (removed : Bool) (onComponent : Component Attribute → β) :
    (k.attributes.filter (i.remains k removed .onClass)).flatMap (fun a =>
        (a.components?.getD []).map onComponent)
      = (k.attributes.filter i.staysOnClass).flatMap fun a =>
        (a.components?.getD []).map onComponent := by
  have hfilter : k.attributes.filter (i.remains k removed .onClass)
      = (k.attributes.filter i.staysOnClass).filter fun a =>
        !(removed && isBootstrapMethods k.pool a) := by
    rw [List.filter_filter]
    refine List.filter_congr fun a _ => ?_
    rw [Inspector.remains, Bool.and_comm, decide_eq_true rfl, Bool.and_true]
    rfl
  rw [hfilter, flatMap_filter]
  refine List.flatMap_congr fun a ha => ?_
  by_cases hname : isBootstrapMethods k.pool a = true
  · have hnone := components?_of_isBootstrapMethods
      (hdecoded.attributes a (List.mem_filter.mp ha).1) hname
    simp [hnone]
  · simp [hname]

/-- The sections of the record components that are left. -/
theorem components_leftAt {i : Inspector} (hdecoded : k.Decoded) (removed : Bool) :
    (i.leftAt k removed .onClass).flatMap (fun a =>
        (a.components?.getD []).map fun c => (Context.onComponent, c.attributes))
      = (k.attributes.filter i.staysOnClass).flatMap fun a =>
        (a.components?.getD []).map fun c => (.onComponent, i.keep .ofComponent c.attributes) := by
  rw [← flatMap_components_remains hdecoded removed]
  show ((k.attributes.filter _).map i.settledOnClass).flatMap _ = _
  rw [List.flatMap_map]
  refine List.flatMap_congr fun a _ => ?_
  cases hc : a.components? <;> simp [Inspector.components?_settledOnClass, hc]

/-- **The lists of the stripped class** are those of the surviving holders, one by one, each with
what is left on the holder. -/
theorem sections_strip (hwritable : k.Writable) (hdecoded : k.Decoded) (profile : Profile) :
    (k.strip profile).1.sections =
      ((Inspector.ofPool profile k.pool).survivors k).map fun h =>
        (h.context, (Inspector.ofPool profile k.pool).leftAt k
          (k.strip profile).2.bootstrapMethodsRemoved h) := by
  let i := Inspector.ofPool profile k.pool
  have hmethods : (k.strip profile).1.methods.flatMap (fun m =>
        (Context.onMethod, m.attributes) ::
          m.attributes.filterMap fun a => a.code?.map fun c => (.onCode, c.attributes))
      = k.methods.flatMap fun m =>
        (.onMethod, (i.siftMethod (Inspector.standardMethod i.decoder m)).attributes) ::
          (m.attributes.filter (i.staysOnMethod m)).filterMap fun a =>
            a.code?.map fun c => (.onCode, (i.siftedCode m c).attributes) := by
    rw [methods_strip]
    show ((k.methods.map (Inspector.standardMethod i.decoder)).map i.siftMethod).flatMap _ = _
    rw [List.flatMap_map, List.flatMap_map]
    exact List.flatMap_congr fun m _ => by rw [codes_siftMethod]
  have hfields : (k.strip profile).1.fields.map (fun f => (Context.onField, f.attributes))
      = k.fields.map fun f => (.onField, (i.siftField f).attributes) := by
    rw [fields_strip]
    exact List.map_map
  rw [map_leftAt hdecoded rfl, sections, hfields, hmethods,
    attributes_strip_eq_leftAt hwritable hdecoded, components_leftAt hdecoded]

/-! ## The frame -/

/-- In a class that was read every attribute in the lists is decoded. -/
theorem Decoded.levels (hk : k.Decoded) : k.Levels fun _ a => a.Decoded k.pool where
  ofClass := hk.attributes
  ofComponent a ha _ hcomponents _ hc := (hk.attributes a ha).of_mem_component hcomponents hc
  ofField := hk.fields
  ofMethod := hk.methods
  ofCode m hm a ha _ hc := (hk.methods m hm a ha).of_mem_code hc

end ClassFile

/-- The members have the same flags, name and descriptor. -/
structure Member.SameHeader (m m' : Member) : Prop where
  flags_eq : m'.flags = m.flags
  nameIndex_eq : m'.nameIndex = m.nameIndex
  descriptorIndex_eq : m'.descriptorIndex = m.descriptorIndex

namespace ClassFile

variable {profile : Profile} {k : ClassFile}

/-- What is the same in a stripped class: the header, the size of the pool, the members, and, for
each surviving holder in the order of the walk, what remains on it. -/
structure Frame (profile : Profile) (removed : Bool) (k k' : ClassFile) : Prop where
  minor_eq : k'.minor = k.minor
  major_eq : k'.major = k.major
  flags_eq : k'.flags = k.flags
  thisClass_eq : k'.thisClass = k.thisClass
  superClass_eq : k'.superClass = k.superClass
  interfaces_eq : k'.interfaces = k.interfaces
  poolSize_eq : k'.pool.size = k.pool.size
  fields : List.Forall₂ Member.SameHeader k.fields k'.fields
  methods : List.Forall₂ Member.SameHeader k.methods k'.methods
  holders : List.Forall₂ (fun h h' => h'.context = h.context ∧
      (Inspector.ofPool profile k.pool).HolderFrame k removed h (k'.attributesAt h'))
    ((Inspector.ofPool profile k.pool).survivors k) k'.holders

/-- **Stripping changes nothing else.** The header, the members and the size of the pool are the
same; on every surviving holder the list is the one that was read, filtered by the verdicts, and
what stays on it is kept; and the report has one entry for each attribute that a verdict filters
out, in the order of the walk. -/
theorem strip_frame {data : Bytes} (h : parse data = .ok k) (profile : Profile) :
    k.Frame profile (k.strip profile).2.bootstrapMethodsRemoved (k.strip profile).1 ∧
      (k.strip profile).2.dropped =
        ((Inspector.ofPool profile k.pool).survivors k).flatMap fun holder =>
          (k.attributesAt holder).filterMap fun a =>
            ((Inspector.ofPool profile k.pool).judge k holder a).map fun violation =>
              ⟨(Inspector.ofPool profile k.pool).holderLabel k holder,
                (Inspector.ofPool profile k.pool).attributeLabel a, violation⟩ := by
  obtain ⟨-, hwritable, hdecoded⟩ := parse_sound h
  refine ⟨?_, Inspector.drops_standardize hdecoded rfl⟩
  have hsize : (k.strip profile).1.pool.size = k.pool.size := by
    rw [pool_strip]
    exact (fill_disused hwritable.wellFormed profile).size_eq
  have hfields : List.Forall₂ Member.SameHeader k.fields (k.strip profile).1.fields := by
    rw [fields_strip]
    exact forall₂_map_of_mem fun f _ => ⟨rfl, rfl, rfl⟩
  have hmethods : List.Forall₂ Member.SameHeader k.methods (k.strip profile).1.methods := by
    rw [methods_strip]
    show List.Forall₂ _ _ ((k.methods.map _).map _)
    rw [List.map_map]
    exact forall₂_map_of_mem fun m _ => ⟨rfl, rfl, rfl⟩
  have hholders : List.Forall₂ (fun holder holder' => holder'.context = holder.context ∧
        (Inspector.ofPool profile k.pool).HolderFrame k
          (k.strip profile).2.bootstrapMethodsRemoved holder
          ((k.strip profile).1.attributesAt holder'))
      ((Inspector.ofPool profile k.pool).survivors k) (k.strip profile).1.holders := by
    have hsections := sections_strip hwritable hdecoded profile
    rw [sections_eq] at hsections
    refine (forall₂_of_map_eq (P := (· ∈ k.holders)) (fun holder hmem => ?_)
      hsections.symm).imp fun holder holder' hsame => ?_
    · exact (List.mem_filter.mp hmem).1
    · obtain ⟨hmem, heq⟩ := hsame
      obtain ⟨hcontext, hlist⟩ := Prod.mk.inj heq
      refine ⟨hcontext.symm, ?_⟩
      rw [← hlist]
      exact Inspector.holderFrame_leftAt rfl _ fun a ha =>
        Levels.of_mem_holders (P := fun _ a => a.Decoded k.pool) hdecoded.levels hmem ha
  rcases strip_cases profile k with hstrip | hstrip
  · rw [hstrip] at hsize hfields hmethods hholders ⊢
    exact ⟨rfl, rfl, rfl, rfl, rfl, rfl, hsize, hfields, hmethods, hholders⟩
  · rw [hstrip] at hsize hfields hmethods hholders ⊢
    exact ⟨rfl, rfl, rfl, rfl, rfl, rfl, hsize, hfields, hmethods, hholders⟩

/-- The crafted class loses the code of its abstract method and what stands below the other code. -/
theorem strip_frame_craftedClass :
    ∃ k, parse craftedClass = .ok k ∧ (k.strip .standard).2.dropped.length = 2 ∧
      k.Frame .standard (k.strip .standard).2.bootstrapMethodsRemoved (k.strip .standard).1 := by
  have hparse : (parse craftedClass).toOption.any (fun k =>
      decide ((k.strip .standard).2.dropped.length = 2)) = true := by decide +kernel
  obtain ⟨k, hk, hdropped⟩ := exists_of_toOption hparse
  exact ⟨k, hk, of_decide_eq_true hdropped, (strip_frame hk .standard).1⟩

end ClassFile

end ClassPrune
