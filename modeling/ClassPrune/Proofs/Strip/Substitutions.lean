import ClassPrune.Proofs.Code.Store
import ClassPrune.Proofs.Code.Traces
import ClassPrune.Proofs.Strip.Report

/-!
# Replaced opcodes, counted

The report tells how many reserved opcodes were replaced. These are the reserved instructions of the
code arrays that decode: what is decoded can always be written, an array that does not decode is
left alone, and no verdict comes to replace opcodes once the methods were gone over.

- `Decoder.reservedStarts`: the reserved instructions of a code array, and
  `Decoder.map_pc_substitutions`: the decoder reports exactly these.
- `Inspector.lateSubstitutions_standardize`: the verdicts on a class that was read replace nothing.
- `Inspector.judge_undecodable`: the verdict on code that does not decode.
- `ClassFile.codePass`: the pass over the code of the methods of a class, which comes to the same
  (`ClassFile.methodCodes_standardize`, `ClassFile.substitutions_codePass`).
- `ClassFile.codePass_answers`: what the pass has kept of an array is what verdicts and both looks
  at the pool find by decoding the array again.
- `ClassFile.substitutions_strip`: what is counted, and what becomes of code that does not decode.
-/

namespace ClassPrune

/-! ## One code array -/

namespace Decoder

variable {d : Decoder}

/-- The offsets at which instructions with reserved opcodes start, as far as the code decodes. -/
def reservedStarts (d : Decoder) (code : Bytes) : List Nat :=
  (d.starts code).filter fun pc =>
    code[pc]?.any fun byte => decide (Opcode.shape ⟨byte⟩ = .reserved)

/-- A step at a reserved opcode reports a substitution there, and no other step does. -/
theorem step_substitution {pc : Nat} {op : Opcode} {rest : Bytes} {s : Step}
    (h : d.step pc op rest = .ok s) :
    s.substitution.map Substitution.pc = if op.shape = .reserved then some pc else none := by
  by_cases hshape : op.shape = .reserved
  · obtain ⟨replacement, size, insns, -, -, rfl⟩ := stepReserved_eq_ok (step_of_reserved hshape h)
    rw [if_pos hshape]
    rfl
  · rw [if_neg hshape, (step_sound h).2.mpr hshape]
    rfl

theorem filterMap_locate {β : Type} (f : Step → Option β) (pc : Nat) (steps : List Step) :
    (locate pc steps).filterMap (fun p => f p.2) = steps.filterMap f := by
  induction steps generalizing pc with
  | nil => rfl
  | cons s steps ih => rw [locate, List.filterMap_cons, List.filterMap_cons, ih]

/-- **The decoder reports exactly the reserved instructions**, also those in front of an error. -/
theorem map_pc_substitutions (d : Decoder) (code : Bytes) :
    (d.substitutions code).map Substitution.pc = d.reservedStarts code := by
  have hstep : ∀ p ∈ d.located code, p.2.substitution.map Substitution.pc
      = if code[p.1]?.any fun byte => decide (Opcode.shape ⟨byte⟩ = .reserved) then some p.1
        else none := by
    rintro ⟨pc, s⟩ hmem
    have htakes : d.Takes code pc (.ok s) := hmem
    obtain ⟨op, rest, hdrop, hstep⟩ := htakes.exists_step
    have hbyte : code[pc]? = some op.byte := by
      rw [← List.head?_drop, hdrop]
      rfl
    rw [step_substitution hstep]
    simp [hbyte]
  calc (d.substitutions code).map Substitution.pc
      = (d.located code).filterMap fun p => p.2.substitution.map Substitution.pc := by
        rw [substitutions, List.map_filterMap, ← filterMap_locate _ 0]
        rfl
    _ = d.reservedStarts code := by
        rw [List.filterMap_congr hstep, reservedStarts, starts, List.filter_map,
          ← List.filterMap_eq_map, List.filterMap_filter]
        rfl

/-- **Code that decodes counts with its reserved instructions**, for what is decoded can be
written. -/
theorem substitutions_standardize {code : Bytes} {insns : List Instruction}
    (h : d.decode code = .ok insns) :
    (d.standardize code).substitutions = (d.reservedStarts code).length := by
  obtain ⟨out, hout, -, -⟩ := encodeCode_standard h
  rw [← map_pc_substitutions, List.length_map, standardize, h]
  simp only [hout]
  split
  · rename_i hzero
    exact hzero.symm
  · rfl

end Decoder

namespace Attribute

variable {d : Decoder} {a : Attribute} {c : Code Attribute} {e : DecodeError}

/-- An attribute whose code does not decode is not touched, -/
theorem standardize_of_error (hc : a.code? = some c) (he : d.decode c.code = .error e) :
    a.standardize d = a := by
  refine mapCode_eq_self fun c' hc' => ?_
  rw [hc] at hc'
  cases hc'
  rw [Decoder.standardize_of_error he]

/-- and counts nothing, whatever was replaced before the error. -/
theorem substitutions_of_error (hc : a.code? = some c) (he : d.decode c.code = .error e) :
    a.substitutions d = 0 := by
  rw [substitutions, hc]
  show (d.standardize c.code).substitutions = 0
  rw [Decoder.standardize_of_error he]

end Attribute

namespace Inspector

variable {i : Inspector} {k : ClassFile}

/-! ## Nothing is replaced late -/

/-- No verdict on a class that was read comes to read instructions that are not in standard form:
code stands on methods, or where its name may not stand. -/
theorem readsLate_eq_false {site : Site} {a : Attribute} (ha : a.Decoded i.pool)
    {c : Code Attribute} (hc : a.code? = some c) : i.readsLate site a = false := by
  have hkind := ha.kind?_of_body (Attribute.body_of_code? hc)
  rw [readsLate, hkind]
  cases hcontext : site.context with
  | onMethod => rfl
  | _ =>
    show (true && !site.forbidsCode && false) = false
    exact Bool.and_false _

/-- After the methods were gone over no verdict replaces anything: code on other holders is
misplaced. -/
theorem lateSubstitutions_standardize (hk : k.Decoded) (hpool : i.pool = k.pool) :
    i.lateSubstitutions (k.standardize i.decoder) = 0 := by
  rw [lateSubstitutions, rosters_standardize hk hpool, List.map_map]
  refine total_eq_zero_iff.mpr fun count hcount => ?_
  obtain ⟨holder, hholder, rfl⟩ := List.mem_map.mp hcount
  refine total_eq_zero_iff.mpr fun count hcount => ?_
  obtain ⟨a', ha', rfl⟩ := List.mem_map.mp hcount
  obtain ⟨a, ha, rfl⟩ := List.mem_map.mp ha'
  have hdecoded : a.Decoded k.pool :=
    ClassFile.Levels.of_mem_holders (P := fun _ a => a.Decoded k.pool) hk.levels
      (List.mem_filter.mp hholder).1 ha
  rw [← hpool] at hdecoded
  have hlate : i.readsLate (i.rosterAt k holder).site (i.standardAt holder a) = false ∨
      (i.standardAt holder a).code? = none := by
    cases holder with
    | method n => exact .inl rfl
    | _ =>
      cases hc : a.code? with
      | none => exact .inr hc
      | some c => exact .inl (readsLate_eq_false hdecoded hc)
  rcases hlate with hlate | hnone
  · rw [hlate]
    rfl
  · rw [Attribute.substitutions, hnone, ite_self]

/-! ## Code that does not decode -/

/-- The looks at the pool find no operands in it. -/
theorem operands_of_error {stage : Stage} {context : Context} {a : Attribute} {c : Code Attribute}
    {e : DecodeError} (hc : a.code? = some c) (he : i.decoder.decode c.code = .error e) :
    i.operands stage context a = [] := by
  simp only [operands, hc, he, ite_self]

/-- What verdicts have against code that does not decode. On some methods there may be no code. -/
def undecodable (m : Member) (e : DecodeError) : Violation :=
  if m.flags.isAbstract || m.flags.isNative then .codeWithoutBody else .badCode e

/-- **Code that does not decode may not stay.** -/
theorem judge_undecodable {n : Nat} {m : Member} {a : Attribute} {c : Code Attribute}
    {e : DecodeError} (hm : k.methods[n]? = some m) (ha : a.Decoded i.pool)
    (hc : a.code? = some c) (he : i.decoder.decode c.code = .error e) :
    i.judge k (.method n) a = some (undecodable m e) := by
  have hbody := Attribute.body_of_code? hc
  have hkind : a.kind? i.pool = some .code := ha.kind?_of_body hbody
  have htext : i.pool.tag? a.nameIndex = some .utf8 := by
    refine Pool.tag?_of_utf8_ne fun hempty => ?_
    rw [Attribute.kind?, Attribute.name, hempty] at hkind
    exact absurd hkind (by decide)
  have htest : (Demand.kind .attributeName a.nameIndex [.utf8]).test i.pool = none :=
    Demand.test_kind_eq_none_iff.mpr htext
  have hdemands : i.demands (.ofMethod (standardMethod i.decoder m)) (.code c) =
      [.never (undecodable m e)] := by
    rw [demands, he, undecodable]
    show (if (m.flags.isAbstract || m.flags.isNative) = true then _ else _) = _
    split <;> rfl
  rw [judge, siteAt_method hm]
  show i.verdict? _ (a.standardize i.decoder) = _
  rw [Attribute.standardize_of_error hc he, verdict?, htest, hkind]
  show i.knownVerdict? (.ofMethod (standardMethod i.decoder m)) .code a = _
  rw [knownVerdict?, hbody]
  show (if AttributeKind.code.permitted .onMethod then firstViolation? i.pool (i.demands _ _)
    else _) = _
  rw [if_pos (by decide), hdemands]
  rfl

/-! ## Code that was kept -/

/-- What is kept of a code array answers for the attribute that holds it: its instructions are those
that the verdict makes its demands from, and its operands are those that the looks at the pool
follow. -/
structure AnsweredBy (i : Inspector) (a : Attribute) (c : Code Attribute) (s : CodeStore)
    (id : CodeId) : Prop where
  code_eq : s.code id = c.code
  demands_eq : ∀ site : Site, site.forbidsCode = false →
    (∃ insns s', (CodeStore.instructions i.decoder id).run s = .ok insns s' ∧
      i.demands site (.code c) = codeDemands insns c.handlers) ∨
    ∃ error s', (CodeStore.instructions i.decoder id).run s = .error (.undecodable error) s' ∧
      i.demands site (.code c) = [.never (.badCode error)]
  operands_eq : ∀ stage, i.operands stage .onMethod a = s.operands id

/-- An array that was visited answers for the attribute that holds it now. -/
theorem answeredBy_of_visited {a : Attribute} {c : Code Attribute} {s : CodeStore} {id : CodeId}
    {code : Bytes} (hc : a.code? = some c) (hcode : s.code id = c.code)
    (h : s.Visited i.decoder code id) : i.AnsweredBy a c s id := by
  have hrun := h.instructions_run
  have hoperands := h.operands_eq
  rw [← h.decode_code] at hoperands
  rw [hcode] at hrun hoperands
  cases hdecode : i.decoder.decode c.code with
  | ok insns =>
    rw [hdecode] at hrun hoperands
    refine ⟨hcode, fun site hsite => .inl ⟨insns, s, hrun, ?_⟩, fun stage => ?_⟩
    · rw [demands, if_neg (by simp [hsite]), hdecode]
    · simp only [hoperands, operands, hc, true_or, if_true, hdecode]
  | error error =>
    rw [hdecode] at hrun hoperands
    refine ⟨hcode, fun site hsite => .inr ⟨error, s, hrun, ?_⟩, fun stage => ?_⟩
    · rw [demands, if_neg (by simp [hsite]), hdecode]
    · simp only [hoperands, operands, hc, true_or, if_true, hdecode]

end Inspector

/-! ## Sums -/

/-- A sum in which only some members count. -/
theorem sum_map_filter {α : Type} {f g : α → Nat} {counts : α → Bool} (l : List α)
    (hcounts : ∀ a, counts a = true → f a = g a) (hzero : ∀ a, counts a = false → f a = 0) :
    (l.map f).sum = ((l.filter counts).map g).sum := by
  induction l with
  | nil => rfl
  | cons a l ih =>
    rw [List.map_cons, List.sum_cons, ih]
    cases hcount : counts a with
    | false => rw [List.filter_cons_of_neg (by simp [hcount]), hzero a hcount, Nat.zero_add]
    | true =>
      rw [List.filter_cons_of_pos hcount, List.map_cons, List.sum_cons, hcounts a hcount]

namespace ClassFile

variable {profile : Profile} {k : ClassFile}

/-- The code arrays of the methods of a class. -/
def methodCodes (k : ClassFile) : List Bytes :=
  k.methods.flatMap fun m => m.attributes.filterMap fun a => a.code?.map Code.code

theorem substitutions_eq_sum (k : ClassFile) (d : Decoder) :
    k.substitutions d = (k.methodCodes.map fun code => (d.standardize code).substitutions).sum := by
  show (k.methods.flatMap fun m => m.attributes.map (Attribute.substitutions d)).sum = _
  rw [methodCodes, List.map_flatMap, sum_flatMap, sum_flatMap]
  congr 1
  refine List.map_congr_left fun m _ => ?_
  rw [List.map_filterMap, sum_filterMap]
  congr 1
  refine List.map_congr_left fun a _ => ?_
  rw [Attribute.substitutions]
  cases a.code? <;> rfl

/-- **Only code that decodes counts**, with its reserved instructions. -/
theorem substitutions_eq (k : ClassFile) (d : Decoder) : k.substitutions d
    = ((k.methodCodes.filter fun code => (d.decode code).isOk).map fun code =>
        (d.reservedStarts code).length).sum := by
  rw [substitutions_eq_sum]
  refine sum_map_filter _ (fun code hok => ?_) fun code hfailed => ?_
  · cases hdecode : d.decode code with
    | ok insns => exact Decoder.substitutions_standardize hdecode
    | error e =>
      rw [hdecode] at hok
      cases hok
  · cases hdecode : d.decode code with
    | ok insns =>
      rw [hdecode] at hfailed
      cases hfailed
    | error e => rw [Decoder.standardize_of_error hdecode]

/-! ## The pass -/

/-- The code arrays of the methods after the pass over them. -/
def codePass (d : Decoder) (k : ClassFile) : CodeStore :=
  (CodeStore.ofCodes k.methodCodes).normalizeAll d (List.range k.methodCodes.length)

theorem code_ofCodes {codes : List Bytes} {id : CodeId} {code : Bytes}
    (h : codes[id]? = some code) : (CodeStore.ofCodes codes).code id = code := by
  show codes.getD id [] = code
  rw [List.getD_eq_getElem?_getD, h]
  rfl

/-- After the pass the code of every method was visited, and nothing else. -/
theorem keeps_codePass (k : ClassFile) (d : Decoder) :
    (k.codePass d).Keeps d (CodeStore.ofCodes k.methodCodes).code
      (List.range k.methodCodes.length) :=
  CodeStore.keeps_normalizeAll List.nodup_range (fun _ => ⟨rfl, rfl⟩) d

/-- The pass settles each code array by what it held before. -/
theorem visited_codePass {d : Decoder} {id : CodeId} {code : Bytes}
    (h : k.methodCodes[id]? = some code) : (k.codePass d).Visited d code id := by
  rw [← code_ofCodes h]
  exact (k.keeps_codePass d).visited id (List.mem_range.mpr (List.getElem?_eq_some_iff.mp h).1)

/-- The pass counts what is counted array by array. -/
theorem substitutions_codePass (k : ClassFile) (d : Decoder) :
    (k.codePass d).substitutions = k.substitutions d := by
  let s := CodeStore.ofCodes k.methodCodes
  have hnodup : (List.range k.methodCodes.length).Nodup := List.nodup_range
  have hcount := (CodeStore.normalizeAll_visited (s := s) hnodup (fun _ _ => ⟨rfl, rfl⟩) d).2
  have hcodes : (List.range k.methodCodes.length).map (fun id =>
        (d.standardize (s.code id)).substitutions)
      = k.methodCodes.map fun code => (d.standardize code).substitutions :=
    map_range_getElem? fun code id hid => by rw [code_ofCodes hid]
  rw [codePass, hcount, hcodes, substitutions_eq_sum]
  exact Nat.zero_add _

/-- The pass leaves in the arrays what the class has in standard form. -/
theorem methodCodes_standardize (k : ClassFile) (d : Decoder) :
    (k.standardize d).methodCodes
      = (List.range k.methodCodes.length).map (k.codePass d).code := by
  have hpass : (List.range k.methodCodes.length).map (k.codePass d).code
      = k.methodCodes.map fun code => (d.standardize code).code :=
    map_range_getElem? fun code id hid => (visited_codePass hid).code_eq
  rw [hpass, methodCodes, methodCodes, List.map_flatMap]
  show (k.methods.map (Inspector.standardMethod d)).flatMap _ = _
  rw [List.flatMap_map]
  refine List.flatMap_congr fun m _ => ?_
  show (m.attributes.map (Attribute.standardize d)).filterMap _ = _
  rw [List.filterMap_map, List.map_filterMap]
  refine List.filterMap_congr fun a _ => ?_
  rw [Function.comp_apply, Attribute.standardize, Attribute.code?_mapCode, Option.map_map,
    Option.map_map]
  rfl

/-- **What the pass kept is what decoding again gives.** For every code array that the methods have
after the pass there is a number at which the pass answers for it, whatever was asked for since.
So it makes no difference that verdicts and looks at the pool decode here, where they could ask for
what was kept. -/
theorem codePass_answers (k : ClassFile) (i : Inspector) {m : Member}
    (hm : m ∈ (k.standardize i.decoder).methods) {a : Attribute} (ha : a ∈ m.attributes)
    {c : Code Attribute} (hc : a.code? = some c) :
    ∃ id, ∀ requests, i.AnsweredBy a c ((k.codePass i.decoder).askAll i.decoder requests) id := by
  have hmem : c.code ∈ (k.standardize i.decoder).methodCodes :=
    List.mem_flatMap.mpr ⟨m, hm, List.mem_filterMap.mpr ⟨a, ha, by rw [hc]; rfl⟩⟩
  rw [methodCodes_standardize] at hmem
  obtain ⟨id, hid, hcode⟩ := List.mem_map.mp hmem
  refine ⟨id, fun requests => ?_⟩
  -- requests leave arrays as they are that were visited before
  have hvisited := (k.keeps_codePass i.decoder).visited id hid
  have hlater := ((k.keeps_codePass i.decoder).askAll requests).visited id
    (List.mem_append_right _ hid)
  refine Inspector.answeredBy_of_visited hc ?_ hlater
  rw [hlater.code_eq, ← hvisited.code_eq, hcode]

/-- What is reported is counted by the pass over the methods alone. -/
theorem substitutions_report (hdecoded : k.Decoded) (profile : Profile) :
    (k.strip profile).2.substitutions
      = k.substitutions (Inspector.ofPool profile k.pool).decoder := by
  show _ + (Inspector.ofPool profile k.pool).lateSubstitutions _ = _
  rw [Inspector.lateSubstitutions_standardize hdecoded rfl, Nat.add_zero]

/-! ## Code that is discarded -/

theorem method_mem_survivors {i : Inspector} {n : Nat} {m : Member} (hm : k.methods[n]? = some m) :
    .method n ∈ i.survivors k := by
  refine List.mem_filter.mpr ⟨?_, rfl⟩
  refine List.mem_cons_of_mem _ (List.mem_append_left _ (List.mem_append_right _ ?_))
  exact List.mem_flatMap.mpr ⟨(m, n), List.mem_zipIdx_iff_getElem?.mpr hm, List.mem_cons_self⟩

/-- What a verdict has against an attribute of a method is in the report. -/
theorem mem_dropped_of_judge (hdecoded : k.Decoded) {n : Nat} {m : Member}
    (hm : k.methods[n]? = some m) {a : Attribute} (ha : a ∈ m.attributes) {violation : Violation}
    (hjudge : (Inspector.ofPool profile k.pool).judge k (.method n) a = some violation) :
    ⟨(Inspector.ofPool profile k.pool).methodLabel m,
      (Inspector.ofPool profile k.pool).attributeLabel a, violation⟩
        ∈ (k.strip profile).2.dropped := by
  have hdropped : (k.strip profile).2.dropped = _ := Inspector.drops_standardize hdecoded rfl
  rw [hdropped]
  refine List.mem_flatMap.mpr ⟨.method n, method_mem_survivors hm, ?_⟩
  refine List.mem_filterMap.mpr ⟨a, ?_, ?_⟩
  · rw [attributesAt_method hm]
    exact ha
  · rw [hjudge, Inspector.holderLabel, hm]
    rfl

/-- The attributes that are left on a method are those that verdicts have nothing against. -/
theorem exists_method_strip (hdecoded : k.Decoded) (profile : Profile) {n : Nat} {m : Member}
    (hm : k.methods[n]? = some m) :
    ∃ m', (k.strip profile).1.methods[n]? = some m' ∧
      List.Forall₂ (Inspector.ofPool profile k.pool).Kept
        (m.attributes.filter fun a =>
          ((Inspector.ofPool profile k.pool).judge k (.method n) a).isNone) m'.attributes := by
  let i := Inspector.ofPool profile k.pool
  have hstripped : (k.strip profile).1.methods[n]?
      = some (i.siftMethod (Inspector.standardMethod i.decoder m)) := by
    rw [methods_strip]
    show ((k.methods.map _).map _)[n]? = _
    rw [List.getElem?_map, List.getElem?_map, hm]
    rfl
  refine ⟨_, hstripped, ?_⟩
  have hlist : ∀ a ∈ k.attributesAt (.method n), a.Decoded i.pool := by
    rw [attributesAt_method hm]
    exact hdecoded.methods m (List.mem_of_getElem? hm)
  have hframe := (Inspector.holderFrame_leftAt (i := i) rfl false hlist).kept
  have hfilter : m.attributes.filter (i.remains k false (.method n))
      = m.attributes.filter fun a => (i.judge k (.method n) a).isNone :=
    List.filter_congr fun a _ => Inspector.remains_of_ne (by simp) false a
  rw [Inspector.leftAt_method hm, ← Inspector.attributes_siftMethod, attributesAt_method hm,
    hfilter] at hframe
  exact hframe

/-- What becomes of code that does not decode, in attribute `a` of method number `n`. -/
structure Discarded (profile : Profile) (k : ClassFile) (n : Nat) (m : Member) (a : Attribute)
    (c : Code Attribute) (e : DecodeError) : Prop where
  /-- Its bytes are the same when the verdicts are taken. -/
  untouched : a.standardize (Inspector.ofPool profile k.pool).decoder = a
  uncounted : a.substitutions (Inspector.ofPool profile k.pool).decoder = 0
  /-- In both looks at the pool only its name and its handlers count. -/
  roots_eq : ∀ stage, (Inspector.ofPool profile k.pool).attributeRoots stage .onMethod a
    = a.nameIndex :: (Body.code c).references
  /-- It may not stay, -/
  judged : (Inspector.ofPool profile k.pool).judge k (.method n) a
    = some (Inspector.undecodable m e)
  /-- and the report says why. -/
  reported : ⟨(Inspector.ofPool profile k.pool).methodLabel m,
    (Inspector.ofPool profile k.pool).attributeLabel a, Inspector.undecodable m e⟩
      ∈ (k.strip profile).2.dropped
  /-- The method is left with what may stay. -/
  gone : ∃ m', (k.strip profile).1.methods[n]? = some m' ∧
    List.Forall₂ (Inspector.ofPool profile k.pool).Kept (m.attributes.filter fun b =>
      ((Inspector.ofPool profile k.pool).judge k (.method n) b).isNone) m'.attributes

/-- **Reserved opcodes are replaced in all of a code array or in none of it, and exactly those that
are replaced are counted.** The count is that of the pass, and it is the number of reserved
instructions in the code of methods that decodes, whether or not that code stays. Code that does not
decode comes out of the pass as it was and without operands, whatever was replaced in it on the way,
and is discarded. -/
theorem substitutions_strip {data : Bytes} {k : ClassFile} (h : parse data = .ok k)
    (profile : Profile) :
    (k.strip profile).2.substitutions
      = (k.codePass (Decoder.ofPool profile (some k.pool))).substitutions ∧
    (k.strip profile).2.substitutions
      = ((k.methodCodes.filter fun code =>
          ((Decoder.ofPool profile (some k.pool)).decode code).isOk).map fun code =>
            ((Decoder.ofPool profile (some k.pool)).reservedStarts code).length).sum ∧
    (∀ id code e, k.methodCodes[id]? = some code →
      (Decoder.ofPool profile (some k.pool)).decode code = .error e →
        (k.codePass (Decoder.ofPool profile (some k.pool))).code id = code ∧
          (k.codePass (Decoder.ofPool profile (some k.pool))).operands id = []) ∧
    ∀ n m, k.methods[n]? = some m → ∀ a ∈ m.attributes, ∀ c e, a.code? = some c →
      (Decoder.ofPool profile (some k.pool)).decode c.code = .error e →
        k.Discarded profile n m a c e := by
  obtain ⟨-, -, hdecoded⟩ := parse_sound h
  have hreport := substitutions_report hdecoded profile
  refine ⟨?_, ?_, ?_, ?_⟩
  · rw [substitutions_codePass]
    exact hreport
  · rw [hreport, substitutions_eq]
    rfl
  · intro id code e hcode he
    have hvisited := visited_codePass (d := Decoder.ofPool profile (some k.pool)) hcode
    rw [hvisited.code_eq, hvisited.operands_eq, he, Decoder.standardize_of_error he]
    exact ⟨rfl, rfl⟩
  · intro n m hm a ha c e hc he
    have hjudge := Inspector.judge_undecodable (i := .ofPool profile k.pool) hm
      (hdecoded.methods m (List.mem_of_getElem? hm) a ha) hc he
    refine ⟨Attribute.standardize_of_error hc he, Attribute.substitutions_of_error hc he, ?_,
      hjudge, mem_dropped_of_judge hdecoded hm ha hjudge, exists_method_strip hdecoded profile hm⟩
    intro stage
    rw [Inspector.attributeRoots, Inspector.operands_of_error hc he, Attribute.body_of_code? hc]
    exact congrArg _ (List.append_nil _)

/-- Two methods with two opcodes each. All are reserved but the last, which lacks its operand. -/
def cutClass : Bytes :=
  [0xCA, 0xFE, 0xBA, 0xBE, 0, 0, 0, 52,
    0, 6, 7, 0, 2, 1, 0, 1, 65, 1, 0, 1, 109, 1, 0, 3, 40, 41, 86, 1, 0, 4, 67, 111, 100, 101,
    0, 0x21, 0, 1, 0, 0, 0, 0,
    0, 0,
    0, 2,
    0, 1, 0, 3, 0, 4, 0, 1,
    0, 5, 0, 0, 0, 14, 0, 0, 0, 0, 0, 0, 0, 2, 0xE8, 0xE8, 0, 0, 0, 0,
    0, 1, 0, 3, 0, 4, 0, 1,
    0, 5, 0, 0, 0, 14, 0, 0, 0, 0, 0, 0, 0, 2, 0xE8, 0x10, 0, 0, 0, 0,
    0, 0]

/-- In the second method one opcode was replaced before decoding failed. It does not count. -/
theorem substitutions_strip_cutClass :
    ∃ k, parse cutClass = .ok k ∧ (k.strip .standard).2.substitutions = 2 ∧
      ∃ m a c e, k.methods[1]? = some m ∧ a ∈ m.attributes ∧ a.code? = some c ∧
        (Decoder.ofPool .standard (some k.pool)).substitutions c.code ≠ [] ∧
        k.Discarded .standard 1 m a c e := by
  have hparse : (parse cutClass).toOption.any (fun k =>
      decide ((k.strip .standard).2.substitutions = 2) &&
        (k.methods[1]?).any fun m => m.attributes.any fun a => a.code?.any fun c =>
          !((Decoder.ofPool .standard (some k.pool)).decode c.code).isOk &&
            decide ((Decoder.ofPool .standard (some k.pool)).substitutions c.code ≠ []))
        = true := by
    decide +kernel
  obtain ⟨k, hk, hcheck⟩ := exists_of_toOption hparse
  obtain ⟨hcount, hmethod⟩ := Bool.and_eq_true_iff.mp hcheck
  obtain ⟨m, hm, hattribute⟩ := (Option.any_eq_true _ _).mp hmethod
  obtain ⟨a, ha, hcode⟩ := List.any_eq_true.mp hattribute
  obtain ⟨c, hc, hfails⟩ := (Option.any_eq_true _ _).mp hcode
  obtain ⟨hfails, hsome⟩ := Bool.and_eq_true_iff.mp hfails
  obtain ⟨-, -, -, hdiscarded⟩ := substitutions_strip hk .standard
  cases he : (Decoder.ofPool .standard (some k.pool)).decode c.code with
  | ok insns =>
    rw [he] at hfails
    cases hfails
  | error e =>
    exact ⟨k, hk, of_decide_eq_true hcount, m, a, c, e, hm, ha, hc, of_decide_eq_true hsome,
      hdiscarded 1 m hm a ha c e hc he⟩

end ClassFile

end ClassPrune
