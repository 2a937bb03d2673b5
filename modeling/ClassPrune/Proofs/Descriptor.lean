import ClassPrune.Descriptor
import Mathlib.Data.List.TakeWhile

/-!
# The grammar of descriptors

Reading a descriptor takes one field type after the other from the front. A class name may hold
parentheses and the letters of other types, so it matters that every field type says where it ends:
the reader never has a choice, and what it gives is written in one way only.

- `IsClassName`, `IsFieldType`, `IsMethod`: the grammar, on texts.
- `FieldType.read?_eq_some_iff`: what is read at the front of a text is a well-formed field type,
  and the text is what it is written as, then the rest.
- `Descriptor.parseChars_eq_iff`: a descriptor is read from the text that it is written as, and from
  no other.
- `Descriptor.parse_follows_grammar`: a text is read as what the grammar says, and nothing of it is
  lost.
-/

namespace ClassPrune

/-! ## Texts -/

/-- The name of a class: not empty, without `.`, `;` and `[`, and without an empty part between
slashes. -/
structure IsClassName (name : List Char) : Prop where
  nonempty : name ≠ []
  plain : ∀ c ∈ name, c ≠ '.' ∧ c ≠ ';' ∧ c ≠ '['
  parts : [] ∉ name.splitOn '/'

/-- What an array is made of in the end: a base type, or a class. -/
inductive IsElementType : List Char → Prop
  | base {c : Char} (letter : c ∈ ['B', 'C', 'D', 'F', 'I', 'J', 'S', 'Z']) : IsElementType [c]
  | object {name : List Char} (className : IsClassName name) :
    IsElementType ('L' :: (name ++ [';']))

/-- At most 255 brackets, then an element type. -/
inductive IsFieldType : List Char → Prop
  | array {depth : Nat} {element : List Char} (depth_le : depth ≤ 255)
    (isElement : IsElementType element) : IsFieldType (List.replicate depth '[' ++ element)

/-- The parameters in parentheses, then `V` or a field type. -/
structure IsMethod (parameters : List (List Char)) (result text : List Char) : Prop where
  isFieldType : ∀ p ∈ parameters, IsFieldType p
  isResult : result = ['V'] ∨ IsFieldType result
  text_eq : text = '(' :: (parameters.flatten ++ ')' :: result)

/-- The parts of a name are found by one pass, as the library splits lists. -/
theorem segments_eq_splitOn (name : List Char) : segments name = name.splitOn '/' := by
  induction name with
  | nil => rfl
  | cons c rest ih =>
    rw [segments, ih, List.splitOn, List.splitOn, List.splitOnP_cons_eq_if_modifyHead]
    by_cases hc : c = '/'
    · rw [if_pos hc, if_pos (by simpa using hc)]
    · rw [if_neg hc, if_neg (by simpa using hc)]
      cases hparts : rest.splitOnP (· == '/') with
      | nil => exact absurd hparts (List.splitOnP_ne_nil _ _)
      | cons part parts => rfl

/-- The test of names accepts what the grammar does. -/
theorem isBinaryName_iff {name : List Char} : isBinaryName name = true ↔ IsClassName name := by
  rw [isBinaryName, segments_eq_splitOn]
  simp only [Bool.and_eq_true, bne_iff_ne, List.all_eq_true]
  constructor
  · rintro ⟨⟨hnonempty, hplain⟩, hparts⟩
    exact ⟨hnonempty, fun c hc => and_assoc.mp (hplain c hc), fun hmem => hparts [] hmem rfl⟩
  · rintro ⟨hnonempty, hplain, hparts⟩
    refine ⟨⟨hnonempty, fun c hc => and_assoc.mpr (hplain c hc)⟩, ?_⟩
    rintro part hmem rfl
    exact hparts hmem

/-! ## Field types -/

theorem BaseType.letter_of_ofLetter? {c : Char} {t : BaseType}
    (h : BaseType.ofLetter? c = some t) : t.letter = c := by
  unfold BaseType.ofLetter? at h
  split at h <;> cases h <;> rfl

/-- A class is named by a class name. -/
def ElementType.WellFormed : ElementType → Prop
  | .base _ => True
  | .object name => IsClassName name

namespace FieldType

/-- Not too many brackets, and a well-formed element type. -/
structure WellFormed (t : FieldType) : Prop where
  depth_le : t.depth ≤ 255
  element : t.element.WellFormed

/-- The grammar of element types, in terms of what is written for them. -/
theorem isElementType_iff {text : List Char} :
    IsElementType text ↔ ∃ e : ElementType, e.WellFormed ∧ text = encodeElement e := by
  constructor
  · rintro (⟨hletter⟩ | ⟨hname⟩)
    · simp only [List.mem_cons, List.not_mem_nil, or_false] at hletter
      rcases hletter with rfl | rfl | rfl | rfl | rfl | rfl | rfl | rfl
      · exact ⟨.base .byte, trivial, rfl⟩
      · exact ⟨.base .char, trivial, rfl⟩
      · exact ⟨.base .double, trivial, rfl⟩
      · exact ⟨.base .float, trivial, rfl⟩
      · exact ⟨.base .int, trivial, rfl⟩
      · exact ⟨.base .long, trivial, rfl⟩
      · exact ⟨.base .short, trivial, rfl⟩
      · exact ⟨.base .boolean, trivial, rfl⟩
    · exact ⟨.object _, hname, rfl⟩
  · rintro ⟨t | name, hwell, rfl⟩
    · exact .base (by cases t <;> decide)
    · exact .object hwell

theorem isFieldType_iff {text : List Char} :
    IsFieldType text ↔ ∃ t : FieldType, t.WellFormed ∧ text = t.encode := by
  constructor
  · rintro ⟨hdepth, helement⟩
    obtain ⟨e, hwell, rfl⟩ := isElementType_iff.mp helement
    exact ⟨⟨_, e⟩, ⟨hdepth, hwell⟩, rfl⟩
  · rintro ⟨t, hwell, rfl⟩
    exact .array hwell.depth_le (isElementType_iff.mpr ⟨_, hwell.element, rfl⟩)

/-- The characters that an element type starts with. -/
theorem exists_encodeElement (e : ElementType) :
    ∃ c rest, encodeElement e = c :: rest ∧ c ≠ '[' ∧ c ≠ ')' ∧ c ≠ '(' ∧ c ≠ 'V' := by
  cases e with
  | base t => cases t <;> exact ⟨_, _, rfl, by decide⟩
  | object name => exact ⟨_, _, rfl, by decide⟩

/-- No field type starts as the end of the parameters, as a method or as an absent result. -/
theorem exists_encode (t : FieldType) :
    ∃ c rest, t.encode = c :: rest ∧ c ≠ ')' ∧ c ≠ '(' ∧ c ≠ 'V' := by
  obtain ⟨depth, e⟩ := t
  obtain ⟨c, rest, he, -, hne⟩ := exists_encodeElement e
  cases depth with
  | zero => exact ⟨c, rest, he, hne⟩
  | succ depth => exact ⟨'[', _, rfl, by decide⟩

/-- What an element type is written as is read at the front of any text. -/
theorem readElement?_encode {e : ElementType} (h : e.WellFormed) (rest : List Char) :
    readElement? (encodeElement e ++ rest) = some (e, rest) := by
  cases e with
  | base t => cases t <;> rfl
  | object name =>
    have hname : IsClassName name := h
    -- the name goes up to the semicolon
    have hends : ∀ c ∈ name, (c != ';') = true := fun c hc => bne_iff_ne.mpr (hname.plain c hc).2.1
    rw [encodeElement, List.cons_append, List.append_assoc, List.singleton_append, readElement?,
      List.takeWhile_append_of_pos hends, List.dropWhile_append_of_pos hends]
    simp [isBinaryName_iff.mpr hname]

/-- What is read at the front is well formed, and the text is what it is written as, then the rest.
-/
theorem readElement?_eq_some {text rest : List Char} {e : ElementType}
    (h : readElement? text = some (e, rest)) :
    e.WellFormed ∧ text = encodeElement e ++ rest := by
  unfold readElement? at h
  split at h
  · rename_i rest'
    dsimp only at h
    split at h
    · rename_i c more hdrop
      split at h
      · rename_i hname
        cases h
        refine ⟨isBinaryName_iff.mp hname, ?_⟩
        have hsemicolon : c = ';' := by
          have hhead := List.head?_dropWhile_not (· != ';') rest'
          rw [hdrop] at hhead
          simpa using hhead
        rw [hsemicolon] at hdrop
        rw [encodeElement, List.cons_append, List.append_assoc, List.singleton_append, ← hdrop,
          List.takeWhile_append_dropWhile]
      · cases h
    · cases h
  · obtain ⟨t, ht, heq⟩ := Option.map_eq_some_iff.mp h
    cases heq
    rw [← BaseType.letter_of_ofLetter? ht]
    exact ⟨trivial, rfl⟩
  · cases h

/-- **A field type is read at the front of a text exactly when the text starts with it.** -/
theorem read?_eq_some_iff {text rest : List Char} {t : FieldType} :
    read? text = some (t, rest) ↔ t.WellFormed ∧ text = t.encode ++ rest := by
  constructor
  · intro h
    obtain ⟨⟨e, rest'⟩, helement, h⟩ := Option.bind_eq_some_iff.mp h
    obtain ⟨hdepth, h⟩ := Option.ite_none_left_eq_some.mp h
    cases h
    obtain ⟨hwell, hrest⟩ := readElement?_eq_some helement
    refine ⟨⟨Nat.not_lt.mp hdepth, hwell⟩, ?_⟩
    have hbrackets : text.takeWhile (· = '[')
        = List.replicate (text.takeWhile (· = '[')).length '[' := by
      refine List.eq_replicate_iff.mpr ⟨rfl, fun c hc => ?_⟩
      simpa using List.mem_takeWhile_imp hc
    rw [encode, List.append_assoc, ← hrest, ← hbrackets, List.takeWhile_append_dropWhile]
  · rintro ⟨⟨hdepth, hwell⟩, rfl⟩
    obtain ⟨depth, e⟩ := t
    obtain ⟨c, more, he, hc, -⟩ := exists_encodeElement e
    have hbrackets : ∀ b ∈ List.replicate depth '[', decide (b = '[') = true := fun b hb =>
      decide_eq_true (List.eq_of_mem_replicate hb)
    have htake : (encodeElement e ++ rest).takeWhile (· = '[') = [] := by simp [he, hc]
    have hdrop : (encodeElement e ++ rest).dropWhile (· = '[') = encodeElement e ++ rest := by
      simp [he, hc]
    rw [read?, encode, List.append_assoc, List.takeWhile_append_of_pos hbrackets,
      List.dropWhile_append_of_pos hbrackets, htake, hdrop, readElement?_encode hwell,
      List.append_nil, List.length_replicate]
    exact if_neg (Nat.not_lt.mpr hdepth)

end FieldType

namespace Descriptor

open FieldType (isFieldType_iff exists_encode)

/-! ## Parameters -/

/-- Parameters are read up to the closing parenthesis, one field type after the other. -/
theorem readParameters?_eq_some {n : Nat} {text rest : List Char} {ts : List FieldType}
    (h : readParameters? n text = some (ts, rest)) :
    (∀ t ∈ ts, t.WellFormed) ∧ text = ts.flatMap FieldType.encode ++ ')' :: rest := by
  fun_induction readParameters? n text generalizing ts rest with
  | case1 n rest' =>
    cases h
    exact ⟨nofun, rfl⟩
  | case2 text hne => cases h
  | case3 n text hne ih =>
    obtain ⟨⟨t, more⟩, hread, h⟩ := Option.bind_eq_some_iff.mp h
    obtain ⟨⟨us, back⟩, hreads, h⟩ := Option.bind_eq_some_iff.mp h
    cases h
    obtain ⟨hwell, rfl⟩ := FieldType.read?_eq_some_iff.mp hread
    obtain ⟨hwells, rfl⟩ := ih _ hreads
    rw [List.flatMap_cons, List.append_assoc]
    exact ⟨List.forall_mem_cons.mpr ⟨hwell, hwells⟩, rfl⟩

/-- Parameters are read in as many steps as there are of them. -/
theorem readParameters?_encode {n : Nat} {ts : List FieldType} (hn : ts.length ≤ n)
    (hwell : ∀ t ∈ ts, t.WellFormed) (rest : List Char) :
    readParameters? n (ts.flatMap FieldType.encode ++ ')' :: rest) = some (ts, rest) := by
  induction ts generalizing n with
  | nil => cases n <;> rfl
  | cons t ts ih =>
    rw [List.length_cons] at hn
    obtain ⟨n, rfl⟩ : ∃ m, n = m + 1 := ⟨n - 1, by omega⟩
    obtain ⟨hhead, htail⟩ := List.forall_mem_cons.mp hwell
    have hread : FieldType.read? (t.encode ++ (ts.flatMap FieldType.encode ++ ')' :: rest)) = _ :=
      FieldType.read?_eq_some_iff.mpr ⟨hhead, rfl⟩
    obtain ⟨c, more, ht, hne, -⟩ := exists_encode t
    rw [List.flatMap_cons, List.append_assoc]
    rw [ht, List.cons_append] at hread ⊢
    rw [readParameters?.eq_3 _ _ (by simpa using hne), hread]
    simp [ih (Nat.le_of_succ_le_succ hn) htail]

/-- No field type is written as the empty text, so the length of a text bounds how many parameters
it has. -/
theorem length_le_flatMap_encode (ts : List FieldType) :
    ts.length ≤ (ts.flatMap FieldType.encode).length := by
  induction ts with
  | nil => exact Nat.le_refl _
  | cons t ts ih =>
    obtain ⟨c, rest, ht, -⟩ := exists_encode t
    rw [List.flatMap_cons, List.length_append, ht, List.length_cons, List.length_cons]
    omega

/-! ## Descriptors -/

theorem readWhole?_eq_some_iff {text : List Char} {t : FieldType} :
    readWhole? text = some t ↔ t.WellFormed ∧ text = t.encode := by
  have hiff : FieldType.read? text = some (t, []) ↔ t.WellFormed ∧ text = t.encode ++ [] :=
    FieldType.read?_eq_some_iff
  rw [List.append_nil] at hiff
  rw [← hiff, readWhole?]
  rcases FieldType.read? text with _ | ⟨t', _ | ⟨c, rest⟩⟩ <;> simp

/-- The text of the result of a method. -/
def encodeResult : Option FieldType → List Char
  | none => ['V']
  | some t => t.encode

theorem encode_method (ts : List FieldType) (result : Option FieldType) :
    encode (.method ts result)
      = '(' :: (ts.flatMap FieldType.encode ++ ')' :: encodeResult result) := by
  cases result <;> rfl

/-- A method descriptor is its parameters in parentheses, then its result or `V`. -/
theorem readMethod?_eq_some {text : List Char} {d : Descriptor} (h : readMethod? text = some d) :
    ∃ ts result, d = .method ts result ∧ (∀ t ∈ ts, t.WellFormed) ∧
      (∀ t, result = some t → t.WellFormed) ∧
      text = ts.flatMap FieldType.encode ++ ')' :: encodeResult result := by
  obtain ⟨⟨ts, rest⟩, hparameters, hrest⟩ := Option.bind_eq_some_iff.mp h
  obtain ⟨hwell, rfl⟩ := readParameters?_eq_some hparameters
  dsimp only at hrest
  split at hrest
  · rename_i hvoid
    cases hrest
    exact ⟨ts, none, rfl, hwell, nofun, by rw [hvoid]; rfl⟩
  · obtain ⟨t, hresult, hmethod⟩ := Option.bind_eq_some_iff.mp hrest
    cases hmethod
    obtain ⟨hwell', rfl⟩ := readWhole?_eq_some_iff.mp hresult
    refine ⟨ts, some t, rfl, hwell, ?_, rfl⟩
    rintro t' ⟨⟩
    exact hwell'

/-- What well-formed types are written as is read again. -/
theorem readMethod?_encode {ts : List FieldType} {result : Option FieldType}
    (hwell : ∀ t ∈ ts, t.WellFormed) (hresult : ∀ t, result = some t → t.WellFormed) :
    readMethod? (ts.flatMap FieldType.encode ++ ')' :: encodeResult result)
      = some (.method ts result) := by
  have hlength := length_le_flatMap_encode ts
  rw [readMethod?, readParameters?_encode (by rw [List.length_append]; omega) hwell]
  cases result with
  | none => rfl
  | some t =>
    -- a field type does not start as an absent result
    obtain ⟨c, rest, ht, -, -, hne⟩ := exists_encode t
    have hvoid : t.encode ≠ ['V'] := by
      rw [ht]
      intro heq
      exact hne (List.cons.inj heq).1
    have hread := readWhole?_eq_some_iff.mpr ⟨hresult t rfl, rfl⟩
    simp [encodeResult, hvoid, hread]

/-- All field types in a descriptor are well-formed. -/
def WellFormed : Descriptor → Prop
  | .illegal => True
  | .field t => t.WellFormed
  | .method ts result => (∀ t ∈ ts, t.WellFormed) ∧ ∀ t, result = some t → t.WellFormed

/-- **A text is read as a descriptor exactly when it is the text of that descriptor.** -/
theorem parseChars_eq_iff {text : List Char} {d : Descriptor} (hd : d ≠ .illegal) :
    parseChars text = d ↔ d.WellFormed ∧ text = d.encode := by
  constructor
  · rintro rfl
    unfold parseChars at hd ⊢
    split at hd
    · rename_i rest
      cases hread : readMethod? rest with
      | none =>
        rw [hread] at hd
        exact absurd rfl hd
      | some d =>
        obtain ⟨ts, result, rfl, hwell, hresult, rfl⟩ := readMethod?_eq_some hread
        exact ⟨⟨hwell, hresult⟩, (encode_method ts result).symm⟩
    · cases hread : readWhole? text with
      | none =>
        rw [hread] at hd
        exact absurd rfl hd
      | some t =>
        obtain ⟨hwell, htext⟩ := readWhole?_eq_some_iff.mp hread
        exact ⟨hwell, htext⟩
  · rintro ⟨hwell, rfl⟩
    cases d with
    | illegal => exact absurd rfl hd
    | field t =>
      obtain ⟨c, rest, ht, -, hne, -⟩ := exists_encode t
      have hread := readWhole?_eq_some_iff.mpr ⟨hwell, rfl⟩
      rw [encode]
      rw [ht] at hread ⊢
      rw [parseChars.eq_2 _ (by simpa using hne), hread]
      rfl
    | method ts result =>
      rw [encode_method, parseChars, readMethod?_encode hwell.1 hwell.2]
      rfl

/-! ## The grammar -/

theorem exists_map_encode {texts : List (List Char)} (h : ∀ p ∈ texts, IsFieldType p) :
    ∃ ts : List FieldType, (∀ t ∈ ts, t.WellFormed) ∧ ts.map FieldType.encode = texts := by
  induction texts with
  | nil => exact ⟨[], nofun, rfl⟩
  | cons p texts ih =>
    obtain ⟨hhead, htail⟩ := List.forall_mem_cons.mp h
    obtain ⟨t, hwell, rfl⟩ := isFieldType_iff.mp hhead
    obtain ⟨ts, hwells, rfl⟩ := ih htail
    exact ⟨t :: ts, List.forall_mem_cons.mpr ⟨hwell, hwells⟩, rfl⟩

/-- What the grammar calls a field type is read as one. -/
theorem field_iff {text : List Char} :
    (∃ t, parseChars text = .field t) ↔ IsFieldType text := by
  rw [isFieldType_iff]
  refine exists_congr fun t => ?_
  exact parseChars_eq_iff (d := .field t) (by simp)

/-- What the grammar calls a method is read as one, with as many parameters as the text has. -/
theorem parseChars_of_isMethod {parameters : List (List Char)} {result text : List Char}
    (h : IsMethod parameters result text) :
    ∃ ts result', parseChars text = .method ts result' ∧ ts.map FieldType.encode = parameters := by
  obtain ⟨ts, hwell, rfl⟩ := exists_map_encode h.isFieldType
  obtain ⟨result', hwell', rfl⟩ : ∃ result' : Option FieldType,
      (∀ t, result' = some t → t.WellFormed) ∧ encodeResult result' = result := by
    rcases h.isResult with rfl | hfield
    · exact ⟨none, nofun, rfl⟩
    · obtain ⟨t, hwell, rfl⟩ := isFieldType_iff.mp hfield
      refine ⟨some t, ?_, rfl⟩
      rintro t' ⟨⟩
      exact hwell
  refine ⟨ts, result', (parseChars_eq_iff (by simp)).mpr ⟨⟨hwell, hwell'⟩, ?_⟩, rfl⟩
  rw [h.text_eq, encode_method, List.flatMap_def]

/-- What is read as a method descriptor, by the grammar. -/
theorem method_iff {text : List Char} : (∃ ts result, parseChars text = .method ts result) ↔
    ∃ parameters result, IsMethod parameters result text := by
  constructor
  · rintro ⟨ts, result, h⟩
    obtain ⟨⟨hwell, hresult⟩, htext⟩ := (parseChars_eq_iff (by simp)).mp h
    refine ⟨ts.map FieldType.encode, encodeResult result, ?_, ?_, ?_⟩
    · rintro _ hmem
      obtain ⟨t, ht, rfl⟩ := List.mem_map.mp hmem
      exact isFieldType_iff.mpr ⟨t, hwell t ht, rfl⟩
    · cases result with
      | none => exact .inl rfl
      | some t => exact .inr (isFieldType_iff.mpr ⟨t, hresult t rfl, rfl⟩)
    · rw [htext, encode_method, List.flatMap_def]
  · rintro ⟨parameters, result, h⟩
    obtain ⟨ts, result', hparse, -⟩ := parseChars_of_isMethod h
    exact ⟨ts, result', hparse⟩

/-- **A text is read as what the grammar says**, and what is read is written as the text again. The
parameters that are read are those that the text has between its parentheses. -/
theorem parse_follows_grammar (s : String) :
    ((∃ t, parse s = .field t) ↔ IsFieldType s.toList) ∧
    ((∃ ts result, parse s = .method ts result) ↔
      ∃ parameters result, IsMethod parameters result s.toList) ∧
    (parse s = .illegal ↔
      ¬IsFieldType s.toList ∧ ¬∃ parameters result, IsMethod parameters result s.toList) ∧
    (parse s ≠ .illegal → (parse s).encode = s.toList) ∧
    ∀ parameters result, IsMethod parameters result s.toList →
      (parse s).parameterCount? = some parameters.length := by
  refine ⟨field_iff, method_iff, ?_, fun h => ((parseChars_eq_iff h).mp rfl).2.symm, ?_⟩
  · rw [← field_iff, ← method_iff, parse]
    cases parseChars s.toList <;> simp
  · intro parameters result h
    obtain ⟨ts, result', hparse, rfl⟩ := parseChars_of_isMethod h
    rw [parse, hparse, parameterCount?, List.length_map]

/-- A class name may hold what ends the parameters elsewhere. -/
example : parse "([La(b)V;I)V"
    = .method [⟨1, .object "a(b)V".toList⟩, ⟨0, .base .int⟩] none := by decide +kernel

end Descriptor

end ClassPrune
