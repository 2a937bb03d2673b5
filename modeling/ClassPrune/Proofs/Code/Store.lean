import ClassPrune.Code.Store
import ClassPrune.Proofs.Code.Standard
import Mathlib.Algebra.GroupWithZero.Nat

/-!
# The pass over code arrays

Replaced opcodes are told before it is known whether an array decodes, and three later steps rely on
what the pass has kept. None of this can be told from putting every array in standard form on its
own, and decoding it again whenever its instructions are asked for.

- `CodeStore.normalize_run`: an array is put in standard form, with all that belongs to it, or
  nothing is written.
- `CodeStore.normalizeAll_visited`: what the pass makes of all arrays (`Unvisited.visit` and
  `sameAt_visit` are the step).
- `CodeStore.Keeps`: what holds after the pass, and after every request for instructions that comes
  later. An array outside the pass is visited by the first request for it (`Keeps.ask` is the step,
  `Keeps.askAll` the run).
- `CodeStore.Keeps.instructions_run`: whatever was asked for before, a request gives what decoding
  the array again would give.

So whoever reads the code of a class may as well decode it again: what was kept says the same.
-/

namespace ClassPrune

namespace CodeStore

variable {d : Decoder} {s : CodeStore} {id : CodeId}

theorem put_self {α : Type} (f : CodeId → α) (id : CodeId) (value : α) :
    put f id value id = value := if_pos rfl

theorem put_of_ne {α : Type} {f : CodeId → α} {id other : CodeId} (h : other ≠ id) (value : α) :
    put f id value other = f other := if_neg h

theorem put_eq_self {α : Type} (f : CodeId → α) (id : CodeId) : put f id (f id) = f := by
  funext other
  by_cases h : other = id
  · rw [h, put_self]
  · rw [put_of_ne h]

/-- The arrays after one of them was found to decode. -/
def settled (d : Decoder) (s : CodeStore) (id : CodeId) (insns : List Instruction) : CodeStore where
  code := put s.code id (d.standardize (s.code id)).code
  decoded := put s.decoded id (some insns)
  broken := s.broken
  substitutions := s.substitutions + (d.standardize (s.code id)).substitutions

/-- **All or nothing.** Code that decodes is put in standard form, counted and kept. When it does
not decode nothing was written, whatever was replaced on the way. -/
theorem normalize_run (d : Decoder) (s : CodeStore) (id : CodeId) :
    (normalize d id).run s = match d.decode (s.code id) with
      | .ok insns => .ok () (s.settled d id insns)
      | .error error => .error (.undecodable error) s := by
  have hget : (getThe CodeStore : EStateM CodeFault CodeStore CodeStore).run s = .ok s s := rfl
  unfold normalize Decoder.decode
  rw [EStateM.run_bind, hget]
  rcases hrun : d.run (s.code id) with ⟨steps, _ | error⟩
  · have hdecode : d.decode (s.code id) = .ok (steps.flatMap Step.insns) := by
      rw [Decoder.decode, hrun]
    have hsubstitutions : steps.filterMap Step.substitution = d.substitutions (s.code id) := by
      rw [Decoder.substitutions, hrun]
    obtain ⟨out, hout, -, -⟩ := Decoder.encodeCode_standard hdecode
    dsimp only
    rw [hrun, hsubstitutions, hout, settled, Decoder.standardize, hdecode]
    show EStateM.run (if (d.substitutions (s.code id)).length > 0 then _ else _) s = _
    by_cases hcount : (d.substitutions (s.code id)).length = 0
    · -- nothing is written, and the array stays as it is
      have hsame : put s.code id (s.code id) = s.code := put_eq_self s.code id
      rw [if_neg (by omega)]
      simp only [if_pos hcount]
      rw [hsame]
      rfl
    · rw [if_pos (Nat.pos_of_ne_zero hcount)]
      simp only [if_neg hcount, hout]
      rfl
  · dsimp only
    rw [hrun]
    rfl

/-! ## One array -/

/-- Nothing is known of the array yet. -/
structure Unvisited (s : CodeStore) (id : CodeId) : Prop where
  decoded_eq : s.decoded id = none
  broken_eq : s.broken id = none

/-- Why code has no instructions, if it has none. -/
def fault? (d : Decoder) (code : Bytes) : Option CodeFault :=
  match d.decode code with
  | .ok _ => none
  | .error error => some (.undecodable error)

/-- The array held `code`; it is in standard form now, with its instructions kept, or it was left
alone, and the error kept. -/
structure Visited (d : Decoder) (code : Bytes) (s : CodeStore) (id : CodeId) : Prop where
  code_eq : s.code id = (d.standardize code).code
  decoded_eq : s.decoded id = (d.decode code).toOption
  broken_eq : s.broken id = fault? d code

/-- Nothing about the array is different. -/
structure SameAt (s s' : CodeStore) (id : CodeId) : Prop where
  code_eq : s'.code id = s.code id
  decoded_eq : s'.decoded id = s.decoded id
  broken_eq : s'.broken id = s.broken id

theorem SameAt.unvisited {s' : CodeStore} (h : s.SameAt s' id) (hs : s.Unvisited id) :
    s'.Unvisited id :=
  ⟨h.decoded_eq.trans hs.decoded_eq, h.broken_eq.trans hs.broken_eq⟩

/-- An array that is not different is as settled as it was. -/
theorem SameAt.visited {s' : CodeStore} {code : Bytes} (h : s.SameAt s' id)
    (hs : s.Visited d code id) : s'.Visited d code id :=
  ⟨h.code_eq.trans hs.code_eq, h.decoded_eq.trans hs.decoded_eq, h.broken_eq.trans hs.broken_eq⟩

/-- The visit of an array settles it. -/
theorem Unvisited.visit (h : s.Unvisited id) (d : Decoder) :
    (s.visit d id).Visited d (s.code id) id := by
  rw [CodeStore.visit, normalize_run]
  cases hdecode : d.decode (s.code id) with
  | ok insns =>
    refine ⟨put_self _ _ _, ?_, ?_⟩
    · rw [hdecode]
      exact put_self _ _ _
    · rw [fault?, hdecode]
      exact h.broken_eq
  | error error =>
    refine ⟨?_, ?_, ?_⟩
    · rw [Decoder.standardize_of_error hdecode]
    · rw [hdecode]
      exact h.decoded_eq
    · rw [fault?, hdecode]
      exact put_self _ _ _

/-- The visit of an array does nothing to the others. -/
theorem sameAt_visit {other : CodeId} (hne : other ≠ id) (d : Decoder) (s : CodeStore) :
    s.SameAt (s.visit d id) other := by
  rw [CodeStore.visit, normalize_run]
  cases d.decode (s.code id) with
  | ok insns => exact ⟨put_of_ne hne _, put_of_ne hne _, rfl⟩
  | error error => exact ⟨rfl, rfl, put_of_ne hne _⟩

/-- The visit of an array adds to the count what was replaced in it. -/
theorem substitutions_visit (d : Decoder) (s : CodeStore) (id : CodeId) :
    (s.visit d id).substitutions
      = s.substitutions + (d.standardize (s.code id)).substitutions := by
  rw [CodeStore.visit, normalize_run]
  cases hdecode : d.decode (s.code id) with
  | ok insns => rfl
  | error error => rw [Decoder.standardize_of_error hdecode]; rfl

/-! ## All arrays -/

/-- The pass does nothing to arrays that are not on its list. -/
theorem sameAt_normalizeAll {ids : List CodeId} (hmem : id ∉ ids) (d : Decoder) (s : CodeStore) :
    s.SameAt (s.normalizeAll d ids) id := by
  induction ids generalizing s with
  | nil => exact ⟨rfl, rfl, rfl⟩
  | cons first ids ih =>
    obtain ⟨hne, hmem⟩ := List.ne_and_not_mem_of_not_mem_cons hmem
    have hfirst := sameAt_visit hne d s
    have hrest := ih hmem (s.visit d first)
    exact ⟨hrest.code_eq.trans hfirst.code_eq, hrest.decoded_eq.trans hfirst.decoded_eq,
      hrest.broken_eq.trans hfirst.broken_eq⟩

/-- **The pass settles every array**, each by what it held before, and counts what was replaced in
all of them. -/
theorem normalizeAll_visited {ids : List CodeId} (hnodup : ids.Nodup)
    (h : ∀ id ∈ ids, s.Unvisited id) (d : Decoder) :
    (∀ id ∈ ids, (s.normalizeAll d ids).Visited d (s.code id) id) ∧
      (s.normalizeAll d ids).substitutions
        = s.substitutions + (ids.map fun id => (d.standardize (s.code id)).substitutions).sum := by
  induction ids generalizing s with
  | nil => exact ⟨fun id hid => (nomatch hid), rfl⟩
  | cons first ids ih =>
    obtain ⟨hfresh, hnodup⟩ := List.nodup_cons.mp hnodup
    obtain ⟨hfirst, hrest⟩ := List.forall_mem_cons.mp h
    have hsame : ∀ id ∈ ids, s.SameAt (s.visit d first) id := by
      intro id hid
      refine sameAt_visit ?_ d s
      rintro rfl
      exact hfresh hid
    obtain ⟨hvisited, hcount⟩ := ih hnodup (s := s.visit d first) fun id hid =>
      (hsame id hid).unvisited (hrest id hid)
    constructor
    · refine List.forall_mem_cons.mpr ⟨?_, fun id hid => ?_⟩
      · exact (sameAt_normalizeAll hfresh d _).visited (hfirst.visit d)
      · rw [← (hsame id hid).code_eq]
        exact hvisited id hid
    · have hcodes : (ids.map fun id => (d.standardize ((s.visit d first).code id)).substitutions)
          = ids.map fun id => (d.standardize (s.code id)).substitutions :=
        List.map_congr_left fun id hid => by rw [(hsame id hid).code_eq]
      show ((s.visit d first).normalizeAll d ids).substitutions = _
      rw [hcount, hcodes, substitutions_visit, List.map_cons, List.sum_cons, Nat.add_assoc]

/-! ## What is kept -/

/-- The instructions of an array that was visited before. -/
theorem instructions_of_broken {fault : CodeFault} (h : s.broken id = some fault) :
    (instructions d id).run s = .error fault s := by
  have hget : (getThe CodeStore : EStateM CodeFault CodeStore CodeStore).run s = .ok s s := rfl
  unfold instructions
  rw [EStateM.run_bind, hget]
  dsimp only
  rw [h]
  rfl

theorem instructions_of_decoded {insns : List Instruction} (hbroken : s.broken id = none)
    (hdecoded : s.decoded id = some insns) : (instructions d id).run s = .ok insns s := by
  have hget : (getThe CodeStore : EStateM CodeFault CodeStore CodeStore).run s = .ok s s := rfl
  unfold instructions
  rw [EStateM.run_bind, hget]
  dsimp only
  rw [hbroken, hdecoded]
  rfl

/-- An array decodes to the same instructions before its visit and after it. -/
theorem Visited.decode_code {code : Bytes} (h : s.Visited d code id) :
    d.decode (s.code id) = d.decode code := by
  rw [h.code_eq]
  cases hdecode : d.decode code with
  | ok insns => exact ((Decoder.standard_standardize hdecode).1 d).1
  | error error => rw [Decoder.standardize_of_error hdecode, hdecode]

/-- **What was kept of an array is what decoding it again would give**, and asking for it changes
and counts nothing. -/
theorem Visited.instructions_run {code : Bytes} (h : s.Visited d code id) :
    (instructions d id).run s = match d.decode (s.code id) with
      | .ok insns => .ok insns s
      | .error error => .error (.undecodable error) s := by
  rw [h.decode_code]
  obtain ⟨-, hdecoded, hbroken⟩ := h
  rw [fault?] at hbroken
  cases hdecode : d.decode code with
  | ok insns =>
    rw [hdecode] at hdecoded hbroken
    exact instructions_of_decoded hbroken hdecoded
  | error error =>
    rw [hdecode] at hbroken
    exact instructions_of_broken hbroken

/-- An array that nothing is known of is visited on the way. -/
theorem Unvisited.instructions_run (h : s.Unvisited id) (d : Decoder) :
    (instructions d id).run s = match d.decode (s.code id) with
      | .ok insns => .ok insns (s.visit d id)
      | .error error => .error (.undecodable error) (s.visit d id) := by
  have hget : (getThe CodeStore : EStateM CodeFault CodeStore CodeStore).run s = .ok s s := rfl
  obtain ⟨-, hdecoded, hbroken⟩ := h.visit d
  rw [fault?] at hbroken
  unfold instructions
  rw [EStateM.run_bind, hget]
  dsimp only
  rw [h.broken_eq, h.decoded_eq]
  cases hdecode : d.decode (s.code id) with
  | ok insns =>
    rw [hdecode] at hdecoded hbroken
    dsimp only
    rw [hbroken, hdecoded]
    rfl
  | error error =>
    rw [hdecode] at hbroken
    dsimp only
    rw [hbroken]
    rfl

/-- Code that does not decode has no operands. -/
theorem Visited.operands_eq {code : Bytes} (h : s.Visited d code id) :
    s.operands id = match d.decode code with
      | .ok insns => poolOperands insns
      | .error _ => [] := by
  rw [operands, h.decoded_eq]
  cases d.decode code <;> rfl

/-! ## Requests -/

/-- The arrays after a request for the instructions of one of them, whatever came of it. -/
def ask (d : Decoder) (s : CodeStore) (id : CodeId) : CodeStore :=
  match (instructions d id).run s with
  | .ok _ s' => s'
  | .error _ s' => s'

/-- The arrays after several requests. -/
def askAll (d : Decoder) (s : CodeStore) (requests : List CodeId) : CodeStore :=
  requests.foldl (ask d) s

/-- The arrays were `codes` when they came. Those in a list were visited since, and the others are
as they were. -/
structure Keeps (d : Decoder) (codes : CodeId → Bytes) (ids : List CodeId) (s : CodeStore) :
    Prop where
  visited : ∀ id ∈ ids, s.Visited d (codes id) id
  unvisited : ∀ id ∉ ids, s.Unvisited id
  code_eq : ∀ id ∉ ids, s.code id = codes id

/-- The pass visits its own arrays, and no others. -/
theorem keeps_normalizeAll {ids : List CodeId} (hnodup : ids.Nodup) (h : ∀ id, s.Unvisited id)
    (d : Decoder) : (s.normalizeAll d ids).Keeps d s.code ids where
  visited := (normalizeAll_visited hnodup (fun id _ => h id) d).1
  unvisited id hid := (sameAt_normalizeAll hid d s).unvisited (h id)
  code_eq _ hid := (sameAt_normalizeAll hid d s).code_eq

variable {codes : CodeId → Bytes} {ids : List CodeId}

/-- A request for an array that was visited changes nothing. -/
theorem Visited.ask_eq {code : Bytes} (h : s.Visited d code id) : s.ask d id = s := by
  rw [ask, h.instructions_run]
  cases d.decode (s.code id) <;> rfl

/-- The first request for an array visits it. -/
theorem Unvisited.ask_eq (h : s.Unvisited id) (d : Decoder) : s.ask d id = s.visit d id := by
  rw [ask, h.instructions_run]
  cases d.decode (s.code id) <;> rfl

/-- A request visits the array that it is for, if that was not done before. -/
theorem Keeps.ask (h : s.Keeps d codes ids) (id : CodeId) :
    (s.ask d id).Keeps d codes (id :: ids) := by
  by_cases hid : id ∈ ids
  · rw [(h.visited id hid).ask_eq]
    exact ⟨List.forall_mem_cons.mpr ⟨h.visited id hid, h.visited⟩,
      fun other hother => h.unvisited other (List.not_mem_of_not_mem_cons hother),
      fun other hother => h.code_eq other (List.not_mem_of_not_mem_cons hother)⟩
  · rw [(h.unvisited id hid).ask_eq]
    have hvisited := (h.unvisited id hid).visit d
    rw [h.code_eq id hid] at hvisited
    refine ⟨List.forall_mem_cons.mpr ⟨hvisited, fun other hother => ?_⟩,
      fun other hother => ?_, fun other hother => ?_⟩
    · exact (sameAt_visit (ne_of_mem_of_not_mem hother hid) d s).visited (h.visited other hother)
    · obtain ⟨hne, hother⟩ := List.ne_and_not_mem_of_not_mem_cons hother
      exact (sameAt_visit hne d s).unvisited (h.unvisited other hother)
    · obtain ⟨hne, hother⟩ := List.ne_and_not_mem_of_not_mem_cons hother
      exact (sameAt_visit hne d s).code_eq.trans (h.code_eq other hother)

/-- Requests only add to the arrays that were visited. -/
theorem Keeps.askAll (h : s.Keeps d codes ids) (requests : List CodeId) :
    (s.askAll d requests).Keeps d codes (requests.reverse ++ ids) := by
  induction requests generalizing s ids with
  | nil => exact h
  | cons first requests ih =>
    rw [List.reverse_cons, List.append_assoc]
    exact ih (h.ask first)

/-- **A request gives what decoding the array gives**, whether the array was visited or not. -/
theorem Keeps.instructions_run (h : s.Keeps d codes ids) (id : CodeId) :
    (instructions d id).run s = match d.decode (s.code id) with
      | .ok insns => .ok insns (s.ask d id)
      | .error error => .error (.undecodable error) (s.ask d id) := by
  by_cases hid : id ∈ ids
  · rw [(h.visited id hid).ask_eq]
    exact (h.visited id hid).instructions_run
  · rw [(h.unvisited id hid).ask_eq]
    exact (h.unvisited id hid).instructions_run d

end CodeStore

end ClassPrune
