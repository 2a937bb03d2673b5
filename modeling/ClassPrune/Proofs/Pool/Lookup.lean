import ClassPrune.Proofs.Pool.WellFormed

/-!
# Look-ups in well-formed pools

In a well-formed pool the kind, the text and the class name at an index depend on nothing but
the constants, as a file gives them.

- `Pool.WellFormed.tag?_eq`, `Pool.WellFormed.utf8_eq`, `Pool.WellFormed.className_eq`: the
  look-ups in terms of `Pool.constant?`.
- `Pool.AgreeOff`: two pools that these look-ups cannot tell apart, but for the kinds at some
  indices. Pools with the same constants agree everywhere (`Pool.SameConstants.agree`).
- `Pool.AgreeAt`: the same at one index.

These three look-ups are all that the rules of stripping ask of a pool. Whatever changes a pool and
leaves them alone changes no verdict, and so the later modules have to show agreement and nothing
about references or cells.
-/

namespace ClassPrune

/-- The text that a constant is. -/
def Entry.text {ρ : Type} : Entry ρ → String
  | .utf8 raw => ModifiedUtf8.toString raw
  | _ => ""

/-- The reference of a class constant to its name. -/
def Entry.className? {ρ : Type} : Entry ρ → Option ρ
  | .named .classRef text => some text
  | _ => none

namespace Pool

/-- Replacing references keeps the text of a constant and the place of a class name. -/
theorem mapRefs_views {ρ σ ε : Type} {f : Target → ρ → Except ε σ} {e : Entry ρ} {e' : Entry σ}
    (h : e.mapRefs f = .ok e') : e'.text = e.text ∧
      (∀ r, e.className? = some r → ∃ s, f .text r = .ok s ∧ e'.className? = some s) ∧
      (e.className? = none → e'.className? = none) := by
  cases e with
  | named kind text =>
    obtain ⟨s, hs, rfl⟩ := Entry.bind_one_eq_ok.mp h
    refine ⟨rfl, ?_, ?_⟩
    · intro r hr
      cases kind with
      | classRef =>
        cases hr
        exact ⟨s, hs, rfl⟩
      | _ => cases hr
    · intro hnone
      cases kind with
      | classRef => cases hnone
      | _ => rfl
  | member kind owner nameType =>
    obtain ⟨s, t, -, -, rfl⟩ := Entry.bind_pair_eq_ok.mp h
    exact ⟨rfl, fun r hr => (nomatch hr), fun _ => rfl⟩
  | nameAndType name descriptor =>
    obtain ⟨s, t, -, -, rfl⟩ := Entry.bind_pair_eq_ok.mp h
    exact ⟨rfl, fun r hr => (nomatch hr), fun _ => rfl⟩
  | methodHandle kind reference =>
    obtain ⟨s, -, rfl⟩ := Entry.bind_one_eq_ok.mp h
    exact ⟨rfl, fun r hr => (nomatch hr), fun _ => rfl⟩
  | computed kind bootstrap nameType =>
    obtain ⟨s, -, rfl⟩ := Entry.bind_one_eq_ok.mp h
    exact ⟨rfl, fun r hr => (nomatch hr), fun _ => rfl⟩
  | _ =>
    cases h
    exact ⟨rfl, fun r hr => (nomatch hr), fun _ => rfl⟩

/-- The text at an index is that of the constant there; without a constant, or with another kind of
constant, it is empty. -/
theorem utf8_eq_text (p : Pool) (index : PoolIndex) :
    p.utf8 index = ((p.entry? index).map Entry.text).getD "" := by
  rw [utf8, raw?]
  cases p.entry? index with
  | none => rfl
  | some e => cases e <;> rfl

/-- A text that is not empty comes from a text constant. -/
theorem tag?_of_utf8_ne {p : Pool} {index : PoolIndex} (h : p.utf8 index ≠ "") :
    p.tag? index = some .utf8 := by
  rw [utf8_eq_text] at h
  rw [tag?]
  cases hentry : p.entry? index with
  | none =>
    rw [hentry] at h
    exact absurd rfl h
  | some e =>
    rw [hentry] at h
    cases e with
    | utf8 raw => rfl
    | _ => exact absurd rfl h

/-- A class name is the text of the constant to which the one at the index refers. -/
theorem className_eq_textOf (p : Pool) (index : PoolIndex) :
    p.className index = (((p.entry? index).bind Entry.className?).map p.textOf).getD "" := by
  rw [className, named]
  cases p.entry? index with
  | none => rfl
  | some e =>
    cases e with
    | named kind text => cases kind <;> rfl
    | _ => rfl

namespace WellFormed

variable {p : Pool} (h : p.WellFormed)

include h

/-- In a well-formed pool every constant has a form in the file. -/
theorem constant?_eq_none_iff {index : PoolIndex} :
    p.constant? index = none ↔ p.find? index = none := by
  constructor
  · intro hnone
    cases hfind : p.find? index with
    | none => rfl
    | some id =>
      obtain ⟨e, he⟩ := h.exists_resolved hfind
      rw [constant?_of_find? hfind he] at hnone
      cases hnone
  · intro hfind
    rw [constant?, hfind]
    rfl

/-- The kind at an index is that of the constant. -/
theorem tag?_eq (index : PoolIndex) : p.tag? index = (p.constant? index).map Entry.tag := by
  rw [tag?, entry?]
  cases hfind : p.find? index with
  | none => rw [h.constant?_eq_none_iff.mpr hfind]; rfl
  | some id =>
    obtain ⟨e, he⟩ := h.exists_resolved hfind
    rw [constant?_of_find? hfind he]
    show some (p.cell id).entry.tag = some e.tag
    rw [(Entry.mapRefs_relinked he).tag_eq]

/-- The text at an index is that of the constant. -/
theorem utf8_eq (index : PoolIndex) :
    p.utf8 index = ((p.constant? index).map Entry.text).getD "" := by
  rw [utf8_eq_text, entry?]
  cases hfind : p.find? index with
  | none => rw [h.constant?_eq_none_iff.mpr hfind]; rfl
  | some id =>
    obtain ⟨e, he⟩ := h.exists_resolved hfind
    rw [constant?_of_find? hfind he]
    show (p.cell id).entry.text = e.text
    rw [(mapRefs_views he).1]

/-- The name of the class at an index is the text at the index that the constant names. -/
theorem className_eq (index : PoolIndex) :
    p.className index = (((p.constant? index).bind Entry.className?).map p.utf8).getD "" := by
  rw [className_eq_textOf, entry?]
  cases hfind : p.find? index with
  | none => rw [h.constant?_eq_none_iff.mpr hfind]; rfl
  | some id =>
    obtain ⟨e, he⟩ := h.exists_resolved hfind
    rw [constant?_of_find? hfind he]
    show (((p.cell id).entry.className?).map p.textOf).getD ""
      = ((e.className?).map p.utf8).getD ""
    obtain ⟨-, hsome, hnone⟩ := mapRefs_views he
    cases hname : (p.cell id).entry.className? with
    | none => rw [hnone hname]; rfl
    | some r =>
      obtain ⟨s, hs, hs'⟩ := hsome r hname
      have hlink : (Target.text, r) ∈ (p.cell id).entry.links := by
        cases hentry : (p.cell id).entry with
        | named kind text =>
          rw [hentry] at hname
          cases kind with
          | classRef =>
            cases hname
            exact List.mem_singleton.mpr rfl
          | _ => cases hname
        | _ =>
          rw [hentry] at hname
          cases hname
      -- the name is bound to the constant in the slot that it is written as
      obtain ⟨target, rfl, htarget, -⟩ := h.bound hfind hlink
      have hindex : s = (p.cell target).index := by
        have hne := (find?_eq_some_iff.mp htarget).1
        simp only [assignedIndex, if_neg hne] at hs
        exact (Except.ok.inj hs).symm
      rw [hs', hindex]
      show p.textOf (some target) = p.utf8 (p.cell target).index
      rw [utf8_eq_text, entry?, htarget]
      show _ = (p.cell target).entry.text
      rw [textOf]
      cases (p.cell target).entry <;> rfl

end WellFormed

/-! ## Agreement -/

/-- Look-ups of texts and class names give the same in both pools, and so do look-ups of kinds
at all but the given indices. -/
structure AgreeOff (changed : List PoolIndex) (p q : Pool) : Prop where
  utf8_eq : q.utf8 = p.utf8
  className_eq : q.className = p.className
  tag?_eq : ∀ index, index ∉ changed → q.tag? index = p.tag? index

/-- Look-ups at the index give the same in both pools. -/
structure AgreeAt (p q : Pool) (index : PoolIndex) : Prop where
  tag?_eq : q.tag? index = p.tag? index
  utf8_eq : q.utf8 index = p.utf8 index
  className_eq : q.className index = p.className index

theorem AgreeOff.agreeAt {changed : List PoolIndex} {p q : Pool} (h : AgreeOff changed p q)
    {index : PoolIndex} (hindex : index ∉ changed) : AgreeAt p q index :=
  ⟨h.tag?_eq index hindex, congrFun h.utf8_eq index, congrFun h.className_eq index⟩

/-- Look-ups cannot tell the pools apart. -/
abbrev Agree (p q : Pool) : Prop := AgreeOff [] p q

theorem Agree.refl (p : Pool) : Agree p p := ⟨rfl, rfl, fun _ _ => rfl⟩

/-- Look-ups cannot tell well-formed pools with the same constants apart. -/
theorem SameConstants.agree {p q : Pool} (h : p.SameConstants q) (hp : p.WellFormed)
    (hq : q.WellFormed) : Agree p q := by
  have hutf8 : q.utf8 = p.utf8 := by
    funext index
    rw [hq.utf8_eq, hp.utf8_eq, h.constant_eq]
  refine ⟨hutf8, ?_, ?_⟩
  · funext index
    rw [hq.className_eq, hp.className_eq, h.constant_eq, hutf8]
  · intro index _
    rw [hq.tag?_eq, hp.tag?_eq, h.constant_eq]

end Pool

end ClassPrune
