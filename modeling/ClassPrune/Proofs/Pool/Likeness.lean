import ClassPrune.Proofs.Pool.Lookup

/-!
# Constants that are alike

Two pools may hold the same constant in different cells, with its references in different cells
again. What counts is what one sees from the constant when its references are followed. The
references of a pool in memory can form cycles, so likeness is stated to every depth.

- `Entry.Like`: constants of the same form and the same values, whose references correspond.
- `Pool.LikeTo`, `Pool.AlikeAt`: references, and slots, with like constants to every depth.
- `Pool.AlikeAt.agreeAt`: look-ups at a slot see at most two constants deep.

Equal cells would ask too much: a pool that is written and read back numbers its cells anew, and two
compilers give the same class with different pools. What a verdict depends on is less than that.
-/

namespace ClassPrune

/-- What is computed alike from related values is the same. -/
theorem map_eq_of_rel {α β γ : Type} {R : α → β → Prop} {x : Option α} {y : Option β}
    (h : Option.Rel R x y) {f : α → γ} {g : β → γ} (hR : ∀ a b, R a b → g b = f a) :
    y.map g = x.map f := by
  cases h with
  | none => rfl
  | some hab => exact congrArg some (hR _ _ hab)

/-- The constants have the same form and the same values, and their references correspond. -/
inductive Entry.Like {ρ σ : Type} (R : ρ → σ → Prop) : Entry ρ → Entry σ → Prop
  | utf8 {raw : Bytes} : Like R (.utf8 raw) (.utf8 raw)
  | integer {bits : UInt32} : Like R (.integer bits) (.integer bits)
  | float {bits : UInt32} : Like R (.float bits) (.float bits)
  | long {bits : UInt64} : Like R (.long bits) (.long bits)
  | double {bits : UInt64} : Like R (.double bits) (.double bits)
  | named {kind : NamedKind} {text : ρ} {text' : σ} (htext : R text text') :
    Like R (.named kind text) (.named kind text')
  | member {kind : MemberKind} {owner nameType : ρ} {owner' nameType' : σ}
    (howner : R owner owner') (hnameType : R nameType nameType') :
    Like R (.member kind owner nameType) (.member kind owner' nameType')
  | nameAndType {name descriptor : ρ} {name' descriptor' : σ} (hname : R name name')
    (hdescriptor : R descriptor descriptor') :
    Like R (.nameAndType name descriptor) (.nameAndType name' descriptor')
  | methodHandle {kind : UInt8} {reference : ρ} {reference' : σ}
    (hreference : R reference reference') :
    Like R (.methodHandle kind reference) (.methodHandle kind reference')
  | computed {kind : ComputedKind} {bootstrap : UInt16} {nameType : ρ} {nameType' : σ}
    (hnameType : R nameType nameType') :
    Like R (.computed kind bootstrap nameType) (.computed kind bootstrap nameType')

namespace Entry.Like

variable {ρ σ : Type} {R : ρ → σ → Prop} {e : Entry ρ} {e' : Entry σ}

/-- Constants that are alike are of one kind, -/
theorem tag_eq (h : Like R e e') : e'.tag = e.tag := by
  cases h <;> rfl

/-- and have the same text. -/
theorem text_eq (h : Like R e e') : e'.text = e.text := by
  cases h <;> rfl

/-- The names of like classes correspond, and only classes have one. -/
theorem className?_rel (h : Like R e e') : Option.Rel R e.className? e'.className? := by
  cases h with
  | @named kind text text' htext =>
    cases kind with
    | classRef => exact .some htext
    | _ => exact .none
  | _ => exact .none

end Entry.Like

namespace Pool

variable {p q : Pool}

/-- The references are both unbound, or lead to like constants. References are followed `depth`
times. -/
def LikeTo (p q : Pool) : Nat → Option EntryId → Option EntryId → Prop
  | 0, _, _ => True
  | _ + 1, none, none => True
  | depth + 1, some id, some id' =>
    Entry.Like (LikeTo p q depth) (p.cell id).entry (q.cell id').entry
  | _ + 1, _, _ => False

/-- The slots are both empty, or hold constants of one kind and with one content, however far
references are followed. -/
def AlikeAt (p q : Pool) (index : PoolIndex) : Prop :=
  ∀ depth, LikeTo p q depth (p.find? index) (q.find? index)

/-- Index zero names no constant in any pool. -/
theorem alikeAt_zero (p q : Pool) : p.AlikeAt q 0
  | 0 => trivial
  | _ + 1 => trivial

theorem textOf_eq (p : Pool) (r : Option EntryId) :
    p.textOf r = ((r.map fun id => (p.cell id).entry).map Entry.text).getD "" := by
  cases r with
  | none => rfl
  | some id =>
    rw [textOf]
    show _ = (p.cell id).entry.text
    cases (p.cell id).entry <;> rfl

/-- One look at the constants of two references. -/
theorem LikeTo.rel {depth : Nat} {r r' : Option EntryId} (h : LikeTo p q (depth + 1) r r') :
    Option.Rel (Entry.Like (LikeTo p q depth)) (r.map fun id => (p.cell id).entry)
      (r'.map fun id => (q.cell id).entry) := by
  cases r with
  | none =>
    cases r' with
    | none => exact .none
    | some id' => exact h.elim
  | some id =>
    cases r' with
    | none => exact h.elim
    | some id' => exact .some h

/-- References that are alike to depth one lead to the same text. -/
theorem LikeTo.textOf_eq {r r' : Option EntryId} (h : LikeTo p q 1 r r') :
    q.textOf r' = p.textOf r := by
  rw [Pool.textOf_eq, Pool.textOf_eq, map_eq_of_rel h.rel fun _ _ hlike => hlike.text_eq]

/-- **Look-ups see no difference between slots that are alike.** -/
theorem AlikeAt.agreeAt {index : PoolIndex} (h : p.AlikeAt q index) : p.AgreeAt q index := by
  -- the name of a class is one reference away from the class
  have hrel : Option.Rel (Entry.Like (LikeTo p q 1)) (p.entry? index) (q.entry? index) :=
    LikeTo.rel (h 2)
  have hname : Option.Rel (LikeTo p q 1) ((p.entry? index).bind Entry.className?)
      ((q.entry? index).bind Entry.className?) := by
    generalize p.entry? index = e, q.entry? index = e' at hrel
    cases hrel with
    | none => exact .none
    | some hlike => exact hlike.className?_rel
  refine ⟨?_, ?_, ?_⟩
  · exact map_eq_of_rel hrel fun _ _ hlike => hlike.tag_eq
  · rw [utf8_eq_text, utf8_eq_text, map_eq_of_rel hrel fun _ _ hlike => hlike.text_eq]
  · rw [className_eq_textOf, className_eq_textOf,
      map_eq_of_rel hname fun _ _ hlike => hlike.textOf_eq]

end Pool

end ClassPrune
