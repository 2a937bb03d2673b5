import ClassPrune.Strip.Demand

/-!
# Verdicts

Whether an attribute may stay on its holder. An attribute whose name is not known stays as long
as the name is text; one whose name is known must be allowed on this kind of holder, must have
decoded, and must have all its demands met.

- `Site`: the holder, as far as the verdict depends on it.
- `Inspector`: the pool and the decoder that verdicts are taken with.
- `Inspector.verdict?`: the violation of an attribute, if there is one.
-/

namespace ClassPrune

/-- The holder of an attribute: its kind, and the method that it is or belongs to. -/
structure Site where
  context : Context
  method : Option Member := none

/-- Whether the method around the holder must not have code. -/
def Site.forbidsCode (site : Site) : Bool :=
  site.method.any fun m => m.flags.isAbstract || m.flags.isNative

/-- What verdicts are taken with. -/
structure Inspector where
  pool : Pool
  decoder : Decoder

namespace Inspector

/-- The inspector of a pool, for a machine profile. -/
def ofPool (profile : Profile) (pool : Pool) : Inspector :=
  ⟨pool, .ofPool profile (some pool)⟩

/-- The demands of a typed body. Code that does not decode asks what cannot be met. -/
def demands (i : Inspector) (site : Site) : Body Attribute → List Demand
  | .leaf body => body.demands site.method
  | .code c =>
    if site.forbidsCode then [.never .codeWithoutBody]
    else match i.decoder.decode c.code with
      | .error error => [.never (.badCode error)]
      | .ok insns => codeDemands insns c.handlers
  | .record components => componentDemands components

/-- Why an attribute of a known kind may not stay; nothing when it may. -/
def knownVerdict? (i : Inspector) (site : Site) (kind : AttributeKind) (a : Attribute) :
    Option Violation :=
  if kind.permitted site.context then
    match a.body with
    | none => some .undecoded
    | some body => firstViolation? i.pool (i.demands site body)
  else some (.misplaced site.context)

/-- Why an attribute may not stay; nothing when it may. -/
def verdict? (i : Inspector) (site : Site) (a : Attribute) : Option Violation :=
  (Demand.kind .attributeName a.nameIndex [.utf8]).test i.pool <|>
    match a.kind? i.pool with
    | none => none
    | some kind => i.knownVerdict? site kind a

end Inspector

end ClassPrune
