import TypedApi.Proofs.Output.MainEntity

/-!
# Which schema a name of the models stands for

Owned schemas may have one simple name, and the recased name of an enumeration may be the same. The
enumerations come first, then the schemas, both in the order of their names. So the first schema of
a simple name has the definition of that name unless an enumeration displaces it.
-/

namespace TypedApi

open TypeScript

/-- Members of enumerations have different literals. -/
theorem EnumValue.literal_injective {a b : EnumValue} (h : a.literal = b.literal) : a = b := by
  cases a <;> cases b <;> simp_all [EnumValue.literal]

/-- Different values make different unions. -/
theorem literalUnion_injective {values values' : List EnumValue}
    (h : literalUnion values = literalUnion values') : values = values' := by
  have hliterals : ∀ values values' : List EnumValue,
      (values.map fun value => Ty.literal value.literal) =
        (values'.map fun value => Ty.literal value.literal) → values = values' := by
    intro values values' hsame
    refine List.map_injective_iff.mpr (fun a b hab => ?_) hsame
    exact EnumValue.literal_injective (Ty.literal.inj hab)
  match values, values' with
  | [], [] => rfl
  | [a], [b] => rw [EnumValue.literal_injective (Ty.literal.inj h)]
  | a :: b :: rest, c :: d :: rest' => exact hliterals _ _ (Ty.union.inj h)
  | [], [_] | [], _ :: _ :: _ | [_], [] | [_], _ :: _ :: _ | _ :: _ :: _, []
  | _ :: _ :: _, [_] => cases h

namespace Output

variable {document : Document} {schemas : NameMap Schema} {config : Config} {scope : Scope}
  {module : Module} {name owned : String} {schema : Schema}

section Statements

/-- An owned schema that is no page of a collection, the first with its simple name. -/
structure IsFirst (module : Module) (owned : String) (schema : Schema) : Prop where
  /-- The schema is owned. -/
  found : module.schemas.find? owned = some schema
  /-- It is no page of a collection. -/
  noPage : Naming.isPage owned = false
  /-- No such schema of the same simple name comes before it. -/
  first : ∀ other, module.schemas.contains other = true → Naming.isPage other = false →
    Naming.simplify other = Naming.simplify owned → ¬ other < owned

/-- The enumeration that is defined under a name: the first whose name becomes that name. -/
def aliased (module : Module) (name : String) : Option (String × List EnumValue) :=
  module.enums.entries.find? fun entry => !name.isEmpty && Naming.pascal entry.1 == name

/-- The simple name of a schema has the definition made from that schema, or is a name of a
registered enumeration with the schema's own values. -/
def EntityKept (schemas : NameMap Schema) (config : Config) (module : Module) (owned : String)
    (schema : Schema) : Prop :=
  ∃ definition,
    (modelsFile schemas config module).definitionsNamed (Naming.simplify owned) = [definition] ∧
      (entity (module.scope schemas config) (owned, schema) = some definition ∨
        ∃ entry ∈ module.enums.entries, Naming.pascal entry.1 = Naming.simplify owned ∧
          schema.enum = some entry.2 ∧
          definition = ⟨Naming.simplify owned, none, .alias (literalUnion entry.2)⟩)

end Statements

section Sources

/-- An owned schema is the first of its simple name if no owned name before it has that name. -/
theorem IsFirst.of_names (hfound : module.schemas.find? owned = some schema)
    (hpage : Naming.isPage owned = false)
    (hfirst : ∀ other ∈ module.schemas.names, Naming.isPage other = false →
      Naming.simplify other = Naming.simplify owned → ¬ other < owned) :
    IsFirst module owned schema where
  found := hfound
  noPage := hpage
  first other hother := hfirst other (NameMap.mem_names_iff.mpr (NameMap.contains_iff.mp hother))

/-- Of one simple name there is one first schema. -/
theorem IsFirst.unique {owned' : String} {schema' : Schema} (h : IsFirst module owned schema)
    (h' : IsFirst module owned' schema') (hsame : Naming.simplify owned = Naming.simplify owned') :
    owned = owned' := by
  have hcontains : module.schemas.contains owned = true :=
    NameMap.contains_iff.mpr ⟨schema, h.found⟩
  have hcontains' : module.schemas.contains owned' = true :=
    NameMap.contains_iff.mpr ⟨schema', h'.found⟩
  exact String.le_antisymm (String.not_lt.mp (h.first owned' hcontains' h'.noPage hsame.symm))
    (String.not_lt.mp (h'.first owned hcontains h.noPage hsame))

/-- Among the names of enumerations, the first that becomes the given name counts. -/
theorem find?_enumAliases (module : Module) (name : String) :
    (module.enums.entries.filterMap enumAlias).find? (fun definition => definition.name == name) =
      (aliased module name).map fun entry => ⟨name, none, .alias (literalUnion entry.2)⟩ := by
  have htest : ∀ entry : String × List EnumValue,
      (enumAlias entry).any (fun definition => definition.name == name) =
        (!name.isEmpty && Naming.pascal entry.1 == name) := by
    intro entry
    by_cases hname : Naming.pascal entry.1 = name
    · subst hname
      cases hempty : (Naming.pascal entry.1).isEmpty <;> simp [enumAlias, hempty]
    · cases hempty : (Naming.pascal entry.1).isEmpty <;> simp [enumAlias, hempty, hname]
  rw [List.find?_filterMap, aliased]
  simp only [htest]
  cases hfound : module.enums.entries.find?
      (fun entry => !name.isEmpty && Naming.pascal entry.1 == name) with
  | none => rfl
  | some entry =>
    have hmeets := List.find?_some hfound
    simp only [Bool.and_eq_true, Bool.not_eq_true', beq_iff_eq] at hmeets
    obtain ⟨hsome, rfl⟩ := hmeets
    rw [Option.bind_some, enumAlias, hsome]
    rfl

/-- Among the owned schemas, the first of the given simple name counts. -/
theorem find?_entities_eq_some_iff {definition : Definition} :
    (module.schemas.entries.filterMap (entity scope)).find?
        (fun definition => definition.name == name) = some definition ↔
      ∃ owned schema, IsFirst module owned schema ∧ Naming.simplify owned = name ∧
        definition = ⟨name, schema.description, entityBody scope schema⟩ := by
  have htest : ∀ entry : String × Schema,
      (entity scope entry).any (fun definition => definition.name == name) = true ↔
        Naming.isPage entry.1 = false ∧ Naming.simplify entry.1 = name := by
    intro entry
    cases hpage : Naming.isPage entry.1 <;> simp [entity, hpage]
  have hmade : ∀ entry : String × Schema, Naming.isPage entry.1 = false →
      entity scope entry =
        some ⟨Naming.simplify entry.1, entry.2.description, entityBody scope entry.2⟩ :=
    fun entry hpage => by simp [entity, hpage]
  rw [List.find?_filterMap, Option.bind_eq_some_iff]
  constructor
  · rintro ⟨⟨owned, schema⟩, hfound, hdefinition⟩
    obtain ⟨howned, hmeets, hfirst⟩ := NameMap.find?_entries_eq_some_iff.mp hfound
    obtain ⟨hpage, rfl⟩ := (htest _).mp hmeets
    rw [hmade _ hpage] at hdefinition
    refine ⟨owned, schema, ⟨howned, hpage, ?_⟩, rfl, (Option.some.inj hdefinition).symm⟩
    intro other hother hnoPage hsame
    obtain ⟨held, hheld⟩ := NameMap.contains_iff.mp hother
    exact hfirst (other, held) (NameMap.mem_entries_iff.mpr hheld)
      ((htest _).mpr ⟨hnoPage, hsame⟩)
  · rintro ⟨owned, schema, h, rfl, rfl⟩
    refine ⟨(owned, schema), NameMap.find?_entries_eq_some_iff.mpr
      ⟨h.found, (htest _).mpr ⟨h.noPage, rfl⟩, ?_⟩, hmade _ h.noPage⟩
    intro other hother hmeets
    obtain ⟨hnoPage, hsame⟩ := (htest _).mp hmeets
    exact h.first other.1
      (NameMap.contains_iff.mpr ⟨other.2, NameMap.mem_entries_iff.mp hother⟩) hnoPage hsame

/-- A definition of the models is the one definition of its name. -/
theorem definitionsNamed_eq_singleton_iff {definition : Definition} :
    (models scope module).file.definitionsNamed name = [definition] ↔
      definition ∈ (models scope module).file.definitions ∧ definition.name = name := by
  have hmem : definition ∈ (models scope module).file.definitionsNamed name ↔
      definition ∈ (models scope module).file.definitions ∧ definition.name = name := by
    rw [SourceFile.definitionsNamed, List.mem_filter, beq_iff_eq]
  rw [← hmem, definitionsNamed_models]
  cases (requested scope module).find? (fun definition => definition.name == name) with
  | none => simp
  | some first => simp [eq_comm]

/-- An enumeration whose name becomes the given name defines that name. -/
theorem definitionsNamed_of_aliased {entry : String × List EnumValue}
    (h : aliased module name = some entry) :
    (models scope module).file.definitionsNamed name =
      [⟨name, none, .alias (literalUnion entry.2)⟩] := by
  rw [definitionsNamed_models, requested, List.append_assoc, List.find?_append, find?_enumAliases,
    h]
  rfl

/-- The first schema of a simple name defines it, unless an enumeration does. -/
theorem definitionsNamed_of_isFirst (h : IsFirst module owned schema)
    (hfree : aliased module (Naming.simplify owned) = none) :
    (models scope module).file.definitionsNamed (Naming.simplify owned) =
      [⟨Naming.simplify owned, schema.description, entityBody scope schema⟩] := by
  have hentity : (module.schemas.entries.filterMap (entity scope)).find?
      (fun definition => definition.name == Naming.simplify owned) =
        some ⟨Naming.simplify owned, schema.description, entityBody scope schema⟩ :=
    find?_entities_eq_some_iff.mpr ⟨owned, schema, h, rfl, rfl⟩
  rw [definitionsNamed_models, requested, List.find?_append, List.find?_append, find?_enumAliases,
    hfree, Option.map_none, Option.none_or, hentity]
  rfl

end Sources

/-- The first schema of a simple name keeps its definition exactly if every enumeration that is
defined under that name has the schema's own values, or makes the very definition that the schema
would have. -/
theorem entityKept_iff (h : IsFirst module owned schema) :
    EntityKept schemas config module owned schema ↔
      ∀ entry, aliased module (Naming.simplify owned) = some entry →
        schema.enum = some entry.2 ∨ schema.description = none ∧
          entityBody (module.scope schemas config) schema = .alias (literalUnion entry.2) := by
  have hentity : entity (module.scope schemas config) (owned, schema) =
      some ⟨Naming.simplify owned, schema.description,
        entityBody (module.scope schemas config) schema⟩ := by
    simp [entity, h.noPage]
  constructor
  · rintro ⟨definition, hdefinition, hsource⟩ entry hentry
    rw [modelsFile, definitionsNamed_of_aliased hentry, List.cons.injEq] at hdefinition
    obtain ⟨rfl, -⟩ := hdefinition
    rcases hsource with hsame | ⟨other, -, -, hvalues, hsame⟩
    · rw [hentity, Option.some.injEq, Definition.mk.injEq] at hsame
      exact .inr hsame.2
    · rw [Definition.mk.injEq] at hsame
      have hunion := literalUnion_injective (DefinitionBody.alias.inj hsame.2.2)
      exact .inl (hunion ▸ hvalues)
  · intro hdisplaced
    cases halias : aliased module (Naming.simplify owned) with
    | none => exact ⟨_, definitionsNamed_of_isFirst h halias, .inl hentity⟩
    | some entry =>
      refine ⟨_, definitionsNamed_of_aliased halias, ?_⟩
      rcases hdisplaced entry halias with hvalues | ⟨hdescription, hbody⟩
      · have hmeets := List.find?_some halias
        simp only [Bool.and_eq_true, beq_iff_eq] at hmeets
        exact .inr ⟨entry, List.mem_of_find?_eq_some halias, hmeets.2, hvalues, rfl⟩
      · rw [hentity, hdescription, hbody]
        exact .inl rfl

section Displaced

/-- A component without properties. -/
def emptyObject : Schema := { type := some (.one "object") }

/-- A document in which a property has the values of an enumeration, and a component is named like
the enumeration of that property. -/
def coloredWidgets : Document :=
  { schemas := .ofList [
      ("ColorEnum", emptyObject),
      ("Widget", { type := some (.one "object"), properties := some [
        ("color", { type := some (.one "string"), enum := some [.string "red"] })] })] }

/-- The module of both components. -/
def paintedWidgets : Module :=
  coloredWidgets.assemble (EnumRegistry.collect coloredWidgets.schemas) {} "Common"
    coloredWidgets.schemas

/-- The document has the module. -/
theorem paintedWidgets_mem_modules : paintedWidgets ∈ (coloredWidgets.modules {}).values :=
  Document.assemble_mem_modules_of_placed {} (List.forall_mem_nil _) (by decide +kernel)
    (by decide +kernel)

/-- No other component has the simple name. -/
theorem isFirst_colorEnum : IsFirst paintedWidgets "ColorEnum" emptyObject :=
  .of_names rfl (by decide +kernel) (by decide +kernel)

/-- The theorem at work on a component that is named like the enumeration of a property. -/
theorem entityKept_iff_of_coloredWidgets :
    IsFirst paintedWidgets "ColorEnum" emptyObject ∧
      (EntityKept coloredWidgets.schemas {} paintedWidgets "ColorEnum" emptyObject ↔
        ∀ entry, aliased paintedWidgets (Naming.simplify "ColorEnum") = some entry →
          emptyObject.enum = some entry.2 ∨ emptyObject.description = none ∧
            entityBody (paintedWidgets.scope coloredWidgets.schemas {}) emptyObject =
              .alias (literalUnion entry.2)) :=
  ⟨isFirst_colorEnum, entityKept_iff isFirst_colorEnum⟩

/-- The component is a name of the values of the property. -/
theorem coloredWidgets_displaces :
    paintedWidgets ∈ (coloredWidgets.modules {}).values ∧
      IsFirst paintedWidgets "ColorEnum" emptyObject ∧
      (modelsFile coloredWidgets.schemas {} paintedWidgets).definitionsNamed "ColorEnum" =
        [⟨"ColorEnum", none, .alias (.literal (.string "red"))⟩] ∧
      ¬ EntityKept coloredWidgets.schemas {} paintedWidgets "ColorEnum" emptyObject := by
  have halias : aliased paintedWidgets "ColorEnum" = some ("colorEnum", [.string "red"]) := by
    decide +kernel
  have hsimple : Naming.simplify "ColorEnum" = "ColorEnum" := by decide +kernel
  have hdefined : (modelsFile coloredWidgets.schemas {} paintedWidgets).definitionsNamed
      "ColorEnum" = [⟨"ColorEnum", none, .alias (.literal (.string "red"))⟩] :=
    definitionsNamed_of_aliased halias
  refine ⟨paintedWidgets_mem_modules, isFirst_colorEnum, hdefined, ?_⟩
  rintro ⟨definition, hdefinition, hsource⟩
  rw [hsimple, hdefined, List.cons.injEq] at hdefinition
  obtain ⟨rfl, -⟩ := hdefinition
  rcases hsource with hentity | ⟨entry, -, -, hvalues, -⟩
  · rw [entity, if_neg (by simp [isFirst_colorEnum.noPage])] at hentity
    have hbody := congrArg Definition.body (Option.some.inj hentity)
    cases hbody
  · cases hvalues

end Displaced

end Output

end TypedApi
