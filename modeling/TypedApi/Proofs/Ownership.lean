import TypedApi.Proofs.Assembly

/-!
# Modules own all schemas and all that these refer to

Adoption keeps what a module owns closed under references: every name that an owned schema refers to
is owned as well, unless types spell it out as an enumeration or no schema has it. The first phase
serves the payloads of each module's paths, the second gives every schema left over an owner, and
nothing that is owned is ever given up. References may be cyclic.
-/

namespace TypedApi

namespace Ownership

section Adoption

variable {schemas : NameMap Schema} {enums : EnumRegistry}

/-- A name that needs no further care: owned, or registered as an enumeration, or no schema. -/
def Served (schemas : NameMap Schema) (enums : EnumRegistry) (owned : NameMap Schema)
    (name : String) : Prop :=
  enums.contains name = true ∨ owned.contains name = true ∨ schemas.find? name = none

/-- Everything that the one map holds is held alike by the other. -/
def Extends (larger smaller : NameMap Schema) : Prop :=
  ∀ name schema, smaller.find? name = some schema → larger.find? name = some schema

/-- Every reference of an owned schema is served or still pending. -/
def ClosedUpTo (schemas : NameMap Schema) (enums : EnumRegistry) (owned : NameMap Schema)
    (pending : List String) : Prop :=
  ∀ name schema, owned.find? name = some schema → ∀ target ∈ schema.refs,
    Served schemas enums owned target ∨ target ∈ pending

theorem Extends.refl (owned : NameMap Schema) : Extends owned owned :=
  fun _ _ h => h

theorem Extends.trans {a b c : NameMap Schema} (hab : Extends a b) (hbc : Extends b c) :
    Extends a c :=
  fun name schema h => hab name schema (hbc name schema h)

/-- A map that holds more contains more. -/
theorem Extends.contains {larger smaller : NameMap Schema} (h : Extends larger smaller)
    {name : String} (hname : smaller.contains name = true) : larger.contains name = true := by
  obtain ⟨schema, hfound⟩ := NameMap.contains_iff.mp hname
  exact NameMap.contains_iff.mpr ⟨schema, h name schema hfound⟩

/-- A name once served stays served when more is owned. -/
theorem Served.mono {larger smaller : NameMap Schema} {name : String}
    (h : Served schemas enums smaller name) (hmore : Extends larger smaller) :
    Served schemas enums larger name := by
  rcases h with h | h | h
  · exact .inl h
  · exact .inr (.inl (hmore.contains h))
  · exact .inr (.inr h)

/-- A new entry leaves the others as they were. -/
theorem extends_insert {owned : NameMap Schema} {name : String} {schema : Schema}
    (hfresh : owned.contains name = false) : Extends (owned.insert name schema) owned := by
  intro other held hfound
  rw [NameMap.find?_insert]
  split
  · rename_i hsame
    rw [hsame, NameMap.contains_eq_false_iff.mp hfresh] at hfound
    cases hfound
  · exact hfound

/-- A new entry of the document keeps what is owned part of the document. -/
theorem insert_extends {owned : NameMap Schema} {name : String} {schema : Schema}
    (hfound : schemas.find? name = some schema) (h : Extends schemas owned) :
    Extends schemas (owned.insert name schema) := by
  intro other held hheld
  rw [NameMap.find?_insert] at hheld
  split at hheld
  · rename_i hsame
    rw [hsame, ← Option.some.inj hheld]
    exact hfound
  · exact h other held hheld

/-- A new entry whose references are pending leaves nothing else to be served. -/
theorem closedUpTo_insert {owned : NameMap Schema} {name : String} {schema : Schema}
    {pending : List String} (hfresh : owned.contains name = false)
    (h : ClosedUpTo schemas enums owned (name :: pending)) :
    ClosedUpTo schemas enums (owned.insert name schema) (schema.refs ++ pending) := by
  intro other held hheld target htarget
  rw [NameMap.find?_insert] at hheld
  split at hheld
  · rw [← Option.some.inj hheld] at htarget
    exact .inr (List.mem_append_left _ htarget)
  · rcases h other held hheld target htarget with hserved | hpending
    · exact .inl (hserved.mono (extends_insert hfresh))
    · rcases List.mem_cons.mp hpending with rfl | hpending
      · exact .inl (.inr (.inl (by simp)))
      · exact .inr (List.mem_append_right _ hpending)

/-- A pending name that is served can be passed over. -/
theorem ClosedUpTo.tail {owned : NameMap Schema} {name : String} {pending : List String}
    (h : ClosedUpTo schemas enums owned (name :: pending))
    (hserved : Served schemas enums owned name) : ClosedUpTo schemas enums owned pending := by
  intro other held hheld target htarget
  rcases h other held hheld target htarget with htarget | htarget
  · exact .inl htarget
  · rcases List.mem_cons.mp htarget with rfl | htarget
    · exact .inl hserved
    · exact .inr htarget

/-- What is served but for some names is so but for one more. -/
theorem ClosedUpTo.weaken {owned : NameMap Schema} {pending : List String}
    (h : ClosedUpTo schemas enums owned pending) (name : String) :
    ClosedUpTo schemas enums owned (name :: pending) := by
  intro other held hheld target htarget
  rcases h other held hheld target htarget with htarget | htarget
  · exact .inl htarget
  · exact .inr (List.mem_cons_of_mem _ htarget)

/-- Adoption gives nothing up. -/
theorem adopt_extends (owned : NameMap Schema) (pending : List String) :
    Extends (adopt schemas enums owned pending) owned := by
  fun_induction adopt schemas enums owned pending with
  | case1 owned => exact Extends.refl _
  | case2 owned name rest hknown ih => exact ih
  | case3 owned name rest hknown howned ih => exact ih
  | case4 owned name rest hknown hfresh hfound ih => exact ih
  | case5 owned name rest hknown hfresh schema hfound ih =>
    exact ih.trans (extends_insert (by simpa using hfresh))

/-- Adoption takes entries of the document only. -/
theorem extends_adopt {owned : NameMap Schema} {pending : List String}
    (h : Extends schemas owned) : Extends schemas (adopt schemas enums owned pending) := by
  fun_induction adopt schemas enums owned pending with
  | case1 owned => exact h
  | case2 owned name rest hknown ih => exact ih h
  | case3 owned name rest hknown howned ih => exact ih h
  | case4 owned name rest hknown hfresh hfound ih => exact ih h
  | case5 owned name rest hknown hfresh schema hfound ih => exact ih (insert_extends hfound h)

/-- Adoption serves every pending name. -/
theorem served_adopt (owned : NameMap Schema) {pending : List String} {name : String}
    (h : name ∈ pending) : Served schemas enums (adopt schemas enums owned pending) name := by
  fun_induction adopt schemas enums owned pending with
  | case1 owned => cases h
  | case2 owned first rest hknown ih =>
    rcases List.mem_cons.mp h with rfl | h
    · exact .inl hknown
    · exact ih h
  | case3 owned first rest hknown howned ih =>
    rcases List.mem_cons.mp h with rfl | h
    · exact .inr (.inl ((adopt_extends owned rest).contains howned))
    · exact ih h
  | case4 owned first rest hknown hfresh hfound ih =>
    rcases List.mem_cons.mp h with rfl | h
    · exact .inr (.inr hfound)
    · exact ih h
  | case5 owned first rest hknown hfresh schema hfound ih =>
    rcases List.mem_cons.mp h with rfl | h
    · exact .inr (.inl ((adopt_extends _ _).contains (by simp)))
    · exact ih (List.mem_append_right _ h)

/-- Adoption leaves no reference unserved. -/
theorem closed_adopt {owned : NameMap Schema} {pending : List String}
    (h : ClosedUpTo schemas enums owned pending) :
    ClosedUpTo schemas enums (adopt schemas enums owned pending) [] := by
  fun_induction adopt schemas enums owned pending with
  | case1 owned => exact h
  | case2 owned name rest hknown ih => exact ih (h.tail (.inl hknown))
  | case3 owned name rest hknown howned ih => exact ih (h.tail (.inr (.inl howned)))
  | case4 owned name rest hknown hfresh hfound ih => exact ih (h.tail (.inr (.inr hfound)))
  | case5 owned name rest hknown hfresh schema hfound ih =>
    exact ih (closedUpTo_insert (by simpa using hfresh) h)

end Adoption

section Placement

variable {document : Document} {enums : EnumRegistry} {config : Config}
  {owned : NameMap (NameMap Schema)}

/-- What holds of the owned schemas of all modules, from the first phase on. -/
structure Sound (document : Document) (enums : EnumRegistry) (config : Config)
    (owned : NameMap (NameMap Schema)) : Prop where
  /-- Modules own schemas of the document, as the document has them. -/
  faithful : ∀ name schemas, owned.find? name = some schemas → Extends document.schemas schemas
  /-- No reference of an owned schema is unserved. -/
  closed : ∀ name schemas, owned.find? name = some schemas →
    ClosedUpTo document.schemas enums schemas []
  /-- Every path has a module, which serves the payloads of the path. -/
  served : ∀ entry ∈ document.paths.entries, ∃ schemas,
    owned.find? (Naming.moduleOfPath entry.1 config.apiPrefix) = some schemas ∧
      ∀ target ∈ Document.contentRefs entry, Served document.schemas enums schemas target

/-- Every module of the one stage is there in the other, with at least the schemas it owned. -/
def Grows (later earlier : NameMap (NameMap Schema)) : Prop :=
  ∀ name schemas, earlier.find? name = some schemas →
    ∃ more, later.find? name = some more ∧ Extends more schemas

/-- Some module owns the schema of a name. -/
def HasOwner (owned : NameMap (NameMap Schema)) (name : String) : Prop :=
  ∃ owner schemas, owned.find? owner = some schemas ∧ schemas.contains name = true

theorem Grows.refl (owned : NameMap (NameMap Schema)) : Grows owned owned :=
  fun _ schemas h => ⟨schemas, h, Extends.refl schemas⟩

theorem Grows.trans {a b c : NameMap (NameMap Schema)} (hab : Grows a b) (hbc : Grows b c) :
    Grows a c := by
  intro name schemas h
  obtain ⟨more, hmore, hextends⟩ := hbc name schemas h
  obtain ⟨most, hmost, hextends'⟩ := hab name more hmore
  exact ⟨most, hmost, hextends'.trans hextends⟩

/-- Nothing that is owned is given up. -/
theorem HasOwner.mono {later earlier : NameMap (NameMap Schema)} {name : String}
    (h : HasOwner earlier name) (hgrows : Grows later earlier) : HasOwner later name := by
  obtain ⟨owner, schemas, hfound, hname⟩ := h
  obtain ⟨more, hmore, hextends⟩ := hgrows owner schemas hfound
  exact ⟨owner, more, hmore, hextends.contains hname⟩

/-- A module of the first phase owns what the payloads of its paths mention. -/
theorem eq_of_find?_ownedByPaths {name : String} {schemas : NameMap Schema}
    (h : (document.ownedByPaths enums config).find? name = some schemas) :
    schemas = document.mentionedSchemas enums (document.pathsOf config name) := by
  rw [Document.ownedByPaths, NameMap.find?_mapWithName] at h
  obtain ⟨_, _, hschemas⟩ := Option.map_eq_some_iff.mp h
  exact hschemas.symm

/-- Every path has a module in the first phase. -/
theorem exists_find?_ownedByPaths {entry : String × PathItem}
    (h : entry ∈ document.paths.entries) : ∃ schemas,
      (document.ownedByPaths enums config).find?
        (Naming.moduleOfPath entry.1 config.apiPrefix) = some schemas := by
  have hnamed : Naming.moduleOfPath entry.1 config.apiPrefix ∈
      (document.paths.names.map fun path =>
        (Naming.moduleOfPath path config.apiPrefix, ())).map (·.1) := by
    rw [List.map_map]
    exact List.mem_map.mpr ⟨entry.1, List.mem_map_of_mem h, rfl⟩
  obtain ⟨_, hfound⟩ := NameMap.contains_iff.mp (NameMap.contains_ofList_iff.mpr hnamed)
  rw [Document.ownedByPaths, NameMap.find?_mapWithName, hfound]
  exact ⟨_, rfl⟩

/-- The first phase leaves nothing unserved. -/
theorem sound_ownedByPaths (document : Document) (enums : EnumRegistry) (config : Config) :
    Sound document enums config (document.ownedByPaths enums config) where
  faithful name schemas h := by
    rw [eq_of_find?_ownedByPaths h]
    refine extends_adopt ?_
    intro other held hheld
    cases hheld
  closed name schemas h := by
    rw [eq_of_find?_ownedByPaths h]
    refine closed_adopt ?_
    intro other held hheld
    cases hheld
  served entry hentry := by
    obtain ⟨schemas, hschemas⟩ := exists_find?_ownedByPaths hentry
    refine ⟨schemas, hschemas, ?_⟩
    intro target htarget
    rw [eq_of_find?_ownedByPaths hschemas]
    apply served_adopt
    exact List.mem_flatMap.mpr ⟨entry, Document.mem_pathsOf_iff.mpr ⟨hentry, rfl⟩, htarget⟩

/-- What a schema's receiver owns once the schema is placed. -/
def received (document : Document) (enums : EnumRegistry) (owned : NameMap (NameMap Schema))
    (entry : String × Schema) : NameMap Schema :=
  let receiver := (Placement.ofSchema entry.1 owned.names).moduleName
  adopt document.schemas enums
    (((owned.find? receiver).getD .empty).insert entry.1 entry.2) entry.2.refs

/-- A schema with an owner stays where it is; any other goes to its receiver. -/
theorem find?_placeSchema (entry : String × Schema) (name : String) :
    (document.placeSchema enums owned entry).find? name =
      if (∀ held ∈ owned.values, held.contains entry.1 = false) ∧
          name = (Placement.ofSchema entry.1 owned.names).moduleName
      then some (received document enums owned entry)
      else owned.find? name := by
  rw [Document.placeSchema]
  split
  · rename_i howned
    obtain ⟨held, hheld, hcontains⟩ := List.any_eq_true.mp howned
    rw [if_neg]
    rintro ⟨hnone, -⟩
    rw [hnone held hheld] at hcontains
    cases hcontains
  · rename_i howned
    have hnone : ∀ held ∈ owned.values, held.contains entry.1 = false := by
      simpa using howned
    rw [NameMap.find?_insert]
    by_cases hname : name = (Placement.ofSchema entry.1 owned.names).moduleName
    · rw [if_pos hname, if_pos ⟨hnone, hname⟩]
      rfl
    · rw [if_neg hname, if_neg fun h => hname h.2]

section Step

variable {entry : String × Schema}

/-- What a receiver owned before stays, and lacks the schema that it is to receive. -/
theorem lacks_base (hnone : ∀ held ∈ owned.values, held.contains entry.1 = false)
    (receiver : String) : ((owned.find? receiver).getD .empty).contains entry.1 = false := by
  cases hheld : owned.find? receiver with
  | none => rfl
  | some held => exact hnone held (NameMap.mem_values_iff.mpr ⟨receiver, hheld⟩)

/-- A receiver keeps what it owned. -/
theorem received_extends (hnone : ∀ held ∈ owned.values, held.contains entry.1 = false) :
    Extends (received document enums owned entry)
      ((owned.find? (Placement.ofSchema entry.1 owned.names).moduleName).getD .empty) :=
  (adopt_extends _ _).trans (extends_insert (lacks_base hnone _))

/-- A receiver owns the schema that it received. -/
theorem contains_received : (received document enums owned entry).contains entry.1 = true :=
  (adopt_extends _ _).contains (by simp)

/-- Placing a schema keeps all modules and what they own. -/
theorem grows_placeSchema : Grows (document.placeSchema enums owned entry) owned := by
  intro name schemas h
  rw [find?_placeSchema]
  split
  · rename_i hplaced
    obtain ⟨hnone, rfl⟩ := hplaced
    refine ⟨_, rfl, ?_⟩
    have hkept : Extends (received document enums owned entry)
        ((owned.find? (Placement.ofSchema entry.1 owned.names).moduleName).getD .empty) :=
      received_extends hnone
    rw [h] at hkept
    exact hkept
  · exact ⟨schemas, h, Extends.refl schemas⟩

/-- A placed schema has an owner. -/
theorem hasOwner_placeSchema : HasOwner (document.placeSchema enums owned entry) entry.1 := by
  by_cases hnone : ∀ held ∈ owned.values, held.contains entry.1 = false
  · refine ⟨(Placement.ofSchema entry.1 owned.names).moduleName,
      received document enums owned entry, ?_, contains_received⟩
    rw [find?_placeSchema, if_pos ⟨hnone, rfl⟩]
  · obtain ⟨held, hheld, hcontains⟩ : ∃ held ∈ owned.values, held.contains entry.1 = true := by
      simpa using hnone
    obtain ⟨owner, howner⟩ := NameMap.mem_values_iff.mp hheld
    have hbefore : HasOwner owned entry.1 := ⟨owner, held, howner, hcontains⟩
    exact hbefore.mono grows_placeSchema

/-- Placing a schema of the document leaves nothing unserved. -/
theorem Sound.placeSchema (h : Sound document enums config owned)
    (hentry : document.schemas.find? entry.1 = some entry.2) :
    Sound document enums config (document.placeSchema enums owned entry) where
  faithful name schemas hschemas := by
    rw [find?_placeSchema] at hschemas
    split at hschemas
    · rw [← Option.some.inj hschemas]
      refine extends_adopt (insert_extends hentry ?_)
      cases hheld : owned.find? (Placement.ofSchema entry.1 owned.names).moduleName with
      | none => intro other held hfound; cases hfound
      | some held => exact h.faithful _ held hheld
    · exact h.faithful name schemas hschemas
  closed name schemas hschemas := by
    rw [find?_placeSchema] at hschemas
    split at hschemas
    · rename_i hplaced
      rw [← Option.some.inj hschemas]
      have hbase : ClosedUpTo document.schemas enums
          ((owned.find? (Placement.ofSchema entry.1 owned.names).moduleName).getD .empty) [] := by
        cases hheld : owned.find? (Placement.ofSchema entry.1 owned.names).moduleName with
        | none => intro other held hfound; cases hfound
        | some held => exact h.closed _ held hheld
      refine closed_adopt ?_
      rw [← List.append_nil entry.2.refs]
      exact closedUpTo_insert (lacks_base hplaced.1 _) (hbase.weaken entry.1)
    · exact h.closed name schemas hschemas
  served path hpath := by
    obtain ⟨schemas, hfound, hserved⟩ := h.served path hpath
    have hgrows : Grows (document.placeSchema enums owned entry) owned := grows_placeSchema
    obtain ⟨more, hmore, hextends⟩ := hgrows _ schemas hfound
    exact ⟨more, hmore, fun target htarget => (hserved target htarget).mono hextends⟩

end Step

/-- Placing schemas one after the other leaves nothing unserved, gives up nothing, and finds an
owner for each of them. -/
theorem Sound.foldl_placeSchema {entries : List (String × Schema)}
    (h : Sound document enums config owned)
    (hentries : ∀ entry ∈ entries, document.schemas.find? entry.1 = some entry.2) :
    Sound document enums config (entries.foldl (document.placeSchema enums) owned) ∧
      Grows (entries.foldl (document.placeSchema enums) owned) owned ∧
      ∀ entry ∈ entries,
        HasOwner (entries.foldl (document.placeSchema enums) owned) entry.1 := by
  induction entries generalizing owned with
  | nil => exact ⟨h, Grows.refl owned, fun entry hentry => absurd hentry List.not_mem_nil⟩
  | cons first rest ih =>
    obtain ⟨hfirst, hrest⟩ := List.forall_mem_cons.mp hentries
    obtain ⟨hsound, hgrows, howners⟩ := ih (h.placeSchema hfirst) hrest
    refine ⟨hsound, hgrows.trans grows_placeSchema, ?_⟩
    intro entry hentry
    rcases List.mem_cons.mp hentry with rfl | hentry
    · exact hasOwner_placeSchema.mono hgrows
    · exact howners entry hentry

/-- Nothing is unserved in the end, and every component schema has an owner. -/
theorem sound_ownership (document : Document) (enums : EnumRegistry) (config : Config) :
    Sound document enums config (document.ownership enums config) ∧
      ∀ name, document.schemas.contains name = true →
        HasOwner (document.ownership enums config) name := by
  have hentries : ∀ entry ∈ document.schemas.entries,
      document.schemas.find? entry.1 = some entry.2 :=
    fun entry hentry => NameMap.mem_entries_iff.mp hentry
  obtain ⟨hsound, -, howners⟩ :=
    (sound_ownedByPaths document enums config).foldl_placeSchema hentries
  refine ⟨hsound, ?_⟩
  intro name hname
  obtain ⟨schema, hschema⟩ := NameMap.contains_iff.mp hname
  exact howners (name, schema) (NameMap.mem_entries_iff.mpr hschema)

end Placement

section Alone

variable {document : Document} {enums : EnumRegistry} {owned : NameMap (NameMap Schema)}
  {name : String}

/-- No module but one of the given name is there. -/
def Alone (owned : NameMap (NameMap Schema)) (name : String) : Prop :=
  owned = .empty ∨ ∃ schemas, owned = NameMap.insert .empty name schemas

/-- What is placed in the one module founds no other. -/
theorem Alone.placeSchema (h : Alone owned name) {entry : String × Schema}
    (hplaced : (Placement.ofSchema entry.1 owned.names).moduleName = name) :
    Alone (document.placeSchema enums owned entry) name := by
  rw [Document.placeSchema]
  split
  · exact h
  · rw [hplaced]
    rcases h with rfl | ⟨schemas, rfl⟩
    · exact .inr ⟨_, rfl⟩
    · exact .inr ⟨_, NameMap.insert_insert _ _ _ _⟩

/-- Schemas that are all placed in the one module found no other. -/
theorem Alone.foldl_placeSchema {entries : List (String × Schema)} (h : Alone owned name)
    (hplaced : ∀ entry ∈ entries, ∀ names ∈ [[], [name]],
      (Placement.ofSchema entry.1 names).moduleName = name) :
    Alone (entries.foldl (document.placeSchema enums) owned) name := by
  induction entries generalizing owned with
  | nil => exact h
  | cons first rest ih =>
    obtain ⟨hfirst, hrest⟩ := List.forall_mem_cons.mp hplaced
    refine ih (h.placeSchema (hfirst owned.names ?_)) hrest
    rcases h with rfl | ⟨schemas, rfl⟩
    · exact List.mem_cons_self
    · exact List.mem_cons_of_mem _ List.mem_cons_self

end Alone

end Ownership

namespace Document

variable {document : Document} {config : Config} {module : Module} {name : String}

/-- Every path belongs to a module. -/
theorem exists_module_of_path (config : Config) {entry : String × PathItem}
    (hentry : entry ∈ document.paths.entries) :
    ∃ module ∈ (document.modules config).values, entry.1 ∈ module.paths := by
  obtain ⟨hsound, -⟩ :=
    Ownership.sound_ownership document (EnumRegistry.collect document.schemas) config
  obtain ⟨schemas, hschemas, -⟩ := hsound.served entry hentry
  have hmodule : document.assemble (EnumRegistry.collect document.schemas) config
      (Naming.moduleOfPath entry.1 config.apiPrefix) schemas ∈
        (document.modules config).values :=
    mem_modules_iff.mpr ⟨schemas, hschemas, rfl⟩
  exact ⟨_, hmodule, (mem_paths_iff hmodule hentry).mpr rfl⟩

/-- A module refers to the names that its schemas list, and to those that the payloads under its
paths list, whether or not the operation has an identifier. -/
inductive RefersTo (document : Document) (module : Module) (target : String) : Prop where
  | schema (name : String) (schema : Schema) (owned : module.schemas.find? name = some schema)
      (listed : target ∈ schema.refs)
  | payload (path : String × PathItem) (ofDocument : path ∈ document.paths.entries)
      (ofModule : path.1 ∈ module.paths) (operation : HttpMethod × Operation)
      (ofPath : operation ∈ path.2.operations) (payload : Schema)
      (carried : payload ∈ operation.2.contentSchemas) (listed : target ∈ payload.refs)

/-- How the modules of a document share out its component schemas. -/
structure SharesOut (document : Document) (config : Config) : Prop where
  /-- The owned names are the names of the component schemas. -/
  exact : ∀ name, (∃ module ∈ (document.modules config).values,
    module.schemas.contains name = true) ↔ document.schemas.contains name = true
  /-- An owned schema is the one of the document. -/
  faithful : ∀ module ∈ (document.modules config).values, ∀ name schema,
    module.schemas.find? name = some schema → document.schemas.find? name = some schema
  /-- A module owns every component schema that it refers to and that types do not spell out. -/
  closed : ∀ module ∈ (document.modules config).values, ∀ target,
    RefersTo document module target → document.schemas.contains target = true →
      (EnumRegistry.collect document.schemas).contains target = false →
        module.schemas.contains target = true

/-- A module owns what is served and is a component schema that types do not spell out. -/
theorem contains_of_served {schemas owned : NameMap Schema} {enums : EnumRegistry}
    {target : String} (h : Ownership.Served schemas enums owned target)
    (hcomponent : schemas.contains target = true) (hplain : enums.contains target = false) :
    owned.contains target = true := by
  rcases h with hknown | howned | habsent
  · rw [hplain] at hknown
    cases hknown
  · exact howned
  · rw [NameMap.contains_eq_false_iff.mpr habsent] at hcomponent
    cases hcomponent

/-- The modules own all component schemas and no others, and each of them all that it refers to. -/
theorem sharesOut (document : Document) (config : Config) : document.SharesOut config := by
  obtain ⟨hsound, howners⟩ :=
    Ownership.sound_ownership document (EnumRegistry.collect document.schemas) config
  refine ⟨?_, ?_, ?_⟩
  · intro name
    constructor
    · rintro ⟨module, hmodule, hname⟩
      obtain ⟨schemas, hschemas, hassembled⟩ := mem_modules_iff.mp hmodule
      rw [← hassembled] at hname
      exact Ownership.Extends.contains (hsound.faithful _ schemas hschemas) hname
    · intro hname
      obtain ⟨owner, schemas, hschemas, hheld⟩ := howners name hname
      refine ⟨document.assemble (EnumRegistry.collect document.schemas) config owner schemas,
        mem_modules_iff.mpr ⟨schemas, hschemas, rfl⟩, hheld⟩
  · intro module hmodule name schema hfound
    obtain ⟨schemas, hschemas, hassembled⟩ := mem_modules_iff.mp hmodule
    rw [← hassembled] at hfound
    exact hsound.faithful _ schemas hschemas name schema hfound
  · intro module hmodule target hrefers hcomponent hplain
    obtain ⟨schemas, hschemas, hassembled⟩ := mem_modules_iff.mp hmodule
    have howned : module.schemas = schemas := by
      rw [← hassembled]
      rfl
    rw [howned]
    refine contains_of_served ?_ hcomponent hplain
    cases hrefers with
    | schema name schema hfound hlisted =>
      rw [howned] at hfound
      rcases hsound.closed _ schemas hschemas name schema hfound target hlisted with h | h
      · exact h
      · cases h
    | payload path hpath hofModule operation hoperation payload hcarried hlisted =>
      obtain ⟨held, hheld, hserved⟩ := hsound.served path hpath
      rw [(mem_paths_iff hmodule hpath).mp hofModule, hschemas] at hheld
      rw [Option.some.inj hheld]
      refine hserved target ?_
      exact List.mem_flatMap.mpr ⟨operation, hoperation,
        List.mem_flatMap.mpr ⟨payload, hcarried, hlisted⟩⟩

/-- Without component schemas, the module of a path is put together from the paths alone. -/
theorem assemble_mem_modules (config : Config) (hnone : document.schemas = .empty)
    {entry : String × PathItem} (hentry : entry ∈ document.paths.entries) :
    document.assemble (EnumRegistry.collect document.schemas) config
        (Naming.moduleOfPath entry.1 config.apiPrefix) .empty ∈
      (document.modules config).values := by
  obtain ⟨module, hmodule, hpath⟩ := exists_module_of_path config hentry
  have hname := (mem_paths_iff hmodule hentry).mp hpath
  obtain ⟨schemas, -, hassembled⟩ := mem_modules_iff.mp hmodule
  have howned : module.schemas = schemas := by
    rw [← hassembled]
    rfl
  have hempty : module.schemas = .empty := by
    apply NameMap.eq_empty_of_find?
    intro name
    cases hheld : module.schemas.find? name with
    | none => rfl
    | some schema =>
      have hfound := (document.sharesOut config).faithful module hmodule name schema hheld
      rw [hnone] at hfound
      cases hfound
  rw [hname, ← hempty, howned, hassembled]
  exact hmodule

/-- Paths that all name one module found no other. -/
theorem alone_ownedByPaths {enums : EnumRegistry}
    (hpaths : ∀ path ∈ document.paths.names, Naming.moduleOfPath path config.apiPrefix = name) :
    Ownership.Alone (document.ownedByPaths enums config) name := by
  have hother : ∀ other, other ≠ name →
      (document.ownedByPaths enums config).find? other = none := by
    intro other hne
    rw [← NameMap.contains_eq_false_iff, ← Bool.not_eq_true]
    intro hcontains
    rw [NameMap.contains, ownedByPaths, NameMap.find?_mapWithName, Option.isSome_map] at hcontains
    have hmem := NameMap.contains_ofList_iff.mp hcontains
    rw [List.map_map] at hmem
    obtain ⟨path, hpath, hnamed⟩ := List.mem_map.mp hmem
    exact hne (hnamed.symm.trans (hpaths path hpath))
  cases hfound : (document.ownedByPaths enums config).find? name with
  | none =>
    refine .inl (NameMap.eq_empty_of_find? fun other => ?_)
    by_cases hsame : other = name
    · rw [hsame, hfound]
    · exact hother other hsame
  | some schemas =>
    refine .inr ⟨schemas, NameMap.eq_of_find? fun other => ?_⟩
    rw [NameMap.find?_insert]
    split
    · rename_i hsame
      rw [hsame, hfound]
    · rename_i hne
      rw [hother other hne]
      rfl

/-- The one module that all paths name and all component schemas are placed in owns all of them. -/
theorem assemble_mem_modules_of_placed (config : Config)
    (hpaths : ∀ path ∈ document.paths.names, Naming.moduleOfPath path config.apiPrefix = name)
    (hsome : document.schemas.names ≠ [])
    (hplaced : ∀ entry ∈ document.schemas.entries, ∀ names ∈ [[], [name]],
      (Placement.ofSchema entry.1 names).moduleName = name) :
    document.assemble (EnumRegistry.collect document.schemas) config name document.schemas ∈
      (document.modules config).values := by
  have halone : Ownership.Alone
      (document.ownership (EnumRegistry.collect document.schemas) config) name :=
    Ownership.Alone.foldl_placeSchema (alone_ownedByPaths hpaths) hplaced
  obtain ⟨hsound, howners⟩ :=
    Ownership.sound_ownership document (EnumRegistry.collect document.schemas) config
  rcases halone with hempty | ⟨schemas, hall⟩
  · obtain ⟨component, hcomponent⟩ := List.exists_mem_of_ne_nil _ hsome
    obtain ⟨owner, held, hheld, -⟩ :=
      howners component (NameMap.contains_iff.mpr (NameMap.mem_names_iff.mp hcomponent))
    rw [hempty] at hheld
    cases hheld
  · have hfound : (document.ownership (EnumRegistry.collect document.schemas) config).find? name =
        some schemas := by
      rw [hall, NameMap.find?_insert, if_pos rfl]
    -- The module has the schemas of the document only, and there is no other that could have them.
    have hsame : schemas = document.schemas := by
      refine NameMap.eq_of_find? fun other => ?_
      cases hheld : schemas.find? other with
      | some schema => exact (hsound.faithful name schemas hfound other schema hheld).symm
      | none =>
        cases hother : document.schemas.find? other with
        | none => rfl
        | some schema =>
          obtain ⟨owner, held, howner, hcontains⟩ :=
            howners other (NameMap.contains_iff.mpr ⟨schema, hother⟩)
          rw [hall, NameMap.find?_insert] at howner
          split at howner
          · rw [← Option.some.inj howner, NameMap.contains, hheld] at hcontains
            cases hcontains
          · cases howner
    rw [hsame] at hfound
    exact mem_modules_iff.mpr ⟨document.schemas, hfound, rfl⟩

end Document

end TypedApi
