import Mathlib.Order.WellFounded
import TypedApi.EnumRegistry
import TypedApi.Proofs.NameMap

/-!
# What the registry of a document holds

Names of schemas and keys made of a schema and a property share one space. An enumeration is found
under its own name nevertheless, since keys that read like that name are registered earlier. Any
other component name is found exactly if it reads like such a key. A key that can be split behind
several components is answered by the longest of them, which comes last in the order of names.
-/

namespace TypedApi

namespace Schema

/-- The values of a property that is an enumeration. Documents give every property once; where one
is listed again, the last of its enumerations counts. -/
def propertyEnum (schema : Schema) (property : String) : Option (List EnumValue) :=
  (schema.members.filterMap fun member =>
    if member.1 = property then member.2.stringEnum else none).getLast?

/-- Where no property is listed again, the values are those of the one enumeration of the name. -/
theorem propertyEnum_eq_some_iff {schema : Schema} {property : String}
    {values : List EnumValue} (hnodup : (schema.members.map (·.1)).Nodup) :
    schema.propertyEnum property = some values ↔
      ∃ member ∈ schema.members, member.1 = property ∧ member.2.stringEnum = some values := by
  rw [propertyEnum]
  constructor
  · intro hlast
    obtain ⟨member, hmember, hvalues⟩ := List.mem_filterMap.mp (List.mem_of_getLast? hlast)
    by_cases hname : member.1 = property
    · exact ⟨member, hmember, hname, by rwa [if_pos hname] at hvalues⟩
    · rw [if_neg hname] at hvalues
      cases hvalues
  · rintro ⟨member, hmember, rfl, hvalues⟩
    have hnamed : (schema.members.filterMap fun other =>
        if other.1 = member.1 then some other else none) = [member] :=
      Entries.filterMap_eq_singleton id hnodup hmember
    have hsplit : (schema.members.filterMap fun other =>
        if other.1 = member.1 then other.2.stringEnum else none) =
          [member].filterMap fun other => other.2.stringEnum := by
      rw [← hnamed, List.filterMap_filterMap]
      congr 1
      funext other
      split <;> rfl
    rw [hsplit]
    simp [hvalues]

/-- A property that some enumeration is listed under has values. -/
theorem exists_propertyEnum {schema : Schema} {member : String × Schema}
    {values : List EnumValue} (hmember : member ∈ schema.members)
    (hvalues : member.2.stringEnum = some values) :
    ∃ values', schema.propertyEnum member.1 = some values' := by
  rw [← Option.isSome_iff_exists, propertyEnum, List.getLast?_isSome]
  refine List.ne_nil_of_mem (a := values) (List.mem_filterMap.mpr ⟨member, hmember, ?_⟩)
  rw [if_pos rfl, hvalues]

end Schema

namespace EnumRegistry

/-- A schema's name comes before the keys of its properties. -/
theorem lt_propertyKey (name property : String) : name < name ++ "_" ++ property := by
  have hlonger : ([] : List Char) < '_' :: property.toList := List.nil_lt_cons _ _
  have hlt : name.toList ++ [] < name.toList ++ '_' :: property.toList :=
    List.append_left_lt hlonger
  rw [String.lt_iff]
  simpa using hlt

/-- A schema's name is none of the keys of its properties. -/
theorem ne_propertyKey (name property : String) : name ≠ name ++ "_" ++ property := by
  intro hsame
  have hlt := lt_propertyKey name property
  rw [← hsame] at hlt
  exact String.lt_irrefl _ hlt

/-- Some component has a property with an enumeration whose key reads like the given name. -/
def IsPropertyKey (schemas : NameMap Schema) (target : String) : Prop :=
  ∃ name schema, schemas.find? name = some schema ∧
    ∃ member ∈ schema.members, member.2.stringEnum.isSome = true ∧
      name ++ "_" ++ member.1 = target

section Declared

variable {name key : String} {schema : Schema} {values : List EnumValue}

/-- A component declares itself and its properties. -/
theorem mem_declared_iff :
    (key, values) ∈ declared name schema ↔
      (key = name ∧ schema.stringEnum = some values) ∨
        ∃ member ∈ schema.members,
          member.2.stringEnum = some values ∧ name ++ "_" ++ member.1 = key := by
  rw [declared, List.mem_append]
  refine or_congr ?_ ?_
  · cases schema.stringEnum with
    | none => simp
    | some held => simp [eq_comm]
  · simp only [List.mem_filterMap, Option.map_eq_some_iff, Prod.mk.injEq]
    constructor
    · rintro ⟨member, hmember, held, hheld, hkey, rfl⟩
      exact ⟨member, hmember, hheld, hkey⟩
    · rintro ⟨member, hmember, hheld, hkey⟩
      exact ⟨member, hmember, values, hheld, hkey, rfl⟩

/-- What a component declares is not before the component. -/
theorem not_lt_of_mem_declared (h : (key, values) ∈ declared name schema) : ¬ key < name := by
  rcases mem_declared_iff.mp h with ⟨rfl, -⟩ | ⟨member, -, -, rfl⟩
  · exact String.lt_irrefl _
  · exact String.lt_asymm (lt_propertyKey name member.1)

/-- Of what an enumeration declares, its own values stand under its name. -/
theorem lookup_reverse_declared (h : schema.stringEnum = some values) :
    (declared name schema).reverse.lookup name = some values := by
  rw [declared, h, List.reverse_append, List.lookup_append, List.lookup_eq_none_iff.mpr]
  · simp
  -- the keys of the properties come after the name of the component
  · intro pair hpair
    obtain ⟨member, -, hmember⟩ := List.mem_filterMap.mp (List.mem_reverse.mp hpair)
    obtain ⟨held, -, rfl⟩ := Option.map_eq_some_iff.mp hmember
    simpa using ne_propertyKey name member.1

end Declared

section Collected

variable {schemas : NameMap Schema} {name : String} {schema : Schema}

/-- A component enumeration is found under its own name, with its own values. -/
theorem find?_collect_of_enum {values : List EnumValue}
    (hfound : schemas.find? name = some schema) (hvalues : schema.stringEnum = some values) :
    (collect schemas).find? name = some values := by
  obtain ⟨before, after, hsplit⟩ :=
    List.append_of_mem (NameMap.mem_entries_iff.mpr hfound)
  have hsorted := schemas.sorted
  rw [hsplit] at hsorted
  have hafter : ∀ entry ∈ after, name < entry.1 :=
    (List.pairwise_cons.mp (List.pairwise_append.mp hsorted).2.1).1
  -- Whatever is declared behind the enumeration has a key behind its name.
  have hlater : (after.flatMap fun entry => declared entry.1 entry.2).reverse.lookup name =
      none := by
    rw [List.lookup_eq_none_iff]
    rintro ⟨key, held⟩ hpair
    obtain ⟨entry, hentry, hdeclared⟩ := List.mem_flatMap.mp (List.mem_reverse.mp hpair)
    have hne : name ≠ key := by
      rintro rfl
      exact not_lt_of_mem_declared hdeclared (hafter entry hentry)
    simpa using hne
  rw [collect, NameMap.find?_ofList, hsplit, List.flatMap_append, List.flatMap_cons,
    List.reverse_append, List.reverse_append, List.lookup_append, List.lookup_append, hlater,
    lookup_reverse_declared hvalues]
  rfl

/-- The registry knows no further component names than those that read like the key of a
property. -/
theorem find?_collect_of_plain (hfound : schemas.find? name = some schema)
    (hplain : schema.stringEnum = none) :
    (collect schemas).find? name = none ↔ ¬ IsPropertyKey schemas name := by
  rw [collect, ← NameMap.contains_eq_false_iff, ← Bool.not_eq_true]
  refine not_congr ?_
  rw [NameMap.contains_ofList_iff, List.mem_map]
  constructor
  · rintro ⟨⟨key, values⟩, hpair, rfl⟩
    obtain ⟨⟨owner, held⟩, hentry, hdeclared⟩ := List.mem_flatMap.mp hpair
    have howner := NameMap.mem_entries_iff.mp hentry
    rcases mem_declared_iff.mp hdeclared with ⟨rfl, hvalues⟩ | ⟨member, hmember, hvalues, hkey⟩
    · rw [hfound] at howner
      rw [← Option.some.inj howner, hplain] at hvalues
      cases hvalues
    · exact ⟨owner, held, howner, member, hmember, by rw [hvalues]; rfl, hkey⟩
  · rintro ⟨owner, held, howner, member, hmember, hsome, rfl⟩
    obtain ⟨values, hvalues⟩ := Option.isSome_iff_exists.mp hsome
    refine ⟨(owner ++ "_" ++ member.1, values), ?_, rfl⟩
    exact List.mem_flatMap.mpr ⟨(owner, held), NameMap.mem_entries_iff.mpr howner,
      mem_declared_iff.mpr (.inr ⟨member, hmember, hvalues, rfl⟩)⟩

end Collected

section Answers

variable {schemas : NameMap Schema} {key owner other property : String} {schema : Schema}
  {values : List EnumValue} {answer : Option (List EnumValue)}

/-- A beginning of a text does not come behind it. -/
theorem not_lt_of_prefix {s t : String} (h : s.toList <+: t.toList) : ¬ t < s := by
  obtain ⟨more, hmore⟩ := h
  rw [String.lt_iff, ← hmore]
  cases more with
  | nil => simp
  | cons c more =>
    have hlt : s.toList ++ [] < s.toList ++ c :: more :=
      List.append_left_lt (List.nil_lt_cons _ _)
    rw [List.append_nil] at hlt
    exact List.lt_asymm hlt

/-- What a schema declares under the key of a property is the enumeration of that property. -/
theorem lookup_reverse_declared_propertyKey (name property : String) (schema : Schema) :
    (declared name schema).reverse.lookup (name ++ "_" ++ property) =
      schema.propertyEnum property := by
  have hmembers : ∀ member : String × Schema,
      ((member.2.stringEnum.map fun values => (name ++ "_" ++ member.1, values)).bind fun pair =>
        if pair.1 = name ++ "_" ++ property then some pair.2 else none) =
      if member.1 = property then member.2.stringEnum else none := by
    intro member
    cases member.2.stringEnum with
    | none => simp
    | some values => simp [String.append_right_inj]
  rw [Entries.lookup_reverse_eq_getLast?, declared, List.filterMap_append, List.filterMap_filterMap,
    Schema.propertyEnum]
  simp only [hmembers]
  cases schema.stringEnum with
  | none => simp
  | some values => simp [ne_propertyKey]

/-- A component has an enumeration of the given values as a property, and the name of the component,
an underscore and the name of the property make up the key. -/
def Owns (schemas : NameMap Schema) (key owner : String) (values : List EnumValue) : Prop :=
  ∃ schema property, schemas.find? owner = some schema ∧
    schema.propertyEnum property = some values ∧ owner ++ "_" ++ property = key

/-- An owner of a key is a beginning of the key. -/
theorem Owns.prefix_key (h : Owns schemas key owner values) : owner.toList <+: key.toList := by
  obtain ⟨schema, property, -, -, rfl⟩ := h
  rw [String.toList_append, String.toList_append, List.append_assoc]
  exact List.prefix_append _ _

/-- What a component declares is its own enumeration or a key that it owns. -/
theorem owns_of_mem_declared (hfound : schemas.find? owner = some schema)
    (hdeclared : (key, values) ∈ declared owner schema) :
    (key = owner ∧ schema.stringEnum = some values) ∨
      ∃ values', Owns schemas key owner values' := by
  refine (mem_declared_iff.mp hdeclared).imp_right ?_
  rintro ⟨member, hmember, hvalues, hkey⟩
  obtain ⟨values', hproperty⟩ := Schema.exists_propertyEnum hmember hvalues
  exact ⟨values', schema, member.1, hfound, hproperty, hkey⟩

/-- What the registry of a document says of a key. -/
inductive Answers (schemas : NameMap Schema) (key : String) : Option (List EnumValue) → Prop
  /-- The key is the name of an enumeration, which is answered with its values. -/
  | component {schema : Schema} {values : List EnumValue} (hfound : schemas.find? key = some schema)
      (hvalues : schema.stringEnum = some values) : Answers schemas key (some values)
  /-- Otherwise the longest owner of the key answers with the values of its property. -/
  | property {owner : String} {values : List EnumValue}
      (hplain : ∀ schema, schemas.find? key = some schema → schema.stringEnum = none)
      (howns : Owns schemas key owner values)
      (hlongest : ∀ other values', Owns schemas key other values' → other.length ≤ owner.length) :
      Answers schemas key (some values)
  /-- A key without owner is not registered. -/
  | nothing (hplain : ∀ schema, schemas.find? key = some schema → schema.stringEnum = none)
      (hnone : ∀ owner values, ¬ Owns schemas key owner values) : Answers schemas key none

/-- The longest owner of a key gives its values, unless the key is an enumeration itself. -/
theorem find?_collect_of_owns
    (hplain : ∀ schema, schemas.find? key = some schema → schema.stringEnum = none)
    (howns : Owns schemas key owner values)
    (hlongest : ∀ other values', Owns schemas key other values' → other.length ≤ owner.length) :
    (collect schemas).find? key = some values := by
  have hprefix := howns.prefix_key
  obtain ⟨schema, property, hfound, hvalues, rfl⟩ := howns
  obtain ⟨before, after, hsplit⟩ :=
    List.append_of_mem (NameMap.mem_entries_iff.mpr hfound)
  have hsorted := schemas.sorted
  rw [hsplit] at hsorted
  have hafter : ∀ entry ∈ after, owner < entry.1 :=
    (List.pairwise_cons.mp (List.pairwise_append.mp hsorted).2.1).1
  -- Another owner begins the same key and is no longer, so it does not come behind this one.
  have hlater : (after.flatMap fun entry => declared entry.1 entry.2).reverse.lookup
      (owner ++ "_" ++ property) = none := by
    rw [List.lookup_eq_none_iff]
    rintro ⟨key, held⟩ hpair
    obtain ⟨entry, hentry, hdeclared⟩ := List.mem_flatMap.mp (List.mem_reverse.mp hpair)
    have hentryFound : schemas.find? entry.1 = some entry.2 := by
      rw [← NameMap.mem_entries_iff, hsplit]
      exact List.mem_append_right _ (List.mem_cons_of_mem _ hentry)
    rw [bne_iff_ne]
    rintro rfl
    rcases owns_of_mem_declared hentryFound hdeclared with ⟨hname, henum⟩ | ⟨values', hother⟩
    · rw [hplain entry.2 (hname ▸ hentryFound)] at henum
      cases henum
    · have hbegins : entry.1.toList <+: owner.toList :=
        List.prefix_of_prefix_length_le hother.prefix_key hprefix
          (by simpa only [String.length_toList] using hlongest entry.1 values' hother)
      exact not_lt_of_prefix hbegins (hafter entry hentry)
  rw [collect, NameMap.find?_ofList, hsplit, List.flatMap_append, List.flatMap_cons,
    List.reverse_append, List.reverse_append, List.lookup_append, List.lookup_append, hlater,
    lookup_reverse_declared_propertyKey, hvalues]
  rfl

/-- A key that is neither an enumeration nor owned is not registered. -/
theorem find?_collect_of_not_owns
    (hplain : ∀ schema, schemas.find? key = some schema → schema.stringEnum = none)
    (hnone : ∀ owner values, ¬ Owns schemas key owner values) :
    (collect schemas).find? key = none := by
  rw [collect, NameMap.find?_ofList, List.lookup_eq_none_iff]
  rintro ⟨other, values⟩ hpair
  obtain ⟨entry, hentry, hdeclared⟩ := List.mem_flatMap.mp (List.mem_reverse.mp hpair)
  have hfound := NameMap.mem_entries_iff.mp hentry
  rw [bne_iff_ne]
  rintro rfl
  rcases owns_of_mem_declared hfound hdeclared with ⟨hname, henum⟩ | ⟨values', howns⟩
  · rw [hplain entry.2 (hname ▸ hfound)] at henum
    cases henum
  · exact hnone entry.1 values' howns

/-- A key with owners has a longest one. -/
theorem exists_longest_owner (h : Owns schemas key owner values) :
    ∃ longest values', Owns schemas key longest values' ∧
      ∀ other held, Owns schemas key other held → other.length ≤ longest.length := by
  obtain ⟨longest, ⟨values', hlongest⟩, hleast⟩ :=
    (measure fun name : String => key.length - name.length).wf.has_min
      {name | ∃ values, Owns schemas key name values} ⟨owner, values, h⟩
  refine ⟨longest, values', hlongest, fun other held hother => ?_⟩
  have hnotLess : ¬ key.length - other.length < key.length - longest.length :=
    hleast other ⟨held, hother⟩
  have hbound : other.length ≤ key.length := by
    simpa only [String.length_toList] using hother.prefix_key.length_le
  omega

/-- There is an answer for every key. -/
theorem exists_answers (schemas : NameMap Schema) (key : String) :
    ∃ answer, Answers schemas key answer ∧ (collect schemas).find? key = answer := by
  by_cases hcomponent : ∃ schema values,
      schemas.find? key = some schema ∧ schema.stringEnum = some values
  · obtain ⟨schema, values, hfound, hvalues⟩ := hcomponent
    exact ⟨some values, .component hfound hvalues, find?_collect_of_enum hfound hvalues⟩
  have hplain : ∀ schema, schemas.find? key = some schema → schema.stringEnum = none := by
    intro schema hfound
    cases hvalues : schema.stringEnum with
    | none => rfl
    | some values => exact absurd ⟨schema, values, hfound, hvalues⟩ hcomponent
  by_cases howned : ∃ owner values, Owns schemas key owner values
  · obtain ⟨owner, values, howns⟩ := howned
    obtain ⟨longest, values', hlongest, hmost⟩ := exists_longest_owner howns
    exact ⟨some values', .property hplain hlongest hmost,
      find?_collect_of_owns hplain hlongest hmost⟩
  · have hnone : ∀ owner values, ¬ Owns schemas key owner values :=
      fun owner values howns => howned ⟨owner, values, howns⟩
    exact ⟨none, .nothing hplain hnone, find?_collect_of_not_owns hplain hnone⟩

/-- Of every key the registry of a document says exactly this: the values of the enumeration of that
name, else those of the property of the longest owner, else nothing. -/
theorem find?_collect_eq_iff (schemas : NameMap Schema) (key : String)
    (answer : Option (List EnumValue)) :
    (collect schemas).find? key = answer ↔ Answers schemas key answer := by
  constructor
  · rintro rfl
    obtain ⟨answer, hanswers, hfound⟩ := exists_answers schemas key
    rwa [hfound]
  · intro hanswers
    cases hanswers with
    | component hfound hvalues => exact find?_collect_of_enum hfound hvalues
    | property hplain howns hlongest => exact find?_collect_of_owns hplain howns hlongest
    | nothing hplain hnone => exact find?_collect_of_not_owns hplain hnone

end Answers

end EnumRegistry

end TypedApi
