import Mathlib.Data.List.ReduceOption
import TypedApi.Document.Reader
import TypedApi.Proofs.NameMap

/-!
# Members in another order

The members of an object may be listed in any order, but for the properties of a schema, whose order
is that of the generated members. What an object is depends on where it stands, so every part of a
document has a role, told by the layout of documents. A reader ignores the order if it reads the
same from a value in which one object has its members listed in another order; readers of lists,
maps and records do so if the readers of their parts do.
-/

namespace TypedApi

/-- What a part of a document is there for. -/
inductive Role where
  | document
  | components
  /-- The component schemas by name. -/
  | schemas
  | schema
  /-- The properties of a schema. -/
  | properties
  /-- The paths by template. -/
  | paths
  | path
  | operation
  /-- A list of parameters. -/
  | parameters
  | parameter
  /-- The responses by status. -/
  | responses
  /-- A request body or a response. -/
  | payload
  /-- The media types of a payload by name. -/
  | content
  | mediaType
  /-- A part that says nothing about schemas, or nothing at all. -/
  | other
  deriving DecidableEq, Repr

namespace Role

/-- The fields of a part that is a record. -/
def fields : Role → List Field
  | .document => [.spare "paths", .spare "components"]
  | .components => [.spare "schemas"]
  | .schema => Schema.fields
  | .path =>
    [.needed "get", .needed "post", .needed "put", .needed "patch", .needed "delete",
      .spare "parameters"]
  | .operation =>
    [.needed "operationId", .needed "summary", .spare "parameters", .needed "requestBody",
      .spare "responses"]
  | .parameter =>
    [.spare "name", .spare "in", .spare "required", .needed "schema", .needed "type"]
  | .payload => [.spare "content"]
  | .mediaType => [.needed "schema"]
  | _ => []

/-- The role of what a field of a record says. -/
def field : Role → String → Role
  | .document, "paths" => .paths
  | .document, "components" => .components
  | .components, "schemas" => .schemas
  | .schema, "properties" => .properties
  | .schema, "items" => .schema
  | .schema, "additionalProperties" => .schema
  | .path, "parameters" => .parameters
  | .path, _ => .operation
  | .operation, "parameters" => .parameters
  | .operation, "requestBody" => .payload
  | .operation, "responses" => .responses
  | .parameter, "schema" => .schema
  | .payload, "content" => .content
  | .mediaType, "schema" => .schema
  | _, _ => .other

/-- The role of every part of a map or a list. -/
def entry? : Role → Option Role
  | .schemas => some .schema
  | .properties => some .schema
  | .paths => some .path
  | .parameters => some .parameter
  | .responses => some .payload
  | .content => some .mediaType
  | .other => some .other
  | _ => none

/-- The role of what stands under a key of an object, or at a place of an array. -/
def under (role : Role) (key : Json.Key) : Role :=
  match role.entry? with
  | some entry => entry
  | none =>
    match key.field? role.fields with
    | some (some field) => role.field field.name
    | _ => .other

variable {role entry : Role} {field : Field}

/-- Under any key of a map there is an entry. -/
theorem under_eq_entry (h : role.entry? = some entry) (key : Json.Key) :
    role.under key = entry := by
  rw [under, h]

/-- Under the key of a field there is what the field says. -/
theorem under_eq_field (h : role.entry? = none) {key : Json.Key}
    (hkey : key.field? role.fields = some (some field)) :
    role.under key = role.field field.name := by
  rw [under, h, hkey]

end Role

namespace Json

variable {α β : Type} {role entry : Role} {value value' : Json} {depth : Nat}

section Orders

/-- One object has its members listed in another order, and it is not one of the properties of a
schema. -/
inductive ReorderedOnce : Role → Json → Json → Prop where
  /-- The object is the value itself. -/
  | here {role : Role} {members members' : List (Key × Json)} (hrole : role ≠ .properties)
      (h : members.Perm members') : ReorderedOnce role (.object members) (.object members')
  /-- The object stands somewhere under a member. -/
  | member {role : Role} (front : List (Key × Json)) {key : Key} {value value' : Json}
      {rest : List (Key × Json)} (h : ReorderedOnce (role.under key) value value') :
      ReorderedOnce role (.object (front ++ (key, value) :: rest))
        (.object (front ++ (key, value') :: rest))
  /-- The object stands somewhere in an item. -/
  | item {role : Role} (front : List Json) {value value' : Json} {rest : List Json}
      (h : ReorderedOnce (role.under (.place front.length)) value value') :
      ReorderedOnce role (.array (front ++ value :: rest)) (.array (front ++ value' :: rest))

mutual

/-- Whether no object repeats a key. -/
def keysDiffer : Json → Bool
  | .array items => itemsDiffer items
  | .object members => decide (members.map (·.1)).Nodup && membersDiffer members
  | .null => true
  | .bool _ => true
  | .int _ => true
  | .float _ => true
  | .text _ => true
  | .unreadable => true

/-- Whether no object in a list of values repeats a key. -/
def itemsDiffer : List Json → Bool
  | [] => true
  | value :: rest => value.keysDiffer && itemsDiffer rest

/-- Whether no object under a list of members repeats a key. -/
def membersDiffer : List (Key × Json) → Bool
  | [] => true
  | (_, value) :: rest => value.keysDiffer && membersDiffer rest

end

theorem itemsDiffer_eq_all (items : List Json) : itemsDiffer items = items.all keysDiffer := by
  induction items with
  | nil => rw [itemsDiffer, List.all_nil]
  | cons value rest ih => rw [itemsDiffer, List.all_cons, ih]

theorem membersDiffer_eq_all (members : List (Key × Json)) :
    membersDiffer members = members.all fun member => member.2.keysDiffer := by
  induction members with
  | nil => rw [membersDiffer, List.all_nil]
  | cons member rest ih => rw [membersDiffer, List.all_cons, ih]

/-- Keys that differ do so in another order. -/
theorem ReorderedOnce.keysDiffer_eq (h : ReorderedOnce role value value') :
    value.keysDiffer = value'.keysDiffer := by
  induction h with
  | here hrole h =>
    rw [keysDiffer, keysDiffer, membersDiffer_eq_all, membersDiffer_eq_all, h.all_eq,
      decide_eq_decide.mpr (h.map (·.1)).nodup_iff]
  | member front h ih =>
    simp only [keysDiffer, membersDiffer_eq_all, List.map_append, List.map_cons, List.all_append,
      List.all_cons, ih]
  | item front h ih =>
    simp only [keysDiffer, itemsDiffer_eq_all, List.all_append, List.all_cons, ih]

theorem allFit_eq_all (depth : Nat) (items : List Json) :
    allFit depth items = items.all (fits depth) := by
  induction items with
  | nil => rw [allFit, List.all_nil]
  | cons value rest ih => rw [allFit, List.all_cons, ih]

theorem membersFit_eq_all (depth : Nat) (members : List (Key × Json)) :
    membersFit depth members = members.all fun member => member.2.fits depth := by
  induction members with
  | nil => rw [membersFit, List.all_nil]
  | cons member rest ih => rw [membersFit, List.all_cons, ih]

/-- A value is as readable and as deep in another order. -/
theorem ReorderedOnce.fits_eq (h : ReorderedOnce role value value') (depth : Nat) :
    value.fits depth = value'.fits depth := by
  induction h generalizing depth with
  | here hrole h => rw [fits, fits, membersFit_eq_all, membersFit_eq_all, h.all_eq]
  | member front h ih =>
    simp only [fits, membersFit_eq_all, List.all_append, List.all_cons, ih (depth - 1)]
  | item front h ih =>
    simp only [fits, allFit_eq_all, List.all_append, List.all_cons, ih (depth - 1)]

end Orders

section Readers

/-- A reader of a part reads the same if one object has its members listed in another order. -/
def IgnoresOrder (role : Role) (read : Json → Option α) : Prop :=
  ∀ value value', value.keysDiffer = true → ReorderedOnce role value value' →
    read value = read value'

/-- A reader of leaves ignores the order. -/
theorem ignoresOrder_of_leaves {read : Json → Option α}
    (hobject : ∀ members, read (.object members) = none)
    (harray : ∀ items, read (.array items) = none) : IgnoresOrder role read := by
  rintro _ _ - (⟨-, -⟩ | - | -)
  · rw [hobject, hobject]
  · rw [hobject, hobject]
  · rw [harray, harray]

theorem ignoresOrder_text : IgnoresOrder role source.text :=
  ignoresOrder_of_leaves (fun _ => rfl) fun _ => rfl

theorem ignoresOrder_flag : IgnoresOrder role source.flag :=
  ignoresOrder_of_leaves (fun _ => rfl) fun _ => rfl

/-- A choice that is an object has one member only, which says nothing. -/
theorem ignoresOrder_choice (depth : Nat) : IgnoresOrder role (source.choice depth) := by
  have hone : ∀ members, (∀ name, members ≠ [(.name name, .null)]) →
      source.choice depth (.object members) = none := by
    intro members hother
    simp only [source]
    split
    · rename_i hsame
      cases hsame
    · rename_i name hsame
      cases hsame
      exact absurd rfl (hother name)
    · rfl
  rintro _ _ - (⟨-, hperm⟩ | ⟨front, hinner⟩ | -)
  · rename_i members members'
    by_cases hchoice : ∃ name, members = [(.name name, .null)]
    · obtain ⟨name, rfl⟩ := hchoice
      rw [List.perm_singleton.mp hperm.symm]
    · have hchoice' : ∀ name, members' ≠ [(.name name, .null)] := by
        rintro name rfl
        exact hchoice ⟨name, List.perm_singleton.mp hperm⟩
      rw [hone members fun name hsame => hchoice ⟨name, hsame⟩, hone members' hchoice']
  · rename_i key value value' rest
    have honly : ∀ {value name}, front ++ (key, value) :: rest = [(.name name, .null)] →
        value = .null := by
      intro value name hsame
      rcases List.append_eq_singleton_iff.mp hsame with ⟨-, hlast⟩ | ⟨-, hnone⟩
      · exact (Prod.mk.inj (List.cons.inj hlast).1).2
      · cases hnone
    have hvalue : value ≠ .null ∧ value' ≠ .null := by
      cases hinner <;> exact ⟨nofun, nofun⟩
    rw [hone _ fun name hsame => hvalue.1 (honly hsame),
      hone _ fun name hsame => hvalue.2 (honly hsame)]
  · rfl

/-- What is read as a value first is read from the same value. -/
theorem IgnoresOrder.ofValue {next : Json → Option α} (h : IgnoresOrder role next) (depth : Nat) :
    IgnoresOrder role (fun tree => do next (← source.value depth tree)) := by
  intro value value' hdiffer hreordered
  change (if value.fits depth then some value else none).bind next =
    (if value'.fits depth then some value' else none).bind next
  rw [hreordered.fits_eq]
  split
  · exact h value value' hdiffer hreordered
  · rfl

/-- Answers that begin the same and go on the same are the same. -/
theorem bind_eq_bind {answer answer' : Option α} {next next' : α → Option β}
    (h : answer = answer') (hnext : ∀ value, next value = next' value) :
    (answer >>= next) = (answer' >>= next') := by
  rw [h]
  exact bind_congr hnext

/-- An answer out of a JSON value is there or not. -/
theorem ofOption_eq (answer : Option α) : source.ofOption answer = answer := by
  cases answer <;> rfl

/-- What says that nothing is there is no object and no array. -/
theorem ReorderedOnce.optional_eq (h : ReorderedOnce role value value') :
    source.optional value = some (some value) ∧ source.optional value' = some (some value') := by
  cases h <;> exact ⟨rfl, rfl⟩

end Readers

section Lists

/-- Answers that are permuted twice are permuted. -/
theorem rel_trans {x y z : Option (List α)} (h : Option.Rel List.Perm x y)
    (h' : Option.Rel List.Perm y z) : Option.Rel List.Perm x z := by
  cases h with
  | none => exact h'
  | some h =>
    cases h' with
    | some h' => exact .some (h.trans h')

/-- An answer out of a list depends on an item by what is read from it. -/
theorem mapM_congr_item {f : α → Option β} {x y : α} (h : f x = f y) (front rest : List α) :
    (front ++ x :: rest).mapM f = (front ++ y :: rest).mapM f := by
  rw [List.mapM_append, List.mapM_append, List.mapM_cons, List.mapM_cons, h]

/-- Answers out of a list are listed in the order of the list. -/
theorem mapM_perm {f : α → Option β} {xs ys : List α} (h : xs.Perm ys) :
    Option.Rel List.Perm (xs.mapM f) (ys.mapM f) := by
  induction h with
  | nil => exact .some .nil
  | @cons x xs ys _ ih =>
    rw [List.mapM_cons, List.mapM_cons]
    cases f x with
    | none => exact .none
    | some y =>
      generalize xs.mapM f = front, ys.mapM f = behind at ih
      cases ih with
      | some h => exact .some (h.cons y)
      | none => exact .none
  | swap x y l =>
    simp only [List.mapM_cons]
    cases f x with
    | none => cases f y <;> exact .none
    | some x =>
      cases f y with
      | none => exact .none
      | some y =>
        cases l.mapM f with
        | none => exact .none
        | some l => exact .some (.swap x y l)
  | trans _ _ ih ih' => exact rel_trans ih ih'

/-- Answers that are read out of answers are read item by item. -/
theorem mapM_bind_mapM {γ : Type} (f : α → Option β) (g : β → Option γ) (xs : List α) :
    (xs.mapM f).bind (List.mapM g) = xs.mapM fun x => (f x).bind g := by
  induction xs with
  | nil => rfl
  | cons x xs ih =>
    simp only [List.mapM_cons]
    rw [← ih]
    cases f x with
    | none => rfl
    | some y =>
      cases xs.mapM f with
      | none =>
        rw [Option.bind_some]
        cases g y <;> rfl
      | some ys => exact List.mapM_cons

/-- Where an object in a list has another order, no object in the item repeats a key. -/
theorem keysDiffer_of_item {front rest : List Json}
    (h : (Json.array (front ++ value :: rest)).keysDiffer = true) : value.keysDiffer = true := by
  rw [keysDiffer, itemsDiffer_eq_all, List.all_append, List.all_cons] at h
  exact (Bool.and_eq_true_iff.mp (Bool.and_eq_true_iff.mp h).2).1

/-- A list ignores the order if its items do. -/
theorem ignoresOrder_list {read : Json → Option α} (h : IgnoresOrder entry read)
    (hentry : role.entry? = some entry) (depth : Nat) :
    IgnoresOrder role (source.list depth read) := by
  rintro _ _ hdiffer (⟨-, -⟩ | - | ⟨front, hinner⟩)
  · rfl
  · rfl
  · rw [Role.under_eq_entry hentry] at hinner
    simp only [Source.list, source]
    split
    · rfl
    · exact mapM_congr_item (h _ _ (keysDiffer_of_item hdiffer) hinner) _ _

/-- The names of a type are text. -/
theorem ignoresOrder_typeNames : IgnoresOrder .other TypeNames.ofJson := by
  rintro _ _ hdiffer (⟨-, -⟩ | - | ⟨front, hinner⟩)
  · rfl
  · rfl
  · have hname := ignoresOrder_text _ _ (keysDiffer_of_item hdiffer) hinner
    rw [TypeNames.ofJson, TypeNames.ofJson, mapM_congr_item hname]

end Lists

section Maps

/-- What a member adds to a map: its name with what its value says. -/
def entryOf (read : Json → Option α) (member : Key × Json) : Option (String × α) :=
  member.1.name?.bind fun name => (read member.2).map (name, ·)

/-- A map is read member by member. -/
theorem dictionary_object (depth : Nat) (read : Json → Option α) (members : List (Key × Json)) :
    source.dictionary depth read (.object members) =
      if depth = 0 then none else members.mapM (entryOf read) := by
  have hsteps : ∀ member : Key × Json,
      ((member.1.name?.map (·, member.2)).bind fun entry => do return (entry.1, ← read entry.2)) =
        entryOf read member := by
    rintro ⟨key, value⟩
    cases key with
    | name word =>
      change (read value).bind (fun answer => some (word, answer)) = (read value).map (word, ·)
      cases read value <;> rfl
    | place index => rfl
    | other => rfl
  simp only [Source.dictionary, source]
  split
  · rfl
  · exact (mapM_bind_mapM _ _ members).trans (congrArg (members.mapM ·) (funext hsteps))

/-- A map has the names of its members, in their order. -/
theorem map_name_of_mapM {read : Json → Option α} {members : List (Key × Json)}
    {entries : List (String × α)} (h : members.mapM (entryOf read) = some entries) :
    members.map (·.1) = entries.map fun entry => .name entry.1 := by
  induction members generalizing entries with
  | nil =>
    obtain rfl := Option.some.inj h
    rfl
  | cons member rest ih =>
    rw [List.mapM_cons] at h
    obtain ⟨entry, hentry, hrest⟩ := Option.bind_eq_some_iff.mp h
    obtain ⟨others, hothers, hall⟩ := Option.bind_eq_some_iff.mp hrest
    obtain rfl := Option.some.inj hall
    rw [List.map_cons, List.map_cons, ih hothers]
    obtain ⟨name, hname, hvalue⟩ := Option.bind_eq_some_iff.mp hentry
    obtain ⟨value, -, rfl⟩ := Option.map_eq_some_iff.mp hvalue
    congr 1
    generalize member.1 = key at hname
    cases key with
    | name word => rw [Option.some.inj hname]
    | place index => cases hname
    | other => cases hname

/-- A map whose members keep their order is read the same, if its values are. -/
theorem dictionary_congr_member {read : Json → Option α} (h : read value = read value')
    (depth : Nat) (front rest : List (Key × Json)) (key : Key) :
    source.dictionary depth read (.object (front ++ (key, value) :: rest)) =
      source.dictionary depth read (.object (front ++ (key, value') :: rest)) := by
  have hentry : entryOf read (key, value) = entryOf read (key, value') := by
    rw [entryOf, entryOf, h]
  rw [dictionary_object, dictionary_object, mapM_congr_item hentry]

/-- Where a value under a member has another order, no object in it repeats a key. -/
theorem keysDiffer_of_member {front rest : List (Key × Json)} {key : Key}
    (h : (Json.object (front ++ (key, value) :: rest)).keysDiffer = true) :
    value.keysDiffer = true := by
  rw [keysDiffer, membersDiffer_eq_all, List.all_append, List.all_cons] at h
  exact (Bool.and_eq_true_iff.mp (Bool.and_eq_true_iff.mp (Bool.and_eq_true_iff.mp h).2).2).1

/-- The properties of a schema ignore the order if schemas do: they keep their own. -/
theorem ignoresOrder_properties {read : Json → Option α} (h : IgnoresOrder .schema read)
    (depth : Nat) : IgnoresOrder .properties (source.dictionary depth read) := by
  rintro _ _ hdiffer (⟨hrole, -⟩ | ⟨front, hinner⟩ | -)
  · exact absurd rfl hrole
  · exact dictionary_congr_member (h _ _ (keysDiffer_of_member hdiffer) hinner) depth _ _ _
  · rfl

/-- A map by names ignores the order if its values do. -/
theorem ignoresOrder_nameMap {read : Json → Option α} (h : IgnoresOrder entry read)
    (hentry : role.entry? = some entry) (depth : Nat) :
    IgnoresOrder role (source.nameMap depth read) := by
  rintro _ _ hdiffer (⟨-, hperm⟩ | ⟨front, hinner⟩ | -)
  · rename_i members members'
    change (source.dictionary depth read (.object members)).map NameMap.ofList =
      (source.dictionary depth read (.object members')).map NameMap.ofList
    rw [dictionary_object, dictionary_object]
    split
    · rfl
    · have hkeys : (members.map (·.1)).Nodup := by
        rw [keysDiffer] at hdiffer
        exact of_decide_eq_true (Bool.and_eq_true_iff.mp hdiffer).1
      have hrel := mapM_perm (f := entryOf read) hperm
      have hnames : ∀ entries, members.mapM (entryOf read) = some entries →
          (entries.map (·.1)).Nodup := by
        intro entries hentries
        rw [map_name_of_mapM hentries] at hkeys
        exact List.pairwise_map.mpr ((List.pairwise_map.mp hkeys).imp fun hne hsame =>
          hne (congrArg Key.name hsame))
      generalize members.mapM (entryOf read) = entries, members'.mapM (entryOf read) = entries'
        at hrel hnames
      cases hrel with
      | none => rfl
      | some hentries => exact congrArg some (NameMap.ofList_eq_of_perm (hnames _ rfl) hentries)
  · rw [Role.under_eq_entry hentry] at hinner
    have hread := dictionary_congr_member (h _ _ (keysDiffer_of_member hdiffer) hinner) depth
    exact congrArg (Option.map NameMap.ofList) (hread _ _ _)
  · rfl

end Maps

section Records

/-- Two values of a role are the same, but for the order of members in one object. -/
def Alike (role : Role) (value value' : Json) : Prop :=
  value = value' ∨ value.keysDiffer = true ∧ ReorderedOnce role value value'

/-- Two records say alike things under every name. -/
def FieldsAlike (role : Role) (fields fields' : List (String × Json)) : Prop :=
  ∀ name, Option.Rel (Alike (role.field name)) (fields.lookup name) (fields'.lookup name)

variable {fields fields' : List (String × Json)} {read : Json → Option α}

theorem Alike.read_eq (h : Alike role value value') (hread : IgnoresOrder role read) :
    read value = read value' := by
  rcases h with rfl | ⟨hdiffer, hreordered⟩
  · rfl
  · exact hread _ _ hdiffer hreordered

theorem FieldsAlike.refl (role : Role) (fields : List (String × Json)) :
    FieldsAlike role fields fields := by
  intro name
  cases fields.lookup name with
  | none => exact .none
  | some value => exact .some (.inl rfl)

theorem FieldsAlike.rel_refl (role : Role) (answer : Option (List (String × Json))) :
    Option.Rel (FieldsAlike role) answer answer := by
  cases answer with
  | none => exact .none
  | some fields => exact .some (.refl role fields)

/-- Records that say alike things still do with a field more. -/
theorem FieldsAlike.cons {name : String} (hvalue : Alike (role.field name) value value')
    (h : FieldsAlike role fields fields') :
    FieldsAlike role ((name, value) :: fields) ((name, value') :: fields') := by
  intro other
  rw [Entries.lookup_cons_ite, Entries.lookup_cons_ite]
  split
  · rename_i hsame
    rw [hsame]
    exact .some hvalue
  · exact h other

/-- Records that say alike things in one field, and the same in all others. -/
theorem FieldsAlike.append {name : String} (hvalue : Alike (role.field name) value value')
    (front rest : List (String × Json)) :
    FieldsAlike role (front ++ (name, value) :: rest) (front ++ (name, value') :: rest) := by
  induction front with
  | nil => exact (FieldsAlike.refl role rest).cons hvalue
  | cons field front ih => exact ih.cons (.inl rfl)

/-- A field is read the same from records that say alike things. -/
theorem FieldsAlike.field_eq (h : FieldsAlike role fields fields') (name : String)
    (hread : IgnoresOrder (role.field name) read) (default : α) :
    Source.field fields name read default = Source.field fields' name read default := by
  have hvalue := h name
  simp only [Source.field]
  generalize fields.lookup name = found, fields'.lookup name = found' at hvalue
  cases hvalue with
  | none => rfl
  | some hvalue => exact hvalue.read_eq hread

/-- What a record may leave open is read the same from records that say alike things. -/
theorem FieldsAlike.optionalField_eq (h : FieldsAlike role fields fields') (name : String)
    (hread : IgnoresOrder (role.field name) read) :
    source.optionalField fields name read = source.optionalField fields' name read := by
  have hvalue := h name
  simp only [Source.optionalField]
  generalize fields.lookup name = found, fields'.lookup name = found' at hvalue
  cases hvalue with
  | none => rfl
  | some hvalue =>
    rcases hvalue with rfl | ⟨hdiffer, hreordered⟩
    · rfl
    · obtain ⟨hoptional, hoptional'⟩ := hreordered.optional_eq
      dsimp only
      rw [hoptional, hoptional']
      exact congrArg (Option.bind · fun answer => some (some answer)) (hread _ _ hdiffer hreordered)

/-- What a member says of a record, if its key can be asked for a field. -/
def found? (layout : List Field) (member : Key × Json) : Option (Option (String × Json)) :=
  (member.1.field? layout).map fun field => field.map fun field => (field.name, member.2)

/-- Something said by several members counts once only. -/
def once? (said : List (Option (String × Json))) : Option (List (String × Json)) :=
  if (said.reduceOption.map (·.1)).Nodup then some said.reduceOption else none

/-- The fields of a record are what its members say, if no two of them say the same. -/
theorem knownMembers_eq (layout : List Field) (members : List (Key × Json)) :
    knownMembers layout members = (members.mapM (found? layout)).bind once? := by
  induction members with
  | nil => rfl
  | cons member rest ih =>
    obtain ⟨key, value⟩ := member
    rw [knownMembers, ih, List.mapM_cons, found?]
    cases key.field? layout with
    | none => cases rest.mapM (found? layout) <;> simp
    | some field =>
      cases rest.mapM (found? layout) with
      | none => rfl
      | some said =>
        cases field with
        | none => simp [once?, List.reduceOption_cons_of_none]
        | some field =>
          simp only [once?, Option.map_some, Option.bind_eq_bind, Option.bind_some, Option.pure_def,
            List.reduceOption_cons_of_some, List.map_cons, List.nodup_cons]
          by_cases hrest : (said.reduceOption.map (·.1)).Nodup
          · simp only [hrest, if_true, and_true, Option.bind_some, Entries.lookup_isSome_iff_mem,
              ite_not]
          · rw [if_neg hrest, if_neg fun h => hrest h.2]
            rfl

/-- If one member says something alike, so does the record. -/
theorem rel_knownMembers_member {layout : List Field} {key : Key}
    (hvalue : ∀ field, key.field? layout = some (some field) →
      Alike (role.field field.name) value value') (front rest : List (Key × Json)) :
    Option.Rel (FieldsAlike role) (knownMembers layout (front ++ (key, value) :: rest))
      (knownMembers layout (front ++ (key, value') :: rest)) := by
  simp only [knownMembers_eq, List.mapM_append, List.mapM_cons, found?]
  cases front.mapM (found? layout) with
  | none => exact .none
  | some before =>
    cases hkey : key.field? layout with
    | none => exact .none
    | some field =>
      cases rest.mapM (found? layout) with
      | none => exact .none
      | some after =>
        cases field with
        | none => exact FieldsAlike.rel_refl role _
        | some field =>
          simp only [once?, Option.map_some, Option.bind_eq_bind, Option.bind_some,
            Option.pure_def, List.reduceOption_append, List.reduceOption_cons_of_some,
            List.map_append, List.map_cons]
          split
          · exact .some (FieldsAlike.append (hvalue field hkey) _ _)
          · exact .none

/-- The fields of a record are found in its members in whatever order. -/
theorem rel_knownMembers_perm {members members' : List (Key × Json)} (layout : List Field)
    (h : members.Perm members') :
    Option.Rel List.Perm (knownMembers layout members) (knownMembers layout members') := by
  rw [knownMembers_eq, knownMembers_eq]
  have hrel := mapM_perm (f := found? layout) h
  generalize members.mapM (found? layout) = said, members'.mapM (found? layout) = said' at hrel
  cases hrel with
  | none => exact .none
  | @some said said' hsaid =>
    have hknown : said.reduceOption.Perm said'.reduceOption := hsaid.filterMap id
    simp only [Option.bind_some, once?, (hknown.map (·.1)).nodup_iff]
    split
    · exact .some hknown
    · exact .none

/-- If one item says something alike, so does the record that is written as a list. -/
theorem rel_positionalMembers {layout : List Field} (front rest : List Json)
    (hvalue : ∀ field, layout[front.length]? = some field →
      Alike (role.field field.name) value value') :
    Option.Rel (FieldsAlike role) (positionalMembers layout (front ++ value :: rest))
      (positionalMembers layout (front ++ value' :: rest)) := by
  induction front generalizing layout with
  | nil =>
    cases layout with
    | nil => exact .none
    | cons field layout =>
      rw [List.nil_append, List.nil_append, positionalMembers, positionalMembers]
      cases positionalMembers layout rest with
      | none => exact .none
      | some known => exact .some ((FieldsAlike.refl role known).cons (hvalue field rfl))
  | cons item front ih =>
    cases layout with
    | nil => exact .none
    | cons field layout =>
      rw [List.cons_append, List.cons_append, positionalMembers, positionalMembers]
      have hrel := @ih layout hvalue
      generalize positionalMembers layout (front ++ value :: rest) = known,
        positionalMembers layout (front ++ value' :: rest) = known' at hrel
      cases hrel with
      | none => exact .none
      | some h => exact .some (h.cons (.inl rfl))

/-- No field of a record is found twice. -/
theorem nodup_knownMembers {layout : List Field} {members : List (Key × Json)}
    (h : knownMembers layout members = some fields) : (fields.map (·.1)).Nodup := by
  rw [knownMembers_eq] at h
  obtain ⟨said, -, hsaid⟩ := Option.bind_eq_some_iff.mp h
  rw [once?] at hsaid
  split at hsaid
  · rename_i hnodup
    rwa [← Option.some.inj hsaid]
  · cases hsaid

/-- A record says alike things in another order. -/
theorem rel_record (hentry : role.entry? = none) (depth : Nat) (hdiffer : value.keysDiffer = true)
    (h : ReorderedOnce role value value') :
    Option.Rel (FieldsAlike role) (source.record depth role.fields value)
      (source.record depth role.fields value') := by
  simp only [source]
  split
  · exact .none
  · cases h with
    | here hrole h =>
      rename_i members members'
      dsimp only
      have hrel := rel_knownMembers_perm role.fields h
      have hnodup : ∀ fields, knownMembers role.fields members = some fields →
          (fields.map (·.1)).Nodup := fun _ => nodup_knownMembers
      generalize knownMembers role.fields members = known,
        knownMembers role.fields members' = known' at hrel hnodup
      cases hrel with
      | none => exact .none
      | some hperm =>
        refine .some fun name => ?_
        rw [Entries.lookup_eq_of_perm (hnodup _ rfl) hperm]
        exact FieldsAlike.refl role _ name
    | member front h =>
      refine rel_knownMembers_member (fun field hkey => .inr ⟨keysDiffer_of_member hdiffer, ?_⟩) _ _
      rwa [← Role.under_eq_field hentry hkey]
    | item front h =>
      refine rel_positionalMembers _ _ fun field hfield => .inr ⟨keysDiffer_of_item hdiffer, ?_⟩
      have hkey : (Key.place _).field? role.fields = some (some field) := congrArg some hfield
      rwa [← Role.under_eq_field hentry hkey]

/-- What is made of a record ignores the order if what is made of its fields does. -/
theorem ignoresOrder_record (role : Role) (hentry : role.entry? = none) (depth : Nat)
    {next : List (String × Json) → Option α}
    (hnext : ∀ fields fields', FieldsAlike role fields fields' → next fields = next fields') :
    IgnoresOrder role (fun tree => do next (← source.record depth role.fields tree)) := by
  intro value value' hdiffer hreordered
  have hrel := rel_record hentry depth hdiffer hreordered
  dsimp only
  generalize source.record depth role.fields value = found,
    source.record depth role.fields value' = found' at hrel
  cases hrel with
  | none => rfl
  | some hfields => exact hnext _ _ hfields

end Records

end Json

end TypedApi
