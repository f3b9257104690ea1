import Mathlib.Order.WellFounded
import TypedApi.Proofs.Lookups
import TypedApi.Proofs.Pages

/-!
# Walks that come to an end

Typing is a walk without any bound of its own: a node asks for the types of the nodes below it, and
a reference to a page for the type of the page's items. It is told here call by call, where a walk
that may go so many calls deep either answers or does not get to an end. A walk answers exactly if
no infinite chain of pages starts at its node, and then the bound that `Scope.typeOf` puts on pages
makes no difference to the answer. References to anything but pages are never followed, so circles
among them do no harm.
-/

namespace TypedApi

open TypeScript

namespace Schema

/-- Whether a node is typed by its properties or by its further values. -/
instance (schema : Schema) : Decidable schema.IsObject :=
  inferInstanceAs (Decidable (_ ∨ _))

/-- An object is no array. -/
theorem IsObject.ne_array {schema : Schema} (h : schema.IsObject) :
    schema.primaryType ≠ some "array" := by
  rcases h with h | h <;> rw [h] <;> decide

end Schema

namespace Scope

variable {scope : Scope} {schema call item : Schema} {target : String} {depth : Nat}

/-- The items that a reference to a page is typed by. -/
def openItem? (scope : Scope) (target : String) : Option Schema :=
  if Naming.isPage target && (scope.enums.find? target).isNone then
    (scope.schemas.find? target).bind Schema.pageItem
  else none

/-- The walk, at most so many calls deep: a type, unless it does not get to an end. -/
def walk (scope : Scope) : Nat → Schema → Option Ty
  | 0 => fun _ => none
  | depth + 1 => scope.walkStep (scope.walk depth)

/-- The nodes that a call of the walk asks for. -/
def calls (scope : Scope) (schema : Schema) : List Schema :=
  match schema.ref with
  | some pointer => (scope.openItem? (refTarget pointer)).toList
  | none =>
    if schema.primaryType = some "array" then schema.items.toList
    else if schema.IsObject then
      match schema.members with
      | [] => schema.valueSchema.toList
      | members => members.map (·.2)
    else []

/-- The type of a node, through at most so many pages. -/
def typeAt (scope : Scope) (depth : Nat) (schema : Schema) : Ty :=
  schema.typeWith (scope.resolveWith (scope.pageItemType depth))

/-- The items that a reference is typed by are those of an open page. -/
theorem openItem?_eq_some_iff : scope.openItem? target = some item ↔ scope.Holds target item := by
  rw [openItem?]
  split
  · rename_i hopen
    obtain ⟨hpage, hunregistered⟩ := Bool.and_eq_true_iff.mp hopen
    refine ⟨fun h => ⟨⟨hpage, Option.isNone_iff_eq_none.mp hunregistered, ?_⟩, h⟩, fun h => h.item⟩
    obtain ⟨held, hheld, -⟩ := Option.bind_eq_some_iff.mp h
    exact NameMap.contains_iff.mpr ⟨held, hheld⟩
  · rename_i hclosed
    refine ⟨fun h => (nomatch h), fun h => absurd ?_ hclosed⟩
    rw [h.page, h.unregistered]
    rfl

section Calls

variable {α β : Type} {f : α → Option β} {g : α → β} {list : List α}

/-- A list of calls answers exactly if each of them does. -/
theorem isSome_mapM_iff : (list.mapM f).isSome = true ↔ ∀ a ∈ list, (f a).isSome = true := by
  induction list with
  | nil => simp
  | cons a rest ih =>
    rw [List.forall_mem_cons, ← ih, List.mapM_cons]
    cases f a <;> cases rest.mapM f <;> simp

/-- A list of calls is answered one by one. -/
theorem mapM_eq_some_map (h : ∀ a ∈ list, f a = some (g a)) : list.mapM f = some (list.map g) := by
  induction list with
  | nil => rfl
  | cons a rest ih =>
    obtain ⟨ha, hrest⟩ := List.forall_mem_cons.mp h
    rw [List.mapM_cons, ha, ih hrest]
    rfl

end Calls

section Step

variable {recur : Schema → Option Ty}

/-- A call for an array asks for its items. -/
theorem walkStep_of_array (href : schema.ref = none)
    (htype : schema.primaryType = some "array") :
    scope.walkStep recur schema =
      match schema.items with
      | some item => (recur item).map .array
      | none => some (.array .any) := by
  cases hitems : schema.items <;> simp only [walkStep, href, htype, hitems]

/-- A call for an object asks for what describes its properties. -/
theorem walkStep_of_object (href : schema.ref = none) (htype : schema.IsObject) :
    scope.walkStep recur schema = walkObject recur schema := by
  rcases htype with htype | htype <;> simp only [walkStep, href, htype]

/-- An object with properties is typed by them. -/
theorem walkObject_of_members (hmembers : schema.members ≠ []) :
    walkObject recur schema = (walkMembers recur schema).map .object := by
  rw [walkObject, if_pos (by simpa [Schema.hasProperties] using hmembers)]

/-- An object without properties is typed by its further values. -/
theorem walkObject_of_value {value : Schema} (hmembers : schema.members = [])
    (hvalue : schema.valueSchema = some value) :
    walkObject recur schema = (recur value).map .record := by
  rw [walkObject, if_neg (by simp [Schema.hasProperties, hmembers])]
  rw [Schema.valueSchema] at hvalue
  split at hvalue
  · rename_i hadditional
    rw [Option.some.inj hvalue] at hadditional
    rw [hadditional]
  · cases hvalue

/-- An object without either is typed by its other keywords. -/
theorem walkObject_of_plain (resolve : String → Ty) (href : schema.ref = none)
    (hobject : schema.IsObject) (hmembers : schema.members = [])
    (hvalue : schema.valueSchema = none) :
    walkObject recur schema = some (schema.typeWith resolve) := by
  have hproperties : schema.properties = none ∨ schema.properties = some [] := by
    rw [Schema.members] at hmembers
    cases hheld : schema.properties with
    | none => exact .inl rfl
    | some held => exact .inr (by simpa [hheld] using hmembers)
  rw [walkObject, if_neg (by simp [Schema.hasProperties, hmembers]), Schema.typeWith_of_node href]
  rw [Schema.IsObject] at hobject
  rw [Schema.valueSchema] at hvalue
  -- With an empty list of properties, and with none, both sides look at the same keywords.
  grind

/-- A call for any other node asks for nothing. -/
theorem walkStep_of_plain (resolve : String → Ty) (href : schema.ref = none)
    (harray : schema.primaryType ≠ some "array") (hobject : ¬ schema.IsObject) :
    scope.walkStep recur schema = some (schema.typeWith resolve) := by
  rw [walkStep, href, Schema.typeWith_of_node href]
  rw [Schema.IsObject, not_or] at hobject
  -- For every other type name both sides say the same.
  grind

/-- A reference is answered exactly if the items that it is typed by are. -/
theorem isSome_walkReference_iff :
    (scope.walkReference recur target).isSome = true ↔
      ∀ item ∈ scope.openItem? target, (recur item).isSome = true := by
  rw [walkReference, openItem?]
  cases scope.enums.find? target with
  | some values => simp
  | none =>
    cases scope.schemas.find? target with
    | none => cases scope.config.unresolvedRefs <;> simp
    | some held =>
      by_cases hpage : Naming.isPage target = true
      · cases hitem : held.pageItem <;> simp [hpage, hitem]
      · simp [hpage]

/-- A call of the walk answers exactly if all calls that it makes do. -/
theorem isSome_walkStep_iff :
    (scope.walkStep recur schema).isSome = true ↔
      ∀ call ∈ scope.calls schema, (recur call).isSome = true := by
  rw [calls]
  cases href : schema.ref with
  | some pointer =>
    simp only [walkStep, href, isSome_walkReference_iff, Option.mem_toList]
    rfl
  | none =>
    simp only
    by_cases harray : schema.primaryType = some "array"
    · rw [walkStep_of_array href harray, if_pos harray]
      cases schema.items <;> simp
    rw [if_neg harray]
    by_cases hobject : schema.IsObject
    · rw [walkStep_of_object href hobject, if_pos hobject]
      cases hmembers : schema.members with
      | nil =>
        cases hvalue : schema.valueSchema with
        | none =>
          rw [walkObject_of_plain (fun _ => .any) href hobject hmembers hvalue]
          simp
        | some value =>
          rw [walkObject_of_value hmembers hvalue]
          simp
      | cons first rest =>
        rw [walkObject_of_members (by simp [hmembers]), walkMembers, hmembers]
        simp only [Option.isSome_map, isSome_mapM_iff, List.forall_mem_map]
    · rw [walkStep_of_plain (fun _ => .any) href harray hobject, if_neg hobject]
      simp

/-- A reference is answered as with a bound on pages, if the items that it is typed by are answered
as with a bound that is smaller by one. -/
theorem walkReference_eq
    (h : ∀ item ∈ scope.openItem? target, recur item = some (scope.typeAt depth item)) :
    scope.walkReference recur target =
      some (scope.resolveWith (scope.pageItemType (depth + 1)) target) := by
  rw [walkReference, resolveWith]
  rw [openItem?] at h
  cases henums : scope.enums.find? target with
  | some values => rfl
  | none =>
    cases hfound : scope.schemas.find? target with
    | none => cases scope.config.unresolvedRefs <;> rfl
    | some held =>
      by_cases hpage : Naming.isPage target = true
      · cases hitem : held.pageItem with
        | none => simp [hpage, hitem, pageItemType]
        | some item =>
          have hanswer : recur item = some (scope.typeAt depth item) := by
            simpa [henums, hfound, hpage, hitem] using h
          simp [hpage, hitem, pageItemType, hanswer, typeAt]
      · simp [hpage]

/-- A call of the walk answers as with a bound on pages, if all calls that it makes do, with a bound
that is smaller by one for those behind a page. -/
theorem walkStep_eq
    (h : ∀ call ∈ scope.calls schema, recur call = some (scope.typeAt depth call) ∧
      recur call = some (scope.typeAt (depth + 1) call)) :
    scope.walkStep recur schema = some (scope.typeAt (depth + 1) schema) := by
  rw [typeAt]
  cases href : schema.ref with
  | some pointer =>
    simp only [calls, href] at h
    rw [Schema.typeWith_of_ref href, walkStep, href]
    exact walkReference_eq fun item hitem => (h item (Option.mem_toList.mpr hitem)).1
  | none =>
    by_cases harray : schema.primaryType = some "array"
    · simp only [calls, href, if_pos harray] at h
      rw [Schema.typeWith_of_array href harray, walkStep_of_array href harray]
      cases hitem : schema.items with
      | none => rfl
      | some item =>
        simp only [(h item (by simp [hitem])).2]
        rfl
    by_cases hobject : schema.IsObject
    · simp only [calls, href, if_neg harray, if_pos hobject] at h
      rw [walkStep_of_object href hobject]
      cases hmembers : schema.members with
      | nil =>
        rw [hmembers] at h
        cases hvalue : schema.valueSchema with
        | none => exact walkObject_of_plain _ href hobject hmembers hvalue
        | some value =>
          rw [Schema.typeWith_of_value href hobject hmembers hvalue,
            walkObject_of_value hmembers hvalue, (h value (by simp [hvalue])).2]
          rfl
      | cons first rest =>
        rw [hmembers] at h
        have hsome : schema.members ≠ [] := hmembers ▸ List.cons_ne_nil first rest
        rw [Schema.typeWith_of_members href hobject hsome, Schema.membersWith_eq_map,
          walkObject_of_members hsome, walkMembers, hmembers]
        rw [mapM_eq_some_map fun member hmember => by
          rw [(h member.2 (List.mem_map_of_mem hmember)).2, Option.map_some]]
        rfl
    · exact walkStep_of_plain _ href harray hobject

end Step

/-- A walk that answers also answers with one more call, and so with any more. -/
theorem isSome_walk_of_le {more : Nat} (h : (scope.walk depth schema).isSome = true)
    (hle : depth ≤ more) : (scope.walk more schema).isSome = true := by
  induction more generalizing depth schema with
  | zero =>
    obtain rfl := Nat.le_zero.mp hle
    exact h
  | succ more ih =>
    cases depth with
    | zero => cases h
    | succ depth =>
      exact isSome_walkStep_iff.mpr fun call hcall =>
        ih (isSome_walkStep_iff.mp h call hcall) (Nat.le_of_succ_le_succ hle)

/-- A walk that answers so many calls deep answers as with any such bound on pages. -/
theorem eq_typeAt_of_walk {bound : Nat} (h : (scope.walk depth schema).isSome = true)
    (hle : depth ≤ bound) : scope.walk depth schema = some (scope.typeAt bound schema) := by
  induction depth generalizing schema bound with
  | zero => cases h
  | succ depth ih =>
    obtain ⟨bound, rfl⟩ := Nat.exists_eq_add_of_lt hle
    refine walkStep_eq fun call hcall => ?_
    have hanswers := isSome_walkStep_iff.mp h call hcall
    exact ⟨ih hanswers (by omega), ih hanswers (by omega)⟩

/-- The walk gets to an end at a node. -/
def Returns (scope : Scope) (schema : Schema) : Prop :=
  ∃ depth, (scope.walk depth schema).isSome = true

/-- Walks that get to an end do so within one depth. -/
theorem exists_depth_of_returns {list : List Schema} (h : ∀ call ∈ list, scope.Returns call) :
    ∃ depth, ∀ call ∈ list, (scope.walk depth call).isSome = true := by
  induction list with
  | nil => exact ⟨0, List.forall_mem_nil _⟩
  | cons first rest ih =>
    obtain ⟨⟨depth, hfirst⟩, hothers⟩ := List.forall_mem_cons.mp h
    obtain ⟨bound, hrest⟩ := ih hothers
    refine ⟨max depth bound, List.forall_mem_cons.mpr ⟨?_, fun call hcall => ?_⟩⟩
    · exact isSome_walk_of_le hfirst (le_max_left depth bound)
    · exact isSome_walk_of_le (hrest call hcall) (le_max_right depth bound)

/-- The walk gets to an end if it does so at all nodes that it asks for. -/
theorem returns_of_calls (h : ∀ call ∈ scope.calls schema, scope.Returns call) :
    scope.Returns schema := by
  obtain ⟨depth, hcalls⟩ := exists_depth_of_returns h
  exact ⟨depth + 1, isSome_walkStep_iff.mpr hcalls⟩

/-- A call is for the items of a page that is met, or for a node right below, where nothing else is
met. -/
theorem page_or_child_of_mem_calls (h : call ∈ scope.calls schema) :
    (∃ page, Schema.Meets page schema ∧ scope.Holds page call) ∨
      ((∃ property, (property, call) ∈ schema.childrenAt none) ∧
        ∀ target, Schema.Meets target call → Schema.Meets target schema) := by
  cases href : schema.ref with
  | some pointer =>
    simp only [calls, href] at h
    exact .inl ⟨refTarget pointer, .ref href rfl, openItem?_eq_some_iff.mp (Option.mem_toList.mp h)⟩
  | none =>
    refine .inr ?_
    by_cases harray : schema.primaryType = some "array"
    · simp only [calls, href, if_pos harray] at h
      have hitem := Option.mem_toList.mp h
      exact ⟨⟨_, Schema.mem_childrenAt_of_items none hitem⟩, fun _ => .item href harray hitem⟩
    by_cases hobject : schema.IsObject
    · simp only [calls, href, if_neg harray, if_pos hobject] at h
      cases hmembers : schema.members with
      | nil =>
        rw [hmembers] at h
        have hvalue := Option.mem_toList.mp h
        exact ⟨⟨_, Schema.mem_childrenAt_of_valueSchema none hvalue⟩,
          fun _ => .value href hobject hmembers hvalue⟩
      | cons first rest =>
        rw [hmembers] at h
        obtain ⟨member, hmember, rfl⟩ := List.mem_map.mp h
        rw [← hmembers] at hmember
        exact ⟨⟨_, Schema.mem_childrenAt_of_mem_members none hmember⟩,
          fun _ => .member href hobject hmember⟩
    · simp only [calls, href, if_neg harray, if_neg hobject] at h
      cases h

/-- The items of a page that is met are asked for, at once or behind a call that meets the page. -/
theorem exists_call_of_meets {page : String} (hmeets : Schema.Meets page schema)
    (hitem : scope.Holds page item) :
    item ∈ scope.calls schema ∨ ∃ call ∈ scope.calls schema, Schema.Meets page call := by
  cases hmeets with
  | ref href htarget =>
    subst htarget
    simp only [calls, href]
    exact .inl (Option.mem_toList.mpr (openItem?_eq_some_iff.mpr hitem))
  | @item _ below href harray hbelow hmet =>
    refine .inr ⟨below, ?_, hmet⟩
    simp only [calls, href, if_pos harray]
    exact Option.mem_toList.mpr hbelow
  | @member _ member href hobject hmember hmet =>
    refine .inr ⟨member.2, ?_, hmet⟩
    have harray : schema.primaryType ≠ some "array" := hobject.ne_array
    simp only [calls, href, if_neg harray, if_pos hobject]
    split
    · rename_i hnone
      rw [hnone] at hmember
      cases hmember
    · exact List.mem_map_of_mem hmember
  | @value _ value href hobject hmembers hvalue hmet =>
    refine .inr ⟨value, ?_, hmet⟩
    have harray : schema.primaryType ≠ some "array" := hobject.ne_array
    simp only [calls, href, if_neg harray, if_pos hobject, hmembers]
    exact Option.mem_toList.mpr hvalue

/-- The walk gets to an end at a node if it does so at the items of all pages that the node meets:
below the node, only a reference leaves the node. -/
theorem returns_of_pages
    (h : ∀ page item, Schema.Meets page schema → scope.Holds page item → scope.Returns item) :
    scope.Returns schema := by
  induction schema using Schema.nodeInduction with
  | node schema ih =>
    refine returns_of_calls fun call hcall => ?_
    rcases page_or_child_of_mem_calls hcall with
      ⟨page, hmeets, hitem⟩ | ⟨⟨property, hchild⟩, hbelow⟩
    · exact h page call hmeets hitem
    · exact ih none (property, call) hchild fun page item hmeets => h page item (hbelow page hmeets)

/-- Only finitely many pages follow each other behind a page, however the walk turns. -/
def IsFinite (scope : Scope) : String → Prop :=
  Acc (Function.swap scope.PageStep)

/-- Behind a page with finitely many pages, the walk gets to an end: an induction on the pages, with
one on the nodes of the items of each. -/
theorem IsFinite.returns {page : String} (h : scope.IsFinite page) (hitem : scope.Holds page item) :
    scope.Returns item := by
  induction h generalizing item with
  | intro page _ ih =>
    refine returns_of_pages fun inner innerItem hmeets hinner => ?_
    exact ih inner ⟨item, hitem, hmeets, hinner.toIsOpenPage⟩ hinner

/-- A walk that gets to an end meets only pages with finitely many behind them. -/
theorem isFinite_of_walk {page : String} (h : (scope.walk depth schema).isSome = true)
    (hmeets : Schema.Meets page schema) : scope.IsFinite page := by
  induction depth generalizing schema page with
  | zero => cases h
  | succ depth ih =>
    have hcalls := isSome_walkStep_iff.mp h
    refine Acc.intro page fun inner => ?_
    rintro ⟨item, hitem, hinner, hopen⟩
    rcases exists_call_of_meets hmeets hitem with hcall | ⟨call, hcall, hmet⟩
    · exact ih (hcalls item hcall) hinner
    · exact (ih (hcalls call hcall) hmet).inv ⟨item, hitem, hinner, hopen⟩

/-- The walk gets to an end exactly if no infinite chain of pages starts at the node. -/
theorem returns_iff :
    scope.Returns schema ↔ ¬ ∃ chain : Nat → String,
      Schema.Meets (chain 0) schema ∧ ∀ n, scope.PageStep (chain n) (chain (n + 1)) := by
  constructor
  · rintro ⟨depth, h⟩ ⟨chain, hmeets, hsteps⟩
    exact not_acc_iff_exists_descending_chain.mpr ⟨chain, rfl, hsteps⟩ (isFinite_of_walk h hmeets)
  · intro hnone
    refine returns_of_pages fun page item hmeets hitem => IsFinite.returns ?_ hitem
    by_contra hinfinite
    obtain ⟨chain, rfl, hsteps⟩ := not_acc_iff_exists_descending_chain.mp hinfinite
    exact hnone ⟨chain, hmeets, hsteps⟩

/-- A page with finitely many behind it is not on a circle. -/
theorem IsFinite.not_transGen {page : String} (h : scope.IsFinite page) :
    ¬ Relation.TransGen scope.PageStep page page := by
  induction h with
  | intro page _ ih =>
    intro hcircle
    obtain ⟨inner, hstep, hback⟩ := Relation.TransGen.head'_iff.mp hcircle
    exact ih inner hstep (.tail' hback hstep)

/-- A chain from a page with finitely many behind it has no page twice. -/
theorem IsFinite.nodup {first : String} {rest : List String} (h : scope.IsFinite first)
    (hchain : scope.PageChain target (first :: rest)) : (first :: rest).Nodup := by
  induction rest generalizing first with
  | nil => exact List.nodup_cons.mpr ⟨List.not_mem_nil, List.nodup_nil⟩
  | cons second rest ih =>
    refine List.nodup_cons.mpr ⟨fun hmem => h.not_transGen (hchain.transGen_of_mem first hmem), ?_⟩
    cases hchain with
    | cons hstep hinner => exact ih (h.inv hstep) hinner

/-- Only the types of the items of pages that are met make a difference to the type of a node. -/
theorem typeAt_congr {bound : Nat}
    (h : ∀ page held item, Schema.Meets page schema → scope.Holds page item →
      held.pageItem = some item → scope.pageItemType depth held = scope.pageItemType bound held) :
    scope.typeAt depth schema = scope.typeAt bound schema := by
  refine Schema.typeWith_congr fun page hmeets => ?_
  rw [resolveWith, resolveWith]
  cases henums : scope.enums.find? page with
  | some values => rfl
  | none =>
    cases hfound : scope.schemas.find? page with
    | none => rfl
    | some held =>
      by_cases hpage : Naming.isPage page = true
      · have hsame : scope.pageItemType depth held = scope.pageItemType bound held := by
          cases hitem : held.pageItem with
          | none => cases depth <;> cases bound <;> simp [pageItemType, hitem]
          | some item =>
            have hopen : scope.IsOpenPage page :=
              ⟨hpage, henums, NameMap.contains_iff.mpr ⟨held, hfound⟩⟩
            exact h page held item hmeets ⟨hopen, by rw [hfound]; exact hitem⟩ hitem
        simp only [hsame]
      · simp only [if_neg hpage]

/-- A bound on pages that is larger by one makes no difference, unless a chain of pages is as
long. -/
theorem typeAt_succ (h : ∀ target, ¬ scope.Descends target (depth + 1) schema) :
    scope.typeAt (depth + 1) schema = scope.typeAt depth schema := by
  induction depth generalizing schema with
  | zero =>
    refine typeAt_congr fun page held item hmeets hholds _ => ?_
    exact absurd ⟨page, [], .single hholds.toIsOpenPage, rfl, hmeets⟩ (h page)
  | succ depth ih =>
    refine typeAt_congr fun page held item hmeets hholds hitem => ?_
    have hsame : scope.typeAt (depth + 1) item = scope.typeAt depth item :=
      ih fun target hdescends => h target (hdescends.cons hholds hmeets)
    rw [pageItemType, pageItemType, hitem]
    exact congrArg some hsame

/-- Where the walk gets to an end, no chain of pages is longer than there are schemas. -/
theorem Returns.not_descends {length : Nat} (h : scope.Returns schema)
    (hlong : scope.schemas.size < length) : ¬ scope.Descends target length schema := by
  rintro ⟨first, rest, hchain, rfl, hmeets⟩
  obtain ⟨depth, hdepth⟩ := h
  have hfinite := isFinite_of_walk hdepth hmeets
  have hle := ((hfinite.nodup hchain).subperm hchain.subset).length_le
  have hsize : scope.schemas.names.length = scope.schemas.size := List.length_map _
  omega

/-- Where the walk gets to an end, a bound beyond the number of schemas makes no difference. -/
theorem Returns.typeAt_eq {bound : Nat} (h : scope.Returns schema)
    (hle : scope.schemas.size ≤ bound) : scope.typeAt bound schema = scope.typeOf schema := by
  induction bound, hle using Nat.le_induction with
  | base => rfl
  | succ bound hle ih =>
    rw [typeAt_succ fun target => h.not_descends (Nat.lt_succ_of_le hle), ih]

/-- A walk that gets to an end answers with the type of the node. -/
theorem walk_eq_typeOf (h : (scope.walk depth schema).isSome = true) :
    scope.walk depth schema = some (scope.typeOf schema) := by
  have hreturns : scope.Returns schema := ⟨depth, h⟩
  rw [eq_typeAt_of_walk h (le_max_left depth scope.schemas.size),
    hreturns.typeAt_eq (le_max_right depth scope.schemas.size)]

/-- The walk without a bound answers whatever a walk of some depth answers. -/
theorem typeOf?_of_walk {type : Ty} (h : scope.walk depth schema = some type) :
    scope.typeOf? schema = some type := by
  induction depth generalizing schema type with
  | zero => cases h
  | succ depth ih =>
    rw [typeOf?]
    exact walkStep_mono (fun _ _ => ih) h

/-- The walk without a bound answers only where a walk of some depth does. -/
theorem returns_of_typeOf? {type : Ty} (h : scope.typeOf? schema = some type) :
    scope.Returns schema := by
  refine typeOf?.partial_correctness scope (fun node _ => scope.Returns node) ?_ schema type h
  intro recur hrecur node answer hanswer
  have hcalls := isSome_walkStep_iff.mp (Option.isSome_of_eq_some hanswer)
  refine returns_of_calls fun call hcall => ?_
  obtain ⟨answered, hanswered⟩ := Option.isSome_iff_exists.mp (hcalls call hcall)
  exact hrecur call answered hanswered

/-- Where the walk gets to an end, its answer is the type of the node. -/
theorem Returns.typeOf?_eq (h : scope.Returns schema) :
    scope.typeOf? schema = some (scope.typeOf schema) := by
  obtain ⟨depth, hdepth⟩ := h
  exact typeOf?_of_walk (walk_eq_typeOf hdepth)

/-- The walk gets to an end exactly if it has an answer. -/
theorem isSome_typeOf?_iff : (scope.typeOf? schema).isSome = true ↔ scope.Returns schema := by
  constructor
  · intro h
    obtain ⟨type, htype⟩ := Option.isSome_iff_exists.mp h
    exact returns_of_typeOf? htype
  · intro h
    rw [h.typeOf?_eq, Option.isSome_some]

/-- If no infinite chain of pages refers from one to the next, then the walk gets to an end at every
node, and answers with its type. -/
theorem exists_walk_eq_typeOf
    (h : ¬ ∃ chain : Nat → String, ∀ n, scope.PageStep (chain n) (chain (n + 1)))
    (schema : Schema) :
    ∃ depth, ∀ more, depth ≤ more → scope.walk more schema = some (scope.typeOf schema) := by
  obtain ⟨depth, hdepth⟩ : scope.Returns schema :=
    returns_iff.mpr fun ⟨chain, _, hsteps⟩ => h ⟨chain, hsteps⟩
  exact ⟨depth, fun more hle => walk_eq_typeOf (isSome_walk_of_le hdepth hle)⟩

section Trees

/-- A node of a tree, with its parent and a page of its children. -/
def treeNode : Schema :=
  { properties := some [("parent", { ref := some "#/components/schemas/Node" }),
      ("children", { ref := some "#/components/schemas/PaginatedNodes" })] }

/-- An entry of a page of nodes, with a page of the leaves below the node. -/
def nodeEntry : Schema :=
  { properties := some [("node", { ref := some "#/components/schemas/Node" }),
      ("leaves", { ref := some "#/components/schemas/PaginatedLeaves" })] }

/-- A page of the given items. -/
def pageOf (item : Schema) : Schema :=
  { properties := some [("results", { type := some (.one "array"), items := some item })] }

/-- Component schemas that refer to each other in circles. The pages among them refer to each other
too, but only one way. -/
def trees : Scope where
  enums := .empty
  schemas := .ofList [("Node", treeNode), ("PaginatedNodes", pageOf nodeEntry),
    ("PaginatedLeaves", pageOf { ref := some "#/components/schemas/Node" })]
  config := {}

/-- The items of the pages are those declared. -/
theorem item_of_holds_trees {name : String} (h : trees.Holds name item) :
    name = "PaginatedNodes" ∧ item = nodeEntry ∨
      name = "PaginatedLeaves" ∧ item = { ref := some "#/components/schemas/Node" } := by
  have hheld := h.item
  rcases NameMap.contains_ofList_iff.mp h.component with
    _ | ⟨_, _ | ⟨_, _ | ⟨_, hnone⟩⟩⟩
  · exact absurd h.page (by decide)
  · rw [trees, NameMap.find?_ofList] at hheld
    exact .inl ⟨rfl, (Option.some.inj hheld).symm⟩
  · rw [trees, NameMap.find?_ofList] at hheld
    exact .inr ⟨rfl, (Option.some.inj hheld).symm⟩
  · cases hnone

/-- Only the page of nodes refers to a page, the one of leaves. -/
theorem pageStep_trees_iff {outer inner : String} :
    trees.PageStep outer inner ↔ outer = "PaginatedNodes" ∧ inner = "PaginatedLeaves" := by
  constructor
  · rintro ⟨item, hitem, hmeets, hopen⟩
    have hmet := hmeets.mem_refs
    rcases item_of_holds_trees hitem with ⟨rfl, rfl⟩ | ⟨rfl, rfl⟩
    · have hrefs : nodeEntry.refs = ["Node", "PaginatedLeaves"] := by decide +kernel
      rw [hrefs] at hmet
      rcases List.mem_pair.mp hmet with rfl | rfl
      · exact absurd hopen.page (by decide)
      · exact ⟨rfl, rfl⟩
    · rw [Schema.refs_of_ref rfl] at hmet
      obtain rfl := List.mem_singleton.mp hmet
      exact absurd hopen.page (by decide +kernel)
  · rintro ⟨rfl, rfl⟩
    have hopen : ∀ name ∈ ["PaginatedNodes", "PaginatedLeaves"], trees.IsOpenPage name := by
      intro name hname
      refine ⟨?_, rfl, NameMap.contains_ofList_iff.mpr (List.mem_cons_of_mem _ hname)⟩
      rcases List.mem_pair.mp hname with rfl | rfl <;> decide
    have hitem : (trees.schemas.find? "PaginatedNodes").bind Schema.pageItem = some nodeEntry := by
      rw [trees, NameMap.find?_ofList]
      rfl
    exact ⟨nodeEntry, ⟨hopen _ (by decide), hitem⟩,
      .member rfl (.inl rfl) (List.mem_cons_of_mem _ List.mem_cons_self) (.ref rfl (by decide)),
      hopen _ (by decide)⟩

/-- The theorem at work on component schemas that refer to each other in circles. -/
theorem exists_walk_eq_typeOf_trees :
    (¬ ∃ chain : Nat → String, ∀ n, trees.PageStep (chain n) (chain (n + 1))) ∧
      ∃ depth, ∀ more, depth ≤ more → trees.walk more treeNode = some (trees.typeOf treeNode) := by
  have hnone : ¬ ∃ chain : Nat → String, ∀ n, trees.PageStep (chain n) (chain (n + 1)) := by
    rintro ⟨chain, hsteps⟩
    have hfirst := (pageStep_trees_iff.mp (hsteps 0)).2
    have hsecond := (pageStep_trees_iff.mp (hsteps 1)).1
    rw [hfirst] at hsecond
    exact absurd hsecond (by decide)
  exact ⟨hnone, exists_walk_eq_typeOf hnone treeNode⟩

end Trees

end Scope

end TypedApi
