import Mathlib.Data.List.Perm.Subperm
import Mathlib.Logic.Relation
import TypedApi.Proofs.NameMap
import TypedApi.Proofs.Typing

/-!
# What references are answered with

A reference to a page of a collection is typed by the items of the page, and these may refer to
further pages. A chain of pages that is longer than there are schemas runs in a circle, so the bound
on the walk through pages cuts nothing but circles. Every other reference is answered by literals,
by the name of its target, or, without a target, by the type of everything.
-/

namespace TypedApi

open TypeScript

namespace Scope

variable {scope : Scope} {name target : String} {schema : Schema}

/-- A name stands for a page that is typed by its items, if it has any. -/
structure IsOpenPage (scope : Scope) (name : String) : Prop where
  page : Naming.isPage name = true
  unregistered : scope.enums.find? name = none
  component : scope.schemas.contains name = true

/-- A name stands for a page with items of the given kind. -/
structure Holds (scope : Scope) (name : String) (item : Schema) : Prop extends
    scope.IsOpenPage name where
  item : (scope.schemas.find? name).bind Schema.pageItem = some item

/-- The items of a page refer to another page. -/
def PageStep (scope : Scope) (outer inner : String) : Prop :=
  ∃ item, scope.Holds outer item ∧ Schema.Meets inner item ∧ scope.IsOpenPage inner

/-- A page lies on a circle of pages, or somewhere behind one. -/
def Endless (scope : Scope) (name : String) : Prop :=
  ∃ circle, Relation.TransGen scope.PageStep circle circle ∧
    Relation.ReflTransGen scope.PageStep circle name

/-- The names of a chain of pages down to `target`, the outermost first. -/
inductive PageChain (scope : Scope) (target : String) : List String → Prop
  | single (hpage : scope.IsOpenPage target) : PageChain scope target [target]
  | cons {outer inner : String} {rest : List String} (hstep : scope.PageStep outer inner)
      (hchain : PageChain scope target (inner :: rest)) :
      PageChain scope target (outer :: inner :: rest)

namespace PageChain

variable {names : List String}

/-- The first of a chain is a page. -/
theorem isOpenPage {first : String} {rest : List String}
    (h : scope.PageChain target (first :: rest)) : scope.IsOpenPage first := by
  cases h with
  | single hpage => exact hpage
  | cons hstep _ =>
    obtain ⟨item, houter, -⟩ := hstep
    exact houter.toIsOpenPage

/-- The names of a chain are names of component schemas. -/
theorem subset (h : scope.PageChain target names) : names ⊆ scope.schemas.names := by
  induction h with
  | single hpage =>
    intro name hname
    rw [List.mem_singleton.mp hname]
    exact NameMap.mem_names_iff.mpr (NameMap.contains_iff.mp hpage.component)
  | cons hstep _ ih =>
    obtain ⟨item, houter, -⟩ := hstep
    intro name hname
    rcases List.mem_cons.mp hname with rfl | hname
    · exact NameMap.mem_names_iff.mpr (NameMap.contains_iff.mp houter.component)
    · exact ih hname

/-- Every page of a chain leads to its end. -/
theorem reaches_target (h : scope.PageChain target names) :
    ∀ name ∈ names, Relation.ReflTransGen scope.PageStep name target := by
  induction h with
  | single hpage =>
    intro name hname
    rw [List.mem_singleton.mp hname]
  | cons hstep _ ih =>
    intro name hname
    rcases List.mem_cons.mp hname with rfl | hname
    · exact .head hstep (ih _ List.mem_cons_self)
    · exact ih name hname

/-- The first page of a chain leads to all others. -/
theorem transGen_of_mem {first : String} {rest : List String}
    (h : scope.PageChain target (first :: rest)) :
    ∀ name ∈ rest, Relation.TransGen scope.PageStep first name := by
  induction rest generalizing first with
  | nil => intro name hname; cases hname
  | cons second rest ih =>
    cases h with
    | cons hstep hchain =>
      intro name hname
      rcases List.mem_cons.mp hname with rfl | hname
      · exact .single hstep
      · exact .head hstep (ih hchain name hname)

/-- A chain to a page that no circle leads to has no page twice. -/
theorem nodup (h : scope.PageChain target names) (hend : ¬ scope.Endless target) :
    names.Nodup := by
  induction h with
  | single hpage => exact List.nodup_cons.mpr ⟨List.not_mem_nil, List.nodup_nil⟩
  | @cons outer inner rest hstep hchain ih =>
    refine List.nodup_cons.mpr ⟨?_, ih⟩
    intro hmem
    have hall := PageChain.cons hstep hchain
    exact hend ⟨outer, hall.transGen_of_mem outer hmem,
      hall.reaches_target outer List.mem_cons_self⟩

/-- A chain longer than there are schemas comes from a circle. -/
theorem endless (h : scope.PageChain target names) (hlong : scope.schemas.size < names.length) :
    scope.Endless target := by
  by_contra hend
  have hle := ((h.nodup hend).subperm h.subset).length_le
  have hsize : scope.schemas.names.length = scope.schemas.size := List.length_map _
  omega

end PageChain

/-- The type of a node asks for the type of a reference to `target`, its own or one of the items of
a page. -/
inductive Reaches (scope : Scope) (target : String) : Schema → Prop
  | met {schema : Schema} (hmeets : Schema.Meets target schema) : Reaches scope target schema
  | item {schema item : Schema} {page : String} (hmeets : Schema.Meets page schema)
      (hitem : scope.Holds page item) (hreaches : Reaches scope target item) :
      Reaches scope target schema

/-- A reference is answered by the bare name of its target: a component that is not registered, and
if it is a page, one without items or behind a circle of pages. -/
structure Bare (scope : Scope) (target : String) : Prop where
  unregistered : scope.enums.find? target = none
  component : scope.schemas.contains target = true
  page : Naming.isPage target = true →
    (scope.schemas.find? target).bind Schema.pageItem = none ∨ scope.Endless target

/-- What a reference mentions: nothing, unless its target is a component that is not registered; the
envelope of pages and what the items of a page mention; or else the name of the target. -/
theorem mem_mentions_resolveWith {page : Schema → Option Ty}
    (hconfig : scope.config.unresolvedRefs = .any)
    (h : name ∈ (scope.resolveWith page target).mentions) :
    ∃ held, scope.enums.find? target = none ∧ scope.schemas.find? target = some held ∧
      ((Naming.isPage target = true ∧ ∃ item, page held = some item ∧
          (name = scope.config.paginatedType ∨ name ∈ item.mentions)) ∨
        ((Naming.isPage target = true → page held = none) ∧ name = Naming.simplify target)) := by
  rw [resolveWith] at h
  cases henums : scope.enums.find? target with
  | some values => simp [henums, Schema.mentions_literalUnion] at h
  | none =>
    cases hfound : scope.schemas.find? target with
    | none => simp [henums, hfound, hconfig, Ty.any] at h
    | some held =>
      refine ⟨held, rfl, rfl, ?_⟩
      simp only [henums, hfound] at h
      by_cases hpage : Naming.isPage target = true
      · cases hitem : page held with
        | some item =>
          simp only [hpage, if_true, hitem, Ty.applied, Ty.mentions_generic,
            List.flatMap_singleton, List.mem_cons] at h
          exact .inl ⟨hpage, item, rfl, h⟩
        | none =>
          simp only [hpage, if_true, hitem, Ty.mentions_ref, List.mem_singleton] at h
          exact .inr ⟨fun _ => rfl, h⟩
      · simp only [hpage] at h
        exact .inr ⟨fun h => absurd h hpage, List.mem_singleton.mp h⟩

/-- A reference to a page leads through a chain of so many pages, with a reference to the first of
them in the given node. -/
def Descends (scope : Scope) (target : String) (length : Nat) (schema : Schema) : Prop :=
  ∃ first rest, scope.PageChain target (first :: rest) ∧ (first :: rest).length = length ∧
    Schema.Meets first schema

/-- A chain grows by a page in front whose items refer to its first page. -/
theorem Descends.cons {length : Nat} {item : Schema} {page : String}
    (h : scope.Descends target length item) (hitem : scope.Holds page item)
    (hmeets : Schema.Meets page schema) : scope.Descends target (length + 1) schema := by
  obtain ⟨first, rest, hchain, hlength, hfirst⟩ := h
  refine ⟨page, first :: rest, .cons ⟨item, hitem, hfirst, hchain.isOpenPage⟩ hchain, ?_, hmeets⟩
  rw [List.length_cons, hlength]

/-- A type that follows pages up to a bound mentions `Date`, the envelope of pages, and the names of
components that are no pages, of pages without items, and of pages at the bound. -/
theorem exists_reaches_of_mem_mentions (hconfig : scope.config.unresolvedRefs = .any)
    (depth : Nat)
    (h : name ∈ (schema.typeWith (scope.resolveWith (scope.pageItemType depth))).mentions) :
    name = "Date" ∨ name = scope.config.paginatedType ∨
      ∃ target, scope.Reaches target schema ∧ name = Naming.simplify target ∧
        scope.enums.find? target = none ∧ scope.schemas.contains target = true ∧
          (Naming.isPage target = true →
            (scope.schemas.find? target).bind Schema.pageItem = none ∨
              scope.Descends target (depth + 1) schema) := by
  induction depth generalizing schema with
  | zero =>
    rcases Schema.exists_meets_of_mem_mentions h with hdate | ⟨target, hmeets, hname⟩
    · exact .inl hdate
    obtain ⟨held, henums, hfound, ⟨_, item, hitem, _⟩ | ⟨_, hsimple⟩⟩ :=
      mem_mentions_resolveWith hconfig hname
    · cases hitem
    · have hcomponent := NameMap.contains_iff.mpr ⟨held, hfound⟩
      refine .inr (.inr ⟨target, .met hmeets, hsimple, henums, hcomponent, ?_⟩)
      intro hpage
      exact .inr ⟨target, [], .single ⟨hpage, henums, hcomponent⟩, rfl, hmeets⟩
  | succ depth ih =>
    rcases Schema.exists_meets_of_mem_mentions h with hdate | ⟨target, hmeets, hname⟩
    · exact .inl hdate
    obtain ⟨held, henums, hfound, ⟨hpage, type, htype, hname⟩ | ⟨hbare, hsimple⟩⟩ :=
      mem_mentions_resolveWith hconfig hname
    · obtain ⟨item, hitem, rfl⟩ := Option.map_eq_some_iff.mp htype
      have hholds : scope.Holds target item :=
        ⟨⟨hpage, henums, NameMap.contains_iff.mpr ⟨held, hfound⟩⟩, by rw [hfound]; exact hitem⟩
      rcases hname with hname | hname
      · exact .inr (.inl hname)
      rcases ih hname with hdate | henvelope | ⟨inner, hreaches, hsimple, hplain, hinner, hend⟩
      · exact .inl hdate
      · exact .inr (.inl henvelope)
      · refine .inr (.inr ⟨inner, .item hmeets hholds hreaches, hsimple, hplain, hinner, ?_⟩)
        exact fun hpage => (hend hpage).imp_right fun h => h.cons hholds hmeets
    · refine .inr (.inr ⟨target, .met hmeets, hsimple, henums,
        NameMap.contains_iff.mpr ⟨held, hfound⟩, ?_⟩)
      intro hpage
      rw [hfound]
      exact .inl (Option.map_eq_none_iff.mp (hbare hpage))

/-- A type mentions `Date`, the envelope of pages, and the names of targets that are answered by
their names. -/
theorem exists_bare_of_mem_mentions (hconfig : scope.config.unresolvedRefs = .any)
    (h : name ∈ (scope.typeOf schema).mentions) :
    name = "Date" ∨ name = scope.config.paginatedType ∨
      ∃ target, scope.Reaches target schema ∧ scope.Bare target ∧
        name = Naming.simplify target := by
  rcases exists_reaches_of_mem_mentions hconfig scope.schemas.size h with
    hdate | henvelope | ⟨target, hreaches, hname, henums, hcomponent, hpage⟩
  · exact .inl hdate
  · exact .inr (.inl henvelope)
  · refine .inr (.inr ⟨target, hreaches, ⟨henums, hcomponent, ?_⟩, hname⟩)
    intro h
    refine (hpage h).imp_right ?_
    rintro ⟨first, rest, hchain, hlength, -⟩
    exact hchain.endless (by omega)

end Scope

end TypedApi
