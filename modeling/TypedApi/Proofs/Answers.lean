import TypedApi.Proofs.Termination

/-!
# Computations that ask for types

What depends on types comes to an end exactly where the walks of all types that it asks for do, and
then it is what it would be with the types of `Scope.typeOf`. The condition under which a
computation answers is put together along the computation, and so is the answer.
-/

namespace TypedApi

open TypeScript

/-- A computation comes to an end exactly under a condition, and then it has the given answer. -/
structure Answers {α : Type} (condition : Prop) (computation : Option α) (answer : α) : Prop where
  ends : condition → computation = some answer
  needs : computation.isSome = true → condition

namespace Answers

variable {α β : Type} {condition further : Prop} {computation : Option α} {answer : α}

/-- What a computation comes to, if it does. -/
theorem eq_some_iff (h : Answers condition computation answer) {other : α} :
    computation = some other ↔ condition ∧ other = answer := by
  constructor
  · intro hother
    have hcondition := h.needs (Option.isSome_of_eq_some hother)
    rw [h.ends hcondition] at hother
    exact ⟨hcondition, (Option.some.inj hother).symm⟩
  · rintro ⟨hcondition, rfl⟩
    exact h.ends hcondition

/-- The same condition in other words. -/
theorem congr (h : Answers condition computation answer) (hiff : condition ↔ further) :
    Answers further computation answer :=
  ⟨fun hfurther => h.ends (hiff.mpr hfurther), fun hsome => hiff.mp (h.needs hsome)⟩

/-- What asks for nothing comes to an end. -/
theorem of_some (answer : α) : Answers True (some answer) answer :=
  ⟨fun _ => rfl, fun _ => trivial⟩

/-- What is made of an answer asks for nothing else. -/
theorem map (h : Answers condition computation answer) (f : α → β) :
    Answers condition (computation.map f) (f answer) where
  ends hcondition := by rw [h.ends hcondition, Option.map_some]
  needs hsome := h.needs (by simpa using hsome)

/-- What is made of an answer in the end asks for nothing else. -/
theorem bind_pure (h : Answers condition computation answer) (f : α → β) :
    Answers condition (computation >>= fun a => pure (f a)) (f answer) := by
  rw [bind_pure_comp]
  exact h.map f

/-- One computation after another comes to an end if both do. -/
theorem bind {next : α → Option β} {result : β} (h : Answers condition computation answer)
    (hnext : Answers further (next answer) result) :
    Answers (condition ∧ further) (computation >>= next) result where
  ends := by
    rintro ⟨hcondition, hfurther⟩
    rw [h.ends hcondition]
    exact hnext.ends hfurther
  needs hsome := by
    obtain ⟨last, hlast⟩ := Option.isSome_iff_exists.mp hsome
    obtain ⟨first, hfirst, hrest⟩ := Option.bind_eq_some_iff.mp hlast
    obtain ⟨hcondition, rfl⟩ := h.eq_some_iff.mp hfirst
    exact ⟨hcondition, hnext.needs (Option.isSome_of_eq_some hrest)⟩

/-- A list of computations comes to an end if each of them does. -/
theorem mapM {f : α → Option β} {g : α → β} {needed : α → Prop} (list : List α)
    (h : ∀ a ∈ list, Answers (needed a) (f a) (g a)) :
    Answers (∀ a ∈ list, needed a) (list.mapM f) (list.map g) where
  ends hneeded := Scope.mapM_eq_some_map fun a ha => (h a ha).ends (hneeded a ha)
  needs hsome a ha := (h a ha).needs (Scope.isSome_mapM_iff.mp hsome a ha)

end Answers

namespace Scope

variable {scope : Scope}

/-- The walk gets to an end at some nodes. -/
def Settles (scope : Scope) (nodes : List Schema) : Prop :=
  ∀ node ∈ nodes, scope.Returns node

/-- The walk gets to an end at some nodes exactly if no infinite chain of pages starts at any of
them. -/
theorem settles_iff {nodes : List Schema} :
    scope.Settles nodes ↔ ¬ ∃ chain : Nat → String,
      (∃ node ∈ nodes, Schema.Meets (chain 0) node) ∧
        ∀ n, scope.PageStep (chain n) (chain (n + 1)) := by
  constructor
  · rintro h ⟨chain, ⟨node, hnode, hmeets⟩, hsteps⟩
    exact returns_iff.mp (h node hnode) ⟨chain, hmeets, hsteps⟩
  · intro h node hnode
    refine returns_iff.mpr ?_
    rintro ⟨chain, hmeets, hsteps⟩
    exact h ⟨chain, ⟨node, hnode, hmeets⟩, hsteps⟩

@[simp] theorem settles_nil : scope.Settles [] := List.forall_mem_nil _

@[simp] theorem settles_append_iff {nodes others : List Schema} :
    scope.Settles (nodes ++ others) ↔ scope.Settles nodes ∧ scope.Settles others :=
  List.forall_mem_append

theorem settles_flatMap_iff {α : Type} {list : List α} {nodes : α → List Schema} :
    scope.Settles (list.flatMap nodes) ↔ ∀ a ∈ list, scope.Settles (nodes a) := by
  simp only [Settles, List.mem_flatMap]
  exact ⟨fun h a ha node hnode => h node ⟨a, ha, hnode⟩,
    fun h node ⟨a, ha, hnode⟩ => h a ha node hnode⟩

section Types

variable (scope : Scope)

/-- The type of a node asks for the walk at the node. -/
theorem answers_typeOf? (schema : Schema) :
    Answers (scope.Returns schema) (scope.typeOf? schema) (scope.typeOf schema) :=
  ⟨Returns.typeOf?_eq, isSome_typeOf?_iff.mp⟩

/-- The members of an object ask for the walks at its properties. -/
theorem answers_members? (schema : Schema) :
    Answers (scope.Settles (schema.members.map (·.2))) (scope.members? schema)
      (scope.members schema) := by
  have hmembers : scope.members schema =
      schema.members.map fun property => schema.memberOf property (scope.typeOf property.2) :=
    Schema.membersWith_eq_map _ _ _
  rw [hmembers]
  refine (Answers.mapM _ fun property _ => (answers_typeOf? scope property.2).map _).congr ?_
  rw [Settles, List.forall_mem_map]

/-- The type of a parameter asks for the walk at its schema, if it has one. -/
theorem answers_parameterType? (parameter : Parameter) :
    Answers (scope.Settles parameter.schema.toList) (scope.parameterType? parameter)
      (scope.parameterType parameter) := by
  rw [parameterType?, parameterType]
  cases parameter.schema with
  | some schema =>
    refine ((answers_typeOf? scope schema).map some).congr ?_
    simp [Settles]
  | none => exact (Answers.of_some parameter.namedType).congr (by simp)

end Types

end Scope

end TypedApi
