import Mathlib.Data.Prod.Lex
import Mathlib.Logic.Relation
import TypedApi.Proofs.Ownership

/-!
# What an adoption takes

An adoption works off a stack of pending names. A turn either takes one more component schema or
shortens the stack, so that it ends although references may be cyclic. What it has taken by then is
what its root leads to: every schema on the way is one that may be taken, and none of these is left
out. The names that have an owner grow by the same names.
-/

namespace TypedApi

namespace Ownership

section Statements

/-- A name that an adoption may take: that of a component schema, not registered as an enumeration
and not held already. -/
structure Open (schemas : NameMap Schema) (enums : EnumRegistry) (held : NameMap Schema)
    (name : String) : Prop where
  component : schemas.contains name = true
  plain : enums.contains name = false
  fresh : held.contains name = false

/-- A name that roots lead to through the references of schemas, by open names only. -/
inductive Reaches (schemas : NameMap Schema) (enums : EnumRegistry) (held : NameMap Schema)
    (roots : List String) : String → Prop
  | root {name : String} (hroot : name ∈ roots) (hopen : Open schemas enums held name) :
      Reaches schemas enums held roots name
  | step {parent name : String} {schema : Schema}
      (hparent : Reaches schemas enums held roots parent)
      (hschema : schemas.find? parent = some schema) (href : name ∈ schema.refs)
      (hopen : Open schemas enums held name) : Reaches schemas enums held roots name

/-- An adoption under way. -/
structure Adoption where
  /-- The schemas that the module holds. -/
  held : NameMap Schema
  /-- The names that are noted as owned by some module. -/
  noted : NameMap Unit
  /-- The stack of pending names, its top first. -/
  pending : List String

/-- One turn of an adoption: the top of the stack is passed over, or taken and replaced by what it
refers to. There is no turn once the stack is empty. -/
def Adoption.turn? (schemas : NameMap Schema) (enums : EnumRegistry) (adoption : Adoption) :
    Option Adoption :=
  match adoption.pending with
  | [] => none
  | name :: rest =>
    if enums.contains name || adoption.held.contains name then
      some { adoption with pending := rest }
    else
      match schemas.find? name with
      | none => some { adoption with pending := rest }
      | some schema =>
        some ⟨adoption.held.insert name schema, adoption.noted.insert name (), schema.refs ++ rest⟩

/-- The turns of an adoption lead to a state without a further turn. -/
def Adoption.EndsIn (schemas : NameMap Schema) (enums : EnumRegistry)
    (start final : Adoption) : Prop :=
  Relation.ReflTransGen (fun earlier later => earlier.turn? schemas enums = some later) start
    final ∧ final.turn? schemas enums = none

/-- A name that the one map holds in addition to the other. -/
def Added (after before : NameMap Schema) (name : String) : Prop :=
  after.contains name = true ∧ before.contains name = false

/-- What becomes of a module's schemas and of the owned names when a root is adopted. -/
structure Adopted (schemas : NameMap Schema) (enums : EnumRegistry) (root : String)
    (before after : NameMap Schema) (noted noted' : NameMap Unit) : Prop where
  /-- The module holds what it held, and the component schemas that the root leads to, as the
  document has them. -/
  held : ∀ name schema, after.find? name = some schema ↔
    before.find? name = some schema ∨
      Reaches schemas enums before [root] name ∧ schemas.find? name = some schema
  /-- The names noted as owned are those of before, and the added ones. -/
  noted : ∀ name, noted'.contains name = true ↔
    noted.contains name = true ∨ Added after before name
  /-- The names with an owner are those of before, and the added ones, whatever the modules own. -/
  owners : ∀ (modules : NameMap (NameMap Schema)) (receiver name : String),
    HasOwner (modules.insert receiver after) name ↔
      HasOwner (modules.insert receiver before) name ∨ Added after before name

end Statements

section Turns

variable {schemas : NameMap Schema} {enums : EnumRegistry} {adoption later : Adoption}

/-- Adoption is at its end once no name is pending. -/
theorem Adoption.turn?_eq_none_iff :
    adoption.turn? schemas enums = none ↔ adoption.pending = [] := by
  rw [turn?]
  cases adoption.pending with
  | nil => simp
  | cons name rest =>
    simp only [reduceCtorEq, iff_false]
    split
    · simp
    · split <;> simp

/-- A turn passes the top of the stack over, or takes it. -/
theorem Adoption.turn?_cases (h : adoption.turn? schemas enums = some later) :
    ∃ name rest, adoption.pending = name :: rest ∧
      (¬ Open schemas enums adoption.held name ∧ later = { adoption with pending := rest } ∨
        Open schemas enums adoption.held name ∧
          ∃ schema, schemas.find? name = some schema ∧
            later = ⟨adoption.held.insert name schema, adoption.noted.insert name (),
              schema.refs ++ rest⟩) := by
  rw [turn?] at h
  split at h
  · cases h
  · rename_i name rest hpending
    refine ⟨name, rest, hpending, ?_⟩
    split at h
    · rename_i hknown
      refine .inl ⟨fun hopen => ?_, (Option.some.inj h).symm⟩
      rw [hopen.plain, hopen.fresh] at hknown
      cases hknown
    · rename_i hunknown
      rw [Bool.not_eq_true, Bool.or_eq_false_iff] at hunknown
      split at h
      · rename_i hnone
        refine .inl ⟨fun hopen => ?_, (Option.some.inj h).symm⟩
        obtain ⟨schema, hschema⟩ := NameMap.contains_iff.mp hopen.component
        rw [hnone] at hschema
        cases hschema
      · rename_i schema hschema
        have hcomponent := NameMap.contains_iff.mpr ⟨schema, hschema⟩
        exact .inr ⟨⟨hcomponent, hunknown.1, hunknown.2⟩, schema, hschema,
          (Option.some.inj h).symm⟩

/-- No adoption goes on for ever: a turn leaves fewer component schemas to be taken, or as many and
a shorter stack. -/
theorem Adoption.turn?_wellFounded (schemas : NameMap Schema) (enums : EnumRegistry) :
    WellFounded fun later earlier : Adoption => earlier.turn? schemas enums = some later := by
  let left (adoption : Adoption) : ℕ ×ₗ ℕ :=
    toLex ((missing schemas adoption.held).length, adoption.pending.length)
  refine Subrelation.wf (fun {later earlier} h => ?_) (InvImage.wf left wellFounded_lt)
  obtain ⟨name, rest, hpending, ⟨-, rfl⟩ | ⟨hopen, schema, hschema, rfl⟩⟩ := turn?_cases h
  · refine Prod.Lex.toLex_lt_toLex.mpr (.inr ⟨rfl, ?_⟩)
    simp [hpending]
  · exact Prod.Lex.toLex_lt_toLex.mpr (.inl (missing_insert_lt hschema hopen.fresh))

/-- A turn is a call of the recursion. -/
theorem Adoption.adopt_of_turn? (h : adoption.turn? schemas enums = some later) :
    adopt schemas enums adoption.held adoption.pending =
      adopt schemas enums later.held later.pending := by
  obtain ⟨name, rest, hpending, ⟨hclosed, rfl⟩ | ⟨hopen, schema, hschema, rfl⟩⟩ := turn?_cases h
  · rw [hpending, adopt]
    split
    · rfl
    · rename_i hplain
      split
      · rfl
      · rename_i hfresh
        split
        · rfl
        · rename_i schema hschema
          refine absurd ⟨NameMap.contains_iff.mpr ⟨schema, hschema⟩, ?_, ?_⟩ hclosed
          · simpa using hplain
          · simpa using hfresh
  · rw [hpending, adopt, if_neg (by simp [hopen.plain]), dif_neg (by simp [hopen.fresh])]
    split
    · rename_i hnone
      rw [hschema] at hnone
      cases hnone
    · rename_i found hfound
      rw [hschema] at hfound
      rw [Option.some.inj hfound]

end Turns

section Reached

variable {schemas : NameMap Schema} {enums : EnumRegistry} {held : NameMap Schema}
  {roots rest : List String} {name : String} {schema : Schema}

/-- All names on the way are open. -/
theorem Reaches.isOpen (h : Reaches schemas enums held roots name) :
    Open schemas enums held name := by
  cases h with
  | root _ hopen => exact hopen
  | step _ _ _ hopen => exact hopen

/-- No roots lead nowhere. -/
theorem not_reaches_nil : ¬ Reaches schemas enums held [] name := by
  intro h
  induction h with
  | root hroot => cases hroot
  | step _ _ _ _ ih => exact ih

/-- More roots lead to more. -/
theorem Reaches.mono {more : List String} (h : Reaches schemas enums held roots name)
    (hmore : roots ⊆ more) : Reaches schemas enums held more name := by
  induction h with
  | root hroot hopen => exact .root (hmore hroot) hopen
  | step _ hschema href hopen ih => exact .step ih hschema href hopen

/-- A root that is not open leads nowhere. -/
theorem reaches_cons_of_not_open (hclosed : ¬ Open schemas enums held name) {other : String} :
    Reaches schemas enums held (name :: rest) other ↔ Reaches schemas enums held rest other := by
  constructor
  · intro h
    induction h with
    | root hroot hopen =>
      rcases List.mem_cons.mp hroot with rfl | hroot
      · exact absurd hopen hclosed
      · exact .root hroot hopen
    | step _ hschema href hopen ih => exact .step ih hschema href hopen
  · exact fun h => h.mono (List.subset_cons_self _ _)

/-- What is open beside one more schema is what was open before, but for that schema. -/
theorem open_insert_iff {other : String} :
    Open schemas enums (held.insert name schema) other ↔
      other ≠ name ∧ Open schemas enums held other := by
  constructor
  · rintro ⟨hcomponent, hplain, hfresh⟩
    rw [NameMap.contains_insert, Bool.or_eq_false_iff] at hfresh
    exact ⟨by simpa using hfresh.1, hcomponent, hplain, hfresh.2⟩
  · rintro ⟨hother, hcomponent, hplain, hfresh⟩
    refine ⟨hcomponent, hplain, ?_⟩
    rw [NameMap.contains_insert, hfresh]
    simpa using hother

/-- An open root leads to itself, and beside itself to what its references lead to. -/
theorem reaches_cons_of_open (hopen : Open schemas enums held name)
    (hschema : schemas.find? name = some schema) {other : String} :
    Reaches schemas enums held (name :: rest) other ↔
      other = name ∨
        Reaches schemas enums (held.insert name schema) (schema.refs ++ rest) other := by
  constructor
  · intro h
    induction h with
    | @root other hroot hother =>
      by_cases hsame : other = name
      · exact .inl hsame
      · rcases List.mem_cons.mp hroot with hroot | hroot
        · exact absurd hroot hsame
        · exact .inr (.root (List.mem_append_right _ hroot) (open_insert_iff.mpr ⟨hsame, hother⟩))
    | @step parent other found _ hfound href hother ih =>
      by_cases hsame : other = name
      · exact .inl hsame
      · have hstill : Open schemas enums (held.insert name schema) other :=
          open_insert_iff.mpr ⟨hsame, hother⟩
        rcases ih with rfl | hparent
        · rw [hschema] at hfound
          rw [← Option.some.inj hfound] at href
          exact .inr (.root (List.mem_append_left _ href) hstill)
        · exact .inr (.step hparent hfound href hstill)
  · rintro (rfl | h)
    · exact .root List.mem_cons_self hopen
    · induction h with
      | root hroot hother =>
        have hbefore := (open_insert_iff.mp hother).2
        rcases List.mem_append.mp hroot with href | hroot
        · exact .step (.root List.mem_cons_self hopen) hschema href hbefore
        · exact .root (List.mem_cons_of_mem _ hroot) hbefore
      | step _ hfound href hother ih =>
        exact .step ih hfound href (open_insert_iff.mp hother).2

end Reached

section Runs

variable {schemas : NameMap Schema} {enums : EnumRegistry} {adoption later : Adoption}

/-- The schemas that an adoption holds, or will take. -/
def Adoption.Gets (schemas : NameMap Schema) (enums : EnumRegistry) (adoption : Adoption)
    (name : String) (schema : Schema) : Prop :=
  adoption.held.find? name = some schema ∨
    Reaches schemas enums adoption.held adoption.pending name ∧ schemas.find? name = some schema

/-- The names that an adoption has noted, or will note. -/
def Adoption.Notes (schemas : NameMap Schema) (enums : EnumRegistry) (adoption : Adoption)
    (name : String) : Prop :=
  adoption.noted.contains name = true ∨ Reaches schemas enums adoption.held adoption.pending name

/-- A turn changes nothing about what an adoption gets. -/
theorem Adoption.gets_iff_of_turn? (h : adoption.turn? schemas enums = some later) (name : String)
    (schema : Schema) : adoption.Gets schemas enums name schema ↔
      later.Gets schemas enums name schema := by
  obtain ⟨top, rest, hpending, ⟨hclosed, rfl⟩ | ⟨hopen, taken, htaken, rfl⟩⟩ := turn?_cases h
  · rw [Gets, Gets, hpending, reaches_cons_of_not_open hclosed]
  · rw [Gets, Gets, hpending, reaches_cons_of_open hopen htaken, NameMap.find?_insert]
    by_cases hsame : name = top
    · rw [hsame, NameMap.contains_eq_false_iff.mp hopen.fresh, htaken, if_pos rfl]
      tauto
    · rw [if_neg hsame]
      tauto

/-- Nor about what it notes. -/
theorem Adoption.notes_iff_of_turn? (h : adoption.turn? schemas enums = some later)
    (name : String) : adoption.Notes schemas enums name ↔ later.Notes schemas enums name := by
  obtain ⟨top, rest, hpending, ⟨hclosed, rfl⟩ | ⟨hopen, taken, htaken, rfl⟩⟩ := turn?_cases h
  · rw [Notes, Notes, hpending, reaches_cons_of_not_open hclosed]
  · rw [Notes, Notes, hpending, reaches_cons_of_open hopen htaken, NameMap.contains_insert,
      Bool.or_eq_true, decide_eq_true_iff]
    tauto

/-- Every adoption comes to its end, with what the recursion gives, and has got and noted by then
what it was to get and note. -/
theorem Adoption.exists_endsIn (schemas : NameMap Schema) (enums : EnumRegistry)
    (adoption : Adoption) :
    ∃ noted, adoption.EndsIn schemas enums
        ⟨adopt schemas enums adoption.held adoption.pending, noted, []⟩ ∧
      (∀ name schema,
        (adopt schemas enums adoption.held adoption.pending).find? name = some schema ↔
          adoption.Gets schemas enums name schema) ∧
      ∀ name, noted.contains name = true ↔ adoption.Notes schemas enums name := by
  induction adoption using (turn?_wellFounded schemas enums).induction with
  | _ adoption ih =>
    cases hturn : adoption.turn? schemas enums with
    | none =>
      have hpending := turn?_eq_none_iff.mp hturn
      have hheld : adopt schemas enums adoption.held adoption.pending = adoption.held := by
        rw [hpending, adopt]
      have hlast : (⟨adoption.held, adoption.noted, []⟩ : Adoption) = adoption := by
        rw [← hpending]
      refine ⟨adoption.noted, ?_, fun name schema => ?_, fun name => ?_⟩
      · rw [hheld, hlast]
        exact ⟨.refl, hturn⟩
      · rw [hheld, Gets, hpending, or_iff_left fun h => not_reaches_nil h.1]
      · rw [Notes, hpending, or_iff_left not_reaches_nil]
    | some later =>
      obtain ⟨noted, ⟨hrun, hend⟩, hgets, hnotes⟩ := ih later hturn
      rw [← adopt_of_turn? hturn] at hrun hend hgets
      refine ⟨noted, ⟨hrun.head hturn, hend⟩, fun name schema => ?_, fun name => ?_⟩
      · rw [hgets, gets_iff_of_turn? hturn]
      · rw [hnotes, notes_iff_of_turn? hturn]

end Runs

section Roots

variable {schemas : NameMap Schema} {enums : EnumRegistry} {held : NameMap Schema}

/-- The added names are those that the pending ones lead to. -/
theorem added_adopt_iff {pending : List String} {name : String} :
    Added (adopt schemas enums held pending) held name ↔
      Reaches schemas enums held pending name := by
  obtain ⟨-, -, hgets, -⟩ := Adoption.exists_endsIn schemas enums ⟨held, .empty, pending⟩
  constructor
  · rintro ⟨hafter, hbefore⟩
    obtain ⟨schema, hschema⟩ := NameMap.contains_iff.mp hafter
    rcases (hgets name schema).mp hschema with hheld | hreached
    · rw [NameMap.contains_eq_false_iff.mp hbefore] at hheld
      cases hheld
    · exact hreached.1
  · intro h
    obtain ⟨schema, hschema⟩ := NameMap.contains_iff.mp h.isOpen.component
    exact ⟨NameMap.contains_iff.mpr ⟨schema, (hgets name schema).mpr (.inr ⟨h, hschema⟩)⟩,
      h.isOpen.fresh⟩

/-- What one module owns in addition, it owns beside all that the modules own. -/
theorem hasOwner_insert_iff {after before : NameMap Schema} (hmore : Extends after before)
    (modules : NameMap (NameMap Schema)) (receiver name : String) :
    HasOwner (modules.insert receiver after) name ↔
      HasOwner (modules.insert receiver before) name ∨ Added after before name := by
  constructor
  · rintro ⟨owner, schemas, hfound, hname⟩
    rw [NameMap.find?_insert] at hfound
    split at hfound
    · rename_i howner
      rw [← Option.some.inj hfound] at hname
      cases hbefore : before.contains name with
      | false => exact .inr ⟨hname, hbefore⟩
      | true => exact .inl ⟨receiver, before, by rw [NameMap.find?_insert, if_pos rfl], hbefore⟩
    · rename_i hother
      exact .inl ⟨owner, schemas, by rw [NameMap.find?_insert, if_neg hother, hfound], hname⟩
  · rintro (⟨owner, schemas, hfound, hname⟩ | ⟨hname, -⟩)
    · rw [NameMap.find?_insert] at hfound
      split at hfound
      · rw [← Option.some.inj hfound] at hname
        exact ⟨receiver, after, by rw [NameMap.find?_insert, if_pos rfl], hmore.contains hname⟩
      · rename_i hother
        exact ⟨owner, schemas, by rw [NameMap.find?_insert, if_neg hother, hfound], hname⟩
    · exact ⟨receiver, after, by rw [NameMap.find?_insert, if_pos rfl], hname⟩

/-- Names that are pending below others wait until all that these lead to is taken. -/
theorem adopt_append (held : NameMap Schema) (roots rest : List String) :
    adopt schemas enums held (roots ++ rest) =
      adopt schemas enums (adopt schemas enums held roots) rest := by
  fun_induction adopt schemas enums held roots with
  | case1 held => rfl
  | case2 held name roots hknown ih => rw [List.cons_append, adopt, if_pos hknown, ih]
  | case3 held name roots hknown hheld ih =>
    rw [List.cons_append, adopt, if_neg hknown, dif_pos hheld, ih]
  | case4 held name roots hknown hfresh hfound ih =>
    rw [List.cons_append, adopt, if_neg hknown, dif_neg hfresh]
    split
    · exact ih
    · rename_i schema hschema
      rw [hfound] at hschema
      cases hschema
  | case5 held name roots hknown hfresh schema hfound ih =>
    rw [List.cons_append, adopt, if_neg hknown, dif_neg hfresh]
    split
    · rename_i hnone
      rw [hfound] at hnone
      cases hnone
    · rename_i found hschema
      rw [hfound] at hschema
      rw [← Option.some.inj hschema, ← ih, List.append_assoc]

/-- Several roots are adopted one after the other. -/
theorem adopt_eq_foldl (held : NameMap Schema) (roots : List String) :
    adopt schemas enums held roots =
      roots.foldl (fun held root => adopt schemas enums held [root]) held := by
  induction roots generalizing held with
  | nil => rw [adopt, List.foldl_nil]
  | cons root rest ih => rw [List.foldl_cons, ← ih, ← adopt_append, List.singleton_append]

/-- No adoption goes on for ever. That of a root ends with the result of the recursion: the module
gets exactly the component schemas that the root leads to, and these get noted. -/
theorem adopted_of_root (schemas : NameMap Schema) (enums : EnumRegistry) (held : NameMap Schema)
    (noted : NameMap Unit) (root : String) :
    (WellFounded fun later earlier : Adoption => earlier.turn? schemas enums = some later) ∧
      ∃ noted', Adoption.EndsIn schemas enums ⟨held, noted, [root]⟩
          ⟨adopt schemas enums held [root], noted', []⟩ ∧
        Adopted schemas enums root held (adopt schemas enums held [root]) noted noted' := by
  obtain ⟨noted', hends, hgets, hnotes⟩ :=
    Adoption.exists_endsIn schemas enums ⟨held, noted, [root]⟩
  refine ⟨Adoption.turn?_wellFounded schemas enums, noted', hends, hgets, fun name => ?_, ?_⟩
  · rw [hnotes, added_adopt_iff, Adoption.Notes]
  · exact hasOwner_insert_iff (adopt_extends held [root])

end Roots

end Ownership

end TypedApi
