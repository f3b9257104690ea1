import TypedApi.Proofs.Output.Capture
import TypedApi.Proofs.Service.Numerals

/-!
# When hooks have different names

The name of a hook drops the underscores in front of the method's name and capitalizes what follows.
Names that begin with a small letter stay apart, and so do those whose underscore guards a digit. A
bare number is what the guard is for, so it meets the number behind an underscore.
-/

namespace TypedApi

open TypeScript

namespace Output

open Naming Service

variable {schemas : NameMap Schema} {config : Config} {module : Module} {models : Models}
  {methods : List ServiceMethod} {method : ServiceMethod} {name other : String}

section Statements

/-- The hooks around some methods are told apart by their names. -/
structure HooksApart (file : SourceFile) (module : Module) (methods : List ServiceMethod) :
    Prop where
  /-- No two hooks have one name. -/
  names : (methods.map (·.hookName)).Nodup
  /-- The object of the hooks holds the hook around a method alone under its name. -/
  kept : ∀ method ∈ methods,
    file.membersOf module.presentationName method.hookName = [hook module method]

end Statements

section Names

/-- What is left of a method's name in the name of its hook. -/
def hookWord (name : String) : List Char :=
  capitalize (name.toList.dropWhile (· == '_'))

/-- Hooks have one name exactly if the same is left of their methods' names. -/
theorem hookNameOf_eq_iff :
    ServiceMethod.hookNameOf name = ServiceMethod.hookNameOf other ↔
      hookWord name = hookWord other := by
  rw [ServiceMethod.hookNameOf, ServiceMethod.hookNameOf, String.append_right_inj,
    String.ofList_inj, hookWord, hookWord]

/-- Digits have no capitals. -/
theorem toUpper_of_isDigit {c : Char} (h : c.isDigit = true) : c.toUpper = c :=
  of_isAlphanum (P := fun c => c.isDigit = true → c.toUpper = c) (by decide +kernel)
    (isAlphanum_of_isDigit h) h

/-- The capital of a small letter is no digit, and has that letter for its small form. -/
theorem toUpper_of_isLower {c : Char} (h : c.isLower = true) :
    c.toUpper.toLower = c ∧ c.toUpper.isDigit = false :=
  of_isAlphanum (P := fun c => c.isLower = true → c.toUpper.toLower = c ∧ c.toUpper.isDigit = false)
    (by decide +kernel) (isAlphanum_of_isLower h) h

/-- A name that begins with an underscore is the rest behind one. -/
theorem eq_underscore_append {word : List Char} (h : name.toList = '_' :: word) :
    name = "_" ++ String.ofList word := by
  rw [← String.ofList_toList (s := name), h, ← List.singleton_append, String.ofList_append]

/-- An underscore in front leaves the same. -/
theorem hookWord_underscore (name : String) : hookWord ("_" ++ name) = hookWord name := by
  rw [hookWord, hookWord, String.toList_append]
  rfl

/-- What begins with no underscore leaves all of itself, capitalized. -/
theorem hookWord_of_head {c : Char} {rest : List Char} (hname : name.toList = c :: rest)
    (hc : c ≠ '_') : hookWord name = c.toUpper :: rest := by
  rw [hookWord, hname, List.dropWhile_cons_of_neg (by simpa using hc), capitalize]

/-- How a name is read off what is left of it: letters get their small letter back, and a digit the
underscore that guards it, unless the name is a bare number. -/
inductive Leaves (name : String) (word : List Char) : Prop
  | letters (hname : name.toList = uncapitalize word) (hword : ∀ c ∈ word.head?, c.isDigit = false)
  | guarded (hname : name.toList = '_' :: word) (hword : ∃ c ∈ word.head?, c.isDigit = true)
  | number (n : Nat) (hname : name = toString n) (hword : word = (toString n).toList)

/-- The names of methods are read off what is left of them. -/
theorem leaves_hookWord (h : method ∈ module.methods schemas config) :
    Leaves method.name (hookWord method.name) := by
  rcases name_cases h with (⟨c, rest, hname, hc⟩ | ⟨c, rest, hname, hc⟩) | hempty | ⟨n, hname⟩
  · obtain ⟨hsmall, hdigit⟩ := toUpper_of_isLower hc
    rw [hookWord_of_head hname (ne_underscore (isAlphanum_of_isLower hc))]
    refine .letters ?_ (by simpa using hdigit)
    rw [hname, uncapitalize, hsmall]
  · have hword : hookWord method.name = c :: rest := by
      rw [eq_underscore_append hname, hookWord_underscore, hookWord_of_head String.toList_ofList
        (ne_underscore (isAlphanum_of_isDigit hc)), toUpper_of_isDigit hc]
    rw [hword]
    exact .guarded hname ⟨c, rfl, hc⟩
  · rw [hempty]
    exact .letters rfl (by simp [hookWord, capitalize])
  · obtain ⟨c, rest, hdigits, hc⟩ := exists_toString_eq_cons n
    refine .number n hname ?_
    rw [hname, hookWord_of_head hdigits (ne_underscore (isAlphanum_of_isDigit hc)),
      toUpper_of_isDigit hc, hdigits]

/-- Names of which the same is left are the same, or a bare number and the same number behind an
underscore. -/
theorem Leaves.eq_or {word : List Char} (h : Leaves name word) (h' : Leaves other word) :
    name = other ∨ ∃ n : Nat, (name = toString n ∧ other = "_" ++ toString n) ∨
      (other = toString n ∧ name = "_" ++ toString n) := by
  have hnumber : ∀ n : Nat, ∃ c ∈ (toString n).toList.head?, c.isDigit = true := by
    intro n
    obtain ⟨c, rest, hdigits, hc⟩ := exists_toString_eq_cons n
    exact ⟨c, by rw [hdigits]; rfl, hc⟩
  have hapart : ∀ word : List Char, (∀ c ∈ word.head?, c.isDigit = false) →
      ¬ ∃ c ∈ word.head?, c.isDigit = true := by
    rintro word hnone ⟨c, hc, hdigit⟩
    rw [hnone c hc] at hdigit
    cases hdigit
  have hunderscore : ∀ {name : String} {n : Nat}, name.toList = '_' :: (toString n).toList →
      name = "_" ++ toString n := by
    intro name n hname
    rw [eq_underscore_append hname, String.ofList_toList]
  cases h with
  | letters hname hword =>
    cases h' with
    | letters hname' _ => exact .inl (String.toList_inj.mp (hname.trans hname'.symm))
    | guarded _ hword' => exact absurd hword' (hapart word hword)
    | number n _ hword' => exact absurd (hword' ▸ hnumber n) (hapart word hword)
  | guarded hname hword =>
    cases h' with
    | letters _ hword' => exact absurd hword (hapart word hword')
    | guarded hname' _ => exact .inl (String.toList_inj.mp (hname.trans hname'.symm))
    | number n hname' hword' => exact .inr ⟨n, .inr ⟨hname', hunderscore (hword' ▸ hname)⟩⟩
  | number n hname hword =>
    cases h' with
    | letters _ hword' => exact absurd (hword ▸ hnumber n) (hapart word hword')
    | guarded hname' _ => exact .inr ⟨n, .inl ⟨hname, hunderscore (hword ▸ hname')⟩⟩
    | number n' hname' hword' =>
      rw [hname, hname']
      exact .inl (String.toList_inj.mp (hword.symm.trans hword'))

/-- Hooks have different names exactly if no number that is the name of a method is that of another
one behind an underscore. -/
theorem nodup_hookNames_iff :
    ((module.methods schemas config).map (·.hookName)).Nodup ↔
      ∀ n : Nat, 2 ≤ n → n ≤ module.operations.names.countP isWordless →
        ∀ method ∈ module.methods schemas config, method.name ≠ "_" ++ toString n := by
  have hnames := nodup_names_methods module schemas config
  constructor
  · intro hnodup n hlow hhigh method hmethod hname
    obtain ⟨bare, hbare, hnumber⟩ := exists_numeral_iff.mpr ⟨hlow, hhigh⟩
    have hhook : method.hookName = bare.hookName := by
      rw [ServiceMethod.hookName, ServiceMethod.hookName, hookNameOf_eq_iff, hname, hnumber,
        hookWord_underscore]
    have hsame := congrArg ServiceMethod.name (List.inj_on_of_nodup_map hnodup hmethod hbare hhook)
    rw [hname, hnumber] at hsame
    have hlength := congrArg String.length hsame
    simp at hlength
  · intro hapart
    refine List.Nodup.map_on ?_ (List.Nodup.of_map _ hnames)
    intro method hmethod other hother hhook
    rw [ServiceMethod.hookName, ServiceMethod.hookName, hookNameOf_eq_iff] at hhook
    have hother' := leaves_hookWord hother
    rw [← hhook] at hother'
    rcases (leaves_hookWord hmethod).eq_or hother' with
      hsame | ⟨n, ⟨hbare, hscore⟩ | ⟨hbare, hscore⟩⟩
    · exact List.inj_on_of_nodup_map hnames hmethod hother hsame
    · have hbounds := exists_numeral_iff.mp ⟨method, hmethod, hbare⟩
      exact absurd hscore (hapart n hbounds.1 hbounds.2 other hother)
    · have hbounds := exists_numeral_iff.mp ⟨other, hother, hbare⟩
      exact absurd hscore (hapart n hbounds.1 hbounds.2 method hmethod)

end Names

/-- The object of the hooks holds one value under each name if the names are different. -/
theorem membersOf_hooks (hnodup : (methods.map (·.hookName)).Nodup) (hmethod : method ∈ methods) :
    (hooks config module methods models).membersOf module.presentationName method.hookName =
      [hook module method] := by
  have hone := Expr.valuesAt_object_map (hook module) true hnodup hmethod
  cases hmutations : methods.any (·.isMutation) <;>
    simp only [hooks, hmutations, SourceFile.membersOf, SourceFile.resultsOf, BEq.rfl,
      List.filter_cons_of_pos, List.filter_nil, List.flatMap_cons, List.flatMap_nil,
      List.append_nil, List.nil_append, List.singleton_append, List.filterMap_cons,
      List.filterMap_nil, if_true, Bool.false_eq_true, if_false] <;>
    exact hone

/-- The hooks around the methods of a module are told apart by their names exactly if no method is
named by an underscore and a number from two up to the number of operations without a letter or
digit. -/
theorem hooksApart_iff :
    HooksApart (hooksFile schemas config module) module (module.methods schemas config) ↔
      ∀ n : Nat, 2 ≤ n → n ≤ module.operations.names.countP isWordless →
        ∀ method ∈ module.methods schemas config, method.name ≠ "_" ++ toString n := by
  rw [← nodup_hookNames_iff]
  exact ⟨fun h => h.names, fun h => ⟨h, fun method hmethod => membersOf_hooks h hmethod⟩⟩

/-- A document with two operations without a letter or digit, and one that is a number. -/
def countedVotes : Document :=
  { paths := .ofList [("/votes", {
      get := some { id := some "2" }
      post := some { id := some "+" }
      delete := some { id := some "-" } })] }

/-- The module of the path. -/
def votes : Module :=
  countedVotes.assemble (EnumRegistry.collect countedVotes.schemas) {} "Votes" .empty

/-- The document has the module. -/
theorem votes_mem_modules : votes ∈ (countedVotes.modules {}).values := by
  have hname : Naming.moduleOfPath "/votes" ({} : Config).apiPrefix = "Votes" := by
    decide +kernel
  have hmodule := Document.assemble_mem_modules {} (rfl : countedVotes.schemas = .empty)
    (List.mem_singleton_self _)
  rw [hname] at hmodule
  exact hmodule

/-- Two methods have hooks of one name, and so one hook is lost. -/
theorem countedVotes_clash :
    votes ∈ (countedVotes.modules {}).values ∧
      ((votes.methods countedVotes.schemas {}).map fun method =>
          (method.name, method.hookName)).take 3 = [("", "use"), ("2", "use2"), ("_2", "use2")] ∧
      ¬ HooksApart (hooksFile countedVotes.schemas {} votes) votes
        (votes.methods countedVotes.schemas {}) := by
  have hnames : ((votes.methods countedVotes.schemas {}).map fun method =>
      (method.name, method.hookName)).take 3 = [("", "use"), ("2", "use2"), ("_2", "use2")] := by
    decide +kernel
  have htwice : ¬ ((votes.methods countedVotes.schemas {}).map (·.hookName)).Nodup := by
    decide +kernel
  exact ⟨votes_mem_modules, hnames, fun h => htwice h.names⟩

end Output

end TypedApi
