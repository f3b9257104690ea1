import TypedApi.Proofs.Output.Capture
import TypedApi.Proofs.TypeScript.Evaluation

/-!
# What the key of a query tells of its request

The library keeps the results of queries under their keys. A key lists the name of the method and
then the arguments one by one, but of the options it lists the values alone. So it tells the method,
the arguments in the path, and the values of the options in order; which fields of the options have
these values it does not tell. The options are told by their name, and nothing is said here of
another argument of that name.
-/

namespace TypedApi

open TypeScript

namespace TypeScript

/-- What a hook around a query asks its library for. -/
structure Query where
  /-- The key under which the result is kept. -/
  key : List Value
  /-- The member of the service that is called. -/
  member : String
  /-- The arguments of the call. -/
  args : List Value

/-- What a hook around a query asks for when it is called with the given arguments. A parameter in
the place of the library's function or of the service, and two parameters of one name, leave
nothing that could be asked for. -/
def Expr.query (hook : Expr) (args : List Value) : Option Query :=
  match hook with
  | .arrow params (.call (.ident "useQuery") [options]) =>
    let env := bindings params args
    if (params.map (·.name)).Nodup ∧ "useQuery" ∉ params.map (·.name) ∧
        "service" ∉ params.map (·.name) then
      match options.valuesAt "queryKey", options.valuesAt "queryFn" with
      | [.array key], [.arrow [] (.call (.member (.ident "service") name) request)] =>
        (Expr.elements env key).bind fun key =>
          (Expr.elements env request).map fun args => ⟨key, name, args⟩
      | _, _ => none
    else none
  | _ => none

end TypeScript

namespace Output

variable {schemas : NameMap Schema} {config : Config} {module : Module}
  {method method' : ServiceMethod} {params : List (Param Expr)} {param : Param Expr}
  {env env' : Environment} {args args' : List Value} {query query' : Query}

section Statements

/-- What a key tells of the arguments of two calls with the same parameters. The options are the one
parameter that may be left out. Nothing is said of an argument in the path that is called like the
options. -/
structure Alike (params : List (Param Expr)) (args args' : List Value) : Prop where
  /-- Both calls pass an argument for every parameter. -/
  count : args.length = params.length ∧ args'.length = params.length
  /-- All arguments but the options are equal. -/
  same : ∀ (i : Nat) param, params[i]? = some param → param.isOptional = false →
    param.name ≠ ServiceMethod.queryParam → args[i]? = args'[i]?
  /-- Of the options, the values that are listed are equal. -/
  options : ∀ (i : Nat) param, params[i]? = some param → param.isOptional = true →
    args[i]?.map Value.listed = args'[i]?.map Value.listed

end Statements

section Evaluation

/-- The bound names are those of the parameters. -/
theorem map_fst_bindings (params : List (Param Expr)) (args : List Value) :
    (bindings params args).map (·.1) = params.map (·.name) := by
  induction params generalizing args with
  | nil => rfl
  | cons param rest ih => cases args <;> exact congrArg (param.name :: ·) (ih _)

/-- What parameters stand for depends on their names alone. -/
theorem bindings_congr {params' : List (Param Expr)}
    (h : params.map (·.name) = params'.map (·.name)) (args : List Value) :
    bindings params args = bindings params' args := by
  induction params generalizing params' args with
  | nil =>
    rw [List.map_nil, eq_comm, List.map_eq_nil_iff] at h
    rw [h]
  | cons param rest ih =>
    cases params' with
    | nil => cases h
    | cons param' rest' =>
      obtain ⟨hname, hrest⟩ := List.cons.inj h
      have hbound : param.name = param'.name := hname
      cases args <;> rw [bindings, bindings, ih hrest, hbound]

/-- What a parameter stands for. -/
def bound (env : Environment) (param : Param Expr) : Value :=
  (env.lookup param.name).getD .undefined

/-- What an argument contributes to the key. The values of options are listed by a global object,
which must not be hidden. -/
def keyValues (env : Environment) (param : Param Expr) : Option (List Value) :=
  if param.name = ServiceMethod.queryParam then
    if (env.lookup "Object").isSome then none else some (bound env param).listed
  else some [bound env param]

/-- The call passes on what the parameters stand for. -/
theorem elements_queryArguments (h : ∀ param ∈ params, (env.lookup param.name).isSome = true) :
    Expr.elements env (params.map queryArgument) = some (params.map (bound env)) := by
  induction params with
  | nil => rfl
  | cons param rest ih =>
    obtain ⟨hparam, hrest⟩ := List.forall_mem_cons.mp h
    obtain ⟨value, hvalue⟩ := Option.isSome_iff_exists.mp hparam
    rw [List.map_cons, queryArgument]
    split <;>
      simp [Expr.elements, Expr.eval, ih hrest, bound, hvalue]

/-- The value of options or, without them, of an object without members. -/
theorem eval_nullish {value : Value} (h : env.lookup param.name = some value) :
    (Expr.binary (.ident param.name) .nullish (.object [] false)).eval env =
      some (if value.isMissing then .object [] else value) := by
  rw [Expr.eval, Expr.eval, h, Option.bind_some]
  cases value.isMissing <;> rfl

/-- The values of options are listed where the global object is not hidden. -/
theorem eval_optionsValues {value : Value} (h : env.lookup param.name = some value) :
    (Expr.call (.path ["Object", "values"])
        [.binary (.ident param.name) .nullish (.object [] false)]).eval env =
      if (env.lookup "Object").isSome then none else some (.array value.listed) := by
  let operand := Expr.binary (.ident param.name) .nullish (.object [] false)
  have helements : Expr.elements env [operand] =
      some [if value.isMissing then .object [] else value] := by
    have hoperand := eval_nullish h
    simp only [operand] at hoperand ⊢
    simp [Expr.elements, hoperand]
  change Expr.eval env (.call (.member (.ident "Object") "values") [operand]) = _
  rw [Expr.eval]
  split
  · rfl
  · rw [helements, Option.bind_some]
    cases hmissing : value.isMissing with
    | true =>
      rw [Value.listed_of_isMissing hmissing]
      rfl
    | false => exact congrArg (Option.map Value.array) (Value.memberValues_eq_listed hmissing)

/-- One argument after the other contributes to the key. -/
theorem elements_keyParts (h : ∀ param ∈ params, (env.lookup param.name).isSome = true) :
    Expr.elements env (params.map keyPart) = (params.mapM (keyValues env)).map List.flatten := by
  induction params with
  | nil => rfl
  | cons param rest ih =>
    obtain ⟨hparam, hrest⟩ := List.forall_mem_cons.mp h
    obtain ⟨value, hvalue⟩ := Option.isSome_iff_exists.mp hparam
    have hbound : bound env param = value := by rw [bound, hvalue, Option.getD_some]
    rw [List.map_cons, List.mapM_cons, keyPart, keyValues, hbound]
    split
    · rw [Expr.elements, eval_optionsValues hvalue, ih hrest]
      split
      · rfl
      · cases rest.mapM (keyValues env) <;> simp
    · simp only [Expr.elements, Expr.eval, hvalue, ih hrest]
      cases rest.mapM (keyValues env) <;> simp

/-- All parameters of a call stand for something. -/
theorem lookup_bindings_isSome (args : List Value) (h : param ∈ params) :
    ((bindings params args).lookup param.name).isSome = true := by
  rw [Entries.lookup_isSome_iff_mem, map_fst_bindings]
  exact List.mem_map_of_mem h

/-- A hook asks for what it says under the keys of its query. -/
theorem query_arrow {options : Expr} {key request : List Expr} {name : String}
    (hkey : options.valuesAt "queryKey" = [.array key])
    (hfunction : options.valuesAt "queryFn" =
      [.arrow [] (.call (.path ["service", name]) request)]) (args : List Value) :
    (Expr.arrow params (.call (.ident "useQuery") [options])).query args =
      if (params.map (·.name)).Nodup ∧ "useQuery" ∉ params.map (·.name) ∧
          "service" ∉ params.map (·.name) then
        (Expr.elements (bindings params args) key).bind fun key =>
          (Expr.elements (bindings params args) request).map fun args => ⟨key, name, args⟩
      else none := by
  rw [Expr.query]
  simp only [hkey, hfunction]
  rfl

/-- The key of a query stands under a key of its own. -/
theorem valuesAt_queryKey (key function : Expr) (test : Option Expr) :
    (Expr.object ([.property "queryKey" key, .property "queryFn" function] ++
      match test with
      | some test => [Entry.property "enabled" test]
      | none => []) true).valuesAt "queryKey" = [key] := by
  cases test <;> simp [Expr.valuesAt, Entry.valueAt?]

/-- What a hook asks for when no parameter hides what it needs: under the name of the method and
what the arguments contribute, the method with all of the arguments. -/
theorem query_hook (hquery : method.isMutation = false) (args : List Value) :
    (hook module method).query args =
      if (method.params.map (·.name)).Nodup ∧ "useQuery" ∉ method.params.map (·.name) ∧
          "service" ∉ method.params.map (·.name) then
        (method.params.mapM (keyValues (bindings method.params args))).map fun parts =>
          ⟨.literal (.string (module.name ++ "." ++ method.name)) :: parts.flatten, method.name,
            method.params.map (bound (bindings method.params args))⟩
      else none := by
  have htyped : ∀ param ∈ method.params, ∃ type, param.type = some type :=
    fun param hparam => exists_type_of_mem_params hparam
  have hnames := congrArg (List.map Prod.fst) (map_name_queryParams htyped)
  simp only [List.map_map, Function.comp_def] at hnames
  have hbound : ∀ param ∈ method.params,
      ((bindings method.params args).lookup param.name).isSome = true :=
    fun param hparam => lookup_bindings_isSome args hparam
  let key := Expr.array (.string (module.name ++ "." ++ method.name) :: method.params.map keyPart)
  let function := Expr.arrow [] (serviceCall method (method.params.map queryArgument))
  let test := conjunction (method.params.filterMap guard)
  rw [hook_of_query module hquery]
  refine (query_arrow (valuesAt_queryKey key function test) (valuesAt_query key function test).1
    args).trans ?_
  rw [hnames, bindings_congr hnames, elements_queryArguments hbound]
  refine if_congr Iff.rfl ?_ rfl
  have hkey : ∀ (tag : Literal) (rest : List Expr), Expr.elements (bindings method.params args)
      (.literal tag :: rest) =
        (Expr.elements (bindings method.params args) rest).map (.literal tag :: ·) :=
    fun tag rest => by simp [Expr.elements, Expr.eval]
  rw [Expr.string, hkey, elements_keyParts hbound]
  cases method.params.mapM (keyValues (bindings method.params args)) <;> rfl

end Evaluation

section Keys

variable {part : List Value} {parts parts' : List (List Value)}

/-- Options contribute the values that they list. -/
theorem listed_of_keyValues (hname : param.name = ServiceMethod.queryParam)
    (h : keyValues env param = some part) : (bound env param).listed = part := by
  rw [keyValues, if_pos hname] at h
  split at h
  · cases h
  · exact Option.some.inj h

/-- Any other argument contributes itself. -/
theorem keyValues_of_ne (hname : param.name ≠ ServiceMethod.queryParam) :
    keyValues env param = some [bound env param] := by
  rw [keyValues, if_neg hname]

/-- What several arguments contribute is what the first does and then what the others do. -/
theorem exists_of_mapM_cons (h : (param :: params).mapM (keyValues env) = some parts) :
    ∃ part more, keyValues env param = some part ∧ params.mapM (keyValues env) = some more ∧
      parts = part :: more := by
  rw [List.mapM_cons] at h
  obtain ⟨part, hpart, h⟩ := Option.bind_eq_some_iff.mp h
  obtain ⟨more, hmore, h⟩ := Option.bind_eq_some_iff.mp h
  exact ⟨part, more, hpart, hmore, (Option.some.inj h).symm⟩

/-- All arguments contribute to the key where the global object is not hidden. -/
theorem exists_mapM_keyValues (hglobal : (env.lookup "Object").isSome = false) :
    ∃ parts, params.mapM (keyValues env) = some parts := by
  induction params with
  | nil => exact ⟨[], rfl⟩
  | cons param rest ih =>
    obtain ⟨more, hmore⟩ := ih
    obtain ⟨part, hpart⟩ : ∃ part, keyValues env param = some part := by
      by_cases hname : param.name = ServiceMethod.queryParam
      · exact ⟨_, by rw [keyValues, if_pos hname, hglobal, if_neg Bool.false_ne_true]⟩
      · exact ⟨_, keyValues_of_ne hname⟩
    refine ⟨part :: more, ?_⟩
    rw [List.mapM_cons, hpart, hmore]
    rfl

/-- Without options there is one value in the key for each argument. -/
theorem length_flatten_of_mapM (hnames : ServiceMethod.queryParam ∉ params.map (·.name))
    (h : params.mapM (keyValues env) = some parts) : parts.flatten.length = params.length := by
  induction params generalizing parts with
  | nil =>
    obtain rfl := Option.some.inj h
    rfl
  | cons param rest ih =>
    rw [List.map_cons, List.mem_cons, not_or] at hnames
    obtain ⟨part, more, hpart, hmore, rfl⟩ := exists_of_mapM_cons h
    rw [keyValues_of_ne (Ne.symm hnames.1)] at hpart
    obtain rfl := Option.some.inj hpart
    rw [List.flatten_cons, List.length_append, ih hnames.2 hmore, List.length_singleton,
      List.length_cons, Nat.add_comm]

/-- No arguments are alike. -/
theorem Alike.nil : Alike [] [] [] :=
  ⟨⟨rfl, rfl⟩, fun _ _ h => by simp at h, fun _ _ h => by simp at h⟩

/-- One more argument of either call lists the same values, and is the same if it is not called like
the options. -/
theorem Alike.cons {value value' : Value} (hlisted : value.listed = value'.listed)
    (hsame : param.name ≠ ServiceMethod.queryParam → value = value')
    (h : Alike params args args') : Alike (param :: params) (value :: args) (value' :: args') where
  count := ⟨congrArg Nat.succ h.count.1, congrArg Nat.succ h.count.2⟩
  same i other hother hrequired hname := by
    cases i with
    | zero =>
      obtain rfl := Option.some.inj hother
      exact congrArg some (hsame hname)
    | succ i => exact h.same i other hother hrequired hname
  options i other hother hoptional := by
    cases i with
    | zero => exact congrArg some hlisted
    | succ i => exact h.options i other hother hoptional

/-- Arguments that make the same key are alike. What stands behind the options has a fixed length,
so the key shows where their values end. -/
theorem alike_of_flatten_eq (hnodup : (params.map (·.name)).Nodup)
    (h : params.mapM (keyValues env) = some parts)
    (h' : params.mapM (keyValues env') = some parts') (hsame : parts.flatten = parts'.flatten) :
    Alike params (params.map (bound env)) (params.map (bound env')) := by
  induction params generalizing parts parts' with
  | nil => exact .nil
  | cons param rest ih =>
    obtain ⟨hnew, hrest⟩ := List.nodup_cons.mp hnodup
    obtain ⟨part, more, hpart, hmore, rfl⟩ := exists_of_mapM_cons h
    obtain ⟨part', more', hpart', hmore', rfl⟩ := exists_of_mapM_cons h'
    rw [List.flatten_cons, List.flatten_cons] at hsame
    by_cases hname : param.name = ServiceMethod.queryParam
    · have hbehind : ServiceMethod.queryParam ∉ rest.map (·.name) := hname ▸ hnew
      have hlength : more.flatten.length = more'.flatten.length :=
        (length_flatten_of_mapM hbehind hmore).trans (length_flatten_of_mapM hbehind hmore').symm
      obtain ⟨hparts, hothers⟩ := List.append_inj' hsame hlength
      have hlisted : (bound env param).listed = (bound env' param).listed := by
        rw [listed_of_keyValues hname hpart, listed_of_keyValues hname hpart', hparts]
      exact .cons hlisted (fun hother => absurd hname hother) (ih hrest hmore hmore' hothers)
    · rw [keyValues_of_ne hname] at hpart hpart'
      obtain rfl := Option.some.inj hpart
      obtain rfl := Option.some.inj hpart'
      obtain ⟨hvalue, hothers⟩ := List.cons.inj hsame
      exact .cons (congrArg Value.listed hvalue) (fun _ => hvalue)
        (ih hrest hmore hmore' hothers)

end Keys

/-- Two queries of a module with one key call the same method, with equal arguments in the path and
options that list the same values. -/
theorem alike_of_key_eq (hmethod : method ∈ module.methods schemas config)
    (hmethod' : method' ∈ module.methods schemas config) (hquery : method.isMutation = false)
    (hquery' : method'.isMutation = false) (h : (hook module method).query args = some query)
    (h' : (hook module method').query args' = some query') (hkey : query.key = query'.key) :
    method = method' ∧ query.member = query'.member ∧
      Alike method.params query.args query'.args := by
  rw [query_hook hquery] at h
  rw [query_hook hquery'] at h'
  split at h
  · rename_i hnames
    split at h'
    · obtain ⟨parts, hparts, rfl⟩ := Option.map_eq_some_iff.mp h
      obtain ⟨parts', hparts', rfl⟩ := Option.map_eq_some_iff.mp h'
      obtain ⟨htag, hvalues⟩ := List.cons.inj hkey
      -- The tag tells the member's name, and members have different names.
      have hname : method.name = method'.name :=
        (String.append_right_inj _).mp (Literal.string.inj (Value.literal.inj htag))
      obtain rfl : method = method' :=
        List.inj_on_of_nodup_map (Service.nodup_names_methods module schemas config) hmethod
          hmethod' hname
      exact ⟨rfl, rfl, alike_of_flatten_eq hnames.1 hparts hparts' hvalues⟩
    · cases h'
  · cases h

/-- A hook around a query asks for something, whatever it is called with, unless two parameters have
one name or one hides what it needs. -/
theorem exists_query (hquery : method.isMutation = false)
    (hnodup : (method.params.map (·.name)).Nodup)
    (hfree : ∀ name ∈ ["useQuery", "service", "Object"], name ∉ method.params.map (·.name)) :
    ∃ query, (hook module method).query args = some query := by
  have hglobal : ((bindings method.params args).lookup "Object").isSome = false := by
    rw [← Bool.not_eq_true, Entries.lookup_isSome_iff_mem, map_fst_bindings]
    exact hfree "Object" (by simp)
  obtain ⟨parts, hparts⟩ :
      ∃ parts, method.params.mapM (keyValues (bindings method.params args)) = some parts :=
    exists_mapM_keyValues hglobal
  rw [query_hook hquery, if_pos ⟨hnodup, hfree "useQuery" (by simp), hfree "service" (by simp)⟩,
    hparts]
  exact ⟨_, rfl⟩

section Fields

/-- A document with an operation that takes two dates as options. -/
def datedReports : Document :=
  { paths := .ofList [("/reports", { get := some {
      id := some "reports_find"
      parameters := [{ name := "from" }, { name := "to" }] } })] }

/-- The module of the path. -/
def dated : Module :=
  datedReports.assemble (EnumRegistry.collect datedReports.schemas) {} "Reports" .empty

/-- The document has the module. -/
theorem dated_mem_modules : dated ∈ (datedReports.modules {}).values := by
  have hname : Naming.moduleOfPath "/reports" ({} : Config).apiPrefix = "Reports" := by
    decide +kernel
  have hmodule := Document.assemble_mem_modules {} (rfl : datedReports.schemas = .empty)
    (List.mem_singleton_self _)
  rw [hname] at hmodule
  exact hmodule

/-- The method of the operation is a query with options alone. -/
theorem exists_find :
    ∃ method ∈ dated.methods datedReports.schemas {}, method.isMutation = false ∧
      method.name = "find" ∧ ∃ type, method.params = [.optional ServiceMethod.queryParam type] := by
  have hany : (dated.methods datedReports.schemas {}).any (fun method =>
      method.name = "find" ∧ method.isMutation = false ∧ method.pathParams.isEmpty = true ∧
        method.payload.isNone = true ∧ method.query.isSome = true) = true := by
    decide +kernel
  obtain ⟨method, hmethod, hfound⟩ := List.any_eq_true.mp hany
  obtain ⟨hname, hquery, hpath, hpayload, hoptions⟩ := of_decide_eq_true hfound
  obtain ⟨type, htype⟩ := Option.isSome_iff_exists.mp hoptions
  rw [List.isEmpty_iff] at hpath
  rw [Option.isNone_iff_eq_none] at hpayload
  refine ⟨method, hmethod, hquery, hname, type, ?_⟩
  rw [ServiceMethod.params, hpath, hpayload, htype]
  rfl

/-- The key of a query with options alone lists the values of their members. -/
theorem query_of_options (module : Module) (hquery : method.isMutation = false) {type : Ty}
    (hparams : method.params = [.optional ServiceMethod.queryParam type])
    (members : List (String × Value)) :
    (hook module method).query [.object members] =
      some ⟨.literal (.string (module.name ++ "." ++ method.name)) :: members.map (·.2),
        method.name, [.object members]⟩ := by
  have hparts : method.params.mapM (keyValues (bindings method.params [.object members])) =
      some [members.map (·.2)] := by
    rw [hparams]
    rfl
  have hnames : method.params.map (·.name) = [ServiceMethod.queryParam] := by
    rw [hparams]
    rfl
  rw [query_hook hquery, hparts, hnames, hparams, if_pos (by decide), Option.map_some,
    List.flatten_cons, List.flatten_nil, List.append_nil]
  rfl

/-- The theorem at work on two runs of a hook with options. -/
theorem alike_of_key_eq_of_datedReports :
    ∃ method ∈ dated.methods datedReports.schemas {}, ∃ query query' : Query,
      method.isMutation = false ∧
      (hook dated method).query [.object [("from", .literal (.int 1))]] = some query ∧
      (hook dated method).query [.object [("to", .literal (.int 1))]] = some query' ∧
      query.key = query'.key ∧
      (method = method ∧ query.member = query'.member ∧
        Alike method.params query.args query'.args) := by
  obtain ⟨method, hmethod, hquery, -, type, hparams⟩ := exists_find
  have hfirst := query_of_options dated hquery hparams [("from", .literal (.int 1))]
  have hsecond := query_of_options dated hquery hparams [("to", .literal (.int 1))]
  exact ⟨method, hmethod, _, _, hquery, hfirst, hsecond, rfl,
    alike_of_key_eq hmethod hmethod hquery hquery hfirst hsecond rfl⟩

/-- Two runs of a hook that ask for the reports from a day and for those up to that day have one
key. -/
theorem datedReports_share_key :
    dated ∈ (datedReports.modules {}).values ∧
      ∃ method ∈ dated.methods datedReports.schemas {}, method.isMutation = false ∧
        ∃ query query' : Query,
          (hook dated method).query [.object [("from", .literal (.int 1))]] = some query ∧
          (hook dated method).query [.object [("to", .literal (.int 1))]] = some query' ∧
          query.key = query'.key ∧ query.args ≠ query'.args := by
  obtain ⟨method, hmethod, hquery, -, type, hparams⟩ := exists_find
  have hfirst := query_of_options dated hquery hparams [("from", .literal (.int 1))]
  have hsecond := query_of_options dated hquery hparams [("to", .literal (.int 1))]
  refine ⟨dated_mem_modules, method, hmethod, hquery, _, _, hfirst, hsecond, rfl, ?_⟩
  intro hsame
  obtain ⟨hobject, -⟩ := List.cons.inj hsame
  have hfield := congrArg Prod.fst (List.cons.inj (Value.object.inj hobject)).1
  exact absurd hfield (by decide)

end Fields

end Output

end TypedApi
