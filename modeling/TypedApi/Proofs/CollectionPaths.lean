import TypedApi.Proofs.Ownership
import TypedApi.Proofs.Path.Components

/-!
# The path of a collection stays in its module

A path names its module by a segment behind the slashes and the prefix at its front, where empty
segments count. The path of a collection is cut out of the first path of the module without its
empty segments. Both find the same segment, as an empty one names no module but the common one; so
the path of the collection names the module that it is made for.
-/

namespace TypedApi

namespace Text

section Runs

variable {α : Type} {p : α → Bool} {marks : List α} {c : α}

/-- A mark separates the pieces that are not empty. -/
theorem splitRuns_append_mark (hc : p c = true) (s rest : List α) :
    splitRuns p (s ++ c :: rest) = splitRuns p s ++ splitRuns p rest := by
  rw [splitRuns, splitAll_append_mark hc, List.filter_append]
  rfl

/-- Marks in front add no piece. -/
theorem splitRuns_marks_append (h : ∀ c ∈ marks, p c = true) (s : List α) :
    splitRuns p (marks ++ s) = splitRuns p s := by
  induction marks with
  | nil => rfl
  | cons c rest ih =>
    obtain ⟨hc, hrest⟩ := List.forall_mem_cons.mp h
    have hfirst := splitRuns_append_mark hc [] (rest ++ s)
    rw [ih hrest] at hfirst
    exact hfirst

/-- Marks at the end add no piece. -/
theorem splitRuns_append_marks (h : ∀ c ∈ marks, p c = true) (s : List α) :
    splitRuns p (s ++ marks) = splitRuns p s := by
  cases marks with
  | nil => rw [List.append_nil]
  | cons c rest =>
    obtain ⟨hc, hrest⟩ := List.forall_mem_cons.mp h
    have hnone : splitRuns p rest = [] := by
      have hmarks := splitRuns_marks_append hrest []
      rwa [List.append_nil] at hmarks
    rw [splitRuns_append_mark hc, hnone, List.append_nil]

/-- A piece of text between marks: there is something, and no mark in it. -/
def IsRun (p : α → Bool) (piece : List α) : Prop :=
  piece ≠ [] ∧ ∀ c ∈ piece, p c = false

/-- A run in front keeps what follows it. -/
theorem IsRun.dropWhile_append {piece : List α} (h : IsRun p piece) (s : List α) :
    (piece ++ s).dropWhile p = piece ++ s := by
  obtain ⟨c, rest, rfl⟩ := List.exists_cons_of_ne_nil h.1
  have hc : p c = false := h.2 c List.mem_cons_self
  rw [List.cons_append, List.dropWhile_cons_of_neg (by simp [hc])]

/-- A run at the end keeps what is in front of it, and a mark behind it goes. -/
theorem IsRun.dropEndWhile_append {piece : List α} (h : IsRun p piece) (hc : p c = true)
    (s : List α) : dropEndWhile p (s ++ piece ++ [c]) = s ++ piece := by
  have hreversed : IsRun p piece.reverse :=
    ⟨mt List.reverse_eq_nil_iff.mp h.1, fun c hc => h.2 c (List.mem_reverse.mp hc)⟩
  rw [dropEndWhile, List.reverse_append, List.reverse_append, List.reverse_singleton,
    List.singleton_append, List.dropWhile_cons_of_pos hc, hreversed.dropWhile_append,
    List.reverse_append, List.reverse_reverse, List.reverse_reverse]

/-- Runs with marks behind them, and a last one without, are told apart. -/
theorem splitAll_flatMap_append {front : List (List α)} {last : List α} (hc : p c = true)
    (hfront : ∀ piece ∈ front, IsRun p piece) (hlast : IsRun p last) :
    splitAll p ((front.flatMap fun piece => piece ++ [c]) ++ last) = front ++ [last] := by
  induction front with
  | nil => exact splitAll_eq_singleton hlast.2
  | cons piece front ih =>
    obtain ⟨hpiece, hothers⟩ := List.forall_mem_cons.mp hfront
    rw [List.flatMap_cons, List.append_assoc, List.append_assoc, List.singleton_append,
      splitAll_append_cons hpiece.2 hc, ih hothers]
    rfl

end Runs

end Text

namespace Naming

variable {path prefixSegment first : List Char} {rest pieces : List (List Char)}

/-- The segments of a path that are not empty are the pieces between its slashes. -/
theorem filter_pathSegments (path : List Char) :
    (pathSegments path).filter (fun segment => !segment.isEmpty) =
      Text.splitRuns (· == '/') path := by
  obtain ⟨⟨dropped, hsplit, hmarks⟩, -⟩ :=
    Text.dropEndWhile_spec (· == '/') (path.dropWhile (· == '/'))
  have hfront : ∀ c ∈ path.takeWhile (· == '/'), (c == '/') = true :=
    List.all_eq_true.mp List.all_takeWhile
  change Text.splitRuns (· == '/') (Text.dropEndWhile (· == '/') (path.dropWhile (· == '/'))) = _
  conv_rhs =>
    rw [← List.takeWhile_append_dropWhile (p := (· == '/')) (l := path),
      Text.splitRuns_marks_append hfront, hsplit, Text.splitRuns_append_marks hmarks]

/-- Behind a first segment that is not empty, the empty ones are left out. -/
theorem splitRuns_of_pathSegments (h : pathSegments path = first :: rest) (hfirst : first ≠ []) :
    Text.splitRuns (· == '/') path = first :: rest.filter fun segment => !segment.isEmpty := by
  rw [← filter_pathSegments, h, List.filter_cons_of_pos (by simpa using hfirst)]

/-- A path made of segments has these segments. -/
theorem pathSegments_directoryPath (hsome : pieces ≠ [])
    (hruns : ∀ piece ∈ pieces, Text.IsRun (· == '/') piece) :
    pathSegments (Module.directoryPath pieces).toList = pieces := by
  have hslash : ('/' == '/') = true := rfl
  have hfront : (pieces.flatMap fun piece => piece ++ ['/']).dropWhile (· == '/') =
      pieces.flatMap fun piece => piece ++ ['/'] := by
    obtain ⟨first, others, rfl⟩ := List.exists_cons_of_ne_nil hsome
    rw [List.flatMap_cons, List.append_assoc]
    exact (hruns first List.mem_cons_self).dropWhile_append _
  obtain ⟨front, last, hpieces⟩ := (List.eq_nil_or_concat pieces).resolve_left hsome
  rw [List.concat_eq_append] at hpieces
  rw [hpieces] at hruns
  obtain ⟨hbefore, hlast⟩ := List.forall_mem_append.mp hruns
  have hlast : Text.IsRun (· == '/') last := hlast last (List.mem_singleton_self last)
  have hend : Text.dropEndWhile (· == '/') (pieces.flatMap fun piece => piece ++ ['/']) =
      (front.flatMap fun piece => piece ++ ['/']) ++ last := by
    rw [hpieces, List.flatMap_append, List.flatMap_singleton, ← List.append_assoc]
    exact hlast.dropEndWhile_append hslash _
  change Text.splitAll (· == '/') (Text.dropEndWhile (· == '/')
    ((Module.directoryPath pieces).toList.dropWhile (· == '/'))) = pieces
  have hchars : (Module.directoryPath pieces).toList.dropWhile (· == '/') =
      pieces.flatMap fun piece => piece ++ ['/'] := by
    rw [Module.directoryPath, String.toList_ofList]
    exact hfront
  rw [hchars, hend, hpieces]
  exact Text.splitAll_flatMap_append hslash hbefore hlast

/-- Whether the first segment of a path is the prefix segment. -/
def leadsWith (prefixSegment path : List Char) : Bool :=
  !prefixSegment.isEmpty && (pathSegments path).head? == some prefixSegment

/-- Only the first segment tells whether a path leads with the prefix segment. -/
theorem leadsWith_eq (h : pathSegments path = first :: rest) :
    leadsWith prefixSegment path = (!prefixSegment.isEmpty && first == prefixSegment) := by
  rw [leadsWith, h, List.head?_cons, Option.some_beq_some]

/-- The segment that names a module is the first one, or else the one behind the prefix segment. -/
theorem pathSegments_of_moduleSegment (hsome : moduleSegment path prefixSegment ≠ []) :
    (leadsWith prefixSegment path = true ∧ prefixSegment ≠ [] ∧ ∃ rest,
        pathSegments path = prefixSegment :: moduleSegment path prefixSegment :: rest) ∨
      (leadsWith prefixSegment path = false ∧ ∃ rest,
        pathSegments path = moduleSegment path prefixSegment :: rest) := by
  rw [moduleSegment] at hsome ⊢
  cases hsegments : pathSegments path with
  | nil => simp [hsegments] at hsome
  | cons first rest =>
    simp only [hsegments] at hsome ⊢
    cases hleads : leadsWith prefixSegment path with
    | false =>
      rw [(leadsWith_eq hsegments).symm.trans hleads]
      exact .inr ⟨rfl, rest, rfl⟩
    | true =>
      have hapi := (leadsWith_eq hsegments).symm.trans hleads
      rw [hapi, if_pos rfl] at hsome ⊢
      obtain ⟨hapiSome, hfirst⟩ := Bool.and_eq_true_iff.mp hapi
      obtain ⟨second, others, rfl⟩ := List.exists_cons_of_ne_nil
        (fun hnil : rest = [] => hsome (congrArg (List.headD · []) hnil))
      exact .inl ⟨rfl, by simpa using hapiSome, others, by rw [eq_of_beq hfirst]; rfl⟩

/-- The prefix segment, where a path leads with it, and the segment that names the module. -/
def homeSegments (prefixSegment path : List Char) : List (List Char) :=
  (if leadsWith prefixSegment path then [prefixSegment] else []) ++
    [moduleSegment path prefixSegment]

/-- These segments are in front of the path, so they are not empty and without slashes. -/
theorem isRun_of_mem_homeSegments (hsome : moduleSegment path prefixSegment ≠ [])
    {piece : List Char} (h : piece ∈ homeSegments prefixSegment path) :
    Text.IsRun (· == '/') piece := by
  have hpiece : piece ≠ [] ∧ piece ∈ pathSegments path := by
    rcases pathSegments_of_moduleSegment hsome with
      ⟨hleads, hapi, rest, hsegments⟩ | ⟨hleads, rest, hsegments⟩ <;>
      rw [homeSegments, hleads] at h <;> rw [hsegments]
    · rcases List.mem_pair.mp h with rfl | rfl
      · exact ⟨hapi, List.mem_cons_self⟩
      · exact ⟨hsome, List.mem_cons_of_mem _ List.mem_cons_self⟩
    · obtain rfl := List.mem_singleton.mp h
      exact ⟨hsome, List.mem_cons_self⟩
  exact ⟨hpiece.1, fun c hc => Text.not_of_mem_splitAll (p := (· == '/')) hpiece.2 hc⟩

/-- A path of these segments alone names the same module. -/
theorem moduleSegment_of_homeSegments {base : List Char}
    (hsome : moduleSegment path prefixSegment ≠ [])
    (hbase : pathSegments base = homeSegments prefixSegment path) :
    moduleSegment base prefixSegment = moduleSegment path prefixSegment := by
  rcases pathSegments_of_moduleSegment hsome with
    ⟨hleads, hapi, rest, hsegments⟩ | ⟨hleads, rest, hsegments⟩ <;>
    rw [homeSegments, hleads] at hbase
  · rw [moduleSegment, hbase]
    simp [hapi]
  · have hother := (leadsWith_eq hsegments).symm.trans hleads
    rw [moduleSegment.eq_def base, hbase]
    simp only [Bool.false_eq_true, if_false, List.nil_append, hother]

/-- A path that does not name the common module has a segment that names its module, and this is no
placeholder. -/
theorem moduleSegment_of_ne {path apiPrefix : String}
    (h : moduleOfPath path apiPrefix ≠ commonModule) :
    moduleSegment path.toList apiPrefix.toList ≠ [] ∧
      Module.isPlaceholder (moduleSegment path.toList apiPrefix.toList) = false := by
  rw [moduleOfPath] at h
  generalize moduleSegment path.toList apiPrefix.toList = segment at h
  constructor
  · rintro rfl
    exact h rfl
  · rw [Module.isPlaceholder, ← Bool.not_eq_true]
    intro hplaceholder
    rw [if_pos hplaceholder] at h
    exact h rfl

end Naming

namespace Module

variable {path prefixSegment : List Char} {module : Module} {first apiPrefix : String}

/-- The segments of a collection are the prefix segment, where the path leads with it, and the one
that names the module. -/
theorem collectionSegments_eq (hapi : isPlaceholder prefixSegment = false)
    (hsome : Naming.moduleSegment path prefixSegment ≠ [])
    (hplain : isPlaceholder (Naming.moduleSegment path prefixSegment) = false) :
    collectionSegments prefixSegment (Text.splitRuns (· == '/') path) =
      Naming.homeSegments prefixSegment path := by
  rcases Naming.pathSegments_of_moduleSegment hsome with
    ⟨hleads, hsegment, rest, hsegments⟩ | ⟨hleads, rest, hsegments⟩
  · rw [Naming.splitRuns_of_pathSegments hsegments hsegment,
      List.filter_cons_of_pos (by simpa using hsome), Naming.homeSegments, hleads]
    simp [collectionSegments, hapi, hplain, hsegment]
  · rw [Naming.splitRuns_of_pathSegments hsegments hsome, Naming.homeSegments, hleads]
    simp only [collectionSegments, hplain, (Naming.leadsWith_eq hsegments).symm.trans hleads,
      Bool.false_eq_true, if_false, List.nil_append]

/-- What the path of a collection is made of, and that it names the module that it is made for. -/
structure StaysHome (module : Module) (apiPrefix first : String) : Prop where
  /-- The path names the module. -/
  named : Naming.moduleOfPath (module.basePath apiPrefix) apiPrefix = module.name
  /-- The path is the prefix segment, if the first path of the module leads with it, and the segment
  of that path that names the module. -/
  made : (module.basePath apiPrefix).toList =
    '/' :: (if Naming.leadsWith apiPrefix.toList first.toList then apiPrefix.toList ++ ['/'] else [])
      ++ Naming.moduleSegment first.toList apiPrefix.toList ++ ['/']
  /-- It starts with a slash. -/
  front : (module.basePath apiPrefix).toList.head? = some '/'
  /-- It ends with a slash. -/
  back : (module.basePath apiPrefix).toList.getLast? = some '/'

/-- The path of a collection stays in the module that the first path names. -/
theorem staysHome_of_named (hapi : isPlaceholder apiPrefix.toList = false)
    (hfirst : module.paths.head? = some first)
    (hnamed : Naming.moduleOfPath first apiPrefix = module.name)
    (hname : module.name ≠ Naming.commonModule) : StaysHome module apiPrefix first := by
  obtain ⟨others, hpaths⟩ := List.head?_eq_some_iff.mp hfirst
  obtain ⟨hsome, hplain⟩ := Naming.moduleSegment_of_ne (hnamed ▸ hname)
  have hbase : module.basePath apiPrefix =
      directoryPath (Naming.homeSegments apiPrefix.toList first.toList) := by
    rw [basePath, hpaths, ← collectionSegments_eq hapi hsome hplain]
  have hsegments := Naming.pathSegments_directoryPath (List.append_ne_nil_of_right_ne_nil _
    (List.cons_ne_nil _ _)) fun _ => Naming.isRun_of_mem_homeSegments hsome
  have hsame := Naming.moduleSegment_of_homeSegments hsome (hbase ▸ hsegments)
  have hchars : (module.basePath apiPrefix).toList =
      '/' :: (if Naming.leadsWith apiPrefix.toList first.toList then apiPrefix.toList ++ ['/']
        else []) ++ Naming.moduleSegment first.toList apiPrefix.toList ++ ['/'] := by
    rw [hbase, directoryPath, String.toList_ofList, Naming.homeSegments]
    split <;> simp
  refine ⟨?_, hchars, ?_, ?_⟩
  · rw [← hnamed, Naming.moduleOfPath, hsame, Naming.moduleOfPath]
  · rw [hchars]
    rfl
  · rw [hchars, List.getLast?_concat]

end Module

namespace Document

variable {document : Document} {config : Config} {module : Module} {first : String}

/-- The path of a collection names the module that it is made for, and consists of the prefix
segment, if the first path of the module leads with it, and the segment that names the module. -/
theorem staysHome (hapi : Module.isPlaceholder config.apiPrefix.toList = false)
    (hmodule : module ∈ (document.modules config).values)
    (hname : module.name ≠ Naming.commonModule) (hfirst : module.paths.head? = some first) :
    module.StaysHome config.apiPrefix first := by
  obtain ⟨schemas, -, hassembled⟩ := mem_modules_iff.mp hmodule
  have hpaths : module.paths = (document.pathsOf config module.name).map (·.1) := by
    rw [← hassembled]
    rfl
  have hlisted := hpaths ▸ List.mem_of_head? hfirst
  obtain ⟨entry, hentry, rfl⟩ := List.mem_map.mp hlisted
  exact Module.staysHome_of_named hapi hfirst (mem_pathsOf_iff.mp hentry).2 hname

/-- A document whose only path has slashes where a path may have none. -/
def slashedStock : Document := { paths := .ofList [("//api/stock-items//\x7bid\x7d/parts", {})] }

/-- The module of the path. -/
def stockItems : Module :=
  slashedStock.assemble (EnumRegistry.collect slashedStock.schemas) {} "StockItems" .empty

/-- The theorem at work on a path with empty segments. -/
theorem staysHome_of_slashedStock :
    stockItems ∈ (slashedStock.modules {}).values ∧
      stockItems.basePath "api" = "/api/stock-items/" ∧
      stockItems.StaysHome "api" "//api/stock-items//\x7bid\x7d/parts" := by
  have hnamed : Naming.moduleOfPath "//api/stock-items//\x7bid\x7d/parts"
      ({} : Config).apiPrefix = "StockItems" := by
    decide +kernel
  have hmodule : stockItems ∈ (slashedStock.modules {}).values := by
    have hassembled := assemble_mem_modules {} (rfl : slashedStock.schemas = .empty)
      (List.mem_singleton_self _)
    rwa [hnamed] at hassembled
  have hname : stockItems.name ≠ Naming.commonModule := by decide
  have hfirst : stockItems.paths.head? = some "//api/stock-items//\x7bid\x7d/parts" := by
    decide +kernel
  exact ⟨hmodule, by decide +kernel, staysHome rfl hmodule hname hfirst⟩

end Document

end TypedApi
