import Mathlib.Data.List.Basic
import TypedApi.Proofs.Path

/-!
# Components of paths

What a path says step by step, once everything that leads nowhere is left out: where it starts
from, then steps up and down. A path is plain exactly if it steps down only. Behind a root, a plain
path adds its steps to those of the root, and the parent of a path takes the last step back.
-/

namespace TypedApi

namespace Text

/-- What is dropped from the end satisfies what it is dropped for, and what is left does not end in
such. -/
theorem dropEndWhile_spec {α : Type} (p : α → Bool) (s : List α) :
    (∃ dropped, s = dropEndWhile p s ++ dropped ∧ ∀ x ∈ dropped, p x = true) ∧
      ∀ front last, dropEndWhile p s = front ++ [last] → p last = false := by
  refine ⟨⟨(s.reverse.takeWhile p).reverse, ?_, ?_⟩, ?_⟩
  · rw [dropEndWhile, ← List.reverse_append, List.takeWhile_append_dropWhile,
      List.reverse_reverse]
  · intro x hx
    exact List.all_eq_true.mp List.all_takeWhile x (List.mem_reverse.mp hx)
  · intro front last hlast
    have hfirst : s.reverse.dropWhile p = last :: front.reverse := by
      rw [← List.reverse_reverse (s.reverse.dropWhile p)]
      change (dropEndWhile p s).reverse = _
      rw [hlast, List.reverse_append]
      rfl
    have hnot := List.head?_dropWhile_not p s.reverse
    rwa [hfirst] at hnot

end Text

namespace Path

/-- A step of a path. -/
inductive Component where
  /-- To the outermost directory. -/
  | root
  /-- To where the path starts from, by a point in front. -/
  | here
  /-- To the directory above. -/
  | up
  /-- To a place of the given name. -/
  | name (word : String)
  deriving DecidableEq, Repr

/-- The step that a segment stands for, if it leads anywhere. -/
def component? (segment : String) : Option Component :=
  if isIdle segment then none else if segment = ".." then some .up else some (.name segment)

/-- The step in front that tells where a path starts from, if the path tells it. -/
def origin (path : String) : List Component :=
  if isAbsolute path then [.root]
  else if (segments path).head? = some "." then [.here]
  else []

/-- The steps of a path. -/
def components (path : String) : List Component :=
  origin path ++ (segments path).filterMap component?

example : components "/a//./b/../c/" = [.root, .name "a", .name "b", .up, .name "c"] := by decide

/-- A path is not that of a file below a directory: it is empty, or not all of its steps are steps
down. -/
def Refused (path : String) : Prop :=
  path = "" ∨ ∃ component ∈ components path, ∀ word, component ≠ .name word

variable {path parent key root : String} {pieces : List String}

section Origins

theorem segments_empty : segments "" = [""] := by decide

/-- A path with an empty segment in front is empty or absolute. -/
theorem head?_segments_eq_empty_iff :
    (segments path).head? = some "" ↔ path = "" ∨ isAbsolute path = true := by
  match hchars : path.toList with
  | [] =>
    obtain rfl := String.toList_eq_nil_iff.mp hchars
    simp [segments_empty]
  | c :: rest =>
    have hsome : path ≠ "" := by
      rintro rfl
      cases hchars
    obtain ⟨first, others, hsplit⟩ :=
      List.exists_cons_of_ne_nil (Text.splitAll_ne_nil (· == '/') rest)
    simp only [segments, isAbsolute, hchars, Text.splitAll, hsplit, hsome, false_or]
    by_cases hc : c = '/' <;> simp [hc]

/-- A path whose first segment leads on does not tell where it starts from. -/
theorem origin_eq_nil {first : String} {rest : List String} (h : segments path = first :: rest)
    (hfirst : isIdle first = false) : origin path = [] := by
  simp only [isIdle, Bool.or_eq_false_iff, beq_eq_false_iff_ne] at hfirst
  have habsolute : ¬ isAbsolute path = true := by
    intro habsolute
    have hhead := head?_segments_eq_empty_iff.mpr (.inr habsolute)
    rw [h] at hhead
    exact hfirst.1 (Option.some.inj hhead)
  rw [origin, if_neg habsolute, h, List.head?_cons, if_neg]
  exact fun hpoint => hfirst.2 (Option.some.inj hpoint)

/-- A path is plain exactly if it is not refused. -/
theorem isPlain_eq_true_iff : isPlain path = true ↔ ¬ Refused path := by
  obtain ⟨first, rest, hsegments⟩ := List.exists_cons_of_ne_nil (segments_ne_nil path)
  have hplain : isPlain path = true ↔ isIdle first = false ∧ ".." ∉ segments path := by
    simp only [isPlain, hsegments, Bool.and_eq_true, Bool.not_eq_true', List.contains_eq_mem,
      decide_eq_false_iff_not]
  rw [hplain]
  constructor
  · rintro ⟨hfirst, hup⟩ (rfl | ⟨component, hcomponent, hother⟩)
    · rw [segments_empty] at hsegments
      rw [← (List.cons.inj hsegments).1] at hfirst
      cases hfirst
    · rw [components, origin_eq_nil hsegments hfirst, List.nil_append] at hcomponent
      obtain ⟨segment, hsegment, hstep⟩ := List.mem_filterMap.mp hcomponent
      rw [component?] at hstep
      split at hstep
      · cases hstep
      · split at hstep
        · rename_i hsame
          exact hup (hsame ▸ hsegment)
        · exact hother segment (Option.some.inj hstep).symm
  · intro haccepted
    refine ⟨Bool.eq_false_iff.mpr fun hfirst => haccepted ?_, fun hup => haccepted (.inr ?_)⟩
    · by_cases hempty : path = ""
      · exact .inl hempty
      · refine .inr ?_
        rcases Bool.or_eq_true_iff.mp hfirst with hfirst | hfirst
        · -- An empty segment in front is that of an absolute path.
          have hhead : (segments path).head? = some "" := by
            rw [hsegments, List.head?_cons, beq_iff_eq.mp hfirst]
          have habsolute := (head?_segments_eq_empty_iff.mp hhead).resolve_left hempty
          refine ⟨.root, ?_, nofun⟩
          simp [components, origin, habsolute]
        · have hhead : (segments path).head? = some "." := by
            rw [hsegments, List.head?_cons, beq_iff_eq.mp hfirst]
          by_cases habsolute : isAbsolute path = true
          · exact ⟨.root, by simp [components, origin, habsolute], nofun⟩
          · exact ⟨.here, by simp [components, origin, habsolute, hhead], nofun⟩
    · refine ⟨.up, List.mem_append_right _ (List.mem_filterMap.mpr ⟨"..", hup, ?_⟩), nofun⟩
      decide

/-- Segments that do not step up step down by their names. -/
theorem filterMap_component?_of_not_mem (h : ".." ∉ pieces) :
    pieces.filterMap component? = (pieces.filter fun piece => !isIdle piece).map .name := by
  induction pieces with
  | nil => rfl
  | cons piece rest ih =>
    rw [List.mem_cons, not_or] at h
    obtain ⟨hpiece, hrest⟩ := h
    by_cases hidle : isIdle piece = true
    · have hstep : component? piece = none := by rw [component?, if_pos hidle]
      rw [List.filterMap_cons_none hstep, ih hrest, List.filter_cons_of_neg (by simp [hidle])]
    · have hstep : component? piece = some (.name piece) := by
        rw [component?, if_neg hidle, if_neg (Ne.symm hpiece)]
      rw [List.filterMap_cons_some hstep, ih hrest, List.filter_cons_of_pos (by simp [hidle]),
        List.map_cons]

/-- A plain path says its steps by its segments alone, and leads down by one name at least. -/
theorem components_of_isPlain (h : isPlain key = true) :
    components key = (segments key).filterMap component? ∧
      ∃ words, words ≠ [] ∧ components key = words.map .name := by
  obtain ⟨first, rest, hsegments⟩ := List.exists_cons_of_ne_nil (segments_ne_nil key)
  rw [isPlain, hsegments] at h
  simp only [Bool.and_eq_true, Bool.not_eq_true', List.contains_eq_mem,
    decide_eq_false_iff_not] at h
  obtain ⟨hfirst, hup⟩ := h
  have hcomponents : components key = (segments key).filterMap component? := by
    rw [components, origin_eq_nil hsegments hfirst, List.nil_append]
  refine ⟨hcomponents, (segments key).filter fun piece => !isIdle piece, ?_, ?_⟩
  · rw [hsegments, List.filter_cons_of_pos (by simp [hfirst])]
    exact List.cons_ne_nil _ _
  · rw [hcomponents, hsegments, filterMap_component?_of_not_mem hup]

end Origins

section Joined

/-- A slash at the end opens an empty segment. -/
theorem segments_slash (path : String) : segments (path ++ "/") = segments path ++ [""] := by
  have hjoined := segments_append_slash path ""
  rwa [String.append_empty, segments_empty] at hjoined

/-- A slash at the end adds no step. -/
theorem filterMap_segments_slash (path : String) :
    (segments (path ++ "/")).filterMap component? = (segments path).filterMap component? := by
  have hidle : [""].filterMap component? = [] := by decide
  rw [segments_slash, List.filterMap_append, hidle, List.append_nil]

/-- What follows a slash adds its steps. -/
theorem components_append_segments (path rest : String) :
    components (path ++ "/" ++ rest) =
      components (path ++ "/") ++ (segments rest).filterMap component? := by
  have hslash : "/".toList = ['/'] := by decide
  have habsolute : isAbsolute (path ++ "/" ++ rest) = isAbsolute (path ++ "/") := by
    rw [isAbsolute, String.toList_append, List.head?_append_of_ne_nil _ (by simp [hslash])]
    rfl
  have hhead : (segments (path ++ "/" ++ rest)).head? = (segments (path ++ "/")).head? := by
    rw [segments_append_slash, segments_slash, List.head?_append_of_ne_nil _ (segments_ne_nil path),
      List.head?_append_of_ne_nil _ (segments_ne_nil path)]
  rw [components, components, origin, origin, habsolute, hhead, segments_append_slash,
    filterMap_segments_slash, List.filterMap_append, List.append_assoc]

/-- A slash behind a path that is not empty leaves the path as it is. -/
theorem components_slash (hsome : path ≠ "") : components (path ++ "/") = components path := by
  have hchars : path.toList ≠ [] := fun hnil => hsome (String.toList_eq_nil_iff.mp hnil)
  have habsolute : isAbsolute (path ++ "/") = isAbsolute path := by
    rw [isAbsolute, String.toList_append, List.head?_append_of_ne_nil _ hchars]
    rfl
  rw [components, components, origin, origin, habsolute, filterMap_segments_slash, segments_slash,
    List.head?_append_of_ne_nil _ (segments_ne_nil path)]

/-- Behind a root, a plain path adds its steps to those of the root. -/
theorem components_join (root : String) (h : isPlain key = true) :
    components (join root key) = components root ++ components key := by
  have hkey := (components_of_isPlain h).1
  have hrelative : isAbsolute key = false := by
    rw [← Bool.not_eq_true]
    intro habsolute
    refine isPlain_eq_true_iff.mp h (.inr ⟨.root, ?_, nofun⟩)
    simp [components, origin, habsolute]
  by_cases hempty : root = ""
  · subst hempty
    have hnothing : components "" = [] := by decide
    rw [hnothing, List.nil_append, join, if_pos (by simp)]
  · by_cases hslash : root.toList.getLast? = some '/'
    · -- The root ends with the slash that separates it from the path.
      obtain ⟨front, hfront⟩ := List.getLast?_eq_some_iff.mp hslash
      have hroot : root = String.ofList front ++ "/" := by
        apply String.toList_injective
        simp [hfront]
      have hjoin : join root key = String.ofList front ++ "/" ++ key := by
        rw [← hroot]
        simp [join, hrelative, hempty, hslash]
      rw [hjoin, components_append_segments, ← hroot, hkey]
    · have hjoin : join root key = root ++ "/" ++ key := by
        simp [join, hrelative, hempty, hslash]
      rw [hjoin, components_append_segments, components_slash hempty, hkey]

end Joined

section Parents

/-- Idle segments at the end add no step. -/
theorem filterMap_dropEndWhile (pieces : List String) :
    (Text.dropEndWhile isIdle pieces).filterMap component? = pieces.filterMap component? := by
  obtain ⟨⟨dropped, hsplit, hidle⟩, -⟩ := Text.dropEndWhile_spec isIdle pieces
  have hnone : dropped.filterMap component? = [] := by
    refine List.filterMap_eq_nil_iff.mpr fun piece hpiece => ?_
    rw [component?, if_pos (hidle piece hpiece)]
  conv_rhs => rw [hsplit, List.filterMap_append, hnone, List.append_nil]

/-- Segments without the last one that leads on. -/
def withoutLast (pieces : List String) : List String :=
  Text.dropEndWhile isIdle (Text.dropEndWhile isIdle pieces).dropLast

/-- Without the last segment that leads on, the segments in front are left. -/
theorem withoutLast_front (pieces : List String) : withoutLast pieces <+: pieces := by
  have hkept : ∀ pieces : List String, Text.dropEndWhile isIdle pieces <+: pieces := by
    intro pieces
    obtain ⟨⟨dropped, hsplit, -⟩, -⟩ := Text.dropEndWhile_spec isIdle pieces
    exact ⟨dropped, hsplit.symm⟩
  have hshorter := List.dropLast_prefix (Text.dropEndWhile isIdle pieces)
  exact (hkept _).trans (hshorter.trans (hkept pieces))

/-- Without the last segment that leads on, the last step is missing. -/
theorem filterMap_withoutLast (hsome : Text.dropEndWhile isIdle pieces ≠ []) :
    ∃ step, pieces.filterMap component? = (withoutLast pieces).filterMap component? ++ [step] := by
  obtain ⟨front, last, hlast⟩ := (List.eq_nil_or_concat _).resolve_left hsome
  rw [List.concat_eq_append] at hlast
  have hleads : isIdle last = false := (Text.dropEndWhile_spec isIdle pieces).2 front last hlast
  have hstep : ∃ step, component? last = some step := by
    rw [component?, hleads, if_neg Bool.false_ne_true]
    split <;> exact ⟨_, rfl⟩
  obtain ⟨step, hstep⟩ := hstep
  refine ⟨step, ?_⟩
  rw [withoutLast, filterMap_dropEndWhile, ← filterMap_dropEndWhile pieces, hlast,
    List.dropLast_concat, List.filterMap_append, List.filterMap_cons_some hstep,
    List.filterMap_nil]

/-- No segment of a path has a slash. -/
theorem slash_not_mem_segments (path : String) :
    ∀ segment ∈ segments path, '/' ∉ segment.toList := by
  intro segment hsegment
  obtain ⟨piece, hpiece, rfl⟩ := List.mem_map.mp hsegment
  rw [String.toList_ofList]
  intro hslash
  cases Text.not_of_mem_splitAll hpiece hslash

/-- A path is its segments, joined. -/
theorem joinWith_segments (path : String) : Text.joinWith "/" (segments path) = path := by
  have hjoined := Text.joinWith_splitAll '/' path.toList
  rwa [String.ofList_toList] at hjoined

/-- Segments in front begin as all of them do. -/
theorem head?_of_front {front : List String} (h : front <+: pieces) {first : String}
    (hfirst : first ∈ front.head?) : first ∈ pieces.head? := by
  obtain ⟨behind, rfl⟩ := h
  obtain ⟨rest, rfl⟩ := List.head?_eq_some_iff.mp hfirst
  rfl

/-- Segments that lead on from the first one say the steps of the path that they are joined to. -/
theorem components_joinWith (hfree : ∀ piece ∈ pieces, '/' ∉ piece.toList)
    (hleads : ∀ first ∈ pieces.head?, isIdle first = false) :
    components (Text.joinWith "/" pieces) = pieces.filterMap component? := by
  cases pieces with
  | nil => decide
  | cons first rest =>
    have hsegments := segments_joinWith (List.cons_ne_nil first rest) hfree
    rw [components, origin_eq_nil hsegments (hleads first rfl), hsegments, List.nil_append]

/-- Behind a point in front, segments say their steps. -/
theorem components_point_joinWith (hfree : ∀ piece ∈ pieces, '/' ∉ piece.toList) :
    components (Text.joinWith "/" ("." :: pieces)) = .here :: pieces.filterMap component? := by
  have hpoint : '/' ∉ ".".toList := by decide
  have hidle : component? "." = none := by decide
  have hsegments := segments_joinWith (List.cons_ne_nil "." pieces)
    (List.forall_mem_cons.mpr ⟨hpoint, hfree⟩)
  have hrelative : ¬ isAbsolute (Text.joinWith "/" ("." :: pieces)) = true := by
    intro habsolute
    have hhead := head?_segments_eq_empty_iff.mpr (.inr habsolute)
    rw [hsegments] at hhead
    exact absurd (Option.some.inj hhead) (by decide)
  rw [components, origin, if_neg hrelative, hsegments, List.head?_cons, if_pos rfl,
    List.filterMap_cons_none hidle]
  rfl

/-- Behind a slash in front, segments say their steps. -/
theorem components_slash_joinWith (hfree : ∀ piece ∈ pieces, '/' ∉ piece.toList) :
    components ("/" ++ Text.joinWith "/" pieces) = .root :: pieces.filterMap component? := by
  have hroot : components ("" ++ "/") = [.root] := by decide
  have hsteps : (segments (Text.joinWith "/" pieces)).filterMap component? =
      pieces.filterMap component? := by
    cases pieces with
    | nil => decide
    | cons first rest => rw [segments_joinWith (List.cons_ne_nil first rest) hfree]
  have hjoined := components_append_segments "" (Text.joinWith "/" pieces)
  rw [hroot, hsteps, String.empty_append] at hjoined
  exact hjoined

/-- The parent of a path takes the last step back. -/
theorem components_parent (h : parent? path = some parent) :
    components parent = (components path).dropLast := by
  have hfree := slash_not_mem_segments path
  have hpath := joinWith_segments path
  simp only [parent?] at h
  split at h
  · rename_i rest hsegments
    rw [hsegments] at hfree hpath
    obtain ⟨-, hrest⟩ := List.forall_mem_cons.mp hfree
    obtain ⟨text, hbody, rfl⟩ := Option.map_eq_some_iff.mp h
    split at hbody
    · cases hbody
    · rename_i hsome
      obtain rfl := Option.some.inj hbody
      obtain ⟨step, hsteps⟩ := filterMap_withoutLast hsome
      have hslash : path = "/" ++ Text.joinWith "/" rest := by
        cases rest with
        | nil => exact absurd rfl hsome
        | cons next rest => rw [← hpath, Text.joinWith, String.empty_append]
      have hparent := components_slash_joinWith
        fun piece hpiece => hrest piece ((withoutLast_front rest).subset hpiece)
      change components ("/" ++ Text.joinWith "/" (withoutLast rest)) = _
      rw [hparent, hslash, components_slash_joinWith hrest, hsteps, ← List.cons_append,
        List.dropLast_concat]
  · rename_i rest hsegments
    rw [hsegments] at hfree hpath
    obtain ⟨-, hrest⟩ := List.forall_mem_cons.mp hfree
    split at h
    · rename_i hnone
      obtain rfl := Option.some.inj h
      have hsteps : rest.filterMap component? = [] := by
        rw [← filterMap_dropEndWhile, hnone]
        rfl
      rw [← hpath, components_point_joinWith hrest, hsteps]
      decide
    · rename_i hsome
      obtain rfl := Option.some.inj h
      obtain ⟨step, hsteps⟩ := filterMap_withoutLast hsome
      have hparent := components_point_joinWith
        fun piece hpiece => hrest piece ((withoutLast_front rest).subset hpiece)
      change components (Text.joinWith "/" ("." :: withoutLast rest)) = _
      rw [hparent, ← hpath, components_point_joinWith hrest, hsteps, ← List.cons_append,
        List.dropLast_concat]
  · rename_i hempty hpoint
    have hleads : ∀ first ∈ (segments path).head?, isIdle first = false := by
      intro first hfirst
      obtain ⟨rest, hsegments⟩ := List.head?_eq_some_iff.mp hfirst
      have hempty' : first ≠ "" := fun hsame => hempty rest (hsame ▸ hsegments)
      have hpoint' : first ≠ "." := fun hsame => hpoint rest (hsame ▸ hsegments)
      simp [isIdle, hempty', hpoint']
    split at h
    · cases h
    · rename_i hsome
      obtain rfl := Option.some.inj h
      obtain ⟨step, hsteps⟩ := filterMap_withoutLast hsome
      have hfront := withoutLast_front (segments path)
      have hparent := components_joinWith (fun piece hpiece => hfree piece (hfront.subset hpiece))
        fun first hfirst => hleads first (head?_of_front hfront hfirst)
      change components (Text.joinWith "/" (withoutLast (segments path))) = _
      rw [hparent, ← hpath, components_joinWith hfree hleads, hpath, hsteps, List.dropLast_concat]

end Parents

end Path

end TypedApi
