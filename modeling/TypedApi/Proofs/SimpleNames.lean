import TypedApi.Naming
import TypedApi.Proofs.Marks

/-!
# Simple names are a normal form

A schema name is stripped of the page mark in front, of the audience and what follows it, and of
the transport endings. What is left has nothing more to strip, unless a second page mark stood
behind the first one. An ending behind a name is stripped again, as no mark begins in the name and
ends in the ending; so all names of a schema that differ in their endings have one simple name.
-/

namespace TypedApi.Naming

variable {s entity front ending : List Char} {endings more : List (List Char)} {name : String}

section Endings

/-- Endings of which a text has at most one at its end. -/
structure Exclusive (endings : List (List Char)) : Prop where
  /-- No ending is empty. -/
  nonempty : [] ∉ endings
  /-- No ending ends in another one. -/
  eq_of_suffix : ∀ a ∈ endings, ∀ b ∈ endings, a <:+ b → a = b

theorem exclusive_transportEndings : Exclusive transportEndings := by
  constructor <;> decide +kernel

/-- An ending is dropped from a text that has it. -/
theorem dropEnding?_eq_some_iff : dropEnding? ending s = some front ↔ front ++ ending = s := by
  rw [dropEnding?]
  split
  · rename_i hending
    obtain ⟨kept, rfl⟩ := List.isSuffixOf_iff_suffix.mp hending
    simp [eq_comm]
  · rename_i hother
    refine iff_of_false nofun ?_
    rintro rfl
    exact hother (List.isSuffixOf_iff_suffix.mpr (List.suffix_append front ending))

/-- No ending is found exactly if the text has none. -/
theorem findSome?_dropEnding?_eq_none_iff :
    endings.findSome? (dropEnding? · s) = none ↔ ∀ ending ∈ endings, ¬ ending <:+ s := by
  rw [List.findSome?_eq_none_iff]
  refine forall₂_congr fun ending _ => ?_
  rw [Option.eq_none_iff_forall_ne_some]
  constructor
  · rintro hnone ⟨front, hfront⟩
    exact hnone front (dropEnding?_eq_some_iff.mpr hfront)
  · intro hother front hfront
    exact hother ⟨front, dropEnding?_eq_some_iff.mp hfront⟩

/-- Of exclusive endings, the one that was put behind a text is found. -/
theorem findSome?_dropEnding?_append (hendings : Exclusive endings) (h : ending ∈ endings) :
    endings.findSome? (dropEnding? · (s ++ ending)) = some s := by
  cases hfound : endings.findSome? (dropEnding? · (s ++ ending)) with
  | none =>
    exact absurd (List.suffix_append s ending) (findSome?_dropEnding?_eq_none_iff.mp hfound _ h)
  | some front =>
    obtain ⟨other, hother, hdrop⟩ := List.exists_of_findSome?_eq_some hfound
    have hsplit : front ++ other = s ++ ending := dropEnding?_eq_some_iff.mp hdrop
    have hend : other <:+ s ++ ending := ⟨front, hsplit⟩
    have hsame : other = ending := by
      rcases List.suffix_or_suffix_of_suffix hend (List.suffix_append s ending) with hend | hend
      · exact hendings.eq_of_suffix other hother ending h hend
      · exact (hendings.eq_of_suffix ending h other hother hend).symm
    rw [hsame] at hsplit
    rw [List.append_cancel_right hsplit]

/-- Stripping leaves a beginning. -/
theorem prefix_stripEndings (endings : List (List Char)) (s : List Char) :
    stripEndings endings s <+: s := by
  fun_induction stripEndings endings s with
  | case1 s front hfound _ ih =>
    obtain ⟨ending, -, hdrop⟩ := List.exists_of_findSome?_eq_some hfound
    exact ih.trans ⟨ending, dropEnding?_eq_some_iff.mp hdrop⟩
  | case2 s => exact List.prefix_refl s
  | case3 s => exact List.prefix_refl s

/-- Stripping leaves no ending. -/
theorem not_suffix_stripEndings (hendings : Exclusive endings) (s : List Char) :
    ∀ ending ∈ endings, ¬ ending <:+ stripEndings endings s := by
  fun_induction stripEndings endings s with
  | case1 s front hfound hshorter ih => exact ih
  | case2 s front hfound hlength =>
    -- An ending that is there has characters, so that dropping it leaves less.
    obtain ⟨ending, hmem, hdrop⟩ := List.exists_of_findSome?_eq_some hfound
    have hsome : ending ≠ [] := fun hnil => hendings.nonempty (hnil ▸ hmem)
    have hpos := List.length_pos_of_ne_nil hsome
    have hsplit := congrArg List.length (dropEnding?_eq_some_iff.mp hdrop)
    rw [List.length_append] at hsplit
    omega
  | case3 s hnone => exact findSome?_dropEnding?_eq_none_iff.mp hnone

/-- A text without endings stays as it is. -/
theorem stripEndings_eq_self (h : ∀ ending ∈ endings, ¬ ending <:+ s) :
    stripEndings endings s = s := by
  rw [stripEndings, findSome?_dropEnding?_eq_none_iff.mpr h]

/-- An ending behind a text is stripped again. -/
theorem stripEndings_append (hendings : Exclusive endings) (h : ending ∈ endings) :
    stripEndings endings (s ++ ending) = stripEndings endings s := by
  have hsome : ending ≠ [] := fun hnil => hendings.nonempty (hnil ▸ h)
  have hshorter : s.length < (s ++ ending).length := by
    rw [List.length_append]
    exact Nat.lt_add_of_pos_right (List.length_pos_of_ne_nil hsome)
  rw [stripEndings, findSome?_dropEnding?_append hendings h]
  exact if_pos hshorter

end Endings

section PageMarks

/-- The page mark in front of a text goes. -/
theorem dropPageMark_append (s : List Char) : dropPageMark (pageMark ++ s) = s := by
  rw [dropPageMark, if_pos (List.isPrefixOf_iff_prefix.mpr (List.prefix_append _ _)),
    List.drop_left]

/-- A text without a page mark in front stays as it is. -/
theorem dropPageMark_eq_self (h : ¬ pageMark <+: s) : dropPageMark s = s := by
  rw [dropPageMark, if_neg (mt List.isPrefixOf_iff_prefix.mp h)]

/-- No rest of the page mark begins a transport ending. -/
theorem not_prefix_of_suffix_pageMark (h : ending ∈ transportEndings) :
    ∀ rest, rest ≠ [] → rest <:+ pageMark → ¬ rest <+: ending := by
  have hall : ∀ rest ∈ pageMark.tails, rest ≠ [] → ∀ ending ∈ transportEndings,
      ¬ rest <+: ending := by
    decide +kernel
  exact fun rest hsome hsuffix => hall rest ((List.mem_tails _ _).mpr hsuffix) hsome ending h

/-- A transport ending makes no page mark. -/
theorem dropPageMark_append_ending (h : ending ∈ transportEndings) (s : List Char) :
    dropPageMark (s ++ ending) = dropPageMark s ++ ending := by
  by_cases hpage : pageMark <+: s
  · obtain ⟨rest, rfl⟩ := hpage
    rw [List.append_assoc, dropPageMark_append, dropPageMark_append]
  · rw [dropPageMark_eq_self hpage, dropPageMark_eq_self
      (Text.not_prefix_append hpage (not_prefix_of_suffix_pageMark h))]

end PageMarks

section Audiences

/-- The text in front of the first audience mark. -/
def beforeAudience (entity : List Char) : List Char :=
  (Text.before? audienceMark entity).getD entity

/-- A text without an audience mark stays as it is. -/
theorem beforeAudience_eq_self (h : ¬ audienceMark <:+: entity) :
    beforeAudience entity = entity := by
  rw [beforeAudience, Text.before?_eq_none_iff.mpr h, Option.getD_none]

/-- What stands in front of an audience is a beginning. -/
theorem prefix_beforeAudience (entity : List Char) : beforeAudience entity <+: entity := by
  rw [beforeAudience]
  cases hfound : Text.before? audienceMark entity with
  | none => exact List.prefix_refl entity
  | some front =>
    exact (List.prefix_append _ _).trans (Text.before?_eq_some_iff.mp hfound).1

/-- No audience mark stands in front of the first one. -/
theorem not_infix_beforeAudience (entity : List Char) :
    ¬ audienceMark <:+: beforeAudience entity := by
  rw [beforeAudience]
  cases hfound : Text.before? audienceMark entity with
  | none => exact Text.before?_eq_none_iff.mp hfound
  | some front => exact Text.not_infix_of_before? (by decide +kernel) hfound

/-- Nothing that a transport ending begins with ends as the audience mark does. -/
theorem not_suffix_of_prefix_ending (h : ending ∈ transportEndings) :
    ∀ part, part ≠ [] → part <+: ending → ¬ part <:+ audienceMark ∧ ¬ audienceMark <:+ part := by
  have hall : ∀ ending ∈ transportEndings, ∀ part ∈ ending.inits, part ≠ [] →
      ¬ part <:+ audienceMark ∧ ¬ audienceMark <:+ part := by
    decide +kernel
  exact fun part hsome hbegins => hall ending h part ((List.mem_inits _ _).mpr hbegins) hsome

/-- A transport ending makes no audience mark, so it is behind the first one or stays. -/
theorem stripEndings_beforeAudience_append (h : ending ∈ transportEndings) (entity : List Char) :
    stripEndings transportEndings (beforeAudience (entity ++ ending)) =
      stripEndings transportEndings (beforeAudience entity) := by
  cases hfound : Text.before? audienceMark entity with
  | none =>
    have hnone : ¬ audienceMark <:+: entity := Text.before?_eq_none_iff.mp hfound
    have hseam := Text.not_infix_append hnone (not_suffix_of_prefix_ending h)
    rw [beforeAudience_eq_self hnone, beforeAudience_eq_self hseam,
      stripEndings_append exclusive_transportEndings h]
  | some front =>
    rw [beforeAudience, beforeAudience, hfound, Text.before?_append hfound, Option.getD_some,
      Option.getD_some]

end Audiences

section Stems

/-- A text without an audience mark and without a transport ending. -/
structure IsStem (s : List Char) : Prop where
  /-- No audience mark stands in the text. -/
  audience : ¬ audienceMark <:+: s
  /-- No transport ending stands at its end. -/
  endings : ∀ ending ∈ transportEndings, ¬ ending <:+ s

/-- What is left of a name is a beginning of what follows the page mark. -/
theorem prefix_stem (s : List Char) : stem s <+: dropPageMark s :=
  (prefix_stripEndings _ _).trans (prefix_beforeAudience _)

/-- What is left of a name has neither audience mark nor transport ending. -/
theorem isStem_stem (s : List Char) : IsStem (stem s) where
  audience := fun hmark => not_infix_beforeAudience (dropPageMark s)
    (hmark.trans (prefix_stripEndings _ _).isInfix)
  endings := not_suffix_stripEndings exclusive_transportEndings _

/-- What is left of a name begins with a page mark only if the name begins with two. -/
theorem not_pageMark_prefix_stem (h : ¬ pageMark ++ pageMark <+: s) : ¬ pageMark <+: stem s := by
  intro hstem
  have hentity : pageMark <+: dropPageMark s := hstem.trans (prefix_stem s)
  by_cases hpage : pageMark <+: s
  · obtain ⟨rest, rfl⟩ := hpage
    rw [dropPageMark_append] at hentity
    exact h ((List.prefix_append_right_inj pageMark).mpr hentity)
  · rw [dropPageMark_eq_self hpage] at hentity
    exact hpage hentity

/-- Nothing is stripped from what is left of a name. -/
theorem IsStem.stem_eq (h : IsStem s) (hpage : ¬ pageMark <+: s) : stem s = s := by
  change stripEndings transportEndings (beforeAudience (dropPageMark s)) = s
  rw [dropPageMark_eq_self hpage, beforeAudience_eq_self h.audience,
    stripEndings_eq_self h.endings]

/-- A transport ending behind a name changes nothing about what is left of it. -/
theorem stem_append (h : ending ∈ transportEndings) (s : List Char) :
    stem (s ++ ending) = stem s := by
  change stripEndings transportEndings (beforeAudience (dropPageMark (s ++ ending))) =
    stripEndings transportEndings (beforeAudience (dropPageMark s))
  rw [dropPageMark_append_ending h, stripEndings_beforeAudience_append h]

/-- Nor do any number of them. -/
theorem stem_append_flatten (h : ∀ ending ∈ more, ending ∈ transportEndings) (s : List Char) :
    stem (s ++ more.flatten) = stem s := by
  induction more generalizing s with
  | nil => rw [List.flatten_nil, List.append_nil]
  | cons ending more ih =>
    obtain ⟨hending, hmore⟩ := List.forall_mem_cons.mp h
    rw [List.flatten_cons, ← List.append_assoc, ih hmore, stem_append hending]

end Stems

section Names

/-- A name of which something is left is simplified to that. -/
theorem simplify_of_stem_ne_nil (h : stem name.toList ≠ []) :
    simplify name = String.ofList (stem name.toList) :=
  if_neg (mt List.isEmpty_iff.mp h)

/-- A name of which nothing is left stays as it is. -/
theorem simplify_of_stem_eq_nil (h : stem name.toList = []) : simplify name = name :=
  if_pos (List.isEmpty_iff.mpr h)

/-- Only a name without characters has a simple name without characters. -/
theorem toList_simplify_ne_nil (h : name ≠ "") : (simplify name).toList ≠ [] := by
  by_cases hstem : stem name.toList = []
  · rw [simplify_of_stem_eq_nil hstem]
    exact fun hnil => h (String.toList_eq_nil_iff.mp hnil)
  · rw [simplify_of_stem_ne_nil hstem, String.toList_ofList]
    exact hstem

end Names

/-- A simple name has characters, and nothing more to strip unless it is the name itself. It is its
own simple name unless the name begins with two page marks, and transport endings behind a name of
which something is left do not change it. -/
theorem simplify_normalizes (name : String) (hname : name ≠ "") :
    simplify name ≠ "" ∧
      (simplify name = name ∨ IsStem (simplify name).toList) ∧
      (¬ pageMark ++ pageMark <+: name.toList → simplify (simplify name) = simplify name) ∧
      (stem name.toList ≠ [] → ∀ endings : List (List Char),
        (∀ ending ∈ endings, ending ∈ transportEndings) →
          simplify (name ++ String.ofList endings.flatten) = simplify name) := by
  have hsome : simplify name ≠ "" := by
    intro hempty
    exact toList_simplify_ne_nil hname (String.toList_eq_nil_iff.mpr hempty)
  by_cases hstem : stem name.toList = []
  · have hsame : simplify name = name := simplify_of_stem_eq_nil hstem
    exact ⟨hsome, .inl hsame, fun _ => by rw [hsame, hsame], fun hleft => absurd hstem hleft⟩
  · have hsimple := simplify_of_stem_ne_nil hstem
    have hchars : (simplify name).toList = stem name.toList := by
      rw [hsimple, String.toList_ofList]
    refine ⟨hsome, .inr (hchars ▸ isStem_stem name.toList), ?_, ?_⟩
    · intro hpages
      have hagain : stem (simplify name).toList = stem name.toList := by
        rw [hchars, (isStem_stem _).stem_eq (not_pageMark_prefix_stem hpages)]
      rw [simplify_of_stem_ne_nil (hagain ▸ hstem), hagain, hsimple]
    · intro _ endings hendings
      have hlonger : stem (name ++ String.ofList endings.flatten).toList = stem name.toList := by
        rw [String.toList_append, String.toList_ofList, stem_append_flatten hendings]
      rw [simplify_of_stem_ne_nil (hlonger ▸ hstem), hlonger, hsimple]

/-- The page mark goes, the audience goes with all that follows it, and the ending that stood in
front of the audience goes as well as those that are put behind the name. -/
theorem simplify_normalizes_of_staffOrders :
    "PaginatedOrderRequestSerializerForStaff" ≠ "" ∧
      ¬ pageMark ++ pageMark <+: "PaginatedOrderRequestSerializerForStaff".toList ∧
      stem "PaginatedOrderRequestSerializerForStaff".toList ≠ [] ∧
      (∀ ending ∈ ["Serializer".toList, "Request".toList], ending ∈ transportEndings) ∧
      simplify "PaginatedOrderRequestSerializerForStaff" ≠ "" ∧
      (simplify "PaginatedOrderRequestSerializerForStaff" =
          "PaginatedOrderRequestSerializerForStaff" ∨
        IsStem (simplify "PaginatedOrderRequestSerializerForStaff").toList) ∧
      simplify (simplify "PaginatedOrderRequestSerializerForStaff") =
        simplify "PaginatedOrderRequestSerializerForStaff" ∧
      simplify ("PaginatedOrderRequestSerializerForStaff" ++
          String.ofList ["Serializer".toList, "Request".toList].flatten) =
        simplify "PaginatedOrderRequestSerializerForStaff" := by
  have hname : "PaginatedOrderRequestSerializerForStaff" ≠ "" := by decide
  have hpages :
      ¬ pageMark ++ pageMark <+: "PaginatedOrderRequestSerializerForStaff".toList := by
    decide +kernel
  have hleft : stem "PaginatedOrderRequestSerializerForStaff".toList ≠ [] := by decide +kernel
  have hendings : ∀ ending ∈ ["Serializer".toList, "Request".toList],
      ending ∈ transportEndings := by
    decide +kernel
  obtain ⟨hsome, hstem, hagain, hbehind⟩ := simplify_normalizes _ hname
  exact ⟨hname, hpages, hleft, hendings, hsome, hstem, hagain hpages, hbehind hleft _ hendings⟩

/-- Of two page marks only the first goes, and a name of which nothing would be left stays. -/
example : simplify "PaginatedPaginatedOrder" = "PaginatedOrder" ∧
    simplify "PaginatedRequestResponse" = "PaginatedRequestResponse" := by
  decide +kernel

end TypedApi.Naming
