import Mathlib.Data.List.Chain
import Mathlib.Data.List.Infix
import TypedApi.Text.Basic

/-!
# Marks in texts

The search for a mark finds its first place in a text. What is put behind the text does not move
that place, and makes no mark across the seam unless some beginning of it ends as the mark does.
-/

namespace TypedApi.Text

variable {α : Type} {mark s t front : List α} {a b : α}

/-- Two characters never stand side by side exactly if both in one are no mark in the text. -/
theorem isChain_iff_not_infix :
    s.IsChain (fun x y => ¬ (x = a ∧ y = b)) ↔ ¬ [a, b] <:+: s := by
  rw [List.isChain_iff_forall_rel_of_append_cons_cons]
  constructor
  · rintro h ⟨before, after, hs⟩
    have hpair : s = before ++ a :: b :: after := by simp [← hs]
    exact h hpair ⟨rfl, rfl⟩
  · rintro h x y before after rfl ⟨rfl, rfl⟩
    exact h ⟨before, after, by simp⟩

section Seams

/-- A mark that does not begin a text begins no longer one either, if what the text may hold of it
is not followed by the rest. -/
theorem not_prefix_append (h : ¬ mark <+: s)
    (hseam : ∀ rest, rest ≠ [] → rest <:+ mark → ¬ rest <+: t) : ¬ mark <+: s ++ t := by
  rintro ⟨after, hsplit⟩
  rcases List.append_eq_append_iff.mp hsplit with ⟨more, hs, -⟩ | ⟨rest, hmark, ht⟩
  · exact h ⟨more, hs.symm⟩
  · have hrest : rest ≠ [] := by
      rintro rfl
      exact h (by simp [hmark])
    exact hseam rest hrest ⟨s, hmark.symm⟩ ⟨after, ht.symm⟩

/-- A mark that does not stand in a text does not stand across its end either, if no beginning of
what follows ends as the mark does. -/
theorem not_infix_append (h : ¬ mark <:+: s)
    (hseam : ∀ part, part ≠ [] → part <+: t → ¬ part <:+ mark ∧ ¬ mark <:+ part) :
    ¬ mark <:+: s ++ t := by
  rintro ⟨before, after, hsplit⟩
  rcases List.append_eq_append_iff.mp hsplit with ⟨more, hs, -⟩ | ⟨part, hfront, ht⟩
  · exact h ⟨before, more, hs.symm⟩
  · have hpart : part ≠ [] := by
      rintro rfl
      exact h ⟨before, [], by simpa using hfront⟩
    obtain ⟨hinside, haround⟩ := hseam part hpart ⟨after, ht.symm⟩
    have hend : part <:+ before ++ mark := hfront ▸ List.suffix_append s part
    rcases List.suffix_or_suffix_of_suffix hend (List.suffix_append before mark) with hend | hend
    · exact hinside hend
    · exact haround hend

end Seams

section Search

variable [BEq α] [LawfulBEq α]

/-- A mark is not found exactly if it does not stand in the text. -/
theorem before?_eq_none_iff : before? mark s = none ↔ ¬ mark <:+: s := by
  induction s with
  | nil => simp [before?]
  | cons c rest ih =>
    rw [before?, List.infix_cons_iff, not_or, ← ih]
    split
    · rename_i hfound
      simp [List.isPrefixOf_iff_prefix.mp hfound]
    · rename_i hother
      rw [Option.map_eq_none_iff]
      exact ⟨fun hnone => ⟨mt List.isPrefixOf_iff_prefix.mpr hother, hnone⟩, fun hnone => hnone.2⟩

/-- What is found stands in front of the first mark. -/
theorem before?_eq_some_iff : before? mark s = some front ↔
    front ++ mark <+: s ∧ ∀ other, other ++ mark <+: s → front.length ≤ other.length := by
  induction s generalizing front with
  | nil =>
    cases mark <;> simp [before?, eq_comm]
  | cons c rest ih =>
    rw [before?]
    split
    · rename_i hfound
      have hmark : mark <+: c :: rest := List.isPrefixOf_iff_prefix.mp hfound
      constructor
      · rintro ⟨⟩
        exact ⟨hmark, fun other _ => Nat.zero_le _⟩
      · rintro ⟨-, hfirst⟩
        have hlength := hfirst [] hmark
        rw [List.length_eq_zero_iff.mp (Nat.le_zero.mp hlength)]
    · rename_i hother
      have hmark : ¬ mark <+: c :: rest := mt List.isPrefixOf_iff_prefix.mpr hother
      rw [Option.map_eq_some_iff]
      constructor
      · rintro ⟨front, hfront, rfl⟩
        obtain ⟨hbegins, hfirst⟩ := ih.mp hfront
        refine ⟨List.cons_prefix_cons.mpr ⟨rfl, hbegins⟩, ?_⟩
        intro other hoccurs
        cases other with
        | nil => exact absurd hoccurs hmark
        | cons d other => exact Nat.succ_le_succ (hfirst other (List.cons_prefix_cons.mp hoccurs).2)
      · rintro ⟨hbegins, hfirst⟩
        cases front with
        | nil => exact absurd hbegins hmark
        | cons d front =>
          obtain ⟨rfl, hfront⟩ := List.cons_prefix_cons.mp hbegins
          refine ⟨front, ih.mpr ⟨hfront, fun other hoccurs => ?_⟩, rfl⟩
          exact Nat.le_of_succ_le_succ
            (hfirst (d :: other) (List.cons_prefix_cons.mpr ⟨rfl, hoccurs⟩))

/-- No mark stands in front of the first one. -/
theorem not_infix_of_before? (hmark : mark ≠ []) (h : before? mark s = some front) :
    ¬ mark <:+: front := by
  obtain ⟨hbegins, hfirst⟩ := before?_eq_some_iff.mp h
  rintro ⟨before, after, rfl⟩
  have hearlier : before ++ mark <+: s :=
    (List.prefix_append _ after).trans ((List.prefix_append _ mark).trans hbegins)
  have hlength := hfirst before hearlier
  have hsome := List.length_pos_of_ne_nil hmark
  simp only [List.length_append] at hlength
  omega

/-- What follows a text does not change which mark is the first. -/
theorem before?_append (h : before? mark s = some front) (t : List α) :
    before? mark (s ++ t) = some front := by
  obtain ⟨hbegins, hfirst⟩ := before?_eq_some_iff.mp h
  rw [before?_eq_some_iff]
  refine ⟨List.prefix_append_of_prefix hbegins, ?_⟩
  intro other hoccurs
  -- A mark that begins earlier than the first one of the text ends inside the text.
  by_contra hshorter
  have hinside : (other ++ mark).length ≤ s.length := by
    have hlength := hbegins.length_le
    simp only [List.length_append] at hlength ⊢
    omega
  have hother := List.prefix_of_prefix_length_le hoccurs (List.prefix_append s t) hinside
  exact hshorter (hfirst other hother)

end Search

end TypedApi.Text
