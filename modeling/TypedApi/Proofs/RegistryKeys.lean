import TypedApi.Proofs.Marks
import TypedApi.Proofs.ModuleNames

/-!
# Registry keys keep their shape

A registry key is written in reverse, and an underscore goes in front of a word at two places: where
a capital follows a small letter or digit, and where other characters stand between two words. The
scan remembers a small letter or digit no longer than it is the last to be written, so an underscore
never meets another one. Every letter and digit is written, as a capital, and beside these nothing
but underscores is.
-/

namespace TypedApi.Naming

variable {s key : List Char} {c : Char} {afterSmall : Bool}

/-- A capital, a digit or an underscore. -/
def IsKeyChar (c : Char) : Prop := c.isUpper = true ∨ c.isDigit = true ∨ c = '_'

/-- A text in the shape of a registry key: capitals and digits, with single underscores between
them. -/
structure IsKey (key : List Char) : Prop where
  /-- Nothing stands in the key but capitals, digits and underscores. -/
  chars : ∀ c ∈ key, IsKeyChar c
  /-- No underscore comes first. -/
  start : key.head? ≠ some '_'
  /-- No underscore comes last. -/
  finish : key.getLast? ≠ some '_'
  /-- No underscore follows another one. -/
  single : ¬ ['_', '_'] <:+: key

/-- Two neighbours that are not both underscores. -/
def Spaced (a b : Char) : Prop := ¬ (a = '_' ∧ b = '_')

/-- What holds of a key in reverse while it is written. -/
structure Written (key : List Char) (afterSmall : Bool) : Prop where
  /-- Nothing has been written but capitals, digits and underscores. -/
  chars : ∀ c ∈ key, IsKeyChar c
  /-- No underscore has been written next to another one. -/
  spaced : key.IsChain Spaced
  /-- Where a small letter or digit was the last to be read, no underscore was the last to be
  written. -/
  small : afterSmall = true → key.head? ≠ some '_'

section Letters

/-- Capitals of letters and digits are capitals or digits. -/
theorem isUpper_or_isDigit_toUpper (h : c.isAlphanum = true) :
    c.toUpper.isUpper = true ∨ c.toUpper.isDigit = true :=
  of_isAlphanum
    (P := fun c => c.isAlphanum = true → c.toUpper.isUpper = true ∨ c.toUpper.isDigit = true)
    (by decide +kernel) h h

/-- Capitals of letters and digits are no underscores. -/
theorem toUpper_ne_underscore (h : c.isAlphanum = true) : c.toUpper ≠ '_' :=
  ne_underscore (isAlphanum_toUpper h)

end Letters

section Steps

/-- What is written stays in shape when it is no longer known what was read last. -/
theorem Written.unflagged (h : Written key afterSmall) : Written key false where
  chars := h.chars
  spaced := h.spaced
  small := nofun

/-- An underscore may be written behind anything but an underscore. -/
theorem Written.underscore (h : Written key afterSmall) (hhead : key.head? ≠ some '_') :
    Written ('_' :: key) false where
  chars := List.forall_mem_cons.mpr ⟨.inr (.inr rfl), h.chars⟩
  spaced := by
    refine List.isChain_cons.mpr ⟨?_, h.spaced⟩
    rintro d hd ⟨-, rfl⟩
    exact hhead hd
  small := nofun

/-- A letter or digit may always be written as a capital. -/
theorem Written.capital (h : Written key afterSmall) (hc : c.isAlphanum = true)
    (afterSmall' : Bool) : Written (c.toUpper :: key) afterSmall' where
  chars := List.forall_mem_cons.mpr ⟨(isUpper_or_isDigit_toUpper hc).imp_right .inl, h.chars⟩
  spaced := List.isChain_cons.mpr ⟨fun _ _ hboth => toUpper_ne_underscore hc hboth.1, h.spaced⟩
  small := fun _ hhead => toUpper_ne_underscore hc (Option.some.inj hhead)

end Steps

section Runs

/-- Reading a text to its end keeps the shape of what is written. -/
theorem written_upperSnakeOnto (h : Written key afterSmall) :
    Written (upperSnakeOnto key afterSmall s) false := by
  induction s generalizing key afterSmall with
  | nil => exact h.unflagged
  | cons c rest ih =>
    rw [upperSnakeOnto]
    by_cases hc : c.isAlphanum = true
    · -- No test on the key goes before the underscore of a capital: the flag alone allows it.
      rw [if_pos hc]
      by_cases hword : (c.isUpper && afterSmall) = true
      · have hsmall : afterSmall = true := (Bool.and_eq_true_iff.mp hword).2
        rw [if_pos hword]
        exact ih ((h.underscore (h.small hsmall)).capital hc _)
      · rw [if_neg hword]
        exact ih (h.capital hc _)
    · rw [if_neg hc]
      by_cases hparted : (key.isEmpty || key.head? == some '_') = true
      · rw [if_pos hparted]
        exact ih h.unflagged
      · have hhead : key.head? ≠ some '_' := by
          intro hhead
          exact hparted (by simp [hhead])
        rw [if_neg hparted]
        exact ih (h.underscore hhead)

/-- What is written of a key stays at its front. -/
theorem suffix_upperSnakeOnto (s key : List Char) (afterSmall : Bool) :
    key <:+ upperSnakeOnto key afterSmall s := by
  induction s generalizing key afterSmall with
  | nil => exact List.suffix_refl key
  | cons c rest ih =>
    rw [upperSnakeOnto]
    split
    · refine List.IsSuffix.trans ?_ (ih _ _)
      refine List.IsSuffix.trans ?_ (List.suffix_cons _ _)
      split
      · exact List.suffix_cons _ _
      · exact List.suffix_refl key
    · refine List.IsSuffix.trans ?_ (ih _ _)
      split
      · exact List.suffix_refl key
      · exact List.suffix_cons _ _

/-- Beside underscores, a key gets the capitals of the letters and digits that are read. -/
theorem filter_upperSnakeOnto (s key : List Char) (afterSmall : Bool) :
    (upperSnakeOnto key afterSmall s).filter (· != '_') =
      ((s.filter Char.isAlphanum).map Char.toUpper).reverse ++ key.filter (· != '_') := by
  induction s generalizing key afterSmall with
  | nil => rfl
  | cons c rest ih =>
    have hunderscore : ('_' :: key).filter (· != '_') = key.filter (· != '_') := rfl
    rw [upperSnakeOnto]
    by_cases hc : c.isAlphanum = true
    · have hcapital : (c.toUpper != '_') = true := bne_iff_ne.mpr (toUpper_ne_underscore hc)
      rw [if_pos hc, ih, List.filter_cons_of_pos (p := (· != '_')) hcapital,
        apply_ite (List.filter (· != '_')), hunderscore, ite_self, List.filter_cons_of_pos hc,
        List.map_cons, List.reverse_cons, List.append_assoc, List.singleton_append]
    · rw [if_neg hc, ih, apply_ite (List.filter (· != '_')), hunderscore, ite_self,
        List.filter_cons_of_neg hc]

end Runs

section Keys

/-- Underscores at the front do not count where underscores are left out. -/
theorem filter_dropWhile_underscore (key : List Char) :
    (key.dropWhile (· == '_')).filter (· != '_') = key.filter (· != '_') := by
  have hfront : (key.takeWhile (· == '_')).filter (· != '_') = [] := by
    rw [List.filter_eq_nil_iff]
    intro c hc
    have hunderscore : (c == '_') = true := List.all_eq_true.mp List.all_takeWhile c hc
    simp [beq_iff_eq.mp hunderscore]
  conv_rhs => rw [← List.takeWhile_append_dropWhile (p := (· == '_')) (l := key),
    List.filter_append, hfront, List.nil_append]

/-- A registry key begins with the first letter or digit, as a capital. -/
theorem head?_upperSnakeChars (s : List Char) :
    (upperSnakeChars s).head? = (s.find? Char.isAlphanum).map Char.toUpper := by
  induction s with
  | nil => rfl
  | cons c rest ih =>
    by_cases hc : c.isAlphanum = true
    · -- The key is made in reverse, so that its first character is at the end from here on.
      obtain ⟨more, hmore⟩ :=
        suffix_upperSnakeOnto rest [c.toUpper] (c.isLower || c.isDigit)
      have hstart : upperSnakeOnto [] false (c :: rest) = more ++ [c.toUpper] := by
        rw [hmore, upperSnakeOnto, if_pos hc, Bool.and_false, if_neg Bool.false_ne_true]
      have hcapital := toUpper_ne_underscore hc
      rw [List.find?_cons_of_pos hc, upperSnakeChars, hstart, List.dropWhile_append]
      split <;> simp [hcapital]
    · have hskip : upperSnakeOnto [] false (c :: rest) = upperSnakeOnto [] false rest := by
        rw [upperSnakeOnto, if_neg hc]
        rfl
      rw [List.find?_cons_of_neg hc, ← ih, upperSnakeChars, hskip, ← upperSnakeChars]

/-- What is made of a text has the shape of a key. -/
theorem isKey_upperSnakeChars (s : List Char) : IsKey (upperSnakeChars s) := by
  have hempty : Written [] false := ⟨List.forall_mem_nil _, List.isChain_nil, nofun⟩
  have hwritten : Written (upperSnakeOnto [] false s) false := written_upperSnakeOnto hempty
  have hsuffix := List.dropWhile_suffix (l := upperSnakeOnto [] false s) (· == '_')
  have hlast := List.head?_dropWhile_not (· == '_') (upperSnakeOnto [] false s)
  constructor
  · intro c hc
    exact hwritten.chars c (hsuffix.subset (List.mem_reverse.mp hc))
  · rw [head?_upperSnakeChars]
    intro hstart
    obtain ⟨c, hc, hcapital⟩ := Option.map_eq_some_iff.mp hstart
    exact toUpper_ne_underscore (List.find?_some hc) hcapital
  · rw [upperSnakeChars, List.getLast?_reverse]
    intro hfinish
    rw [hfinish] at hlast
    exact absurd hlast (by decide)
  · -- Neighbours are neighbours from either side.
    have hreverse : (upperSnakeChars s).IsChain fun a b => Spaced b a := by
      rw [upperSnakeChars, List.isChain_reverse]
      exact hwritten.spaced.suffix hsuffix
    exact Text.isChain_iff_not_infix.mp (hreverse.imp fun a b hspaced hboth => hspaced hboth.symm)

/-- A key without its underscores is made of the letters and digits of its text. -/
theorem filter_upperSnakeChars (s : List Char) :
    (upperSnakeChars s).filter (· != '_') = (s.filter Char.isAlphanum).map Char.toUpper := by
  rw [upperSnakeChars, List.filter_reverse, filter_dropWhile_underscore, filter_upperSnakeOnto,
    List.filter_nil, List.append_nil, List.reverse_reverse]

end Keys

/-- Every text becomes a registry key: capitals and digits with single underscores between them, and
without these the capitals of all letters and digits of the text in their order. -/
theorem upperSnake_shapes (s : String) :
    IsKey (upperSnake s).toList ∧
      (upperSnake s).toList.filter (· != '_') =
        (s.toList.filter Char.isAlphanum).map Char.toUpper := by
  rw [upperSnake, String.toList_ofList]
  exact ⟨isKey_upperSnakeChars s.toList, filter_upperSnakeChars s.toList⟩

/-- A digit starts no word, and a capital behind one does; letters of other scripts part words. -/
example : upperSnake "__v2Lists--ABCé_d_" = "V2_LISTS_ABC_D" := by
  decide +kernel

end TypedApi.Naming
