import TypedApi.TypeScript.Printer

/-!
# What other files may import

A file exports the types it defines, and the constants and functions that are marked as exported.
Each of these names stands behind the word `export` at the beginning of a line of the file's text.
-/

namespace TypedApi

namespace Text

/-- A text goes on at the beginning of a line with the given words. -/
def HasLine (text words : String) : Prop :=
  ∃ before after, text = before ++ words ++ after ∧ (before = "" ∨ ∃ lines, before = lines ++ "\n")

variable {text words : String}

/-- A text begins with a line of its own. -/
theorem hasLine_append (words after : String) : HasLine (words ++ after) words :=
  ⟨"", after, by simp, .inl rfl⟩

/-- Lines in front do not disturb a line. -/
theorem HasLine.prepend (h : HasLine text words) (lines : String) :
    HasLine (lines ++ "\n" ++ text) words := by
  obtain ⟨before, after, rfl, hbefore⟩ := h
  refine ⟨lines ++ "\n" ++ before, after, by simp [String.append_assoc], .inr ?_⟩
  rcases hbefore with rfl | ⟨more, rfl⟩
  · exact ⟨lines, by simp⟩
  · exact ⟨lines ++ "\n" ++ more, by simp [String.append_assoc]⟩

/-- A text behind does not disturb a line. -/
theorem HasLine.append (h : HasLine text words) (more : String) : HasLine (text ++ more) words := by
  obtain ⟨before, after, rfl, hbefore⟩ := h
  exact ⟨before, after ++ more, by simp [String.append_assoc], hbefore⟩

/-- A line of a piece is one of the pieces joined by line feeds. -/
theorem hasLine_joinWith {pieces : List String} {piece : String} (hpiece : piece ∈ pieces)
    (h : HasLine piece words) : HasLine (joinWith "\n" pieces) words := by
  induction pieces with
  | nil => cases hpiece
  | cons first rest ih =>
    cases rest with
    | nil =>
      rw [List.mem_singleton.mp hpiece] at h
      exact h
    | cons next rest =>
      rw [joinWith]
      rcases List.mem_cons.mp hpiece with rfl | hpiece
      · rw [String.append_assoc]
        exact h.append _
      · exact (ih hpiece).prepend first

end Text

namespace TypeScript

open Text (HasLine hasLine_append hasLine_joinWith)

namespace SourceFile

/-- The types that other files may import. -/
def exportedTypes (file : SourceFile) : List String :=
  file.definitions.map (·.name)

/-- The constants and functions that other files may import. -/
def exportedValues (file : SourceFile) : List String :=
  file.statements.filterMap (fun statement =>
      match statement with
      | .constant name _ true => some name
      | _ => none) ++
    (file.functions.filter (·.exported)).map (·.name)

/-- The names that an import of types only, or one of values, may ask for. -/
def exports (file : SourceFile) (typeOnly : Bool) : List String :=
  if typeOnly then file.exportedTypes else file.exportedValues

end SourceFile

/-- How a declaration that exports a name may begin. -/
def declarations (name : String) : List String :=
  ["export interface " ++ name ++ " \x7b", "export type " ++ name ++ " = ",
    "export const " ++ name ++ " = ", "export function " ++ name ++ "("]

/-- A line of a text begins to declare a name for export. -/
def Declares (text name : String) : Prop :=
  ∃ declaration ∈ declarations name, HasLine text declaration

variable {name : String}

/-- A comment is empty, or ends a line. -/
theorem docComment_eq (doc : Option String) :
    docCommentOf doc "" = "" ∨ ∃ lines, docCommentOf doc "" = lines ++ "\n" := by
  cases doc with
  | none => exact .inl rfl
  | some text =>
    have hend : " */\n" = " */" ++ "\n" := by decide
    rw [docCommentOf, docComment]
    split
    · exact .inl rfl
    · rw [hend, ← String.append_assoc]
      exact .inr ⟨_, rfl⟩
    · rw [hend, ← String.append_assoc]
      exact .inr ⟨_, rfl⟩

/-- A type definition declares its name. -/
theorem declares_definition (definition : Definition) :
    Declares definition.text definition.name := by
  have hbody : ∀ rest, Declares rest definition.name →
      Declares (docCommentOf definition.doc "" ++ rest) definition.name := by
    rintro rest ⟨declaration, hdeclaration, hline⟩
    refine ⟨declaration, hdeclaration, ?_⟩
    rcases docComment_eq definition.doc with hempty | ⟨lines, hlines⟩
    · rw [hempty, String.empty_append]
      exact hline
    · rw [hlines]
      exact hline.prepend lines
  refine hbody _ ?_
  cases definition.body with
  | interface members =>
    exact ⟨_, List.mem_cons_self, (hasLine_append _ _).append _⟩
  | contract methods =>
    have hbrace : " \x7b\n" = " \x7b" ++ "\n" := by decide
    refine ⟨_, List.mem_cons_self, ?_⟩
    rw [hbrace, ← String.append_assoc]
    exact ((hasLine_append _ _).append _).append _
  | «alias» type =>
    exact ⟨_, List.mem_cons_of_mem _ List.mem_cons_self, (hasLine_append _ _).append _⟩

/-- An exported constant declares its name. -/
theorem declares_constant (name : String) (value : Expr) :
    Declares (Statement.textAt 0 (.constant name value true)) name := by
  have hstart : Text.times 0 indentUnit ++ (if true = true then "export " else "") ++ "const " =
      "export const " := by decide
  refine ⟨"export const " ++ name ++ " = ", by simp [declarations], ?_⟩
  rw [Statement.textAt, hstart]
  exact (hasLine_append _ _).append _

/-- An exported function declares its name. -/
theorem declares_function {function : Function} (h : function.exported = true) :
    Declares function.text function.name := by
  have hstart : (if true = true then "export " else "") ++ "function " = "export function " := by
    decide
  refine ⟨"export function " ++ function.name ++ "(", by simp [declarations], ?_⟩
  rw [Function.text, h, hstart]
  exact (((((hasLine_append _ _).append _).append _).append _).append _).append _

/-- What a file exports is declared in its text. -/
theorem SourceFile.declares_of_mem_exports {file : SourceFile} {typeOnly : Bool}
    (h : name ∈ file.exports typeOnly) : Declares file.text name := by
  have hpiece : ∃ piece, (piece ∈ file.definitions.map Definition.text ∨
      piece ∈ file.statements.map (Statement.textAt 0) ∨
        piece ∈ file.functions.map Function.text) ∧ Declares piece name := by
    have hnames : name ∈ file.exportedTypes ∨ name ∈ file.exportedValues := by
      cases typeOnly with
      | true => exact .inl h
      | false => exact .inr h
    rw [exportedTypes, exportedValues, List.mem_append] at hnames
    rcases hnames with h | h | h
    · obtain ⟨definition, hdefinition, rfl⟩ := List.mem_map.mp h
      exact ⟨_, .inl (List.mem_map_of_mem hdefinition), declares_definition definition⟩
    · obtain ⟨statement, hstatement, hname⟩ := List.mem_filterMap.mp h
      split at hname
      · rename_i declared value
        obtain rfl := Option.some.inj hname
        exact ⟨_, .inr (.inl (List.mem_map_of_mem hstatement)), declares_constant declared value⟩
      · cases hname
    · obtain ⟨function, hfunction, rfl⟩ := List.mem_map.mp h
      obtain ⟨hfunction, hexported⟩ := List.mem_filter.mp hfunction
      exact ⟨_, .inr (.inr (List.mem_map_of_mem hfunction)), declares_function hexported⟩
  obtain ⟨piece, hpiece, declaration, hdeclaration, hline⟩ := hpiece
  refine ⟨declaration, hdeclaration, hasLine_joinWith ?_ hline⟩
  simp only [List.mem_append]
  rcases hpiece with hpiece | hpiece | hpiece
  · exact .inl (.inl (.inr hpiece))
  · exact .inl (.inr hpiece)
  · exact .inr hpiece

end TypeScript

end TypedApi
