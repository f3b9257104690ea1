import TypedApi.Proofs.Path.Components
import TypedApi.Proofs.Storage.Writing

/-!
# Which files are refused

The rule for the paths of files is about their segments: a path must be relative and must not have a
segment of one or two points. The check looks at the steps of a path instead, and a point behind the
first segment is no step. A pass over files is therefore refused for all that the rule forbids but
such points.
-/

namespace TypedApi

namespace Path

variable {path : String}

/-- A path is not that of a file below a directory, written plainly: it is empty or absolute, or one
of its segments is a point or two points. -/
def Unfit (path : String) : Prop :=
  path = "" ∨ isAbsolute path = true ∨ "." ∈ segments path ∨ ".." ∈ segments path

/-- A path is not plain exactly if it is empty or absolute, begins with a point, or steps up. -/
theorem isPlain_eq_false_iff :
    isPlain path = false ↔
      path = "" ∨ isAbsolute path = true ∨ (segments path).head? = some "." ∨
        ".." ∈ segments path := by
  obtain ⟨first, rest, hsegments⟩ := List.exists_cons_of_ne_nil (segments_ne_nil path)
  have hempty : first = "" ↔ path = "" ∨ isAbsolute path = true := by
    rw [← head?_segments_eq_empty_iff, hsegments, List.head?_cons, Option.some.injEq]
  have hpoint : (segments path).head? = some "." ↔ first = "." := by
    rw [hsegments, List.head?_cons, Option.some.injEq]
  have hplain : isPlain path = false ↔ (first = "" ∨ first = ".") ∨ ".." ∈ segments path := by
    simp only [isPlain, isIdle, hsegments, Bool.and_eq_false_iff, Bool.not_eq_false',
      Bool.or_eq_true, beq_iff_eq, List.contains_eq_mem, decide_eq_true_eq]
  rw [hplain, hempty, hpoint, or_assoc, or_assoc]

/-- A path is unfit exactly if it is not plain or has a point among its segments. -/
theorem unfit_iff : Unfit path ↔ isPlain path = false ∨ "." ∈ segments path := by
  rw [isPlain_eq_false_iff, Unfit]
  constructor
  · rintro (hempty | habsolute | hpoint | hup)
    · exact .inl (.inl hempty)
    · exact .inl (.inr (.inl habsolute))
    · exact .inr hpoint
    · exact .inl (.inr (.inr (.inr hup)))
  · rintro ((hempty | habsolute | hpoint | hup) | hpoint)
    · exact .inl hempty
    · exact .inr (.inl habsolute)
    · exact .inr (.inr (.inl (List.mem_of_head? hpoint)))
    · exact .inr (.inr (.inr hup))
    · exact .inr (.inr (.inl hpoint))

end Path

namespace FileSystem

variable {files : FileSystem} {root : String} {map : NameMap String}

/-- A pass over files fails for a path exactly if the path of some file is not plain. -/
theorem perform_writeFiles_outputPath_iff :
    (∃ path, (files.perform (storage.writeFiles root map)).1 = .error (.outputPath path)) ↔
      ∃ path ∈ map.names, Path.isPlain path = false := by
  constructor
  · rintro ⟨path, hfails⟩
    by_contra hnone
    have hplain : ∀ path ∈ map.names, Path.isPlain path = true := by
      intro path hpath
      rw [← Bool.not_eq_false]
      exact fun hrefused => hnone ⟨path, hpath, hrefused⟩
    rw [writeFiles_of_isPlain hplain] at hfails
    obtain ⟨other, hother⟩ := foldlM_writeFile_error (Prod.ext hfails rfl)
    cases hother
  · rintro ⟨path, hpath, hrefused⟩
    cases hfirst : map.names.find? fun path => !Path.isPlain path with
    | none =>
      have hplain := List.find?_eq_none.mp hfirst path hpath
      rw [hrefused] at hplain
      exact absurd rfl hplain
    | some first =>
      refine ⟨first, ?_⟩
      rw [Storage.writeFiles, hfirst]
      rfl

/-- A pass over files checks their paths by the rule. -/
structure Vets (files : FileSystem) (root : String) (map : NameMap String) : Prop where
  /-- It fails for a path exactly if some path is unfit. -/
  refused : (∃ path, (files.perform (storage.writeFiles root map)).1 = .error (.outputPath path)) ↔
    ∃ path ∈ map.names, Path.Unfit path
  /-- Otherwise the files are written one by one. -/
  passed : (∀ path ∈ map.names, ¬ Path.Unfit path) →
    storage.writeFiles root map = map.entries.foldlM (storage.writeFile root) {}

/-- The rule is kept exactly if some path is refused for another reason than a point behind its first
segment, or no path has a point among its segments. -/
theorem vets_iff (files : FileSystem) (root : String) (map : NameMap String) :
    Vets files root map ↔
      (∃ path ∈ map.names, path = "" ∨ Path.isAbsolute path = true ∨
        (Path.segments path).head? = some "." ∨ ".." ∈ Path.segments path) ∨
      ∀ path ∈ map.names, "." ∉ Path.segments path := by
  simp only [← Path.isPlain_eq_false_iff]
  constructor
  · intro h
    by_cases hrefused : ∃ path ∈ map.names, Path.isPlain path = false
    · exact .inl hrefused
    · refine .inr fun path hpath hpoint => hrefused ?_
      exact perform_writeFiles_outputPath_iff.mp
        (h.refused.mpr ⟨path, hpath, Path.unfit_iff.mpr (.inr hpoint)⟩)
  · intro h
    refine ⟨?_, fun hfit => writeFiles_of_isPlain fun path hpath => ?_⟩
    · rw [perform_writeFiles_outputPath_iff]
      constructor
      · rintro ⟨path, hpath, hrefused⟩
        exact ⟨path, hpath, Path.unfit_iff.mpr (.inl hrefused)⟩
      · rintro ⟨path, hpath, hunfit⟩
        rcases h with hrefused | hnone
        · exact hrefused
        · exact ⟨path, hpath, (Path.unfit_iff.mp hunfit).resolve_right (hnone path hpath)⟩
    · rw [← Bool.not_eq_false]
      exact fun hrefused => hfit path hpath (Path.unfit_iff.mpr (.inl hrefused))

/-- A file whose path has a point behind its first segment. -/
def pointedFile : NameMap String := .ofList [("a/./b.ts", "x")]

/-- The file is written although its path is unfit. -/
theorem pointedFile_passes :
    (∃ path ∈ pointedFile.names, Path.Unfit path) ∧
      (∃ after, (FileSystem.mk [] []).perform (storage.writeFiles "out" pointedFile) =
        (.ok ⟨1, 0⟩, after)) ∧
      ¬ Vets ⟨[], []⟩ "out" pointedFile := by
  have hunfit : ∃ path ∈ pointedFile.names, Path.Unfit path :=
    ⟨"a/./b.ts", by decide, .inr (.inr (.inl (by decide)))⟩
  have hanswer : ((FileSystem.mk [] []).perform
      (storage.writeFiles "out" pointedFile)).1.toOption = some ⟨1, 0⟩ := by
    decide +kernel
  have hpass := perform_eq_ok hanswer
  refine ⟨hunfit, ⟨_, hpass⟩, fun h => ?_⟩
  obtain ⟨path, hfails⟩ := h.refused.mpr hunfit
  rw [hpass] at hfails
  cases hfails

end FileSystem

end TypedApi
