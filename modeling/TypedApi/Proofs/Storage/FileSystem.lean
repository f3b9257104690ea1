import TypedApi.Storage.FileSystem

/-!
# What stays in a file system

Making directories fills places where nothing is, and writing a file changes the one place that its
path leads to. Neither touches a directory that is there, so whatever path could be followed can be
followed afterwards, and leads to the same place.
-/

namespace TypedApi.FileSystem

variable {files before middle after : FileSystem} {location other : Location} {node : FileNode}
  {path content : String} {segments : List String} {touched : Location → Prop}

section Places

/-- Leaving out the entries of one location leaves what is stored at the others. -/
theorem lookup_filter_ne (hother : other ≠ location) (nodes : List (Location × FileNode)) :
    (nodes.filter fun entry => entry.1 != location).lookup other = nodes.lookup other := by
  induction nodes with
  | nil => rfl
  | cons entry rest ih =>
    obtain ⟨held, node⟩ := entry
    by_cases hheld : held = location
    · have hbeq : (other == held) = false := beq_eq_false_iff_ne.mpr (hheld ▸ hother)
      rw [List.filter_cons_of_neg (by simpa using hheld), ih, List.lookup_cons, hbeq]
    · rw [List.filter_cons_of_pos (by simpa using hheld), List.lookup_cons, List.lookup_cons, ih]

/-- What is put at a location is there, and everything else is where it was; the outermost
directory stays whatever is put in its place. -/
theorem find?_put (files : FileSystem) (location other : Location) (node : FileNode) :
    (files.put location node).find? other =
      if other = [] then some .directory
      else if other = location then some node else files.find? other := by
  rw [find?, put]
  split
  · rfl
  · rename_i hinner
    rw [List.lookup_cons]
    by_cases hsame : other = location
    · simp [hsame]
    · have hbeq : (other == location) = false := beq_eq_false_iff_ne.mpr hsame
      rw [hbeq, lookup_filter_ne hsame, if_neg hsame, find?, if_neg hinner]

/-- A location other than the outermost one is changed by what is put there. -/
theorem find?_put_self (hinner : location ≠ []) :
    (files.put location node).find? location = some node := by
  rw [find?_put, if_neg hinner, if_pos rfl]

/-- The outermost directory is there. -/
theorem isDirectory_nil (files : FileSystem) : files.isDirectory [] = true := by
  rw [isDirectory, find?, if_pos rfl]
  rfl

/-- Only the outermost location is always a directory. -/
theorem ne_nil_of_isDirectory_eq_false (h : files.isDirectory location = false) :
    location ≠ [] := by
  rintro rfl
  rw [isDirectory_nil] at h
  cases h

end Places

section Changes

/-- Directories may have appeared where nothing was, and texts at touched locations where no
directory was; nothing else has changed. -/
structure ChangesOnly (touched : Location → Prop) (before after : FileSystem) : Prop where
  working : after.working = before.working
  node : ∀ location, after.find? location = before.find? location ∨
    (before.find? location = none ∧ after.find? location = some .directory) ∨
    (touched location ∧ before.isDirectory location = false ∧
      ∃ content, after.find? location = some (.text content))

theorem ChangesOnly.refl (touched : Location → Prop) (files : FileSystem) :
    ChangesOnly touched files files :=
  ⟨rfl, fun _ => .inl rfl⟩

/-- More locations may be touched. -/
theorem ChangesOnly.mono (h : ChangesOnly touched before after) {more : Location → Prop}
    (hmore : ∀ location, touched location → more location) : ChangesOnly more before after := by
  refine ⟨h.working, fun location => ?_⟩
  rcases h.node location with hsame | hmade | ⟨htouched, hwritten⟩
  · exact .inl hsame
  · exact .inr (.inl hmade)
  · exact .inr (.inr ⟨hmore location htouched, hwritten⟩)

/-- A directory that is there stays there. -/
theorem ChangesOnly.isDirectory (h : ChangesOnly touched before after)
    (hdirectory : before.isDirectory location = true) : after.isDirectory location = true := by
  have hfound : before.find? location = some .directory := beq_iff_eq.mp hdirectory
  rcases h.node location with hsame | ⟨hnone, -⟩ | ⟨-, hother, -⟩
  · rw [FileSystem.isDirectory, hsame, hfound]
    rfl
  · rw [hnone] at hfound
    cases hfound
  · rw [hdirectory] at hother
    cases hother

/-- A file that is there stays what it is where nothing is touched. -/
theorem ChangesOnly.find?_of_not_touched (h : ChangesOnly touched before after)
    (hfound : before.find? location = some node) (huntouched : ¬ touched location) :
    after.find? location = some node := by
  rcases h.node location with hsame | ⟨hnone, -⟩ | ⟨htouched, -⟩
  · rw [hsame, hfound]
  · rw [hnone] at hfound
    cases hfound
  · exact absurd htouched huntouched

/-- Changes follow upon each other. -/
theorem ChangesOnly.trans (h : ChangesOnly touched before middle)
    (h' : ChangesOnly touched middle after) : ChangesOnly touched before after := by
  refine ⟨h'.working.trans h.working, fun location => ?_⟩
  rcases h.node location with hsame | ⟨hnone, hmade⟩ | ⟨htouched, hplain, content, hwritten⟩
  · rw [FileSystem.isDirectory, ← hsame]
    exact h'.node location
  · -- A directory that has appeared stays.
    have hdirectory : middle.isDirectory location = true := by
      rw [FileSystem.isDirectory, hmade]
      rfl
    exact .inr (.inl ⟨hnone, beq_iff_eq.mp (h'.isDirectory hdirectory)⟩)
  · -- A text that was written may be written again.
    refine .inr (.inr ⟨htouched, hplain, ?_⟩)
    rcases h'.node location with hsame | ⟨hnone, -⟩ | ⟨-, -, hagain⟩
    · exact ⟨content, hsame.trans hwritten⟩
    · rw [hwritten] at hnone
      cases hnone
    · exact hagain

/-- Putting a directory where nothing is touches no location. -/
theorem changesOnly_put_directory (hnone : files.find? location = none) :
    ChangesOnly (fun _ => False) files (files.put location .directory) := by
  refine ⟨rfl, fun other => ?_⟩
  rw [find?_put]
  split
  · rename_i houter
    rw [find?, if_pos houter]
    exact .inl rfl
  · split
    · rename_i hsame
      rw [hsame]
      exact .inr (.inl ⟨hnone, rfl⟩)
    · exact .inl rfl

/-- Putting a text where no directory is touches its location. -/
theorem changesOnly_put_text (hplain : files.isDirectory location = false) (content : String) :
    ChangesOnly (· = location) files (files.put location (.text content)) := by
  refine ⟨rfl, fun other => ?_⟩
  by_cases hsame : other = location
  · rw [hsame]
    exact .inr (.inr ⟨rfl, hplain, content, find?_put_self (ne_nil_of_isDirectory_eq_false hplain)⟩)
  · rw [find?_put, if_neg hsame]
    split
    · rename_i houter
      rw [find?, if_pos houter]
      exact .inl rfl
    · exact .inl rfl

end Changes

section Paths

/-- Where a path leads by its segments, whatever is stored there and on the way. -/
def aim? (files : FileSystem) (path : String) : Option Location :=
  if path = "" then none else (Path.segments path).foldlM step (files.start path)

/-- The aim of a path depends on the working directory only. -/
theorem aim?_eq (h : after.working = before.working) (path : String) :
    after.aim? path = before.aim? path := by
  rw [aim?, aim?, start, start, h]

/-- A walk comes to where its segments lead. -/
theorem foldlM_step_of_walk (h : files.walk location segments = some other) :
    segments.foldlM step location = some other := by
  induction segments generalizing location with
  | nil => exact h
  | cons segment rest ih =>
    rw [walk] at h
    split at h
    · obtain ⟨next, hnext, hwalk⟩ := Option.bind_eq_some_iff.mp h
      rw [List.foldlM_cons, hnext]
      exact ih hwalk
    · cases h

/-- A path that can be followed leads to its aim. -/
theorem aim?_of_locate (h : files.locate path = some location) :
    files.aim? path = some location := by
  rw [locate] at h
  split at h
  · cases h
  · rename_i hsome
    rw [aim?, if_neg hsome]
    exact foldlM_step_of_walk h

/-- A walk through directories that stay can be repeated. -/
theorem ChangesOnly.walk (h : ChangesOnly touched before after)
    (hwalk : before.walk location segments = some other) :
    after.walk location segments = some other := by
  induction segments generalizing location with
  | nil => exact hwalk
  | cons segment rest ih =>
    rw [FileSystem.walk] at hwalk ⊢
    split at hwalk
    · rename_i hdirectory
      obtain ⟨next, hnext, hrest⟩ := Option.bind_eq_some_iff.mp hwalk
      rw [if_pos (h.isDirectory hdirectory), hnext]
      exact ih hrest
    · cases hwalk

/-- A path that could be followed leads to the same place. -/
theorem ChangesOnly.locate (h : ChangesOnly touched before after)
    (hlocate : before.locate path = some location) : after.locate path = some location := by
  rw [FileSystem.locate] at hlocate ⊢
  split at hlocate
  · cases hlocate
  · rename_i hsome
    rw [if_neg hsome, start, h.working]
    exact h.walk hlocate

/-- A text is read at the place that the path leads to. -/
theorem read_eq_some_iff :
    files.read path = some content ↔
      ∃ location, files.locate path = some location ∧
        files.find? location = some (.text content) := by
  rw [read, node?]
  cases files.locate path with
  | none => simp
  | some location =>
    simp only [Option.bind_eq_bind, Option.bind_some, Option.some_inj, exists_eq_left']
    cases files.find? location with
    | none => simp
    | some node => cases node <;> simp

/-- A text that can be read stays what it is unless the aim of its path is touched. -/
theorem ChangesOnly.read (h : ChangesOnly touched before after)
    (hread : before.read path = some content)
    (huntouched : ∀ location, before.aim? path = some location → ¬ touched location) :
    after.read path = some content := by
  obtain ⟨location, hlocate, hfound⟩ := read_eq_some_iff.mp hread
  have hkept := h.find?_of_not_touched hfound (huntouched location (aim?_of_locate hlocate))
  exact read_eq_some_iff.mpr ⟨location, h.locate hlocate, hkept⟩

end Paths

section Operations

/-- Making directories on the way touches no location. -/
theorem changesOnly_makeFrom (files : FileSystem) (location : Location) (segments : List String) :
    ChangesOnly (fun _ => False) files (files.makeFrom location segments).2 := by
  induction segments generalizing files location with
  | nil => exact .refl _ files
  | cons segment rest ih =>
    rw [makeFrom]
    split
    · split
      · split
        · rename_i next _ hnone
          exact (changesOnly_put_directory (Option.isNone_iff_eq_none.mp hnone)).trans (ih _ next)
        · exact ih files _
      · exact .refl _ files
    · exact .refl _ files

/-- Making directories touches no location. -/
theorem changesOnly_makeDirectories (files : FileSystem) (path : String) :
    ChangesOnly (fun _ => False) files (files.makeDirectories path).2 := by
  rw [makeDirectories]
  split
  · exact .refl _ files
  · split
    · exact .refl _ files
    · exact changesOnly_makeFrom files _ _

/-- A text that could be written can be read, and only the aim of its path was touched. -/
theorem write_text_spec (h : files.write path (.text content) = (true, after)) :
    ChangesOnly (fun location => files.aim? path = some location) files after ∧
      after.read path = some content := by
  rw [write] at h
  split at h
  · rename_i location hlocate
    split at h
    · cases (Prod.mk.inj h).1
    · rename_i hplain
      rw [Bool.not_eq_true] at hplain
      obtain rfl := (Prod.mk.inj h).2
      have hchanges := changesOnly_put_text hplain content
      refine ⟨hchanges.mono ?_, read_eq_some_iff.mpr ⟨location, hchanges.locate hlocate, ?_⟩⟩
      · rintro other rfl
        exact aim?_of_locate hlocate
      · exact find?_put_self (ne_nil_of_isDirectory_eq_false hplain)
  · cases (Prod.mk.inj h).1

end Operations

end TypedApi.FileSystem
