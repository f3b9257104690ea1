import TypedApi.Proofs.Storage.Accesses

/-!
# A pass stays below its root

What a path leads to is told by its steps. A pass over files asks for nothing but the root and paths
that go on from it downwards; so it changes nothing but what lies below the root, and may make the
directories on the way to it. If one of the paths is refused, the pass does nothing at all.
-/

namespace TypedApi

/-- A path is the root, or goes on from it by steps down. -/
def Path.Extends (root path : String) : Prop :=
  ∃ words : List String, Path.components path = Path.components root ++ words.map .name

namespace FileSystem

open TypedApi.Path (Component components component? Extends)

variable {files before middle after : FileSystem} {location place other : Location}
  {node : FileNode} {root path key content : String} {segments words : List String}

section Steps

/-- Where a step leads from a location. -/
def follow (location : Location) : Component → Option Location
  | .root => some []
  | .here => some location
  | .up => some location.dropLast
  | .name word => if allowsName word then some (location ++ [word]) else none

/-- Where the steps of a path lead to. -/
def reach (files : FileSystem) (steps : List Component) : Option Location :=
  steps.foldlM follow files.working

/-- A segment leads where its step does, and nowhere without one. -/
theorem step_eq (location : Location) (segment : String) :
    step location segment = match component? segment with
      | some component => follow location component
      | none => some location := by
  rw [step, component?]
  split
  · rfl
  · split <;> rfl

/-- Segments lead where their steps do. -/
theorem foldlM_step_eq (location : Location) (segments : List String) :
    segments.foldlM step location = (segments.filterMap component?).foldlM follow location := by
  induction segments generalizing location with
  | nil => rfl
  | cons segment rest ih =>
    rw [List.foldlM_cons, step_eq]
    cases hstep : component? segment with
    | none =>
      rw [List.filterMap_cons_none hstep]
      exact ih location
    | some component =>
      rw [List.filterMap_cons_some hstep, List.foldlM_cons]
      exact bind_congr fun next => ih next

/-- The step in front of a path leads to where the path starts from. -/
theorem reach_origin (files : FileSystem) (path : String) :
    files.reach (Path.origin path) = some (files.start path) := by
  rw [Path.origin, start]
  split
  · rfl
  · split <;> rfl

/-- Segments lead on from the start of a path by their steps. -/
theorem foldlM_step_start (files : FileSystem) (path : String) (segments : List String) :
    segments.foldlM step (files.start path) =
      files.reach (Path.origin path ++ segments.filterMap component?) := by
  rw [reach, List.foldlM_append, ← reach, reach_origin, foldlM_step_eq]
  rfl

/-- A path aims where its steps lead. -/
theorem aim?_eq_reach (h : files.aim? path = some location) :
    files.reach (components path) = some location := by
  rw [aim?] at h
  split at h
  · cases h
  · rw [← h, foldlM_step_start]
    rfl

/-- Names lead down. -/
theorem foldlM_follow_names (h : (words.map Component.name).foldlM follow place = some location) :
    location = place ++ words := by
  induction words generalizing place with
  | nil =>
    have hstay : some place = some location := h
    rw [List.append_nil, Option.some.inj hstay]
  | cons word rest ih =>
    rw [List.map_cons, List.foldlM_cons] at h
    obtain ⟨next, hnext, hrest⟩ := Option.bind_eq_some_iff.mp h
    rw [follow] at hnext
    split at hnext
    · rw [ih hrest, ← Option.some.inj hnext, List.append_assoc]
      rfl
    · cases hnext

end Steps

section Regions

/-- A location is on the way to the root, or that of the root. -/
def OnWay (files : FileSystem) (root : String) (location : Location) : Prop :=
  ∃ steps, steps <+: components root ∧ files.reach steps = some location

/-- A location is below the root. -/
def Below (files : FileSystem) (root : String) (location : Location) : Prop :=
  ∃ place words, files.reach (components root) = some place ∧ words ≠ [] ∧
    location = place ++ words

/-- On the way of a path that extends the root, locations are on the way to the root or below it. -/
theorem onWay_or_below {steps : List Component} (hextends : Extends root path)
    (hfront : steps <+: components path) (hreach : files.reach steps = some location) :
    files.OnWay root location ∨ files.Below root location := by
  obtain ⟨words, hwords⟩ := hextends
  rw [hwords] at hfront
  have hroot : components root <+: components root ++ words.map .name := ⟨_, rfl⟩
  rcases List.prefix_or_prefix_of_prefix hfront hroot with hshort | ⟨down, rfl⟩
  · exact .inl ⟨steps, hshort, hreach⟩
  · have hnames : down = (words.take down.length).map .name := by
      have hdown := (List.prefix_append_right_inj _).mp hfront
      rw [List.map_take]
      exact List.prefix_iff_eq_take.mp hdown
    by_cases hnone : words.take down.length = []
    · rw [hnone, List.map_nil] at hnames
      exact .inl ⟨components root, List.prefix_rfl, by rwa [hnames, List.append_nil] at hreach⟩
    · rw [reach, List.foldlM_append] at hreach
      obtain ⟨place, hplace, hlocation⟩ := Option.bind_eq_some_iff.mp hreach
      rw [hnames] at hlocation
      exact .inr ⟨place, _, hplace, hnone, foldlM_follow_names hlocation⟩

/-- The file of a plain path is below the root. -/
theorem below_of_isPlain (hkey : Path.isPlain key = true)
    (haim : files.aim? (Path.join root key) = some location) : files.Below root location := by
  obtain ⟨-, words, hsome, hwords⟩ := Path.components_of_isPlain hkey
  have hreach := aim?_eq_reach haim
  rw [Path.components_join root hkey, hwords, reach, List.foldlM_append] at hreach
  obtain ⟨place, hplace, hlocation⟩ := Option.bind_eq_some_iff.mp hreach
  exact ⟨place, words, hplace, hsome, foldlM_follow_names hlocation⟩

/-- Behind a root, a plain path and its parent extend the root. -/
theorem extends_of_isPlain (hkey : Path.isPlain key = true)
    (h : path = Path.join root key ∨ Path.parent? (Path.join root key) = some path) :
    Extends root path := by
  obtain ⟨-, words, hsome, hwords⟩ := Path.components_of_isPlain hkey
  have hjoined := Path.components_join root hkey
  rw [hwords] at hjoined
  rcases h with hfile | hparent
  · exact ⟨words, by rw [hfile, hjoined]⟩
  · refine ⟨words.dropLast, ?_⟩
    have hlast : words.map Component.name ≠ [] := fun hnil => hsome (List.map_eq_nil_iff.mp hnil)
    rw [Path.components_parent hparent, hjoined, List.dropLast_append_of_ne_nil hlast,
      List.map_dropLast]

end Regions

section Confinement

/-- What is below the root may have changed, and directories may have appeared on the way to it
where nothing was; everything else is as it was. -/
structure Confined (root : String) (before after : FileSystem) : Prop where
  working : after.working = before.working
  node : ∀ location, after.find? location = before.find? location ∨
    before.Below root location ∨
    (before.OnWay root location ∧ before.find? location = none ∧
      after.find? location = some .directory)

theorem Confined.refl (root : String) (files : FileSystem) : Confined root files files :=
  ⟨rfl, fun _ => .inl rfl⟩

/-- Confined changes follow upon each other. -/
theorem Confined.trans (h : Confined root before middle) (h' : Confined root middle after) :
    Confined root before after := by
  have hreach : ∀ steps, middle.reach steps = before.reach steps := by
    intro steps
    rw [reach, reach, h.working]
  refine ⟨h'.working.trans h.working, fun location => ?_⟩
  have hlater := h'.node location
  simp only [Below, OnWay, hreach] at hlater
  rcases h.node location with hsame | hbelow | ⟨hway, hnone, hmade⟩
  · rwa [← hsame]
  · exact .inr (.inl hbelow)
  · rcases hlater with hsame | hbelow | ⟨-, hnone', -⟩
    · exact .inr (.inr ⟨hway, hnone, hsame.trans hmade⟩)
    · exact .inr (.inl hbelow)
    · rw [hmade] at hnone'
      cases hnone'

/-- Directories are made at the places that segments pass and nowhere else. -/
theorem find?_makeFrom (files : FileSystem) (place : Location) (segments : List String)
    (hnowhere : ∀ front, front <+: segments → front.foldlM step place ≠ some location) :
    (files.makeFrom place segments).2.find? location = files.find? location := by
  induction segments generalizing files place with
  | nil => rfl
  | cons segment rest ih =>
    rw [makeFrom]
    split
    · split
      · rename_i next hnext
        have hlater : ∀ front, front <+: rest → front.foldlM step next ≠ some location := by
          intro front hfront hreach
          refine hnowhere (segment :: front) (List.cons_prefix_cons.mpr ⟨rfl, hfront⟩) ?_
          rw [List.foldlM_cons, hnext]
          exact hreach
        have hother : location ≠ next := by
          rintro rfl
          exact hlater [] List.nil_prefix rfl
        split
        · rw [ih _ next hlater, find?_put, if_neg hother]
          split
          · rename_i houter
            rw [find?, if_pos houter]
          · rfl
        · exact ih files next hlater
      · rfl
    · rfl

/-- Making a directory that extends the root is confined. -/
theorem confined_makeDirectories (hextends : Extends root path) (files : FileSystem) :
    Confined root files (files.makeDirectories path).2 := by
  have hchanges := changesOnly_makeDirectories files path
  refine ⟨hchanges.working, fun location => ?_⟩
  rcases hchanges.node location with hsame | ⟨hnone, hmade⟩ | ⟨hnever, -⟩
  · exact .inl hsame
  · -- What was made is at a place that the path passes.
    have hpassed : ∃ front, front <+: Path.segments path ∧
        front.foldlM step (files.start path) = some location := by
      by_contra hnowhere
      have hsame : (files.makeDirectories path).2.find? location = files.find? location := by
        rw [makeDirectories]
        split
        · rfl
        · split
          · rfl
          · exact find?_makeFrom files _ _ fun front hfront hreach =>
              hnowhere ⟨front, hfront, hreach⟩
      rw [hsame, hnone] at hmade
      cases hmade
    obtain ⟨front, ⟨behind, hsegments⟩, hreach⟩ := hpassed
    rw [foldlM_step_start] at hreach
    have hfront : Path.origin path ++ front.filterMap component? <+: components path := by
      refine ⟨behind.filterMap component?, ?_⟩
      rw [components, ← hsegments, List.filterMap_append, List.append_assoc]
    rcases onWay_or_below hextends hfront hreach with hway | hbelow
    · exact .inr (.inr ⟨hway, hnone, hmade⟩)
    · exact .inr (.inl hbelow)
  · exact hnever.elim

/-- Writing the file of a plain path is confined. -/
theorem confined_write (root : String) (hkey : Path.isPlain key = true) (files : FileSystem)
    (node : FileNode) : Confined root files (files.write (Path.join root key) node).2 := by
  rw [write]
  split
  · rename_i place hplace
    split
    · exact .refl root files
    · refine ⟨rfl, fun location => ?_⟩
      rw [find?_put]
      split
      · rename_i houter
        rw [find?, if_pos houter]
        exact .inl rfl
      · split
        · rename_i hsame
          rw [hsame]
          exact .inr (.inl (below_of_isPlain hkey (aim?_of_locate hplace)))
        · exact .inl rfl
  · exact .refl root files

/-- A step for the file of a plain path is confined, whether it succeeds or fails. -/
theorem confined_writeFile (root : String) (hkey : Path.isPlain key = true)
    (files : FileSystem) (summary : WriteSummary) (content : String) :
    Confined root files (files.perform (storage.writeFile root summary (key, content))).2 := by
  have hmade : Confined root files (files.makeParent (Path.join root key)).2 := by
    rw [makeParent]
    split
    · rename_i parent hparent
      exact confined_makeDirectories (extends_of_isPlain hkey
        (.inr hparent)) files
    · exact .refl root files
  rw [perform_writeFile]
  dsimp only
  split
  · exact .refl root files
  · split
    · rename_i made hmake
      rwa [hmake] at hmade
    · rename_i made hmake
      rw [hmake] at hmade
      have hwritten := confined_write root hkey made (.text content)
      split <;> rename_i written hwrite <;> rw [hwrite] at hwritten <;>
        exact hmade.trans hwritten

/-- A pass over files of plain paths is confined, whether it succeeds or fails. -/
theorem confined_foldlM_writeFile (root : String) {entries : List (String × String)}
    (hplain : ∀ file ∈ entries, Path.isPlain file.1 = true) (files : FileSystem)
    (summary : WriteSummary) :
    Confined root files (files.perform (entries.foldlM (storage.writeFile root) summary)).2 := by
  induction entries generalizing files summary with
  | nil => exact .refl root files
  | cons file rest ih =>
    obtain ⟨hfile, hrest⟩ := List.forall_mem_cons.mp hplain
    have hstep := confined_writeFile root hfile files summary file.2
    rw [List.foldlM_cons, perform_bind]
    split
    · rename_i counted middle hdone
      rw [hdone] at hstep
      exact hstep.trans (ih hrest middle counted)
    · rename_i failure middle hfailed
      rwa [hfailed] at hstep

end Confinement

section Passes

variable {map : NameMap String}

/-- What is known of a pass over a map of files: a refused path is found out before anything is
done, and otherwise nothing but the root and what extends it is asked for or changed. -/
structure Contained (files : FileSystem) (root : String) (map : NameMap String) : Prop where
  /-- If a path is refused, the first such path is named, nothing is asked for, and the file system
  is what it was. -/
  refused : (∃ path ∈ map.names, Path.Refused path) →
    ∃ path ∈ map.names, Path.Refused path ∧
      (∀ earlier ∈ map.names, earlier < path → ¬ Path.Refused earlier) ∧
      files.accesses root map = [] ∧
      files.perform (storage.writeFiles root map) = (.error (.outputPath path), files)
  /-- A record of what is asked for changes nothing about the pass. -/
  recorded : ((storage.recording.writeFiles root map).run.run []).run files =
    (((files.perform (storage.writeFiles root map)).1, files.accesses root map),
      (files.perform (storage.writeFiles root map)).2)
  /-- Whatever is asked for is the root, or goes on from it by steps down. -/
  asked : ∀ access ∈ files.accesses root map, Extends root access.path
  /-- Wherever that leads, it is to the location of the root or to one below it. -/
  led : ∀ access ∈ files.accesses root map, ∀ location,
    files.aim? access.path = some location →
      files.reach (components root) = some location ∨ files.Below root location
  /-- Whatever is changed is below the root, but for directories made on the way to it. -/
  confined : Confined root files (files.perform (storage.writeFiles root map)).2

/-- A path that extends the root leads to the root or below it. -/
theorem reach_or_below (hextends : Extends root path) (haim : files.aim? path = some location) :
    files.reach (components root) = some location ∨ files.Below root location := by
  obtain ⟨words, hwords⟩ := hextends
  have hreach := aim?_eq_reach haim
  rw [hwords, reach, List.foldlM_append] at hreach
  obtain ⟨place, hplace, hlocation⟩ := Option.bind_eq_some_iff.mp hreach
  have hdown := foldlM_follow_names hlocation
  by_cases hnone : words = []
  · rw [hdown, hnone, List.append_nil]
    exact .inl hplace
  · exact .inr ⟨place, words, hplace, hnone, hdown⟩

/-- The first of the names that satisfy a test is the least one. -/
theorem find?_names_eq_some {p : String → Bool} (h : map.names.find? p = some path) :
    path ∈ map.names ∧ p path = true ∧
      ∀ earlier ∈ map.names, earlier < path → p earlier = false := by
  refine ⟨List.mem_of_find?_eq_some h, List.find?_some h, fun earlier hearlier hless => ?_⟩
  obtain ⟨-, front, behind, hsplit, hfront⟩ := List.find?_eq_some_iff_append.mp h
  have hsorted := map.pairwise_names
  rw [hsplit] at hsorted hearlier
  rcases List.mem_append.mp hearlier with hmember | hmember
  · simpa using hfront earlier hmember
  · rcases List.mem_cons.mp hmember with rfl | hmember
    · exact absurd hless (String.lt_irrefl _)
    · have hgreater := List.rel_of_pairwise_cons (List.pairwise_append.mp hsorted).2.1 hmember
      exact absurd (String.lt_trans hless hgreater) (String.lt_irrefl _)

/-- A pass over files does nothing if a path is refused, and stays below the root otherwise. -/
theorem contained_writeFiles (files : FileSystem) (root : String) (map : NameMap String) :
    Contained files root map := by
  obtain ⟨more, hmore, hrun⟩ := records_writeFiles root map files []
  have haccesses : files.accesses root map = more := by
    rw [accesses, hrun]
    rfl
  have hasked : ∀ access ∈ files.accesses root map, Extends root access.path := by
    rw [haccesses]
    intro access haccess
    obtain ⟨hplain, path, hpath, hconcerns⟩ := hmore access haccess
    exact extends_of_isPlain (hplain path hpath) hconcerns
  have hled : ∀ access ∈ files.accesses root map, ∀ location,
      files.aim? access.path = some location →
        files.reach (components root) = some location ∨ files.Below root location :=
    fun access haccess location haim => reach_or_below (hasked access haccess) haim
  cases hfirst : map.names.find? fun path => !Path.isPlain path with
  | some path =>
    obtain ⟨hpath, hrefused, hleast⟩ := find?_names_eq_some hfirst
    simp only [Bool.not_eq_true', Bool.not_eq_false'] at hrefused hleast
    have hnothing : files.perform (storage.writeFiles root map) =
        (.error (.outputPath path), files) := by
      rw [Storage.writeFiles, hfirst]
      rfl
    have hnone : files.accesses root map = [] := by
      rw [haccesses, List.eq_nil_iff_forall_not_mem]
      intro access haccess
      rw [(hmore access haccess).1 path hpath] at hrefused
      cases hrefused
    refine ⟨fun _ => ⟨path, hpath, ?_, ?_, hnone, hnothing⟩, ?_, hasked, hled, ?_⟩
    · by_contra haccepted
      rw [Path.isPlain_eq_true_iff.mpr haccepted] at hrefused
      cases hrefused
    · exact fun earlier hearlier hless =>
        Path.isPlain_eq_true_iff.mp (hleast earlier hearlier hless)
    · rw [hrun, haccesses]
      rfl
    · rw [hnothing]
      exact .refl root files
  | none =>
    have hplain : ∀ path ∈ map.names, Path.isPlain path = true := by
      intro path hpath
      simpa using List.find?_eq_none.mp hfirst path hpath
    refine ⟨?_, ?_, hasked, hled, ?_⟩
    · rintro ⟨path, hpath, hrefused⟩
      exact absurd hrefused (Path.isPlain_eq_true_iff.mp (hplain path hpath))
    · rw [hrun, haccesses]
      rfl
    · rw [writeFiles_of_isPlain hplain]
      exact confined_foldlM_writeFile root (fun file hfile => hplain _ (List.mem_map_of_mem hfile))
        files {}

end Passes

end FileSystem

end TypedApi
