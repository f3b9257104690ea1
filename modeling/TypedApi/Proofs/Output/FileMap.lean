import TypedApi.Proofs.Output.Links
import TypedApi.Proofs.Storage.Writing

/-!
# The generated files below a root

The directories of a generated file are named by words, and only its own name has a point. So every
path steps down only, no path is that of a directory of another file, and below one root different
paths lead to different places. A pass that writes the files hence finds every path in order, and
what it writes for one file is not undone for another.
-/

namespace TypedApi

open TypeScript

namespace Output

section StepsDown

variable {files : FileSystem} {root path other : String} {segments : List String}
  {place location : Location}

/-- The empty path has an empty segment. -/
theorem ne_empty_of_proper (h : ∀ segment ∈ Path.segments path, Proper segment) : path ≠ "" := by
  rintro rfl
  have hempty : "" ∈ Path.segments "" := by decide
  exact (h "" hempty).2.1 rfl

/-- An absolute path has an empty segment in front. -/
theorem isAbsolute_eq_false_of_proper (h : ∀ segment ∈ Path.segments path, Proper segment) :
    Path.isAbsolute path = false := by
  rw [Path.isAbsolute, beq_eq_false_iff_ne]
  intro hhead
  obtain ⟨rest, hpath⟩ := List.head?_eq_some_iff.mp hhead
  have hpieces := Text.splitAll_append_mark (p := (· == '/')) (beq_self_eq_true '/') [] rest
  have hempty : "" ∈ Path.segments path := by
    rw [Path.segments, hpath]
    rw [List.nil_append] at hpieces
    rw [hpieces]
    exact List.mem_cons_self
  exact (h "" hempty).2.1 rfl

/-- A path that steps down only stays below where it starts from. -/
theorem isPlain_of_proper (h : ∀ segment ∈ Path.segments path, Proper segment) :
    Path.isPlain path = true := by
  have hup : ".." ∉ Path.segments path := fun hmem => (h ".." hmem).2.2.2 rfl
  obtain ⟨first, rest, hsegments⟩ := List.exists_cons_of_ne_nil (Path.segments_ne_nil path)
  rw [hsegments] at h hup
  obtain ⟨-, hempty, hpoint, -⟩ := h first List.mem_cons_self
  rw [Path.isPlain, hsegments]
  simpa [Path.isIdle, hempty, hpoint] using hup

/-- Segments that step down lengthen the location. -/
theorem eq_append_of_foldlM_step (h : ∀ segment ∈ segments, Proper segment)
    (hsteps : segments.foldlM FileSystem.step place = some location) :
    location = place ++ segments := by
  induction segments generalizing place with
  | nil =>
    have hstay : some place = some location := hsteps
    rw [List.append_nil, Option.some.inj hstay]
  | cons segment rest ih =>
    obtain ⟨⟨-, hempty, hpoint, hup⟩, hrest⟩ := List.forall_mem_cons.mp h
    have hidle : Path.isIdle segment = false := by simp [Path.isIdle, hempty, hpoint]
    rw [List.foldlM_cons] at hsteps
    obtain ⟨next, hnext, hlater⟩ := Option.bind_eq_some_iff.mp hsteps
    have hdown : next = place ++ [segment] := by
      rw [FileSystem.step, hidle, if_neg Bool.false_ne_true, if_neg hup] at hnext
      split at hnext
      · exact (Option.some.inj hnext).symm
      · cases hnext
    rw [ih hrest hlater, hdown, List.append_assoc, List.singleton_append]

/-- Below a root, relative paths lead on from one place by their segments. -/
theorem exists_aim?_join (files : FileSystem) (root : String) :
    ∃ place front, ∀ path, path ≠ "" → Path.isAbsolute path = false →
      files.aim? (Path.join root path) =
        (front ++ Path.segments path).foldlM FileSystem.step place := by
  rcases Path.join_eq root with hjoin | ⟨front, hjoin⟩
  · refine ⟨files.working, [], fun path hsome hrelative => ?_⟩
    rw [hjoin, FileSystem.aim?, if_neg hsome, FileSystem.start, hrelative]
    rfl
  · refine ⟨files.start (front ++ "/"), Path.segments front, fun path _ hrelative => ?_⟩
    have hslash : "/".toList = ['/'] := by decide
    have hsome : front ++ "/" ++ path ≠ "" := by
      intro hempty
      have hlist := congrArg String.toList hempty
      simp [hslash] at hlist
    have hstart : Path.isAbsolute (front ++ "/" ++ path) = Path.isAbsolute (front ++ "/") := by
      have hfront : (front ++ "/").toList ≠ [] := by simp [hslash]
      rw [Path.isAbsolute, String.toList_append, List.head?_append_of_ne_nil _ hfront]
      rfl
    rw [hjoin path hrelative, FileSystem.aim?, if_neg hsome, FileSystem.start, hstart,
      Path.segments_append_slash]
    rfl

/-- Below a root, different paths that step down have different aims. -/
theorem eq_of_aim?_join (hpath : ∀ segment ∈ Path.segments path, Proper segment)
    (hother : ∀ segment ∈ Path.segments other, Proper segment)
    (h : files.aim? (Path.join root path) = some location)
    (h' : files.aim? (Path.join root other) = some location) : path = other := by
  obtain ⟨place, front, haim⟩ := exists_aim?_join files root
  rw [haim path (ne_empty_of_proper hpath) (isAbsolute_eq_false_of_proper hpath),
    List.foldlM_append] at h
  rw [haim other (ne_empty_of_proper hother) (isAbsolute_eq_false_of_proper hother),
    List.foldlM_append] at h'
  obtain ⟨middle, hfront, hsteps⟩ := Option.bind_eq_some_iff.mp h
  obtain ⟨middle', hfront', hsteps'⟩ := Option.bind_eq_some_iff.mp h'
  rw [hfront] at hfront'
  obtain rfl := Option.some.inj hfront'
  have hlocation := eq_append_of_foldlM_step hpath hsteps
  rw [eq_append_of_foldlM_step hother hsteps'] at hlocation
  exact Path.segments_injective (List.append_cancel_left hlocation).symm

end StepsDown

section Names

variable {document : Document} {config : Config} {module : Module} {place : Place}

/-- Directories are named by words. -/
theorem isWord_of_mem_directories (h : place ∈ allPlaces document config) :
    ∀ directory ∈ place.directories, Naming.IsWord directory := by
  have hletters : ∀ name ∈ ["domains", "models", "constants"],
      name.toList ≠ [] ∧ name.toList.all Char.isAlphanum = true := by
    decide
  have hwords : ∀ name ∈ ["domains", "models", "constants"], Naming.IsWord name :=
    fun name hname => ⟨(hletters name hname).1, List.all_eq_true.mp (hletters name hname).2⟩
  have hdomains := hwords "domains" (by simp)
  have hmodels := hwords "models" (by simp)
  have hconstants := hwords "constants" (by simp)
  rcases List.mem_append.mp h with h | h
  · obtain ⟨module, hmodule, hplace⟩ := List.mem_flatMap.mp h
    have hdir : Naming.IsWord module.dir := (Document.isWord_name hmodule).moduleDir
    simp only [places, List.mem_cons, List.not_mem_nil, or_false] at hplace
    rcases hplace with rfl | rfl | rfl | rfl
    · simp [modelsPlace, hdir, hdomains, hmodels]
    · simp [contractPlace, hdir, hdomains]
    · simp [servicePlace, hdir]
    · simp [hooksPlace, hdir]
  · rw [List.mem_singleton.mp h]
    simp [registryPlace, hconstants]

/-- The last part of a file's name is its ending. -/
theorem exists_front_of_mem_allPlaces (h : place ∈ allPlaces document config) :
    ∃ first rest, place.parts = first :: rest ++ ["ts"] := by
  rcases List.mem_append.mp h with h | h
  · obtain ⟨module, -, hplace⟩ := List.mem_flatMap.mp h
    simp only [places, List.mem_cons, List.not_mem_nil, or_false] at hplace
    rcases hplace with rfl | rfl | rfl | rfl
    · exact ⟨module.name, [], rfl⟩
    · exact ⟨module.contractName, [], rfl⟩
    · exact ⟨module.name, ["service"], rfl⟩
    · exact ⟨module.name, ["presentation"], rfl⟩
  · rw [List.mem_singleton.mp h]
    exact ⟨"endpoints", [], rfl⟩

/-- Joined pieces end in the last of them, behind a separator if there are others. -/
theorem joinWith_concat (separator last first : String) (rest : List String) :
    Text.joinWith separator (first :: rest ++ [last]) =
      Text.joinWith separator (first :: rest) ++ separator ++ last := by
  induction rest generalizing first with
  | nil => rfl
  | cons next rest ih =>
    rw [List.cons_append, List.cons_append, Text.joinWith, ← List.cons_append, ih next,
      Text.joinWith]
    simp only [String.append_assoc]

/-- A file's name has a point and steps down. -/
theorem point_mem_fileName (h : place ∈ allPlaces document config) :
    '.' ∈ place.fileName.toList ∧ Proper place.fileName := by
  obtain ⟨first, rest, hparts⟩ := exists_front_of_mem_allPlaces h
  have hname : place.fileName = Text.joinWith "." (first :: rest) ++ "." ++ "ts" := by
    rw [Place.fileName, hparts, joinWith_concat]
  have hpoint : '.' ∈ place.fileName.toList := by simp [hname]
  have hletter : 't' ∈ place.fileName.toList := by simp [hname]
  have hslash := Place.slash_not_mem_fileName (clear_of_mem_allPlaces h)
  exact ⟨hpoint, proper_of_mem hslash hletter (by decide)⟩

/-- The names in a file's path step down. -/
theorem proper_of_mem_segments (h : place ∈ allPlaces document config) :
    ∀ segment ∈ Path.segments place.path, Proper segment := by
  intro segment hsegment
  rw [Place.segments_path (clear_of_mem_allPlaces h)] at hsegment
  rcases List.mem_append.mp hsegment with hdirectory | hname
  · exact proper_of_isWord (isWord_of_mem_directories h segment hdirectory)
  · rw [List.mem_singleton.mp hname]
    exact (point_mem_fileName h).2

end Names

section Files

variable {document : Document} {config : Config} {root path : String}
  {before after : FileSystem} {summary : WriteSummary}

/-- The paths of the generated files are those of the places. -/
theorem mem_names_generate_iff :
    path ∈ (document.generate config).names ↔
      ∃ place ∈ allPlaces document config, place.path = path := by
  rw [NameMap.mem_names_iff, ← NameMap.contains_iff, Document.generate,
    NameMap.contains_ofList_iff, List.map_map]
  change path ∈ (trees document config).map (·.1) ↔ _
  rw [paths_trees, List.mem_map]

/-- The paths of the generated files step down. -/
theorem proper_of_mem_generate (h : path ∈ (document.generate config).names) :
    ∀ segment ∈ Path.segments path, Proper segment := by
  obtain ⟨place, hplace, rfl⟩ := mem_names_generate_iff.mp h
  exact proper_of_mem_segments hplace

/-- The paths of the generated files stay below the directory in which they are written. -/
theorem isPlain_of_mem_generate :
    ∀ path ∈ (document.generate config).names, Path.isPlain path = true :=
  fun _ hpath => isPlain_of_proper (proper_of_mem_generate hpath)

/-- There are four files for each module, and the registry. -/
theorem length_trees (document : Document) (config : Config) :
    (trees document config).length = 4 * (document.modules config).size + 1 := by
  have hfiles : ∀ module, (moduleFiles document.schemas config module).length = 4 :=
    fun _ => rfl
  have hvalues : (document.modules config).values.length = (document.modules config).size :=
    List.length_map _
  rw [trees, List.length_append, List.length_flatMap, List.length_singleton]
  simp only [hfiles, List.map_const', List.sum_replicate_nat, hvalues]
  omega

/-- No path is refused. -/
theorem perform_writeFiles_ne_outputPath (document : Document) (config : Config)
    (files : FileSystem) (root path : String) :
    (files.perform (FileSystem.storage.writeFiles root (document.generate config))).1 ≠
      .error (.outputPath path) := by
  intro hrefused
  rw [FileSystem.writeFiles_of_isPlain isPlain_of_mem_generate] at hrefused
  obtain ⟨failing, hfailure⟩ := FileSystem.foldlM_writeFile_error (Prod.ext hrefused rfl)
  cases hfailure

/-- A file's name has a point, which no name of a directory has. -/
theorem append_not_mem_generate (h : path ∈ (document.generate config).names) (rest : String) :
    path ++ "/" ++ rest ∉ (document.generate config).names := by
  intro hlonger
  obtain ⟨place, hplace, rfl⟩ := mem_names_generate_iff.mp h
  obtain ⟨longer, hlongerPlace, hpath⟩ := mem_names_generate_iff.mp hlonger
  have hsegments := congrArg Path.segments hpath
  rw [Path.segments_append_slash, Place.segments_path (clear_of_mem_allPlaces hplace),
    Place.segments_path (clear_of_mem_allPlaces hlongerPlace)] at hsegments
  -- What goes on behind the file's name has a last name, so that the file's name is a directory's.
  have hends := List.eq_nil_or_concat (Path.segments rest)
  obtain ⟨front, last, hlast⟩ := hends.resolve_left (Path.segments_ne_nil rest)
  rw [hlast, List.concat_eq_append, ← List.append_assoc] at hsegments
  obtain ⟨hdirectories, -⟩ := List.append_inj' hsegments rfl
  have hdirectory : place.fileName ∈ longer.directories := by simp [hdirectories]
  have hword := isWord_of_mem_directories hlongerPlace _ hdirectory
  exact hword.not_mem (by decide) (point_mem_fileName hplace).1

/-- Every path is counted. -/
theorem size_generate (document : Document) (config : Config) :
    (document.generate config).size = 4 * (document.modules config).size + 1 := by
  have hnodup := nodup_paths_trees document config
  rw [Document.generate, NameMap.size_ofList (by rwa [List.map_map]), List.length_map, length_trees]

/-- Below any root, the generated files have different aims. -/
theorem aimsApart_generate (files : FileSystem) (root : String) (document : Document)
    (config : Config) : files.AimsApart root (document.generate config).entries := by
  refine (document.generate config).sorted.imp_of_mem fun {file other} hfile hother hbefore => ?_
  intro location haim haim'
  have hpath := proper_of_mem_generate (List.mem_map_of_mem hfile)
  have hpath' := proper_of_mem_generate (List.mem_map_of_mem hother)
  have hsame := eq_of_aim?_join hpath hpath' haim haim'
  rw [hsame] at hbefore
  exact String.lt_irrefl _ hbefore

/-- A pass over the generated files that succeeds has written them all, touched nothing else, and
leaves nothing to do for a further pass. -/
theorem written_generate
    (h : before.perform (FileSystem.storage.writeFiles root (document.generate config)) =
      (.ok summary, after)) :
    FileSystem.Written root (document.generate config) before after summary := by
  have hapart := aimsApart_generate before root document config
  exact FileSystem.written_of_aimsApart isPlain_of_mem_generate hapart h

/-- A file system with a registry of an earlier day. -/
def staleRegistry : FileSystem where
  nodes := [(["out"], .directory), (["out", "constants"], .directory),
    (["out", "constants", "endpoints.ts"], .text "")]

/-- The theorem at work: a pass replaces the registry and makes the files of a module. -/
theorem written_of_staleRegistry :
    ∃ after, staleRegistry.perform
        (FileSystem.storage.writeFiles "out" (idleWidgets.generate {})) = (.ok ⟨5, 0⟩, after) ∧
      FileSystem.Written "out" (idleWidgets.generate {}) staleRegistry after ⟨5, 0⟩ := by
  have hanswer : (staleRegistry.perform
      (FileSystem.storage.writeFiles "out" (idleWidgets.generate {}))).1.toOption =
        some ⟨5, 0⟩ := by
    decide +kernel
  have hpass := FileSystem.perform_eq_ok hanswer
  exact ⟨_, hpass, written_generate hpass⟩

end Files

end Output

end TypedApi
