import TypedApi.Proofs.NameMap
import TypedApi.Proofs.Storage.FileSystem
import TypedApi.Storage.Basic

/-!
# A pass over files

A pass gives each file its content in turn. What one step does is said once: it leaves everything,
or writes one text, or fails. A pass that succeeds has found or written every file; if no two files
share an aim, no later step disturbs an earlier file, so all of them can be read in the end, and a
further pass finds nothing to do.
-/

namespace TypedApi.FileSystem

variable {files before middle after : FileSystem} {root : String} {summary result : WriteSummary}
  {file : String × String} {entries : List (String × String)} {map : NameMap String}

section Work

variable {α β : Type}

/-- What work answers on a file system, and the file system that it leaves. -/
def perform (files : FileSystem) (work : ExceptT Failure (StateM FileSystem) α) :
    Except Failure α × FileSystem :=
  work.run.run files

/-- Work goes on where the work before it has succeeded. -/
theorem perform_bind (files : FileSystem) (work : ExceptT Failure (StateM FileSystem) α)
    (next : α → ExceptT Failure (StateM FileSystem) β) :
    files.perform (work >>= next) =
      match files.perform work with
      | (.ok value, after) => after.perform (next value)
      | (.error failure, after) => (.error failure, after) := by
  simp only [perform, ExceptT.run_bind, StateT.run_bind]
  change (match work.run.run files with | (_, _) => _) = _
  rcases work.run.run files with ⟨_ | _, _⟩ <;> rfl

/-- An operation of the file system does not fail by itself. -/
theorem perform_lift (files : FileSystem) (operation : StateM FileSystem α) :
    files.perform (liftM operation) = (.ok (operation.run files).1, (operation.run files).2) := rfl

/-- Work that has an answer succeeds with it. -/
theorem perform_eq_ok {work : ExceptT Failure (StateM FileSystem) α} {answer : α}
    (h : (files.perform work).1.toOption = some answer) :
    files.perform work = (.ok answer, (files.perform work).2) := by
  generalize files.perform work = outcome at h ⊢
  rcases outcome with ⟨failure | value, after⟩
  · cases h
  · have hvalue : some value = some answer := h
    rw [Option.some.inj hvalue]

/-- Work that succeeds has succeeded in both of its parts. -/
theorem perform_bind_eq_ok {work : ExceptT Failure (StateM FileSystem) α}
    {next : α → ExceptT Failure (StateM FileSystem) β} {answer : β}
    (h : files.perform (work >>= next) = (.ok answer, after)) :
    ∃ value middle, files.perform work = (.ok value, middle) ∧
      middle.perform (next value) = (.ok answer, after) := by
  rw [perform_bind] at h
  split at h
  · rename_i value middle hwork
    exact ⟨value, middle, hwork, h⟩
  · cases (Prod.mk.inj h).1

/-- Work that fails has failed in one of its parts. -/
theorem perform_bind_eq_error {work : ExceptT Failure (StateM FileSystem) α}
    {next : α → ExceptT Failure (StateM FileSystem) β} {failure : Failure}
    (h : files.perform (work >>= next) = (.error failure, after)) :
    files.perform work = (.error failure, after) ∨
      ∃ (value : α) (middle : FileSystem),
        middle.perform (next value) = (.error failure, after) := by
  rw [perform_bind] at h
  split at h
  · rename_i value middle hwork
    exact .inr ⟨value, middle, h⟩
  · rename_i hwork
    obtain ⟨hfailure, rfl⟩ := Prod.mk.inj h
    obtain rfl := Except.error.inj hfailure
    exact .inl hwork

end Work

section Step

/-- Make the directory that a path is in, if it is in one. -/
def makeParent (files : FileSystem) (path : String) : Bool × FileSystem :=
  match Path.parent? path with
  | some parent => files.makeDirectories parent
  | none => (true, files)

/-- What a step does to a file: it has the content already, or is written once its directory is
made; what fails is said by its path. -/
theorem perform_writeFile (files : FileSystem) (root : String) (summary : WriteSummary)
    (file : String × String) :
    let path := Path.join root file.1
    files.perform (storage.writeFile root summary file) =
      if files.read path = some file.2 then
        (.ok { summary with unchanged := summary.unchanged + 1 }, files)
      else
        match files.makeParent path with
        | (false, made) => (.error (.storage ((Path.parent? path).getD "")), made)
        | (true, made) =>
          match made.write path (.text file.2) with
          | (false, written) => (.error (.storage path), written)
          | (true, written) => (.ok { summary with written := summary.written + 1 }, written) := by
  have hread : ∀ path, (storage.read path).run files = (files.read path, files) := fun _ => rfl
  have hmake : ∀ (files : FileSystem) path,
      (storage.makeDirectories path).run files = files.makeDirectories path := fun _ _ => rfl
  have hwrite : ∀ (files : FileSystem) path content,
      (storage.write path content).run files = files.write path (.text content) := fun _ _ _ => rfl
  simp only [Storage.writeFile, makeParent]
  generalize Path.join root file.1 = path
  rw [perform_bind, perform_lift, hread]
  dsimp only
  split
  · rfl
  · cases Path.parent? path with
    | none =>
      dsimp only [Option.getD]
      rw [perform_bind, perform_lift, hwrite]
      rcases files.write path (.text file.2) with ⟨_ | _, _⟩ <;> rfl
    | some parent =>
      dsimp only [Option.getD]
      rw [perform_bind, perform_lift, hmake]
      rcases files.makeDirectories parent with ⟨_ | _, made⟩
      · rfl
      · dsimp only
        rw [if_pos rfl, perform_bind, perform_lift, hwrite]
        rcases made.write path (.text file.2) with ⟨_ | _, _⟩ <;> rfl

/-- Making the directory of a file touches no location. -/
theorem changesOnly_makeParent (files : FileSystem) (path : String) :
    ChangesOnly (fun _ => False) files (files.makeParent path).2 := by
  rw [makeParent]
  split
  · exact changesOnly_makeDirectories files _
  · exact .refl _ files

/-- After a step that succeeds, the file has its content, nothing else was touched, and the step is
counted. -/
theorem writeFile_spec
    (h : before.perform (storage.writeFile root summary file) = (.ok result, after)) :
    ChangesOnly (fun location => before.aim? (Path.join root file.1) = some location) before after ∧
      after.read (Path.join root file.1) = some file.2 ∧
      result.written + result.unchanged = summary.written + summary.unchanged + 1 := by
  rw [perform_writeFile] at h
  have hparent := changesOnly_makeParent before (Path.join root file.1)
  generalize Path.join root file.1 = path at h hparent
  split at h
  · rename_i hread
    obtain ⟨hresult, rfl⟩ := Prod.mk.inj h
    obtain rfl := Except.ok.inj hresult
    exact ⟨.refl _ before, hread, by simp only; omega⟩
  · split at h
    · cases (Prod.mk.inj h).1
    · rename_i made hmade
      rw [hmade] at hparent
      split at h
      · cases (Prod.mk.inj h).1
      · rename_i written hwritten
        obtain ⟨hresult, rfl⟩ := Prod.mk.inj h
        obtain rfl := Except.ok.inj hresult
        obtain ⟨hchanges, hread⟩ := write_text_spec hwritten
        refine ⟨?_, hread, by simp only; omega⟩
        have hmade := hparent.mono fun location (hnever : False) =>
          (hnever.elim : before.aim? path = some location)
        refine hmade.trans (hchanges.mono fun location haim => ?_)
        rw [← aim?_eq hparent.working, haim]

/-- A step fails by what the storage cannot do. -/
theorem writeFile_error {failure : Failure}
    (h : before.perform (storage.writeFile root summary file) = (.error failure, after)) :
    ∃ path, failure = .storage path := by
  rw [perform_writeFile] at h
  split at h
  · cases (Prod.mk.inj h).1
  · split at h
    · exact ⟨_, (Except.error.inj (Prod.mk.inj h).1).symm⟩
    · split at h
      · exact ⟨_, (Except.error.inj (Prod.mk.inj h).1).symm⟩
      · cases (Prod.mk.inj h).1

/-- A file that has its content is passed over. -/
theorem writeFile_of_read (h : files.read (Path.join root file.1) = some file.2) :
    files.perform (storage.writeFile root summary file) =
      (.ok { summary with unchanged := summary.unchanged + 1 }, files) := by
  rw [perform_writeFile, if_pos h]

end Step

section Run

/-- The locations that a pass over files aims at. -/
def Targets (files : FileSystem) (root : String) (entries : List (String × String))
    (location : Location) : Prop :=
  ∃ file ∈ entries, files.aim? (Path.join root file.1) = some location

/-- No two files have the same aim. -/
def AimsApart (files : FileSystem) (root : String) (entries : List (String × String)) : Prop :=
  entries.Pairwise fun a b => ∀ location, files.aim? (Path.join root a.1) = some location →
    files.aim? (Path.join root b.1) ≠ some location

/-- After a pass that succeeds, every file has its content, nothing else was touched, and every file
is counted. -/
theorem foldlM_writeFile_spec (hapart : before.AimsApart root entries)
    (h : before.perform (entries.foldlM (storage.writeFile root) summary) = (.ok result, after)) :
    ChangesOnly (before.Targets root entries) before after ∧
      (∀ file ∈ entries, after.read (Path.join root file.1) = some file.2) ∧
      result.written + result.unchanged =
        summary.written + summary.unchanged + entries.length := by
  -- The step for the first file is undisturbed by the others, whose aims are different.
  induction entries generalizing before summary with
  | nil =>
    obtain ⟨hresult, rfl⟩ := Prod.mk.inj h
    obtain rfl := Except.ok.inj hresult
    exact ⟨.refl _ _, List.forall_mem_nil _, rfl⟩
  | cons file rest ih =>
    obtain ⟨hfirst, hrest⟩ := List.pairwise_cons.mp hapart
    rw [List.foldlM_cons] at h
    obtain ⟨counted, middle, hstep, hlater⟩ := perform_bind_eq_ok h
    obtain ⟨hchanges, hread, hcount⟩ := writeFile_spec hstep
    have haims : ∀ path, middle.aim? path = before.aim? path := aim?_eq hchanges.working
    have hrest' : middle.AimsApart root rest := by
      simpa only [AimsApart, haims] using hrest
    obtain ⟨hchanges', hreads, hcount'⟩ := ih hrest' hlater
    refine ⟨?_, ?_, ?_⟩
    · refine (hchanges.mono ?_).trans (hchanges'.mono ?_)
      · exact fun location haim => ⟨file, List.mem_cons_self, haim⟩
      · rintro location ⟨other, hother, haim⟩
        exact ⟨other, List.mem_cons_of_mem _ hother, haims _ ▸ haim⟩
    · intro other hother
      rcases List.mem_cons.mp hother with rfl | hother
      · refine hchanges'.read hread ?_
        rintro location haim ⟨later, hlisted, hsame⟩
        rw [haims] at haim hsame
        exact hfirst later hlisted location haim hsame
      · exact hreads other hother
    · rw [List.length_cons]
      omega

/-- A pass over files that have their contents counts them and leaves everything. -/
theorem foldlM_writeFile_of_reads
    (h : ∀ file ∈ entries, files.read (Path.join root file.1) = some file.2) :
    files.perform (entries.foldlM (storage.writeFile root) summary) =
      (.ok { summary with unchanged := summary.unchanged + entries.length }, files) := by
  induction entries generalizing summary with
  | nil => rfl
  | cons file rest ih =>
    obtain ⟨hfile, hrest⟩ := List.forall_mem_cons.mp h
    rw [List.foldlM_cons, perform_bind, writeFile_of_read hfile]
    dsimp only
    rw [ih hrest, List.length_cons, Nat.add_right_comm, Nat.add_assoc]

/-- A pass fails by what the storage cannot do. -/
theorem foldlM_writeFile_error {failure : Failure}
    (h : before.perform (entries.foldlM (storage.writeFile root) summary) =
      (.error failure, after)) :
    ∃ path, failure = .storage path := by
  induction entries generalizing before summary with
  | nil => cases (Prod.mk.inj h).1
  | cons file rest ih =>
    rw [List.foldlM_cons] at h
    rcases perform_bind_eq_error h with hstep | ⟨counted, middle, hlater⟩
    · exact writeFile_error hstep
    · exact ih hlater

end Run

section Maps

/-- The files of a map are written one by one, if their paths stay below the root. -/
theorem writeFiles_of_isPlain (h : ∀ path ∈ map.names, Path.isPlain path = true) :
    storage.writeFiles root map = map.entries.foldlM (storage.writeFile root) {} := by
  have hnone : map.names.find? (fun path => !Path.isPlain path) = none := by
    refine List.find?_eq_none.mpr fun path hpath => ?_
    simp [h path hpath]
  rw [Storage.writeFiles, hnone]

/-- What a pass over a map of files does to a file system: the files can be read, nothing else has
changed, all files are counted, and a further pass does nothing. -/
structure Written (root : String) (map : NameMap String) (before after : FileSystem)
    (summary : WriteSummary) : Prop where
  /-- Every path below the root reads back what the map has for it. -/
  content : ∀ path content, map.find? path = some content →
    after.read (Path.join root path) = some content
  /-- Elsewhere files and directories are what they were, up to directories that were made. -/
  elsewhere : ∀ location,
    (∀ path ∈ map.names, after.locate (Path.join root path) ≠ some location) →
      after.find? location = before.find? location ∨
        (before.find? location = none ∧ after.find? location = some .directory)
  /-- Every file is counted once. -/
  counted : summary.written + summary.unchanged = map.size
  /-- A further pass finds nothing to do and leaves everything. -/
  again : after.perform (storage.writeFiles root map) = (.ok ⟨0, map.size⟩, after)

/-- A pass that succeeds has done its work, if the paths stay below the root and have different
aims. -/
theorem written_of_aimsApart (hplain : ∀ path ∈ map.names, Path.isPlain path = true)
    (hapart : before.AimsApart root map.entries)
    (h : before.perform (storage.writeFiles root map) = (.ok summary, after)) :
    Written root map before after summary := by
  rw [writeFiles_of_isPlain hplain] at h
  obtain ⟨hchanges, hreads, hcount⟩ := foldlM_writeFile_spec hapart h
  refine ⟨?_, ?_, ?_, ?_⟩
  · intro path content hfound
    exact hreads (path, content) (NameMap.mem_entries_iff.mpr hfound)
  · intro location helsewhere
    rcases hchanges.node location with hsame | hmade | ⟨⟨file, hfile, haim⟩, -, -⟩
    · exact .inl hsame
    · exact .inr hmade
    · -- A target that can be read is located at its aim.
      obtain ⟨place, hplace, -⟩ := read_eq_some_iff.mp (hreads file hfile)
      have hsame := aim?_of_locate hplace
      rw [aim?_eq hchanges.working, haim] at hsame
      rw [Option.some.inj hsame] at helsewhere
      exact absurd hplace (helsewhere file.1 (List.mem_map_of_mem hfile))
  · simpa [NameMap.size] using hcount
  · rw [writeFiles_of_isPlain hplain, foldlM_writeFile_of_reads hreads]
    simp [NameMap.size]

end Maps

end TypedApi.FileSystem
