import TypedApi.Proofs.Path.Components
import TypedApi.Proofs.Storage.Writing

/-!
# What a pass asks a storage for

A storage can keep a record of what it is asked for. The record changes nothing about the work: it
answers the same and leaves the same file system. A pass over files whose paths are plain asks for
nothing but the root and what lies below it, by the steps of its paths.
-/

namespace TypedApi

/-- Something that a storage is asked for. -/
inductive Access where
  | read (path : String)
  | holds (path : String)
  | makeDirectories (path : String)
  | write (path : String)
  deriving DecidableEq, Repr

/-- The path that is asked for. -/
def Access.path : Access → String
  | .read path => path
  | .holds path => path
  | .makeDirectories path => path
  | .write path => path

/-- A storage that keeps a record of what it is asked for, in order. -/
def Storage.recording {m : Type → Type} [Monad m] (storage : Storage m) :
    Storage (StateT (List Access) m) where
  read path := do
    modify (· ++ [.read path])
    storage.read path
  holds path := do
    modify (· ++ [.holds path])
    storage.holds path
  makeDirectories path := do
    modify (· ++ [.makeDirectories path])
    storage.makeDirectories path
  write path content := do
    modify (· ++ [.write path])
    storage.write path content

namespace FileSystem

variable {α β : Type} {P Q : Access → Prop}

/-- Work on a recording storage does what the work without a record does, and asks for nothing but
what satisfies a predicate. -/
def Records (P : Access → Prop)
    (recorded : ExceptT Failure (StateT (List Access) (StateM FileSystem)) α)
    (plain : ExceptT Failure (StateM FileSystem) α) : Prop :=
  ∀ files log, ∃ more, (∀ access ∈ more, P access) ∧
    (recorded.run.run log).run files =
      (((files.perform plain).1, log ++ more), (files.perform plain).2)

/-- More may be asked for. -/
theorem Records.mono {recorded : ExceptT Failure (StateT (List Access) (StateM FileSystem)) α}
    {plain : ExceptT Failure (StateM FileSystem) α} (h : Records P recorded plain)
    (hmore : ∀ access, P access → Q access) : Records Q recorded plain := by
  intro files log
  obtain ⟨more, hasked, hrun⟩ := h files log
  exact ⟨more, fun access haccess => hmore access (hasked access haccess), hrun⟩

/-- Work that asks for nothing. -/
theorem Records.pure (value : α) : Records P (Pure.pure value) (Pure.pure value) :=
  fun files log => ⟨[], List.forall_mem_nil _, by rw [List.append_nil]; rfl⟩

/-- Work that fails. -/
theorem Records.throw (failure : Failure) :
    Records (α := α) P (MonadExcept.throw failure) (MonadExcept.throw failure) :=
  fun files log => ⟨[], List.forall_mem_nil _, by rw [List.append_nil]; rfl⟩

/-- Work after work. -/
theorem Records.bind {recorded : ExceptT Failure (StateT (List Access) (StateM FileSystem)) α}
    {plain : ExceptT Failure (StateM FileSystem) α}
    {recordedNext : α → ExceptT Failure (StateT (List Access) (StateM FileSystem)) β}
    {plainNext : α → ExceptT Failure (StateM FileSystem) β} (h : Records P recorded plain)
    (hnext : ∀ value, Records P (recordedNext value) (plainNext value)) :
    Records P (recorded >>= recordedNext) (plain >>= plainNext) := by
  intro files log
  obtain ⟨more, hmore, hrun⟩ := h files log
  rw [perform_bind]
  simp only [ExceptT.run_bind, StateT.run_bind, hrun]
  rcases files.perform plain with ⟨failure | value, after⟩
  · exact ⟨more, hmore, rfl⟩
  · obtain ⟨later, hlater, hrunLater⟩ := hnext value after (log ++ more)
    refine ⟨more ++ later, List.forall_mem_append.mpr ⟨hmore, hlater⟩, ?_⟩
    rw [← List.append_assoc]
    exact hrunLater

/-- Asking for something. -/
theorem Records.ask {access : Access} (h : P access) (operation : StateM FileSystem α) :
    Records P
      (liftM (m := StateT (List Access) (StateM FileSystem)) do
        modify (· ++ [access])
        operation)
      (liftM operation) :=
  fun _ _ => ⟨[access], List.forall_mem_singleton.mpr h, rfl⟩

variable {root : String} {map : NameMap String}

/-- The paths that a step for a file asks for: that of the file, and that of its directory. -/
def Concerns (root : String) (key : String) (access : Access) : Prop :=
  access.path = Path.join root key ∨ Path.parent? (Path.join root key) = some access.path

/-- A step for a file asks for the file and its directory. -/
theorem records_writeFile (root : String) (summary : WriteSummary) (file : String × String) :
    Records (Concerns root file.1) (storage.recording.writeFile root summary file)
      (storage.writeFile root summary file) := by
  have hread : Concerns root file.1 (.read (Path.join root file.1)) := .inl rfl
  have hwrite : Concerns root file.1 (.write (Path.join root file.1)) := .inl rfl
  simp only [Storage.writeFile]
  refine (Records.ask hread _).bind fun held => ?_
  split
  · exact .pure _
  · split
    · rename_i parent hparent
      refine (Records.ask (.inr hparent) _).bind fun made => ?_
      cases made
      · exact Records.throw _
      · refine (Records.ask hwrite _).bind fun written => ?_
        cases written
        · exact .throw _
        · exact .pure _
    · refine (Records.ask hwrite _).bind fun written => ?_
      cases written
      · exact .throw _
      · exact .pure _

/-- A pass over files asks for the files and their directories. -/
theorem records_foldlM_writeFile (root : String) (entries : List (String × String))
    (summary : WriteSummary) :
    Records (fun access => ∃ file ∈ entries, Concerns root file.1 access)
      (entries.foldlM (storage.recording.writeFile root) summary)
      (entries.foldlM (storage.writeFile root) summary) := by
  induction entries generalizing summary with
  | nil => exact .pure _
  | cons file rest ih =>
    rw [List.foldlM_cons, List.foldlM_cons]
    refine ((records_writeFile root summary file).mono fun access hasked => ?_).bind fun counted =>
      (ih counted).mono fun access hasked => ?_
    · exact ⟨file, List.mem_cons_self, hasked⟩
    · obtain ⟨later, hlater, hasked⟩ := hasked
      exact ⟨later, List.mem_cons_of_mem _ hlater, hasked⟩

/-- A pass over a map of files asks for the files and their directories, and for nothing if one of
the paths is not plain. -/
theorem records_writeFiles (root : String) (map : NameMap String) :
    Records
      (fun access => (∀ path ∈ map.names, Path.isPlain path = true) ∧
        ∃ path ∈ map.names, Concerns root path access)
      (storage.recording.writeFiles root map) (storage.writeFiles root map) := by
  rw [Storage.writeFiles, Storage.writeFiles]
  split
  · exact .throw _
  · rename_i hplain
    refine (records_foldlM_writeFile root map.entries {}).mono fun access hasked => ?_
    obtain ⟨file, hfile, hasked⟩ := hasked
    refine ⟨fun path hpath => ?_, file.1, List.mem_map_of_mem hfile, hasked⟩
    simpa using List.find?_eq_none.mp hplain path hpath

/-- What a pass over a map of files asks for, in order. -/
def accesses (files : FileSystem) (root : String) (map : NameMap String) : List Access :=
  ((storage.recording.writeFiles root map).run.run [] |>.run files).1.2

end FileSystem

end TypedApi
