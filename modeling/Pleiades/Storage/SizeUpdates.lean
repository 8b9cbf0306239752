import Pleiades.Storage.KeptEntries

/-!
# Sizes that write guards record

The drop of a write guard records the size of its file if it finds the index unlocked: what
becomes of the record until the file changes.
-/
namespace Pleiades.Storage

open Lib Gguf

/-- The entry of the file has the size. -/
def Recorded (f : FileId) (size : ℕ) (s : Store) : Prop := (s.entry f).map FileEntry.size = some size

/-- A flush that refreshes the size of the file has the size that the file has. -/
def refreshesTrue (f : FileId) (s : Store) : Action → Bool
  | .run i _ =>
    match s.tasks[i]? with
    | some (.flush (.refresh g size _)) => g != f || (s.disk f).map Node.size == some size
    | _ => true
  | _ => true

/-- A write guard of a file that is on disk is dropped, and the file stays as it is. -/
structure Dropped (lib : Library) (i : ℕ) (f : FileId) (bytes : List UInt8) (s s' : Store)
    (tr : List (Store × Action)) (s'' : Store) : Prop where
  guard : ∃ lock, s.Guarded i .write f lock
  there : s.disk f = some (.file bytes)
  dropped : s.step lib (.drop i) = some s'
  run : Run (Store.step lib) s' tr s''
  unchanged : ∀ p ∈ tr, p.1.disk f = some (.file bytes)
  stays : s''.disk f = some (.file bytes)

variable {lib : Library} {s s' : Store} {t : Task} {m : Move} {choice : Choice} {i : ℕ} {f g : FileId} {size : ℕ}

/-- Only the refresh of a flush changes a size that is recorded. -/
theorem move_resize (h : s.move lib choice t = some m) (resized : m.index = .resize g size) :
    ∃ seen, t = .flush (.refresh g size seen) := by
  cases moved_of_move h with
  | resizes =>
      cases resized
      exact ⟨_, rfl⟩
  | goes | queues | lists | granted | probes | removes | unlists | adds | converts | creates | writes | replaces =>
      cases resized

/-- A drop records the size that the file has. -/
theorem dropMove_resize (h : s.dropMove t = some m) (resized : m.index = .resize g size) :
    (s.disk g).map Node.size = some size := by
  unfold Store.dropMove at h
  split at h
  · cases h
    cases resized
  · split at h
    · next there =>
        cases h
        cases resized
        exact congrArg (Option.map Node.size) there
    · cases h
      cases resized
  · cases h

theorem Recorded.apply (recorded : Recorded f size s) (change : IndexChange s t m.index)
    (stays : t.unlists s ≠ some f) (true_size : ∀ size', m.index = .resize f size' → size' = size) :
    Recorded f size (s.apply i m) := by
  obtain ⟨e, entry, rfl⟩ := Option.map_eq_some_iff.mp recorded
  rw [Recorded, Store.entry, Store.apply]
  generalize m.index = op at change true_size
  cases change with
  | keep => exact recorded
  | resize g size' =>
      rw [Index.entry_resize, show s.index.entry f = some e from entry, Option.map_some, Option.map_some]
      split
      · next same => rw [true_size size' (by rw [same])]
      · rfl
  | insert g size' absent =>
      have other : f ≠ g := by
        rintro rfl
        cases entry.symm.trans absent
      rw [Index.entry_insert_ne other]
      exact recorded
  | remove g unlisted =>
      have other : f ≠ g := by
        rintro rfl
        exact stays unlisted
      rw [Index.entry_remove_ne other]
      exact recorded

/-- A recorded size stays as long as the file does. -/
theorem Recorded.step {a : Action} {bytes : List UInt8} (recorded : Recorded f bytes.length s)
    (there : s.disk f = some (.file bytes)) (gone : unlistsGone f s a = true)
    (refreshes : refreshesTrue f s a = true) (h : s.step lib a = some s') : Recorded f bytes.length s' := by
  have stored : s.stored f = true := by rw [Store.stored, there]
  cases stepped_of_step h with
  | call => exact recorded
  | run found moved =>
      refine recorded.apply (move_index moved) (unlistsGone_run gone found stored) fun size' resized => ?_
      obtain ⟨seen, rfl⟩ := move_resize moved resized
      simp only [refreshesTrue, found, there, bne_self_eq_false, Bool.false_or, beq_iff_eq, Option.map_some,
        Option.some.injEq] at refreshes
      exact refreshes.symm
  | drop _ dropped =>
      refine recorded.apply (dropMove_spec dropped).2 (dropMove_unlists dropped) fun size' resized => ?_
      have now := dropMove_resize dropped resized
      rw [there] at now
      exact (Option.some.inj now).symm
  | external => exact recorded

/-- A drop that finds the index unlocked records the size of the file. -/
theorem Dropped.recorded {bytes : List UInt8} {tr : List (Store × Action)} {s'' : Store} (listed : Listed f s)
    (dropped : Dropped lib i f bytes s s' tr s'') (unlocked : s.indexWritable = true) :
    Recorded f bytes.length s' := by
  obtain ⟨lock, guard⟩ := dropped.guard
  have entry := listed _ (List.mem_of_getElem? guard) lock rfl
  obtain ⟨e, entry, -⟩ := Option.map_eq_some_iff.mp entry
  have step := dropped.dropped
  rw [Store.step, show s.tasks[i]? = _ from guard, Option.bind_some] at step
  simp only [Store.dropMove, unlocked, dropped.there, Option.map_some] at step
  cases step
  rw [Recorded, Store.entry, Store.apply, Index.entry_resize, entry]
  simp [Node.size]

/-- In a run that takes the entry of a file out of the index only while its lock is unused,
a guard is dropped while the index is unlocked: the size is recorded and stays so as long
as the entry is not taken out and no flush brings an older size. -/
theorem dropped_sizes_kept {disk : FileId → Option Node} {listing : List FileId} {bytes : List UInt8}
    {tr tr' : List (Store × Action)} {s'' : Store} (before : Run (Store.step lib) (.opened disk listing) tr s)
    (dropped : Dropped lib i f bytes s s' tr' s'') (frees : ∀ p ∈ tr, freesEntry f p.1 p.2 = true)
    (unlocked : s.indexWritable = true) (gone : ∀ p ∈ tr', unlistsGone f p.1 p.2 = true)
    (refreshes : ∀ p ∈ tr', refreshesTrue f p.1 p.2 = true) : Recorded f bytes.length s'' := by
  have listed : Listed f s :=
    before.invariant frees (Listed.opened disk listing) fun listed frees h => listed.step frees h
  have good : ∀ p ∈ tr', p.1.disk f = some (.file bytes) ∧ unlistsGone f p.1 p.2 = true ∧
      refreshesTrue f p.1 p.2 = true := fun p member =>
    ⟨dropped.unchanged p member, gone p member, refreshes p member⟩
  apply dropped.run.invariant (I := Recorded f bytes.length) (C := fun s a => s.disk f = some (.file bytes) ∧
    unlistsGone f s a = true ∧ refreshesTrue f s a = true) good
  · exact dropped.recorded listed unlocked
  · intro u a v recorded good h
    obtain ⟨there, gone, refreshes⟩ := good
    exact recorded.step there gone refreshes h

/-- A writer gets its guard of a new file and creates it. -/
def writeActions (f : FileId) (bytes : List UInt8) : List Action :=
  [.call (.acquire .write f)] ++ steps 0 3 ++ [.external f (some (.file bytes))]

/-- The file is flushed after its writer is done. -/
theorem dropped_sizes_kept_flushed : ∃ tr s s' tr' s'',
    Run (Store.step sortedLibrary) (.opened (fun _ => none) []) tr s ∧
      Dropped sortedLibrary 0 "a" [1, 2] s s' tr' s'' ∧ Recorded "a" 2 s'' := by
  let actions : List Action := [Action.call .flush, .run 1 (.entry "a")] ++ steps 1 3 ++
    [Action.run 1 .exhausted] ++ steps 1 2
  have runs : ((exec (Store.step sortedLibrary) (.opened (fun _ => none) []) (writeActions "a" [1, 2])).bind fun s =>
      (s.step sortedLibrary (.drop 0)).bind fun s' => (exec (Store.step sortedLibrary) s' actions).map fun s'' =>
        (s.tasks[0]?, s.disk "a", s''.disk "a", s.indexWritable && (trace (Store.step sortedLibrary) s' actions).all
          fun p => p.1.disk "a" = some (.file [1, 2]) && unlistsGone "a" p.1 p.2 && refreshesTrue "a" p.1 p.2)) =
      some (some (.acquire .write "a" (.holding 0)), some (.file [1, 2]), some (.file [1, 2]), true) := by
    decide +kernel
  have frees : (trace (Store.step sortedLibrary) (.opened (fun _ => none) []) (writeActions "a" [1, 2])).all
      (fun p => freesEntry "a" p.1 p.2) = true := by
    decide +kernel
  obtain ⟨s, done, final⟩ := Option.bind_eq_some_iff.mp runs
  obtain ⟨s', stepped, final⟩ := Option.bind_eq_some_iff.mp final
  obtain ⟨s'', done', final⟩ := Option.map_eq_some_iff.mp final
  simp only [Prod.mk.injEq, List.all_eq_true, Bool.and_eq_true, decide_eq_true_iff] at final frees
  obtain ⟨guard, there, stays, unlocked, good⟩ := final
  have dropped : Dropped sortedLibrary 0 "a" [1, 2] s s' (trace (Store.step sortedLibrary) s' actions) s'' :=
    ⟨⟨0, guard⟩, there, stepped, exec_run done', fun p member => (good p member).1.1, stays⟩
  refine ⟨_, s, s', _, s'', exec_run done, dropped, ?_⟩
  exact dropped_sizes_kept (exec_run done) dropped frees unlocked (fun p member => (good p member).1.2)
    fun p member => (good p member).2

/-- A guard is dropped while `Exists` holds the index: the entry keeps its first size. -/
theorem dropped_sizes_kept_counterexample : ∃ tr s s' tr' s'',
    Run (Store.step sortedLibrary) (.opened (fun _ => none) []) tr s ∧
      Dropped sortedLibrary 0 "a" [1] s s' tr' s'' ∧ ¬ Recorded "a" 1 s'' := by
  let actions : List Action := writeActions "a" [1] ++ [Action.call (.existence "a")] ++ steps 1 1
  have runs : ((exec (Store.step sortedLibrary) (.opened (fun _ => none) []) actions).bind fun s =>
      (s.step sortedLibrary (.drop 0)).map fun s' =>
        (s.tasks[0]?, s.disk "a", s'.disk "a", (s'.entry "a").map FileEntry.size)) =
      some (some (.acquire .write "a" (.holding 0)), some (.file [1]), some (.file [1]), some 0) := by
    decide +kernel
  obtain ⟨s, done, final⟩ := Option.bind_eq_some_iff.mp runs
  obtain ⟨s', stepped, final⟩ := Option.map_eq_some_iff.mp final
  simp only [Prod.mk.injEq] at final
  obtain ⟨guard, there, stays, size⟩ := final
  refine ⟨_, s, s', [], s', exec_run done, ⟨⟨0, guard⟩, there, stepped, .nil, nofun, stays⟩, ?_⟩
  intro recorded
  cases size.symm.trans recorded

end Pleiades.Storage
