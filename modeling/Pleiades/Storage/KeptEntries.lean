import Pleiades.Storage.LiveFiles

/-!
# Entries of files that exist

A file that is on disk keeps its entry through a flush as long as nobody takes the entry
out of the index behind a check of an older state of the directory.
-/
namespace Pleiades.Storage

open Lib Gguf

namespace Store

/-- A regular file is on disk. -/
def stored (s : Store) (f : FileId) : Bool :=
  match s.disk f with
  | some (.file _) => true
  | _ => false

def listed (s : Store) (f : FileId) : Bool := (s.entry f).isSome

/-- A write guard of the file is live. -/
def written (s : Store) (f : FileId) : Bool :=
  s.tasks.any fun
    | .acquire .write g (.holding _) => g = f
    | _ => false

/-- Flush `i` is in its clean-up phase. -/
def cleaning (s : Store) (i : ℕ) : Bool :=
  match s.tasks[i]? with
  | some (.flush (.zombies _)) | some (.flush (.clean _)) => true
  | _ => false

end Store

/-- The output that a conversion writes. -/
def Task.writes : Task → Option FileId
  | .flush (.create f _ _) | .flush (.write f _ _) => some (pggufName f)
  | _ => none

/-- From outside, the file is created by the holder of a write guard only. -/
def authored (f : FileId) (s : Store) : Action → Bool
  | .external g (some (.file _)) => g != f || s.stored f || s.written f
  | _ => true

/-- If the step takes the entry of the file out of the index, no task uses its lock. -/
def freesEntry (f : FileId) (s : Store) : Action → Bool
  | .run i _ => s.tasks[i]?.bind (Task.unlists s) != some f || (s.lockOf f).all s.unused
  | _ => true

/-- The step does not take the entry of a file that is on disk out of the index. -/
def unlistsGone (f : FileId) (s : Store) : Action → Bool
  | .run i _ => s.tasks[i]?.bind (Task.unlists s) != some f || !s.stored f
  | _ => true

/-- If the step is a conversion that brings the file, the file has an entry. -/
def convertsListed (f : FileId) (s : Store) : Action → Bool
  | .run i _ => s.tasks[i]?.bind Task.writes != some f || s.stored f || s.listed f
  | _ => true

/-- Flush `i` from a state with an entry of the file to the state in which it returns, the
file being on disk all through its clean-up. -/
structure Spans (lib : Library) (i : ℕ) (f : FileId) (s : Store) (tr : List (Store × Action)) (s' : Store) :
    Prop where
  running : ∃ pc, s.tasks[i]? = some (.flush pc)
  listed : s.listed f = true
  run : Run (Store.step lib) s tr s'
  returns : s'.tasks[i]? = some (.flush (.clean []))
  stored : ∀ p ∈ tr, p.1.cleaning i = true → p.1.stored f = true
  stays : s'.stored f = true

/-- Flush `i` returns with an entry of the file. -/
def ReturnsListed (lib : Library) (i : ℕ) (f : FileId) (s : Store) : Prop :=
  ∀ choice s', s.step lib (.run i choice) = some s' → s'.listed f = true

/-- The locks for which tasks of the file wait or that they hold are that of its entry. -/
def Listed (f : FileId) (s : Store) : Prop :=
  ∀ t ∈ s.tasks, ∀ lock, t.uses = some (f, lock) → s.lockOf f = some lock

variable {lib : Library} {s s' : Store} {t : Task} {m : Move} {choice : Choice} {i : ℕ} {f g : FileId}

theorem listed_eq : s.listed f = (s.lockOf f).isSome := by
  rw [Store.listed, Store.lockOf, Index.lockOf, Option.isSome_map]
  rfl

theorem stored_congr (same : s'.disk f = s.disk f) : s'.stored f = s.stored f := by
  rw [Store.stored, same, Store.stored]

theorem IndexChange.listed (change : IndexChange s t m.index) (listed : s.listed f = true)
    (stays : t.unlists s ≠ some f) : (s.apply i m).listed f = true := by
  rw [listed_eq] at listed ⊢
  obtain ⟨lock, listed⟩ := Option.isSome_iff_exists.mp listed
  exact Option.isSome_iff_exists.mpr ⟨lock, change.lockOf listed stays⟩

/-- A task that gets to use a lock of the file is an acquisition of the file. -/
theorem move_uses_file {lock : ℕ} (h : s.move lib choice t = some m) (used : m.next.uses = some (f, lock)) :
    ∃ kind pc, t = .acquire kind f pc := by
  cases moved_of_move h with
  | queues | lists | granted =>
      cases used
      exact ⟨_, _, rfl⟩
  | goes plain | removes plain | unlists plain | resizes plain | adds plain | replaces plain =>
      cases (Task.uses_of_plain plain).symm.trans used
  | writes onward =>
      rcases onward with rfl | plain
      · cases used
      · cases (Task.uses_of_plain plain).symm.trans used
  | probes | converts | creates => cases used

/-- Only conversions bring files. -/
theorem move_creates {node : Node} (h : s.move lib choice t = some m) (brought : m.disk = some (g, some node)) :
    t.writes = some g := by
  cases moved_of_move h with
  | creates | writes =>
      cases brought
      rfl
  | goes | queues | lists | granted | probes | removes | unlists | resizes | adds | converts | replaces => cases brought

theorem unlists_of_writes (writes : t.writes = some f) : t.unlists s = none := by
  cases t with
  | flush pc => cases pc <;> first | rfl | cases writes
  | _ => cases writes

theorem dropMove_unlists (h : s.dropMove t = some m) : t.unlists s ≠ some f := by
  cases t with
  | acquire kind g pc => exact (Option.some_ne_none f).symm
  | _ => cases h

theorem freesEntry_run {lock : ℕ} (frees : freesEntry f s (.run i choice) = true) (found : s.tasks[i]? = some t)
    (unlisted : t.unlists s = some f) (listed : s.lockOf f = some lock) : s.unused lock = true := by
  simpa [freesEntry, found, unlisted, listed] using frees

theorem unlistsGone_run (gone : unlistsGone f s (.run i choice) = true) (found : s.tasks[i]? = some t)
    (stored : s.stored f = true) : t.unlists s ≠ some f := by
  intro unlisted
  simp [unlistsGone, found, unlisted, stored] at gone

theorem Listed.opened (disk : FileId → Option Node) (listing : List FileId) : Listed f (.opened disk listing) := by
  intro t member
  cases member

theorem Listed.apply (listed : Listed f s) (change : IndexChange s t m.index)
    (uses : ∀ lock, m.next.uses = some (f, lock) → (s.apply i m).lockOf f = some lock)
    (unused : t.unlists s = some f → ∀ lock, s.lockOf f = some lock → s.unused lock = true) :
    Listed f (s.apply i m) := by
  intro t' member lock used
  rcases List.mem_or_eq_of_mem_set member with old | rfl
  · have before := listed t' old lock used
    apply change.lockOf before
    intro unlisted
    exact unused_ne (unused unlisted lock before) old f used
  · exact uses lock used

theorem Listed.step {a : Action} (listed : Listed f s) (frees : freesEntry f s a = true)
    (h : s.step lib a = some s') : Listed f s' := by
  cases stepped_of_step h with
  | @call c =>
      intro t member lock used
      rcases List.mem_append.mp member with old | new
      · exact listed t old lock used
      · rw [List.mem_singleton.mp new] at used
        cases c <;> cases used
  | run found moved =>
      apply listed.apply (move_index moved)
      · intro lock used
        obtain ⟨kind, pc, rfl⟩ := move_uses_file moved used
        refine move_uses moved (fun g l uses => ?_) f lock used
        have own : g = f := by cases pc <;> cases uses <;> rfl
        subst own
        exact listed _ (List.mem_of_getElem? found) l uses
      · exact fun unlisted lock => freesEntry_run frees found unlisted
  | drop _ dropped =>
      obtain ⟨ended, change⟩ := dropMove_spec dropped
      apply listed.apply change
      · intro lock used
        rw [ended] at used
        cases used
      · exact fun unlisted => absurd unlisted (dropMove_unlists dropped)
  | external => exact listed

theorem Listed.written (listed : Listed f s) (written : s.written f = true) : s.listed f = true := by
  obtain ⟨t, member, writes⟩ := List.any_eq_true.mp written
  split at writes
  · next lock =>
      obtain rfl := of_decide_eq_true writes
      rw [listed_eq, listed _ member lock rfl]
      rfl
  · cases writes

/-- A file on disk has an entry. -/
def Backed (f : FileId) (s : Store) : Prop := s.stored f = true → s.listed f = true

theorem Backed.run (backed : Backed f s) (found : s.tasks[i]? = some t)
    (gone : unlistsGone f s (.run i choice) = true) (converts : convertsListed f s (.run i choice) = true)
    (moved : s.move lib choice t = some m) : Backed f (s.apply i m) := by
  intro stored
  have change := move_index moved
  have kept (same : (s.apply i m).disk f = s.disk f) : (s.apply i m).listed f = true := by
    rw [stored_congr same] at stored
    exact change.listed (backed stored) (unlistsGone_run gone found stored)
  cases changed : m.disk with
  | none => exact kept (by simp only [Store.apply, changed])
  | some put =>
      obtain ⟨g, node⟩ := put
      by_cases same : f = g
      · subst same
        cases node with
        | none => simp [Store.stored, Store.apply, changed] at stored
        | some node =>
            have writes := move_creates moved changed
            have before : s.listed f = true := by
              simp only [convertsListed, found, Option.bind_some, writes, bne_self_eq_false, Bool.false_or,
                Bool.or_eq_true] at converts
              exact converts.elim backed id
            exact change.listed before (ne_of_eq_of_ne (unlists_of_writes writes) (Option.some_ne_none f).symm)
      · exact kept (by simp only [Store.apply, changed, Function.update_of_ne same])

theorem Backed.step {a : Action} (backed : Backed f s) (listed : Listed f s) (authored : authored f s a = true)
    (gone : unlistsGone f s a = true) (converts : convertsListed f s a = true) (h : s.step lib a = some s') :
    Backed f s' := by
  cases stepped_of_step h with
  | call => exact backed
  | run found moved => exact backed.run found gone converts moved
  | @drop i t m _ dropped =>
      intro stored
      have same : (s.apply i m).disk f = s.disk f := by simp only [Store.apply, dropMove_disk dropped]
      rw [stored_congr same] at stored
      exact (dropMove_spec dropped).2.listed (backed stored) (dropMove_unlists dropped)
  | @external g node =>
      intro stored
      by_cases same : f = g
      · subst same
        simp only [Store.stored, Function.update_self] at stored
        split at stored
        · simp only [Storage.authored, bne_self_eq_false, Bool.false_or, Bool.or_eq_true] at authored
          exact authored.elim backed listed.written
        · cases stored
      · exact backed ((stored_congr (Function.update_of_ne same ..)).symm.trans stored)

/-- The step neither loses the entry of the file nor brings the file without one. -/
structure Keeps (f : FileId) (s : Store) (a : Action) : Prop where
  authors : authored f s a = true
  frees : freesEntry f s a = true
  gone : unlistsGone f s a = true
  converts : convertsListed f s a = true

theorem Keeps.step {a : Action} (keeps : Keeps f s a) (held : Listed f s ∧ Backed f s)
    (h : s.step lib a = some s') : Listed f s' ∧ Backed f s' :=
  ⟨held.1.step keeps.frees h, held.2.step held.1 keeps.authors keeps.gone keeps.converts h⟩

/-- In a run that takes the entry of a file out of the index only while its lock is unused
and, once the flush has seen it there, only while the file is gone, and whose conversions
bring the file only while it has an entry, the flush returns with an entry of a file that
exists. -/
theorem flush_keeps_entries {disk : FileId → Option Node} {listing : List FileId}
    {tr tr' : List (Store × Action)} (before : Run (Store.step lib) (.opened disk listing) tr s)
    (spans : Spans lib i f s tr' s') (authors : ∀ p ∈ tr', authored f p.1 p.2 = true)
    (frees : ∀ p ∈ tr ++ tr', freesEntry f p.1 p.2 = true)
    (gone : ∀ p ∈ tr', unlistsGone f p.1 p.2 = true) (converts : ∀ p ∈ tr', convertsListed f p.1 p.2 = true) :
    ReturnsListed lib i f s' := by
  have start : Listed f s :=
    before.invariant (fun p member => frees p (List.mem_append_left _ member)) (Listed.opened disk listing)
      fun listed frees h => listed.step frees h
  have keeps : ∀ p ∈ tr', Keeps f p.1 p.2 := fun p member =>
    ⟨authors p member, frees p (List.mem_append_right _ member), gone p member, converts p member⟩
  have held : Listed f s' ∧ Backed f s' :=
    spans.run.invariant keeps (I := fun s => Listed f s ∧ Backed f s) ⟨start, fun _ => spans.listed⟩
      fun held keeps h => keeps.step held h
  intro choice s'' returned
  simp only [Store.step, spans.returns, Option.bind_some, Store.move, Store.flushMove, Option.map_some] at returned
  cases returned
  exact held.2 spans.stays

/-- A flush begins, and a writer of a file gets its guard. -/
def writerDuringFlush (f : FileId) : List Action := [.call .flush, .call (.acquire .write f)] ++ steps 1 3

/-- The file is written before the scan gets to it. -/
theorem flush_keeps_entries_scanned : ∃ tr s tr' s', Run (Store.step sortedLibrary) (.opened (fun _ => none) []) tr s ∧
    Spans sortedLibrary 0 "a" s tr' s' ∧ ReturnsListed sortedLibrary 0 "a" s' := by
  let actions : List Action := [Action.external "a" (some (.file [1])), .drop 1, .run 0 (.entry "a")] ++ steps 0 3 ++
    [Action.run 0 .exhausted] ++ steps 0 1
  have runs : ((exec (Store.step sortedLibrary) (.opened (fun _ => none) []) (writerDuringFlush "a")).bind fun s =>
      (exec (Store.step sortedLibrary) s actions).map fun s' =>
        (s.tasks[0]?, s'.tasks[0]?, s.listed "a" && s'.stored "a" &&
          (trace (Store.step sortedLibrary) s actions).all fun p => (!p.1.cleaning 0 || p.1.stored "a") &&
            authored "a" p.1 p.2 && freesEntry "a" p.1 p.2 && unlistsGone "a" p.1 p.2 && convertsListed "a" p.1 p.2)) =
      some (some (.flush (.scan [])), some (.flush (.clean [])), true) := by
    decide +kernel
  have frees : (trace (Store.step sortedLibrary) (.opened (fun _ => none) []) (writerDuringFlush "a")).all
      (fun p => freesEntry "a" p.1 p.2) = true := by
    decide +kernel
  obtain ⟨s, done, final⟩ := Option.bind_eq_some_iff.mp runs
  obtain ⟨s', done', final⟩ := Option.map_eq_some_iff.mp final
  simp only [Prod.mk.injEq, List.all_eq_true, Bool.and_eq_true] at final frees
  obtain ⟨running, returns, ⟨listed, stays⟩, good⟩ := final
  have spans : Spans sortedLibrary 0 "a" s (trace (Store.step sortedLibrary) s actions) s' := by
    refine ⟨⟨_, running⟩, listed, exec_run done', returns, fun p member cleaning => ?_, stays⟩
    simpa [cleaning] using (good p member).1.1.1.1
  refine ⟨_, s, _, s', exec_run done, spans, ?_⟩
  apply flush_keeps_entries (exec_run done) spans
  · exact fun p member => (good p member).1.1.1.2
  · exact List.forall_mem_append.mpr ⟨frees, fun p member => (good p member).1.1.2⟩
  · exact fun p member => (good p member).1.2
  · exact fun p member => (good p member).2

/-- The file is written behind the scan, and the clean-up takes its entry for one without
a file. -/
theorem flush_keeps_entries_counterexample :
    ∃ tr s tr' s', Run (Store.step sortedLibrary) (.opened (fun _ => none) []) tr s ∧
      Spans sortedLibrary 0 "a" s tr' s' ∧ (∀ p ∈ tr', authored "a" p.1 p.2 = true) ∧
      ¬ ReturnsListed sortedLibrary 0 "a" s' := by
  let actions : List Action := [Action.external "a" (some (.file [1])), .drop 1, .run 0 .exhausted] ++ steps 0 2
  have runs : ((exec (Store.step sortedLibrary) (.opened (fun _ => none) []) (writerDuringFlush "a")).bind fun s =>
      (exec (Store.step sortedLibrary) s actions).map fun s' =>
        (s.tasks[0]?, s'.tasks[0]?, s.listed "a" && s'.stored "a" &&
          (trace (Store.step sortedLibrary) s actions).all fun p => (!p.1.cleaning 0 || p.1.stored "a") &&
            authored "a" p.1 p.2, (s'.step sortedLibrary (.run 0 .ok)).map fun s'' => s''.listed "a")) =
      some (some (.flush (.scan [])), some (.flush (.clean [])), true, some false) := by
    decide +kernel
  obtain ⟨s, done, final⟩ := Option.bind_eq_some_iff.mp runs
  obtain ⟨s', done', final⟩ := Option.map_eq_some_iff.mp final
  simp only [Prod.mk.injEq, List.all_eq_true, Bool.and_eq_true] at final
  obtain ⟨running, returns, ⟨⟨listed, stays⟩, good⟩, last⟩ := final
  obtain ⟨s'', returned, unlisted⟩ := Option.map_eq_some_iff.mp last
  have spans : Spans sortedLibrary 0 "a" s (trace (Store.step sortedLibrary) s actions) s' := by
    refine ⟨⟨_, running⟩, listed, exec_run done', returns, fun p member cleaning => ?_, stays⟩
    simpa [cleaning] using (good p member).1
  refine ⟨_, s, _, s', exec_run done, spans, fun p member => (good p member).2, ?_⟩
  intro kept
  have still := kept .ok s'' returned
  rw [unlisted] at still
  cases still

end Pleiades.Storage
