import Pleiades.Lib.Table
import Pleiades.Storage.Manager

/-!
# Exclusion of guards

Two guards of one file exclude each other as long as both come from the lock of the
entry in the index: no entry may leave the index while its lock is in use.
-/
namespace Pleiades.Storage

open Lib Gguf

/-- The task at `i` is a live guard. -/
def Store.Guarded (s : Store) (i : ℕ) (kind : GuardKind) (f : FileId) (lock : ℕ) : Prop :=
  s.tasks[i]? = some (.acquire kind f (.holding lock))

/-- No write guard of a file is live together with another guard of the same file. -/
def Store.Exclusive (s : Store) : Prop :=
  ∀ {i j kind f lock lock'}, i ≠ j → s.Guarded i .write f lock → ¬ s.Guarded j kind f lock'

def Task.usesLock (lock : ℕ) (t : Task) : Bool :=
  match t.uses with
  | some (_, l) => l = lock
  | none => false

/-- No task waits for the lock or holds it. -/
def Store.unused (s : Store) (lock : ℕ) : Bool := s.tasks.all fun t => !t.usesLock lock

/-- The file whose entry the task's next step takes out of the index. -/
def Task.unlists (s : Store) : Task → Option FileId
  | .removeFile f .unlist => some f
  | .existsFile f .unlist => some f
  | .flush (.clean (f :: _)) =>
    match s.entry f with
    | some e => if s.idle e.lock then some f else none
    | none => none
  | _ => none

/-- If the step takes an entry out of the index, no task uses its lock. -/
def unlistsUnused (s : Store) : Action → Bool
  | .run i _ =>
    match s.tasks[i]?.bind (Task.unlists s) with
    | some f => (s.lockOf f).all s.unused
    | none => true
  | _ => true

variable {lib : Library} {s s' : Store} {t : Task} {m : Move} {choice : Choice}

theorem unused_ne {lock : ℕ} (unused : s.unused lock = true) (member : t ∈ s.tasks) (f : FileId) :
    t.uses ≠ some (f, lock) := by
  intro used
  have free := List.all_eq_true.mp unused t member
  simp [Task.usesLock, used] at free

theorem unlistsUnused_run {i : ℕ} {f : FileId} {lock : ℕ} (unused : unlistsUnused s (.run i choice) = true)
    (found : s.tasks[i]? = some t) (unlisted : t.unlists s = some f) (listed : s.lockOf f = some lock) :
    s.unused lock = true := by
  simpa [unlistsUnused, found, unlisted, listed] using unused

/-- Neither at a lock nor on the way to delete or to overwrite a file. -/
def Task.plain : Task → Bool
  | .acquire _ _ (.wait _) | .acquire _ _ (.holding _) => false
  | .removeFile _ .unlinkLocked => false
  | .flush (.create ..) | .flush (.write ..) | .flush (.unlink ..) => false
  | _ => true

theorem Task.uses_of_plain (plain : t.plain = true) : t.uses = none := by
  cases t with
  | acquire kind f pc =>
      cases pc with
      | lookup | stat | insert => rfl
      | wait | holding => cases plain
  | _ => rfl

/-- What a step of a task does, with what it has found. -/
inductive Moved (lib : Library) (s : Store) : Task → Move → Prop
  | goes {t next : Task} (plain : next.plain = true) : Moved lib s t { next }
  | queues {kind : GuardKind} {f : FileId} {pc : AcquirePc} {e : FileEntry} (found : s.entry f = some e) :
    Moved lib s (.acquire kind f pc) { next := .acquire kind f (.wait e.lock) }
  | lists {kind : GuardKind} {f : FileId} {size : ℕ} (missing : s.entry f = none) :
    Moved lib s (.acquire kind f (.insert size))
      { next := .acquire kind f (.wait s.nextLock), index := .insert f size }
  | granted {kind : GuardKind} {f : FileId} {lock : ℕ} (grants : s.grants lock kind = true) :
    Moved lib s (.acquire kind f (.wait lock)) { next := .acquire kind f (.holding lock) }
  | probes {f : FileId} {e : FileEntry} (found : s.entry f = some e) (idle : s.idle e.lock = true) :
    Moved lib s (.removeFile f .lock) { next := .removeFile f .unlinkLocked }
  | removes {f : FileId} {pc : RemovePc} {next : Task} (plain : next.plain = true)
      (unlinks : pc = .unlink ∨ pc = .unlinkLocked) :
    Moved lib s (.removeFile f pc) { next, disk := some (f, none) }
  | unlists {t : Task} {f : FileId} {next : Task} (plain : next.plain = true) (unlisted : t.unlists s = some f) :
    Moved lib s t { next, index := .remove f }
  | resizes {f : FileId} {size : ℕ} {seen : List FileId} {next : Task} (plain : next.plain = true) :
    Moved lib s (.flush (.refresh f size seen)) { next, index := .resize f size }
  | adds {f : FileId} {size : ℕ} {seen : List FileId} {next : Task} (plain : next.plain = true)
      (missing : s.entry f = none) :
    Moved lib s (.flush (.insert f size seen)) { next, index := .insert f size }
  | converts {f : FileId} {why : Reason} {seen : List FileId} {bytes : List UInt8}
      (found : s.disk f = some (.file bytes)) (begins : Store.conversion lib bytes = some true) :
    Moved lib s (.flush (.analyze f why seen)) { next := .flush (.create f why seen) }
  | creates {f : FileId} {why : Reason} {seen : List FileId} :
    Moved lib s (.flush (.create f why seen))
      { next := .flush (.write f why seen), disk := some (pggufName f, some (.file [])) }
  | writes {f : FileId} {why : Reason} {seen : List FileId} {bytes : List UInt8} {next : Task}
      (onward : next = .flush (.unlink f why seen) ∨ next.plain = true) :
    Moved lib s (.flush (.write f why seen)) { next, disk := some (pggufName f, some (.file bytes)) }
  | replaces {f : FileId} {why : Reason} {seen : List FileId} {next : Task} (plain : next.plain = true) :
    Moved lib s (.flush (.unlink f why seen)) { next, disk := some (f, none) }

theorem plain_flushFailed (f : FileId) (seen : List FileId) (why : Reason) :
    (Task.flush (Store.flushFailed f seen why)).plain = true := by
  cases why <;> rfl

theorem plain_flushAnalysed (f : FileId) (seen : List FileId) (why : Reason) :
    (Task.flush (Store.flushAnalysed f seen why)).plain = true := by
  cases why <;> rfl

theorem moved_of_acquireMove {kind : GuardKind} {f : FileId} {pc : AcquirePc}
    (h : s.acquireMove kind f pc choice = some m) : Moved lib s (.acquire kind f pc) m := by
  cases pc with
  | lookup =>
      simp only [Store.acquireMove] at h
      split at h
      · split at h
        · next found =>
            cases h
            exact .queues found
        · split at h <;> cases h <;> exact .goes rfl
      · cases h
  | stat =>
      cases choice with
      | ok =>
          simp only [Store.acquireMove] at h
          split at h <;> cases h <;> exact .goes rfl
      | _ =>
          cases h
          exact .goes rfl
  | insert size =>
      simp only [Store.acquireMove] at h
      split at h
      · split at h
        · next found =>
            cases h
            exact .queues found
        · next missing =>
            cases h
            exact .lists missing
      · cases h
  | wait lock =>
      simp only [Store.acquireMove] at h
      split at h
      · next grants =>
          cases h
          exact .granted grants
      · cases h
  | holding lock => cases h

theorem moved_of_unlinks {f : FileId} {pc : RemovePc} {next : Task} {disk : Option (FileId × Option Node)}
    (unlinked : s.unlinks f = some disk) (plain : next.plain = true) (unlinks : pc = .unlink ∨ pc = .unlinkLocked) :
    Moved lib s (.removeFile f pc) { next, disk } := by
  unfold Store.unlinks at unlinked
  split at unlinked
  · cases unlinked
    exact .removes plain unlinks
  · cases unlinked
  · cases unlinked
    exact .goes plain

theorem moved_of_removeMove {f : FileId} {pc : RemovePc} (h : s.removeMove f pc choice = some m) :
    Moved lib s (.removeFile f pc) m := by
  cases pc with
  | lookup =>
      simp only [Store.removeMove] at h
      split at h
      · split at h <;> cases h <;> exact .goes rfl
      · cases h
  | stat =>
      cases choice with
      | ok =>
          simp only [Store.removeMove] at h
          split at h <;> cases h <;> exact .goes rfl
      | _ =>
          cases h
          exact .goes rfl
  | unlink =>
      cases choice with
      | ok =>
          simp only [Store.removeMove] at h
          split at h
          · next unlinked =>
              cases h
              exact moved_of_unlinks unlinked rfl (Or.inl rfl)
          · cases h
            exact .goes rfl
      | _ =>
          cases h
          exact .goes rfl
  | lock =>
      simp only [Store.removeMove] at h
      split at h
      · split at h
        · cases h
          exact .goes rfl
        · next found =>
            split at h
            · next idle =>
                cases h
                exact .probes found idle
            · cases h
              exact .goes rfl
      · cases h
  | unlinkLocked =>
      cases choice with
      | ok =>
          simp only [Store.removeMove] at h
          split at h
          · next unlinked =>
              cases h
              exact moved_of_unlinks unlinked rfl (Or.inr rfl)
          · cases h
            exact .goes rfl
      | _ =>
          cases h
          exact .goes rfl
  | unlist =>
      cases h
      exact .unlists rfl rfl

theorem moved_of_existsMove {f : FileId} {pc : ExistsPc} (h : s.existsMove f pc choice = some m) :
    Moved lib s (.existsFile f pc) m := by
  cases pc with
  | lookup | stat | relock | recheck =>
      simp only [Store.existsMove] at h
      split at h <;> (try split at h) <;> cases h <;> exact .goes rfl
  | unlist =>
      cases h
      exact .unlists rfl rfl

theorem moved_of_flushMove {pc : FlushPc} (h : s.flushMove lib pc choice = some m) : Moved lib s (.flush pc) m := by
  cases pc with
  | scan seen =>
      cases choice with
      | entry f =>
          cases h
          apply Moved.goes
          split <;> rfl
      | _ =>
          cases h
          exact .goes rfl
  | stat f seen =>
      cases choice with
      | ok =>
          simp only [Store.flushMove] at h
          split at h <;> cases h <;> exact .goes rfl
      | _ =>
          cases h
          exact .goes rfl
  | lookup f size seen =>
      simp only [Store.flushMove] at h
      split at h
      · split at h
        · cases h
          exact .goes rfl
        · split at h <;> cases h <;> exact .goes rfl
      · cases h
  | refresh f size seen =>
      simp only [Store.flushMove] at h
      split at h
      · cases h
        apply Moved.resizes
        split <;> rfl
      · cases h
  | analyze f why seen =>
      simp only [Store.flushMove] at h
      split at h
      · split at h
        · next found =>
            split at h
            · cases h
              exact .goes (plain_flushFailed f seen why)
            · cases h
              exact .goes (plain_flushAnalysed f seen why)
            · next begins =>
                cases h
                exact .converts found begins
        · cases h
          exact .goes (plain_flushFailed f seen why)
      · cases h
        exact .goes rfl
  | create f why seen =>
      simp only [Store.flushMove] at h
      split at h
      · cases h
        exact .goes (plain_flushFailed f seen why)
      · cases h
        exact .creates
      · cases h
        exact .goes (plain_flushFailed f seen why)
  | write f why seen =>
      cases choice with
      | output bytes complete =>
          cases h
          cases complete with
          | true => exact .writes (Or.inl rfl)
          | false => exact .writes (Or.inr (plain_flushFailed f seen why))
      | _ =>
          cases h
          exact .goes (plain_flushFailed f seen why)
  | unlink f why seen =>
      cases choice with
      | ok =>
          simp only [Store.flushMove] at h
          split at h
          · cases h
            exact .replaces (plain_flushAnalysed f seen why)
          · cases h
            exact .goes (plain_flushFailed f seen why)
      | _ =>
          cases h
          exact .goes (plain_flushFailed f seen why)
  | describe f seen =>
      simp only [Store.flushMove] at h
      split at h <;> cases h
      exact .goes rfl
  | insert f size seen =>
      simp only [Store.flushMove] at h
      split at h
      · split at h
        · cases h
          exact .goes rfl
        · next missing =>
            cases h
            exact .adds rfl missing
      · cases h
  | zombies seen =>
      simp only [Store.flushMove] at h
      split at h <;> cases h
      exact .goes rfl
  | clean zombies =>
      cases zombies with
      | nil =>
          cases h
          exact .goes rfl
      | cons f rest =>
          simp only [Store.flushMove] at h
          split at h
          · split at h
            · cases h
              exact .goes rfl
            · next found =>
                split at h
                · next idle =>
                    cases h
                    -- the clean-up has probed the lock
                    exact .unlists rfl (by simp [Task.unlists, found, idle])
                · cases h
                  exact .goes rfl
          · cases h

theorem moved_of_move (h : s.move lib choice t = some m) : Moved lib s t m := by
  cases t with
  | acquire kind f pc => exact moved_of_acquireMove h
  | removeFile f pc => exact moved_of_removeMove h
  | existsFile f pc => exact moved_of_existsMove h
  | flush pc => exact moved_of_flushMove h
  | done => cases h

/-- What a step does to the index: new entries only under new names, and an entry
leaves only as announced. -/
inductive IndexChange (s : Store) (t : Task) : IndexOp → Prop
  | keep : IndexChange s t .keep
  | resize (f size) : IndexChange s t (.resize f size)
  | insert (f size) : s.entry f = none → IndexChange s t (.insert f size)
  | remove (f) : t.unlists s = some f → IndexChange s t (.remove f)

theorem move_index (h : s.move lib choice t = some m) : IndexChange s t m.index := by
  cases moved_of_move h with
  | lists missing => exact .insert _ _ missing
  | adds _ missing => exact .insert _ _ missing
  | unlists _ unlisted => exact .remove _ unlisted
  | resizes => exact .resize ..
  | goes | queues | granted | probes | removes | converts | creates | writes | replaces => exact .keep

theorem dropMove_spec (h : s.dropMove t = some m) : m.next = .done ∧ IndexChange s t m.index := by
  unfold Store.dropMove at h
  split at h
  · cases h
    exact ⟨rfl, .keep⟩
  · split at h
    · cases h
      exact ⟨rfl, .resize ..⟩
    · cases h
      exact ⟨rfl, .keep⟩
  · cases h

/-- An entry keeps its lock as long as its name is not taken out of the index. -/
theorem IndexChange.lockOf {op : IndexOp} {f : FileId} {lock fresh : ℕ} (change : IndexChange s t op)
    (found : s.lockOf f = some lock) (stays : t.unlists s ≠ some f) :
    (s.index.apply fresh op).lockOf f = some lock := by
  cases change with
  | keep => exact found
  | resize g size => rwa [Index.lockOf_resize]
  | insert g size absent =>
      have other : f ≠ g := by
        rintro rfl
        have missing : s.lockOf f = none := congrArg (Option.map FileEntry.lock) absent
        rw [missing] at found
        cases found
      rwa [Index.lockOf_insert_ne other]
  | remove g unlisted =>
      have other : f ≠ g := by
        rintro rfl
        exact stays unlisted
      rw [Index.lockOf, Index.entry_remove_ne other]
      exact found

/-- A task that gets to wait for a lock or to hold one has it from the index. -/
theorem move_uses {i : ℕ} (h : s.move lib choice t = some m)
    (listed : ∀ g lock, t.uses = some (g, lock) → s.lockOf g = some lock) :
    ∀ g lock, m.next.uses = some (g, lock) → (s.apply i m).lockOf g = some lock := by
  intro g lock used
  cases moved_of_move h with
  | queues found =>
      cases used
      exact congrArg (Option.map FileEntry.lock) found
  | lists =>
      cases used
      exact Index.lockOf_insert_self
  | granted =>
      cases used
      exact listed _ _ rfl
  | goes plain | removes plain | unlists plain | resizes plain | adds plain | replaces plain =>
      cases (Task.uses_of_plain plain).symm.trans used
  | writes onward =>
      rcases onward with rfl | plain
      · cases used
      · cases (Task.uses_of_plain plain).symm.trans used
  | probes | converts | creates => cases used

/-- A step that makes its task a guard has waited for the lock and was granted it. -/
theorem move_holding {kind : GuardKind} {f : FileId} {lock : ℕ} (h : s.move lib choice t = some m)
    (guard : m.next = .acquire kind f (.holding lock)) :
    t = .acquire kind f (.wait lock) ∧ s.grants lock kind = true := by
  cases moved_of_move h with
  | granted grants =>
      cases guard
      exact ⟨rfl, grants⟩
  | goes plain | removes plain | unlists plain | resizes plain | adds plain | replaces plain =>
      cases guard
      cases plain
  | writes onward =>
      cases guard
      rcases onward with other | plain
      · cases other
      · cases plain
  | queues | lists | probes | converts | creates => cases guard

/-- Locks in use are those of the index, and no one shares a lock held for writing. -/
structure Locked (s : Store) : Prop where
  listed : ∀ t ∈ s.tasks, ∀ f lock, t.uses = some (f, lock) → s.lockOf f = some lock
  exclusive : ∀ {i j kind f f' lock}, i ≠ j → s.Guarded i .write f lock → ¬ s.Guarded j kind f' lock

theorem Locked.opened (disk : FileId → Option Node) (listing : List FileId) :
    Locked (.opened disk listing) := by
  constructor
  · intro t member
    cases member
  · intro i j kind f f' lock _ guard
    cases guard

theorem guarded_holds {i : ℕ} {kind : GuardKind} {f : FileId} {lock : ℕ} (guard : s.Guarded i kind f lock) :
    ∃ t ∈ s.tasks, t.holds lock = true ∧ (kind = .write → t.holdsWrite lock = true) := by
  refine ⟨_, List.mem_of_getElem? guard, by simp [Task.holds], ?_⟩
  rintro rfl
  simp [Task.holdsWrite]

/-- A lock is granted against every guard there is, unless both only read. -/
theorem grants_excludes {i : ℕ} {kind kind' : GuardKind} {f : FileId} {lock : ℕ}
    (granted : s.grants lock kind = true) (guard : s.Guarded i kind' f lock) :
    kind = .read ∧ kind' = .read := by
  obtain ⟨t, member, held, write⟩ := guarded_holds guard
  cases kind with
  | read =>
      refine ⟨rfl, ?_⟩
      cases kind' with
      | read => rfl
      | write =>
          have free := List.all_eq_true.mp granted t member
          rw [write rfl] at free
          cases free
  | write =>
      have free := List.all_eq_true.mp granted t member
      rw [held] at free
      cases free

/-- After a move, a guard is an old one or the one the move made. -/
theorem apply_guarded {i j : ℕ} {kind : GuardKind} {f : FileId} {lock : ℕ}
    (guard : (s.apply i m).Guarded j kind f lock) :
    i ≠ j ∧ s.Guarded j kind f lock ∨ i = j ∧ m.next = .acquire kind f (.holding lock) := by
  have here : (s.tasks.set i m.next)[j]? = some (.acquire kind f (.holding lock)) := guard
  rw [List.getElem?_set] at here
  split at here
  · rename_i same
    split at here
    · exact .inr ⟨same, Option.some.inj here⟩
    · cases here
  · rename_i other
    exact .inl ⟨other, here⟩

theorem Locked.apply {i : ℕ} (locked : Locked s) (change : IndexChange s t m.index)
    (uses : ∀ f lock, m.next.uses = some (f, lock) → (s.apply i m).lockOf f = some lock)
    (guards : ∀ kind f lock, m.next = .acquire kind f (.holding lock) → s.grants lock kind = true)
    (unused : ∀ f, t.unlists s = some f → ∀ lock, s.lockOf f = some lock → s.unused lock = true) :
    Locked (s.apply i m) := by
  constructor
  · intro t' member f lock used
    rcases List.mem_or_eq_of_mem_set member with old | rfl
    · have before := locked.listed t' old f lock used
      apply change.lockOf before
      intro unlisted
      exact unused_ne (unused f unlisted lock before) old f used
    · exact uses f lock used
  · intro j k kind f f' lock different guard guard'
    rcases apply_guarded guard with ⟨other, old⟩ | ⟨rfl, new⟩
    · rcases apply_guarded guard' with ⟨other', old'⟩ | ⟨rfl, new'⟩
      · exact locked.exclusive different old old'
      · have both := grants_excludes (guards _ _ _ new') old
        cases both.2
    · rcases apply_guarded guard' with ⟨other', old'⟩ | ⟨rfl, new'⟩
      · have both := grants_excludes (guards _ _ _ new) old'
        cases both.1
      · exact different rfl

/-- A call begins without a guard. -/
theorem called_guarded {c : Call} {i : ℕ} {kind : GuardKind} {f : FileId} {lock : ℕ}
    (guard : Store.Guarded { s with tasks := s.tasks ++ [c.task] } i kind f lock) :
    s.Guarded i kind f lock := by
  have here : (s.tasks ++ [c.task])[i]? = some (.acquire kind f (.holding lock)) := guard
  rcases getElem?_concat_cases here with old | ⟨-, new⟩
  · exact old
  · cases c <;> cases new

theorem Locked.step {a : Action} (locked : Locked s) (unused : unlistsUnused s a = true)
    (h : s.step lib a = some s') : Locked s' := by
  cases stepped_of_step h with
  | @call c =>
      constructor
      · intro t member f lock used
        rcases List.mem_append.mp member with old | new
        · exact locked.listed t old f lock used
        · rw [List.mem_singleton.mp new] at used
          cases c <;> cases used
      · intro i j kind f f' lock different guard guard'
        exact locked.exclusive different (called_guarded guard) (called_guarded guard')
  | run found moved =>
      apply locked.apply (move_index moved)
      · exact move_uses moved (locked.listed _ (List.mem_of_getElem? found))
      · intro kind f lock guard
        exact (move_holding moved guard).2
      · intro f unlisted lock listed
        exact unlistsUnused_run unused found unlisted listed
  | @drop _ t _ _ dropped =>
      obtain ⟨ended, change⟩ := dropMove_spec dropped
      apply locked.apply change
      · rw [ended]
        nofun
      · rw [ended]
        nofun
      · intro f unlisted
        cases t with
        | acquire kind g pc => cases unlisted
        | _ => cases dropped
  | external => exact ⟨locked.listed, locked.exclusive⟩

/-- In a run that takes an entry out of the index only while its lock is unused, write
guards exclude every other guard of their file. -/
theorem write_guards_exclusive {disk : FileId → Option Node} {listing : List FileId}
    {tr : List (Store × Action)} (run : Run (Store.step lib) (.opened disk listing) tr s)
    (unused : ∀ p ∈ tr, unlistsUnused p.1 p.2 = true) : s.Exclusive := by
  have locked : Locked s :=
    run.invariant unused (Locked.opened disk listing) fun locked unused h => locked.step unused h
  intro i j kind f lock lock' different guard guard'
  have from_index {i kind lock} (guard : s.Guarded i kind f lock) : s.lockOf f = some lock :=
    locked.listed _ (List.mem_of_getElem? guard) f lock rfl
  have same := (from_index guard).symm.trans (from_index guard')
  cases same
  exact locked.exclusive different guard guard'

/-- `count` steps of the task at `i` to which the file system does not object. -/
def steps (i count : ℕ) : List Action := List.replicate count (.run i .ok)

/-- A new file is written, read, and removed; then it is written again. -/
theorem write_guards_exclusive_removed :
    ∃ s, exec (Store.step sortedLibrary) (.opened (fun _ => none) []) ([.call (.acquire .write "a")] ++
        steps 0 3 ++ [.external "a" (some (.file [1])), .drop 0, .call (.acquire .read "a")] ++
        steps 1 2 ++ [.drop 1, .call (.remove "a")] ++ steps 2 4 ++
        [.call (.acquire .write "a")] ++ steps 3 3) = some s ∧ s.Exclusive := by
  let actions : List Action := [Action.call (.acquire .write "a")] ++
    steps 0 3 ++ [Action.external "a" (some (.file [1])), .drop 0, .call (.acquire .read "a")] ++
    steps 1 2 ++ [Action.drop 1, .call (.remove "a")] ++ steps 2 4 ++
    [Action.call (.acquire .write "a")] ++ steps 3 3
  have runs : (exec (Store.step sortedLibrary) (.opened (fun _ => none) []) actions).isSome = true := by
    decide +kernel
  have good : (trace (Store.step sortedLibrary) (.opened (fun _ => none) []) actions).all
      (fun p => unlistsUnused p.1 p.2) = true := by decide +kernel
  obtain ⟨s, done⟩ := Option.isSome_iff_exists.mp runs
  exact ⟨s, done, write_guards_exclusive (exec_run done) (List.all_eq_true.mp good)⟩

/-- `Exists` takes the entry of a file that its writer has not created yet out of the
index, and the next writer gets a lock of its own. -/
theorem write_guards_exclusive_counterexample :
    ∃ tr s, Run (Store.step sortedLibrary) (.opened (fun _ => none) []) tr s ∧ ¬ s.Exclusive := by
  let actions : List Action := [Action.call (.acquire .write "a")] ++ steps 0 3 ++
    [Action.call (.existence "a")] ++ steps 1 5 ++ [Action.call (.acquire .write "a")] ++ steps 2 3
  have runs : (exec (Store.step sortedLibrary) (.opened (fun _ => none) []) actions).map
      (fun s => (s.tasks[0]?, s.tasks[2]?)) =
      some (some (.acquire .write "a" (.holding 0)), some (.acquire .write "a" (.holding 1))) := by
    decide +kernel
  obtain ⟨s, done, final⟩ := Option.map_eq_some_iff.mp runs
  rw [Prod.mk.injEq] at final
  refine ⟨_, s, exec_run done, ?_⟩
  intro exclusive
  exact exclusive (by decide) final.1 final.2

end Pleiades.Storage
