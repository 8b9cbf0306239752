import Pleiades.Storage.Exclusion

/-!
# Files under a live guard

The steps that delete or overwrite a file are those of `Remove` and of the conversion
inside `Flush`. They spare the files of live guards as long as no guard is granted
behind a check that the code has already made.
-/
namespace Pleiades.Storage

open Lib Gguf

/-- The files that a task is on its way to delete or to overwrite. -/
def Task.endangers : Task → List FileId
  | .removeFile f .unlinkLocked => [f]
  | .flush (.create f _ _) | .flush (.write f _ _) | .flush (.unlink f _ _) => [f, pggufName f]
  | _ => []

def Task.guards : Task → Option FileId
  | .acquire _ f (.holding _) => some f
  | _ => none

namespace Store

def unendangered (s : Store) (f : FileId) : Bool := s.tasks.all fun t => f ∉ t.endangers

def unguarded (s : Store) (f : FileId) : Bool := s.tasks.all fun t => t.guards != some f

/-- The analysis of the file would start a conversion. -/
def convertible (lib : Library) (s : Store) (f : FileId) : Bool :=
  match s.disk f with
  | some (.file bytes) => conversion lib bytes == some true
  | _ => false

end Store

/-- The step does not get in between a check of the code and what it was made for. -/
def sparesChecks (lib : Library) (s : Store) : Action → Bool
  | .run i choice =>
    unlistsUnused s (.run i choice) &&
      match s.tasks[i]? with
      -- the file of the fast path has not got an entry since it was looked up
      | some (.removeFile f .unlink) => (s.entry f).isNone
      | some (.acquire _ f (.wait _)) => s.unendangered f
      | some (.flush (.analyze f _ _)) =>
        !s.convertible lib f || s.unguarded f && s.unguarded (pggufName f)
      | _ => true
  | _ => true

/-- A step of the storage manager leaves the file of every live guard as it is. -/
def SparesGuarded (s : Store) (a : Action) (s' : Store) : Prop :=
  (∀ f node, a ≠ .external f node) → ∀ {i kind f lock}, s.Guarded i kind f lock →
    ∀ node, s.disk f = some node → s'.disk f = some node

variable {lib : Library} {s s' : Store} {t : Task} {m : Move} {choice : Choice} {i : ℕ}

theorem guarded_unguarded {kind : GuardKind} {f : FileId} {lock : ℕ} (guard : s.Guarded i kind f lock) :
    s.unguarded f ≠ true := by
  intro unguarded
  have free := List.all_eq_true.mp unguarded _ (List.mem_of_getElem? guard)
  simp [Task.guards] at free

theorem Task.endangers_of_plain (plain : t.plain = true) : t.endangers = [] := by
  cases t with
  | removeFile f pc =>
      cases pc with
      | unlinkLocked => cases plain
      | lookup | stat | unlink | lock | unlist => rfl
  | flush pc =>
      cases pc with
      | create | write | unlink => cases plain
      | scan | stat | lookup | refresh | analyze | describe | insert | zombies | clean => rfl
  | acquire | existsFile | done => rfl

/-- Only `Remove`'s fast path touches a file that it did not endanger before. -/
theorem move_disk {g : FileId} {node : Option Node} (h : s.move lib choice t = some m)
    (changed : m.disk = some (g, node)) : t = .removeFile g .unlink ∨ g ∈ t.endangers := by
  cases moved_of_move h with
  | removes _ unlinks =>
      cases changed
      rcases unlinks with rfl | rfl
      · exact .inl rfl
      · exact .inr (by simp [Task.endangers])
  | creates | writes | replaces =>
      cases changed
      exact .inr (by simp [Task.endangers])
  | goes | queues | lists | granted | probes | unlists | resizes | adds | converts => cases changed

theorem move_endangers {g : FileId} (h : s.move lib choice t = some m)
    (danger : g ∈ m.next.endangers) :
    g ∈ t.endangers ∨
      (t = .removeFile g .lock ∧ ∃ e, s.entry g = some e ∧ s.idle e.lock = true) ∨
      ∃ f why seen, t = .flush (.analyze f why seen) ∧ s.convertible lib f = true ∧
        (g = f ∨ g = pggufName f) := by
  cases moved_of_move h with
  | probes found idle =>
      obtain rfl := List.mem_singleton.mp danger
      exact .inr (.inl ⟨rfl, _, found, idle⟩)
  | @converts f why seen bytes found begins =>
      right
      right
      refine ⟨f, why, seen, rfl, ?_, ?_⟩
      · rw [Store.convertible, found]
        exact beq_iff_eq.mpr begins
      · simpa [Task.endangers] using danger
  | creates => exact .inl danger
  | writes onward =>
      rcases onward with rfl | plain
      · exact .inl danger
      · rw [Task.endangers_of_plain plain] at danger
        cases danger
  | goes plain | removes plain | unlists plain | resizes plain | adds plain | replaces plain =>
      rw [Task.endangers_of_plain plain] at danger
      cases danger
  | queues | lists | granted => cases danger

theorem dropMove_disk (h : s.dropMove t = some m) : m.disk = none := by
  unfold Store.dropMove at h
  split at h <;> (try split at h) <;> cases h <;> rfl

/-- Guards are listed, and no task is about to delete or overwrite the file of one. -/
structure Spared (s : Store) : Prop where
  locked : Locked s
  apart : ∀ t ∈ s.tasks, ∀ f ∈ t.endangers, ∀ i kind lock, ¬ s.Guarded i kind f lock

theorem Spared.opened (disk : FileId → Option Node) (listing : List FileId) :
    Spared (.opened disk listing) := by
  constructor
  · exact .opened disk listing
  · intro t member
    cases member

/-- A guard that is not on the lock of the entry is not listed. -/
theorem Locked.idle {f : FileId} {e : FileEntry} {kind : GuardKind} {lock : ℕ} (locked : Locked s)
    (found : s.entry f = some e) (idle : s.idle e.lock = true) : ¬ s.Guarded i kind f lock := by
  intro guard
  have listed := locked.listed _ (List.mem_of_getElem? guard) f lock rfl
  have same : s.lockOf f = some e.lock := congrArg (Option.map FileEntry.lock) found
  cases listed.symm.trans same
  obtain ⟨t, member, held, -⟩ := guarded_holds guard
  have free := List.all_eq_true.mp idle t member
  rw [held] at free
  cases free

theorem sparesChecks_unused {a : Action} (spares : sparesChecks lib s a = true) :
    unlistsUnused s a = true := by
  cases a with
  | run i choice =>
      rw [sparesChecks, Bool.and_eq_true] at spares
      exact spares.1
  | _ => rfl

/-- A task gets to endanger a file only while nobody guards it. -/
theorem Spared.endangers {f : FileId} (spared : Spared s) (found : s.tasks[i]? = some t)
    (spares : sparesChecks lib s (.run i choice) = true) (moved : s.move lib choice t = some m)
    (danger : f ∈ m.next.endangers) : ∀ j kind lock, ¬ s.Guarded j kind f lock := by
  intro j kind lock guard
  obtain old | ⟨rfl, e, entry, idle⟩ | ⟨g, why, seen, rfl, starts, here⟩ := move_endangers moved danger
  · exact spared.apart t (List.mem_of_getElem? found) f old j kind lock guard
  · exact spared.locked.idle entry idle guard
  · rw [sparesChecks, found] at spares
    simp only [Bool.and_eq_true, Bool.or_eq_true, starts, Bool.not_true, Bool.false_eq_true,
      false_or] at spares
    obtain rfl | rfl := here
    · exact guarded_unguarded guard spares.2.1
    · exact guarded_unguarded guard spares.2.2

theorem Spared.run (spared : Spared s) (found : s.tasks[i]? = some t)
    (spares : sparesChecks lib s (.run i choice) = true) (moved : s.move lib choice t = some m) :
    Spared (s.apply i m) := by
  constructor
  · have stepped : s.step lib (.run i choice) = some (s.apply i m) := by
      simp [Store.step, found, moved]
    exact spared.locked.step (sparesChecks_unused spares) stepped
  · intro t' member f danger j kind lock guard
    obtain ⟨other, old⟩ | ⟨rfl, new⟩ := apply_guarded guard
    · rcases List.mem_or_eq_of_mem_set member with before | rfl
      · exact spared.apart t' before f danger j kind lock old
      · exact spared.endangers found spares moved danger j kind lock old
    · have waited := (move_holding moved new).1
      subst waited
      rcases List.mem_or_eq_of_mem_set member with before | rfl
      · rw [sparesChecks, found, Bool.and_eq_true] at spares
        have free := List.all_eq_true.mp spares.2 t' before
        simp [danger] at free
      · rw [new] at danger
        cases danger

theorem Spared.step {a : Action} (spared : Spared s) (spares : sparesChecks lib s a = true)
    (h : s.step lib a = some s') : Spared s' := by
  have locked := spared.locked.step (sparesChecks_unused spares) h
  cases stepped_of_step h with
  | @call c =>
      refine ⟨locked, ?_⟩
      intro t member f danger j kind lock guard
      rcases List.mem_append.mp member with old | new
      · exact spared.apart t old f danger j kind lock (called_guarded guard)
      · rw [List.mem_singleton.mp new] at danger
        cases c <;> cases danger
  | run found moved => exact spared.run found spares moved
  | drop found dropped =>
      have ended := (dropMove_spec dropped).1
      refine ⟨locked, ?_⟩
      intro t' member f danger j kind lock guard
      obtain ⟨-, old⟩ | ⟨-, new⟩ := apply_guarded guard
      · rcases List.mem_or_eq_of_mem_set member with before | rfl
        · exact spared.apart t' before f danger j kind lock old
        · rw [ended] at danger
          cases danger
      · rw [ended] at new
        cases new
  | external => exact ⟨locked, spared.apart⟩

theorem Spared.fastPath {f : FileId} (spared : Spared s)
    (found : s.tasks[i]? = some (.removeFile f .unlink))
    (spares : sparesChecks lib s (.run i choice) = true) {j : ℕ} {kind : GuardKind} {lock : ℕ} :
    ¬ s.Guarded j kind f lock := by
  intro guard
  have listed := spared.locked.listed _ (List.mem_of_getElem? guard) f lock rfl
  rw [sparesChecks, found, Bool.and_eq_true, Option.isNone_iff_eq_none] at spares
  rw [Store.lockOf, Index.lockOf, show s.index.entry f = none from spares.2] at listed
  cases listed

theorem Spared.sparesGuarded {a : Action} (spared : Spared s) (spares : sparesChecks lib s a = true)
    (h : s.step lib a = some s') : SparesGuarded s a s' := by
  intro owned j kind f lock guard node stored
  cases stepped_of_step h with
  | call => exact stored
  | @run _ _ t m found moved =>
      cases changed : m.disk with
      | none => simpa [Store.apply, changed] using stored
      | some put =>
          obtain ⟨g, node'⟩ := put
          have other : f ≠ g := by
            rintro rfl
            obtain rfl | danger := move_disk moved changed
            · exact spared.fastPath found spares guard
            · exact spared.apart t (List.mem_of_getElem? found) f danger j kind lock guard
          simpa [Store.apply, changed, Function.update_of_ne other] using stored
  | drop _ dropped => simpa [Store.apply, dropMove_disk dropped] using stored
  | @external g node' => exact absurd rfl (owned g node')

/-- In a run without a step between a check and what it was made for, no step deletes or
overwrites the file of a live guard. -/
theorem live_files_spared {disk : FileId → Option Node} {listing : List FileId}
    {tr : List (Store × Action)} (run : Run (Store.step lib) (.opened disk listing) tr s)
    (spares : ∀ p ∈ tr, sparesChecks lib p.1 p.2 = true) :
    ∀ p ∈ tr, ∀ s', p.1.step lib p.2 = some s' → SparesGuarded p.1 p.2 s' := by
  intro p member s' h
  obtain ⟨pre, post, u, rfl, before, -, -⟩ := run.reaches p member
  have spared : Spared p.1 :=
    before.invariant (fun q hq => spares q (List.mem_append_left _ hq)) (Spared.opened disk listing)
      fun spared spares h => spared.step spares h
  exact spared.sparesGuarded (spares p member) h

def storedDisk : FileId → Option Node := Function.update (fun _ => none) "m.gguf" (some (.file sortedFile))

/-- A reader is done with a model before `Flush` converts it. -/
def patientActions : List Action :=
  [.call (.acquire .read "m.gguf")] ++ steps 0 2 ++ [.drop 0, .call .flush,
    .run 1 (.entry "m.gguf")] ++ steps 1 5 ++ [.run 1 (.output [1] true)] ++ steps 1 2

theorem live_files_spared_patient :
    ∃ s, exec (Store.step sortedLibrary) (.opened storedDisk ["m.gguf"]) patientActions = some s ∧
      ∀ p ∈ trace (Store.step sortedLibrary) (.opened storedDisk ["m.gguf"]) patientActions,
        ∀ s', p.1.step sortedLibrary p.2 = some s' → SparesGuarded p.1 p.2 s' := by
  have runs : (exec (Store.step sortedLibrary) (.opened storedDisk ["m.gguf"])
      patientActions).isSome = true := by decide +kernel
  have spares : (trace (Store.step sortedLibrary) (.opened storedDisk ["m.gguf"]) patientActions).all
      (fun p => sparesChecks sortedLibrary p.1 p.2) = true := by decide +kernel
  obtain ⟨s, done⟩ := Option.isSome_iff_exists.mp runs
  exact ⟨s, done, live_files_spared (exec_run done) (List.all_eq_true.mp spares)⟩

/-- `Flush` converts a model under a read guard, and at last deletes the file that is
being read. -/
theorem live_files_spared_counterexample :
    ∃ tr s s', Run (Store.step sortedLibrary) (.opened storedDisk ["m.gguf"]) tr s ∧
      s.step sortedLibrary (.run 1 .ok) = some s' ∧ ¬ SparesGuarded s (.run 1 .ok) s' := by
  let actions : List Action := [Action.call (.acquire .read "m.gguf")] ++ steps 0 2 ++ [Action.call .flush,
    .run 1 (.entry "m.gguf")] ++ steps 1 5 ++ [Action.run 1 (.output [1] true)]
  have runs : (exec (Store.step sortedLibrary) (.opened storedDisk ["m.gguf"]) actions).map
      (fun s => (s.tasks[0]?, s.disk "m.gguf", (s.step sortedLibrary (.run 1 .ok)).map
        fun s' => s'.disk "m.gguf")) =
      some (some (.acquire .read "m.gguf" (.holding 0)), some (.file sortedFile), some none) := by
    decide +kernel
  obtain ⟨s, done, final⟩ := Option.map_eq_some_iff.mp runs
  rw [Prod.mk.injEq, Prod.mk.injEq] at final
  obtain ⟨guard, stored, last⟩ := final
  obtain ⟨s', stepped, gone⟩ := Option.map_eq_some_iff.mp last
  refine ⟨_, s, s', exec_run done, stepped, ?_⟩
  intro spared
  have kept := spared nofun guard _ stored
  rw [gone] at kept
  cases kept

end Pleiades.Storage
