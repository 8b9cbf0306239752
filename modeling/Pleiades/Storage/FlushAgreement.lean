import Pleiades.Storage.Flush

/-!
# Flush and the disk

A flush that converts nothing leaves an index that agrees with the directory, and the next one
finds nothing to do.
-/
namespace Pleiades.Storage

open Lib Gguf

variable (lib : Library) (memory : Memory) (readable : FileId → Bool)

/-- The names of the directory are all listed, and every call that reads it succeeds; whether a
file can be opened depends on the file, whether there is memory on the size of the request. -/
structure Complete (disk : FileId → Option Node) (scan : Scan) : Prop where
  opened : scan.opened = true
  finished : scan.finished = true
  stats : ∀ item ∈ scan.items, item.stats = true
  opens : ∀ item ∈ scan.items, item.env.opens = readable item.name
  grants : ∀ item ∈ scan.items, item.env.memory = memory
  lists : ∀ f, (disk f).isSome → ∃ item ∈ scan.items, item.name = f

/-- Every visible model file has a name that resolves. -/
def Resolves (disk : FileId → Option Node) : Prop :=
  ∀ f, (visibleSize disk f).isSome → isModelFile f = true → resolvable f = true

/-- A visible model file that can be opened has bytes of which `P` holds. -/
structure ModelFile (P : List UInt8 → Bool) (disk : FileId → Option Node) (f : FileId) : Prop where
  shown : isHidden f = false
  model : isModelFile f = true
  opens : readable f = true
  stored : ∃ bytes, disk f = some (.file bytes) ∧ P bytes = true

/-- The entry of a name after a flush that converts nothing. -/
def expected (m : StorageManager) (f : FileId) : Option FileRecord :=
  match isHidden f, m.disk f with
  | false, some (.file bytes) =>
    some (.renewed (m.files.lookup f) bytes.length (readInfo lib memory (readable f) f bytes))
  | _, _ => none

/-- The scan after it has visited `done` and has converted nothing. -/
structure Scanned (m : StorageManager) (done : List Item) (p : Progress) : Prop where
  disk : p.manager.disk = m.disk
  seen : ∀ f, f ∈ p.seen ↔ (∃ item ∈ done, item.name = f) ∧ (visibleSize m.disk f).isSome
  entries : ∀ f, p.manager.files.lookup f =
    if f ∈ p.seen then expected lib memory readable m f else m.files.lookup f
  discovered : (∀ f, (visibleSize m.disk f).isSome → (m.files.lookup f).isSome) → p.discovered = 0

variable {lib memory readable} {m m' : StorageManager}

theorem FileRecord.renewed_size (old : Option FileRecord) (size : ℕ) (info : Option ArchInfo) :
    (FileRecord.renewed old size info).size = size := by
  cases info <;> rfl

theorem FileRecord.renewed_renewed (old : Option FileRecord) (size : ℕ) (info : Option ArchInfo) :
    FileRecord.renewed (some (.renewed old size info)) size info = .renewed old size info := by
  cases info <;> rfl

theorem expected_size (f : FileId) :
    (expected lib memory readable m f).map FileRecord.size = visibleSize m.disk f := by
  rw [expected, visibleSize]
  cases isHidden f with
  | true => rfl
  | false =>
      cases m.disk f with
      | none => rfl
      | some node =>
          cases node with
          | file bytes => exact congrArg some (FileRecord.renewed_size ..)
          | dir size => rfl

theorem expected_none {f : FileId} (invisible : visibleSize m.disk f = none) :
    expected lib memory readable m f = none :=
  Option.map_eq_none_iff.mp ((expected_size f).trans invisible)

theorem Scanned.start (m : StorageManager) : Scanned lib memory readable m [] ⟨m, [], 0⟩ where
  disk := rfl
  seen f := by simp
  entries f := by simp
  discovered _ := rfl

theorem expected_file {f : FileId} {bytes : List UInt8} (shown : isHidden f = false)
    (stored : m.disk f = some (.file bytes)) : expected lib memory readable m f =
      some (.renewed (m.files.lookup f) bytes.length (readInfo lib memory (readable f) f bytes)) := by
  rw [expected, shown, stored]

theorem Scanned.visit {done : List Item} {p p' : Progress} {item : Item}
    (scanned : Scanned lib memory readable m done p) (quiet : Quiet lib m.disk item)
    (opens : item.env.opens = readable item.name) (grants : item.env.memory = memory)
    (visited : visit lib p item = .ok p') : Scanned lib memory readable m (done ++ [item]) p' := by
  have stays := scanned.disk
  rcases visit_cases visited with ⟨rfl, invisible⟩ | ⟨bytes, file, survives⟩
  · refine ⟨stays, fun f => ?_, scanned.entries, scanned.discovered⟩
    rw [stays] at invisible
    rw [scanned.seen]
    constructor
    · rintro ⟨⟨other, member, named⟩, visible⟩
      exact ⟨⟨other, List.mem_append_left _ member, named⟩, visible⟩
    · rintro ⟨⟨other, member, named⟩, visible⟩
      refine ⟨⟨other, ?_, named⟩, visible⟩
      rcases List.mem_append.mp member with member | last
      · exact member
      · cases List.mem_singleton.mp last
        rw [← named, invisible] at visible
        cases visible
  · rw [← stays] at quiet
    have shown := file.shown
    have stored := file.stored
    rw [visit_quiet quiet file survives] at visited
    cases visited
    rw [stays] at stored
    rw [grants]
    have visible : visibleSize m.disk item.name = some bytes.length := visibleSize_file shown stored
    have entry : expected lib memory readable m item.name = some (.renewed (p.manager.files.lookup item.name)
        bytes.length (readInfo lib memory item.env.opens item.name bytes)) := by
      rw [scanned.entries, opens]
      split
      · rw [expected_file shown stored, FileRecord.renewed_renewed]
      · exact expected_file shown stored
    refine ⟨stays, fun f => ?_, fun f => ?_, fun all => ?_⟩
    · rw [List.mem_cons, scanned.seen]
      constructor
      · rintro (rfl | ⟨⟨other, member, named⟩, there⟩)
        · exact ⟨⟨item, by simp, rfl⟩, by rw [visible]; rfl⟩
        · exact ⟨⟨other, List.mem_append_left _ member, named⟩, there⟩
      · rintro ⟨⟨other, member, named⟩, there⟩
        rcases List.mem_append.mp member with member | last
        · exact .inr ⟨⟨other, member, named⟩, there⟩
        · cases List.mem_singleton.mp last
          exact .inl named.symm
    · by_cases same : f = item.name
      · subst same
        rw [if_pos List.mem_cons_self, entry]
        exact AList.lookup_insert ..
      · have lookup : (p.manager.set item.name (.renewed (p.manager.files.lookup item.name) bytes.length
            (readInfo lib memory item.env.opens item.name bytes))).files.lookup f = p.manager.files.lookup f :=
          AList.lookup_insert_ne same
        rw [lookup, scanned.entries]
        simp only [List.mem_cons, same, false_or]
    · have listed : (p.manager.files.lookup item.name).isSome = true := by
        rw [scanned.entries]
        split
        · rw [entry]
          rfl
        · exact all item.name (by rw [visible]; rfl)
      rw [listed, if_pos rfl, scanned.discovered all]

theorem not_converts_of_fatal {disk : FileId → Option Node} {f : FileId}
    (bad : ModelFile readable (fatal lib memory) disk f) : ¬ ModelFile readable (convertible lib memory) disk f := by
  intro converts
  obtain ⟨bytes, stored, dies⟩ := bad.stored
  obtain ⟨bytes', stored', raw⟩ := converts.stored
  cases stored.symm.trans stored'
  rw [not_fatal_of_convertible raw] at dies
  cases dies

theorem Scanned.unseen {scan : Scan} {p : Progress} (scanned : Scanned lib memory readable m scan.items p)
    (complete : Complete memory readable m.disk scan) {f : FileId} (unseen : f ∉ p.seen) :
    visibleSize m.disk f = none := by
  rw [scanned.seen] at unseen
  by_contra visible
  obtain ⟨size, found⟩ := Option.ne_none_iff_exists'.mp visible
  obtain ⟨-, bytes, stored, -⟩ := visibleSize_eq_some found
  exact unseen ⟨complete.lists f (by rw [stored]; rfl), by rw [found]; rfl⟩

theorem Scanned.lookup_cleaned {scan : Scan} {p : Progress} (scanned : Scanned lib memory readable m scan.items p)
    (complete : Complete memory readable m.disk scan) (f : FileId) :
    (cleaned p).lookup f = expected lib memory readable m f := by
  rw [Storage.lookup_cleaned, scanned.entries]
  by_cases seen : f ∈ p.seen
  · rw [if_pos seen, if_pos seen]
  · rw [if_neg seen, expected_none (scanned.unseen complete seen)]

end Pleiades.Storage
