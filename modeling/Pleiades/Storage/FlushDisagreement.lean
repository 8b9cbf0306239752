import Mathlib.Data.Set.Finite.Basic
import Pleiades.Storage.FlushAgreement

/-!
# Where Flush and the disk disagree

An output that can be created keeps some flush from agreeing with the directory, unless no flush
of it ever returns. Files whose analysis ends the process have to be overwritten first.
-/
namespace Pleiades.Storage

open Lib Gguf

variable (memory : Memory) (readable : FileId → Bool)

/-- A file whose output is created. -/
def createdItem (f : FileId) (disk : BufWriter.Disk) : Item := ⟨f, true, ⟨true, true, disk, [], false, memory⟩⟩

variable {lib : Library} {memory readable} {m m' : StorageManager}

theorem quiet_idle {disk : FileId → Option Node} {item : Item} (idle : item.env.creates = false) :
    Quiet lib disk item := by
  intro _ _ _ _ _ _ creates
  rw [idle] at creates
  cases creates

/-- The visit of a file whose output is created. The process survives it. -/
theorem visit_created {p : Progress} {f : FileId} (resolves : Resolves p.manager.disk)
    (converts : ModelFile readable (convertible lib memory) p.manager.disk f)
    (free : isDirectory (p.manager.disk (pggufName f)) = false) (disk : BufWriter.Disk) :
    ∃ bytes c input, p.manager.disk f = some (.file bytes) ∧ visit lib p (createdItem memory f disk) = .ok
      ⟨(p.manager.set f (.renewed (p.manager.files.lookup f) bytes.length none)).onDisk
          (Function.update p.manager.disk (pggufName f)
            (some (.file (leftBehind lib (createdItem memory f disk).env c input)))),
        f :: p.seen, p.discovered + if (p.manager.files.lookup f).isSome then 0 else 1⟩ := by
  have model := converts.model
  obtain ⟨bytes, stored, raw⟩ := converts.stored
  have visible := visibleSize_file converts.shown stored
  obtain ⟨c, input, analysed⟩ := analyze_created (ne_empty_of_isModelFile model) stored
    (show convertible lib (createdItem memory f disk).env.memory bytes = true from raw) free rfl rfl rfl
  have examined : p.manager.examine lib (createdItem memory f disk).env (createdItem memory f disk).name = _ :=
    Eq.trans (if_pos model) analysed
  have file : Visitable p (createdItem memory f disk) bytes :=
    ⟨converts.shown, rfl, stored, fun _ => resolves f (by rw [visible]; rfl) model⟩
  have survives : (p.manager.examine lib (createdItem memory f disk).env (createdItem memory f disk).name).2 ≠
      .error .aborted := by
    rw [examined]
    nofun
  refine ⟨bytes, c, input, stored, ?_⟩
  rw [visit_file file survives, examined]
  rfl

/-- A directory after some of its files were emptied. -/
def emptied (disk : FileId → Option Node) (targets : List FileId) (f : FileId) : Option Node :=
  if f ∈ targets then some (.file []) else disk f

theorem Resolves.emptied {disk : FileId → Option Node} {targets : List FileId} (resolves : Resolves disk)
    (files : ∀ f ∈ targets, ModelFile readable (fatal lib memory) disk f) : Resolves (emptied disk targets) := by
  intro f visible model
  rw [visibleSize_isSome] at visible
  obtain ⟨shown, bytes, stored⟩ := visible
  apply resolves f (visibleSize_isSome.mpr ⟨shown, ?_⟩) model
  rw [Storage.emptied] at stored
  split at stored
  · next member =>
    obtain ⟨old, there, -⟩ := (files f member).stored
    exact ⟨old, there⟩
  · exact ⟨bytes, stored⟩

/-- The scan after visits that created no output in this directory. -/
structure Measured (disk : FileId → Option Node) (done : List Item) (p : Progress) : Prop where
  kept : p.manager.disk = disk
  sizes : ∀ item ∈ done, ∀ size, visibleSize disk item.name = some size →
    item.name ∈ p.seen ∧ (p.manager.files.lookup item.name).map FileRecord.size = some size

theorem Measured.visit {disk : FileId → Option Node} {done : List Item} {item : Item} {p p' : Progress}
    (here : Measured disk done p) (idle : item.env.creates = false) (visited : visit lib p item = .ok p') :
    Measured disk (done ++ [item]) p' := by
  have stays := here.kept
  rcases visit_cases visited with ⟨rfl, invisible⟩ | ⟨bytes, file, survives⟩
  · refine ⟨stays, List.forall_mem_append.mpr ⟨here.sizes, List.forall_mem_singleton.mpr ?_⟩⟩
    intro size visible
    rw [← stays, invisible] at visible
    cases visible
  · have quiet : Quiet lib p.manager.disk item := quiet_idle idle
    rw [visit_quiet quiet file survives] at visited
    cases visited
    have measured : visibleSize disk item.name = some bytes.length := by
      rw [← stays]
      exact visibleSize_file file.shown file.stored
    have entry : ((p.manager.set item.name (.renewed (p.manager.files.lookup item.name) bytes.length
        (readInfo lib item.env.memory item.env.opens item.name bytes))).files.lookup item.name).map FileRecord.size =
          some bytes.length := by
      rw [StorageManager.set, AList.lookup_insert, Option.map_some, FileRecord.renewed_size]
    refine ⟨stays, fun other member size visible => ?_⟩
    by_cases same : other.name = item.name
    · rw [same] at visible ⊢
      rw [measured] at visible
      cases visible
      exact ⟨List.mem_cons_self, entry⟩
    · have before : other ∈ done := by
        rcases List.mem_append.mp member with before | last
        · exact before
        · exact absurd (congrArg Item.name (List.mem_singleton.mp last)) same
      obtain ⟨seen, recorded⟩ := here.sizes other before size visible
      refine ⟨List.mem_cons_of_mem _ seen, ?_⟩
      rw [StorageManager.set, AList.lookup_insert_ne same]
      exact recorded

/-- A conversion onto a file, of which the disk refuses every byte. -/
structure Overwrites (lib : Library) (memory : Memory) (readable : FileId → Bool) (disk : FileId → Option Node)
    (f : FileId) : Prop where
  converts : ModelFile readable (convertible lib memory) disk f
  output : ModelFile readable (fatal lib memory) disk (pggufName f)

/-- The directory after these conversions. -/
structure Emptied (lib : Library) (memory : Memory) (readable : FileId → Bool) (disk : FileId → Option Node)
    (done : List Item) (p : Progress) : Prop where
  kept : p.manager.disk = emptied disk (done.map fun item => pggufName item.name)
  outputs : ∀ item ∈ done, ModelFile readable (fatal lib memory) disk (pggufName item.name)

theorem Emptied.visit {done : List Item} {p : Progress} (here : Emptied lib memory readable m.disk done p)
    (resolves : Resolves m.disk) {f : FileId} (overwrites : Overwrites lib memory readable m.disk f) :
    ∃ p', Storage.visit lib p (createdItem memory f refusingDisk) = .ok p' ∧
      Emptied lib memory readable m.disk (done ++ [createdItem memory f refusingDisk]) p' := by
  have untouched {g : FileId} (converts : ModelFile readable (convertible lib memory) m.disk g) :
      g ∉ done.map fun item => pggufName item.name := by
    intro inside
    obtain ⟨item, member, same⟩ := List.mem_map.mp inside
    have bad := here.outputs item member
    rw [same] at bad
    exact not_converts_of_fatal bad converts
  have resolves' : Resolves p.manager.disk := by
    rw [here.kept]
    exact resolves.emptied fun g member => by
      obtain ⟨item, listed, rfl⟩ := List.mem_map.mp member
      exact here.outputs item listed
  obtain ⟨bytes, stored, raw⟩ := overwrites.converts.stored
  have converts : ModelFile readable (convertible lib memory) p.manager.disk f := by
    refine ⟨overwrites.converts.shown, overwrites.converts.model, overwrites.converts.opens, bytes, ?_, raw⟩
    rw [here.kept, emptied, if_neg (untouched overwrites.converts), stored]
  have free : isDirectory (p.manager.disk (pggufName f)) = false := by
    obtain ⟨old, output, -⟩ := overwrites.output.stored
    rw [here.kept, emptied, output]
    split <;> rfl
  obtain ⟨_, c, input, _, visited⟩ := visit_created resolves' converts free refusingDisk
  refine ⟨_, visited, ?_, List.forall_mem_append.mpr ⟨here.outputs, List.forall_mem_singleton.mpr overwrites.output⟩⟩
  change Function.update p.manager.disk (pggufName f) _ = _
  rw [leftBehind_refusing lib rfl]
  funext g
  rw [List.map_append, emptied, here.kept]
  by_cases same : g = pggufName f
  · subst same
    rw [Function.update_self, if_pos]
    exact List.mem_append_right _ List.mem_cons_self
  · rw [Function.update_of_ne same, emptied]
    simp [same, createdItem]

/-- A directory with one file. -/
def singleFile (f : FileId) (bytes : List UInt8) : StorageManager where
  baseDir := "models"
  files := ∅
  disk := Function.update (fun _ => none) f (some (.file bytes))
  supported := []

end Pleiades.Storage
