import Mathlib.Data.List.TakeWhile
import Pleiades.Gguf.ArchInfo
import Pleiades.PeerManagement.PeerManager
import Pleiades.Storage.Manager

/-!
# Flush from its start to its end

`Flush` as it runs alone and meets no guard: the scan with the analyses it makes, the
zombie entries, and the models that go to the peer manager.
-/
namespace Pleiades.Storage

open Lib Gguf PeerManagement

/-- `FileEntry` without its lock. -/
structure FileRecord where
  size : ℕ
  modelId : Option UInt32 := none
  numLayers : Option UInt32 := none
  layerBitmap : Option (Vector UInt8 32) := none
  architecture : Option String := none
  deriving DecidableEq

namespace FileRecord

/-- Overwrite the model data. -/
def describe (r : FileRecord) (info : ArchInfo) : FileRecord where
  size := r.size
  modelId := info.modelId
  numLayers := some (UInt32.ofNat info.numLayers)
  layerBitmap := info.layerBitmap
  architecture := some info.architecture

def resize (r : FileRecord) (size : ℕ) : FileRecord := { r with size }

/-- An entry after a visit that measured `size` and found `info`. -/
def renewed (old : Option FileRecord) (size : ℕ) (info : Option ArchInfo) : FileRecord :=
  let sized := (old.getD { size }).resize size
  match info with
  | some info => sized.describe info
  | none => sized

/-- The model an entry stands for, if it has an id and a bitmap. -/
def supported (r : FileRecord) (f : FileId) : Option SupportedModel :=
  r.modelId.bind fun id => r.layerBitmap.map fun layerBitmap => ⟨id, f, layerBitmap⟩

end FileRecord

/-- `disk` is the base directory, `supported` what was last sent to the peer manager. -/
structure StorageManager where
  baseDir : String
  files : Table FileId FileRecord
  disk : FileId → Option Node
  supported : List SupportedModel

/-- The path of a name, with the extension of its last dot. -/
def filePath (base : String) (f : FileId) : Path :=
  match f.toList.reverse.dropWhile (· ≠ '.') with
  | _ :: b :: stem =>
    ⟨base, String.ofList (b :: stem).reverse, some (String.ofList (f.toList.reverse.takeWhile (· ≠ '.')).reverse)⟩
  | _ => ⟨base, f, none⟩

def pathName (p : Path) : FileId :=
  match p.extension with
  | some extension => p.stem ++ "." ++ extension
  | none => p.stem

/-- The regular files of a directory. -/
def filesOf (disk : FileId → Option Node) : Files := fun p =>
  match disk (pathName p) with
  | some (.file bytes) => some bytes
  | _ => none

/-- A directory after its regular files have become these. -/
def withFiles (base : String) (disk : FileId → Option Node) (files : Files) (f : FileId) : Option Node :=
  match disk f, files (filePath base f) with
  | some (.dir size), none => some (.dir size)
  | _, bytes => bytes.map .file

def isDirectory : Option Node → Bool
  | some (.dir _) => true
  | _ => false

/-- `next_entry` returns a name; then `metadata` and the calls of an analysis. -/
structure Item where
  name : FileId
  stats : Bool
  env : Env

/-- `read_dir`, the names it gives, and whether it gets to their end. -/
structure Scan where
  opened : Bool
  items : List Item
  finished : Bool

/-- `seen` is `disk_files`. -/
structure Progress where
  manager : StorageManager
  seen : List FileId
  discovered : ℕ

variable (lib : Library) {base : String}

namespace StorageManager

def set (m : StorageManager) (f : FileId) (r : FileRecord) : StorageManager :=
  { m with files := m.files.insert f r }

def onDisk (m : StorageManager) (disk : FileId → Option Node) : StorageManager := { m with disk }

/-- `analyze_model` on a file of the directory. A directory is in the way of an output. -/
def analyze (env : Env) (m : StorageManager) (f : FileId) : (FileId → Option Node) × Except Halt ArchInfo :=
  let env := { env with creates := env.creates && !isDirectory (m.disk (pggufName f)) }
  let outcome := analyzeModel lib env (filesOf m.disk) (filePath m.baseDir f)
  (withFiles m.baseDir m.disk outcome.1, outcome.2)

/-- Only a model file is analysed, and there is no model data of another. -/
def examine (env : Env) (m : StorageManager) (f : FileId) : (FileId → Option Node) × Except Halt ArchInfo :=
  if isModelFile f then m.analyze lib env f else (m.disk, .error .failed)

end StorageManager

/-- One round of the scan. An error keeps what was done so far, and an analysis that ends the
process is the end of the scan too. -/
def visit (p : Progress) (item : Item) : Except (StorageManager × Halt) Progress :=
  let f := item.name
  if isHidden f then .ok p
  else
    match item.stats, p.manager.disk f with
    | true, some (.file bytes) =>
      match p.manager.files.lookup f with
      | some entry =>
        let sized := entry.resize bytes.length
        let m := p.manager.set f sized
        if isModelFile f then
          if resolvable f then
            let (disk, found) := m.analyze lib item.env f
            match found with
            | .ok info => .ok ⟨(m.set f (sized.describe info)).onDisk disk, f :: p.seen, p.discovered⟩
            | .error .failed => .ok ⟨m.onDisk disk, f :: p.seen, p.discovered⟩
            | .error .aborted => .error (m.onDisk disk, .aborted)
          else .error (m, .failed)
        else .ok ⟨m, f :: p.seen, p.discovered⟩
      | none =>
        let fresh : FileRecord := { size := bytes.length }
        if isModelFile f then
          if resolvable f then
            let (disk, found) := p.manager.analyze lib item.env f
            match found with
            | .ok info => .ok ⟨(p.manager.set f (fresh.describe info)).onDisk disk, f :: p.seen, p.discovered + 1⟩
            | .error .failed => .ok ⟨(p.manager.set f fresh).onDisk disk, f :: p.seen, p.discovered + 1⟩
            | .error .aborted => .error (p.manager.onDisk disk, .aborted)
          else .error (p.manager, .failed)
        else .ok ⟨p.manager.set f fresh, f :: p.seen, p.discovered + 1⟩
    | true, some (.dir _) => .ok p
    | _, _ => .error (p.manager, .failed)

def supportedModels (files : Table FileId FileRecord) : List SupportedModel :=
  files.entries.filterMap fun e => e.2.supported e.1

/-- The entries without a file, and the index without them. -/
def zombies (p : Progress) : List FileId := p.manager.files.keys.filter (· ∉ p.seen)

def cleaned (p : Progress) : Table FileId FileRecord :=
  (zombies p).foldl (fun files f => files.erase f) p.manager.files

/-- `Flush`: the manager it leaves, and the two counts unless it fails or does not survive. -/
def flush (m : StorageManager) (scan : Scan) : StorageManager × Except Halt (ℕ × ℕ) :=
  if scan.opened then
    match scan.items.foldlM (visit lib) ⟨m, [], 0⟩ with
    | .error (m, halt) => (m, .error halt)
    | .ok p =>
      if scan.finished then
        ({ p.manager with files := cleaned p, supported := supportedModels (cleaned p) },
          .ok (p.discovered, (zombies p).length))
      else (p.manager, .error .failed)
  else (m, .error .failed)

theorem dropWhile_reverse_dot (stem : List Char) {extension : List Char} (last : '.' ∉ extension) :
    (stem ++ '.' :: extension).reverse.dropWhile (· ≠ '.') = '.' :: stem.reverse ∧
      (stem ++ '.' :: extension).reverse.takeWhile (· ≠ '.') = extension.reverse := by
  have all : ∀ c ∈ extension.reverse, decide (c ≠ '.') = true := by
    intro c member
    rw [decide_eq_true_iff]
    rintro rfl
    exact last (List.mem_reverse.mp member)
  have turned : (stem ++ '.' :: extension).reverse = extension.reverse ++ '.' :: stem.reverse := by simp
  rw [turned, List.dropWhile_append_of_pos all, List.takeWhile_append_of_pos all]
  simp

/-- The parts of a name around its last dot. -/
theorem filePath_dot {stem extension : List Char} (named : stem ≠ []) (last : '.' ∉ extension) :
    filePath base (String.ofList (stem ++ '.' :: extension)) =
      ⟨base, String.ofList stem, some (String.ofList extension)⟩ := by
  obtain ⟨dropped, taken⟩ := dropWhile_reverse_dot stem last
  obtain ⟨b, rest, turned⟩ := List.exists_cons_of_ne_nil (List.reverse_ne_nil_iff.mpr named)
  have back : stem = (b :: rest).reverse := by rw [← turned, List.reverse_reverse]
  rw [filePath, String.toList_ofList, dropped, taken, turned, back]
  simp

theorem pggufName_dot {stem extension : List Char} (named : stem ≠ []) (last : '.' ∉ extension) :
    pggufName (String.ofList (stem ++ '.' :: extension)) = String.ofList (stem ++ ".pgguf".toList) := by
  obtain ⟨dropped, -⟩ := dropWhile_reverse_dot stem last
  obtain ⟨b, rest, turned⟩ := List.exists_cons_of_ne_nil (List.reverse_ne_nil_iff.mpr named)
  have back : stem = (b :: rest).reverse := by rw [← turned, List.reverse_reverse]
  rw [pggufName, String.toList_ofList, dropped, turned, back]

/-- No dot, or the only one in front: what is kept of the name from its last dot on. -/
theorem dropWhile_plain {f : FileId} (plain : ∀ stem extension, f.toList = stem ++ '.' :: extension →
      '.' ∉ extension → stem = []) :
    f.toList.reverse.dropWhile (· ≠ '.') = [] ∨ f.toList.reverse.dropWhile (· ≠ '.') = ['.'] := by
  by_cases dot : '.' ∈ f.toList.reverse
  · obtain ⟨back, front, turned, last⟩ := List.eq_append_cons_of_mem dot
    have last : '.' ∉ back.reverse := by rwa [List.mem_reverse]
    have whole : f.toList = front.reverse ++ '.' :: back.reverse := by
      rw [← List.reverse_reverse f.toList, turned]
      simp
    have nothing := plain _ _ whole last
    rw [whole, (dropWhile_reverse_dot _ last).1, nothing]
    exact .inr rfl
  · refine .inl (List.dropWhile_eq_nil_iff.mpr ?_)
    intro c member
    rw [decide_eq_true_iff]
    rintro rfl
    exact dot member

theorem filePath_plain {f : FileId} (plain : ∀ stem extension, f.toList = stem ++ '.' :: extension →
      '.' ∉ extension → stem = []) : filePath base f = ⟨base, f, none⟩ := by
  rw [filePath]
  rcases dropWhile_plain plain with dropped | dropped <;> rw [dropped]

theorem pggufName_plain {f : FileId} (plain : ∀ stem extension, f.toList = stem ++ '.' :: extension →
      '.' ∉ extension → stem = []) : pggufName f = String.ofList (f.toList ++ ".pgguf".toList) := by
  rw [pggufName]
  rcases dropWhile_plain plain with dropped | dropped <;> rw [dropped]

theorem name_cases (f : FileId) :
    (∃ stem extension : List Char, stem ≠ [] ∧ '.' ∉ extension ∧ f = String.ofList (stem ++ '.' :: extension)) ∨
      ∀ stem extension, f.toList = stem ++ '.' :: extension → '.' ∉ extension → stem = [] := by
  by_cases dotted : ∃ stem extension : List Char, stem ≠ [] ∧ '.' ∉ extension ∧
      f = String.ofList (stem ++ '.' :: extension)
  · exact .inl dotted
  · refine .inr fun stem extension whole last => ?_
    by_contra named
    exact dotted ⟨stem, extension, named, last, by rw [← whole, String.ofList_toList]⟩

theorem pathName_filePath (base : String) (f : FileId) : pathName (filePath base f) = f := by
  rcases name_cases f with ⟨stem, extension, named, last, rfl⟩ | plain
  · rw [filePath_dot named last, pathName]
    simp [← String.toList_inj]
  · rw [filePath_plain plain, pathName]

theorem filePath_inj {f g : FileId} : filePath base f = filePath base g ↔ f = g := by
  constructor
  · intro same
    rw [← pathName_filePath base f, same, pathName_filePath]
  · rintro rfl
    rfl

/-- The output of a conversion has the name `pggufName`. -/
theorem filePath_pggufName {f : FileId} (named : f ≠ "") :
    (filePath base f).withExtension "pgguf" = filePath base (pggufName f) := by
  have last : '.' ∉ "pgguf".toList := by decide
  have dotted : ".pgguf".toList = '.' :: "pgguf".toList := rfl
  rcases name_cases f with ⟨stem, extension, present, free, rfl⟩ | plain
  · rw [filePath_dot present free, pggufName_dot present free, dotted, filePath_dot present last,
      Path.withExtension, String.ofList_toList]
  · have present : f.toList ≠ [] := fun empty => named (String.toList_eq_nil_iff.mp empty)
    rw [filePath_plain plain, pggufName_plain plain, dotted, filePath_dot present last,
      Path.withExtension, String.ofList_toList, String.ofList_toList]

theorem isHidden_ofList (c : Char) (cs : List Char) : isHidden (String.ofList (c :: cs)) = (c == '.') := by
  simp [isHidden]

/-- The output of a visible file is visible. -/
theorem isHidden_pggufName {f : FileId} (named : f ≠ "") (shown : isHidden f = false) :
    isHidden (pggufName f) = false := by
  rcases name_cases f with ⟨stem, extension, present, free, rfl⟩ | plain
  · obtain ⟨c, rest, rfl⟩ := List.exists_cons_of_ne_nil present
    rw [List.cons_append, isHidden_ofList] at shown
    rw [pggufName_dot present free, List.cons_append, isHidden_ofList, shown]
  · have present : f.toList ≠ [] := fun empty => named (String.toList_eq_nil_iff.mp empty)
    obtain ⟨c, rest, whole⟩ := List.exists_cons_of_ne_nil present
    rw [← String.ofList_toList (s := f), whole, isHidden_ofList] at shown
    rw [pggufName_plain plain, whole, List.cons_append, isHidden_ofList, shown]

theorem ne_empty_of_isModelFile {f : FileId} (model : isModelFile f = true) : f ≠ "" := by
  rintro rfl
  exact absurd model (by decide)

theorem withFiles_filesOf (base : String) (disk : FileId → Option Node) : withFiles base disk (filesOf disk) = disk := by
  funext f
  rw [withFiles, filesOf, pathName_filePath]
  cases disk f with
  | none => rfl
  | some node => cases node <;> rfl

theorem withFiles_file {disk : FileId → Option Node} {files : Files} {f : FileId} {bytes : List UInt8}
    (found : files (filePath base f) = some bytes) : withFiles base disk files f = some (.file bytes) := by
  rw [withFiles, found]
  cases disk f with
  | none => rfl
  | some node => cases node <;> rfl

theorem withFiles_update {disk : FileId → Option Node} {f : FileId} {bytes : List UInt8} :
    withFiles base disk (Function.update (filesOf disk) (filePath base f) (some bytes)) =
      Function.update disk f (some (.file bytes)) := by
  funext g
  by_cases same : g = f
  · subst same
    rw [Function.update_self]
    exact withFiles_file (Function.update_self ..)
  · have apart : filePath base g ≠ filePath base f := fun equal => same (filePath_inj.mp equal)
    have kept := congrFun (withFiles_filesOf base disk) g
    rw [Function.update_of_ne same, ← kept, withFiles, withFiles, Function.update_of_ne apart]

section Visit
variable {lib} {env : Env} {m : StorageManager} {f : FileId} {bytes : List UInt8}

theorem filesOf_file (stored : m.disk f = some (.file bytes)) :
    filesOf m.disk (filePath m.baseDir f) = some bytes := by
  rw [filesOf, pathName_filePath, stored]

/-- An analysis that creates no output leaves the directory as it is. -/
theorem analyze_kept (stored : m.disk f = some (.file bytes))
    (quiet : convertible lib env.memory bytes = true → env.opens = true → env.creates = true →
      isDirectory (m.disk (pggufName f)) = true) :
    m.analyze lib env f = (m.disk, if env.opens && !convertible lib env.memory bytes then answer lib env.memory bytes
      else .error .failed) := by
  have given := filesOf_file stored
  rw [StorageManager.analyze]
  generalize same : ({ env with creates := env.creates && !isDirectory (m.disk (pggufName f)) } : Env) = env'
  have memory : env'.memory = env.memory := by rw [← same]
  have opening : env'.opens = env.opens := by rw [← same]
  rw [← memory, ← opening]
  rw [← memory, ← opening] at quiet
  cases converts : convertible lib env'.memory bytes with
  | false =>
      rw [analyzeModel_kept given converts, withFiles_filesOf]
      simp
  | true =>
      by_cases opens : env'.opens = true
      · have refused : env'.creates = false := by
          rw [← same]
          cases creates : env.creates with
          | false => rfl
          | true => simp [quiet converts opens creates]
        rw [analyzeModel_refused given converts refused, withFiles_filesOf]
        simp
      · have closed := Bool.eq_false_of_not_eq_true opens
        simp [analyzeModel_closed given, closed, withFiles_filesOf]

/-- A raw model whose output is created but that is not deleted. -/
theorem analyze_created (named : f ≠ "") (stored : m.disk f = some (.file bytes))
    (converts : convertible lib env.memory bytes = true)
    (free : isDirectory (m.disk (pggufName f)) = false) (opens : env.opens = true)
    (creates : env.creates = true) (stays : env.removes = false) :
    ∃ c input, m.analyze lib env f = (Function.update m.disk (pggufName f)
      (some (.file (leftBehind lib env c input))), .error .failed) := by
  have same : { env with creates := env.creates && !isDirectory (m.disk (pggufName f)) } = env := by
    rw [free, creates]
    simp [← creates]
  obtain ⟨c, input, analysed⟩ := analyzeModel_created (filesOf_file stored) converts opens creates stays
  refine ⟨c, input, ?_⟩
  rw [StorageManager.analyze, same, analysed, filePath_pggufName named, withFiles_update]

theorem visit_hidden {p : Progress} {item : Item} (hidden : isHidden item.name = true) :
    visit lib p item = .ok p := by
  rw [visit, if_pos hidden]

theorem visit_directory {p : Progress} {item : Item} {size : ℕ} (stats : item.stats = true)
    (stored : p.manager.disk item.name = some (.dir size)) : visit lib p item = .ok p := by
  simp only [visit, stats, stored]
  split <;> rfl

/-- The item has a regular file with a name that resolves if it is a model. -/
structure Visitable (p : Progress) (item : Item) (bytes : List UInt8) : Prop where
  shown : isHidden item.name = false
  stats : item.stats = true
  stored : p.manager.disk item.name = some (.file bytes)
  resolves : isModelFile item.name = true → resolvable item.name = true

/-- The visit of a regular file with an analysis that the process survives. -/
theorem visit_file {p : Progress} {item : Item} (file : Visitable p item bytes)
    (survives : (p.manager.examine lib item.env item.name).2 ≠ .error .aborted) :
    visit lib p item = .ok
      ⟨(p.manager.set item.name (.renewed (p.manager.files.lookup item.name) bytes.length
          (p.manager.examine lib item.env item.name).2.toOption)).onDisk (p.manager.examine lib item.env item.name).1,
        item.name :: p.seen, p.discovered + if (p.manager.files.lookup item.name).isSome then 0 else 1⟩ := by
  have twice (m : StorageManager) (f : FileId) (r r' : FileRecord) : (m.set f r).set f r' = m.set f r' := by
    simp [StorageManager.set]
  have same (m : StorageManager) (f : FileId) (r : FileRecord) :
      (m.set f r).analyze lib item.env f = m.analyze lib item.env f := rfl
  simp only [visit, file.shown, file.stats, file.stored, Bool.false_eq_true, if_false]
  by_cases model : isModelFile item.name = true
  · rw [StorageManager.examine, if_pos model] at survives
    cases listed : p.manager.files.lookup item.name with
    | some entry =>
        simp only [model, file.resolves model, if_true, StorageManager.examine, same, twice]
        split <;> simp_all [FileRecord.renewed, Except.toOption]
    | none =>
        simp only [model, file.resolves model, if_true, StorageManager.examine]
        split <;> simp_all [FileRecord.renewed, Except.toOption, FileRecord.resize]
  · cases listed : p.manager.files.lookup item.name with
    | some entry =>
        simp only [model, StorageManager.examine]
        rfl
    | none =>
        simp only [model, StorageManager.examine]
        rfl

/-- The process does not survive the analysis. -/
theorem visit_aborted {p : Progress} {item : Item} (file : Visitable p item bytes)
    (aborts : (p.manager.examine lib item.env item.name).2 = .error .aborted) :
    ∃ m', visit lib p item = .error (m', .aborted) := by
  have same (m : StorageManager) (f : FileId) (r : FileRecord) :
      (m.set f r).analyze lib item.env f = m.analyze lib item.env f := rfl
  by_cases model : isModelFile item.name = true
  · rw [StorageManager.examine, if_pos model] at aborts
    simp only [visit, file.shown, file.stats, file.stored, Bool.false_eq_true, if_false, model, if_true,
      file.resolves model]
    cases listed : p.manager.files.lookup item.name with
    | some entry =>
        simp only [same, aborts]
        exact ⟨_, rfl⟩
    | none =>
        simp only [aborts]
        exact ⟨_, rfl⟩
  · rw [StorageManager.examine, if_neg model] at aborts
    cases aborts

/-- A visit that fails has renewed the size of the entry at most. -/
def Failed (p : Progress) (f : FileId) (m' : StorageManager) : Prop :=
  m' = p.manager ∨ ∃ entry size, p.manager.files.lookup f = some entry ∧ m' = p.manager.set f (entry.resize size)

theorem visit_unresolved (lib : Library) {p : Progress} {item : Item} (shown : isHidden item.name = false)
    (stats : item.stats = true) (stored : p.manager.disk item.name = some (.file bytes))
    (model : isModelFile item.name = true) (unresolved : ¬ resolvable item.name = true) :
    ∃ m', visit lib p item = .error (m', .failed) ∧ Failed p item.name m' := by
  simp only [visit, shown, stats, stored, model, unresolved, Bool.false_eq_true, if_false, if_true]
  cases listed : p.manager.files.lookup item.name with
  | some entry => exact ⟨_, rfl, .inr ⟨entry, bytes.length, listed, rfl⟩⟩
  | none => exact ⟨_, rfl, .inl rfl⟩

/-- The size under which a name is to be listed, if it is. -/
def visibleSize (disk : FileId → Option Node) (f : FileId) : Option ℕ :=
  match isHidden f, disk f with
  | false, some (.file bytes) => some bytes.length
  | _, _ => none

theorem visibleSize_file {disk : FileId → Option Node} (shown : isHidden f = false)
    (stored : disk f = some (.file bytes)) : visibleSize disk f = some bytes.length := by
  rw [visibleSize, shown, stored]

theorem visibleSize_eq_some {disk : FileId → Option Node} {size : ℕ} (visible : visibleSize disk f = some size) :
    isHidden f = false ∧ ∃ bytes, disk f = some (.file bytes) ∧ size = bytes.length := by
  rw [visibleSize] at visible
  split at visible
  · rename_i bytes shown stored
    exact ⟨shown, bytes, stored, (Option.some.inj visible).symm⟩
  · cases visible

theorem visibleSize_isSome {disk : FileId → Option Node} : (visibleSize disk f).isSome ↔
    isHidden f = false ∧ ∃ bytes, disk f = some (.file bytes) := by
  constructor
  · intro visible
    obtain ⟨size, visible⟩ := Option.isSome_iff_exists.mp visible
    obtain ⟨shown, bytes, stored, -⟩ := visibleSize_eq_some visible
    exact ⟨shown, bytes, stored⟩
  · rintro ⟨shown, bytes, stored⟩
    rw [visibleSize_file shown stored]
    rfl

/-- What a visit does: it passes over a name that is not to be listed, it fails, or it comes to a
file. -/
theorem visit_spec (lib : Library) (p : Progress) (item : Item) :
    (visit lib p item = .ok p ∧ visibleSize p.manager.disk item.name = none) ∨
      (∃ m', visit lib p item = .error (m', .failed) ∧ Failed p item.name m') ∨
      ∃ bytes, Visitable p item bytes := by
  cases shown : isHidden item.name with
  | true => exact .inl ⟨visit_hidden shown, by rw [visibleSize, shown]⟩
  | false =>
      cases stored : p.manager.disk item.name with
      | none => exact .inr (.inl ⟨p.manager, by simp [visit, shown, stored], .inl rfl⟩)
      | some node =>
          cases stats : item.stats with
          | false => exact .inr (.inl ⟨p.manager, by simp [visit, shown, stats], .inl rfl⟩)
          | true =>
              cases node with
              | dir size => exact .inl ⟨visit_directory stats stored, by rw [visibleSize, shown, stored]⟩
              | file bytes =>
                  by_cases resolves : isModelFile item.name = true → resolvable item.name = true
                  · exact .inr (.inr ⟨bytes, shown, stats, stored, resolves⟩)
                  · rw [Classical.not_imp] at resolves
                    exact .inr (.inl (visit_unresolved lib shown stats stored resolves.1 resolves.2))

theorem visit_cases {p p' : Progress} {item : Item} (visited : visit lib p item = .ok p') :
    p' = p ∧ visibleSize p.manager.disk item.name = none ∨
      ∃ bytes, Visitable p item bytes ∧ (p.manager.examine lib item.env item.name).2 ≠ .error .aborted := by
  rcases visit_spec lib p item with ⟨kept, invisible⟩ | ⟨m', failed, -⟩ | ⟨bytes, file⟩
  · rw [kept] at visited
    cases visited
    exact .inl ⟨rfl, invisible⟩
  · rw [failed] at visited
    cases visited
  · refine .inr ⟨bytes, file, fun aborts => ?_⟩
    obtain ⟨m', ended⟩ := visit_aborted file aborts
    rw [ended] at visited
    cases visited

theorem visit_error {p : Progress} {item : Item} {m' : StorageManager}
    (failed : visit lib p item = .error (m', .failed)) : Failed p item.name m' := by
  rcases visit_spec lib p item with ⟨kept, -⟩ | ⟨m', failed', change⟩ | ⟨bytes, file⟩
  · rw [kept] at failed
    cases failed
  · rw [failed'] at failed
    cases failed
    exact change
  · by_cases aborts : (p.manager.examine lib item.env item.name).2 = .error .aborted
    · obtain ⟨m'', ended⟩ := visit_aborted file aborts
      rw [ended] at failed
      cases failed
    · rw [visit_file file aborts] at failed
      cases failed

/-- The item creates no output in this directory. -/
def Quiet (lib : Library) (disk : FileId → Option Node) (item : Item) : Prop :=
  ∀ bytes, disk item.name = some (.file bytes) → isHidden item.name = false → isModelFile item.name = true →
    convertible lib item.env.memory bytes = true → item.env.opens = true → item.env.creates = true →
    isDirectory (disk (pggufName item.name)) = true

/-- What an analysis without an output finds in a file of these bytes. -/
def readInfo (lib : Library) (memory : Memory) (opens : Bool) (f : FileId) (bytes : List UInt8) : Option ArchInfo :=
  if isModelFile f && opens && !convertible lib memory bytes then analysis lib memory bytes else none

theorem examine_quiet {item : Item} (quiet : Quiet lib m.disk item) (shown : isHidden item.name = false)
    (stored : m.disk item.name = some (.file bytes)) :
    (m.examine lib item.env item.name).1 = m.disk ∧ (m.examine lib item.env item.name).2.toOption =
      readInfo lib item.env.memory item.env.opens item.name bytes := by
  rw [StorageManager.examine, readInfo]
  cases model : isModelFile item.name with
  | false => exact ⟨rfl, rfl⟩
  | true =>
      rw [if_pos rfl, analyze_kept stored (quiet bytes stored shown model), Bool.true_and]
      refine ⟨rfl, ?_⟩
      dsimp only
      split
      · exact answer_toOption ..
      · rfl

/-- The visit of a file that creates no output. -/
theorem visit_quiet {p : Progress} {item : Item} (quiet : Quiet lib p.manager.disk item)
    (file : Visitable p item bytes) (survives : (p.manager.examine lib item.env item.name).2 ≠ .error .aborted) :
    visit lib p item = .ok
      ⟨p.manager.set item.name (.renewed (p.manager.files.lookup item.name) bytes.length
          (readInfo lib item.env.memory item.env.opens item.name bytes)),
        item.name :: p.seen, p.discovered + if (p.manager.files.lookup item.name).isSome then 0 else 1⟩ := by
  obtain ⟨disk, info⟩ := examine_quiet quiet file.shown file.stored
  rw [visit_file file survives, disk, info]
  rfl

/-- An analysis changes its file and its output only. -/
theorem examine_only {g : FileId} (other : g ≠ f) (apart : isModelFile f = true → g ≠ pggufName f) :
    (m.examine lib env f).1 g = m.disk g := by
  rw [StorageManager.examine]
  cases model : isModelFile f with
  | false => rfl
  | true =>
      have path : filePath m.baseDir g ≠ filePath m.baseDir f := fun same => other (filePath_inj.mp same)
      have output : filePath m.baseDir g ≠ (filePath m.baseDir f).withExtension "pgguf" := by
        rw [filePath_pggufName (ne_empty_of_isModelFile model)]
        exact fun same => apart model (filePath_inj.mp same)
      have kept := congrFun (withFiles_filesOf m.baseDir m.disk) g
      rw [if_pos rfl, StorageManager.analyze]
      dsimp only
      rw [withFiles, analyzeModel_only _ _ path output]
      exact kept

theorem lookup_cleaned (p : Progress) (f : FileId) :
    (cleaned p).lookup f = if f ∈ p.seen then p.manager.files.lookup f else none := by
  have erased (names : List FileId) (files : Table FileId FileRecord) :
      (names.foldl (fun files f => files.erase f) files).lookup f =
        if f ∈ names then none else files.lookup f := by
    induction names generalizing files with
    | nil => simp
    | cons name names ih =>
        rw [List.foldl_cons, ih]
        by_cases same : f = name
        · subst same
          simp
        · simp [same, AList.lookup_erase_ne]
  rw [cleaned, erased, zombies]
  by_cases seen : f ∈ p.seen
  · simp [seen]
  · by_cases listed : f ∈ p.manager.files.keys
    · simp [seen, listed]
    · have missing : p.manager.files.lookup f = none := AList.lookup_eq_none.mpr listed
      simp [seen, missing]

theorem flush_ok {m' : StorageManager} {scan : Scan} {counts : ℕ × ℕ}
    (flushed : flush lib m scan = (m', .ok counts)) :
    scan.opened = true ∧ scan.finished = true ∧ ∃ p, scan.items.foldlM (visit lib) ⟨m, [], 0⟩ = .ok p ∧
      m' = { p.manager with files := cleaned p, supported := supportedModels (cleaned p) } ∧
      counts = (p.discovered, (zombies p).length) := by
  rw [flush] at flushed
  split at flushed
  · rename_i opened
    split at flushed
    · cases flushed
    · rename_i p scanned
      split at flushed
      · rename_i finished
        cases flushed
        exact ⟨opened, finished, p, scanned, rfl, rfl⟩
      · cases flushed
  · cases flushed

end Visit

end Pleiades.Storage
