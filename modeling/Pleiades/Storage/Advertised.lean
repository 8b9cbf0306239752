import Pleiades.Lib.Run
import Pleiades.Storage.Flush

/-!
# The models that are advertised

Flushes in turn with outside changes of the directory, and when the models sent to the
peer manager are those on the disk.
-/
namespace Pleiades.Storage

open Lib Gguf PeerManagement

inductive Event where
  | flush (scan : Scan)
  | external (file : FileId) (node : Option Node)

variable (lib : Library)

namespace StorageManager

def list (disk : FileId → Option Node) (files : Table FileId FileRecord) (f : FileId) : Table FileId FileRecord :=
  match visibleSize disk f with
  | some size => files.insert f { size }
  | none => files

/-- `New`: the visible files, not analysed yet. -/
def opened (baseDir : String) (disk : FileId → Option Node) (listing : List FileId) : StorageManager where
  baseDir
  files := listing.foldl (list disk) ∅
  disk
  supported := []

/-- There is no manager after a flush that takes the process with it. -/
def step (m : StorageManager) : Event → Option StorageManager
  | .flush scan => if (flush lib m scan).2 = .error .aborted then none else some (flush lib m scan).1
  | .external f node => some { m with disk := Function.update m.disk f node }

end StorageManager

/-- A file of the directory that an analysis with enough memory describes by this id and this
bitmap. -/
def Real (disk : FileId → Option Node) (model : SupportedModel) : Prop :=
  ∃ memory bytes info, disk model.fileName = some (.file bytes) ∧ analysis lib memory bytes = some info ∧
    info.modelId = some model.id ∧ info.layerBitmap = some model.layerBitmap

/-- No file is converted, and no file whose entry stands for a model fails its analysis. -/
structure Steady (m : StorageManager) (scan : Scan) : Prop where
  quiet : ∀ item ∈ scan.items, Quiet lib m.disk item
  described : ∀ item ∈ scan.items, ∀ bytes r, m.disk item.name = some (.file bytes) →
    m.files.lookup item.name = some r → (r.supported item.name).isSome →
    item.env.opens = true ∧ convertible lib item.env.memory bytes = false ∧ (analysis lib item.env.memory bytes).isSome

def Event.Steady (m : StorageManager) : Event → Prop
  | .flush scan => Storage.Steady lib m scan
  | .external _ _ => True

/-- If the step is a flush that returns `Ok`, all it sends is real. -/
def AdvertisesReal (m : StorageManager) (event : Event) : Prop :=
  ∀ scan m' counts, event = .flush scan → flush lib m scan = (m', .ok counts) →
    ∀ model ∈ m'.supported, Real lib m'.disk model

/-- Only a model file has an entry that stands for a model. -/
def ModelNames (m : StorageManager) : Prop :=
  ∀ f r, m.files.lookup f = some r → (r.supported f).isSome → isModelFile f = true

/-- The scan after it has visited some names. -/
structure Visited (m : StorageManager) (p : Progress) : Prop where
  disk : p.manager.disk = m.disk
  real : ∀ f ∈ p.seen, ∀ r model, p.manager.files.lookup f = some r → r.supported f = some model →
    Real lib m.disk model
  unseen : ∀ f ∉ p.seen, p.manager.files.lookup f = m.files.lookup f

variable {lib} {m : StorageManager}

theorem FileRecord.supported_eq_some {r : FileRecord} {f : FileId} {model : SupportedModel}
    (stands : r.supported f = some model) :
    r.modelId = some model.id ∧ model.fileName = f ∧ r.layerBitmap = some model.layerBitmap := by
  obtain ⟨id, hasId, rest⟩ := Option.bind_eq_some_iff.mp stands
  obtain ⟨bitmap, hasBitmap, rfl⟩ := Option.map_eq_some_iff.mp rest
  exact ⟨hasId, rfl, hasBitmap⟩

/-- An entry that gets no model data keeps what it stands for. -/
theorem FileRecord.supported_renewed_none (old : Option FileRecord) (size : ℕ) (f : FileId) :
    (FileRecord.renewed old size none).supported f = old.bind fun r => r.supported f := by
  cases old <;> rfl

theorem readInfo_eq_some {memory : Memory} {opens : Bool} {f : FileId} {bytes : List UInt8} {info : ArchInfo}
    (found : readInfo lib memory opens f bytes = some info) : analysis lib memory bytes = some info := by
  rw [readInfo] at found
  exact (Option.ite_none_right_eq_some.mp found).2

/-- What a fresh entry stands for is real. -/
theorem real_of_described {disk : FileId → Option Node} {f : FileId} {bytes : List UInt8} {memory : Memory}
    {opens : Bool} {info : ArchInfo} (stored : disk f = some (.file bytes))
    (found : readInfo lib memory opens f bytes = some info) {old : Option FileRecord} {size : ℕ} {model : SupportedModel}
    (stands : (FileRecord.renewed old size (some info)).supported f = some model) : Real lib disk model := by
  obtain ⟨id, rfl, bitmap⟩ := FileRecord.supported_eq_some stands
  exact ⟨memory, bytes, info, stored, readInfo_eq_some found, id, bitmap⟩

theorem ModelNames.set (named : ModelNames m) {f : FileId} {r : FileRecord}
    (entry : (r.supported f).isSome → isModelFile f = true) : ModelNames (m.set f r) := by
  intro g r' listed stands
  rcases Table.lookup_insert_eq_some listed with ⟨rfl, rfl⟩ | ⟨-, listed⟩
  · exact entry stands
  · exact named g r' listed stands

theorem ModelNames.visited {p p' : Progress} {item : Item} (named : ModelNames p.manager)
    (visited : visit lib p item = .ok p') : ModelNames p'.manager := by
  rcases visit_cases visited with ⟨rfl, -⟩ | ⟨bytes, file, survives⟩
  · exact named
  rw [visit_file file survives] at visited
  cases visited
  apply named.set
  intro stands
  by_contra other
  rw [StorageManager.examine, if_neg other] at stands
  change ((FileRecord.renewed _ _ none).supported item.name).isSome at stands
  rw [FileRecord.supported_renewed_none] at stands
  obtain ⟨model, stands⟩ := Option.isSome_iff_exists.mp stands
  obtain ⟨old, listed, stands⟩ := Option.bind_eq_some_iff.mp stands
  exact other (named item.name old listed (by rw [stands]; rfl))

theorem ModelNames.failed {p : Progress} {f : FileId} {m' : StorageManager} (named : ModelNames p.manager)
    (failed : Failed p f m') : ModelNames m' := by
  rcases failed with rfl | ⟨entry, size, listed, rfl⟩
  · exact named
  · exact named.set fun stands => named f entry listed stands

theorem ModelNames.flushed {scan : Scan} (named : ModelNames m)
    (survives : (flush lib m scan).2 ≠ .error .aborted) : ModelNames (flush lib m scan).1 := by
  rw [flush] at survives ⊢
  by_cases opened : scan.opened = true
  · rw [if_pos opened] at survives ⊢
    cases scanned : scan.items.foldlM (visit lib) ⟨m, [], 0⟩ with
    | error ended =>
        obtain ⟨m', halt⟩ := ended
        obtain ⟨item, -, p, here, ended⟩ := foldlM_error (P := fun p => ModelNames p.manager) scanned named
          fun _ named visited => named.visited visited
        rw [scanned] at survives
        cases halt with
        | failed => exact here.failed (visit_error ended)
        | aborted => exact absurd rfl survives
    | ok p =>
        have here : ModelNames p.manager :=
          foldlM_ok (P := fun _ p => ModelNames p.manager) scanned named fun _ named visited => named.visited visited
        dsimp only
        split
        · intro f r listed stands
          rw [lookup_cleaned] at listed
          exact here f r (Option.ite_none_right_eq_some.mp listed).2 stands
        · exact here
  · rw [if_neg opened]
    exact named

theorem ModelNames.step {m' : StorageManager} {event : Event} (named : ModelNames m)
    (h : m.step lib event = some m') : ModelNames m' := by
  cases event with
  | flush scan =>
      obtain ⟨survives, flushed⟩ := Option.ite_none_left_eq_some.mp h
      cases flushed
      exact named.flushed survives
  | external f node =>
      cases h
      exact named

theorem ModelNames.opened (baseDir : String) (disk : FileId → Option Node) (listing : List FileId) :
    ModelNames (.opened baseDir disk listing) := by
  have plain (names : List FileId) (files : Table FileId FileRecord)
      (before : ∀ f r, files.lookup f = some r → r.supported f = none) :
      ∀ f r, (names.foldl (StorageManager.list disk) files).lookup f = some r → r.supported f = none := by
    induction names generalizing files with
    | nil => exact before
    | cons name names ih =>
        apply ih _
        intro f r listed
        rw [StorageManager.list] at listed
        cases visible : visibleSize disk name with
        | none =>
            rw [visible] at listed
            exact before f r listed
        | some size =>
            rw [visible] at listed
            rcases Table.lookup_insert_eq_some listed with ⟨rfl, rfl⟩ | ⟨-, listed⟩
            · rfl
            · exact before f r listed
  intro f r listed stands
  rw [plain listing ∅ (by simp) f r listed] at stands
  cases stands

theorem Visited.start (m : StorageManager) : Visited lib m ⟨m, [], 0⟩ where
  disk := rfl
  real _ seen := absurd seen List.not_mem_nil
  unseen _ _ := rfl

theorem Visited.visit {scan : Scan} {p p' : Progress} {item : Item} (named : ModelNames m)
    (steady : Steady lib m scan)
    (member : item ∈ scan.items) (here : Visited lib m p) (visited : visit lib p item = .ok p') :
    Visited lib m p' := by
  have stays := here.disk
  rcases visit_cases visited with ⟨rfl, -⟩ | ⟨bytes, file, survives⟩
  · exact here
  have quiet := steady.quiet item member
  rw [← stays] at quiet
  rw [visit_quiet quiet file survives] at visited
  cases visited
  have stored := file.stored
  rw [stays] at stored
  refine ⟨stays, fun f seen r model listed stands => ?_, fun f unseen => ?_⟩
  · by_cases same : f = item.name
    · subst same
      have entry := (AList.lookup_insert p.manager.files).symm.trans listed
      cases found : readInfo lib item.env.memory item.env.opens item.name bytes with
      | some info =>
          rw [found] at entry
          cases entry
          exact real_of_described stored found stands
      | none =>
          rw [found] at entry
          cases entry
          rw [FileRecord.supported_renewed_none] at stands
          obtain ⟨old, recorded, stands⟩ := Option.bind_eq_some_iff.mp stands
          by_cases before : item.name ∈ p.seen
          · exact here.real item.name before old model recorded stands
          · rw [here.unseen item.name before] at recorded
            have model := named item.name old recorded (by rw [stands]; rfl)
            obtain ⟨opens, kept, fine⟩ :=
              steady.described item member bytes old stored recorded (by rw [stands]; rfl)
            have whole : readInfo lib item.env.memory item.env.opens item.name bytes =
                analysis lib item.env.memory bytes := by
              simp [readInfo, model, opens, kept]
            rw [← whole, found] at fine
            cases fine
    · have before := (List.mem_cons.mp seen).resolve_left same
      have entry := (AList.lookup_insert_ne same).symm.trans listed
      exact here.real f before r model entry stands
  · rw [List.mem_cons, not_or] at unseen
    exact (AList.lookup_insert_ne unseen.1).trans (here.unseen f unseen.2)

theorem mem_supportedModels {files : Table FileId FileRecord} {model : SupportedModel}
    (sent : model ∈ supportedModels files) : ∃ f r, files.lookup f = some r ∧ r.supported f = some model := by
  obtain ⟨e, member, stands⟩ := List.mem_filterMap.mp sent
  exact ⟨e.1, e.2, Table.lookup_eq_some_iff.mpr member, stands⟩

/-- One flush that converts nothing and after which no model fails its analysis. -/
theorem Steady.advertisesReal {scan : Scan} (named : ModelNames m) (steady : Steady lib m scan) :
    AdvertisesReal lib m (.flush scan) := by
  intro scan' m' counts same flushed model sent
  cases same
  obtain ⟨-, -, p, scanned, rfl, -⟩ := flush_ok flushed
  have visited : Visited lib m p :=
    foldlM_ok (P := fun _ p => Visited lib m p) scanned (.start m) fun member here visited =>
      here.visit named steady member visited
  obtain ⟨f, r, listed, stands⟩ := mem_supportedModels sent
  rw [lookup_cleaned] at listed
  obtain ⟨seen, listed⟩ := Option.ite_none_right_eq_some.mp listed
  have real := visited.real f seen r model listed stands
  rwa [← visited.disk] at real

/-- In a run of such flushes and any outside changes, what is sent after each flush is real. -/
theorem advertised_real {baseDir : String} {disk : FileId → Option Node} {listing : List FileId}
    {tr : List (StorageManager × Event)} (run : Run (StorageManager.step lib) (.opened baseDir disk listing) tr m)
    (steady : ∀ p ∈ tr, p.2.Steady lib p.1) : ∀ p ∈ tr, AdvertisesReal lib p.1 p.2 := by
  intro p member
  obtain ⟨pre, post, u, -, before, -, -⟩ := run.reaches p member
  have named : ModelNames p.1 :=
    before.always (ModelNames.opened baseDir disk listing) fun named h => named.step h
  have here := steady p member
  cases event : p.2 with
  | flush scan =>
      rw [event] at here
      exact here.advertisesReal named
  | external f node => exact nofun

theorem packedKeys_distinct :
    ([("pleiades.model_id", Value.u32 7), ("pleiades.layer_bitmap", .string "01")].map Prod.fst).Nodup := by decide

/-- A converted model with its first block. -/
def packedContent : Content := markedContent _ packedKeys_distinct

/-- A library that knows that model. -/
def packedLibrary : Library := markedLibrary packedContent rfl

def packedManager : StorageManager :=
  .opened "models" (Function.update (fun _ => none) "m.pgguf" (some (.file [1]))) ["m.pgguf"]

def packedScan : Scan := ⟨true, [⟨"m.pgguf", true, reliableEnv⟩], true⟩

theorem packedScan_steady {m : StorageManager} (stored : m.disk "m.pgguf" = some (.file [1])) :
    Steady packedLibrary m packedScan := by
  refine ⟨List.forall_mem_singleton.mpr ?_, List.forall_mem_singleton.mpr ?_⟩
  · intro bytes here _ _ raw
    cases stored.symm.trans here
    exact absurd raw (by decide +kernel)
  · intro bytes r here _ _
    cases stored.symm.trans here
    exact ⟨rfl, by decide +kernel, by decide +kernel⟩

/-- Two flushes over that model, the second with its entry in the index. -/
theorem advertised_real_packed :
    ∃ tr m, Run (StorageManager.step packedLibrary) packedManager tr m ∧ tr.length = 2 ∧
      ∀ p ∈ tr, AdvertisesReal packedLibrary p.1 p.2 := by
  let events : List Event := [.flush packedScan, .flush packedScan]
  have run := exec_run (show exec (StorageManager.step packedLibrary) packedManager events = some _ from rfl)
  have again : (flush packedLibrary packedManager packedScan).1.disk "m.pgguf" = some (.file [1]) := by
    decide +kernel
  refine ⟨_, _, run, rfl, advertised_real run ?_⟩
  refine List.forall_mem_cons.mpr ⟨packedScan_steady (by decide +kernel), ?_⟩
  exact List.forall_mem_singleton.mpr (packedScan_steady again)

/-- That model after its analysis, overwritten from outside. -/
def staleManager : StorageManager where
  __ := (flush packedLibrary packedManager packedScan).1
  disk := Function.update (flush packedLibrary packedManager packedScan).1.disk "m.pgguf" (some (.file [0]))

/-- The next flush sends it once more. -/
theorem advertised_real_counterexample :
    ∃ tr m, Run (StorageManager.step packedLibrary) packedManager tr m ∧
      ∃ p ∈ tr, ¬ AdvertisesReal packedLibrary p.1 p.2 := by
  let events : List Event :=
    [.flush packedScan, .external "m.pgguf" (some (.file [0])), .flush packedScan]
  have run := exec_run (show exec (StorageManager.step packedLibrary) packedManager events = some _ from rfl)
  refine ⟨_, _, run, (staleManager, .flush packedScan),
    List.mem_cons_of_mem _ (List.mem_cons_of_mem _ List.mem_cons_self), ?_⟩
  have sent : (flush packedLibrary staleManager packedScan).2 = .ok (0, 0) ∧
      ((flush packedLibrary staleManager packedScan).1.supported.map SupportedModel.fileName) = ["m.pgguf"] ∧
      (flush packedLibrary staleManager packedScan).1.disk "m.pgguf" = some (.file [0]) := by
    decide +kernel
  generalize flushed : flush packedLibrary staleManager packedScan = outcome at sent
  obtain ⟨m', result⟩ := outcome
  obtain ⟨rfl, names, stored⟩ := sent
  intro real
  obtain ⟨model, member, named⟩ := List.mem_map.mp (show "m.pgguf" ∈ m'.supported.map SupportedModel.fileName by
    rw [names]; exact List.mem_cons_self)
  obtain ⟨memory, bytes, info, here, analysed, -⟩ := real packedScan m' (0, 0) rfl flushed model member
  rw [named, stored] at here
  cases here
  have corrupt : packedLibrary.parse [0] = none := by decide +kernel
  rw [analysis, corrupt] at analysed
  cases analysed

end Pleiades.Storage
