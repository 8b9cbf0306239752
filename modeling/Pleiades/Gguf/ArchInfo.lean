import Pleiades.Gguf.Convert
import Pleiades.Lib.Text

/-!
# What an analysis returns

`analyze_model` with the part of `Model_Arch_Info` that the storage keeps.
-/
namespace Pleiades.Gguf

open Lib

/-- What `trim` takes off. -/
def isWhiteSpace (c : Char) : Bool :=
  let n := c.toNat
  (0x9 ≤ n && n ≤ 0xD) || (0x2000 ≤ n && n ≤ 0x200A) ||
    [0x20, 0x85, 0xA0, 0x1680, 0x2028, 0x2029, 0x202F, 0x205F, 0x3000].contains n

def trim (text : List Char) : List Char :=
  ((text.dropWhile isWhiteSpace).reverse.dropWhile isWhiteSpace).reverse

def hexDigit (b : UInt8) : Option UInt8 :=
  if 48 ≤ b ∧ b ≤ 57 then some (b - 48)
  else if 97 ≤ b ∧ b ≤ 102 then some (b - 87)
  else if 65 ≤ b ∧ b ≤ 70 then some (b - 55)
  else none

/-- `u8::from_str_radix` of two bytes, base 16: a `+` may stand before the digit. -/
def parseHexPair (first second : UInt8) : Option UInt8 :=
  if first = 43 then hexDigit second
  else (hexDigit first).bind fun high => (hexDigit second).map fun low => 16 * high + low

def isCharBoundary (bytes : List UInt8) (i : ℕ) : Bool :=
  match bytes[i]? with
  | some b => b &&& 0xC0 != 0x80
  | none => true

/-- `Parse_Bitmap_Hex`. A pair that is no number leaves its byte at zero; one that does not
lie between characters panics. -/
def parseBitmapHex (hex : String) : Option (Vector UInt8 32) :=
  let bytes := utf8 (String.ofList (trim hex.toList))
  let count := min 32 (bytes.length / 2)
  if (List.range count).all fun i => isCharBoundary bytes (i * 2) && isCharBoundary bytes (i * 2 + 2) then
    some (Vector.ofFn fun i =>
      if i < count then (parseHexPair (bytes.getD (i * 2) 0) (bytes.getD (i * 2 + 1) 0)).getD 0 else 0)
  else none

/-- `Model_Arch_Info`, as far as the storage keeps it. -/
structure ArchInfo where
  architecture : String
  numLayers : ℕ
  modelId : Option UInt32
  layerBitmap : Option (Vector UInt8 32)
  deriving DecidableEq

variable (lib : Library) (env : Env) (memory : Memory)

/-- The content is a raw model: the analysis converts its file. -/
def Content.raw (c : Content) : Bool := !(c.weightFormat == some "safetensors") && !c.converted lib

def Content.builtBitmap (c : Content) : Vector UInt8 32 :=
  ⟨(c.layerBitmap lib).toArray, buildLayerBitmap_length ..⟩

/-- The model data of an analysis that gets to its end. It does not when there is no room for
the layers, or when the bitmap in the metadata panics. -/
def Content.archInfo (c : Content) : Option ArchInfo :=
  match c.reserveLayers lib memory with
  | .error _ => none
  | .ok () =>
    let stored := (c.metadataUsize lib "pleiades.model_id").map UInt32.ofNat
    let info := ArchInfo.mk c.architecture (c.numLayers lib)
    if c.raw lib then some (info (some (c.modelId lib)) (some (c.builtBitmap lib)))
    else
      match c.metadataString "pleiades.layer_bitmap" with
      | none => some (info stored none)
      | some hex => (parseBitmapHex hex).map fun bitmap => info stored (some bitmap)

/-- What an analysis says about a file of these bytes. -/
def analysis (bytes : List UInt8) : Option ArchInfo := (lib.parse bytes).bind fun c => c.archInfo lib memory

/-- How an analysis ends without the model data. A panic of the blocking task is an error of
`analyze_model`; an abort takes the process with it. -/
inductive Halt where
  | failed
  | aborted
  deriving DecidableEq

/-- `analyze_model`: the files it leaves, and the model data. -/
def analyzeModel (files : Files) (p : Path) : Files × Except Halt ArchInfo :=
  let outcome := analyzeAndConvert lib env files p
  (outcome.files, match outcome.result with
    | .ok _ => ((files p).bind fun bytes => analysis lib env.memory bytes).elim (.error .failed) .ok
    | .fault .aborted => .error .aborted
    | _ => .error .failed)

/-- The bytes are those of a raw model with room for its layers. -/
def convertible (bytes : List UInt8) : Bool :=
  (lib.parse bytes).any fun c => c.raw lib && decide (c.reserveLayers lib memory = .ok ())

/-- An analysis of the bytes ends the process. -/
def fatal (bytes : List UInt8) : Bool :=
  (lib.parse bytes).any fun c => decide (c.reserveLayers lib memory = .error .aborted)

/-- The answer to an analysis that converts nothing. -/
def answer (bytes : List UInt8) : Except Halt ArchInfo :=
  if fatal lib memory bytes then .error .aborted else (analysis lib memory bytes).elim (.error .failed) .ok

def lastWriter : Except (BufWriter UInt8 × Stop) (BufWriter UInt8) → BufWriter UInt8
  | .error (w, _) | .ok w => w

/-- What the writer leaves of the output, finished or not. -/
def leftBehind (c : Content) (input : BufWriter UInt8 → List UInt8) : List UInt8 :=
  (lastWriter (streamingWrite lib env c input)).close env.disk

variable {lib env memory} {files : Files} {p : Path} {bytes : List UInt8}

theorem convertible_iff : convertible lib memory bytes = true ↔
    ∃ c, lib.parse bytes = some c ∧ c.raw lib = true ∧ c.reserveLayers lib memory = .ok () := by
  simp [convertible, Option.any_eq_true]

theorem fatal_iff : fatal lib memory bytes = true ↔
    ∃ c, lib.parse bytes = some c ∧ c.reserveLayers lib memory = .error .aborted := by
  simp [fatal, Option.any_eq_true]

/-- The layers of such a file take memory that there is not. -/
theorem fatal_iff_short : fatal lib memory bytes = true ↔ ∃ c, lib.parse bytes = some c ∧ 0 < c.numLayers lib ∧
    c.numLayers lib * layerInfoSize < 2 ^ 63 ∧ memory (c.numLayers lib * layerInfoSize) = false := by
  rw [fatal_iff]
  refine exists_congr fun c => and_congr_right fun _ => ?_
  have size : c.numLayers lib * layerInfoSize ≠ 0 ↔ 0 < c.numLayers lib := by
    rw [layerInfoSize]
    omega
  rw [Content.reserveLayers, withCapacity_aborted, size]
  exact and_left_comm

/-- A file that would be converted does not end the process. -/
theorem not_fatal_of_convertible (converts : convertible lib memory bytes = true) : fatal lib memory bytes = false := by
  obtain ⟨c, parsed, -, reserved⟩ := convertible_iff.mp converts
  simp [fatal, parsed, reserved]

theorem analysis_of_fatal (dies : fatal lib memory bytes = true) : analysis lib memory bytes = none := by
  obtain ⟨c, parsed, refused⟩ := fatal_iff.mp dies
  rw [analysis, parsed, Option.bind_some, Content.archInfo, refused]

theorem answer_toOption (lib : Library) (memory : Memory) (bytes : List UInt8) :
    (answer lib memory bytes).toOption = analysis lib memory bytes := by
  rw [answer]
  split
  · next dies =>
    rw [analysis_of_fatal dies]
    rfl
  · cases analysis lib memory bytes <;> rfl

theorem analyzeModel_closed (given : files p = some bytes) (closed : env.opens = false) :
    analyzeModel lib env files p = (files, .error .failed) := by
  simp [analyzeModel, analyzeAndConvert, given, closed]

/-- An analysis that converts nothing. -/
theorem analyzeModel_kept (given : files p = some bytes) (kept : convertible lib env.memory bytes = false) :
    analyzeModel lib env files p = (files, if env.opens then answer lib env.memory bytes else .error .failed) := by
  by_cases opens : env.opens = true
  · rw [if_pos opens]
    cases parsed : lib.parse bytes with
    | none => simp [analyzeModel, analyzeAndConvert, given, opens, parsed, analysis, answer, fatal]
    | some c =>
        cases reserved : c.reserveLayers lib env.memory with
        | error f =>
            have missing : analysis lib env.memory bytes = none := by
              rw [analysis, parsed, Option.bind_some, Content.archInfo, reserved]
            cases f <;> simp [analyzeModel, analyzeAndConvert, given, opens, parsed, reserved, answer, fatal, missing]
        | ok room =>
            have outcome : analyzeAndConvert lib env files p = ⟨files, .ok p⟩ := by
              simp only [analyzeAndConvert, given, opens, parsed, reserved, if_true]
              split
              · rfl
              · next unpacked =>
                have converted : c.converted lib = true := by
                  simpa [convertible, parsed, reserved, Content.raw, unpacked] using kept
                rw [if_pos converted]
            simp [analyzeModel, outcome, given, answer, fatal, parsed, reserved]
  · rw [if_neg opens]
    exact analyzeModel_closed given (Bool.eq_false_of_not_eq_true opens)

theorem analyzeAndConvert_raw (given : files p = some bytes) (opens : env.opens = true) {c : Content}
    (parsed : lib.parse bytes = some c) (raw : c.raw lib = true) (reserved : c.reserveLayers lib env.memory = .ok ()) :
    analyzeAndConvert lib env files p = convertParsed lib env files p bytes c := by
  rw [Content.raw, Bool.and_eq_true, Bool.not_eq_true', Bool.not_eq_true'] at raw
  have unpacked : c.weightFormat ≠ some "safetensors" := by simpa using raw.1
  simp [analyzeAndConvert, given, opens, parsed, reserved, unpacked, raw.2]

/-- A raw model whose output is not created. -/
theorem analyzeModel_refused (given : files p = some bytes) (converts : convertible lib env.memory bytes = true)
    (refused : env.creates = false) : analyzeModel lib env files p = (files, .error .failed) := by
  by_cases opens : env.opens = true
  · obtain ⟨c, parsed, raw, reserved⟩ := convertible_iff.mp converts
    simp [analyzeModel, analyzeAndConvert_raw given opens parsed raw reserved, convertParsed, refused]
  · exact analyzeModel_closed given (Bool.eq_false_of_not_eq_true opens)

/-- Once the output is created it holds what the writer left. An input that cannot be
deleted stays, unless it is the output. -/
theorem analyzeModel_created (given : files p = some bytes) (converts : convertible lib env.memory bytes = true)
    (opens : env.opens = true) (creates : env.creates = true) (stays : env.removes = false) :
    ∃ c input, analyzeModel lib env files p = (Function.update files (p.withExtension "pgguf")
      (some (leftBehind lib env c input)), .error .failed) := by
  obtain ⟨c, parsed, raw, reserved⟩ := convertible_iff.mp converts
  have converts := analyzeAndConvert_raw given opens parsed raw reserved
  refine ⟨c, fun w => if p.withExtension "pgguf" = p then w.disk else bytes, ?_⟩
  cases written : streamingWrite lib env c fun w => if p.withExtension "pgguf" = p then w.disk else bytes with
  | error failed => simp [analyzeModel, converts, convertParsed, creates, leftBehind, lastWriter, written]
  | ok w => simp [analyzeModel, converts, convertParsed, creates, stays, leftBehind, lastWriter, written]

theorem convertParsed_only {q : Path} (other : q ≠ p) (apart : q ≠ p.withExtension "pgguf") (c : Content) :
    (convertParsed lib env files p bytes c).files q = files q := by
  rw [convertParsed]
  dsimp only
  split
  · split
    · exact Function.update_of_ne apart ..
    · split
      · dsimp only
        rw [Function.update_of_ne other, Function.update_of_ne apart]
      · exact Function.update_of_ne apart ..
  · rfl

/-- An analysis changes its file and its output only. -/
theorem analyzeModel_only (lib : Library) (env : Env) {q : Path} (other : q ≠ p) (apart : q ≠ p.withExtension "pgguf") :
    (analyzeModel lib env files p).1 q = files q := by
  rw [analyzeModel, analyzeAndConvert]
  cases files p with
  | none => rfl
  | some bytes =>
      dsimp only
      split
      · split
        · rfl
        · split
          · rfl
          · split
            · rfl
            · split
              · rfl
              · exact convertParsed_only other apart _
      · rfl

/-- A disk that refuses every byte. -/
def refusingDisk : BufWriter.Disk := fun _ => some 0

theorem copyData_refusing {disk : BufWriter.Disk} (refusing : ∀ n, disk n = some 0)
    (input : BufWriter UInt8 → List UInt8) (reads : List (Option ℕ)) (pos : ℕ) (w : BufWriter UInt8) :
    (lastWriter (copyData disk input reads pos w)).disk = w.disk := by
  induction reads generalizing pos w with
  | nil => rfl
  | cons read reads ih =>
      cases read with
      | none => rfl
      | some n =>
          rw [copyData]
          split
          · rfl
          · next b rest _ =>
            have written := BufWriter.write_refusing refusing bufCapacity w (b :: rest)
            cases outcome : w.write disk bufCapacity (b :: rest) with
            | error w' =>
                rw [outcome] at written
                exact written
            | ok w' =>
                rw [outcome] at written
                exact (ih _ w').trans written

theorem leftBehind_refusing (lib : Library) (refusing : env.disk = refusingDisk) (c : Content)
    (input : BufWriter UInt8 → List UInt8) : leftBehind lib env c input = [] := by
  have refuses (n : ℕ) : env.disk n = some 0 := by rw [refusing, refusingDisk]
  have began := BufWriter.run_refusing refuses bufCapacity .fresh
    (prologueOps lib.layout c (c.modelId lib) (c.layerBitmap lib)).1
  have ended : (lastWriter (streamingWrite lib env c input)).disk = [] := by
    rw [streamingWrite]
    cases outcome : BufWriter.fresh.run env.disk bufCapacity
      (prologueOps lib.layout c (c.modelId lib) (c.layerBitmap lib)).1 with
    | error w =>
        rw [outcome] at began
        exact began
    | ok w =>
        rw [outcome] at began
        dsimp only
        split
        · exact began
        · exact (copyData_refusing refuses input env.reads c.tensorDataOffset w).trans began
  rw [leftBehind, BufWriter.close_refusing refuses, ended]

theorem markedAlignment_pos (_ : List (String × Value)) : 0 < 32 := by decide

/-- A library to which every file that starts with a one is this model. -/
def markedLibrary (c : Content) (front : c.tensorDataOffset = 1) : Library where
  layout := ggmlLayout
  parse bytes := if bytes.take 1 = [1] then some c else none
  parse_header := by
    intro bytes bytes' c' parsed _ header
    split at parsed
    · next known =>
      cases parsed
      rw [front] at header
      exact if_pos (header.trans known)
    · cases parsed
  alignment _ := 32
  alignment_pos := markedAlignment_pos
  toUsize
    | .u32 v => some v.toNat
    | .u64 v => some v.toNat
    | _ => none
  xxHash32 _ := 0

theorem markedNames_fit : ∀ name ∈ ([] : List (String × TensorInfo)).map Prod.fst, name.utf8ByteSize < 256 ^ 8 := by
  simp

theorem markedCount_fits : ([] : List (String × TensorInfo)).length < 256 ^ 8 := by decide

/-- A model without tensors. -/
def markedContent (metadata : List (String × Value)) (distinct : (metadata.map Prod.fst).Nodup) : Content where
  metadata
  tensorInfos := []
  tensorDataOffset := 1
  keys_nodup := distinct
  names_nodup := List.nodup_nil
  names_fit := markedNames_fit
  count_fits := markedCount_fits

end Pleiades.Gguf
