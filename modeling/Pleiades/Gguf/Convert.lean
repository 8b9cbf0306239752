import Pleiades.Gguf.Analyze
import Pleiades.Lib.Memory

/-!
# Converting a file

`GGUF_Analyze_And_Convert` on the files of a disk: what it leaves there for every
input, every failure of a system call, and an output path that may be the input's.
-/
namespace Pleiades.Gguf

open Lib

structure Path where
  parent : String
  stem : String
  extension : Option String
  deriving DecidableEq, Repr

def Path.withExtension (p : Path) (extension : String) : Path := { p with extension := some extension }

abbrev Files := Path → Option (List UInt8)

/-- What the operating system decides during one conversion. -/
structure Env where
  /-- The input opens and its header can be read. -/
  opens : Bool
  creates : Bool
  /-- How much each write of the buffered output takes. -/
  disk : BufWriter.Disk
  /-- The sizes of the reads of the copy loop, less one. A `none` fails, and so does
  the first read after the list. -/
  reads : List (Option ℕ)
  removes : Bool
  memory : Memory

inductive Stop where
  | refused
  | unsupported
  | readFailed
  deriving DecidableEq, Repr

/-- The capacity of a `BufWriter::new`. -/
def bufCapacity : ℕ := 8192

/-- The 8 MB buffer of the copy loop. -/
def copyCapacity : ℕ := 8 * 1024 * 1024

/-- The copy loop from a position of the input. What the input holds may depend on
what was written: its file can be the one that is being written. -/
def copyData (disk : BufWriter.Disk) (input : BufWriter UInt8 → List UInt8) :
    List (Option ℕ) → ℕ → BufWriter UInt8 → Except (BufWriter UInt8 × Stop) (BufWriter UInt8)
  | [], _, w => .error (w, .readFailed)
  | none :: _, _, w => .error (w, .readFailed)
  | some n :: reads, pos, w =>
    match readAt (input w) pos (min (n + 1) copyCapacity) with
    | [] => .ok w
    | b :: bytes =>
      match w.write disk bufCapacity (b :: bytes) with
      | .error w' => .error (w', .refused)
      | .ok w' => copyData disk input reads (pos + (b :: bytes).length) w'

variable (lib : Library) (env : Env)

/-- `streaming_write_pgguf` after the output was created, up to the `drop`. -/
def streamingWrite (c : Content) (input : BufWriter UInt8 → List UInt8) :
    Except (BufWriter UInt8 × Stop) (BufWriter UInt8) :=
  let prologue := prologueOps lib.layout c (c.modelId lib) (c.layerBitmap lib)
  match BufWriter.fresh.run env.disk bufCapacity prologue.1 with
  | .error w => .error (w, .refused)
  | .ok w =>
    match prologue.2 with
    | some _ => .error (w, .unsupported)
    | none => copyData env.disk input env.reads c.tensorDataOffset w

inductive ConvertError where
  | open
  | parse
  | create
  | write (stop : Stop)
  | remove
  deriving DecidableEq, Repr

/-- How a conversion ends: a panic or an abort returns nothing. -/
inductive Ending where
  | ok (path : Path)
  | error (e : ConvertError)
  | fault (f : Fault)
  deriving DecidableEq, Repr

structure Outcome where
  files : Files
  result : Ending

/-- The conversion of a parsed input that needs one. Creating the output empties it,
and the writer is dropped on every way out. -/
def convertParsed (files : Files) (p : Path) (bytes : List UInt8) (c : Content) : Outcome :=
  let target := p.withExtension "pgguf"
  if env.creates then
    match streamingWrite lib env c fun w => if target = p then w.disk else bytes with
    | .error (w, stop) =>
        ⟨Function.update files target (some (w.close env.disk)), .error (.write stop)⟩
    | .ok w =>
        let written := Function.update files target (some (w.close env.disk))
        if env.removes then ⟨Function.update written p none, .ok target⟩
        else ⟨written, .error .remove⟩
  else ⟨files, .error .create⟩

/-- The bytes of a `Layer_Info`: an index, a vector and a size. -/
def layerInfoSize : ℕ := 40

/-- The list of layers that `GGUF_Analyze_From_Content` makes room for. -/
def Content.reserveLayers (c : Content) (memory : Memory) : Except Fault Unit :=
  withCapacity memory layerInfoSize (c.numLayers lib)

/-- `GGUF_Analyze_And_Convert`, without the information it returns beside the path. -/
def analyzeAndConvert (files : Files) (p : Path) : Outcome :=
  match files p with
  | none => ⟨files, .error .open⟩
  | some bytes =>
    if env.opens then
      match lib.parse bytes with
      | none => ⟨files, .error .parse⟩
      | some c =>
        match c.reserveLayers lib env.memory with
        | .error f => ⟨files, .fault f⟩
        | .ok () =>
          if c.weightFormat = some "safetensors" then ⟨files, .ok p⟩
          else if c.converted lib then ⟨files, .ok p⟩
          else convertParsed lib env files p bytes c
    else ⟨files, .error .open⟩

/-- The output metadata of a conversion. -/
def Content.metadataOut (c : Content) : List (String × Value) :=
  Gguf.metadataOut c (c.modelId lib) (c.layerBitmap lib)

/-- On success the returned path holds the input's tensors: it is the input as it was,
or a file in which every tensor is found. Otherwise no file has changed. -/
def Outcome.Atomic (files : Files) (p : Path) (bytes : List UInt8) (outcome : Outcome) : Prop :=
  match outcome.result with
  | .ok path => ∃ file, outcome.files path = some file ∧
      (path = p ∧ file = bytes ∨ path ≠ p ∧ ∀ c, lib.parse bytes = some c →
        Readable lib.layout (lib.alignment (c.metadataOut lib)) c (c.metadataOut lib) file bytes)
  | .error _ | .fault _ => outcome.files = files

/-- The same file up to the contents of its data region. -/
def Variant (bytes bytes' : List UInt8) : Prop :=
  bytes'.length = bytes.length ∧ (lib.parse bytes = none → bytes' = bytes) ∧
    ∀ c, lib.parse bytes = some c → bytes'.take c.tensorDataOffset = bytes.take c.tensorDataOffset

variable {lib env}

theorem Variant.parse {bytes bytes' : List UInt8} (variant : Variant lib bytes bytes') :
    lib.parse bytes' = lib.parse bytes := by
  obtain ⟨sized, other, header⟩ := variant
  cases parsed : lib.parse bytes with
  | none => rw [other parsed, parsed]
  | some c => exact lib.parse_header parsed sized (header c parsed)

/-- A disk without failures, and memory without an end. -/
def reliableEnv : Env := ⟨true, true, fun _ => none, [some 4095, some 0], true, fun _ => true⟩

/-- The header of two tensors of one `f32`, with its padding. -/
def storedHeader (first second : String) : List UInt8 :=
  encodeHeader [] [⟨first, [1], 0, 0⟩, ⟨second, [1], 0, 32⟩] ++ List.replicate 6 0

/-- A library that knows the files of two tensors. -/
def storedLibrary (first second : String) (distinct : first ≠ second)
    (fit : first.utf8ByteSize < 256 ^ 8 ∧ second.utf8ByteSize < 256 ^ 8) : Library where
  layout := ggmlLayout
  parse bytes :=
    if bytes.take 96 = storedHeader first second then some (storedInOrder first second distinct fit)
    else none
  parse_header := by
    intro bytes bytes' c parsed _ header
    split at parsed
    · rename_i known
      cases parsed
      exact if_pos (header.trans known)
    · cases parsed
  alignment _ := 32
  alignment_pos _ := by decide
  toUsize
    | .u8 v => some v.toNat
    | .u16 v => some v.toNat
    | .u32 v => some v.toNat
    | .u64 v => some v.toNat
    | .bool v => some v.toNat
    | _ => none
  xxHash32 _ := 7

def sortedLibrary : Library := storedLibrary "a" "b" (by decide) (by decide)

def sortedFile : List UInt8 := storedHeader "a" "b" ++ List.replicate 36 1

end Pleiades.Gguf
