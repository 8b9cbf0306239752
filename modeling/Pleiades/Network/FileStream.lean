import Pleiades.Lib.Reader
import Pleiades.Lib.Text

/-!
# File streams

The header of a file stream, `[2B name_len BE][name][8B file_size LE][2B checksum_len BE][checksum]`.
Neither side of a transfer writes or reads the ACK byte that is to follow it.
-/
namespace Pleiades.Network

open Lib

def chunkSize : ℕ := 64 * 1024

/-- The kinds of `io::Error`, with the text of `InvalidData` in front of the decoder's own. -/
inductive HeaderError where
  | unexpectedEof
  | invalidData (text : String)
  deriving DecidableEq

structure FileHeader where
  name : String
  size : ℕ
  checksum : String
  deriving DecidableEq

/-- `len() as u16` in front of the bytes. -/
def sizedText (s : String) : List UInt8 := beBytes 2 (utf8 s).length ++ utf8 s

def writeFileStreamHeader (name : String) (size : ℕ) (checksum : String) : List UInt8 :=
  sizedText name ++ (leBytes 8 size ++ sizedText checksum)

def decodeText (text : String) (bytes : List UInt8) : Except HeaderError String :=
  match ofUtf8 bytes with
  | some s => .ok s
  | none => .error (.invalidData text)

def readText (text : String) : Reader HeaderError String :=
  (Reader.natBE .unexpectedEof 2 >>= Reader.take .unexpectedEof).through (decodeText text)

def readFileStreamHeader : Reader HeaderError FileHeader := do
  let name ← readText "file_name 非 UTF-8"
  let size ← Reader.nat .unexpectedEof 8
  let checksum ← readText "checksum 非 UTF-8"
  pure ⟨name, size, checksum⟩

/-- The lengths and the size fit into their fields. -/
structure FileHeader.Fits (h : FileHeader) : Prop where
  name : (utf8 h.name).length < 256 ^ 2
  size : h.size < 256 ^ 8
  checksum : (utf8 h.checksum).length < 256 ^ 2

def FileHeader.bytes (h : FileHeader) : List UInt8 := writeFileStreamHeader h.name h.size h.checksum

open Reader

theorem decodes_text (text : String) :
    Decodes (readText text) sizedText fun s => (utf8 s).length < 256 ^ 2 := by
  apply (Decodes.sized HeaderError.unexpectedEof 2).through
  intro bytes s
  rw [← ofUtf8_iff, decodeText]
  cases ofUtf8 bytes <;> simp

theorem readFileStreamHeader_eq : readFileStreamHeader = (fun p => ⟨p.1, p.2.1, p.2.2⟩) <$>
    (readText "file_name 非 UTF-8").pair ((nat .unexpectedEof 8).pair (readText "checksum 非 UTF-8")) := by
  simp only [readFileStreamHeader, Reader.pair, map_eq_pure_bind, bind_assoc, pure_bind]

theorem decodes_header : Decodes readFileStreamHeader FileHeader.bytes FileHeader.Fits := by
  have fields := (decodes_text "file_name 非 UTF-8").pair ((Decodes.nat HeaderError.unexpectedEof 8).pair
    (decodes_text "checksum 非 UTF-8"))
  rw [readFileStreamHeader_eq]
  apply fields.map (g := fun h : FileHeader => (h.name, h.size, h.checksum))
  · intro h fits
    exact ⟨⟨fits.name, fits.size, fits.checksum⟩, rfl⟩
  · rintro p ⟨name, size, checksum⟩
    exact ⟨⟨name, size, checksum⟩, rfl⟩

/-- A header is read exactly from what is written for it. -/
theorem readFileStreamHeader_iff {bytes rest : List UInt8} {h : FileHeader} :
    readFileStreamHeader bytes = .ok (h, rest) ↔ h.Fits ∧ bytes = h.bytes ++ rest :=
  decodes_header bytes h rest

theorem prompt_text (text : String) : Prompt .unexpectedEof (readText text) :=
  (((Prompt.take _ 2).map _).bind fun n => Prompt.take _ n).bind fun _ => Prompt.of_lift _

/-- A header that was read, or was found malformed, stays so as the stream goes on. -/
theorem prompt_readFileStreamHeader : Prompt .unexpectedEof readFileStreamHeader :=
  (prompt_text _).bind fun _ => ((Prompt.take _ 8).map _).bind fun _ =>
    (prompt_text _).bind fun _ => Prompt.of_pure _

/-- A header goes back and forth exactly if its texts fit into 16 bits; what is accepted was written. -/
theorem fileStreamHeader_exact_iff (name : String) (size : UInt64) (checksum : String) :
    ((∀ data, readFileStreamHeader (writeFileStreamHeader name size.toNat checksum ++ data) =
        .ok (⟨name, size.toNat, checksum⟩, data)) ↔
      (utf8 name).length < 2 ^ 16 ∧ (utf8 checksum).length < 2 ^ 16) ∧
    ∀ bytes h rest, readFileStreamHeader bytes = .ok (h, rest) →
      bytes = writeFileStreamHeader h.name h.size h.checksum ++ rest := by
  constructor
  · constructor
    · intro exact
      have fits := (readFileStreamHeader_iff.mp (exact [])).1
      exact ⟨fits.name, fits.checksum⟩
    · intro short data
      exact readFileStreamHeader_iff.mpr ⟨⟨short.1, size.toNat_lt, short.2⟩, rfl⟩
  · intro bytes h rest read
    exact (readFileStreamHeader_iff.mp read).2

/-- A name of `n` bytes. -/
def nameOfLength (n : ℕ) : String := String.ofList (List.replicate n 'a')

theorem utf8_nameOfLength (n : ℕ) : (utf8 (nameOfLength n)).length = n := by
  have ascii : ∀ c ∈ (nameOfLength n).toList, c.toNat < 128 := by
    intro c member
    rw [nameOfLength, String.toList_ofList] at member
    rw [List.eq_of_mem_replicate member]
    decide
  rw [utf8_ascii ascii, List.length_map, nameOfLength, String.toList_ofList, List.length_replicate]

/-- 65536 bytes are announced as none. -/
theorem fileStreamHeader_exact_counterexample :
    ¬ ∀ data, readFileStreamHeader (writeFileStreamHeader (nameOfLength 65536) (0 : UInt64).toNat "" ++ data) =
      .ok (⟨nameOfLength 65536, (0 : UInt64).toNat, ""⟩, data) := by
  intro exact
  have fits := (readFileStreamHeader_iff.mp (exact [])).1.name
  rw [utf8_nameOfLength] at fits
  exact Nat.lt_irrefl _ fits

end Pleiades.Network
