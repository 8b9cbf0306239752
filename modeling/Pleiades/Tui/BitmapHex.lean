import Pleiades.Vm.ModelPeers

/-!
# Layer bitmaps as texts

The text of a layer bitmap in an Info message or a model file, its three decoders, and
the layer ranges that are shown for it.
-/
namespace Pleiades.Tui

open Lib Gguf PeerManagement Vm

/-- How a decoder ends without a bitmap. -/
inductive Stop where
  | panic
  | error (text : String)
  deriving DecidableEq

/-- `&hex[i * 2..i * 2 + 2]` lies in the text and between characters. -/
def sliceable (bytes : List UInt8) (i : ℕ) : Bool :=
  i * 2 + 2 ≤ bytes.length && isCharBoundary bytes (i * 2) && isCharBoundary bytes (i * 2 + 2)

/-- `u8::from_str_radix` of the pair. -/
def hexPair (bytes : List UInt8) (i : ℕ) : Option UInt8 :=
  parseHexPair (bytes.getD (i * 2) 0) (bytes.getD (i * 2 + 1) 0)

/-- One round of the loop that ends at the first pair that is no number. -/
def decodePair (bytes : List UInt8) (i : ℕ) : Except Stop UInt8 :=
  if sliceable bytes i then
    match hexPair bytes i with
    | some byte => .ok byte
    | none => .error (.error "invalid hex: invalid digit found in string")
  else .error .panic

def decodePairs (bytes : List UInt8) : ℕ → Except Stop (List UInt8)
  | 0 => .ok []
  | n + 1 =>
    match decodePairs bytes n with
    | .error e => .error e
    | .ok done => (decodePair bytes n).map fun byte => done ++ [byte]

def toBitmap (bytes : List UInt8) : Vector UInt8 32 := Vector.ofFn fun i => bytes.getD i 0

def serializeBitmapHex (bitmap : Vector UInt8 32) : String := bitmapToHex bitmap.toList

def deserializeBitmapHex (hex : String) : Except Stop (Vector UInt8 32) :=
  if (utf8 hex).length ≠ 64 then .error (.error "layer_bitmap hex must be 64 chars")
  else (decodePairs (utf8 hex) 32).map toBitmap

/-- The layers with a bit, in order. -/
def layersOf (bitmap : Vector UInt8 32) : List ℕ := (List.range 256).filter (hasLayer bitmap)

/-- Neighbours are put together; `first` and `last` is the range in progress. -/
def layerRanges (first last : ℕ) : List ℕ → List (ℕ × ℕ)
  | [] => [(first, last)]
  | layer :: layers =>
    if layer = last + 1 then layerRanges first layer layers
    else (first, last) :: layerRanges layer layer layers

def formatRange (range : ℕ × ℕ) : String :=
  if range.1 = range.2 then s!"{range.1}" else s!"{range.1}-{range.2}"

def formatLayers (layer : ℕ) (layers : List ℕ) : String :=
  ",".intercalate ((layerRanges layer layer layers).map formatRange)

/-- `SupportedModel::layer_range`. -/
def layerRange (bitmap : Vector UInt8 32) : String :=
  match layersOf bitmap with
  | [] => "none"
  | layer :: layers => formatLayers layer layers

def bitmapHexToLayerRange (hex : String) : Except Stop (Option String) :=
  if (utf8 hex).length < 64 then .ok none
  else
    match decodePairs (utf8 hex) 32 with
    | .error .panic => .error .panic
    | .error (.error _) => .ok none
    | .ok bytes =>
      match layersOf (toBitmap bytes) with
      | [] => .ok none
      | layer :: layers => .ok (some (formatLayers layer layers))

def isHexDigit (c : Char) : Bool := (hexDigit (UInt8.ofNat c.toNat)).isSome && c.toNat < 128

/-- No decoder panics, and the first one accepts 64 digits and nothing else. -/
structure Exact (hex : String) : Prop where
  deserialize : deserializeBitmapHex hex ≠ .error .panic
  parse : (parseBitmapHex hex).isSome = true
  layerRange : bitmapHexToLayerRange hex ≠ .error .panic
  accepts : (∃ bitmap, deserializeBitmapHex hex = .ok bitmap) ↔
    hex.toList.length = 64 ∧ ∀ c ∈ hex.toList, isHexDigit c = true

/-- The decoders give back what was written, the third one as the layers it shows. -/
structure RoundTrips (bitmap : Vector UInt8 32) : Prop where
  deserialize : deserializeBitmapHex (serializeBitmapHex bitmap) = .ok bitmap
  parse : parseBitmapHex (bitmapToHex bitmap.toList) = some bitmap
  layerRange : bitmapHexToLayerRange (serializeBitmapHex bitmap) =
    .ok (if layersOf bitmap = [] then none else some (Tui.layerRange bitmap))
  layers : ∀ other, bitmapHexToLayerRange (serializeBitmapHex other) =
    bitmapHexToLayerRange (serializeBitmapHex bitmap) → other = bitmap

/-- The pairs that are sliced end between characters, and none of a text that is read to
its end has a sign. -/
structure Plain (hex : String) : Prop where
  trimmed : ∀ i < min 32 ((utf8 (String.ofList (trim hex.toList))).length / 2),
    isCharBoundary (utf8 (String.ofList (trim hex.toList))) (i * 2 + 2) = true
  direct : 64 ≤ (utf8 hex).length → ∀ i < 32, (∀ j < i, (hexPair (utf8 hex) j).isSome = true) →
    isCharBoundary (utf8 hex) (i * 2 + 2) = true
  unsigned : (utf8 hex).length = 64 → (∀ i < 32, (hexPair (utf8 hex) i).isSome = true) →
    ∀ i < 32, (utf8 hex)[i * 2]? ≠ some 43

theorem firstByte (b : UInt8) (first : UInt8.IsUTF8FirstByte b) : (b &&& 0xC0 != 0x80) = true := by
  obtain ⟨bits⟩ := b
  revert bits
  decide +kernel

theorem asciiByte (b : UInt8) (ascii : b.toNat < 128) : (b &&& 0xC0 != 0x80) = true := by
  obtain ⟨bits⟩ := b
  revert bits
  decide +kernel

theorem isCharBoundary_zero (s : String) : isCharBoundary (utf8 s) 0 = true := by
  rw [utf8_eq_flatMap]
  cases s.toList with
  | nil => rfl
  | cons c cs =>
      have nonempty : 0 < (String.utf8EncodeChar c).length :=
        List.length_pos_iff.mpr String.utf8EncodeChar_ne_nil
      have lead := @UInt8.isUTF8FirstByte_getElem_utf8EncodeChar c 0 nonempty
      rw [isCharBoundary, List.flatMap_cons, List.getElem?_append_left nonempty,
        List.getElem?_eq_getElem nonempty]
      exact firstByte _ (lead.mpr rfl)

theorem decodePair_ok {bytes : List UInt8} {i : ℕ} {byte : UInt8} :
    decodePair bytes i = .ok byte ↔ sliceable bytes i = true ∧ hexPair bytes i = some byte := by
  unfold decodePair
  cases sliceable bytes i <;> cases hexPair bytes i <;> simp

theorem decodePair_panic {bytes : List UInt8} {i : ℕ} :
    decodePair bytes i = .error .panic ↔ sliceable bytes i = false := by
  unfold decodePair
  cases sliceable bytes i <;> cases hexPair bytes i <;> simp

/-- The loop gets to its end. -/
theorem decodePairs_ok {bytes : List UInt8} {n : ℕ} {done : List UInt8} :
    decodePairs bytes n = .ok done ↔
      (∀ i < n, sliceable bytes i = true) ∧ (List.range n).map (hexPair bytes) = done.map some := by
  induction n generalizing done with
  | zero =>
      rw [decodePairs, Except.ok.injEq, eq_comm]
      simp
  | succ n ih =>
      rw [decodePairs, List.range_succ, List.map_append, Nat.forall_lt_succ_right]
      constructor
      · intro ends
        split at ends
        · cases ends
        · next front looped =>
            obtain ⟨sliced, numbers⟩ := ih.mp looped
            cases last : decodePair bytes n with
            | error e =>
                rw [last] at ends
                cases ends
            | ok byte =>
                rw [last] at ends
                cases ends
                obtain ⟨slice, number⟩ := decodePair_ok.mp last
                exact ⟨⟨sliced, slice⟩, by simp [numbers, number]⟩
      · rintro ⟨⟨sliced, slice⟩, numbers⟩
        obtain ⟨front, last, rfl, before, after⟩ := List.map_eq_append_iff.mp numbers.symm
        obtain ⟨byte, rfl, number⟩ := List.map_eq_singleton_iff.mp after
        rw [ih.mpr ⟨sliced, before.symm⟩]
        simp only
        rw [decodePair_ok.mpr ⟨slice, number.symm⟩]
        rfl

theorem decodePairs_numbers {bytes : List UInt8} {n : ℕ} (sliced : ∀ i < n, sliceable bytes i = true)
    (numbers : ∀ i < n, (hexPair bytes i).isSome = true) :
    decodePairs bytes n = .ok ((List.range n).map fun i => (hexPair bytes i).getD 0) := by
  refine decodePairs_ok.mpr ⟨sliced, ?_⟩
  rw [List.map_map]
  refine List.map_congr_left fun i member => ?_
  obtain ⟨byte, number⟩ := Option.isSome_iff_exists.mp (numbers i (List.mem_range.mp member))
  simp [number]

theorem numbers_of_decodePairs {bytes done : List UInt8} {n : ℕ} (ends : decodePairs bytes n = .ok done) :
    ∀ i < n, (hexPair bytes i).isSome = true := by
  intro i small
  have member : hexPair bytes i ∈ done.map some :=
    (decodePairs_ok.mp ends).2 ▸ List.mem_map_of_mem (List.mem_range.mpr small)
  obtain ⟨byte, -, number⟩ := List.mem_map.mp member
  rw [← number]
  rfl

/-- A pair is sliced only after numbers. -/
theorem decodePairs_safe {bytes : List UInt8} {n : ℕ} :
    decodePairs bytes n ≠ .error .panic ↔
      ∀ i < n, (∀ j < i, (hexPair bytes j).isSome = true) → sliceable bytes i = true := by
  induction n with
  | zero => simp [decodePairs]
  | succ n ih =>
      rw [Nat.forall_lt_succ_right, ← ih, decodePairs]
      cases looped : decodePairs bytes n with
      | ok done =>
          have before := numbers_of_decodePairs looped
          have last : (decodePair bytes n).map (fun byte => done ++ [byte]) ≠ .error .panic ↔
              sliceable bytes n = true := by
            rw [← Bool.not_eq_false, ← decodePair_panic]
            cases decodePair bytes n <;> simp [Except.map]
          exact ⟨fun safe => ⟨nofun, fun _ => last.mp safe⟩, fun safe => last.mpr (safe.2 before)⟩
      | error e =>
          cases e with
          | panic => simp
          | error text =>
              -- every pair before could be sliced, so one is no number
              have short : ¬ ∀ j < n, (hexPair bytes j).isSome = true := by
                intro numbers
                have sliced : ∀ i < n, sliceable bytes i = true := by
                  refine fun i small => ih.mp (by simp [looped]) i small ?_
                  exact fun j less => numbers j (less.trans small)
                rw [decodePairs_numbers sliced numbers] at looped
                cases looped
              simp [short]

/-- For a text of `n` pairs the starts are between characters when the ends are. -/
theorem decodePairs_safe_text {hex : String} {n : ℕ} (long : 2 * n ≤ (utf8 hex).length) :
    decodePairs (utf8 hex) n ≠ .error .panic ↔
      ∀ i < n, (∀ j < i, (hexPair (utf8 hex) j).isSome = true) →
        isCharBoundary (utf8 hex) (i * 2 + 2) = true := by
  refine decodePairs_safe.trans ⟨fun safe i small numbers => ?_, fun safe i small numbers => ?_⟩
  · have slice := safe i small numbers
    simp only [sliceable, Bool.and_eq_true] at slice
    exact slice.2
  · have start : isCharBoundary (utf8 hex) (i * 2) = true := by
      cases i with
      | zero => exact isCharBoundary_zero hex
      | succ i =>
          have := safe i (by omega) fun j less => numbers j (by omega)
          rwa [Nat.succ_mul]
    simp only [sliceable, Bool.and_eq_true, decide_eq_true_eq]
    exact ⟨⟨by omega, start⟩, safe i small numbers⟩

theorem parseBitmapHex_isSome (hex : String) :
    (parseBitmapHex hex).isSome = true ↔
      ∀ i < min 32 ((utf8 (String.ofList (trim hex.toList))).length / 2),
        isCharBoundary (utf8 (String.ofList (trim hex.toList))) (i * 2 + 2) = true := by
  simp only [parseBitmapHex]
  split
  · next all =>
      rw [List.all_eq_true] at all
      simp only [Option.isSome_some, true_iff]
      intro i small
      have both := all i (List.mem_range.mpr small)
      rw [Bool.and_eq_true] at both
      exact both.2
  · next broken =>
      simp only [Option.isSome_none, Bool.false_eq_true, false_iff]
      intro ends
      refine broken (List.all_eq_true.mpr fun i member => ?_)
      rw [List.mem_range] at member
      refine Bool.and_eq_true_iff.mpr ⟨?_, ends i member⟩
      cases i with
      | zero => exact isCharBoundary_zero _
      | succ i =>
          have := ends i (by omega)
          rwa [Nat.succ_mul]

theorem deserializeBitmapHex_safe (hex : String) :
    deserializeBitmapHex hex ≠ .error .panic ↔
      ((utf8 hex).length = 64 → decodePairs (utf8 hex) 32 ≠ .error .panic) := by
  rw [deserializeBitmapHex]
  split
  · next other => simp [other]
  · next exactly =>
      rw [not_not] at exactly
      rw [exactly]
      cases decodePairs (utf8 hex) 32 <;> simp [Except.map]

theorem bitmapHexToLayerRange_safe (hex : String) :
    bitmapHexToLayerRange hex ≠ .error .panic ↔
      (64 ≤ (utf8 hex).length → decodePairs (utf8 hex) 32 ≠ .error .panic) := by
  rw [bitmapHexToLayerRange]
  split
  · next short => simp [Nat.not_le.mpr short]
  · next long =>
      rw [Nat.not_lt] at long
      rw [imp_iff_right long]
      split
      · next broken => simp [broken]
      · next text wrong => simp [wrong]
      · next bytes ends =>
          rw [ends]
          split <;> simp

theorem deserializeBitmapHex_accepts (hex : String) :
    (∃ bitmap, deserializeBitmapHex hex = .ok bitmap) ↔
      (utf8 hex).length = 64 ∧ decodePairs (utf8 hex) 32 ≠ .error .panic ∧
        ∀ i < 32, (hexPair (utf8 hex) i).isSome = true := by
  rw [deserializeBitmapHex]
  split
  · next other => simp [other]
  · next exactly =>
      rw [not_not] at exactly
      constructor
      · rintro ⟨bitmap, accepted⟩
        cases ends : decodePairs (utf8 hex) 32 with
        | error e =>
            rw [ends] at accepted
            cases accepted
        | ok bytes => exact ⟨exactly, nofun, numbers_of_decodePairs ends⟩
      · rintro ⟨-, safe, numbers⟩
        have sliced : ∀ i < 32, sliceable (utf8 hex) i = true := fun i small =>
          decodePairs_safe.mp safe i small fun j less => numbers j (less.trans small)
        rw [decodePairs_numbers sliced numbers]
        exact ⟨_, rfl⟩

theorem hexDigit_ascii {b : UInt8} (digit : (hexDigit b).isSome = true) : b.toNat < 128 := by
  unfold hexDigit at digit
  simp only [UInt8.le_iff_toNat_le] at digit
  split at digit
  · next range => exact range.2.trans_lt (by decide)
  · split at digit
    · next range => exact range.2.trans_lt (by decide)
    · split at digit
      · next range => exact range.2.trans_lt (by decide)
      · cases digit

theorem isCharBoundary_ascii {bytes : List UInt8} (ascii : ∀ b ∈ bytes, b.toNat < 128) (i : ℕ) :
    isCharBoundary bytes i = true := by
  unfold isCharBoundary
  split
  · next b found => exact asciiByte b (ascii b (List.mem_of_getElem? found))
  · rfl

/-- Two bytes are a number if they are digits, or if the second one is and the first is a `+`. -/
theorem parseHexPair_isSome {first second : UInt8} :
    (parseHexPair first second).isSome = true ↔
      (first = 43 ∨ (hexDigit first).isSome = true) ∧ (hexDigit second).isSome = true := by
  unfold parseHexPair
  split
  · next plus => simp [plus]
  · next plain => cases hexDigit first <;> cases hexDigit second <;> simp [plain]

theorem hexDigit_plus : (hexDigit 43).isSome = false := rfl

/-- The bytes are digits when all pairs are numbers without a sign. -/
theorem digits_iff_pairs {bytes : List UInt8} {n : ℕ} (length : bytes.length = 2 * n) :
    (∀ b ∈ bytes, (hexDigit b).isSome = true) ↔
      (∀ i < n, (hexPair bytes i).isSome = true) ∧ ∀ i < n, bytes[i * 2]? ≠ some 43 := by
  have pair : ∀ i < n, ∃ first second, bytes[i * 2]? = some first ∧ bytes[i * 2 + 1]? = some second ∧
      hexPair bytes i = parseHexPair first second := by
    intro i small
    refine ⟨bytes[i * 2], bytes[i * 2 + 1], List.getElem?_eq_getElem _, List.getElem?_eq_getElem _, ?_⟩
    simp only [hexPair, List.getD_eq_getElem?_getD]
    rw [List.getElem?_eq_getElem, List.getElem?_eq_getElem]
    rfl
  constructor
  · intro digits
    refine ⟨fun i small => ?_, fun i small plus => ?_⟩
    · obtain ⟨first, second, high, low, both⟩ := pair i small
      rw [both, parseHexPair_isSome]
      exact ⟨.inr (digits first (List.mem_of_getElem? high)), digits second (List.mem_of_getElem? low)⟩
    · have := digits 43 (List.mem_of_getElem? plus)
      rw [hexDigit_plus] at this
      cases this
  · rintro ⟨numbers, unsigned⟩ b member
    obtain ⟨k, inside, rfl⟩ := List.getElem_of_mem member
    obtain ⟨first, second, high, low, both⟩ := pair (k / 2) (by omega)
    have number := numbers (k / 2) (by omega)
    rw [both, parseHexPair_isSome] at number
    have plain := unsigned (k / 2) (by omega)
    rw [high] at plain
    rcases Nat.mod_two_eq_zero_or_one k with even | odd
    · rw [show k / 2 * 2 = k by omega, List.getElem?_eq_getElem inside] at high
      rw [Option.some.inj high]
      exact number.1.resolve_left fun plus => plain (congrArg some plus)
    · rw [show k / 2 * 2 + 1 = k by omega, List.getElem?_eq_getElem inside] at low
      rw [Option.some.inj low]
      exact number.2

theorem isHexDigit_ascii {c : Char} (digit : isHexDigit c = true) : c.toNat < 128 := by
  rw [isHexDigit, Bool.and_eq_true] at digit
  exact of_decide_eq_true digit.2

/-- A text of 64 digits, by its bytes and by its characters. -/
theorem digits_iff_chars (hex : String) :
    ((utf8 hex).length = 64 ∧ ∀ b ∈ utf8 hex, (hexDigit b).isSome = true) ↔
      hex.toList.length = 64 ∧ ∀ c ∈ hex.toList, isHexDigit c = true := by
  constructor
  · rintro ⟨length, digits⟩
    have ascii := ascii_of_utf8 fun b member => hexDigit_ascii (digits b member)
    rw [utf8_ascii ascii] at length digits
    refine ⟨by simpa using length, fun c member => ?_⟩
    rw [isHexDigit, Bool.and_eq_true]
    exact ⟨digits _ (List.mem_map_of_mem member), decide_eq_true (ascii c member)⟩
  · rintro ⟨length, digits⟩
    rw [utf8_ascii fun c member => isHexDigit_ascii (digits c member)]
    refine ⟨by simpa using length, fun b member => ?_⟩
    obtain ⟨c, inside, rfl⟩ := List.mem_map.mp member
    have digit := digits c inside
    rw [isHexDigit, Bool.and_eq_true] at digit
    exact digit.1

theorem exact_iff_plain (hex : String) : Exact hex ↔ Plain hex := by
  have accepts := deserializeBitmapHex_accepts hex
  have direct : 64 ≤ (utf8 hex).length → (decodePairs (utf8 hex) 32 ≠ .error .panic ↔ _) :=
    fun long => decodePairs_safe_text (n := 32) long
  constructor
  · intro ok
    have safe := (bitmapHexToLayerRange_safe hex).mp ok.layerRange
    refine ⟨(parseBitmapHex_isSome hex).mp ok.parse, fun long => (direct long).mp (safe long), ?_⟩
    intro length numbers
    have chars := ok.accepts.mp (accepts.mpr ⟨length, safe length.ge, numbers⟩)
    exact ((digits_iff_pairs length).mp ((digits_iff_chars hex).mpr chars).2).2
  · intro plain
    have safe : 64 ≤ (utf8 hex).length → decodePairs (utf8 hex) 32 ≠ .error .panic :=
      fun long => (direct long).mpr (plain.direct long)
    refine ⟨(deserializeBitmapHex_safe hex).mpr fun length => safe length.ge,
      (parseBitmapHex_isSome hex).mpr plain.trimmed, (bitmapHexToLayerRange_safe hex).mpr safe, ?_⟩
    rw [accepts, ← digits_iff_chars]
    constructor
    · rintro ⟨length, -, numbers⟩
      exact ⟨length, (digits_iff_pairs length).mpr ⟨numbers, plain.unsigned length numbers⟩⟩
    · rintro ⟨length, digits⟩
      exact ⟨length, safe length.ge, ((digits_iff_pairs length).mp digits).1⟩

section Encoder

theorem hexDigits_spec : ∀ n < 16, isHexDigit (hexDigits.getD n '0') = true ∧
    isWhiteSpace (hexDigits.getD n '0') = false := by decide

def digitByte (n : ℕ) : UInt8 := UInt8.ofNat (hexDigits.getD n '0').toNat

theorem parseHexPair_digits (b : UInt8) :
    parseHexPair (digitByte (b.toNat / 16)) (digitByte (b.toNat % 16)) = some b := by
  obtain ⟨bits⟩ := b
  revert bits
  decide +kernel

theorem mem_bitmapToHex {bitmap : List UInt8} {c : Char} (member : c ∈ (bitmapToHex bitmap).toList) :
    isHexDigit c = true ∧ isWhiteSpace c = false := by
  rw [bitmapToHex, String.toList_ofList] at member
  obtain ⟨b, -, digit⟩ := List.mem_flatMap.mp member
  have small := b.toNat_lt
  simp only [List.mem_cons, List.not_mem_nil, or_false] at digit
  rcases digit with rfl | rfl
  · exact hexDigits_spec _ (by omega)
  · exact hexDigits_spec _ (by omega)

theorem utf8_bitmapToHex (bitmap : List UInt8) :
    utf8 (bitmapToHex bitmap) =
      bitmap.flatMap fun b => [digitByte (b.toNat / 16), digitByte (b.toNat % 16)] := by
  rw [utf8_ascii fun c member => isHexDigit_ascii (mem_bitmapToHex member).1, bitmapToHex,
    String.toList_ofList, List.map_flatMap]
  rfl

theorem getElem?_pairs (high low : UInt8 → UInt8) (bytes : List UInt8) (i : ℕ) :
    (bytes.flatMap fun b => [high b, low b])[i * 2]? = bytes[i]?.map high ∧
      (bytes.flatMap fun b => [high b, low b])[i * 2 + 1]? = bytes[i]?.map low := by
  induction bytes generalizing i with
  | nil => simp
  | cons b bytes ih =>
      cases i with
      | zero => simp
      | succ i =>
          rw [Nat.succ_mul]
          exact ih i

theorem hexPair_bitmapToHex {bitmap : List UInt8} {i : ℕ} (inside : i < bitmap.length) :
    hexPair (utf8 (bitmapToHex bitmap)) i = some bitmap[i] := by
  rw [hexPair, utf8_bitmapToHex]
  obtain ⟨high, low⟩ := getElem?_pairs (fun b => digitByte (b.toNat / 16))
    (fun b => digitByte (b.toNat % 16)) bitmap i
  simp only [List.getD_eq_getElem?_getD, high, low, List.getElem?_eq_getElem inside]
  exact parseHexPair_digits _

theorem trim_bitmapToHex (bitmap : List UInt8) :
    trim (bitmapToHex bitmap).toList = (bitmapToHex bitmap).toList := by
  have blank : ∀ text : List Char, (∀ c ∈ text, isWhiteSpace c = false) →
      text.dropWhile isWhiteSpace = text := by
    intro text plain
    cases text with
    | nil => rfl
    | cons c text => exact List.dropWhile_cons_of_neg (by simp [plain c List.mem_cons_self])
  have plain : ∀ c ∈ (bitmapToHex bitmap).toList, isWhiteSpace c = false :=
    fun c member => (mem_bitmapToHex member).2
  rw [trim, blank _ plain, blank _ (by simpa using plain), List.reverse_reverse]

theorem bitmapToHex_digits (bitmap : Vector UInt8 32) :
    (utf8 (bitmapToHex bitmap.toList)).length = 64 ∧
      ∀ b ∈ utf8 (bitmapToHex bitmap.toList), (hexDigit b).isSome = true := by
  refine (digits_iff_chars _).mpr ⟨?_, fun c member => (mem_bitmapToHex member).1⟩
  simp [bitmapToHex]

theorem boundary_bitmapToHex (bitmap : Vector UInt8 32) (i : ℕ) :
    isCharBoundary (utf8 (bitmapToHex bitmap.toList)) i = true :=
  isCharBoundary_ascii (fun b member => hexDigit_ascii ((bitmapToHex_digits bitmap).2 b member)) i

theorem decodePairs_bitmapToHex (bitmap : Vector UInt8 32) :
    decodePairs (utf8 (bitmapToHex bitmap.toList)) 32 = .ok bitmap.toList := by
  have length := (bitmapToHex_digits bitmap).1
  refine decodePairs_ok.mpr ⟨fun i small => ?_, ?_⟩
  · simp only [sliceable, boundary_bitmapToHex, Bool.and_true, decide_eq_true_eq]
    omega
  · refine List.ext_getElem (by simp) fun i inside _ => ?_
    rw [List.length_map, List.length_range] at inside
    simp [hexPair_bitmapToHex, inside]

theorem toBitmap_toList (bitmap : Vector UInt8 32) : toBitmap bitmap.toList = bitmap := by
  ext i small
  simp [toBitmap]

theorem deserializeBitmapHex_serialize (bitmap : Vector UInt8 32) :
    deserializeBitmapHex (serializeBitmapHex bitmap) = .ok bitmap := by
  rw [deserializeBitmapHex, serializeBitmapHex, if_neg (not_not.mpr (bitmapToHex_digits bitmap).1),
    decodePairs_bitmapToHex, Except.map, toBitmap_toList]

theorem parseBitmapHex_bitmapToHex (bitmap : Vector UInt8 32) :
    parseBitmapHex (bitmapToHex bitmap.toList) = some bitmap := by
  have count : min 32 ((utf8 (bitmapToHex bitmap.toList)).length / 2) = 32 := by
    rw [(bitmapToHex_digits bitmap).1]
    rfl
  simp only [parseBitmapHex, trim_bitmapToHex, String.ofList_toList, count, boundary_bitmapToHex,
    Bool.and_true]
  rw [if_pos (List.all_eq_true.mpr fun _ _ => rfl)]
  refine congrArg some (Vector.ext fun i small => ?_)
  have pair := @hexPair_bitmapToHex bitmap.toList i (by simpa using small)
  rw [hexPair, List.getD_eq_getElem?_getD, List.getD_eq_getElem?_getD] at pair
  simp [pair]

theorem bitmapHexToLayerRange_serialize (bitmap : Vector UInt8 32) :
    bitmapHexToLayerRange (serializeBitmapHex bitmap) =
      .ok (if layersOf bitmap = [] then none else some (layerRange bitmap)) := by
  rw [bitmapHexToLayerRange, serializeBitmapHex, if_neg (Nat.not_lt.mpr (bitmapToHex_digits bitmap).1.ge)]
  simp only [decodePairs_bitmapToHex, toBitmap_toList, layerRange]
  cases layersOf bitmap <;> simp

end Encoder

section LayerTexts

/-- The ranges cover the layers they were made of. -/
theorem layerRanges_cover {first last : ℕ} (ordered : first ≤ last) (layers : List ℕ) :
    (layerRanges first last layers).flatMap (fun range => List.range' range.1 (range.2 + 1 - range.1)) =
      List.range' first (last + 1 - first) ++ layers := by
  induction layers generalizing first last with
  | nil => simp [layerRanges]
  | cons layer layers ih =>
      rw [layerRanges]
      split
      · next next_layer =>
          subst next_layer
          rw [ih (by omega), show last + 1 + 1 - first = last + 1 - first + 1 by omega, List.range'_concat]
          simp [show first + (last + 1 - first) = last + 1 by omega]
      · next gap =>
          rw [List.flatMap_cons, ih (Nat.le_refl _)]
          simp

theorem formatRange_toList (range : ℕ × ℕ) :
    (formatRange range).toList =
      if range.1 = range.2 then range.1.repr.toList
      else range.1.repr.toList ++ '-' :: range.2.repr.toList := by
  rw [formatRange]
  split
  · rfl
  · simp [toString]

/-- The numbers of a range, read back. -/
theorem formatRange_split (range : ℕ × ℕ) :
    (formatRange range).toList.splitOn '-' =
      if range.1 = range.2 then [range.1.repr.toList] else [range.1.repr.toList, range.2.repr.toList] := by
  have free := not_mem_repr (c := '-') rfl
  rw [formatRange_toList]
  split
  · exact List.splitOn_eq_singleton (free _)
  · rw [List.splitOn_append_cons_self, List.splitOn_eq_singleton (free _), List.splitOn_eq_singleton (free _)]
    rfl

theorem formatRange_injective : Function.Injective formatRange := by
  have numbers : ∀ {n m : ℕ}, n.repr.toList = m.repr.toList → n = m := by
    intro n m same
    have read := @parseNat_repr (max n m + 1) n (by omega)
    rw [same, parseNat_repr (by omega)] at read
    exact (Except.ok.inj read).symm
  rintro ⟨first, last⟩ ⟨first', last'⟩ same
  have fields := congrArg (fun text => text.toList.splitOn '-') same
  simp only [formatRange_split] at fields
  split at fields
  · next single =>
      split at fields
      · next single' =>
          have := numbers (List.cons.inj fields).1
          exact Prod.ext this (single.symm.trans (this.trans single'))
      · cases (List.cons.inj fields).2
  · split at fields
    · cases (List.cons.inj fields).2
    · rw [numbers (List.cons.inj fields).1, numbers (List.cons.inj (List.cons.inj fields).2).1]

theorem comma_not_mem_formatRange (range : ℕ × ℕ) : ',' ∉ (formatRange range).toList := by
  have free := not_mem_repr (c := ',') rfl
  rw [formatRange_toList]
  split
  · exact free _
  · simp only [List.mem_append, List.mem_cons, not_or]
    exact ⟨free _, by decide, free _⟩

theorem splitOn_formatRanges {ranges : List (ℕ × ℕ)} (nonempty : ranges ≠ []) :
    (",".intercalate (ranges.map formatRange)).toList.splitOn ',' =
      ranges.map fun range => (formatRange range).toList := by
  rw [String.toList_intercalate, List.map_map]
  refine (splitOn_join (by simpa using nonempty)).trans (splitOn_free ?_)
  intro field member
  obtain ⟨range, _, rfl⟩ := List.mem_map.mp member
  exact comma_not_mem_formatRange range

/-- The text of a list of ranges shows each of them. -/
theorem formatRanges_injective {ranges ranges' : List (ℕ × ℕ)} (nonempty : ranges ≠ []) (nonempty' : ranges' ≠ [])
    (same : ",".intercalate (ranges.map formatRange) = ",".intercalate (ranges'.map formatRange)) :
    ranges = ranges' := by
  have texts := (splitOn_formatRanges nonempty).symm.trans
    ((congrArg (fun text => text.toList.splitOn ',') same).trans (splitOn_formatRanges nonempty'))
  exact List.map_injective_iff.mpr (fun a b text => formatRange_injective (String.toList_injective text)) texts

theorem layerRanges_ne_nil (first last : ℕ) (layers : List ℕ) : layerRanges first last layers ≠ [] := by
  induction layers generalizing first last with
  | nil => simp [layerRanges]
  | cons layer layers ih =>
      rw [layerRanges]
      split
      · exact ih _ _
      · simp

theorem formatLayers_injective {layer layer' : ℕ} {layers layers' : List ℕ}
    (same : formatLayers layer layers = formatLayers layer' layers') :
    layer :: layers = layer' :: layers' := by
  have ranges := formatRanges_injective (layerRanges_ne_nil _ _ _) (layerRanges_ne_nil _ _ _) same
  have covered := layerRanges_cover (Nat.le_refl layer) layers
  rw [ranges, layerRanges_cover (Nat.le_refl layer')] at covered
  simpa using covered.symm

end LayerTexts

theorem layersOf_injective : Function.Injective layersOf := by
  intro bitmap bitmap' same
  have bits : ∀ layer < 256, hasLayer bitmap layer = hasLayer bitmap' layer := by
    intro layer small
    have held : layer ∈ layersOf bitmap ↔ layer ∈ layersOf bitmap' := by rw [same]
    simp only [layersOf, List.mem_filter, List.mem_range, small, true_and] at held
    exact Bool.eq_iff_iff.mpr held
  ext i small
  refine congrArg UInt8.toNat (byte_ext fun k => ?_)
  have below := k.isLt
  have bit := bits (i * 8 + k) (by omega)
  rw [hasLayer, hasLayer, show (i * 8 + k) / 8 = i by omega, show (i * 8 + k) % 8 = k by omega] at bit
  simpa [small] using bit

theorem shown_injective {bitmap bitmap' : Vector UInt8 32}
    (same : (if layersOf bitmap = [] then none else some (layerRange bitmap)) =
      if layersOf bitmap' = [] then none else some (layerRange bitmap')) : bitmap = bitmap' := by
  apply layersOf_injective
  unfold layerRange at same
  cases mine : layersOf bitmap with
  | nil =>
      cases theirs : layersOf bitmap' with
      | nil => rfl
      | cons layer layers => simp [mine, theirs] at same
  | cons layer layers =>
      cases theirs : layersOf bitmap' with
      | nil => simp [mine, theirs] at same
      | cons layer' layers' =>
          simp only [mine, theirs, List.cons_ne_nil, if_false, Option.some.injEq] at same
          exact formatLayers_injective same

theorem roundTrips (bitmap : Vector UInt8 32) : RoundTrips bitmap := by
  refine ⟨deserializeBitmapHex_serialize bitmap, parseBitmapHex_bitmapToHex bitmap,
    bitmapHexToLayerRange_serialize bitmap, fun other same => ?_⟩
  rw [bitmapHexToLayerRange_serialize, bitmapHexToLayerRange_serialize] at same
  exact shown_injective (Except.ok.inj same)

/-- The decoders are exact on the texts whose sliced pairs end between characters and, where
all of them are numbers, have no sign; what the encoder writes is such a text and comes back. -/
theorem bitmapHex_exact_iff (hex : String) (bitmap : Vector UInt8 32) :
    (Exact hex ↔ Plain hex) ∧ RoundTrips bitmap :=
  ⟨exact_iff_plain hex, roundTrips bitmap⟩

/-- A character of two bytes over the end of the first pair, and a pair with a sign. -/
theorem bitmapHex_exact_counterexample :
    deserializeBitmapHex ("aé" ++ String.ofList (List.replicate 61 '0')) = .error .panic ∧
      (deserializeBitmapHex ("+f" ++ String.ofList (List.replicate 62 '0'))).isOk = true ∧
      ¬ ∀ hex, Exact hex := by
  have panics : deserializeBitmapHex ("aé" ++ String.ofList (List.replicate 61 '0')) = .error .panic := by
    decide +kernel
  exact ⟨panics, by decide +kernel, fun exactly => (exactly _).deserialize panics⟩

end Pleiades.Tui
