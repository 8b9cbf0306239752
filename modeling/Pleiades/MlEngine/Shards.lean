import Pleiades.MlEngine.Loader

/-!
# Models in shards

Every form of a matrix is loaded as its numbers, whatever shard it has been written into; what
changes when the tensors of one shard are put into several.
-/
namespace Pleiades.MlEngine.DeepSeekV4

open Lib

variable {F : Type} {f32 : Floats F} {rows cols : ℕ} {fp4 : Bool}

theorem readAt_chunk {α : Type} {encode : α → List UInt8} {k : ℕ} (each : ∀ a, (encode a).length = k) {as : List α}
    {i : ℕ} {a : α} (found : as[i]? = some a) : readAt (as.flatMap encode) (i * k) k = encode a := by
  induction as generalizing i with
  | nil => cases found
  | cons first as ih =>
      rw [List.flatMap_cons]
      cases i with
      | zero =>
          have same : first = a := by simpa using found
          rw [same, Nat.zero_mul, ← each a, readAt, List.drop_zero, List.take_left]
      | succ i =>
          have behind := readAt_append_right (encode first) (as.flatMap encode) (i * k) k
          rw [each] at behind
          rw [Nat.succ_mul, Nat.add_comm, behind]
          exact ih found

theorem flatMap_length {α : Type} {encode : α → List UInt8} {k : ℕ} (each : ∀ a, (encode a).length = k) (as : List α) :
    (as.flatMap encode).length = as.length * k := by
  induction as with
  | nil => rw [List.length_nil, Nat.zero_mul]; rfl
  | cons a as ih => rw [List.flatMap_cons, List.length_append, each, ih, List.length_cons, Nat.succ_mul, Nat.add_comm]

theorem chunksExact_flatMap {α : Type} {encode : α → List UInt8} {k : ℕ} (positive : 0 < k)
    (each : ∀ a, (encode a).length = k) (as : List α) : chunksExact k (as.flatMap encode) = as.map encode := by
  rw [chunksExact, flatMap_length each, Nat.mul_div_cancel _ positive]
  apply List.ext_getElem?
  intro i
  rw [List.getElem?_map, List.getElem?_map]
  cases found : as[i]? with
  | none =>
      rw [List.getElem?_eq_none (by simpa using found)]
      rfl
  | some a =>
      obtain ⟨inside, -⟩ := List.getElem?_eq_some_iff.mp found
      rw [List.getElem?_range inside]
      exact congrArg some (readAt_chunk each found)

/-- A matrix in one of the forms that a weight is stored in. -/
inductive Weight where
  | f32 (bits : ℕ → ℕ → UInt32)
  | bf16 (bits : ℕ → ℕ → UInt16)
  | scaled (q : Quantised)

namespace Weight

def number (f32 : Floats F) (i j : ℕ) : Weight → F
  | .f32 bits => f32.ofBits (bits i j).toNat
  | .bf16 bits => bf16Decode f32 (bits i j).toNat
  | .scaled q => q.number f32 i j

/-- The tensors of the matrix under a name: a plain one comes without scales. -/
def In (name : String) (rows cols : ℕ) (entries : List Stored) : Weight → Prop
  | .f32 bits => (∃ s ∈ entries, s.name = name ++ ".weight" ∧ s.dtype = "F32" ∧
      s.bytes = (grid rows cols bits).flatMap fun b => leBytes 4 b.toNat) ∧ name ++ ".scale" ∉ entries.map Stored.name
  | .bf16 bits => (∃ s ∈ entries, s.name = name ++ ".weight" ∧ s.dtype = "BF16" ∧
      s.bytes = (grid rows cols bits).flatMap fun b => leBytes 2 b.toNat) ∧ name ++ ".scale" ∉ entries.map Stored.name
  | .scaled q => (∃ s ∈ entries, s.name = name ++ ".weight" ∧ s.bytes = q.weight rows cols) ∧
      ∃ s ∈ entries, s.name = name ++ ".scale" ∧ s.bytes = q.scale rows cols

/-- It is asked for in its own form, and the loop gets through it. -/
def Fits (fp4 : Bool) (rows cols : ℕ) : Weight → Prop
  | .scaled q => q.isFp4 = fp4 ∧ ¬ Overruns fp4 rows cols
  | _ => rows * cols < 2 ^ 61

theorem named {w : Weight} {name : String} {entries : List Stored} (stored : w.In name rows cols entries) :
    name ++ ".weight" ∈ entries.map Stored.name := by
  cases w with
  | f32 bits | bf16 bits =>
      obtain ⟨⟨s, member, same, -⟩, -⟩ := stored
      exact same ▸ List.mem_map_of_mem member
  | scaled q =>
      obtain ⟨⟨s, member, same, -⟩, -⟩ := stored
      exact same ▸ List.mem_map_of_mem member

end Weight

namespace SafeTensors

variable {st : SafeTensors} {name : String} {entries : List Stored}

theorem Holds.missing (holds : st.Holds entries) (absent : name ∉ entries.map Stored.name) :
    st.raw name = .error (.message s!"tensor not found: {name}") := raw_missing (holds.others name absent)

/-- Numbers of one width, one behind the other. -/
theorem plainTensor_stored {α : Type} {kind : String} {width : ℕ} {decode : List UInt8 → F} {encode : α → List UInt8}
    {cell : ℕ → ℕ → α} (positive : 0 < width) (narrow : width ≤ 4) (each : ∀ a, (encode a).length = width)
    (small : rows * cols < 2 ^ 61) (read : st.raw name = .ok ((grid rows cols cell).flatMap encode)) :
    plainTensor f32 st name kind width decode [rows, cols] =
      .ok ⟨[rows, cols], grid rows cols fun i j => f32.toBf16 (decode (encode (cell i j)))⟩ := by
  have length : ((grid rows cols cell).flatMap encode).length = rows * cols * width := by
    rw [flatMap_length each, grid_length]
  have product : [rows, cols].prod % 2 ^ 64 = rows * cols := by
    rw [List.prod_cons, List.prod_cons, List.prod_nil, Nat.mul_one, Nat.mod_eq_of_lt (small.trans (by decide))]
  have wide : rows * cols * width < 2 ^ 64 := by
    calc rows * cols * width ≤ rows * cols * 4 := Nat.mul_le_mul_left _ narrow
      _ < 2 ^ 64 := by omega
  have count : ((grid rows cols cell).flatMap encode).length / width = rows * cols := by
    rw [length, Nat.mul_div_cancel _ positive]
  have room : capacity (rows * cols) = .ok () := by
    rw [capacity, Nat.mod_eq_of_lt (small.trans (by decide)), if_pos (by omega)]
  rw [plainTensor, read]
  change (if _ then _ else _) = _
  rw [if_neg (by rw [length, product, Nat.mod_eq_of_lt wide]; exact not_not.mpr rfl), count, room,
    chunksExact_flatMap positive each, Tensor.fromVec,
    if_pos (by rw [product, List.length_map, List.length_map, grid_length])]
  change Except.ok _ = _
  rw [Tensor.toBf16, grid_map, grid_map, grid_map]

theorem Holds.linear_alone (holds : st.Holds entries) (alone : name ++ ".scale" ∉ entries.map Stored.name) :
    linear f32 st name rows cols fp4 = autoTensor f32 st (name ++ ".weight") [rows, cols] := by
  rw [linear, holds.others _ alone, if_neg (by simp)]

theorem Holds.linear_eq (holds : st.Holds entries) {w : Weight} (stored : w.In name rows cols entries)
    (fits : w.Fits fp4 rows cols) :
    linear f32 st name rows cols fp4 = .ok ⟨[rows, cols], grid rows cols fun i j => f32.toBf16 (w.number f32 i j)⟩ := by
  cases w with
  | f32 bits =>
      obtain ⟨⟨s, member, named, single, bytes⟩, alone⟩ := stored
      obtain ⟨read, info, found, dtype, -⟩ := holds.each s member
      rw [named] at read found
      rw [bytes] at read
      rw [holds.linear_alone alone, autoTensor, found]
      dsimp only
      rw [if_pos (dtype.trans single), f32Tensor,
        plainTensor_stored (by decide) le_rfl (fun _ => leBytes_length ..) fits read]
      have back (b : UInt32) : leNat (leBytes 4 b.toNat) = b.toNat :=
        (leNat_leBytes ..).trans (Nat.mod_eq_of_lt b.toNat_lt)
      simp only [back]
      rfl
  | bf16 bits =>
      obtain ⟨⟨s, member, named, half, bytes⟩, alone⟩ := stored
      obtain ⟨read, info, found, dtype, -⟩ := holds.each s member
      rw [named] at read found
      rw [bytes] at read
      rw [holds.linear_alone alone, autoTensor, found]
      dsimp only
      rw [dtype.trans half, if_neg (by decide), if_pos rfl, bf16Tensor,
        plainTensor_stored (by decide) (by decide) (fun _ => leBytes_length ..) fits read]
      have back (b : UInt16) : leNat (leBytes 2 b.toNat) = b.toNat :=
        (leNat_leBytes ..).trans (Nat.mod_eq_of_lt b.toNat_lt)
      simp only [back]
      rfl
  | scaled q =>
      obtain ⟨⟨s, member, named, bytes⟩, s', member', named', bytes'⟩ := stored
      obtain ⟨rfl, fits⟩ := fits
      have weights := (holds.each s member).1
      have scales := (holds.each s' member').1
      rw [named, bytes] at weights
      rw [named', bytes'] at scales
      rw [linear_fitting weights scales (q.fitting fits), q.dequant_eq fits]
      change Except.ok _ = _
      rw [Tensor.toBf16, grid_map]
      rfl

/-- Two shards with the same to be read under the names of a weight load the same. -/
theorem linear_congr {st' : SafeTensors} (weights : st.raw (name ++ ".weight") = st'.raw (name ++ ".weight"))
    (scales : st.raw (name ++ ".scale") = st'.raw (name ++ ".scale"))
    (scaled : (st.info (name ++ ".scale")).isSome = (st'.info (name ++ ".scale")).isSome)
    (dtypes : (st.info (name ++ ".weight")).map TensorInfo.dtype =
      (st'.info (name ++ ".weight")).map TensorInfo.dtype) :
    linear f32 st name rows cols fp4 = linear f32 st' name rows cols fp4 := by
  have plain : autoTensor f32 st (name ++ ".weight") [rows, cols] =
      autoTensor f32 st' (name ++ ".weight") [rows, cols] := by
    rw [autoTensor, autoTensor]
    cases here : st.info (name ++ ".weight") with
    | none => cases there : st'.info (name ++ ".weight") with
      | none => rfl
      | some info => rw [here, there] at dtypes; cases dtypes
    | some info => cases there : st'.info (name ++ ".weight") with
      | none => rw [here, there] at dtypes; cases dtypes
      | some info' =>
          rw [here, there] at dtypes
          have same : info.dtype = info'.dtype := Option.some.inj dtypes
          simp only [same, f32Tensor, bf16Tensor, plainTensor, weights]
  rw [linear, linear, scaled, plain]
  simp only [fp4Tensor, fp8Tensor, scaledTensor, weights, scales]

variable {all : SafeTensors} {everywhere : List Stored} {s : Stored}

/-- Without its scales a quantised weight is refused for its type, and with them it is not. -/
theorem Holds.linear_ne (here : st.Holds entries) (everything : all.Holds everywhere) (stored : s ∈ entries)
    (within : s ∈ everywhere) (named : s.name = name ++ ".weight") (quantised : s.dtype ≠ "F32" ∧ s.dtype ≠ "BF16")
    (somewhere : name ++ ".scale" ∈ everywhere.map Stored.name) (apart : name ++ ".scale" ∉ entries.map Stored.name) :
    linear f32 st name rows cols fp4 ≠ linear f32 all name rows cols fp4 := by
  obtain ⟨-, info, told, dtype, -⟩ := here.each s stored
  have weights := (everything.each s within).1
  rw [named] at told weights
  obtain ⟨s', member', named'⟩ := List.mem_map.mp somewhere
  have scales := (everything.each s' member').1
  rw [named'] at scales
  rw [here.linear_alone apart, autoTensor_other told ⟨dtype ▸ quantised.1, dtype ▸ quantised.2⟩]
  intro same
  by_cases fitting : s.bytes.length = wantWeight fp4 rows cols ∧ s'.bytes.length = wantScale fp4 rows cols
  · rw [linear_fitting weights scales fitting] at same
    rcases dequant_cases f32 fitting.1 fitting.2 with ⟨-, panics⟩ | ⟨-, t, read⟩
    · rw [panics] at same
      cases same
    · rw [read] at same
      cases same
  · obtain ⟨text, refused, front⟩ := linear_misfit f32 weights scales fitting
    rw [refused] at same
    rw [← Refused.message.inj (Except.error.inj same)] at front
    simp [ToString.toString] at front

/-- A shard of some of the tensors loads a weight like one of all, if its scales are in it or nowhere. -/
theorem Holds.linear_eq_all (here : st.Holds entries) (everything : all.Holds everywhere)
    (subset : ∀ s ∈ entries, s ∈ everywhere) (stored : s ∈ entries) (named : s.name = name ++ ".weight")
    (together : name ++ ".scale" ∈ everywhere.map Stored.name → name ++ ".scale" ∈ entries.map Stored.name) :
    linear f32 st name rows cols fp4 = linear f32 all name rows cols fp4 := by
  obtain ⟨weights, info, told, dtype, -⟩ := here.each s stored
  obtain ⟨weights', info', told', dtype', -⟩ := everything.each s (subset s stored)
  rw [named] at weights told weights' told'
  have dtypes : (st.info (name ++ ".weight")).map TensorInfo.dtype =
      (all.info (name ++ ".weight")).map TensorInfo.dtype := by
    rw [told, told']
    exact congrArg some (dtype.trans dtype'.symm)
  by_cases somewhere : name ++ ".scale" ∈ everywhere.map Stored.name
  · obtain ⟨s', member', named'⟩ := List.mem_map.mp (together somewhere)
    obtain ⟨scales, _, scaled, -⟩ := here.each s' member'
    obtain ⟨scales', _, scaled', -⟩ := everything.each s' (subset s' member')
    rw [named'] at scales scaled scales' scaled'
    exact linear_congr (weights.trans weights'.symm) (scales.trans scales'.symm) (by rw [scaled, scaled']; rfl) dtypes
  · have apart : name ++ ".scale" ∉ entries.map Stored.name := by
      intro inside
      obtain ⟨s', member', named'⟩ := List.mem_map.mp inside
      exact somewhere (named' ▸ List.mem_map_of_mem (subset s' member'))
    exact linear_congr (weights.trans weights'.symm) ((here.missing apart).trans (everything.missing somewhere).symm)
      (by rw [here.others _ apart, everything.others _ somewhere]) dtypes

end SafeTensors

namespace MultiSafeTensors

variable {sts : List SafeTensors} {parts : List (List Stored)} {name : String}

/-- The shard that is found for a tensor is the one it has been put into. -/
theorem find_holds (holds : List.Forall₂ SafeTensors.Holds sts parts) (names : (parts.flatten.map Stored.name).Nodup)
    {part : List Stored} (among : part ∈ parts) (stored : name ∈ part.map Stored.name) :
    ∃ st, find ⟨sts⟩ name = .ok st ∧ st.Holds part := by
  induction holds with
  | nil => cases among
  | @cons st part' sts parts here later ih =>
      rw [List.flatten_cons, List.map_append, List.nodup_append] at names
      obtain ⟨-, others, apart⟩ := names
      rw [find]
      rcases List.mem_cons.mp among with rfl | among
      · obtain ⟨s, member, rfl⟩ := List.mem_map.mp stored
        obtain ⟨-, info, found, -⟩ := here.each s member
        exact ⟨st, by simp [found], here⟩
      · have absent : name ∉ part'.map Stored.name := by
          intro before
          have behind : name ∈ parts.flatten.map Stored.name := by
            obtain ⟨s, member, rfl⟩ := List.mem_map.mp stored
            exact List.mem_map_of_mem (List.mem_flatten_of_mem among member)
          exact apart _ before _ behind rfl
        obtain ⟨st', found, holds⟩ := ih others among
        refine ⟨st', ?_, holds⟩
        rw [List.find?_cons_of_neg (by simp [here.others name absent])]
        exact found

end MultiSafeTensors

/-- A shard that has been written with some tensors. -/
def Shard (fromSlice : List UInt8 → Except String Value) (buf : Slice) (entries : List Stored) : Prop :=
  ∃ header members, Written fromSlice buf entries header members

namespace MultiSafeTensors

variable {fromSlice : List UInt8 → Except String Value} {bufs : List Slice} {parts : List (List Stored)} {name : String}

theorem fromShards_holds (written : List.Forall₂ (Shard fromSlice) bufs parts) :
    ∃ sts, fromShards fromSlice bufs = .ok ⟨sts⟩ ∧ List.Forall₂ SafeTensors.Holds sts parts := by
  suffices read : ∃ sts, bufs.mapM (SafeTensors.fromBytes fromSlice) = .ok sts ∧
      List.Forall₂ SafeTensors.Holds sts parts by
    obtain ⟨sts, read, holds⟩ := read
    exact ⟨sts, by rw [fromShards, read]; rfl, holds⟩
  induction written with
  | nil => exact ⟨[], rfl, .nil⟩
  | cons here _ ih =>
      obtain ⟨header, members, here⟩ := here
      obtain ⟨st, accepted, first⟩ := SafeTensors.fromBytes_written here
      obtain ⟨sts, read, later⟩ := ih
      refine ⟨st :: sts, ?_, .cons first later⟩
      rw [List.mapM_cons, accepted, read]
      rfl

def smallScale : Stored := ⟨"w.scale", "F8_E8M0", [1, 1], [0x80]⟩

def smallWeight : Stored := ⟨"w.weight", "F8_E4M3", [1, 1], [0x38]⟩

def scaleText : String := "\"w.scale\":\x7b\"data_offsets\":[0,1],\"dtype\":\"F8_E8M0\",\"shape\":[1,1]\x7d"

def weightText (start stop : String) : String :=
  "\"w.weight\":\x7b\"data_offsets\":[" ++ start ++ "," ++ stop ++ "],\"dtype\":\"F8_E4M3\",\"shape\":[1,1]\x7d"

def scaleHeader : List UInt8 := utf8Bytes ("\x7b" ++ scaleText ++ "\x7d").toList

def weightHeader : List UInt8 := utf8Bytes ("\x7b" ++ weightText "0" "1" ++ "\x7d").toList

def bothHeader : List UInt8 := utf8Bytes ("\x7b" ++ scaleText ++ "," ++ weightText "1" "2" ++ "\x7d").toList

/-- Two rows of two blocks, with a scale for each. -/
def blocksScale : Stored := ⟨"b.scale", "F8_E8M0", [2, 2], [0x7F, 0x80, 0x81, 0x82]⟩

/-- All of their elements are one. -/
def blocksWeight : Stored := ⟨"b.weight", "F4", [2, 64], List.replicate 64 0x22⟩

def blocksHeader : List UInt8 :=
  utf8Bytes ("\x7b\"b.scale\":\x7b\"data_offsets\":[0,4],\"dtype\":\"F8_E8M0\",\"shape\":[2,2]\x7d," ++
    "\"b.weight\":\x7b\"data_offsets\":[4,68],\"dtype\":\"F4\",\"shape\":[2,64]\x7d\x7d").toList

def knowsSmall : List UInt8 → Except String Value :=
  knows [(scaleHeader, [smallScale]), (weightHeader, [smallWeight]), (bothHeader, [smallScale, smallWeight]),
    (blocksHeader, [blocksScale, blocksWeight])]

def scaleShard : Slice := ⟨shardBytes scaleHeader [smallScale], by decide +kernel⟩

def weightShard : Slice := ⟨shardBytes weightHeader [smallWeight], by decide +kernel⟩

def bothShard : Slice := ⟨shardBytes bothHeader [smallScale, smallWeight], by decide +kernel⟩

def blocksShard : Slice := ⟨shardBytes blocksHeader [blocksScale, blocksWeight], by decide +kernel⟩

theorem shard_scale : Shard knowsSmall scaleShard [smallScale] :=
  ⟨_, _, Written.plain_header rfl (by rw [knowsSmall, knows, List.lookup_cons_self]; rfl) (by decide) (by decide)⟩

theorem shard_weight : Shard knowsSmall weightShard [smallWeight] := by
  have other : (weightHeader == scaleHeader) = false := by decide +kernel
  refine ⟨_, _, Written.plain_header rfl ?_ (by decide) (by decide)⟩
  rw [knowsSmall, knows, List.lookup_cons, other, List.lookup_cons_self]
  rfl

theorem shard_both : Shard knowsSmall bothShard [smallScale, smallWeight] := by
  have other : (bothHeader == scaleHeader) = false := by decide +kernel
  have other' : (bothHeader == weightHeader) = false := by decide +kernel
  refine ⟨_, _, Written.plain_header rfl ?_ (by decide) (by decide)⟩
  rw [knowsSmall, knows, List.lookup_cons, other, List.lookup_cons, other', List.lookup_cons_self]
  rfl

theorem shard_blocks : Shard knowsSmall blocksShard [blocksScale, blocksWeight] := by
  have other : (blocksHeader == scaleHeader) = false := by decide +kernel
  have other' : (blocksHeader == weightHeader) = false := by decide +kernel
  have other'' : (blocksHeader == bothHeader) = false := by decide +kernel
  refine ⟨_, _, Written.plain_header rfl ?_ (by decide) (by decide)⟩
  rw [knowsSmall, knows, List.lookup_cons, other, List.lookup_cons, other', List.lookup_cons, other'',
    List.lookup_cons_self]
  rfl

/-- A matrix that has been written into one of the shards of a model is loaded as its numbers, each with the scale of
its own block, whichever of the forms it is stored in. -/
theorem linear_stored (f32 : Floats F) {rows cols : ℕ} {fp4 : Bool}
    (written : List.Forall₂ (Shard fromSlice) bufs parts) (names : (parts.flatten.map Stored.name).Nodup)
    {part : List Stored} (among : part ∈ parts) {w : Weight} (stored : w.In name rows cols part)
    (fits : w.Fits fp4 rows cols) :
    ((fromShards fromSlice bufs).bind fun st => st.linear f32 name rows cols fp4) =
      .ok ⟨[rows, cols], grid rows cols fun i j => f32.toBf16 (w.number f32 i j)⟩ := by
  obtain ⟨sts, read, holds⟩ := fromShards_holds written
  obtain ⟨st, found, here⟩ := find_holds holds names among (Weight.named stored)
  rw [read]
  change linear f32 ⟨sts⟩ name rows cols fp4 = _
  rw [linear, found]
  exact here.linear_eq stored fits

/-- Ones times the scales of their blocks, from the second shard of a model. -/
theorem linear_stored_small :
    ((fromShards knowsSmall [bothShard, blocksShard]).bind fun st => st.linear exactly "b" 2 64 true) =
      .ok ⟨[2, 64], grid 2 64 fun i j => some (2 ^ (2 * i + j / fp4Block))⟩ := by
  let w : Weight := .scaled (.fp4 (fun _ _ => 2) fun i j => [0x7F, 0x80, 0x81, 0x82].getD (2 * i + j) 0)
  have numbers : (grid 2 64 fun i j => exactly.toBf16 (w.number exactly i j)) =
      grid 2 64 fun i j => some (2 ^ (2 * i + j / fp4Block)) := by decide +kernel
  have loaded : ((fromShards knowsSmall [bothShard, blocksShard]).bind fun st => st.linear exactly "b" 2 64 true) = _ :=
    linear_stored exactly (.cons shard_both (.cons shard_blocks .nil)) (by decide)
      (List.mem_cons_of_mem _ List.mem_cons_self) (w := w)
      ⟨⟨blocksWeight, by decide, by decide, by decide +kernel⟩, blocksScale, by decide, by decide, by decide +kernel⟩
      ⟨rfl, by unfold Overruns; decide⟩
  rw [loaded, numbers]

/-- A quantised weight is loaded from the shards of a model as from one shard of all the tensors exactly if its scales,
if there are any, are in its own shard. -/
theorem linear_split_iff (f32 : Floats F) {rows cols : ℕ} {fp4 : Bool} {buf : Slice}
    (written : List.Forall₂ (Shard fromSlice) bufs parts) (whole : Shard fromSlice buf parts.flatten)
    {part : List Stored} (among : part ∈ parts) {s : Stored} (stored : s ∈ part) (named : s.name = name ++ ".weight")
    (quantised : s.dtype ≠ "F32" ∧ s.dtype ≠ "BF16") :
    ((fromShards fromSlice bufs).bind fun st => st.linear f32 name rows cols fp4) =
      ((SafeTensors.fromBytes fromSlice buf).bind fun st => st.linear f32 name rows cols fp4) ↔
    (name ++ ".scale" ∈ parts.flatten.map Stored.name → name ++ ".scale" ∈ part.map Stored.name) := by
  obtain ⟨header, members, whole⟩ := whole
  obtain ⟨sts, read, holds⟩ := fromShards_holds written
  have inPart : name ++ ".weight" ∈ part.map Stored.name := named ▸ List.mem_map_of_mem stored
  obtain ⟨st, found, here⟩ := find_holds holds whole.names among inPart
  obtain ⟨all, accepted, everything⟩ := SafeTensors.fromBytes_written whole
  have within (s : Stored) (member : s ∈ part) : s ∈ parts.flatten := List.mem_flatten_of_mem among member
  rw [read, accepted]
  change linear f32 ⟨sts⟩ name rows cols fp4 = SafeTensors.linear f32 all name rows cols fp4 ↔ _
  rw [linear, found]
  constructor
  · intro same somewhere
    by_contra apart
    exact here.linear_ne everything stored (within s stored) named quantised somewhere apart same
  · exact here.linear_eq_all everything within stored named

/-- The scale in one shard and the weight in the next. -/
theorem linear_split_iff_apart :
    ((fromShards knowsSmall [scaleShard, weightShard]).bind fun st => st.linear exactly "w" 1 1 false) ≠
      (SafeTensors.fromBytes knowsSmall bothShard).bind fun st => st.linear exactly "w" 1 1 false := by
  intro same
  have together := (linear_split_iff exactly (.cons shard_scale (.cons shard_weight .nil)) shard_both
    (List.mem_cons_of_mem _ List.mem_cons_self) List.mem_cons_self rfl ⟨by decide, by decide⟩).mp same
  exact absurd (together (by decide)) (by decide)

end MultiSafeTensors

end Pleiades.MlEngine.DeepSeekV4
