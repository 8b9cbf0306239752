import Pleiades.Gguf.Validator

/-!
# Where the validator reads the header

The writer puts the number of tensors at 8, the number of metadata entries at 16 and the
first entry at 24. `parse_gguf` takes the second count from 12 and the entries from 16 on.
-/
namespace Pleiades.Gguf

open Lib Parse

/-- The dictionary of the metadata that is written. -/
def pyMetadata (c : Content) (modelId : UInt32) (bitmap : List UInt8) : Table String PyValue :=
  Table.insertAll ∅ ((metadataOut c modelId bitmap).map fun entry => (entry.1, entry.2.toPy))

/-- The dimensions are in the order of the file. -/
def pyTensors (g : Layout) (c : Content) : Table String PyTensor :=
  Table.insertAll ∅
    ((entriesFrom g 0 (sortedInfos c)).map fun e => (e.name, pyTensor e.dims.reverse e.dtype e.offset))

/-- What of a tensor is in the file. -/
def PyTensor.info (t : PyTensor) : List ℕ × ℕ × ℕ := (t.dims, t.dtype, t.offset)

/-- The keys and names are the written ones and have the written values. -/
structure Agree (g : Layout) (c : Content) (modelId : UInt32) (bitmap : List UInt8)
    (metadata : Table String PyValue) (tensorInfos : Table String PyTensor) : Prop where
  metadata : ∀ key, metadata.lookup key = (pyMetadata c modelId bitmap).lookup key
  tensors : ∀ name, (tensorInfos.lookup name).map PyTensor.info = ((pyTensors g c).lookup name).map PyTensor.info

/-- The file is read back without errors. -/
def Validated (g : Layout) (c : Content) (modelId : UInt32) (bitmap : List UInt8) (result : Except PyError Parsed) :
    Prop :=
  ∃ metadata tensorInfos, result = .ok ⟨some metadata, tensorInfos, []⟩ ∧ Agree g c modelId bitmap metadata tensorInfos

/-- What is at 12: the upper half of one count and the lower half of the other. -/
def misreadCount (tensors entries : ℕ) : ℕ := tensors / 256 ^ 4 + entries % 256 ^ 4 * 256 ^ 4

/-- From `start` on, the bytes can be read as these entries and then these tensors. -/
def Listed (data : List UInt8) (limit start : ℕ) (entries : List (String × PyValue))
    (tensors : List (String × PyTensor)) : Prop :=
  ∃ mid stop, Calls (metadataEntry data limit) start entries mid ∧ Calls (tensorEntry data) mid tensors stop

/-- A key with a zero byte or of 64 KiB. -/
def Strange (key : String) : Prop := 256 ^ 2 ≤ key.utf8ByteSize ∨ Char.ofNat 0 ∈ key.toList

section Loops
variable {data : List UInt8} {limit nKv nTensors start : ℕ}

theorem parseLoops_clean_iff {metadata : Table String PyValue} {tensorInfos : Table String PyTensor} :
    parseLoops data limit nKv nTensors start = .ok ⟨some metadata, tensorInfos, []⟩ ↔
      ∃ entries tensors, entries.length = nKv ∧ tensors.length = nTensors ∧ Listed data limit start entries tensors ∧
        Table.insertAll ∅ entries = metadata ∧ Table.insertAll ∅ tensors = tensorInfos := by
  constructor
  · intro clean
    unfold parseLoops at clean
    split at clean
    · cases clean
    · cases clean
    · next table mid first =>
        split at clean
        · cases clean
        · cases clean
        · next table' stop second =>
            cases clean
            obtain ⟨entries, countE, calls, rfl⟩ := collect_eq_ok_iff.mp first
            obtain ⟨tensors, countT, calls', rfl⟩ := collect_eq_ok_iff.mp second
            exact ⟨entries, tensors, countE, countT, ⟨mid, stop, calls, calls'⟩, rfl, rfl⟩
  · rintro ⟨entries, tensors, countE, countT, ⟨mid, stop, calls, calls'⟩, rfl, rfl⟩
    have first : (metadataEntry data limit).collect nKv start ∅ = (Table.insertAll ∅ entries, .ok mid) :=
      collect_eq_ok_iff.mpr ⟨entries, countE, calls, rfl⟩
    have second : (tensorEntry data).collect nTensors mid ∅ = (Table.insertAll ∅ tensors, .ok stop) :=
      collect_eq_ok_iff.mpr ⟨tensors, countT, calls', rfl⟩
    rw [parseLoops, first]
    simp only [second]

theorem validated_loops_iff {g : Layout} {c : Content} {modelId : UInt32} {bitmap : List UInt8} :
    Validated g c modelId bitmap (parseLoops data limit nKv nTensors start) ↔
      ∃ entries tensors, entries.length = nKv ∧ tensors.length = nTensors ∧ Listed data limit start entries tensors ∧
        Agree g c modelId bitmap (Table.insertAll ∅ entries) (Table.insertAll ∅ tensors) := by
  constructor
  · rintro ⟨metadata, tensorInfos, clean, agree⟩
    obtain ⟨entries, tensors, countE, countT, listed, rfl, rfl⟩ := parseLoops_clean_iff.mp clean
    exact ⟨entries, tensors, countE, countT, listed, agree⟩
  · rintro ⟨entries, tensors, countE, countT, listed, agree⟩
    exact ⟨_, _, parseLoops_clean_iff.mpr ⟨entries, tensors, countE, countT, listed, rfl, rfl⟩, agree⟩

end Loops

theorem encodeCounts_misread {tensors entries : ℕ} (fits : tensors < 256 ^ 8) :
    encodeCounts tensors entries =
      leBytes 4 0x46554747 ++ leBytes 4 2 ++ leBytes 4 tensors ++ leBytes 8 (misreadCount tensors entries) ++
        leBytes 4 (entries / 256 ^ 4) := by
  have upper : tensors / 256 ^ 4 < 256 ^ 4 := Nat.div_lt_of_lt_mul fits
  have low : leBytes 4 (misreadCount tensors entries) = leBytes 4 (tensors / 256 ^ 4) := by
    rw [← leBytes_mod, misreadCount, Nat.add_mul_mod_self_right, leBytes_mod]
  have high : misreadCount tensors entries / 256 ^ 4 = entries % 256 ^ 4 := by
    rw [misreadCount, Nat.add_mul_div_right _ _ (by decide), Nat.div_eq_of_lt upper, Nat.zero_add]
  rw [encodeCounts, leBytes_add 4 4 tensors, leBytes_add 4 4 entries, leBytes_add 4 4 (misreadCount _ _), low, high,
    leBytes_mod]
  simp only [List.append_assoc]

section Header
variable {data body : List UInt8} {limit tensors entries : ℕ}

theorem misreadCount_lt (fits : tensors < 256 ^ 8) : misreadCount tensors entries < 256 ^ 8 := by
  unfold misreadCount
  omega

theorem behind_tensors (written : data = encodeCounts tensors entries ++ body) :
    Behind data 8 (leBytes 8 tensors ++ (leBytes 8 entries ++ body)) := by
  have here := Behind.start (leBytes 4 0x46554747 ++ leBytes 4 2) (leBytes 8 tensors ++ (leBytes 8 entries ++ body))
  rw [written, encodeCounts]
  simpa [List.append_assoc] using here

theorem behind_entries (written : data = encodeCounts tensors entries ++ body) :
    Behind data 16 (leBytes 8 entries ++ body) := by
  have here := (behind_tensors written).add
  rw [leBytes_length] at here
  exact here

theorem behind_body (written : data = encodeCounts tensors entries ++ body) : Behind data 24 body := by
  have here := (behind_entries written).add
  rw [leBytes_length] at here
  exact here

theorem behind_misread (fits : tensors < 256 ^ 8) (written : data = encodeCounts tensors entries ++ body) :
    Behind data 12 (leBytes 8 (misreadCount tensors entries) ++ (leBytes 4 (entries / 256 ^ 4) ++ body)) := by
  have here := Behind.start (leBytes 4 0x46554747 ++ leBytes 4 2 ++ leBytes 4 tensors)
    (leBytes 8 (misreadCount tensors entries) ++ (leBytes 4 (entries / 256 ^ 4) ++ body))
  rw [written, encodeCounts_misread fits]
  simpa [List.append_assoc] using here

theorem parseAt_eq (fits : tensors < 256 ^ 8) (written : data = encodeCounts tensors entries ++ body)
    {nKv nKvAt start : ℕ} {rest : List UInt8} (fitsE : nKv < 256 ^ 8)
    (counted : Behind data nKvAt (leBytes 8 nKv ++ rest)) :
    parseAt data limit nKvAt start = parseLoops data limit nKv tensors start := by
  have header : Behind data 4 (leBytes 4 2 ++ (leBytes 8 tensors ++ (leBytes 8 entries ++ body))) := by
    have here := Behind.start (leBytes 4 0x46554747) (leBytes 4 2 ++ (leBytes 8 tensors ++ (leBytes 8 entries ++ body)))
    rw [written, encodeCounts]
    simpa [List.append_assoc] using here
  have long := (behind_tensors written).bound
  rw [leBytes_length] at long
  rw [parseAt, if_neg (by omega), unpackFrom_parses (by decide) _ _ header,
    unpackFrom_parses fits _ _ (behind_tensors written), unpackFrom_parses fitsE _ _ counted]
  rfl

theorem parseGguf_eq (fits : tensors < 256 ^ 8) (written : data = encodeCounts tensors entries ++ body) :
    parseGguf data limit = parseLoops data limit (misreadCount tensors entries) tensors 16 :=
  parseAt_eq fits written (misreadCount_lt fits) (behind_misread fits written)

/-- What follows a length is taken for a name. -/
theorem name_eq {early s : String} {late : ℕ → String} {n pos pos' : ℕ} {rest : List UInt8} (fits : n < 256 ^ 8)
    (here : Behind data pos (leBytes 8 n ++ rest)) (done : name data early late pos = .ok (s, pos')) :
    s = decodeReplace (readAt data (pos + 8) n) := by
  obtain ⟨length, mid, first, others⟩ := run_bind.mp done
  obtain ⟨bytes, stop, second, last⟩ := run_bind.mp others
  have read := Parses.number (ParseStop.returned early) fits pos rest here
  rw [leBytes_length] at read
  cases read.symm.trans first
  unfold exactly at second
  split at second
  · cases second
  · cases second
    cases last
    rfl

/-- The length of the first key is taken for a part of a key. -/
theorem first_key_zero {entry : String × PyValue} {i mid size : ℕ} {rest : List UInt8} (fits : entries < 256 ^ 8)
    (written : data = encodeCounts tensors entries ++ (leBytes 8 size ++ rest)) (inside : i < entries) (field : i < 8)
    (small : size < 256 ^ i) (first : metadataEntry data limit 16 = .ok (entry, mid)) :
    Char.ofNat 0 ∈ entry.1.toList := by
  obtain ⟨key, atType, named, others⟩ := run_bind.mp first
  obtain ⟨valType, atValue, _, others⟩ := run_bind.mp others
  obtain ⟨val, stop, _, last⟩ := run_bind.mp others
  cases last
  have body := behind_body written
  have zero : (readAt data 24 entries)[i]? = some 0 := by
    rw [readAt_getElem? data inside, ← List.getElem?_drop, body.drop,
      List.getElem?_append_left (by rwa [leBytes_length]), leBytes_getElem?_of_lt field small]
  rw [name_eq fits (behind_entries written) named, decodeReplace, String.toList_ofList]
  exact ascii_mem_decodeChars (b := 0) (by decide) (List.mem_of_getElem? zero)

end Header

section Written
variable {g : Layout} {c : Content} {modelId : UInt32} {bitmap : List UInt8} {chunks : List (List UInt8)}
  {file : List UInt8} {limit : ℕ}

theorem metadataOut_length (c : Content) (modelId : UInt32) (bitmap : List UInt8) :
    (metadataOut c modelId bitmap).length = c.metadata.length + 2 := by
  rw [metadataOut, List.length_insertionSort, List.length_append, List.length_map]
  rfl

/-- Two keys are added. -/
theorem metadataOut_keys {key : String} (member : key ∈ (metadataOut c modelId bitmap).map Prod.fst) :
    key ∈ c.metadata.map Prod.fst ∨ key = "pleiades.model_id" ∨ key = "pleiades.layer_bitmap" := by
  obtain ⟨entry, written, rfl⟩ := List.mem_map.mp member
  rw [metadataOut, List.mem_insertionSort, List.mem_append] at written
  rcases written with kept | added
  · left
    obtain ⟨source, here, rfl⟩ := List.mem_map.mp kept
    exact List.mem_map.mpr ⟨source, here, rfl⟩
  · right
    simp only [List.mem_cons, List.not_mem_nil, or_false] at added
    rcases added with rfl | rfl
    · exact Or.inl rfl
    · exact Or.inr rfl

theorem written_eq (written : convert g c modelId bitmap chunks = some file) :
    ∃ rest, file = encodeCounts c.tensorInfos.length (c.metadata.length + 2) ++
      ((metadataOut c modelId bitmap).flatMap encodeEntry ++
        ((entriesFrom g 0 (sortedInfos c)).flatMap encodeInfo ++ rest)) := by
  have supported : c.Supported := by
    unfold convert at written
    split at written
    · next ops complete => exact supported_of_infoOps (prologueOps_complete (congrArg Prod.snd complete)).1
    · cases written
  rw [convert_supported supported, Option.some.injEq] at written
  rw [← written, frontOut, headerOut, encodeHeader, entriesFrom_length, sortedInfos_length, metadataOut_length]
  simp only [List.append_assoc]
  exact ⟨_, rfl⟩

/-- With the positions of the writer the file is read back. -/
theorem validated_at_written (written : convert g c modelId bitmap chunks = some file)
    (count : c.metadata.length + 2 < 256 ^ 8)
    (readable : ∀ entry ∈ metadataOut c modelId bitmap, entry.1.utf8ByteSize < 256 ^ 8 ∧ entry.2.Readable limit) :
    Validated g c modelId bitmap (parseAt file limit 16 24) := by
  obtain ⟨rest, whole⟩ := written_eq written
  have entries : ∀ entry ∈ metadataOut c modelId bitmap,
      Parses file (metadataEntry file limit) (encodeEntry entry) (entry.1, entry.2.toPy) :=
    fun entry member => metadataEntry_parses (readable entry member).1 (readable entry member).2
  have tensors : ∀ e ∈ entriesFrom g 0 (sortedInfos c),
      Parses file (tensorEntry file) (encodeInfo e) (e.name, pyTensor e.dims.reverse e.dtype e.offset) :=
    fun e member => tensorEntry_parses (written_fits g c e member)
  rw [parseAt_eq c.count_fits whole count (behind_entries whole)]
  apply validated_loops_iff.mpr
  refine ⟨_, _, ?_, ?_, ⟨_, _, Parses.calls entries (behind_body whole), Parses.calls tensors (behind_body whole).add⟩,
    fun _ => rfl, fun _ => rfl⟩
  · rw [List.length_map, metadataOut_length]
  · rw [List.length_map, entriesFrom_length, sortedInfos_length]

/-- Each entry takes twelve bytes. -/
theorem length_le_countedMetadata (metadata : List (String × Value)) :
    12 * metadata.length ≤ countedMetadata metadata := by
  induction metadata with
  | nil => exact Nat.zero_le _
  | cons entry metadata ih =>
      rw [countedMetadata, List.map_cons, List.sum_cons, ← countedMetadata, List.length_cons]
      omega

theorem long_of_listed (written : convert g c modelId bitmap chunks = some file)
    {entries : List (String × PyValue)} {tensors : List (String × PyTensor)}
    (count : entries.length = misreadCount c.tensorInfos.length (c.metadata.length + 2))
    (listed : Listed file limit 16 entries tensors) : 16 + 12 * 256 ^ 4 ≤ file.length := by
  obtain ⟨rest, whole⟩ := written_eq written
  obtain ⟨mid, stop, calls, _⟩ := listed
  unfold misreadCount at count
  by_cases low : (c.metadata.length + 2) % 256 ^ 4 = 0
  · -- so many entries that they alone are long enough
    have own := length_le_countedMetadata (metadataOut c modelId bitmap)
    have length := congrArg List.length whole
    rw [metadataOut_length] at own
    rw [List.length_append, List.length_append, encodeCounts_length, countedMetadata_length] at length
    omega
  · have some : entries ≠ [] := by
      rintro rfl
      rw [List.length_nil] at count
      omega
    have uses := Calls.uses (by decide) (metadataEntry_uses limit) calls some
    omega

theorem mem_keys_iff_of_same {entries : List (String × PyValue)}
    (same : ∀ key, (Table.insertAll ∅ entries).lookup key = (pyMetadata c modelId bitmap).lookup key) (key : String) :
    key ∈ entries.map Prod.fst ↔ key ∈ (metadataOut c modelId bitmap).map Prod.fst := by
  have here : key ∈ Table.insertAll ∅ entries ↔ key ∈ pyMetadata c modelId bitmap := by
    rw [← AList.lookup_isSome, same, AList.lookup_isSome]
  have none := AList.notMem_empty (β := fun _ => PyValue) key
  rwa [pyMetadata, Table.mem_insertAll, Table.mem_insertAll, List.map_map, or_iff_right none, or_iff_right none] at here

theorem ordinary_keys (ordinary : ∀ entry ∈ c.metadata, ¬ Strange entry.1) {key : String}
    (member : key ∈ (metadataOut c modelId bitmap).map Prod.fst) : ¬ Strange key := by
  have added : ∀ key ∈ ["pleiades.model_id", "pleiades.layer_bitmap"], ¬ Strange key := by
    unfold Strange
    decide
  rcases metadataOut_keys member with kept | new
  · obtain ⟨entry, source, rfl⟩ := List.mem_map.mp kept
    exact ordinary entry source
  · apply added key
    simpa using new

/-- The length of an ordinary first key has a zero byte inside the key that is read: the third
one, or the second where the metadata has only the two added keys. -/
theorem first_key_short {key : String} (ordinary : ∀ entry ∈ c.metadata, ¬ Strange entry.1)
    (member : key ∈ (metadataOut c modelId bitmap).map Prod.fst) :
    ∃ i, i < c.metadata.length + 2 ∧ i < 8 ∧ key.utf8ByteSize < 256 ^ i := by
  have added : ∀ key ∈ ["pleiades.model_id", "pleiades.layer_bitmap"], key.utf8ByteSize < 256 ^ 1 := by decide
  rcases metadataOut_keys member with kept | new
  · obtain ⟨entry, source, rfl⟩ := List.mem_map.mp kept
    have some := List.length_pos_of_mem source
    exact ⟨2, by omega, by decide, Nat.lt_of_not_le fun long => ordinary entry source (Or.inl long)⟩
  · refine ⟨1, by omega, by decide, added key ?_⟩
    simpa using new

theorem strange_of_listed (written : convert g c modelId bitmap chunks = some file)
    (fits : c.metadata.length + 2 < 256 ^ 8)
    {entries : List (String × PyValue)} {tensors : List (String × PyTensor)}
    (listed : Listed file limit 16 entries tensors)
    (same : ∀ key, (Table.insertAll ∅ entries).lookup key = (pyMetadata c modelId bitmap).lookup key) :
    ∃ entry ∈ c.metadata, Strange entry.1 := by
  by_contra none
  have ordinary : ∀ entry ∈ c.metadata, ¬ Strange entry.1 := fun entry member strange => none ⟨entry, member, strange⟩
  obtain ⟨rest, whole⟩ := written_eq written
  obtain ⟨mid, stop, calls, _⟩ := listed
  have length := metadataOut_length c modelId bitmap
  cases out : metadataOut c modelId bitmap with
  | nil =>
      rw [out] at length
      cases length
  | cons first others =>
      have member : first.1 ∈ (metadataOut c modelId bitmap).map Prod.fst := by
        rw [out]
        exact List.mem_cons_self
      obtain ⟨i, inside, field, small⟩ := first_key_short ordinary member
      rw [out, List.flatMap_cons, encodeEntry, ggufString] at whole
      simp only [List.append_assoc] at whole
      cases calls with
      | done => cases (mem_keys_iff_of_same same first.1).mpr member
      | step call later =>
          have zero := first_key_zero fits whole inside field small call
          exact ordinary_keys ordinary ((mem_keys_iff_of_same same _).mp List.mem_cons_self) (Or.inr zero)

/-- The positions are all that is wrong: at the writer's own the file is read back. At 12 and
16 it is read back exactly when it has 48 GiB, one of the keys of its metadata has a zero byte or
64 KiB, and there happen to be other entries from 16 on, of the misread number, that have the same
keys and values in the end, and the tensors behind them. -/
theorem parseGguf_validates_iff (written : convert g c modelId bitmap chunks = some file)
    (count : c.metadata.length + 2 < 256 ^ 8) (limit : ℕ) :
    ((∀ entry ∈ metadataOut c modelId bitmap, entry.1.utf8ByteSize < 256 ^ 8 ∧ entry.2.Readable limit) →
      Validated g c modelId bitmap (parseAt file limit 16 24)) ∧
    (Validated g c modelId bitmap (parseGguf file limit) ↔
      16 + 12 * 256 ^ 4 ≤ file.length ∧ (∃ entry ∈ c.metadata, Strange entry.1) ∧
      ∃ entries tensors, entries.length = misreadCount c.tensorInfos.length (c.metadata.length + 2) ∧
        tensors.length = c.tensorInfos.length ∧ Listed file limit 16 entries tensors ∧
        Agree g c modelId bitmap (Table.insertAll ∅ entries) (Table.insertAll ∅ tensors)) := by
  refine ⟨validated_at_written written count, ?_⟩
  obtain ⟨rest, whole⟩ := written_eq written
  rw [parseGguf_eq c.count_fits whole, validated_loops_iff]
  constructor
  · rintro ⟨entries, tensors, countE, countT, listed, agree⟩
    have long := long_of_listed written countE listed
    have strange := strange_of_listed written count listed agree.metadata
    exact ⟨long, strange, entries, tensors, countE, countT, listed, agree⟩
  · rintro ⟨_, _, again⟩
    exact again

end Written

/-- A model with two entries of metadata and one tensor. -/
def smallModel : Content where
  metadata := [("general.architecture", .string "llama"), ("tokenizer.ggml.tokens", .array [.string "a", .string "b"])]
  tensorInfos := [("token_embd.weight", scalarAt 0)]
  tensorDataOffset := 160
  keys_nodup := by decide
  names_nodup := by decide
  names_fit := by decide
  count_fits := by decide

def smallFile : List UInt8 :=
  frontOut ggmlLayout smallModel 7 (List.replicate 32 0) ++ [0, 0, 128, 63]

theorem smallFile_written : convert ggmlLayout smallModel 7 (List.replicate 32 0) [[0, 0, 128, 63]] = some smallFile := by
  apply convert_supported
  unfold Content.Supported
  decide

theorem smallModel_readable : ∀ entry ∈ metadataOut smallModel 7 (List.replicate 32 0),
    entry.1.utf8ByteSize < 256 ^ 8 ∧ entry.2.Readable 1000 := by
  have string : ∀ s : String, s.utf8ByteSize < 256 ^ 8 → (Value.string s).Readable 999 ∧ (Value.string s).Readable 1000 :=
    fun s small => ⟨small, small⟩
  have tokens : (Value.array [.string "a", .string "b"]).Readable 1000 := by
    constructor
    · decide
    · intro v member
      simp only [List.mem_cons, List.not_mem_nil, or_false] at member
      rcases member with rfl | rfl
      · exact ⟨rfl, (string "a" (by decide)).1⟩
      · exact ⟨rfl, (string "b" (by decide)).1⟩
  intro entry member
  rw [metadataOut, List.mem_insertionSort] at member
  simp only [smallModel, List.map_cons, List.map_nil, List.cons_append, List.nil_append, List.mem_cons,
    List.not_mem_nil, or_false] at member
  rcases member with rfl | rfl | rfl | rfl
  · exact ⟨by decide, (string _ (by decide)).2⟩
  · exact ⟨by decide, tokens⟩
  · exact ⟨by decide, trivial⟩
  · exact ⟨by decide, (string _ (by decide)).2⟩

theorem parseGguf_validates_iff_small :
    Validated ggmlLayout smallModel 7 (List.replicate 32 0) (parseAt smallFile 1000 16 24) ∧
      ¬ Validated ggmlLayout smallModel 7 (List.replicate 32 0) (parseGguf smallFile 1000) := by
  obtain ⟨own, misread⟩ := parseGguf_validates_iff smallFile_written (by decide) 1000
  refine ⟨own smallModel_readable, fun validated => ?_⟩
  have long := (misread.mp validated).1
  have short : smallFile.length < 400 := by decide +kernel
  omega

/-- The first key is the low half of its own length and the type the high half. Its value is
the first character, and the length of the next key the eight that follow. -/
theorem parseGguf_validates_counterexample :
    convert ggmlLayout smallModel 7 (List.replicate 32 0) [[0, 0, 128, 63]] = some smallFile ∧
      (parseGguf smallFile 1000).map Parsed.errs = .ok ["metadata key: unexpected EOF at offset 41"] ∧
      ¬ Validated ggmlLayout smallModel 7 (List.replicate 32 0) (parseGguf smallFile 1000) := by
  have failed : (parseGguf smallFile 1000).map Parsed.errs = .ok ["metadata key: unexpected EOF at offset 41"] := by
    decide +kernel
  refine ⟨smallFile_written, failed, ?_⟩
  rintro ⟨metadata, tensorInfos, clean, _⟩
  rw [clean] at failed
  cases failed

end Pleiades.Gguf
