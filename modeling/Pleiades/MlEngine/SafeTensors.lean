import Pleiades.Lib.Run
import Pleiades.Lib.Table
import Pleiades.MlEngine.LuaTensor
import Pleiades.MlEngine.SparseAttention

/-!
# Shards of safetensors

A shard is `[header length 8B LE][header, in JSON][data]`, and the header tells where in the data
each tensor lies. A `usize` has 64 bits and wraps.
-/
namespace Pleiades.MlEngine.DeepSeekV4

open Lib

/-- `serde_json::Value`, a number with what `as_u64` gives of it. -/
inductive Value where
  | null
  | bool (b : Bool)
  | number (asU64 : Option UInt64)
  | string (s : String)
  | array (vs : List Value)
  | object (fields : List (String × Value))

namespace Value

def get (v : Value) (key : String) : Option Value :=
  match v with
  | object fields => fields.lookup key
  | _ => none

def asStr : Value → Option String
  | string s => some s
  | _ => none

def asArray : Value → Option (List Value)
  | array vs => some vs
  | _ => none

def asU64 : Value → Option UInt64
  | number n => n
  | _ => none

end Value

structure TensorInfo where
  dtype : String
  shape : List UInt64
  beginAt : ℕ
  endAt : ℕ
  deriving DecidableEq

structure SafeTensors where
  data : Slice
  tensors : Table String TensorInfo

def required {α : Type} (found : Option α) (text : String) : Except Refused α := found.elim (.error (.message text)) .ok

/-- What a member of the header says of its tensor. -/
def tensorInfo (dataStart size : ℕ) (name : String) (v : Value) : Except Refused TensorInfo := do
  let dtype ← required ((v.get "dtype").bind Value.asStr) s!"{name}: missing dtype"
  let dims ← required ((v.get "shape").bind Value.asArray) s!"{name}: missing shape"
  let shape ← dims.mapM fun d => required d.asU64 s!"{name}: non-integer shape dim"
  let offs ← required ((v.get "data_offsets").bind Value.asArray) s!"{name}: missing data_offsets"
  match offs with
  | [rb, re] =>
    let rb ← required rb.asU64 s!"{name}: bad data_offset"
    let re ← required re.asU64 s!"{name}: bad data_offset"
    let beginAt := (dataStart + rb.toNat) % 2 ^ 64
    let endAt := (dataStart + re.toNat) % 2 ^ 64
    if beginAt ≤ endAt ∧ endAt ≤ size then .ok ⟨dtype, shape, beginAt, endAt⟩
    else .error (.message s!"{name}: data_offsets out of range")
  | _ => .error (.message s!"{name}: data_offsets must have 2 entries")

section Parse
variable (fromSlice : List UInt8 → Except String Value) (buf : Slice)

/-- The loop over the members of the header. -/
def readMembers (dataStart : ℕ) (members : List (String × Value)) : Except Refused (Table String TensorInfo) :=
  members.foldlM (fun tensors member =>
    if member.1 = "__metadata__" then .ok tensors
    else (tensorInfo dataStart buf.bytes.length member.1 member.2).map fun info => tensors.insert member.1 info) ∅

def parseHeader : Except Refused (Table String TensorInfo) :=
  if buf.bytes.length < 8 then .error (.message "file too small for a safetensors header")
  else
    let dataStart := (8 + leNat (buf.bytes.take 8)) % 2 ^ 64
    if buf.bytes.length < dataStart then .error (.message "header length exceeds file size")
    else if dataStart < 8 then .error .panic
    else
      match fromSlice (readAt buf.bytes 8 (dataStart - 8)) with
      | .error e => .error (.message e)
      | .ok (.object members) => readMembers buf dataStart members
      | .ok _ => .error (.message "header is not a JSON object")

def SafeTensors.fromBytes : Except Refused SafeTensors := (parseHeader fromSlice buf).map (SafeTensors.mk buf)

end Parse

namespace SafeTensors

variable (st : SafeTensors) (name : String)

def info : Option TensorInfo := st.tensors.lookup name

/-- The bytes of a tensor, `data[begin..end]`. -/
def raw : Except Refused (List UInt8) :=
  match st.info name with
  | none => .error (.message s!"tensor not found: {name}")
  | some info =>
    if info.beginAt ≤ info.endAt ∧ info.endAt ≤ st.data.bytes.length then
      .ok (readAt st.data.bytes info.beginAt (info.endAt - info.beginAt))
    else .error .panic

end SafeTensors

/-! What is accepted can be read. -/

section Refusals
variable {α β : Type} {P : Refused → Prop}

/-- The rule for the errors of a sequence of computations. -/
theorem bind_refused {x : Except Refused α} {f : α → Except Refused β} (first : ∀ e, x = .error e → P e)
    (later : ∀ a e, f a = .error e → P e) : ∀ e, x.bind f = .error e → P e := by
  intro e failed
  cases given : x with
  | error e' =>
      rw [given] at failed
      exact Except.error.inj failed ▸ first e' given
  | ok a =>
      rw [given] at failed
      exact later a e failed

theorem required_refused {found : Option α} {text : String} : ∀ e, required found text = .error e → e ≠ .panic := by
  intro e failed
  cases found with
  | none => exact Except.error.inj failed ▸ nofun
  | some a => cases failed

end Refusals

theorem tensorInfo_refused {dataStart size : ℕ} {name : String} {v : Value} :
    ∀ e, tensorInfo dataStart size name v = .error e → e ≠ .panic := by
  refine bind_refused required_refused fun dtype => bind_refused required_refused fun dims => ?_
  refine bind_refused ?_ fun shape => bind_refused required_refused fun offs => ?_
  · intro e failed
    obtain ⟨d, -, failed⟩ := mem_of_mapM_error failed
    exact required_refused e failed
  · intro e failed
    split at failed
    · refine bind_refused (P := (· ≠ .panic)) required_refused (fun rb => ?_) e failed
      refine bind_refused required_refused fun re e failed => ?_
      dsimp only at failed
      split at failed
      · cases failed
      · exact Except.error.inj failed ▸ nofun
    · exact Except.error.inj failed ▸ nofun

theorem tensorInfo_within {dataStart size : ℕ} {name : String} {v : Value} {info : TensorInfo}
    (told : tensorInfo dataStart size name v = .ok info) : info.beginAt ≤ info.endAt ∧ info.endAt ≤ size := by
  obtain ⟨dtype, -, told⟩ := bind_ok told
  obtain ⟨dims, -, told⟩ := bind_ok told
  obtain ⟨shape, -, told⟩ := bind_ok told
  obtain ⟨offs, -, told⟩ := bind_ok told
  split at told
  · obtain ⟨rb, -, told⟩ := bind_ok told
    obtain ⟨re, -, told⟩ := bind_ok told
    dsimp only at told
    split at told
    · next within =>
        cases told
        exact within
    · cases told
  · cases told

variable {fromSlice : List UInt8 → Except String Value} {buf : Slice}

theorem readMembers_refused {dataStart : ℕ} {members : List (String × Value)} :
    ∀ e, readMembers buf dataStart members = .error e → e ≠ .panic := by
  intro e failed
  obtain ⟨member, -, tensors, -, failed⟩ := foldlM_error (P := fun _ => True) failed trivial fun _ _ _ => trivial
  split at failed
  · cases failed
  · cases told : tensorInfo dataStart buf.bytes.length member.1 member.2 with
    | error e' =>
        rw [told] at failed
        exact Except.error.inj failed ▸ tensorInfo_refused e' told
    | ok info =>
        rw [told] at failed
        cases failed

/-- The parser panics exactly on a header length that wraps. -/
theorem parseHeader_panics_iff : parseHeader fromSlice buf = .error .panic ↔
    8 ≤ buf.bytes.length ∧ 2 ^ 64 ≤ 8 + leNat (buf.bytes.take 8) := by
  have bound := leNat_lt (buf.bytes.take 8)
  rw [parseHeader]
  split
  · next short => exact iff_of_false nofun (by omega)
  · next long =>
      rw [List.length_take_of_le (by omega)] at bound
      dsimp only
      split
      · exact iff_of_false nofun (by omega)
      · split
        · exact iff_of_true rfl (by omega)
        · refine iff_of_false ?_ (by omega)
          split
          · nofun
          · exact fun failed => readMembers_refused _ failed rfl
          · nofun

/-- Every tensor of a shard lies within it. -/
def SafeTensors.Within (st : SafeTensors) : Prop :=
  ∀ name info, st.info name = some info → info.beginAt ≤ info.endAt ∧ info.endAt ≤ st.data.bytes.length

theorem readMembers_within {dataStart : ℕ} {members : List (String × Value)} {tensors : Table String TensorInfo}
    (read : readMembers buf dataStart members = .ok tensors) : SafeTensors.Within ⟨buf, tensors⟩ := by
  refine foldlM_ok (P := fun _ tensors => SafeTensors.Within ⟨buf, tensors⟩) read nofun ?_
  intro done member tensors tensors' _ within round name info found
  split at round
  · cases round
    exact within name info found
  · cases told : tensorInfo dataStart buf.bytes.length member.1 member.2 with
    | error e => rw [told] at round; cases round
    | ok info' =>
        rw [told] at round
        cases round
        rcases Table.lookup_insert_eq_some found with ⟨-, rfl⟩ | ⟨-, found⟩
        · exact tensorInfo_within told
        · exact within name info found

theorem parseHeader_within {tensors : Table String TensorInfo} (parsed : parseHeader fromSlice buf = .ok tensors) :
    SafeTensors.Within ⟨buf, tensors⟩ := by
  rw [parseHeader] at parsed
  split at parsed
  · cases parsed
  · dsimp only at parsed
    split at parsed
    · cases parsed
    · split at parsed
      · cases parsed
      · split at parsed
        · cases parsed
        · exact readMembers_within parsed
        · cases parsed

namespace SafeTensors

variable {st : SafeTensors} {name : String}

theorem of_fromBytes (accepted : fromBytes fromSlice buf = .ok st) : st.Within ∧ st.data = buf := by
  rw [fromBytes] at accepted
  cases parsed : parseHeader fromSlice buf with
  | error e => rw [parsed] at accepted; cases accepted
  | ok tensors =>
      rw [parsed] at accepted
      cases accepted
      exact ⟨parseHeader_within parsed, rfl⟩

theorem Within.raw_eq (within : st.Within) : st.raw name =
    (st.info name).elim (.error (.message s!"tensor not found: {name}"))
      fun info => .ok (readAt st.data.bytes info.beginAt (info.endAt - info.beginAt)) := by
  rw [raw]
  cases found : st.info name with
  | none => rfl
  | some info => exact if_pos (within name info found)

/-- A shard panics on the way in exactly if the length of its header wraps, and once it is accepted each of its
tensors is a part of the file with as many bytes as its offsets say. -/
theorem fromBytes_safe (fromSlice : List UInt8 → Except String Value) (buf : Slice) :
    (fromBytes fromSlice buf = .error .panic ↔ 8 ≤ buf.bytes.length ∧ 2 ^ 64 ≤ 8 + leNat (buf.bytes.take 8)) ∧
    ∀ st, fromBytes fromSlice buf = .ok st → ∀ name info, st.info name = some info →
      ∃ front bytes back, buf.bytes = front ++ bytes ++ back ∧ front.length = info.beginAt ∧
        front.length + bytes.length = info.endAt ∧ st.raw name = .ok bytes := by
  constructor
  · have header : parseHeader fromSlice buf = .error .panic ↔ _ := parseHeader_panics_iff
    rw [← header, fromBytes]
    cases parseHeader fromSlice buf with
    | error e => simp [Except.map]
    | ok tensors => simp [Except.map]
  · intro st accepted name info found
    obtain ⟨within, rfl⟩ := of_fromBytes accepted
    obtain ⟨ordered, inside⟩ := within name info found
    refine ⟨st.data.bytes.take info.beginAt, readAt st.data.bytes info.beginAt (info.endAt - info.beginAt),
      st.data.bytes.drop info.endAt, ?_, ?_, ?_, ?_⟩
    · have behind : st.data.bytes.drop info.endAt =
          (st.data.bytes.drop info.beginAt).drop (info.endAt - info.beginAt) := by
        rw [List.drop_drop, Nat.add_sub_of_le ordered]
      rw [List.append_assoc, readAt, behind, List.take_append_drop, List.take_append_drop]
    · rw [List.length_take]
      omega
    · rw [List.length_take, readAt, List.length_take, List.length_drop]
      omega
    · rw [within.raw_eq, found]
      rfl

end SafeTensors

/-! What is written is read. -/

/-- A tensor on its way into a shard. -/
structure Stored where
  name : String
  dtype : String
  shape : List UInt64
  bytes : List UInt8
  deriving DecidableEq

/-- What the header says of a tensor that is put at a position of the data. -/
structure Value.Describes (v : Value) (s : Stored) (pos : ℕ) : Prop where
  dtype : v.get "dtype" = some (.string s.dtype)
  shape : v.get "shape" = some (.array (s.shape.map fun d => .number (some d)))
  offsets : v.get "data_offsets" =
    some (.array [.number (some (.ofNat pos)), .number (some (.ofNat (pos + s.bytes.length)))])

/-- The tensors with their positions, one behind the other. -/
def placed : ℕ → List Stored → List (Stored × ℕ)
  | _, [] => []
  | pos, s :: rest => (s, pos) :: placed (pos + s.bytes.length) rest

def payload (entries : List Stored) : List UInt8 := entries.flatMap Stored.bytes

/-- A shard of some tensors: the members of its header describe them and no others, in any order. -/
structure Written (fromSlice : List UInt8 → Except String Value) (buf : Slice) (entries : List Stored)
    (header : List UInt8) (members : List (String × Value)) : Prop where
  bytes : buf.bytes = leBytes 8 header.length ++ header ++ payload entries
  parsed : fromSlice header = .ok (.object members)
  keys : (members.map Prod.fst).Nodup
  described : ∀ p ∈ placed 0 entries, ∃ v, (p.1.name, v) ∈ members ∧ v.Describes p.1 p.2
  others : ∀ member ∈ members, member.1 = "__metadata__" ∨ member.1 ∈ entries.map Stored.name
  names : (entries.map Stored.name).Nodup
  plain : "__metadata__" ∉ entries.map Stored.name

theorem mem_placed {entries : List Stored} {start : ℕ} {s : Stored} (member : s ∈ entries) :
    ∃ pos, (s, pos) ∈ placed start entries := by
  induction entries generalizing start with
  | nil => cases member
  | cons first entries ih =>
      rcases List.mem_cons.mp member with rfl | later
      · exact ⟨start, List.mem_cons_self⟩
      · exact (ih later).imp fun pos there => List.mem_cons_of_mem _ there

/-- In front of a tensor lie those before it. -/
theorem placed_split {entries : List Stored} {start : ℕ} {p : Stored × ℕ} (member : p ∈ placed start entries) :
    ∃ front back, entries = front ++ p.1 :: back ∧ p.2 = start + (payload front).length := by
  induction entries generalizing start with
  | nil => cases member
  | cons first entries ih =>
      rcases List.mem_cons.mp member with rfl | later
      · exact ⟨[], entries, rfl, rfl⟩
      · obtain ⟨front, back, whole, position⟩ := ih later
        refine ⟨first :: front, back, congrArg (first :: ·) whole, ?_⟩
        rw [position, payload, payload, List.flatMap_cons, List.length_append, Nat.add_assoc]

/-- The members of a plain header. -/
def describe : ℕ → List Stored → List (String × Value)
  | _, [] => []
  | pos, s :: rest =>
    (s.name, .object [("data_offsets",
        .array [.number (some (.ofNat pos)), .number (some (.ofNat (pos + s.bytes.length)))]),
      ("dtype", .string s.dtype), ("shape", .array (s.shape.map fun d => .number (some d)))]) ::
    describe (pos + s.bytes.length) rest

theorem describe_keys (pos : ℕ) (entries : List Stored) :
    (describe pos entries).map Prod.fst = entries.map Stored.name := by
  induction entries generalizing pos with
  | nil => rfl
  | cons s entries ih => rw [describe, List.map_cons, List.map_cons, ih]

theorem describe_describes {pos : ℕ} {entries : List Stored} {p : Stored × ℕ} (member : p ∈ placed pos entries) :
    ∃ v, (p.1.name, v) ∈ describe pos entries ∧ v.Describes p.1 p.2 := by
  induction entries generalizing pos with
  | nil => cases member
  | cons s entries ih =>
      rcases List.mem_cons.mp member with rfl | later
      · exact ⟨_, List.mem_cons_self, rfl, rfl, rfl⟩
      · obtain ⟨v, there, describes⟩ := ih later
        exact ⟨v, List.mem_cons_of_mem _ there, describes⟩

/-- A shard with a plain header, if the library reads the header. -/
theorem Written.plain_header {entries : List Stored} {header : List UInt8}
    (bytes : buf.bytes = leBytes 8 header.length ++ header ++ payload entries)
    (parsed : fromSlice header = .ok (.object (describe 0 entries))) (names : (entries.map Stored.name).Nodup)
    (plain : "__metadata__" ∉ entries.map Stored.name) : Written fromSlice buf entries header (describe 0 entries) where
  bytes := bytes
  parsed := parsed
  keys := by rwa [describe_keys]
  described _ member := describe_describes member
  others member among := .inr (describe_keys 0 entries ▸ List.mem_map_of_mem among)
  names := names
  plain := plain

/-- A library that knows some texts. -/
def knows (texts : List (List UInt8 × List Stored)) (bytes : List UInt8) : Except String Value :=
  (texts.lookup bytes).elim (.error "expected value") fun entries => .ok (.object (describe 0 entries))

def shardBytes (header : List UInt8) (entries : List Stored) : List UInt8 :=
  leBytes 8 header.length ++ header ++ payload entries

namespace Written

variable {entries : List Stored} {header : List UInt8} {members : List (String × Value)}

theorem length (written : Written fromSlice buf entries header members) :
    buf.bytes.length = 8 + header.length + (payload entries).length := by
  rw [written.bytes, List.length_append, List.length_append, leBytes_length]

theorem dataStart (written : Written fromSlice buf entries header members) :
    (8 + leNat (buf.bytes.take 8)) % 2 ^ 64 = 8 + header.length := by
  have length := written.length
  have bound := buf.bound
  have first : buf.bytes.take 8 = leBytes 8 header.length := by
    rw [written.bytes, List.append_assoc, List.take_left' (leBytes_length 8 _)]
  rw [first, leNat_leBytes, Nat.mod_eq_of_lt (show header.length < 256 ^ 8 by omega), Nat.mod_eq_of_lt (by omega)]

theorem header_eq (written : Written fromSlice buf entries header members) :
    readAt buf.bytes 8 header.length = header := by
  have behind := readAt_append_right (leBytes 8 header.length) (header ++ payload entries) 0 header.length
  rw [leBytes_length, Nat.add_zero] at behind
  rw [written.bytes, List.append_assoc, behind, readAt, List.drop_zero, List.take_left]

/-- Where a tensor lies in the file. -/
theorem place (written : Written fromSlice buf entries header members) {p : Stored × ℕ}
    (member : p ∈ placed 0 entries) :
    8 + header.length + p.2 + p.1.bytes.length ≤ buf.bytes.length ∧
      readAt buf.bytes (8 + header.length + p.2) p.1.bytes.length = p.1.bytes := by
  obtain ⟨front, back, whole, position⟩ := placed_split member
  have split : payload entries = payload front ++ (p.1.bytes ++ payload back) := by
    rw [whole, payload, List.flatMap_append, List.flatMap_cons]
    rfl
  constructor
  · rw [written.length, split, List.length_append, List.length_append, position]
    omega
  · have here := readAt_append_right (leBytes 8 header.length ++ header ++ payload front) (p.1.bytes ++ payload back)
      0 p.1.bytes.length
    rw [List.length_append, List.length_append, leBytes_length, Nat.add_zero] at here
    rw [written.bytes, split, position, Nat.zero_add, ← List.append_assoc, here, readAt, List.drop_zero, List.take_left]

/-- What the parser takes from a member. -/
theorem told (written : Written fromSlice buf entries header members) {p : Stored × ℕ} {v : Value}
    (member : p ∈ placed 0 entries) (describes : v.Describes p.1 p.2) :
    tensorInfo (8 + header.length) buf.bytes.length p.1.name v =
      .ok ⟨p.1.dtype, p.1.shape, 8 + header.length + p.2, 8 + header.length + p.2 + p.1.bytes.length⟩ := by
  obtain ⟨inside, -⟩ := written.place member
  have bound := buf.bound
  have dims : ((p.1.shape.map fun d => Value.number (some d)).mapM fun d =>
      required d.asU64 s!"{p.1.name}: non-integer shape dim") = .ok p.1.shape := by
    rw [mapM_forall₂, List.forall₂_map_left_iff, List.forall₂_same]
    exact fun d _ => rfl
  have begins : (8 + header.length + (UInt64.ofNat p.2).toNat) % 2 ^ 64 = 8 + header.length + p.2 := by
    rw [UInt64.toNat_ofNat', Nat.mod_eq_of_lt (show p.2 < 2 ^ 64 by omega), Nat.mod_eq_of_lt (by omega)]
  have ends : (8 + header.length + (UInt64.ofNat (p.2 + p.1.bytes.length)).toNat) % 2 ^ 64 =
      8 + header.length + p.2 + p.1.bytes.length := by
    rw [UInt64.toNat_ofNat', Nat.mod_eq_of_lt (show p.2 + p.1.bytes.length < 2 ^ 64 by omega),
      Nat.mod_eq_of_lt (by omega), ← Nat.add_assoc]
  have fits : 8 + header.length + p.2 ≤ 8 + header.length + p.2 + p.1.bytes.length ∧
      8 + header.length + p.2 + p.1.bytes.length ≤ buf.bytes.length := ⟨Nat.le_add_right .., inside⟩
  rw [tensorInfo, describes.dtype, describes.shape, describes.offsets]
  simp only [Option.bind_some, Value.asStr, Value.asArray, required, Option.elim_some, bind, Except.bind]
  rw [show ((p.1.shape.map fun d => Value.number (some d)).mapM fun d =>
    Option.elim d.asU64 (Except.error (Refused.message s!"{p.1.name}: non-integer shape dim")) Except.ok) =
      .ok p.1.shape by exact dims]
  simp only [Value.asU64, Option.elim_some, begins, ends, if_pos fits]

/-- Each member that is no metadata describes the tensor of its name. -/
theorem describes (written : Written fromSlice buf entries header members) {member : String × Value}
    (among : member ∈ members) (tensor : member.1 ≠ "__metadata__") :
    ∃ p ∈ placed 0 entries, member.1 = p.1.name ∧ member.2.Describes p.1 p.2 := by
  obtain ⟨s, stored, name⟩ := List.mem_map.mp ((written.others member among).resolve_left tensor)
  obtain ⟨pos, there⟩ : ∃ pos, (s, pos) ∈ placed 0 entries := mem_placed stored
  obtain ⟨v, described, describes⟩ := written.described _ there
  have same : member = (s.name, v) := List.inj_on_of_nodup_map written.keys among described name.symm
  exact ⟨(s, pos), there, name.symm, same ▸ describes⟩

end Written

namespace SafeTensors

/-- A shard with some tensors in it, and no others. -/
structure Holds (st : SafeTensors) (entries : List Stored) : Prop where
  each : ∀ s ∈ entries, st.raw s.name = .ok s.bytes ∧
    ∃ info, st.info s.name = some info ∧ info.dtype = s.dtype ∧ info.shape = s.shape
  others : ∀ name, name ∉ entries.map Stored.name → st.info name = none

variable {entries : List Stored} {header : List UInt8} {members : List (String × Value)}

/-- What has been read of the members so far. -/
def Reads (size start : ℕ) (done : List (String × Value)) (tensors : Table String TensorInfo) : Prop :=
  ∀ name info, tensors.lookup name = some info ↔
    name ≠ "__metadata__" ∧ ∃ v, (name, v) ∈ done ∧ tensorInfo start size name v = .ok info

theorem readMembers_reads (written : Written fromSlice buf entries header members) :
    ∃ tensors, readMembers buf (8 + header.length) members = .ok tensors ∧
      Reads buf.bytes.length (8 + header.length) members tensors := by
  have unique {name : String} {v w : Value} (here : (name, v) ∈ members) (there : (name, w) ∈ members) : v = w :=
    congrArg Prod.snd (List.inj_on_of_nodup_map written.keys here there rfl)
  suffices loop : ∃ tensors, readMembers buf (8 + header.length) members = .ok tensors ∧
      members ⊆ members ∧ Reads buf.bytes.length (8 + header.length) members tensors by
    obtain ⟨tensors, read, -, reads⟩ := loop
    exact ⟨tensors, read, reads⟩
  refine foldlM_succeeds
    (P := fun done tensors => done ⊆ members ∧ Reads buf.bytes.length (8 + header.length) done tensors)
    ⟨List.nil_subset _, fun name info => by simp⟩ ?_
  rintro done member tensors among ⟨before, reads⟩
  have grown : done ++ [member] ⊆ members := List.append_subset.mpr ⟨before, by simpa⟩
  by_cases skipped : member.1 = "__metadata__"
  · refine ⟨tensors, if_pos skipped, grown, fun name info => ?_⟩
    rw [reads]
    refine and_congr_right fun tensor => exists_congr fun v => and_congr_left fun _ => ?_
    rw [List.mem_append, List.mem_singleton]
    exact ⟨.inl, fun here => here.resolve_right fun same => tensor ((congrArg Prod.fst same).trans skipped)⟩
  · obtain ⟨p, there, named, describes⟩ := written.describes among skipped
    have told := written.told there describes
    rw [← named] at told
    refine ⟨_, by rw [if_neg skipped, told]; rfl, grown, fun name info => ?_⟩
    by_cases here : name = member.1
    · subst here
      rw [AList.lookup_insert]
      constructor
      · intro found
        exact ⟨skipped, member.2, List.mem_append_right _ List.mem_cons_self,
          told.trans (congrArg _ (Option.some.inj found))⟩
      · rintro ⟨-, v, listed, read⟩
        rw [unique (grown listed) among, told] at read
        exact congrArg some (Except.ok.inj read)
    · rw [AList.lookup_insert_ne here, reads]
      refine and_congr_right fun tensor => exists_congr fun v => and_congr_left fun _ => ?_
      rw [List.mem_append, List.mem_singleton]
      exact ⟨.inl, fun listed => listed.resolve_right fun same => here (congrArg Prod.fst same)⟩

/-- A written shard is read back: its tensors with their types, shapes and bytes, and no others. -/
theorem fromBytes_written (written : Written fromSlice buf entries header members) :
    ∃ st, fromBytes fromSlice buf = .ok st ∧ st.Holds entries := by
  obtain ⟨tensors, read, reads⟩ := readMembers_reads written
  have length := written.length
  have parsed : parseHeader fromSlice buf = .ok tensors := by
    rw [parseHeader, if_neg (by omega)]
    dsimp only
    rw [written.dataStart, if_neg (by omega), if_neg (by omega), Nat.add_sub_cancel_left, written.header_eq,
      written.parsed]
    exact read
  have accepted : fromBytes fromSlice buf = .ok ⟨buf, tensors⟩ := by
    rw [fromBytes, parsed]
    rfl
  refine ⟨_, accepted, ⟨fun s stored => ?_, fun name absent => ?_⟩⟩
  · obtain ⟨pos, there⟩ : ∃ pos, (s, pos) ∈ placed 0 entries := mem_placed stored
    obtain ⟨v, listed, describes⟩ := written.described _ there
    have tensor : s.name ≠ "__metadata__" := fun same => written.plain (same ▸ List.mem_map_of_mem stored)
    have found : info ⟨buf, tensors⟩ s.name = some _ :=
      (reads s.name _).mpr ⟨tensor, v, listed, written.told there describes⟩
    refine ⟨?_, _, found, rfl, rfl⟩
    rw [(of_fromBytes accepted).1.raw_eq, found]
    exact congrArg Except.ok (by simpa using (written.place there).2)
  · apply Option.eq_none_iff_forall_ne_some.mpr
    intro info found
    obtain ⟨tensor, v, listed, -⟩ := (reads name info).mp found
    exact (written.others _ listed).elim tensor absent

end SafeTensors

end Pleiades.MlEngine.DeepSeekV4
