import Pleiades.Lib.Run
import Pleiades.Lib.Table
import Pleiades.Lib.Text

/-!
# Commands between nodes

The text protocol of `command.rs`, and the way a script started on a remote node
takes from the user's command to the program there.
-/
namespace Pleiades.Orchestrator

open Lib

inductive NetworkProtocol where
  | establishTensorStream (inferenceId : UInt64) (targetPeerId : String)
  | joinPipeline (inferenceId : UInt64) (modelFileId device : String) (layerStart layerEnd : UInt64)
  | profileRequest (modelId : String) (layerCount : UInt32) (device : String)
  | execRemote (command paramsJson : String)
  deriving DecidableEq, Repr

namespace NetworkProtocol

def text : NetworkProtocol → String
  | establishTensorStream inferenceId targetPeerId =>
      s!"ESTABLISH_TENSOR_STREAM|{inferenceId}|{targetPeerId}"
  | joinPipeline inferenceId modelFileId device layerStart layerEnd =>
      s!"JOIN_PIPELINE|{inferenceId}|{modelFileId}|{device}|{layerStart}|{layerEnd}"
  | profileRequest modelId layerCount device => s!"PROFILE|{modelId}|{layerCount}|{device}"
  | execRemote command paramsJson => s!"EXEC|{command}|{paramsJson}"

end NetworkProtocol

/-- `Serialize_Network_Command`. -/
def serializeNetworkCommand (cmd : NetworkProtocol) : List UInt8 := utf8 cmd.text

/-- A number field; `width` is the size of its type in bits. -/
def parseField (field : String) (width : ℕ) (text : String) : Except String ℕ :=
  (parseNat (2 ^ width) text.toList).mapError fun e => s!"{field} 解析失败: {e}"

def parseEstablish : List String → Except String NetworkProtocol
  | [inferenceId, targetPeerId] => do
    let inferenceId ← parseField "inference_id" 64 inferenceId
    .ok (.establishTensorStream (UInt64.ofNat inferenceId) targetPeerId)
  | fields => .error (s!"ESTABLISH_TENSOR_STREAM 格式错误: 需要 3 个字段, 实际 {fields.length + 1}. " ++
      "格式: ESTABLISH_TENSOR_STREAM|inference_id|target_peer_id")

def parseJoin : List String → Except String NetworkProtocol
  | [inferenceId, modelFileId, device, layerStart, layerEnd] => do
    let inferenceId ← parseField "inference_id" 64 inferenceId
    let layerStart ← parseField "layer_start" 64 layerStart
    let layerEnd ← parseField "layer_end" 64 layerEnd
    .ok (.joinPipeline (UInt64.ofNat inferenceId) modelFileId device (UInt64.ofNat layerStart)
      (UInt64.ofNat layerEnd))
  | fields => .error (s!"JOIN_PIPELINE 格式错误: 需要 6 个字段, 实际 {fields.length + 1}. " ++
      "格式: JOIN_PIPELINE|inference_id|model_file_id|device|layer_start|layer_end")

def parseProfile : List String → Except String NetworkProtocol
  | [modelId, layerCount, device] => do
    let layerCount ← parseField "layer_count" 32 layerCount
    .ok (.profileRequest modelId (UInt32.ofNat layerCount) device)
  | fields => .error (s!"PROFILE 格式错误: 需要 4 个字段, 实际 {fields.length + 1}. " ++
      "格式: PROFILE|model_id|layer_count|device")

def parseExec : List String → Except String NetworkProtocol
  | [command, paramsJson] => .ok (.execRemote command paramsJson)
  | fields => .error (s!"EXEC 格式错误: 需要 3 个字段, 实际 {fields.length + 1}. " ++
      "格式: EXEC|command|params_json")

def parseParts : List String → Except String NetworkProtocol
  | [] => .error "空 payload"
  | kind :: fields =>
    if kind = "ESTABLISH_TENSOR_STREAM" then parseEstablish fields
    else if kind = "JOIN_PIPELINE" then parseJoin fields
    else if kind = "PROFILE" then parseProfile fields
    else if kind = "EXEC" then parseExec fields
    else .error s!"未知命令前缀: '{kind}'"

/-- `Parse_Network_Command`. -/
def parseNetworkCommand (payload : List UInt8) : Except String NetworkProtocol :=
  match ofUtf8 payload with
  | none => .error "payload 非 UTF-8"
  | some text => parseParts ((text.toList.splitOn '|').map String.ofList)

namespace NetworkProtocol

/-- The fields between the separators. -/
def fields : NetworkProtocol → List String
  | establishTensorStream inferenceId targetPeerId =>
      ["ESTABLISH_TENSOR_STREAM", inferenceId.toNat.repr, targetPeerId]
  | joinPipeline inferenceId modelFileId device layerStart layerEnd =>
      ["JOIN_PIPELINE", inferenceId.toNat.repr, modelFileId, device, layerStart.toNat.repr,
        layerEnd.toNat.repr]
  | profileRequest modelId layerCount device => ["PROFILE", modelId, layerCount.toNat.repr, device]
  | execRemote command paramsJson => ["EXEC", command, paramsJson]

/-- The fields that are texts. -/
def texts : NetworkProtocol → List String
  | establishTensorStream _ targetPeerId => [targetPeerId]
  | joinPipeline _ modelFileId device _ _ => [modelFileId, device]
  | profileRequest modelId _ device => [modelId, device]
  | execRemote command paramsJson => [command, paramsJson]

/-- No text field has a separator in it. -/
def Plain (cmd : NetworkProtocol) : Prop := ∀ field ∈ cmd.texts, '|' ∉ field.toList

theorem text_eq (cmd : NetworkProtocol) : cmd.text = "|".intercalate cmd.fields := by
  cases cmd with
  | establishTensorStream inferenceId targetPeerId =>
      have kind : "ESTABLISH_TENSOR_STREAM|" = "ESTABLISH_TENSOR_STREAM" ++ "|" := by decide
      change "ESTABLISH_TENSOR_STREAM|" ++ inferenceId.toNat.repr ++ "|" ++ targetPeerId = _
      rw [kind]
      rfl
  | joinPipeline inferenceId modelFileId device layerStart layerEnd =>
      have kind : "JOIN_PIPELINE|" = "JOIN_PIPELINE" ++ "|" := by decide
      change "JOIN_PIPELINE|" ++ inferenceId.toNat.repr ++ "|" ++ modelFileId ++ "|" ++ device ++ "|" ++
        layerStart.toNat.repr ++ "|" ++ layerEnd.toNat.repr = _
      rw [kind]
      rfl
  | profileRequest modelId layerCount device =>
      have kind : "PROFILE|" = "PROFILE" ++ "|" := by decide
      change "PROFILE|" ++ modelId ++ "|" ++ layerCount.toNat.repr ++ "|" ++ device = _
      rw [kind]
      rfl
  | execRemote command paramsJson =>
      have kind : "EXEC|" = "EXEC" ++ "|" := by decide
      change "EXEC|" ++ command ++ "|" ++ paramsJson = _
      rw [kind]
      rfl

theorem plain_iff (cmd : NetworkProtocol) : cmd.Plain ↔ ∀ field ∈ cmd.fields, '|' ∉ field.toList := by
  have digits : ∀ n : ℕ, '|' ∉ n.repr.toList := not_mem_repr (by decide)
  have kinds : '|' ∉ "ESTABLISH_TENSOR_STREAM".toList ∧ '|' ∉ "JOIN_PIPELINE".toList ∧
      '|' ∉ "PROFILE".toList ∧ '|' ∉ "EXEC".toList := by decide
  cases cmd <;> simp only [Plain, texts, fields, List.forall_mem_cons, digits, kinds,
    not_false_eq_true, true_and]

end NetworkProtocol

theorem parseField_repr {field : String} {width n : ℕ} (small : n < 2 ^ width) :
    parseField field width n.repr = .ok n := by
  rw [parseField, parseNat_repr small]
  rfl

theorem parseParts_fields (cmd : NetworkProtocol) : parseParts cmd.fields = .ok cmd := by
  cases cmd with
  | establishTensorStream inferenceId targetPeerId =>
      simp [NetworkProtocol.fields, parseParts, parseEstablish, parseField_repr inferenceId.toNat_lt,
        bind, Except.bind]
  | joinPipeline inferenceId modelFileId device layerStart layerEnd =>
      simp [NetworkProtocol.fields, parseParts, parseJoin, parseField_repr inferenceId.toNat_lt,
        parseField_repr layerStart.toNat_lt, parseField_repr layerEnd.toNat_lt, bind, Except.bind]
  | profileRequest modelId layerCount device =>
      simp [NetworkProtocol.fields, parseParts, parseProfile, parseField_repr layerCount.toNat_lt,
        bind, Except.bind]
  | execRemote command paramsJson => rfl

theorem parseEstablish_ok {fields : List String} {cmd : NetworkProtocol}
    (h : parseEstablish fields = .ok cmd) : fields.length + 1 = cmd.fields.length := by
  unfold parseEstablish at h
  split at h
  · obtain ⟨inferenceId, _, h⟩ := bind_ok h
    cases h
    rfl
  · cases h

theorem parseJoin_ok {fields : List String} {cmd : NetworkProtocol}
    (h : parseJoin fields = .ok cmd) : fields.length + 1 = cmd.fields.length := by
  unfold parseJoin at h
  split at h
  · obtain ⟨inferenceId, _, h⟩ := bind_ok h
    obtain ⟨layerStart, _, h⟩ := bind_ok h
    obtain ⟨layerEnd, _, h⟩ := bind_ok h
    cases h
    rfl
  · cases h

theorem parseProfile_ok {fields : List String} {cmd : NetworkProtocol}
    (h : parseProfile fields = .ok cmd) : fields.length + 1 = cmd.fields.length := by
  unfold parseProfile at h
  split at h
  · obtain ⟨layerCount, _, h⟩ := bind_ok h
    cases h
    rfl
  · cases h

theorem parseExec_ok {fields : List String} {cmd : NetworkProtocol} :
    parseExec fields = .ok cmd ↔ ∃ command paramsJson, fields = [command, paramsJson] ∧
      cmd = .execRemote command paramsJson := by
  unfold parseExec
  split
  · simp [eq_comm]
  · next other =>
      constructor
      · nofun
      · rintro ⟨command, paramsJson, rfl, _⟩
        exact (other command paramsJson rfl).elim

/-- What is parsed has as many fields as were given. -/
theorem parseParts_length {parts : List String} {cmd : NetworkProtocol} (h : parseParts parts = .ok cmd) :
    parts.length = cmd.fields.length := by
  cases parts with
  | nil => cases h
  | cons kind fields =>
      simp only [parseParts] at h
      split at h
      · exact parseEstablish_ok h
      · split at h
        · exact parseJoin_ok h
        · split at h
          · exact parseProfile_ok h
          · split at h
            · obtain ⟨command, paramsJson, rfl, rfl⟩ := parseExec_ok.mp h
              rfl
            · cases h

/-- The fields joined by the writer are split by the reader, inside and at the joints. -/
theorem parse_serialize (cmd : NetworkProtocol) :
    parseNetworkCommand (serializeNetworkCommand cmd) =
      parseParts (((cmd.fields.map String.toList).flatMap (List.splitOn '|')).map String.ofList) := by
  have chars : cmd.text.toList = ['|'].intercalate (cmd.fields.map String.toList) := by
    rw [cmd.text_eq, String.toList_intercalate]
    rfl
  have some_field : cmd.fields.map String.toList ≠ [] := by
    cases cmd <;> simp [NetworkProtocol.fields]
  rw [parseNetworkCommand, serializeNetworkCommand, ofUtf8_iff.mpr rfl, ← splitOn_join some_field, ← chars]

/-- A payload read as a command with as many fields had no separator in a text field. -/
theorem plain_of_parse {cmd other : NetworkProtocol}
    (h : parseNetworkCommand (serializeNetworkCommand cmd) = .ok other)
    (count : other.fields.length = cmd.fields.length) : cmd.Plain := by
  rw [parse_serialize] at h
  have read := parseParts_length h
  rw [List.length_map] at read
  rw [cmd.plain_iff]
  intro field member
  refine free_of_splitOn_length (cmd.fields.map String.toList) ?_ _ (List.mem_map_of_mem member)
  rw [read, List.length_map, count]

theorem parse_of_plain {cmd : NetworkProtocol} (plain : cmd.Plain) :
    parseNetworkCommand (serializeNetworkCommand cmd) = .ok cmd := by
  have free : ∀ field ∈ cmd.fields.map String.toList, '|' ∉ field := by
    intro field member
    obtain ⟨text, inside, rfl⟩ := List.mem_map.mp member
    exact cmd.plain_iff.mp plain text inside
  have same : String.ofList ∘ String.toList = id := by
    funext s
    exact String.ofList_toList
  rw [parse_serialize, splitOn_free free, List.map_map, same, List.map_id, parseParts_fields]

/-! ## Starting a program on a remote node -/

/-- A member of a JSON object; `other` has the text `to_string` gives. -/
inductive Member where
  | string (s : String)
  | other (text : String)
  deriving DecidableEq

def Member.text : Member → String
  | string s => s
  | other text => text

inductive JsonValue where
  | object (members : List (String × Member))
  | other
  deriving DecidableEq

/-- The JSON library as the two nodes use it. -/
structure Json where
  print : Table String String → String
  parse : String → Option JsonValue

namespace Json

/-- The text printed for a parameter map is read as an object with the same members. -/
def RoundTrips (json : Json) (params : Table String String) : Prop :=
  ∃ members, json.parse (json.print params) = some (.object members) ∧
    members.Perm (params.entries.map fun entry => (entry.1, .string entry.2))

/-- The text of a map has a separator in it only where a key or a value has. -/
def Transparent (json : Json) (params : Table String String) : Prop :=
  '|' ∈ (json.print params).toList ↔
    ∃ entry ∈ params.entries, '|' ∈ entry.1.toList ∨ '|' ∈ entry.2.toList

end Json

/-- The parameters of a program from the parsed text; what cannot be read is empty. -/
def startParams : Option JsonValue → Table String String
  | some (.object members) => members.foldl (fun map m => map.insert m.1 m.2.text) ∅
  | _ => ∅

/-- What `route_user` sends for `ExecRemote`. -/
def execPayload (json : Json) (command : String) (params : Table String String) : List UInt8 :=
  serializeNetworkCommand (.execRemote command (json.print params))

/-- What `route_inbound` does with a command. -/
inductive Inbound where
  | started (path : String) (params : Table String String)
  | unknownCommand (command : String)
  | unimplemented (other : NetworkProtocol)
  | rejected (e : String)

/-- `route_inbound`; `getUser` looks up the registered scripts. -/
def routeInbound (json : Json) (getUser : String → Option String) (payload : List UInt8) : Inbound :=
  match parseNetworkCommand payload with
  | .ok (.execRemote command paramsJson) =>
    match getUser command with
    | some path => .started path (startParams (json.parse paramsJson))
    | none => .unknownCommand command
  | .ok other => .unimplemented other
  | .error e => .rejected e

theorem startParams_lookup {json : Json} {params : Table String String} (trips : json.RoundTrips params)
    (key : String) : (startParams (json.parse (json.print params))).lookup key = params.lookup key := by
  obtain ⟨members, parsed, same⟩ := trips
  let pairs := members.map fun m => (m.1, m.2.text)
  have entries : pairs.Perm (params.entries.map fun entry => (entry.1, entry.2)) := by
    have := same.map fun m : String × Member => (m.1, m.2.text)
    rwa [List.map_map] at this
  have distinct : (pairs.map Prod.fst).Nodup := by
    rw [(entries.map Prod.fst).nodup_iff, List.map_map]
    exact params.nodupKeys
  have started : startParams (json.parse (json.print params)) =
      pairs.foldl (fun t p => t.insert p.1 p.2) ∅ := by
    rw [parsed, startParams, List.foldl_map]
  ext value
  rw [started, Table.lookup_foldl_insert distinct, entries.mem_iff, Table.lookup_eq_some_iff (t := params)]
  simp

/-- The round trips of the text protocol: a command comes back exactly if its text
fields have no separator, and a remote program starts with the parameters the user
gave exactly if its name and the parameters have none. -/
theorem network_round_trips_iff (cmd : NetworkProtocol) {json : Json} {getUser : String → Option String}
    {command path : String} {params : Table String String} (known : getUser command = some path)
    (trips : json.RoundTrips params) (transparent : json.Transparent params) :
    (parseNetworkCommand (serializeNetworkCommand cmd) = .ok cmd ↔ cmd.Plain) ∧
    ((∃ started, routeInbound json getUser (execPayload json command params) = .started path started ∧
        ∀ key, started.lookup key = params.lookup key) ↔
      '|' ∉ command.toList ∧
        ∀ entry ∈ params.entries, '|' ∉ entry.1.toList ∧ '|' ∉ entry.2.toList) := by
  refine ⟨⟨fun h => plain_of_parse h rfl, parse_of_plain⟩, ?_⟩
  have plain : (NetworkProtocol.execRemote command (json.print params)).Plain ↔ '|' ∉ command.toList ∧
      ∀ entry ∈ params.entries, '|' ∉ entry.1.toList ∧ '|' ∉ entry.2.toList := by
    have printed : '|' ∉ (json.print params).toList ↔
        ∀ entry ∈ params.entries, '|' ∉ entry.1.toList ∧ '|' ∉ entry.2.toList := by
      apply (not_congr transparent).trans
      simp only [not_exists, not_and, not_or]
    rw [NetworkProtocol.Plain, NetworkProtocol.texts, List.forall_mem_cons, List.forall_mem_singleton, printed]
  rw [← plain]
  constructor
  · rintro ⟨started, route, _⟩
    unfold routeInbound execPayload at route
    split at route
    · next command' paramsJson parsed => exact plain_of_parse parsed rfl
    · cases route
    · cases route
  · intro isPlain
    refine ⟨_, ?_, startParams_lookup trips⟩
    rw [routeInbound, execPayload, parse_of_plain isPlain]
    simp only [known]

/-- The JSON text of parameters without anything to escape, and its reading for one prompt. -/
def promptJson : Json where
  print params := "\x7b" ++ ",".intercalate
    (params.entries.map fun e => "\"" ++ e.1 ++ "\":\"" ++ e.2 ++ "\"") ++ "\x7d"
  parse text :=
    if text = "\x7b\"prompt\":\"hi\"\x7d" then some (.object [("prompt", .string "hi")]) else none

def promptParams (prompt : String) : Table String String := AList.singleton "prompt" prompt

theorem network_round_trips_iff_prompt :
    (parseNetworkCommand (serializeNetworkCommand (.profileRequest "qwen" 28 "cpu")) =
        .ok (.profileRequest "qwen" 28 "cpu") ↔ (NetworkProtocol.profileRequest "qwen" 28 "cpu").Plain) ∧
    ((∃ started, routeInbound promptJson (fun _ => some "run.lua")
          (execPayload promptJson "run" (promptParams "hi")) = .started "run.lua" started ∧
        ∀ key, started.lookup key = (promptParams "hi").lookup key) ↔
      '|' ∉ "run".toList ∧
        ∀ entry ∈ (promptParams "hi").entries, '|' ∉ entry.1.toList ∧ '|' ∉ entry.2.toList) := by
  have separators : promptJson.Transparent (promptParams "hi") := by
    unfold Json.Transparent
    decide
  exact network_round_trips_iff _ rfl ⟨[("prompt", .string "hi")], by decide, List.Perm.refl _⟩ separators

/-- A prompt with a separator in it: the command does not come back, and the remote
node does not start the program. -/
theorem network_round_trips_counterexample :
    parseNetworkCommand (serializeNetworkCommand
        (.execRemote "run" (promptJson.print (promptParams "a|b")))) ≠
      .ok (.execRemote "run" (promptJson.print (promptParams "a|b"))) ∧
    ∀ started, routeInbound promptJson (fun _ => some "run.lua")
      (execPayload promptJson "run" (promptParams "a|b")) ≠ .started "run.lua" started := by
  have separated : ¬ (NetworkProtocol.execRemote "run" (promptJson.print (promptParams "a|b"))).Plain := by
    unfold NetworkProtocol.Plain
    decide
  constructor
  · exact fun h => separated (plain_of_parse h rfl)
  · intro started route
    unfold routeInbound execPayload at route
    split at route
    · next parsed => exact separated (plain_of_parse parsed rfl)
    · cases route
    · cases route

end Pleiades.Orchestrator
