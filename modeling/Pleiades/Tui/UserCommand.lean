import Pleiades.Gguf.ArchInfo
import Pleiades.Lib.Run
import Pleiades.Lib.Table
import Pleiades.Lib.Text
import Pleiades.Lib.Tokens

/-!
# Commands on the input line

What `parse_user_command` makes of a line, for the terminal interface and the command line
alike, and the line that a command is written as.
-/
namespace Pleiades.Tui

open Lib Gguf

inductive UserCommand where
  | execute (command : String) (params : Table String String)
  | run (script modelPath : String)
  | cancel (jobId : ℕ)
  | quit
  | displayPeer
  | setDevice (device : String)
  | distributeModel (modelPath : String) (peers : List (String × ℕ × ℕ))
  | list
  | send (filePath peerId : String)
  | profile (modelId : String)
  | help
  | flush
  | setName (name : String)
  | reload
  | session (modelId : String)
  | sessionInference (command : String) (sessionId : ℕ) (modelPath : String)
  | api (sessionId : ℕ)
  | execRemote (peer command : String) (params : Table String String)
  | dial (addr : String)

def splitWhitespace (text : List Char) : List String := (tokens isWhiteSpace text).map String.ofList

/-- `strip_prefix`. -/
def stripPrefix : List Char → List Char → Option (List Char)
  | [], text => some text
  | _ :: _, [] => none
  | c :: front, d :: text => if c = d then stripPrefix front text else none

/-- `split_once('=')`. -/
def splitOnce (text : String) : Option (String × String) :=
  match text.toList.dropWhile (· ≠ '=') with
  | [] => none
  | _ :: rest => some (String.ofList (text.toList.takeWhile (· ≠ '=')), String.ofList rest)

/-- `rsplitn(2, ':')`, with the part in front of the last colon first. -/
def rsplitOnce (text : List Char) : Option (List Char × List Char) :=
  match text.reverse.dropWhile (· ≠ ':') with
  | [] => none
  | _ :: front => some (front.reverse, (text.reverse.takeWhile (· ≠ ':')).reverse)

def usizeBound : ℕ := 2 ^ 64

/-- `Parse_Peer_Assignment`. -/
def parsePeerAssignment (arg : String) : Except String (String × ℕ × ℕ) :=
  match rsplitOnce arg.toList with
  | none => .error "缺少 ':' 分隔符"
  | some (peerId, rangeStr) =>
    match rangeStr.splitOn '-' with
    | [start, stop] =>
      match parseNat usizeBound start with
      | .error e => .error s!"start 解析失败: {e}"
      | .ok start =>
        match parseNat usizeBound stop with
        | .error e => .error s!"end 解析失败: {e}"
        | .ok stop => .ok (String.ofList peerId, start, stop)
    | _ => .error "层范围格式错误，应为 start-end"

/-- The pairs behind a command; of two with the same key the later one stays. -/
def parseParams (args : List String) : Except String (Table String String) :=
  args.foldlM (fun params arg =>
    match splitOnce arg with
    | none => .error s!"参数格式无效: '{arg}'"
    | some (k, v) => .ok (params.insert k v)) ∅

/-! What stands behind the word of a command. -/

/-- Everything behind the word, as one value. -/
def phrase (usage : String) (make : String → UserCommand) (rest : List Char) : Except String UserCommand :=
  let value := trim rest
  if value = [] then .error usage else .ok (make (String.ofList value))

/-- A number of 64 bits. -/
def number (refuse : String → String) (make : ℕ → UserCommand) (rest : List Char) : Except String UserCommand :=
  match parseNat usizeBound (trim rest) with
  | .ok n => .ok (make n)
  | .error _ => .error (refuse (String.ofList (trim rest)))

def sessionInference (rest : List Char) : Except String UserCommand :=
  let make (command sid modelPath : String) :=
    match parseNat usizeBound sid.toList with
    | .ok sessionId => .ok (.sessionInference command sessionId modelPath)
    | .error _ => .error s!"无效 session_id: '{sid}'"
  match splitWhitespace rest with
  | [] | [_] => .error "用法: session inference [command] <session_id> <model_path>"
  | [sid, modelPath] => make "single_inf" sid modelPath
  | command :: sid :: modelPath :: _ => make command sid modelPath

/-- `to_lowercase` is that of the standard library. -/
def setDevice (toLowercase : String → String) (rest : List Char) : Except String UserCommand :=
  let d := toLowercase (String.ofList (trim rest))
  if d = "cpu" ∨ d = "cuda" ∨ (stripPrefix "cuda:".toList d.toList).isSome then .ok (.setDevice d)
  else .error s!"不支持的设备: '{d}'\\n用法: set-device cpu|cuda|cuda:N"

def send (rest : List Char) : Except String UserCommand :=
  match splitWhitespace rest with
  | [filePath, peerId] => .ok (.send filePath peerId)
  | _ => .error "用法: send <file> <peer_id>"

def distribute (rest : List Char) : Except String UserCommand :=
  match splitWhitespace rest with
  | [] | [_] => .error "用法: distribute <model_path> <peer_id:start-end> ..."
  | modelPath :: args =>
    (args.mapM fun arg => (parsePeerAssignment arg).mapError fun e => s!"解析 '{arg}' 失败: {e}").map fun peers =>
      .distributeModel modelPath peers

def pipeline (rest : List Char) : Except String UserCommand :=
  match splitWhitespace rest with
  | [] => .error "用法: pipeline <model_path>"
  | model :: _ => .ok (.execute "pipeline" ((∅ : Table String String).insert "model_path" model))

def exec (rest : List Char) : Except String UserCommand :=
  match splitWhitespace rest with
  | [] => .error "用法: exec <command> [key=value ...]"
  | command :: args => (parseParams args).map (.execute command)

def rexec (rest : List Char) : Except String UserCommand :=
  match splitWhitespace rest with
  | [] | [_] => .error "用法: rexec <peer> <command> [key=value ...]"
  | peer :: command :: args => (parseParams args).map (.execRemote peer command)

/-- A line of its own, or a word in front of something. -/
inductive Rule where
  | alone (words : List String) (cmd : UserCommand)
  | leading (words : String) (parse : List Char → Except String UserCommand)

/-- What is tried one after the other. -/
def rules (toLowercase : String → String) : List Rule :=
  [.alone ["help"] .help,
   .leading "session create " (phrase "用法: session create <model_name>" .session),
   .leading "api " (number (fun s => s!"无效 session_id: '{s}'\\n用法: api <session_id>") .api),
   .leading "API " (number (fun s => s!"无效 session_id: '{s}'\\n用法: api <session_id>") .api),
   .leading "session inference " sessionInference,
   .leading "run " (phrase "用法: run <model_path>" (.run "")),
   .leading "cancel " (number (fun s => s!"无效 Job ID: '{s}'") .cancel),
   .alone ["display-peer", "dp"] .displayPeer,
   .leading "set-device " (setDevice toLowercase),
   .alone ["ls"] .list,
   .alone ["flush"] .flush,
   .alone ["reload"] .reload,
   .leading "set-name " (phrase "名称不能为空" .setName),
   .leading "send " send,
   .leading "distribute " distribute,
   .leading "pipeline " pipeline,
   .leading "profile " (phrase "用法: profile <model_id>" .profile),
   .leading "dial " (phrase "用法: dial <multiaddr>" .dial),
   .leading "exec " exec,
   .leading "rexec " rexec]

/-- What a rule makes of a line, if it is one for it. -/
def Rule.apply (line : List Char) : Rule → Option (Except String UserCommand)
  | .alone words cmd => if line ∈ words.map String.toList then some (.ok cmd) else none
  | .leading words parse => (stripPrefix words.toList line).map parse

/-- What is no command, or one that the caller has to handle. -/
def isLocal (line : List Char) : Bool := line.isEmpty || (["quit", "exit", "clear"].map String.toList).contains line

/-- `parse_user_command`. -/
def parseUserCommand (toLowercase : String → String) (input : List Char) : Except String (Option UserCommand) :=
  let trimmed := trim input
  if isLocal trimmed then .ok none
  else
    match (rules toLowercase).findSome? (·.apply trimmed) with
    | some result => result.map some
    | none => .error s!"未知命令: '{String.ofList trimmed}'\\n输入 help 查看可用命令"

/-! How a command is written. -/

def wordsText (words : List String) : List Char := [' '].intercalate (words.map String.toList)

def paramText (e : Sigma fun _ : String => String) : String := e.1 ++ "=" ++ e.2

/-- The later pairs come first in the table. -/
def paramTexts (params : Table String String) : List String := params.entries.reverse.map paramText

def assignmentText (peer : String × ℕ × ℕ) : String := s!"{peer.1}:{peer.2.1}-{peer.2.2}"

def UserCommand.text : UserCommand → List Char
  | .execute command params => "exec ".toList ++ wordsText (command :: paramTexts params)
  | .run _ modelPath => "run ".toList ++ modelPath.toList
  | .cancel jobId => "cancel ".toList ++ jobId.repr.toList
  | .quit => "quit".toList
  | .displayPeer => "dp".toList
  | .setDevice device => "set-device ".toList ++ device.toList
  | .distributeModel modelPath peers => "distribute ".toList ++ wordsText (modelPath :: peers.map assignmentText)
  | .list => "ls".toList
  | .send filePath peerId => "send ".toList ++ wordsText [filePath, peerId]
  | .profile modelId => "profile ".toList ++ modelId.toList
  | .help => "help".toList
  | .flush => "flush".toList
  | .setName name => "set-name ".toList ++ name.toList
  | .reload => "reload".toList
  | .session modelId => "session create ".toList ++ modelId.toList
  | .sessionInference command sessionId modelPath =>
    "session inference ".toList ++ wordsText [command, sessionId.repr, modelPath]
  | .api sessionId => "api ".toList ++ sessionId.repr.toList
  | .execRemote peer command params => "rexec ".toList ++ wordsText (peer :: command :: paramTexts params)
  | .dial addr => "dial ".toList ++ addr.toList

def IsWord (s : String) : Prop := Token isWhiteSpace s.toList

instance decidableIsWord (s : String) : Decidable (IsWord s) := inferInstanceAs (Decidable (Token ..))

def IsPhrase (s : String) : Prop := s.toList ≠ [] ∧ Stripped isWhiteSpace s.toList

/-- A key without an equals sign, and no blanks in either. -/
structure IsParam (e : Sigma fun _ : String => String) : Prop where
  key : '=' ∉ e.1.toList
  free : ∀ c ∈ e.1.toList ++ e.2.toList, isWhiteSpace c = false

structure IsAssignment (peer : String × ℕ × ℕ) : Prop where
  free : ∀ c ∈ peer.1.toList, isWhiteSpace c = false
  start : peer.2.1 < usizeBound
  stop : peer.2.2 < usizeBound

/-- Commands whose values are words where a line is taken apart, and else not blank at their ends. -/
def UserCommand.Plain (toLowercase : String → String) : UserCommand → Prop
  | .execute command params => IsWord command ∧ ∀ e ∈ params.entries, IsParam e
  | .run script modelPath => script = "" ∧ IsPhrase modelPath
  | .cancel n | .api n => n < usizeBound
  | .quit => False
  | .displayPeer | .list | .help | .flush | .reload => True
  | .setDevice device => IsPhrase device ∧ toLowercase device = device ∧
      (device = "cpu" ∨ device = "cuda" ∨ (stripPrefix "cuda:".toList device.toList).isSome)
  | .distributeModel modelPath peers => IsWord modelPath ∧ peers ≠ [] ∧ ∀ peer ∈ peers, IsAssignment peer
  | .send filePath peerId => IsWord filePath ∧ IsWord peerId
  | .profile value | .setName value | .session value | .dial value => IsPhrase value
  | .sessionInference command sessionId modelPath => IsWord command ∧ sessionId < usizeBound ∧ IsWord modelPath
  | .execRemote peer command params => IsWord peer ∧ IsWord command ∧ ∀ e ∈ params.entries, IsParam e

/-- What is used of the lower case of a text. -/
structure Lowercases (toLowercase : String → String) : Prop where
  idempotent : ∀ s, toLowercase (toLowercase s) = toLowercase s
  stripped : ∀ {s : String}, Stripped isWhiteSpace s.toList → Stripped isWhiteSpace (toLowercase s).toList

/-! Each value is read back. -/

theorem trim_eq (text : List Char) : trim text = strip isWhiteSpace text := rfl

theorem IsPhrase.trim_eq {s : String} (plain : IsPhrase s) : trim s.toList = s.toList := plain.2.strip_eq

theorem IsWord.phrase {s : String} (word : IsWord s) : IsPhrase s := ⟨word.some, word.stripped⟩

theorem wordsText_phrase {words : List String} (some' : words ≠ []) (each : ∀ w ∈ words, IsWord w) :
    wordsText words ≠ [] ∧ Stripped isWhiteSpace (wordsText words) := by
  apply stripped_join (by simpa using some')
  intro w member
  obtain ⟨s, given, rfl⟩ := List.mem_map.mp member
  exact each s given

theorem splitWhitespace_wordsText {words : List String} (each : ∀ w ∈ words, IsWord w) :
    splitWhitespace (wordsText words) = words := by
  rw [splitWhitespace, wordsText, tokens_join (by decide)]
  · rw [List.map_map]
    exact (List.map_congr_left fun s _ => String.ofList_toList).trans (List.map_id _)
  · intro w member
    obtain ⟨s, given, rfl⟩ := List.mem_map.mp member
    exact each s given

theorem isWord_repr (n : ℕ) : IsWord n.repr where
  some := by
    rw [Nat.toList_repr]
    exact Nat.toDigits_ne_nil
  free c member := by
    have digit := digits_repr n c member
    rw [Char.isDigit, Bool.and_eq_true, decide_eq_true_eq, decide_eq_true_eq, ge_iff_le, UInt32.le_iff_toNat_le,
      UInt32.le_iff_toNat_le] at digit
    have lower : 48 ≤ c.toNat := digit.1
    have upper : c.toNat ≤ 57 := digit.2
    rw [Bool.eq_false_iff]
    intro blank
    simp [isWhiteSpace] at blank
    omega

theorem splitOnce_append {front rest : List Char} (free : '=' ∉ front) :
    splitOnce (String.ofList (front ++ '=' :: rest)) = some (String.ofList front, String.ofList rest) := by
  have all : ∀ c ∈ front, decide (c ≠ '=') = true := by
    intro c member
    simp only [decide_eq_true_eq]
    rintro rfl
    exact free member
  rw [splitOnce, String.toList_ofList, List.dropWhile_append_of_pos all, List.takeWhile_append_of_pos all]
  simp

theorem splitOnce_paramText {e : Sigma fun _ : String => String} (plain : IsParam e) :
    splitOnce (paramText e) = some (e.1, e.2) := by
  have text : paramText e = String.ofList (e.1.toList ++ '=' :: e.2.toList) := by
    rw [← String.toList_inj]
    simp [paramText]
  rw [text, splitOnce_append plain.key, String.ofList_toList, String.ofList_toList]

theorem rsplitOnce_append {front rest : List Char} (free : ':' ∉ rest) :
    rsplitOnce (front ++ ':' :: rest) = some (front, rest) := by
  have all : ∀ c ∈ rest.reverse, decide (c ≠ ':') = true := by
    intro c member
    simp only [decide_eq_true_eq]
    rintro rfl
    exact free (List.mem_reverse.mp member)
  rw [rsplitOnce, List.reverse_append, List.reverse_cons, List.append_assoc, List.dropWhile_append_of_pos all,
    List.takeWhile_append_of_pos all]
  simp

theorem assignmentText_toList (peer : String × ℕ × ℕ) : (assignmentText peer).toList =
    peer.1.toList ++ ':' :: (peer.2.1.repr.toList ++ '-' :: peer.2.2.repr.toList) := by
  simp [assignmentText, ToString.toString]

theorem parsePeerAssignment_text {peer : String × ℕ × ℕ} (plain : IsAssignment peer) :
    parsePeerAssignment (assignmentText peer) = .ok peer := by
  obtain ⟨id, start, stop⟩ := peer
  have colon : ':' ∉ start.repr.toList ++ '-' :: stop.repr.toList := by
    rw [List.mem_append, List.mem_cons]
    rintro (member | same | member)
    · exact not_mem_repr (by decide) _ member
    · exact absurd same (by decide)
    · exact not_mem_repr (by decide) _ member
  have dash (n : ℕ) : '-' ∉ n.repr.toList := not_mem_repr (by decide) n
  have parts : (start.repr.toList ++ '-' :: stop.repr.toList).splitOn '-' = [start.repr.toList, stop.repr.toList] := by
    rw [List.splitOn_append_cons_self, List.splitOn_eq_singleton (dash start), List.splitOn_eq_singleton (dash stop)]
    rfl
  unfold parsePeerAssignment
  rw [assignmentText_toList, rsplitOnce_append colon]
  dsimp only
  rw [parts]
  dsimp only
  rw [parseNat_repr plain.start]
  dsimp only
  rw [parseNat_repr plain.stop]
  dsimp only
  rw [String.ofList_toList]

/-- The entries of a table, put in from the last to the first, are the table. -/
theorem insert_entries (params : Table String String) :
    params.entries.foldr (fun e t => t.insert e.1 e.2) (∅ : Table String String) = params := by
  obtain ⟨entries, nodup⟩ := params
  induction entries with
  | nil => rfl
  | cons e entries ih =>
      obtain ⟨absent, rest⟩ := List.nodupKeys_cons.mp nodup
      rw [List.foldr_cons, ih rest]
      apply AList.ext
      exact AList.entries_insert_of_notMem absent

theorem parseParams_texts {params : Table String String} (plain : ∀ e ∈ params.entries, IsParam e) :
    parseParams (paramTexts params) = .ok params := by
  have each (l : List (Sigma fun _ : String => String)) (plain : ∀ e ∈ l, IsParam e) (t : Table String String) :
      (l.map paramText).foldlM (fun params arg =>
        match splitOnce arg with
        | none => Except.error s!"参数格式无效: '{arg}'"
        | some (k, v) => .ok (params.insert k v)) t = .ok (l.foldl (fun t e => t.insert e.1 e.2) t) := by
    induction l generalizing t with
    | nil => rfl
    | cons e l ih =>
        obtain ⟨here, later⟩ := List.forall_mem_cons.mp plain
        rw [List.map_cons, List.foldlM_cons, splitOnce_paramText here]
        exact ih later _
  rw [parseParams, paramTexts, each _ (by simpa using plain), List.foldl_reverse, insert_entries]

/-! A command that is written is read. -/

variable {toLowercase : String → String}

theorem parse_line {line : List Char} {result : Except String UserCommand} (stripped : Stripped isWhiteSpace line)
    (command : isLocal line = false) (applied : (rules toLowercase).findSome? (·.apply line) = some result) :
    parseUserCommand toLowercase line = result.map some := by
  have same : trim line = line := stripped.strip_eq
  rw [parseUserCommand, same, if_neg (Bool.eq_false_iff.mp command), applied]

theorem parse_alone {line : List Char} {cmd : UserCommand} (stripped : Stripped isWhiteSpace line)
    (command : isLocal line = false) (picked : (rules toLowercase).findSome? (·.apply line) = some (.ok cmd)) :
    parseUserCommand toLowercase line = .ok (some cmd) := parse_line stripped command picked

/-- A word with something stripped behind it. -/
theorem parse_leading {word : String} {rest : List Char} {parse : List Char → Except String UserCommand}
    {cmd : UserCommand} (starts : word.toList.head?.map isWhiteSpace = some false)
    (value : rest ≠ [] ∧ Stripped isWhiteSpace rest) (handled : parse rest = .ok cmd)
    (command : isLocal (word.toList ++ rest) = false)
    (picked : (rules toLowercase).findSome? (·.apply (word.toList ++ rest)) = some (parse rest)) :
    parseUserCommand toLowercase (word.toList ++ rest) = .ok (some cmd) := by
  obtain ⟨letter, first, free⟩ := Option.map_eq_some_iff.mp starts
  have front : word.toList ≠ [] := List.ne_nil_of_mem (List.mem_of_head? first)
  have plain : ∀ c ∈ word.toList.head?, isWhiteSpace c = false := by
    intro c here
    rwa [← Option.some.inj (first.symm.trans here)]
  rw [parse_line (Stripped.append plain value.1 value.2 front) command picked, handled]
  rfl

theorem phrase_eq {usage : String} {make : String → UserCommand} {s : String} (plain : IsPhrase s) :
    phrase usage make s.toList = .ok (make s) := by
  rw [phrase]
  simp only [plain.trim_eq, plain.1, if_false, String.ofList_toList]

theorem number_eq {refuse : String → String} {make : ℕ → UserCommand} {n : ℕ} (small : n < usizeBound) :
    number refuse make n.repr.toList = .ok (make n) := by
  rw [number, (isWord_repr n).phrase.trim_eq, parseNat_repr small]

theorem setDevice_eq {device : String} (plain : (UserCommand.setDevice device).Plain toLowercase) :
    setDevice toLowercase device.toList = .ok (.setDevice device) := by
  obtain ⟨value, lower, known⟩ := plain
  rw [setDevice, value.trim_eq, String.ofList_toList, lower]
  exact if_pos known

theorem isWord_paramText {e : Sigma fun _ : String => String} (plain : IsParam e) : IsWord (paramText e) := by
  have text : (paramText e).toList = e.1.toList ++ '=' :: e.2.toList := by simp [paramText]
  rw [IsWord, text]
  refine ⟨by simp, ?_⟩
  intro c member
  rcases List.mem_append.mp member with key | value
  · exact plain.free c (List.mem_append_left _ key)
  · rcases List.mem_cons.mp value with rfl | value
    · decide
    · exact plain.free c (List.mem_append_right _ value)

theorem isWord_paramTexts {params : Table String String} (plain : ∀ e ∈ params.entries, IsParam e) :
    ∀ w ∈ paramTexts params, IsWord w := by
  intro w member
  obtain ⟨e, entry, rfl⟩ := List.mem_map.mp member
  exact isWord_paramText (plain e (List.mem_reverse.mp entry))

theorem isWord_assignmentText {peer : String × ℕ × ℕ} (plain : IsAssignment peer) :
    IsWord (assignmentText peer) := by
  rw [IsWord, assignmentText_toList]
  refine ⟨by simp, ?_⟩
  intro c member
  simp only [List.mem_append, List.mem_cons] at member
  rcases member with id | rfl | start | rfl | stop
  · exact plain.free c id
  · decide
  · exact (isWord_repr _).free c start
  · decide
  · exact (isWord_repr _).free c stop

theorem exec_eq {command : String} {params : Table String String}
    (plain : (UserCommand.execute command params).Plain toLowercase) :
    exec (wordsText (command :: paramTexts params)) = .ok (.execute command params) := by
  have each := List.forall_mem_cons.mpr ⟨plain.1, isWord_paramTexts plain.2⟩
  rw [exec, splitWhitespace_wordsText each]
  dsimp only
  rw [parseParams_texts plain.2]
  rfl

theorem rexec_eq {peer command : String} {params : Table String String}
    (plain : (UserCommand.execRemote peer command params).Plain toLowercase) :
    rexec (wordsText (peer :: command :: paramTexts params)) = .ok (.execRemote peer command params) := by
  have each := List.forall_mem_cons.mpr ⟨plain.1, List.forall_mem_cons.mpr ⟨plain.2.1, isWord_paramTexts plain.2.2⟩⟩
  rw [rexec, splitWhitespace_wordsText each]
  dsimp only
  rw [parseParams_texts plain.2.2]
  rfl

theorem distribute_eq {modelPath : String} {peers : List (String × ℕ × ℕ)}
    (plain : (UserCommand.distributeModel modelPath peers).Plain toLowercase) :
    distribute (wordsText (modelPath :: peers.map assignmentText)) = .ok (.distributeModel modelPath peers) := by
  obtain ⟨model, some', valid⟩ := plain
  have each : ∀ w ∈ modelPath :: peers.map assignmentText, IsWord w := by
    rw [List.forall_mem_cons, List.forall_mem_map]
    exact ⟨model, fun peer member => isWord_assignmentText (valid peer member)⟩
  have read : ((peers.map assignmentText).mapM fun arg =>
      (parsePeerAssignment arg).mapError fun e => s!"解析 '{arg}' 失败: {e}") = .ok peers := by
    rw [mapM_forall₂, List.forall₂_map_left_iff, List.forall₂_same]
    intro peer member
    rw [parsePeerAssignment_text (valid peer member)]
    rfl
  rw [distribute, splitWhitespace_wordsText each]
  cases peers with
  | nil => exact absurd rfl some'
  | cons peer peers =>
      rw [List.map_cons] at read ⊢
      dsimp only
      rw [read]
      rfl

theorem send_eq {filePath peerId : String} (plain : (UserCommand.send filePath peerId).Plain toLowercase) :
    send (wordsText [filePath, peerId]) = .ok (.send filePath peerId) := by
  have each : ∀ w ∈ [filePath, peerId], IsWord w := by simpa using And.intro plain.1 plain.2
  rw [send, splitWhitespace_wordsText each]

theorem sessionInference_eq {command modelPath : String} {sessionId : ℕ}
    (plain : (UserCommand.sessionInference command sessionId modelPath).Plain toLowercase) :
    sessionInference (wordsText [command, sessionId.repr, modelPath]) =
      .ok (.sessionInference command sessionId modelPath) := by
  have each : ∀ w ∈ [command, sessionId.repr, modelPath], IsWord w := by
    simpa using ⟨plain.1, isWord_repr sessionId, plain.2.2⟩
  rw [sessionInference, splitWhitespace_wordsText each]
  dsimp only
  rw [parseNat_repr plain.2.1]

/-- Every plain command is what its text is read as. -/
theorem parse_text {cmd : UserCommand} (plain : cmd.Plain toLowercase) :
    parseUserCommand toLowercase cmd.text = .ok (some cmd) := by
  cases cmd with
  | execute command params =>
      have each := List.forall_mem_cons.mpr ⟨plain.1, isWord_paramTexts plain.2⟩
      exact parse_leading rfl (wordsText_phrase (by simp) each) (exec_eq plain) rfl rfl
  | run script modelPath =>
      obtain ⟨rfl, value⟩ := plain
      exact parse_leading rfl value (phrase_eq value) rfl rfl
  | cancel n => exact parse_leading rfl (isWord_repr n).phrase (number_eq plain) rfl rfl
  | quit => exact plain.elim
  | displayPeer => exact parse_alone (by decide) rfl rfl
  | setDevice device => exact parse_leading rfl plain.1 (setDevice_eq plain) rfl rfl
  | distributeModel modelPath peers =>
      have each : ∀ w ∈ modelPath :: peers.map assignmentText, IsWord w := by
        rw [List.forall_mem_cons, List.forall_mem_map]
        exact ⟨plain.1, fun peer member => isWord_assignmentText (plain.2.2 peer member)⟩
      exact parse_leading rfl (wordsText_phrase (by simp) each) (distribute_eq plain) rfl rfl
  | list => exact parse_alone (by decide) rfl rfl
  | send filePath peerId =>
      have each : ∀ w ∈ [filePath, peerId], IsWord w := by simpa using And.intro plain.1 plain.2
      exact parse_leading rfl (wordsText_phrase (by simp) each) (send_eq plain) rfl rfl
  | profile modelId => exact parse_leading rfl plain (phrase_eq plain) rfl rfl
  | help => exact parse_alone (by decide) rfl rfl
  | flush => exact parse_alone (by decide) rfl rfl
  | setName name => exact parse_leading rfl plain (phrase_eq plain) rfl rfl
  | reload => exact parse_alone (by decide) rfl rfl
  | session modelId => exact parse_leading rfl plain (phrase_eq plain) rfl rfl
  | sessionInference command sessionId modelPath =>
      have each : ∀ w ∈ [command, sessionId.repr, modelPath], IsWord w := by
        simpa using And.intro plain.1 (And.intro (isWord_repr sessionId) plain.2.2)
      exact parse_leading rfl (wordsText_phrase (by simp) each) (sessionInference_eq plain) rfl rfl
  | api n => exact parse_leading rfl (isWord_repr n).phrase (number_eq plain) rfl rfl
  | execRemote peer command params =>
      have each := List.forall_mem_cons.mpr
        ⟨plain.1, List.forall_mem_cons.mpr ⟨plain.2.1, isWord_paramTexts plain.2.2⟩⟩
      exact parse_leading rfl (wordsText_phrase (by simp) each) (rexec_eq plain) rfl rfl
  | dial addr => exact parse_leading rfl plain (phrase_eq plain) rfl rfl

end Pleiades.Tui
