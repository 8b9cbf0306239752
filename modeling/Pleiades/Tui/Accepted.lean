import Mathlib.Data.List.TakeWhile
import Pleiades.Tui.UserCommand

/-!
# What the input line accepts

The commands that some line is read as, and the hints that no line is answered with.
-/
namespace Pleiades.Tui

open Lib Gguf

variable {toLowercase : String → String}

/-! A command that is read is plain. -/

theorem isWord_of_mem {text : List Char} {w : String} (member : w ∈ splitWhitespace text) : IsWord w := by
  obtain ⟨part, token, rfl⟩ := List.mem_map.mp member
  rw [IsWord, String.toList_ofList]
  exact token_of_mem token

theorem parseNat_lt {bound n : ℕ} (positive : 0 < bound) {cs : List Char} (read : parseNat bound cs = .ok n) :
    n < bound := by
  have digits {cs : List Char} {m : ℕ} (small : m < bound) (read : parseDigits bound m cs = .ok n) : n < bound := by
    induction cs generalizing m with
    | nil =>
        cases read
        exact small
    | cons c cs ih =>
        rw [parseDigits] at read
        split at read
        · dsimp only at read
          split at read
          · next small => exact ih small read
          · cases read
        · cases read
  unfold parseNat at read
  split at read
  · cases read
  · cases read
  · exact digits positive read
  · exact digits positive read

theorem phrase_plain {usage : String} {make : String → UserCommand} {rest : List Char} {cmd : UserCommand}
    (read : phrase usage make rest = .ok cmd) : ∃ value, IsPhrase value ∧ cmd = make value := by
  rw [phrase] at read
  split at read
  · cases read
  · next some' =>
      cases read
      refine ⟨String.ofList (trim rest), ⟨?_, ?_⟩, rfl⟩
      · rwa [String.toList_ofList]
      · rw [String.toList_ofList]
        exact stripped_strip isWhiteSpace rest

theorem number_plain {refuse : String → String} {make : ℕ → UserCommand} {rest : List Char} {cmd : UserCommand}
    (read : number refuse make rest = .ok cmd) : ∃ n < usizeBound, cmd = make n := by
  rw [number] at read
  cases parsed : parseNat usizeBound (trim rest) with
  | error e =>
      rw [parsed] at read
      cases read
  | ok n =>
      rw [parsed] at read
      cases read
      exact ⟨n, parseNat_lt (by decide) parsed, rfl⟩

theorem setDevice_plain (lower : Lowercases toLowercase) {rest : List Char} {cmd : UserCommand}
    (read : setDevice toLowercase rest = .ok cmd) : cmd.Plain toLowercase := by
  rw [setDevice] at read
  split at read
  · next known =>
      cases read
      have stripped : Stripped isWhiteSpace (String.ofList (trim rest)).toList := by
        rw [String.toList_ofList]
        exact stripped_strip isWhiteSpace rest
      refine ⟨⟨?_, lower.stripped stripped⟩, lower.idempotent _, known⟩
      intro empty
      rcases known with same | same | front
      · exact absurd (by rw [← same, empty]) (show ([] : List Char) ≠ "cpu".toList by decide)
      · exact absurd (by rw [← same, empty]) (show ([] : List Char) ≠ "cuda".toList by decide)
      · rw [empty] at front
        exact absurd front (by decide)
  · cases read

theorem splitOnce_some {arg k v : String} (found : splitOnce arg = some (k, v)) :
    '=' ∉ k.toList ∧ arg.toList = k.toList ++ '=' :: v.toList := by
  rw [splitOnce] at found
  split at found
  · cases found
  · next c rest behind =>
      cases found
      have sep : c = '=' := by
        have first : ∀ d ∈ (arg.toList.dropWhile (· ≠ '=')).head?, decide (d ≠ '=') = false := head_dropWhile
        simpa using first c (by rw [behind]; rfl)
      rw [sep] at behind
      rw [String.toList_ofList, String.toList_ofList, ← behind, List.takeWhile_append_dropWhile]
      refine ⟨?_, rfl⟩
      intro member
      simpa using List.mem_takeWhile_imp member

theorem parseParams_plain {args : List String} {params : Table String String} (words : ∀ w ∈ args, IsWord w)
    (read : parseParams args = .ok params) : ∀ e ∈ params.entries, IsParam e := by
  refine foldlM_ok (P := fun _ t => ∀ e ∈ t.entries, IsParam e) read (by simp) ?_
  intro done arg t t' member before inserted e entry
  split at inserted
  · cases inserted
  · next k v found =>
      cases inserted
      obtain ⟨key, whole⟩ := splitOnce_some found
      rw [AList.entries_insert] at entry
      rcases List.mem_cons.mp entry with rfl | older
      · refine ⟨key, ?_⟩
        intro c part
        apply (words arg member).free c
        rw [whole]
        rcases List.mem_append.mp part with front | behind
        · exact List.mem_append_left _ front
        · exact List.mem_append_right _ (List.mem_cons_of_mem _ behind)
      · exact before e ((List.kerase_sublist _ _).subset older)

theorem rsplitOnce_some {arg front rest : List Char} (found : rsplitOnce arg = some (front, rest)) :
    arg = front ++ ':' :: rest := by
  rw [rsplitOnce] at found
  split at found
  · cases found
  · next c back before =>
      cases found
      have sep : c = ':' := by
        have first : ∀ d ∈ (arg.reverse.dropWhile (· ≠ ':')).head?, decide (d ≠ ':') = false := head_dropWhile
        simpa using first c (by rw [before]; rfl)
      rw [sep] at before
      have whole := List.takeWhile_append_dropWhile (p := (· ≠ ':')) (l := arg.reverse)
      rw [before] at whole
      simpa using congrArg List.reverse whole.symm

theorem parsePeerAssignment_plain {arg : String} {peer : String × ℕ × ℕ} (word : IsWord arg)
    (read : parsePeerAssignment arg = .ok peer) : IsAssignment peer := by
  unfold parsePeerAssignment at read
  split at read
  · cases read
  · next id range found =>
      split at read
      · split at read
        · cases read
        · next startRead =>
            split at read
            · cases read
            · next stopRead =>
                cases read
                refine ⟨?_, parseNat_lt (by decide) startRead, parseNat_lt (by decide) stopRead⟩
                intro c member
                rw [String.toList_ofList] at member
                apply word.free c
                rw [rsplitOnce_some found]
                exact List.mem_append_left _ member
      · cases read

theorem exec_plain {rest : List Char} {cmd : UserCommand} (read : exec rest = .ok cmd) : cmd.Plain toLowercase := by
  have words (w : String) (member : w ∈ splitWhitespace rest) := isWord_of_mem member
  rw [exec] at read
  split at read
  · cases read
  · next command args given =>
      rw [given, List.forall_mem_cons] at words
      cases parsed : parseParams args with
      | error e => simp [parsed, Except.map] at read
      | ok params =>
          rw [parsed] at read
          cases read
          exact ⟨words.1, parseParams_plain words.2 parsed⟩

theorem rexec_plain {rest : List Char} {cmd : UserCommand} (read : rexec rest = .ok cmd) : cmd.Plain toLowercase := by
  have words (w : String) (member : w ∈ splitWhitespace rest) := isWord_of_mem member
  rw [rexec] at read
  split at read
  · cases read
  · cases read
  · next peer command args given =>
      rw [given, List.forall_mem_cons, List.forall_mem_cons] at words
      cases parsed : parseParams args with
      | error e => simp [parsed, Except.map] at read
      | ok params =>
          rw [parsed] at read
          cases read
          exact ⟨words.1, words.2.1, parseParams_plain words.2.2 parsed⟩

theorem distribute_plain {rest : List Char} {cmd : UserCommand} (read : distribute rest = .ok cmd) :
    cmd.Plain toLowercase := by
  have words (w : String) (member : w ∈ splitWhitespace rest) := isWord_of_mem member
  rw [distribute] at read
  split at read
  · cases read
  · cases read
  · next modelPath args single given =>
      rw [given, List.forall_mem_cons] at words
      cases parsed : args.mapM fun arg => (parsePeerAssignment arg).mapError fun e => s!"解析 '{arg}' 失败: {e}" with
      | error e => simp [parsed, Except.map] at read
      | ok peers =>
          rw [parsed] at read
          cases read
          refine ⟨words.1, ?_, ?_⟩
          · rintro rfl
            cases mapM_forall₂.mp parsed
            exact single rfl
          · intro peer member
            obtain ⟨arg, given, made⟩ := mem_of_mapM parsed peer member
            cases assigned : parsePeerAssignment arg with
            | error e => simp [assigned, Except.mapError] at made
            | ok peer' =>
                rw [assigned] at made
                cases made
                exact parsePeerAssignment_plain (words.2 arg given) assigned

theorem send_plain {rest : List Char} {cmd : UserCommand} (read : send rest = .ok cmd) : cmd.Plain toLowercase := by
  have words (w : String) (member : w ∈ splitWhitespace rest) := isWord_of_mem member
  rw [send] at read
  split at read
  · next filePath peerId given =>
      cases read
      rw [given] at words
      exact ⟨words filePath (by simp), words peerId (by simp)⟩
  · cases read

theorem pipeline_plain {rest : List Char} {cmd : UserCommand} (read : pipeline rest = .ok cmd) :
    cmd.Plain toLowercase := by
  have words (w : String) (member : w ∈ splitWhitespace rest) := isWord_of_mem member
  rw [pipeline] at read
  split at read
  · cases read
  · next model others given =>
      cases read
      rw [given, List.forall_mem_cons] at words
      refine ⟨by decide, ?_⟩
      intro e entry
      have same : e = ⟨"model_path", model⟩ := by simpa [AList.entries_insert] using entry
      have key : '=' ∉ "model_path".toList ∧ IsWord "model_path" := by decide
      subst same
      exact ⟨key.1, List.forall_mem_append.mpr ⟨key.2.free, words.1.free⟩⟩

/-- The session is a number, and the command may be left out. -/
theorem sessionInference_cases (rest : List Char) :
    sessionInference rest = .error "用法: session inference [command] <session_id> <model_path>" ∨
    ∃ command sid modelPath : String, (command = "single_inf" ∨ command ∈ splitWhitespace rest) ∧
      modelPath ∈ splitWhitespace rest ∧
      (sessionInference rest = .error s!"无效 session_id: '{sid}'" ∨
        ∃ n, parseNat usizeBound sid.toList = .ok n ∧
          sessionInference rest = .ok (.sessionInference command n modelPath)) := by
  rw [sessionInference]
  split
  · exact .inl rfl
  · exact .inl rfl
  · next sid modelPath given =>
      refine .inr ⟨"single_inf", sid, modelPath, .inl rfl, by simp [given], ?_⟩
      dsimp only
      cases parsed : parseNat usizeBound sid.toList with
      | error e => exact .inl rfl
      | ok n => exact .inr ⟨n, rfl, rfl⟩
  · next command sid modelPath others given =>
      refine .inr ⟨command, sid, modelPath, .inr (by simp [given]), by simp [given], ?_⟩
      dsimp only
      cases parsed : parseNat usizeBound sid.toList with
      | error e => exact .inl rfl
      | ok n => exact .inr ⟨n, rfl, rfl⟩

theorem sessionInference_plain {rest : List Char} {cmd : UserCommand} (read : sessionInference rest = .ok cmd) :
    cmd.Plain toLowercase := by
  have single : IsWord "single_inf" := by decide
  rcases sessionInference_cases rest with
    refused | ⟨command, sid, modelPath, word, model, refused | ⟨n, parsed, accepted⟩⟩
  · rw [refused] at read
    cases read
  · rw [refused] at read
    cases read
  · rw [accepted] at read
    cases read
    have valid : IsWord command := word.elim (fun same => same ▸ single) isWord_of_mem
    exact ⟨valid, parseNat_lt (by decide) parsed, isWord_of_mem model⟩

/-- What a rule accepts is plain. -/
def Rule.Sound (toLowercase : String → String) : Rule → Prop
  | .alone _ cmd => cmd.Plain toLowercase
  | .leading _ parse => ∀ rest cmd, parse rest = .ok cmd → cmd.Plain toLowercase

theorem sound_phrase {words usage : String} {make : String → UserCommand}
    (plain : ∀ value, IsPhrase value → (make value).Plain toLowercase) :
    (Rule.leading words (phrase usage make)).Sound toLowercase := by
  intro rest cmd read
  obtain ⟨value, valid, rfl⟩ := phrase_plain read
  exact plain value valid

theorem sound_number {words : String} {refuse : String → String} {make : ℕ → UserCommand}
    (plain : ∀ n < usizeBound, (make n).Plain toLowercase) :
    (Rule.leading words (number refuse make)).Sound toLowercase := by
  intro rest cmd read
  obtain ⟨n, small, rfl⟩ := number_plain read
  exact plain n small

theorem rules_sound (lower : Lowercases toLowercase) : ∀ rule ∈ rules toLowercase, rule.Sound toLowercase := by
  simp only [rules, List.forall_mem_cons]
  refine ⟨trivial, sound_phrase fun _ valid => valid, sound_number fun _ small => small,
    sound_number fun _ small => small, fun _ _ => sessionInference_plain, sound_phrase fun _ valid => ⟨rfl, valid⟩,
    sound_number fun _ small => small, trivial, fun _ _ => setDevice_plain lower, trivial, trivial, trivial,
    sound_phrase fun _ valid => valid, fun _ _ => send_plain, fun _ _ => distribute_plain, fun _ _ => pipeline_plain,
    sound_phrase fun _ valid => valid, sound_phrase fun _ valid => valid, fun _ _ => exec_plain,
    fun _ _ => rexec_plain, ?_⟩
  simp

theorem plain_of_parse (lower : Lowercases toLowercase) {input : List Char} {cmd : UserCommand}
    (read : parseUserCommand toLowercase input = .ok (some cmd)) : cmd.Plain toLowercase := by
  rw [parseUserCommand] at read
  split at read
  · cases read
  · split at read
    · next result found =>
        obtain ⟨rule, listed, applied⟩ := List.exists_of_findSome?_eq_some found
        have sound := rules_sound lower rule listed
        cases rule with
        | alone words cmd' =>
            rw [Rule.apply] at applied
            split at applied
            · cases applied
              cases read
              exact sound
            · cases applied
        | leading words parse =>
            obtain ⟨rest, behind, rfl⟩ := Option.map_eq_some_iff.mp applied
            cases parsed : parse rest with
            | error e => simp [parsed, Except.map] at read
            | ok cmd' =>
                rw [parsed] at read
                cases read
                exact sound rest _ parsed
    · cases read

theorem toLower_cases (c : Char) :
    c.toLower = c ∨ 65 ≤ c.toNat ∧ c.toNat ≤ 90 ∧ c.toLower.toNat = c.toNat + 32 := by
  by_cases upper : c.val ≥ 'A'.val ∧ c.val ≤ 'Z'.val
  · right
    have low : 65 ≤ c.toNat := upper.1
    have high : c.toNat ≤ 90 := upper.2
    have lower : c.toLower = _ := dif_pos upper
    have sum : (c.val + ('a'.val - 'A'.val)).toNat = (c.toNat + 32) % 2 ^ 32 := UInt32.toNat_add ..
    rw [Nat.mod_eq_of_lt (by omega)] at sum
    exact ⟨low, high, (congrArg Char.toNat lower).trans sum⟩
  · exact .inl (dif_neg upper)

theorem toList_toLower (s : String) : s.toLower.toList = s.toList.map Char.toLower := String.toList_map ..

/-- The lower case of the letters from `A` to `Z`. -/
theorem lowercases_toLower : Lowercases String.toLower where
  idempotent s := by
    rw [← String.toList_inj]
    rw [toList_toLower, toList_toLower, List.map_map]
    apply List.map_congr_left
    intro c _
    rcases toLower_cases c with same | ⟨low, high, lower⟩
    · simp [same]
    · rcases toLower_cases c.toLower with same | ⟨low', high', -⟩
      · exact same
      · omega
  stripped := by
    have blank (c : Char) : isWhiteSpace c.toLower = isWhiteSpace c := by
      rcases toLower_cases c with same | ⟨low, high, lower⟩
      · rw [same]
      · have solid : isWhiteSpace c = false := by
          rw [Bool.eq_false_iff]
          intro blank
          simp [isWhiteSpace] at blank
          omega
        rw [solid, Bool.eq_false_iff]
        intro blank
        simp [isWhiteSpace] at blank
        omega
    intro s plain
    rw [toList_toLower]
    constructor
    · intro c first
      rw [List.head?_map] at first
      obtain ⟨d, here, rfl⟩ := Option.map_eq_some_iff.mp first
      rw [blank]
      exact plain.first d here
    · intro c last
      rw [List.getLast?_map] at last
      obtain ⟨d, here, rfl⟩ := Option.map_eq_some_iff.mp last
      rw [blank]
      exact plain.last d here

/-- Exactly the plain commands are read from some line, and each is read from the line it is written as. -/
theorem accepted_iff (lower : Lowercases toLowercase) (cmd : UserCommand) :
    ((∃ input, parseUserCommand toLowercase input = .ok (some cmd)) ↔ cmd.Plain toLowercase) ∧
    ((∃ input, parseUserCommand toLowercase input = .ok (some cmd)) →
      parseUserCommand toLowercase cmd.text = .ok (some cmd)) := by
  have sound : (∃ input, parseUserCommand toLowercase input = .ok (some cmd)) → cmd.Plain toLowercase := by
    rintro ⟨input, read⟩
    exact plain_of_parse lower read
  exact ⟨⟨sound, fun plain => ⟨cmd.text, parse_text plain⟩⟩, fun read => parse_text (sound read)⟩

/-- What `exec infer n=5 n=7` is read as. -/
def inferCommand : UserCommand := .execute "infer" ((∅ : Table String String).insert "n" "7")

theorem accepted_iff_inferCommand :
    parseUserCommand String.toLower "exec infer n=7".toList = .ok (some inferCommand) :=
  (accepted_iff lowercases_toLower inferCommand).2 ⟨" exec  infer n=5 n=7 ".toList, by rfl⟩

/-! What the ends without blanks leave no use for. -/

/-- The hints for a command word with nothing behind it. -/
def bareHints : List String :=
  ["用法: session create <model_name>", "用法: run <model_path>", "名称不能为空", "用法: pipeline <model_path>",
   "用法: profile <model_id>", "用法: dial <multiaddr>", "用法: exec <command> [key=value ...]"]

/-- No refusal of what is not all blanks is one of these hints. -/
def Explains (parse : List Char → Except String UserCommand) : Prop :=
  ∀ rest, trim rest ≠ [] → ∀ hint ∈ bareHints, parse rest ≠ .error hint

/-- Each hint begins with one of two characters. -/
theorem not_hint {e : String} (first : e.toList.head? ≠ some '用' ∧ e.toList.head? ≠ some '名') : e ∉ bareHints := by
  have heads : ∀ hint ∈ bareHints, hint.toList.head? = some '用' ∨ hint.toList.head? = some '名' := by decide
  intro member
  rcases heads e member with head | head
  · exact first.1 head
  · exact first.2 head

theorem explains_phrase {usage : String} {make : String → UserCommand} : Explains (phrase usage make) := by
  intro rest some' hint listed refused
  rw [phrase] at refused
  split at refused
  · next none' => exact some' none'
  · cases refused

theorem explains_number {refuse : String → String} {make : ℕ → UserCommand}
    (first : ∀ s, (refuse s).toList.head? ≠ some '用' ∧ (refuse s).toList.head? ≠ some '名') :
    Explains (number refuse make) := by
  intro rest some' hint listed refused
  rw [number] at refused
  split at refused
  · cases refused
  · cases refused
    exact not_hint (first _) listed

theorem explains_setDevice : Explains (setDevice toLowercase) := by
  intro rest some' hint listed refused
  rw [setDevice] at refused
  split at refused
  · cases refused
  · cases refused
    exact not_hint (by simp [ToString.toString]) listed

theorem splitWhitespace_ne_nil {rest : List Char} (some' : trim rest ≠ []) : splitWhitespace rest ≠ [] := by
  have solid : ∃ c ∈ rest, isWhiteSpace c = false := by
    by_contra blank
    push Not at blank
    exact some' (strip_eq_nil.mpr (by simpa using blank))
  simpa [splitWhitespace] using tokens_ne_nil solid

/-- The message names the pair. -/
theorem parseParams_error {args : List String} {e : String} (refused : parseParams args = .error e) :
    ∃ arg : String, e = s!"参数格式无效: '{arg}'" := by
  obtain ⟨arg, -, t, -, failed⟩ := foldlM_error (P := fun _ => True) refused trivial fun _ _ _ => trivial
  split at failed
  · cases failed
    exact ⟨arg, rfl⟩
  · cases failed

theorem explains_exec : Explains exec := by
  intro rest some' hint listed refused
  rw [exec] at refused
  split at refused
  · next empty => exact splitWhitespace_ne_nil some' empty
  · next command args given =>
      cases parsed : parseParams args with
      | error e =>
          rw [parsed] at refused
          cases refused
          obtain ⟨arg, rfl⟩ := parseParams_error parsed
          exact not_hint (by simp [ToString.toString]) listed
      | ok params => simp [parsed, Except.map] at refused

theorem explains_rexec : Explains rexec := by
  intro rest some' hint listed refused
  rw [rexec] at refused
  split at refused
  · cases refused
    exact absurd listed (by decide)
  · cases refused
    exact absurd listed (by decide)
  · next peer command args given =>
      cases parsed : parseParams args with
      | error e =>
          rw [parsed] at refused
          cases refused
          obtain ⟨arg, rfl⟩ := parseParams_error parsed
          exact not_hint (by simp [ToString.toString]) listed
      | ok params => simp [parsed, Except.map] at refused

theorem explains_pipeline : Explains pipeline := by
  intro rest some' hint listed refused
  rw [pipeline] at refused
  split at refused
  · next empty => exact splitWhitespace_ne_nil some' empty
  · cases refused

theorem explains_send : Explains send := by
  intro rest some' hint listed refused
  rw [send] at refused
  split at refused
  · cases refused
  · cases refused
    exact absurd listed (by decide)

theorem explains_sessionInference : Explains sessionInference := by
  intro rest some' hint listed refused
  rcases sessionInference_cases rest with
    usage | ⟨command, sid, modelPath, -, -, invalid | ⟨n, -, accepted⟩⟩
  · rw [usage] at refused
    cases refused
    exact absurd listed (by decide)
  · rw [invalid] at refused
    cases refused
    exact not_hint (by simp [ToString.toString]) listed
  · rw [accepted] at refused
    cases refused

theorem explains_distribute : Explains distribute := by
  intro rest some' hint listed refused
  rw [distribute] at refused
  split at refused
  · cases refused
    exact absurd listed (by decide)
  · cases refused
    exact absurd listed (by decide)
  · next modelPath args single given =>
      cases parsed : args.mapM fun arg => (parsePeerAssignment arg).mapError fun e => s!"解析 '{arg}' 失败: {e}" with
      | error e =>
          rw [parsed] at refused
          cases refused
          obtain ⟨arg, -, failed⟩ := mem_of_mapM_error parsed
          cases assigned : parsePeerAssignment arg with
          | error e =>
              rw [assigned] at failed
              cases failed
              exact not_hint (by simp [ToString.toString]) listed
          | ok peer => simp [assigned, Except.mapError] at failed
      | ok peers => simp [parsed, Except.map] at refused

/-- Each word with something behind it ends with a blank. -/
def Rule.Explains : Rule → Prop
  | .alone _ _ => True
  | .leading words parse => words.toList.getLast? = some ' ' ∧ Tui.Explains parse

theorem rules_explain : ∀ rule ∈ rules toLowercase, rule.Explains := by
  simp only [rules, List.forall_mem_cons]
  refine ⟨trivial, ⟨rfl, explains_phrase⟩, ⟨rfl, explains_number ?_⟩, ⟨rfl, explains_number ?_⟩,
    ⟨rfl, explains_sessionInference⟩, ⟨rfl, explains_phrase⟩, ⟨rfl, explains_number ?_⟩, trivial,
    ⟨rfl, explains_setDevice⟩, trivial, trivial, trivial, ⟨rfl, explains_phrase⟩, ⟨rfl, explains_send⟩,
    ⟨rfl, explains_distribute⟩, ⟨rfl, explains_pipeline⟩,
    ⟨rfl, explains_phrase⟩, ⟨rfl, explains_phrase⟩, ⟨rfl, explains_exec⟩, ⟨rfl, explains_rexec⟩, by simp⟩
  all_goals exact fun s => by simp [ToString.toString]

theorem stripPrefix_some {front line rest : List Char} (found : stripPrefix front line = some rest) :
    line = front ++ rest := by
  induction front generalizing line with
  | nil => exact (Option.some_inj.mp found)
  | cons c front ih =>
      cases line with
      | nil => cases found
      | cons d line =>
          rw [stripPrefix] at found
          split at found
          · next same => rw [same, List.cons_append, ← ih found]
          · cases found

/-- Behind a word with a blank at its end there is something in a stripped line. -/
theorem solid_behind {words line rest : List Char} (stripped : Stripped isWhiteSpace line)
    (blank : words.getLast? = some ' ') (whole : line = words ++ rest) : trim rest ≠ [] := by
  intro empty
  have blanks := strip_eq_nil.mp (show strip isWhiteSpace rest = [] from empty)
  have last : ∃ c, line.getLast? = some c ∧ isWhiteSpace c = true := by
    rw [whole]
    cases rest with
    | nil => exact ⟨' ', by rwa [List.append_nil], by decide⟩
    | cons d rest =>
        rw [List.getLast?_append_of_ne_nil _ (by simp), List.getLast?_eq_some_getLast (by simp)]
        exact ⟨_, rfl, blanks _ (List.getLast_mem _)⟩
  obtain ⟨c, last, white⟩ := last
  rw [stripped.last c last] at white
  cases white

/-- No input is answered with a hint for a command word with nothing behind it: the blank behind such a word is
stripped before the word is looked for. -/
theorem hint_never (input : List Char) : ∀ hint ∈ bareHints, parseUserCommand toLowercase input ≠ .error hint := by
  intro hint listed refused
  rw [parseUserCommand] at refused
  split at refused
  · cases refused
  · split at refused
    · next result found =>
        obtain ⟨rule, among, applied⟩ := List.exists_of_findSome?_eq_some found
        have explains := rules_explain rule among
        cases rule with
        | alone words cmd =>
            rw [Rule.apply] at applied
            split at applied
            · cases applied
              cases refused
            · cases applied
        | leading words parse =>
            obtain ⟨rest, behind, rfl⟩ := Option.map_eq_some_iff.mp applied
            cases parsed : parse rest with
            | error e =>
                rw [parsed] at refused
                cases refused
                have stripped : Stripped isWhiteSpace (trim input) := stripped_strip isWhiteSpace input
                exact explains.2 rest (solid_behind stripped explains.1 (stripPrefix_some behind)) hint listed parsed
            | ok cmd => simp [parsed, Except.map] at refused
    · cases refused
      exact not_hint (by simp [ToString.toString]) listed

theorem hint_never_run : parseUserCommand id "run ".toList ≠ .error "用法: run <model_path>" :=
  hint_never _ _ (by decide)

end Pleiades.Tui
