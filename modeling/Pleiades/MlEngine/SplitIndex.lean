import Pleiades.Lib.Balanced
import Pleiades.Lib.Slices

/-!
# Indexed splits in chat templates

`rewrite_split_index` turns `.split(args)[0]` and `.split(args)[-1]` into filters: what its
scan over byte positions does to every template, and which calls it passes over. The arguments
of a call are a balanced text whose literals may escape their quotes; the code knows no escapes.
-/
namespace Pleiades.MlEngine

open Lib

def dotSplit : List Char := ".split(".toList

def barSplit : List Char := " | split(".toList

def singleQuote : Char := .ofNat 39

def doubleQuote : Char := .ofNat 34

/-- The loop of `find_matching_paren`, at the character that starts at byte `i`. -/
def matchingParen (depth : ℕ) (inSingle inDouble : Bool) (i : ℕ) : List Char → Option ℕ
  | [] => none
  | c :: cs =>
    let next := i + c.utf8Size
    if c = singleQuote ∧ !inDouble then matchingParen depth (!inSingle) inDouble next cs
    else if c = doubleQuote ∧ !inSingle then matchingParen depth inSingle (!inDouble) next cs
    else if c = '(' ∧ !inSingle ∧ !inDouble then matchingParen (depth + 1) inSingle inDouble next cs
    else if c = ')' ∧ !inSingle ∧ !inDouble then
      if depth - 1 = 0 then some i else matchingParen (depth - 1) inSingle inDouble next cs
    else matchingParen depth inSingle inDouble next cs

def findMatchingParen (s : List Char) : Option ℕ := matchingParen 1 false false 0 s

/-- How a scan ends without a text. -/
inductive ScanError where
  | panic
  | unfinished
  deriving DecidableEq

/-- A round from the call at byte `abs` on: what it pushes, and where the next one starts. -/
def splitCall (template : List Char) (abs : ℕ) : Option (List Char × ℕ) := do
  let afterDotSplit := abs + (utf8Bytes dotSplit).length
  let tail ← sliceFrom template afterDotSplit
  match findMatchingParen tail with
  | some stop =>
    let splitArgsEnd := afterDotSplit + stop + 1
    let rest ← sliceFrom template splitArgsEnd
    if "[0]".toList <+: rest then
      let args ← slice template afterDotSplit splitArgsEnd
      some (barSplit ++ (args ++ " | first".toList), splitArgsEnd + 3)
    else if "[-1]".toList <+: rest then
      let args ← slice template afterDotSplit splitArgsEnd
      some (barSplit ++ (args ++ " | last".toList), splitArgsEnd + 4)
    else
      let call ← slice template abs splitArgsEnd
      let width := (rest.head?.map Char.utf8Size).getD 0
      let next ← slice rest 0 width
      some (call ++ next, splitArgsEnd + width)
  | none =>
    let call ← sliceFrom template abs
    some (call, (utf8Bytes template).length)

/-- One round of the loop at byte `i`. -/
def splitRound (template : List Char) (i : ℕ) : Option (List Char × ℕ) :=
  match position (utf8Bytes dotSplit) ((utf8Bytes template).drop i) with
  | some pos => do
    let front ← slice template i (i + pos)
    let (text, next) ← splitCall template (i + pos)
    some (front ++ text, next)
  | none => do
    let rest ← sliceFrom template i
    some (rest, (utf8Bytes template).length)

def rewriteFrom (template : List Char) : ℕ → ℕ → List Char → Except ScanError (List Char)
  | 0, _, _ => .error .unfinished
  | fuel + 1, i, out =>
    if i < (utf8Bytes template).length then
      match splitRound template i with
      | none => .error .panic
      | some (text, next) => rewriteFrom template fuel next (out ++ text)
    else .ok out

def rewriteSplitIndex (template : String) : Except ScanError String :=
  (rewriteFrom template.toList ((utf8 template).length + 1) 0 []).map String.ofList

/-- The index behind a call. -/
inductive Index where
  | first
  | last
  deriving DecidableEq

def Index.source : Index → List Char
  | first => "[0]".toList
  | last => "[-1]".toList

def Index.filter : Index → List Char
  | first => " | first".toList
  | last => " | last".toList

/-- What a scan takes a template for: copied text, and calls with an index. -/
inductive Piece where
  | text (cs : List Char)
  | call (args : List Char) (index : Index)
  deriving DecidableEq

def Piece.source : Piece → List Char
  | text cs => cs
  | call args index => dotSplit ++ (args ++ ')' :: index.source)

def Piece.target : Piece → List Char
  | text cs => cs
  | call args index => barSplit ++ (args ++ ')' :: index.filter)

def backslash : Char := .ofNat 92

/-- The characters that arguments are read by. -/
def parens : Marks Char where
  opening := '('
  closing := ')'
  quote c := c = singleQuote || c = doubleQuote
  escape := some backslash
  apart := by decide
  bare := by decide
  noQuote q quoted same := by
    obtain rfl := Option.some.inj same
    cases quoted

/-- The arguments in front of the parenthesis that closes them, and what follows it. -/
def closing (cs : List Char) : Option (List Char × List Char) := parens.matching 0 .code cs

/-- The same as the code cuts them, to which a backslash is a character like any other. -/
def cutArgs (cs : List Char) : Option (List Char × List Char) := parens.unescaped.matching 0 .code cs

def indexed (cs : List Char) : Option (Index × List Char) :=
  if "[0]".toList <+: cs then some (.first, cs.drop 3)
  else if "[-1]".toList <+: cs then some (.last, cs.drop 4)
  else none

/-- The pieces of one round, and the template from the next round on. -/
def readRound (cs : List Char) : List Piece × List Char :=
  match position dotSplit cs with
  | none => ([.text cs], [])
  | some n =>
    match cutArgs (cs.drop (n + 7)) with
    | none => ([.text cs], [])
    | some (args, after) =>
      match indexed after with
      | some (index, rest) => ([.text (cs.take n), .call args index], rest)
      | none => ([.text (cs.take n ++ (dotSplit ++ (args ++ ')' :: after.take 1)))], after.drop 1)

/-- The pieces of a scan; every round takes a character at least. -/
def piecesWithin : ℕ → List Char → List Piece
  | 0, _ => []
  | fuel + 1, cs => if cs = [] then [] else (readRound cs).1 ++ piecesWithin fuel (readRound cs).2

def pieces (cs : List Char) : List Piece := piecesWithin cs.length cs

/-- A text that begins with an indexed call: its arguments, the index, and what follows. -/
def call? (cs : List Char) : Option (List Char × Index × List Char) :=
  if dotSplit <+: cs then
    (closing (cs.drop 7)).bind fun p => (indexed p.2).map fun q => (p.1, q.1, q.2)
  else none

/-- Every indexed call replaced, those in arguments included; everything else stays. -/
def replacedWithin : ℕ → List Char → List Char
  | 0, cs => cs
  | _ + 1, [] => []
  | fuel + 1, c :: cs =>
    match call? (c :: cs) with
    | some (args, index, rest) =>
      barSplit ++ (replacedWithin fuel args ++ ')' :: (index.filter ++ replacedWithin fuel rest))
    | none => c :: replacedWithin fuel cs

def replaced (cs : List Char) : List Char := replacedWithin cs.length cs

/-- The scan ends without a panic, with every indexed call replaced. -/
def Replaces (template : String) : Prop :=
  ∃ out, rewriteSplitIndex template = .ok out ∧ out.toList = replaced template.toList

/-- No indexed call begins in a text that is copied or in the arguments of a call, and what the
scan takes for an indexed call is one, with these arguments. -/
def NoneOverlooked : List Piece → Prop
  | [] => True
  | .text cs :: ps => (∀ k < cs.length, call? ((cs ++ ps.flatMap Piece.source).drop k) = none) ∧ NoneOverlooked ps
  | .call args index :: ps =>
    call? ((Piece.call args index).source ++ ps.flatMap Piece.source) =
      some (args, index, ps.flatMap Piece.source) ∧
      (∀ k < args.length, call? (args.drop k) = none) ∧ NoneOverlooked ps

/-- What the two flags of the loop say. -/
inductive Flags : Reading Char → Bool → Bool → Prop
  | code : Flags .code false false
  | single : Flags (.literal singleQuote) true false
  | double : Flags (.literal doubleQuote) false true

/-- The loop with `depth` brackets open beside the first finds what the scan without escapes does. -/
theorem matchingParen_eq {reading : Reading Char} {inSingle inDouble : Bool} (flags : Flags reading inSingle inDouble)
    (depth i : ℕ) (cs : List Char) : matchingParen (depth + 1) inSingle inDouble i cs =
      (parens.unescaped.matching depth reading cs).map fun p => i + (utf8Bytes p.1).length := by
  induction cs generalizing reading inSingle inDouble depth i with
  | nil => rfl
  | cons c cs ih =>
      have onward {depth' : ℕ} {reading' : Reading Char} {inSingle' inDouble' : Bool}
          (flags' : Flags reading' inSingle' inDouble')
          (stepped : parens.unescaped.next depth reading c = some (depth', reading')) :
          matchingParen (depth' + 1) inSingle' inDouble' (i + c.utf8Size) cs =
            (parens.unescaped.matching depth reading (c :: cs)).map fun p => i + (utf8Bytes p.1).length := by
        rw [ih flags', Marks.matching, stepped, Option.map_map]
        congr 1
        funext p
        simp only [Function.comp_apply, utf8Bytes_cons, List.length_append, String.length_utf8EncodeChar, Nat.add_assoc]
      -- a literal goes on over whatever is not its quote
      have inside {q : Char} (other : c ≠ q) :
          parens.unescaped.next depth (.literal q) c = some (depth, .literal q) :=
        Marks.next_literal other (by simp [Marks.unescaped]) depth
      simp only [matchingParen, Bool.not_eq_true']
      cases flags with
      | single =>
          by_cases ends : c = singleQuote
          · subst ends
            simpa using onward .code (Marks.next_end _ depth)
          · simpa [ends] using onward .single (inside ends)
      | double =>
          by_cases ends : c = doubleQuote
          · subst ends
            simpa [singleQuote, doubleQuote] using onward .code (Marks.next_end _ depth)
          · simpa [ends] using onward .double (inside ends)
      | code =>
          by_cases single : c = singleQuote
          · subst single
            simpa using onward .single (Marks.next_quote rfl depth)
          by_cases double : c = doubleQuote
          · subst double
            simpa [singleQuote, doubleQuote] using onward .double (Marks.next_quote rfl depth)
          by_cases opens : c = '('
          · subst opens
            simpa [single, double] using onward .code (Marks.next_opening depth)
          by_cases closes : c = ')'
          · subst closes
            cases depth with
            | zero =>
                have last : parens.unescaped.next 0 .code ')' = none := Marks.next_eq_none.mpr ⟨rfl, rfl, rfl⟩
                simp [single, double, Marks.matching, last]
            | succ depth => simpa [single, double] using onward .code (Marks.next_closing depth)
          · simpa [single, double, opens, closes] using
              onward .code (Marks.next_plain opens closes (by simp [parens, Marks.unescaped, single, double]) depth)

theorem findMatchingParen_eq (cs : List Char) :
    findMatchingParen cs = (cutArgs cs).map fun p => (utf8Bytes p.1).length := by
  rw [findMatchingParen, matchingParen_eq .code]
  simp only [Nat.zero_add]
  rfl

/-- The code cuts arguments as it should, unless a backslash stands directly in front of a quote in them. -/
theorem cutArgs_iff {cs args after : List Char} (kept : parens.QuotesKept args) :
    cutArgs cs = some (args, after) ↔ cs = args ++ ')' :: after ∧ parens.Balanced args :=
  (Marks.matching_unescaped_iff kept).trans Marks.matching_iff

example : (cutArgs [singleQuote, backslash, singleQuote, ')', singleQuote, ')'],
    closing [singleQuote, backslash, singleQuote, ')', singleQuote, ')']) =
    (some ([singleQuote, backslash, singleQuote], [singleQuote, ')']),
      some ([singleQuote, backslash, singleQuote, ')', singleQuote], [])) := by
  decide

theorem cutArgs_spec {cs args after : List Char} (cut : cutArgs cs = some (args, after)) :
    cs = args ++ ')' :: after ∧ findMatchingParen cs = some (utf8Bytes args).length := by
  rw [findMatchingParen_eq, cut]
  exact ⟨(Marks.matching_iff.mp cut).1, rfl⟩

theorem cutArgs_eq_none {cs : List Char} (unclosed : cutArgs cs = none) : findMatchingParen cs = none := by
  rw [findMatchingParen_eq, unclosed]
  rfl

theorem append_drop_front {α : Type} {front xs : List α} (here : front <+: xs) :
    front ++ xs.drop front.length = xs := by
  obtain ⟨back, rfl⟩ := here
  rw [List.drop_left]

theorem indexed_spec {after rest : List Char} {index : Index} (found : indexed after = some (index, rest)) :
    after = index.source ++ rest := by
  unfold indexed at found
  split at found
  · next zero =>
      cases found
      exact (append_drop_front zero).symm
  · split at found
    · next last =>
        cases found
        exact (append_drop_front last).symm
    · cases found

/-- The four ways a round goes. -/
inductive Round (cs : List Char) : List Piece × List Char → Prop
  | done (absent : position dotSplit cs = none) : Round cs ([.text cs], [])
  | unclosed {front tail : List Char} (found : position dotSplit cs = some front.length)
      (whole : cs = front ++ (dotSplit ++ tail)) (closed : cutArgs tail = none) : Round cs ([.text cs], [])
  | call {front args rest : List Char} {index : Index} (found : position dotSplit cs = some front.length)
      (whole : cs = front ++ (dotSplit ++ (args ++ ')' :: (index.source ++ rest))))
      (closed : cutArgs (args ++ ')' :: (index.source ++ rest)) = some (args, index.source ++ rest))
      (known : indexed (index.source ++ rest) = some (index, rest)) :
      Round cs ([.text front, .call args index], rest)
  | plain {front args after : List Char} (found : position dotSplit cs = some front.length)
      (whole : cs = front ++ (dotSplit ++ (args ++ ')' :: after)))
      (closed : cutArgs (args ++ ')' :: after) = some (args, after)) (known : indexed after = none) :
      Round cs ([.text (front ++ (dotSplit ++ (args ++ ')' :: after.take 1)))], after.drop 1)

theorem readRound_spec (cs : List Char) : Round cs (readRound cs) := by
  unfold readRound
  cases found : position dotSplit cs with
  | none => exact .done found
  | some n =>
      obtain ⟨front, tail, whole, rfl⟩ := position_eq_some found
      have behind : cs.drop (front.length + 7) = tail := by
        rw [whole, ← List.drop_drop, List.drop_left]
        rfl
      have before : cs.take front.length = front := by rw [whole, List.take_left]
      simp only [behind, before]
      cases closed : cutArgs tail with
      | none => exact .unclosed found whole closed
      | some p =>
          obtain ⟨args, after⟩ := p
          obtain ⟨rfl, -⟩ := cutArgs_spec closed
          dsimp only
          cases known : indexed after with
          | none => exact .plain found whole closed known
          | some q =>
              obtain ⟨index, rest⟩ := q
              obtain rfl := indexed_spec known
              exact .call found whole closed known

theorem readRound_source (cs : List Char) : (readRound cs).1.flatMap Piece.source ++ (readRound cs).2 = cs := by
  have round := readRound_spec cs
  generalize readRound cs = outcome at round
  cases round with
  | done | unclosed => simp [Piece.source]
  | call found whole => simp [Piece.source, whole]
  | @plain front args after found whole => simp [Piece.source, whole, -List.drop_one]

theorem dotSplit_length : dotSplit.length = 7 := rfl

/-- A round gets on. -/
theorem readRound_shorter {cs : List Char} (nonempty : cs ≠ []) : (readRound cs).2.length < cs.length := by
  have round := readRound_spec cs
  generalize readRound cs = outcome at round
  have := List.length_pos_iff.mpr nonempty
  cases round with
  | done | unclosed => exact this
  | call found whole => simp [whole, dotSplit_length]; omega
  | plain found whole => simp [whole, dotSplit_length]; omega

theorem piecesWithin_eq {fuel : ℕ} {cs : List Char} (enough : cs.length ≤ fuel) : piecesWithin fuel cs = pieces cs := by
  suffices same : ∀ fuel' : ℕ, cs.length ≤ fuel' → piecesWithin fuel cs = piecesWithin fuel' cs from
    same cs.length (Nat.le_refl _)
  induction fuel generalizing cs with
  | zero =>
      intro fuel' _
      obtain rfl := List.length_eq_zero_iff.mp (Nat.le_zero.mp enough)
      cases fuel' <;> rfl
  | succ fuel ih =>
      intro fuel' enough'
      by_cases empty : cs = []
      · subst empty
        cases fuel' <;> rfl
      · have shorter := readRound_shorter empty
        cases fuel' with
        | zero => omega
        | succ fuel' =>
            rw [piecesWithin, piecesWithin, if_neg empty, if_neg empty, ih (by omega) fuel' (by omega)]

theorem pieces_nil : pieces [] = [] := rfl

theorem pieces_round {cs : List Char} (nonempty : cs ≠ []) :
    pieces cs = (readRound cs).1 ++ pieces (readRound cs).2 := by
  have shorter := readRound_shorter nonempty
  obtain ⟨n, length⟩ : ∃ n, cs.length = n + 1 := Nat.exists_eq_succ_of_ne_zero (by omega)
  rw [pieces, length, piecesWithin, if_neg nonempty, piecesWithin_eq (by omega)]

theorem position_split (done cs : List Char) :
    position (utf8Bytes dotSplit) ((utf8Bytes (done ++ cs)).drop (utf8Bytes done).length) =
      (position dotSplit cs).map fun n => (utf8Bytes (cs.take n)).length := by
  rw [utf8Bytes_append, List.drop_left]
  have nonempty : dotSplit ≠ [] := List.length_pos_iff.mp (by rw [dotSplit_length]; decide)
  have ascii : dotSplit.all fun c => c.toNat < 128 := rfl
  exact position_utf8Bytes nonempty (fun c member => of_decide_eq_true (List.all_eq_true.mp ascii c member)) cs

section Call
variable {template front args after rest : List Char}

theorem utf8Bytes_paren : (utf8Bytes [')']).length = 1 := utf8Bytes_singleton_length _

theorem sliceFrom_args {tail : List Char} (whole : template = front ++ (dotSplit ++ tail)) :
    sliceFrom template ((utf8Bytes front).length + (utf8Bytes dotSplit).length) = some tail :=
  sliceFrom_eq (show template = (front ++ dotSplit) ++ tail by simp [whole]) (by simp)

theorem sliceFrom_after (whole : template = front ++ (dotSplit ++ (args ++ ')' :: after))) :
    sliceFrom template ((utf8Bytes front).length + (utf8Bytes dotSplit).length + (utf8Bytes args).length + 1) =
      some after :=
  sliceFrom_eq (show template = (front ++ (dotSplit ++ (args ++ [')']))) ++ after by simp [whole])
    (by simp [utf8Bytes_paren, Nat.add_assoc])

theorem slice_args (whole : template = front ++ (dotSplit ++ (args ++ ')' :: after))) :
    slice template ((utf8Bytes front).length + (utf8Bytes dotSplit).length)
      ((utf8Bytes front).length + (utf8Bytes dotSplit).length + (utf8Bytes args).length + 1) =
      some (args ++ [')']) :=
  slice_eq (show template = (front ++ dotSplit) ++ ((args ++ [')']) ++ after) by simp [whole]) (by simp)
    (by simp [utf8Bytes_paren, Nat.add_assoc])

theorem slice_call (whole : template = front ++ (dotSplit ++ (args ++ ')' :: after))) :
    slice template (utf8Bytes front).length
      ((utf8Bytes front).length + (utf8Bytes dotSplit).length + (utf8Bytes args).length + 1) =
      some (dotSplit ++ (args ++ [')'])) :=
  slice_eq (show template = front ++ ((dotSplit ++ (args ++ [')'])) ++ after) by simp [whole]) rfl
    (by simp [utf8Bytes_paren, Nat.add_assoc])

theorem slice_head (after : List Char) :
    slice after 0 ((after.head?.map Char.utf8Size).getD 0) = some (after.take 1) := by
  cases after with
  | nil => rfl
  | cons c cs =>
      refine slice_eq (show c :: cs = [] ++ ([c] ++ cs) from rfl) rfl ?_
      simp [utf8Bytes_singleton_length]

theorem splitCall_unclosed {tail : List Char} (whole : template = front ++ (dotSplit ++ tail))
    (closed : cutArgs tail = none) :
    splitCall template (utf8Bytes front).length = some (dotSplit ++ tail, (utf8Bytes template).length) := by
  have call : sliceFrom template (utf8Bytes front).length = some (dotSplit ++ tail) := sliceFrom_eq whole rfl
  simp only [splitCall, sliceFrom_args whole, cutArgs_eq_none closed, call, Option.bind_eq_bind, Option.bind_some]

theorem splitCall_call {index : Index} (whole : template = front ++ (dotSplit ++ (args ++ ')' :: after)))
    (closed : cutArgs (args ++ ')' :: after) = some (args, after)) (known : indexed after = some (index, rest)) :
    splitCall template (utf8Bytes front).length = some ((Piece.call args index).target,
      (utf8Bytes (front ++ (Piece.call args index).source)).length) := by
  have found := (cutArgs_spec closed).2
  have stop : (utf8Bytes (front ++ (Piece.call args index).source)).length =
      (utf8Bytes front).length + (utf8Bytes dotSplit).length + (utf8Bytes args).length + 1 +
        (utf8Bytes index.source).length := by
    rw [Piece.source, ← List.singleton_append]
    simp only [utf8Bytes_append, List.length_append, utf8Bytes_paren, Nat.add_assoc]
  simp only [splitCall, sliceFrom_args whole, found, sliceFrom_after whole, slice_args whole,
    Option.bind_eq_bind, Option.bind_some, stop]
  unfold indexed at known
  split at known
  · next zero =>
      cases known
      rw [if_pos zero, Piece.target, List.append_assoc]
      rfl
  · next nonzero =>
      split at known
      · next last =>
          cases known
          rw [if_neg nonzero, if_pos last, Piece.target, List.append_assoc]
          rfl
      · cases known

theorem splitCall_plain (whole : template = front ++ (dotSplit ++ (args ++ ')' :: after)))
    (closed : cutArgs (args ++ ')' :: after) = some (args, after)) (known : indexed after = none) :
    splitCall template (utf8Bytes front).length = some (dotSplit ++ (args ++ ')' :: after.take 1),
      (utf8Bytes (front ++ (dotSplit ++ (args ++ ')' :: after.take 1)))).length) := by
  have found := (cutArgs_spec closed).2
  have width : (after.head?.map Char.utf8Size).getD 0 = (utf8Bytes (after.take 1)).length := by
    cases after with
    | nil => rfl
    | cons c cs => exact (utf8Bytes_singleton_length c).symm
  have stop : (utf8Bytes (front ++ (dotSplit ++ (args ++ ')' :: after.take 1)))).length =
      (utf8Bytes front).length + (utf8Bytes dotSplit).length + (utf8Bytes args).length + 1 +
        (utf8Bytes (after.take 1)).length := by
    rw [← List.singleton_append]
    simp only [utf8Bytes_append, List.length_append, utf8Bytes_paren, Nat.add_assoc]
  simp only [splitCall, sliceFrom_args whole, found, sliceFrom_after whole, slice_call whole, slice_head,
    Option.bind_eq_bind, Option.bind_some, stop, width]
  unfold indexed at known
  split at known
  · cases known
  · next nonzero =>
      split at known
      · cases known
      · next other =>
          rw [if_neg nonzero, if_neg other]
          simp

end Call

theorem splitRound_found {done cs front tail text : List Char} {next : ℕ}
    (found : position dotSplit cs = some front.length) (whole : cs = front ++ tail)
    (called : splitCall (done ++ cs) (utf8Bytes (done ++ front)).length = some (text, next)) :
    splitRound (done ++ cs) (utf8Bytes done).length = some (front ++ text, next) := by
  have search := position_split done cs
  have front_there : cs.take front.length = front := by rw [whole, List.take_left]
  rw [found, Option.map_some, front_there] at search
  have before : slice (done ++ cs) (utf8Bytes done).length ((utf8Bytes done).length + (utf8Bytes front).length) =
      some front := slice_eq (by rw [whole]) rfl rfl
  rw [utf8Bytes_append, List.length_append] at called
  simp only [splitRound, search, before, called, Option.bind_eq_bind, Option.bind_some]

/-- What is pushed for the text after `done`, and where the next round starts. -/
theorem splitRound_eq (done cs : List Char) :
    splitRound (done ++ cs) (utf8Bytes done).length =
      some ((readRound cs).1.flatMap Piece.target,
        (utf8Bytes (done ++ (readRound cs).1.flatMap Piece.source)).length) := by
  have round := readRound_spec cs
  generalize readRound cs = outcome at round
  cases round with
  | done absent =>
      have search := position_split done cs
      rw [absent, Option.map_none] at search
      have rest : sliceFrom (done ++ cs) (utf8Bytes done).length = some cs := sliceFrom_eq rfl rfl
      simp only [splitRound, search, rest, Option.bind_eq_bind, Option.bind_some, List.flatMap_singleton,
        Piece.source, Piece.target]
  | @unclosed front tail found whole closed =>
      have template : done ++ cs = (done ++ front) ++ (dotSplit ++ tail) := by rw [whole, List.append_assoc]
      have called := splitCall_unclosed template closed
      rw [splitRound_found found whole called, whole]
      simp only [List.flatMap_singleton, Piece.source, Piece.target]
  | @call front args rest index found whole closed known =>
      have template : done ++ cs = (done ++ front) ++ (dotSplit ++ (args ++ ')' :: (index.source ++ rest))) := by
        rw [whole, List.append_assoc]
      have called := splitCall_call template closed known
      rw [splitRound_found found whole called]
      simp only [List.flatMap_cons, List.flatMap_nil, List.append_nil, Piece.source, Piece.target, List.append_assoc]
  | @plain front args after found whole closed known =>
      have template : done ++ cs = (done ++ front) ++ (dotSplit ++ (args ++ ')' :: after)) := by
        rw [whole, List.append_assoc]
      have called := splitCall_plain template closed known
      rw [splitRound_found found whole called]
      simp only [List.flatMap_singleton, Piece.source, Piece.target, List.append_assoc]

/-- The scan gets to its end and never cuts a character. -/
theorem rewriteFrom_eq {fuel : ℕ} {cs : List Char} (enough : cs.length < fuel) (done out : List Char) :
    rewriteFrom (done ++ cs) fuel (utf8Bytes done).length out = .ok (out ++ (pieces cs).flatMap Piece.target) := by
  induction fuel generalizing cs done out with
  | zero => omega
  | succ fuel ih =>
      rw [rewriteFrom]
      by_cases empty : cs = []
      · subst empty
        have ended : ¬ (utf8Bytes done).length < (utf8Bytes (done ++ [])).length := by simp
        rw [if_neg ended, pieces_nil, List.flatMap_nil, List.append_nil]
      · have before : (utf8Bytes done).length < (utf8Bytes (done ++ cs)).length := by
          obtain ⟨c, rest, rfl⟩ := List.exists_cons_of_ne_nil empty
          have := c.utf8Size_pos
          rw [utf8Bytes_append, List.length_append, utf8Bytes_cons, List.length_append, String.length_utf8EncodeChar]
          omega
        have shorter := readRound_shorter empty
        have less : (readRound cs).2.length < fuel := by omega
        have onward := ih less (done ++ (readRound cs).1.flatMap Piece.source)
          (out ++ (readRound cs).1.flatMap Piece.target)
        rw [List.append_assoc, readRound_source] at onward
        rw [if_pos before, splitRound_eq]
        dsimp only
        rw [onward, pieces_round empty, List.flatMap_append, List.append_assoc]

/-- What the scan makes of a template. -/
theorem rewriteSplitIndex_eq (template : String) :
    rewriteSplitIndex template = .ok (String.ofList ((pieces template.toList).flatMap Piece.target)) := by
  have enough : template.toList.length < (utf8 template).length + 1 := by
    rw [utf8_eq_flatMap]
    induction template.toList with
    | nil => exact Nat.zero_lt_succ _
    | cons c cs ih =>
        have := c.utf8Size_pos
        rw [List.flatMap_cons, List.length_append, List.length_cons, String.length_utf8EncodeChar]
        omega
  rw [rewriteSplitIndex]
  have whole := rewriteFrom_eq enough [] []
  rw [List.nil_append, utf8Bytes_nil, List.length_nil, List.nil_append] at whole
  rw [whole]
  rfl

theorem pieces_source (cs : List Char) : (pieces cs).flatMap Piece.source = cs := by
  induction length : cs.length using Nat.strong_induction_on generalizing cs with
  | _ n ih =>
      by_cases empty : cs = []
      · subst empty
        rfl
      · have shorter := readRound_shorter empty
        rw [pieces_round empty, List.flatMap_append, ih _ (length ▸ shorter) _ rfl, readRound_source]

theorem head?_dotSplit (tail : List Char) : (dotSplit ++ tail).head? = some '.' := rfl

theorem head?_barSplit (tail : List Char) : (barSplit ++ tail).head? = some ' ' := rfl

theorem drop_dotSplit (tail : List Char) : (dotSplit ++ tail).drop 7 = tail := rfl

theorem call?_spec {cs args rest : List Char} {index : Index} (called : call? cs = some (args, index, rest)) :
    cs = dotSplit ++ (args ++ ')' :: (index.source ++ rest)) := by
  unfold call? at called
  split at called
  · next here =>
      obtain ⟨tail, rfl⟩ := here
      obtain ⟨⟨args', after⟩, closed, called⟩ := Option.bind_eq_some_iff.mp called
      obtain ⟨⟨index', rest'⟩, known, same⟩ := Option.map_eq_some_iff.mp called
      cases same
      rw [drop_dotSplit] at closed
      dsimp only at known ⊢
      rw [(Marks.matching_iff.mp closed).1, indexed_spec known]
      rfl
  · cases called

theorem replacedWithin_eq {fuel : ℕ} {cs : List Char} (enough : cs.length ≤ fuel) :
    replacedWithin fuel cs = replaced cs := by
  suffices same : ∀ fuel' : ℕ, cs.length ≤ fuel' → replacedWithin fuel cs = replacedWithin fuel' cs from
    same cs.length (Nat.le_refl _)
  induction fuel generalizing cs with
  | zero =>
      intro fuel' _
      obtain rfl := List.length_eq_zero_iff.mp (Nat.le_zero.mp enough)
      cases fuel' <;> rfl
  | succ fuel ih =>
      intro fuel' enough'
      cases cs with
      | nil => cases fuel' <;> rfl
      | cons c cs =>
          rw [List.length_cons] at enough enough'
          cases fuel' with
          | zero => omega
          | succ fuel' =>
              rw [replacedWithin, replacedWithin]
              cases called : call? (c :: cs) with
              | none =>
                  dsimp only
                  rw [ih (by omega) fuel' (by omega)]
              | some p =>
                  obtain ⟨args, index, rest⟩ := p
                  have length := congrArg List.length (call?_spec called)
                  simp only [List.length_append, List.length_cons] at length
                  dsimp only
                  rw [ih (by omega) fuel' (by omega), ih (by omega) fuel' (by omega)]

theorem replaced_nil : replaced [] = [] := rfl

theorem replaced_cons {c : Char} {cs : List Char} (uncalled : call? (c :: cs) = none) :
    replaced (c :: cs) = c :: replaced cs := by
  rw [replaced, List.length_cons, replacedWithin, uncalled]
  rfl

theorem replaced_call {cs args rest : List Char} {index : Index} (called : call? cs = some (args, index, rest)) :
    replaced cs = barSplit ++ (replaced args ++ ')' :: (index.filter ++ replaced rest)) := by
  have length := congrArg List.length (call?_spec called)
  simp only [List.length_append, List.length_cons] at length
  obtain ⟨c, tail, rfl⟩ : ∃ c tail, cs = c :: tail :=
    List.exists_cons_of_ne_nil (List.length_pos_iff.mp (by omega))
  rw [List.length_cons] at length
  rw [replaced, List.length_cons, replacedWithin, called]
  dsimp only
  rw [replacedWithin_eq (by omega), replacedWithin_eq (by omega)]

/-- A front is kept only if no indexed call begins in it. -/
theorem replaced_append_iff {front back behind out : List Char} :
    replaced (front ++ back) ++ behind = front ++ out ↔
      (∀ k < front.length, call? ((front ++ back).drop k) = none) ∧ replaced back ++ behind = out := by
  induction front with
  | nil => simp
  | cons c front ih =>
      rw [List.cons_append, List.cons_append, List.length_cons, Nat.forall_lt_succ_left]
      simp only [List.drop_zero, List.drop_succ_cons]
      cases called : call? (c :: (front ++ back)) with
      | none =>
          rw [replaced_cons called, List.cons_append, List.cons_inj_right, ih]
          simp
      | some p =>
          obtain ⟨args, index, rest⟩ := p
          refine iff_of_false (fun same => ?_) (fun clear => Option.some_ne_none _ clear.1.1)
          have dot := congrArg List.head? (call?_spec called)
          rw [head?_dotSplit, List.head?_cons] at dot
          have head := congrArg List.head? same
          rw [replaced_call called, List.append_assoc, head?_barSplit, List.head?_cons, dot] at head
          exact absurd head (by decide)

theorem indexed_source (index : Index) (rest : List Char) : indexed (index.source ++ rest) = some (index, rest) := by
  cases index <;> rfl

theorem Index.source_head (index : Index) : ∃ tail, index.source = '[' :: tail := by
  cases index with
  | first => exact ⟨"0]".toList, rfl⟩
  | last => exact ⟨"-1]".toList, rfl⟩

theorem Index.filter_head (index : Index) : ∃ tail, index.filter = ' ' :: tail := by
  cases index with
  | first => exact ⟨"| first".toList, rfl⟩
  | last => exact ⟨"| last".toList, rfl⟩

theorem call?_bracket (cs : List Char) : call? ('[' :: cs) = none := by
  cases called : call? ('[' :: cs) with
  | none => rfl
  | some p =>
      obtain ⟨args, index, rest⟩ := p
      have dot := congrArg List.head? (call?_spec called)
      rw [head?_dotSplit] at dot
      cases dot

/-- Two readings of one call that come to the same text are the same one: behind the shorter arguments
the text has the bracket of an index where it has the blank of a filter. -/
theorem call_unique {args args' rest rest' out : List Char} {index index' : Index}
    (whole : args ++ ')' :: (index.source ++ rest) = args' ++ ')' :: (index'.source ++ rest'))
    (same : replaced args' ++ ')' :: (index'.filter ++ replaced rest') = args ++ ')' :: (index.filter ++ out)) :
    args' = args ∧ index' = index ∧ rest' = rest := by
  obtain ⟨bracket, source⟩ := index.source_head
  obtain ⟨bracket', source'⟩ := index'.source_head
  obtain ⟨blank, filter⟩ := index.filter_head
  obtain ⟨blank', filter'⟩ := index'.filter_head
  rcases List.append_eq_append_iff.mp whole with ⟨more, longer, tail⟩ | ⟨more, longer, tail⟩
  · cases more with
    | nil =>
        rw [List.nil_append, List.cons.injEq] at tail
        have index_same := congrArg indexed tail.2
        rw [indexed_source, indexed_source] at index_same
        cases index_same
        exact ⟨by simpa using longer, rfl, rfl⟩
    | cons c more =>
        rw [source, List.cons_append, List.cons_append, List.cons.injEq] at tail
        cases more with
        | nil => cases tail.2
        | cons d more =>
            obtain ⟨rfl, second⟩ := tail
            obtain ⟨rfl, -⟩ := List.cons.inj second
            have kept := (@replaced_append_iff (args ++ [')']) ('[' :: more) (')' :: (index'.filter ++ replaced rest'))
              (index.filter ++ out)).mp (by simpa [longer] using same)
            rw [replaced_cons (call?_bracket more), filter] at kept
            cases kept.2
  · cases more with
    | nil =>
        rw [List.nil_append, List.cons.injEq] at tail
        have index_same := congrArg indexed tail.2
        rw [indexed_source, indexed_source] at index_same
        cases index_same
        exact ⟨by simpa using longer.symm, rfl, rfl⟩
    | cons c more =>
        rw [source', List.cons_append, List.cons_append, List.cons.injEq] at tail
        cases more with
        | nil => cases tail.2
        | cons d more =>
            obtain ⟨rfl, second⟩ := tail
            obtain ⟨rfl, -⟩ := List.cons.inj second
            have kept := (@replaced_append_iff args' [] (')' :: (index'.filter ++ replaced rest'))
              (')' :: '[' :: (more ++ ')' :: (index.filter ++ out)))).mp (by simpa [longer] using same)
            rw [replaced_nil, filter'] at kept
            cases kept.2

/-- What an indexed call of the scan becomes is right if it is that call, with nothing in its arguments. -/
theorem target_call_iff {args rest out : List Char} {index : Index} {cs : List Char}
    (whole : cs = dotSplit ++ (args ++ ')' :: (index.source ++ rest))) :
    replaced cs = (Piece.call args index).target ++ out ↔
      call? cs = some (args, index, rest) ∧ (∀ k < args.length, call? (args.drop k) = none) ∧ replaced rest = out := by
  have args_kept (behind out : List Char) := @replaced_append_iff args [] behind out
  rw [Piece.target, List.append_assoc, List.append_assoc, List.cons_append]
  cases called : call? cs with
  | none =>
      subst whole
      refine iff_of_false (fun same => ?_) nofun
      have head := congrArg List.head? same
      rw [show dotSplit = '.' :: "split(".toList from rfl, List.cons_append] at called head
      rw [replaced_cons called, head?_barSplit] at head
      cases head
  | some p =>
      obtain ⟨args', index', rest'⟩ := p
      rw [replaced_call called, List.append_cancel_left_eq]
      constructor
      · intro same
        obtain ⟨rfl, rfl, rfl⟩ := call_unique (List.append_cancel_left (whole.symm.trans (call?_spec called))) same
        have kept := (args_kept _ _).mp (by simpa only [List.append_nil] using same)
        simpa [replaced_nil] using kept
      · rintro ⟨same, clear, rfl⟩
        cases same
        have kept := (args_kept (')' :: (index.filter ++ replaced rest)) _).mpr ⟨by simpa using clear, rfl⟩
        simpa [replaced_nil] using kept

/-- The scan does what it should if no call is overlooked. -/
theorem target_eq_iff (cs : List Char) :
    replaced cs = (pieces cs).flatMap Piece.target ↔ NoneOverlooked (pieces cs) := by
  induction length : cs.length using Nat.strong_induction_on generalizing cs with
  | _ n ih =>
      by_cases empty : cs = []
      · subst empty
        simp [pieces_nil, replaced, replacedWithin, NoneOverlooked]
      · have shorter := readRound_shorter empty
        rw [pieces_round empty]
        have later := ih _ (length ▸ shorter) _ rfl
        have source := pieces_source (readRound cs).2
        have round := readRound_spec cs
        generalize readRound cs = outcome at round later source
        cases round with
        | done | unclosed =>
            have kept := @replaced_append_iff cs [] [] []
            simpa [pieces_nil, NoneOverlooked, Piece.target, replaced, replacedWithin] using kept
        | @call front args rest index found whole closed known =>
            rw [List.flatMap_append, List.flatMap_cons, List.flatMap_singleton, Piece.target,
              List.cons_append, List.singleton_append, NoneOverlooked, NoneOverlooked, List.flatMap_cons, source, ← later]
            have template : (Piece.call args index).source ++ rest = dotSplit ++ (args ++ ')' :: (index.source ++ rest)) := by
              simp [Piece.source]
            have front_kept := @replaced_append_iff front ((Piece.call args index).source ++ rest) []
              ((Piece.call args index).target ++ (pieces rest).flatMap Piece.target)
            rw [List.append_nil, List.append_nil] at front_kept
            rw [← template] at whole
            rw [whole, List.append_assoc, front_kept, target_call_iff template]
        | @plain front args after found whole closed known =>
            have kept := @replaced_append_iff (front ++ (dotSplit ++ (args ++ ')' :: after.take 1))) (after.drop 1) []
              ((pieces (after.drop 1)).flatMap Piece.target)
            have template : (front ++ (dotSplit ++ (args ++ ')' :: after.take 1))) ++ after.drop 1 = cs := by
              simp [whole, -List.drop_one]
            rw [template, List.append_nil, List.append_nil] at kept
            rw [List.flatMap_append, List.flatMap_singleton, Piece.target, List.singleton_append, NoneOverlooked,
              source, template, kept, later]

/-- The scan always ends with a text, and when every indexed call is replaced in it. -/
theorem splits_replaced_iff (template : String) : (∃ out, rewriteSplitIndex template = .ok out) ∧
    (Replaces template ↔ NoneOverlooked (pieces template.toList)) := by
  have ends := rewriteSplitIndex_eq template
  refine ⟨⟨_, ends⟩, ?_⟩
  rw [← target_eq_iff]
  constructor
  · intro replaces
    obtain ⟨out, done, right⟩ := replaces
    rw [ends, Except.ok.injEq] at done
    rw [← right, ← done, String.toList_ofList]
  · intro right
    exact ⟨_, ends, by rw [String.toList_ofList, right]⟩

/-- An indexed call in double braces, its argument a literal of an escaped quote and a parenthesis. -/
def escapedQuote : String :=
  String.ofList ("\x7b\x7b a.split(".toList ++ singleQuote :: backslash :: singleQuote :: ')' :: singleQuote ::
    ")[0] \x7d\x7d".toList)

/-- The dot of a call that directly follows one without an index is copied with that one; and an
escaped quote ends the literal, so the call is cut too short and its index not found. -/
theorem splits_replaced_counterexample :
    ¬ Replaces "\x7b\x7b a.split(b).split(c)[0] \x7d\x7d" ∧ ¬ Replaces escapedQuote := by
  constructor
  · intro replaces
    obtain ⟨out, done, right⟩ := replaces
    have copied : rewriteSplitIndex "\x7b\x7b a.split(b).split(c)[0] \x7d\x7d" =
        .ok "\x7b\x7b a.split(b).split(c)[0] \x7d\x7d" := by
      decide +kernel
    rw [copied, Except.ok.injEq] at done
    subst done
    exact absurd right (by decide +kernel)
  · intro replaces
    obtain ⟨out, done, right⟩ := replaces
    have copied : rewriteSplitIndex escapedQuote = .ok escapedQuote := by
      decide +kernel
    rw [copied, Except.ok.injEq] at done
    subst done
    exact absurd right (by decide +kernel)

end Pleiades.MlEngine
