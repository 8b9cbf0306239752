import Pleiades.MlEngine.SplitIndex

/-!
# Method calls in chat templates

`rewrite_python_str_methods`, and when it leaves the text of a template alone: what stands
outside of its blocks and in the string literals of these.
-/
namespace Pleiades.MlEngine

open Lib

/-- `str::replace`; `skip` characters belong to the last match. -/
def replaceFrom (pattern replacement : List Char) : ℕ → List Char → List Char
  | _, [] => []
  | skip + 1, _ :: cs => replaceFrom pattern replacement skip cs
  | 0, c :: cs =>
    if pattern <+: c :: cs then replacement ++ replaceFrom pattern replacement (pattern.length - 1) cs
    else c :: replaceFrom pattern replacement 0 cs

def methods : List String := ["startswith", "endswith", "split", "lstrip", "rstrip", "strip"]

/-- A method call after its dot. -/
def callOf (method : String) : List Char := method.toList ++ ['(']

def rewriteMethod (out : List Char) (method : String) : List Char :=
  replaceFrom ('.' :: callOf method) (" | ".toList ++ callOf method) 0 out

def rewritePythonStrMethods (template : String) : Except ScanError String :=
  (rewriteSplitIndex template).map fun out => String.ofList (methods.foldl rewriteMethod out.toList)

inductive Block where
  | expression
  | statement
  deriving DecidableEq

/-- A block ends with this character and a brace. -/
def Block.last : Block → Char
  | expression => '}'
  | statement => '%'

inductive Quote where
  | single
  | double
  deriving DecidableEq

def Quote.char : Quote → Char
  | single => singleQuote
  | double => doubleQuote

inductive Mode where
  | text
  | comment
  | code (block : Block)
  | literal (block : Block) (quote : Quote)
  | escaped (block : Block) (quote : Quote)
  deriving DecidableEq

def Mode.isText : Mode → Bool
  | code _ => false
  | _ => true

/-- Where a template is read. `second` is set before the second character of a delimiter,
to whether that is text. -/
structure Lexer where
  mode : Mode
  second : Option Bool
  deriving DecidableEq

def Lexer.start : Lexer := ⟨.text, none⟩

/-- A character with the one ahead of it: whether it is text of the template. An expression ends at
the first pair of closing braces between its literals, also where braces are nested in it, and what
stands in a raw block is read as anywhere else. -/
def Lexer.next (s : Lexer) (c : Char) (ahead : Option Char) : Lexer × Bool :=
  match s.second, s.mode with
  | some isText, mode => (⟨mode, none⟩, isText)
  | none, .text =>
    if c = '{' ∧ ahead = some '{' then (⟨.code .expression, some false⟩, false)
    else if c = '{' ∧ ahead = some '%' then (⟨.code .statement, some false⟩, false)
    else if c = '{' ∧ ahead = some '#' then (⟨.comment, some true⟩, true)
    else (⟨.text, none⟩, true)
  | none, .comment =>
    if c = '#' ∧ ahead = some '}' then (⟨.text, some true⟩, true) else (⟨.comment, none⟩, true)
  | none, .code block =>
    if c = block.last ∧ ahead = some '}' then (⟨.text, some false⟩, false)
    else if c = singleQuote then (⟨.literal block .single, none⟩, false)
    else if c = doubleQuote then (⟨.literal block .double, none⟩, false)
    else (⟨.code block, none⟩, false)
  | none, .literal block quote =>
    if c = backslash then (⟨.escaped block quote, none⟩, true)
    else if c = quote.char then (⟨.code block, none⟩, false)
    else (⟨.literal block quote, none⟩, true)
  | none, .escaped block quote => (⟨.literal block quote, none⟩, true)

/-- The characters of a template, each with whether it is text. -/
def marks (s : Lexer) : List Char → List (Char × Bool)
  | [] => []
  | c :: cs => (c, (s.next c cs.head?).2) :: marks (s.next c cs.head?).1 cs

def joinCode : List (Option Char) → List (Option Char)
  | none :: rest => none :: rest
  | rest => none :: rest

/-- The text, with `none` for the code in between. -/
def outline : List (Char × Bool) → List (Option Char)
  | [] => []
  | (c, true) :: rest => some c :: outline rest
  | (_, false) :: rest => joinCode (outline rest)

/-- The rewritten template has the same text in the same places between its code. -/
def KeepsText (template : String) : Prop :=
  ∃ out, rewritePythonStrMethods template = .ok out ∧
    outline (marks .start out.toList) = outline (marks .start template.toList)

/-- The characters of a template, the dots of method calls, and the indices of the calls
that the scan for them replaces. -/
inductive Part where
  | char (c : Char)
  | dot
  | index (i : Index)
  deriving DecidableEq

namespace Part

def source : Part → List Char
  | char c => [c]
  | dot => ['.']
  | index i => i.source

def target : Part → List Char
  | char c => [c]
  | dot => " | ".toList
  | index i => i.filter

def isChar : Part → Bool
  | char _ => true
  | _ => false

end Part

def beginsCall (names : List String) (cs : List Char) : Bool :=
  names.any fun method => decide ('.' :: callOf method <+: cs)

/-- The parts of a text that is followed by `tail`. -/
def textParts (tail : List Char) : List Char → List Part
  | [] => []
  | c :: cs => (if beginsCall methods (c :: (cs ++ tail)) then .dot else .char c) :: textParts tail cs

def parts : List Piece → List Part
  | [] => []
  | .text cs :: ps => textParts (ps.flatMap Piece.source) cs ++ parts ps
  | .call args i :: ps =>
    textParts (i.source ++ ps.flatMap Piece.source) (dotSplit ++ (args ++ [')'])) ++ .index i :: parts ps

/-- The character part ahead. -/
def ahead : List Part → Option Char
  | .char c :: _ => some c
  | _ => none

def Mode.settle : Mode → Mode
  | escaped block quote => literal block quote
  | mode => mode

/-- The parts, each with whether it stands in the text. -/
def partMarks (s : Lexer) : List Part → List (Part × Bool)
  | [] => []
  | .char c :: ps => (.char c, (s.next c (ahead ps)).2) :: partMarks (s.next c (ahead ps)).1 ps
  | p :: ps => (p, s.mode.isText) :: partMarks ⟨s.mode.settle, none⟩ ps

/-- No dot of a method call and no index of an indexed call stands in the text. -/
def CallsInCode (template : List Char) : Prop :=
  ∀ p ∈ partMarks .start (parts (pieces template)), p.2 = true → p.1.isChar = true

/-! All replacements at once. -/

/-- A filter bar for the dot of every call of one of the methods. -/
def withFilters (names : List String) : List Char → List Char
  | [] => []
  | c :: cs => (if beginsCall names (c :: cs) then " | ".toList else [c]) ++ withFilters names cs

theorem beginsCall_iff {names : List String} {cs : List Char} :
    beginsCall names cs = true ↔ ∃ method ∈ names, '.' :: callOf method <+: cs := by
  simp [beginsCall]

theorem beginsCall_dot {names : List String} {c : Char} {cs : List Char} (begins : beginsCall names (c :: cs) = true) :
    c = '.' := by
  obtain ⟨method, -, here⟩ := beginsCall_iff.mp begins
  exact (List.cons_prefix_cons.mp here).1.symm

theorem prefix_append_cons {α : Type} {pattern xs : List α} {x : α} (free : x ∉ pattern) (rest : List α) :
    pattern <+: xs ++ x :: rest ↔ pattern <+: xs := by
  induction xs generalizing pattern with
  | nil =>
      cases pattern with
      | nil => simp
      | cons p pattern =>
          have other : p ≠ x := fun same => free (same ▸ List.mem_cons_self)
          simp [List.cons_prefix_cons, other]
  | cons y xs ih =>
      cases pattern with
      | nil => simp
      | cons p pattern =>
          rw [List.cons_append, List.cons_prefix_cons, List.cons_prefix_cons,
            ih fun member => free (List.mem_cons_of_mem _ member)]

theorem prefix_cons_iff_nil {α : Type} {pattern : List α} {x : α} (free : x ∉ pattern) (rest : List α) :
    pattern <+: x :: rest ↔ pattern = [] := by
  rw [← List.nil_append (x :: rest), prefix_append_cons free, List.prefix_nil]

section Filters
variable {names : List String} {method : String}

theorem prefix_withFilters {pattern : List Char} (dot : '.' ∉ pattern) (blank : ' ' ∉ pattern) (cs : List Char) :
    pattern <+: withFilters names cs ↔ pattern <+: cs := by
  induction cs generalizing pattern with
  | nil => rfl
  | cons c cs ih =>
      rw [withFilters]
      split
      · next begins =>
          rw [beginsCall_dot begins, prefix_cons_iff_nil dot]
          exact prefix_cons_iff_nil blank _
      · cases pattern with
        | nil => simp
        | cons p pattern =>
            rw [List.singleton_append, List.cons_prefix_cons, List.cons_prefix_cons,
              ih (fun member => dot (List.mem_cons_of_mem _ member)) fun member => blank (List.mem_cons_of_mem _ member)]

theorem withFilters_append {front : List Char} (free : '.' ∉ front) (cs : List Char) :
    withFilters names (front ++ cs) = front ++ withFilters names cs := by
  induction front with
  | nil => rfl
  | cons c front ih =>
      rw [List.mem_cons, not_or] at free
      have other : beginsCall names (c :: (front ++ cs)) ≠ true := fun begins => free.1 (beginsCall_dot begins).symm
      rw [List.cons_append, withFilters, if_neg other, ih free.2]
      rfl

theorem replaceFrom_drop (pattern replacement : List Char) (skip : ℕ) (cs : List Char) :
    replaceFrom pattern replacement skip cs = replaceFrom pattern replacement 0 (cs.drop skip) := by
  induction cs generalizing skip with
  | nil => cases skip <;> simp [replaceFrom]
  | cons c cs ih =>
      cases skip with
      | zero => rfl
      | succ skip => rw [replaceFrom, ih, List.drop_succ_cons]

/-- One replacement of `str::replace` after the other, or all dots at once. -/
theorem rewriteMethod_eq (dot : '.' ∉ callOf method) (cs : List Char) :
    rewriteMethod cs method = withFilters [method] cs := by
  induction length : cs.length using Nat.strong_induction_on generalizing cs with
  | _ n ih =>
      cases cs with
      | nil => rfl
      | cons c cs =>
          rw [rewriteMethod, replaceFrom, withFilters]
          by_cases here : '.' :: callOf method <+: c :: cs
          · have begins : beginsCall [method] (c :: cs) = true := by simpa [beginsCall] using here
            obtain ⟨rest, rfl⟩ := (List.cons_prefix_cons.mp here).2
            rw [if_pos here, if_pos begins, List.length_cons, Nat.add_sub_cancel, replaceFrom_drop, List.drop_left,
              withFilters_append dot, List.append_assoc]
            have shorter : rest.length < n := by
              rw [← length, List.length_cons, List.length_append]
              omega
            exact congrArg _ (congrArg _ (ih _ shorter rest rfl))
          · have begins : ¬ beginsCall [method] (c :: cs) = true := by simpa [beginsCall] using here
            rw [if_neg here, if_neg begins]
            exact congrArg _ (ih _ (length ▸ Nat.lt_succ_self _) cs rfl)

theorem withFilters_withFilters (dot : '.' ∉ callOf method) (blank : ' ' ∉ callOf method) (cs : List Char) :
    withFilters [method] (withFilters names cs) = withFilters (names ++ [method]) cs := by
  induction cs with
  | nil => rfl
  | cons c cs ih =>
      rw [withFilters, withFilters]
      by_cases begins : beginsCall names (c :: cs) = true
      · have more : beginsCall (names ++ [method]) (c :: cs) = true := by
          rw [beginsCall, List.any_append, Bool.or_eq_true]
          exact .inl begins
        rw [if_pos begins, if_pos more, withFilters_append (by decide), ih]
      · have same : beginsCall (names ++ [method]) (c :: cs) = beginsCall [method] (c :: withFilters names cs) := by
          rw [Bool.not_eq_true, beginsCall] at begins
          rw [beginsCall, List.any_append, begins, Bool.false_or]
          simp only [beginsCall, List.any_cons, List.any_nil, Bool.or_false, List.cons_prefix_cons,
            prefix_withFilters dot blank]
        rw [if_neg begins, List.singleton_append, withFilters, same, ih]

/-- What a name of a method has no character of. -/
def Named (pattern : List Char) : Prop := '.' ∉ pattern ∧ ' ' ∉ pattern ∧ '[' ∉ pattern

theorem named_methods : ∀ method ∈ methods, Named (callOf method) := by
  simp [methods, Named, callOf]

theorem foldl_rewriteMethod (later : List String) (named : ∀ method ∈ later, Named (callOf method)) (cs : List Char) :
    later.foldl rewriteMethod (withFilters names cs) = withFilters (names ++ later) cs := by
  induction later generalizing names with
  | nil => rw [List.foldl_nil, List.append_nil]
  | cons method later ih =>
      obtain ⟨⟨dot, blank, -⟩, others⟩ := List.forall_mem_cons.mp named
      rw [List.foldl_cons, rewriteMethod_eq dot, withFilters_withFilters dot blank, ih others, List.append_assoc,
        List.singleton_append]

theorem withFilters_nil (cs : List Char) : withFilters [] cs = cs := by
  induction cs with
  | nil => rfl
  | cons c cs ih =>
      rw [withFilters, ih]
      rfl

theorem foldl_methods (cs : List Char) : methods.foldl rewriteMethod cs = withFilters methods cs := by
  have all := @foldl_rewriteMethod [] methods named_methods cs
  rwa [withFilters_nil, List.nil_append] at all

end Filters

/-! The parts of a template. -/

/-- Two continuations that no method call reaches into. -/
def Alike (tail tail' : List Char) : Prop :=
  ∀ pattern front, Named pattern → (pattern <+: front ++ tail ↔ pattern <+: front ++ tail')

theorem beginsCall_alike {tail tail' : List Char} (alike : Alike tail tail') (c : Char) (cs : List Char) :
    beginsCall methods (c :: (cs ++ tail)) = beginsCall methods (c :: (cs ++ tail')) := by
  rw [Bool.eq_iff_iff, beginsCall_iff, beginsCall_iff]
  refine exists_congr fun method => and_congr_right fun member => ?_
  rw [List.cons_prefix_cons, List.cons_prefix_cons, alike _ cs (named_methods method member)]

theorem textParts_target {tail tail' : List Char} (alike : Alike tail tail') (cs : List Char) :
    withFilters methods (cs ++ tail) = (textParts tail' cs).flatMap Part.target ++ withFilters methods tail := by
  induction cs with
  | nil => rfl
  | cons c cs ih =>
      rw [List.cons_append, withFilters, ih, textParts, List.flatMap_cons, ← List.append_assoc,
        beginsCall_alike alike]
      cases beginsCall methods (c :: (cs ++ tail')) <;> rfl

theorem textParts_source (tail cs : List Char) : (textParts tail cs).flatMap Part.source = cs := by
  induction cs with
  | nil => rfl
  | cons c cs ih =>
      rw [textParts, List.flatMap_cons, ih]
      cases begins : beginsCall methods (c :: (cs ++ tail)) with
      | false => rfl
      | true =>
          rw [beginsCall_dot begins]
          rfl

theorem alike_cons {x y : Char} (tail tail' : List Char) (stop : ∀ pattern, Named pattern → x ∉ pattern ∧ y ∉ pattern) :
    Alike (x :: tail) (y :: tail') := by
  intro pattern front named
  obtain ⟨left, right⟩ := stop pattern named
  rw [prefix_append_cons left, prefix_append_cons right]

theorem alike_pieces (ps : List Piece) : Alike (ps.flatMap Piece.target) (ps.flatMap Piece.source) := by
  induction ps with
  | nil => exact fun pattern front _ => Iff.rfl
  | cons p ps ih =>
      cases p with
      | text cs =>
          intro pattern front named
          rw [List.flatMap_cons, List.flatMap_cons, Piece.target, Piece.source, ← List.append_assoc,
            ← List.append_assoc]
          exact ih pattern (front ++ cs) named
      | call args i => exact alike_cons _ _ fun pattern named => ⟨named.2.1, named.1⟩

theorem parts_source (ps : List Piece) : (parts ps).flatMap Part.source = ps.flatMap Piece.source := by
  induction ps with
  | nil => rfl
  | cons p ps ih =>
      cases p with
      | text cs => rw [parts, List.flatMap_append, textParts_source, ih, List.flatMap_cons, Piece.source]
      | call args i =>
          rw [parts, List.flatMap_append, textParts_source, List.flatMap_cons, ih, List.flatMap_cons, Piece.source,
            Part.source]
          simp

theorem withFilters_barSplit (cs : List Char) :
    withFilters methods (barSplit ++ cs) = barSplit ++ withFilters methods cs :=
  withFilters_append (by decide) cs

theorem withFilters_dotSplit (cs : List Char) :
    withFilters methods (dotSplit ++ cs) = barSplit ++ withFilters methods cs := by
  have begins : beginsCall methods ('.' :: (callOf "split" ++ cs)) = true :=
    beginsCall_iff.mpr ⟨"split", by simp [methods], List.prefix_append _ _⟩
  have name : '.' ∉ callOf "split" := by decide
  have split : dotSplit ++ cs = '.' :: (callOf "split" ++ cs) := rfl
  rw [split, withFilters, if_pos begins, withFilters_append name]
  rfl

theorem parts_target (ps : List Piece) :
    withFilters methods (ps.flatMap Piece.target) = (parts ps).flatMap Part.target := by
  induction ps with
  | nil => rfl
  | cons p ps ih =>
      cases p with
      | text cs =>
          rw [List.flatMap_cons, Piece.target, textParts_target (alike_pieces ps), ih, parts, List.flatMap_append]
      | call args i =>
          have alike : Alike (i.filter ++ ps.flatMap Piece.target) (i.source ++ ps.flatMap Piece.source) := by
            cases i <;> exact alike_cons _ _ fun pattern named => ⟨named.2.1, named.2.2⟩
          have called := textParts_target alike (dotSplit ++ (args ++ [')']))
          have filter : '.' ∉ i.filter := by cases i <;> decide
          rw [withFilters_append filter, ih, List.append_assoc, withFilters_dotSplit, ← withFilters_barSplit] at called
          rw [List.flatMap_cons, Piece.target, parts, List.flatMap_append, List.flatMap_cons, Part.target, ← called]
          simp

theorem rewritePythonStrMethods_eq (template : String) : rewritePythonStrMethods template =
    .ok (String.ofList ((parts (pieces template.toList)).flatMap Part.target)) := by
  rw [rewritePythonStrMethods, rewriteSplitIndex_eq, Except.map, String.toList_ofList, foldl_methods, parts_target]

/-! Reading the parts as the template or as what becomes of it. -/

/-- No delimiter has the character, and it neither quotes nor escapes. -/
def Inert (c : Char) : Prop := c ∉ ['{', '}', '%', '#', backslash, singleQuote, doubleQuote]

instance (c : Char) : Decidable (Inert c) := inferInstanceAs (Decidable (¬ _))

/-- A way to write the parts: characters as they are, the others somehow. -/
structure Writes (write : Part → List Char) : Prop where
  char : ∀ c, write (.char c) = [c]
  some_text : ∀ p, p.isChar = false → write p ≠ []
  inert : ∀ p, p.isChar = false → ∀ c ∈ write p, Inert c

theorem inert_of_all {cs : List Char} (all : cs.all (fun c => decide (Inert c)) = true) : ∀ c ∈ cs, Inert c :=
  fun c member => of_decide_eq_true (List.all_eq_true.mp all c member)

theorem writes_source : Writes Part.source where
  char _ := rfl
  some_text p other := by
    cases p with
    | char c => cases other
    | dot => decide
    | index i => cases i <;> decide
  inert p other := by
    cases p with
    | char c => cases other
    | dot => exact inert_of_all (by decide)
    | index i => cases i <;> exact inert_of_all (by decide)

theorem writes_target : Writes Part.target where
  char _ := rfl
  some_text p other := by
    cases p with
    | char c => cases other
    | dot => decide
    | index i => cases i <;> decide
  inert p other := by
    cases p with
    | char c => cases other
    | dot => exact inert_of_all (by decide)
    | index i => cases i <;> exact inert_of_all (by decide)

theorem next_inert {mode : Mode} {c : Char} (inert : Inert c) (ahead : Option Char) :
    Lexer.next ⟨mode, none⟩ c ahead = (⟨mode.settle, none⟩, mode.isText) := by
  simp only [Inert, List.mem_cons, List.not_mem_nil, or_false, not_or] at inert
  cases mode with
  | code block => cases block <;> simp [Lexer.next, Block.last, inert, Mode.settle, Mode.isText]
  | literal block quote => cases quote <;> simp [Lexer.next, Quote.char, inert, Mode.settle, Mode.isText]
  | text | comment | escaped => simp [Lexer.next, inert, Mode.settle, Mode.isText]

theorem next_ahead {d : Char} (inert : Inert d) (s : Lexer) (c : Char) : s.next c (some d) = s.next c none := by
  simp only [Inert, List.mem_cons, List.not_mem_nil, or_false, not_or] at inert
  obtain ⟨mode, second⟩ := s
  cases second with
  | some isText => rfl
  | none => cases mode <;> simp [Lexer.next, inert]

theorem next_none (s : Lexer) (c : Char) : (s.next c none).1.second = none := by
  obtain ⟨mode, second⟩ := s
  cases second with
  | some isText => rfl
  | none =>
      cases mode with
      | text | comment => simp [Lexer.next]
      | escaped block quote => rfl
      | code block =>
          simp only [Lexer.next, reduceCtorEq, and_false, if_false]
          split
          · rfl
          · split <;> rfl
      | literal block quote =>
          simp only [Lexer.next]
          split
          · rfl
          · split <;> rfl

theorem marks_inert {mode : Mode} {front : List Char} (nonempty : front ≠ []) (inert : ∀ c ∈ front, Inert c)
    (rest : List Char) : marks ⟨mode, none⟩ (front ++ rest) =
      front.map (fun c => (c, mode.isText)) ++ marks ⟨mode.settle, none⟩ rest := by
  induction front generalizing mode with
  | nil => exact (nonempty rfl).elim
  | cons c front ih =>
      obtain ⟨first, inert⟩ := List.forall_mem_cons.mp inert
      rw [List.cons_append, marks, next_inert first]
      cases front with
      | nil => rfl
      | cons d front =>
          rw [ih (by simp) inert]
          cases mode <;> rfl

/-- Before the second character of a delimiter there is a character part. -/
def Ready (s : Lexer) (ps : List Part) : Prop := s.second ≠ none → ahead ps ≠ none

theorem next_flatMap {write : Part → List Char} (writes : Writes write) (s : Lexer) (c : Char) (ps : List Part) :
    s.next c (ps.flatMap write).head? = s.next c (ahead ps) := by
  cases ps with
  | nil => rfl
  | cons p ps =>
      rw [List.flatMap_cons]
      cases known : p.isChar with
      | true =>
          cases p with
          | char d =>
              rw [writes.char]
              rfl
          | dot | index => cases known
      | false =>
          obtain ⟨d, rest, text⟩ := List.exists_cons_of_ne_nil (writes.some_text p known)
          have inert := writes.inert p known d (by rw [text]; exact List.mem_cons_self)
          have nothing : ahead (p :: ps) = none := by cases p <;> first | rfl | cases known
          rw [text, nothing]
          exact next_ahead inert s c

/-- However the parts are written, they are read in the same places. -/
theorem marks_flatMap {write : Part → List Char} (writes : Writes write) {s : Lexer} {ps : List Part}
    (ready : Ready s ps) : marks s (ps.flatMap write) =
      (partMarks s ps).flatMap fun p => (write p.1).map fun c => (c, p.2) := by
  induction ps generalizing s with
  | nil => rfl
  | cons p ps ih =>
      cases known : p.isChar with
      | true =>
          cases p with
          | char c =>
              have onward : Ready (s.next c (ahead ps)).1 ps := by
                intro pending nothing
                rw [nothing] at pending
                exact pending (next_none s c)
              rw [List.flatMap_cons, writes.char, List.singleton_append, marks, next_flatMap writes, ih onward,
                partMarks, List.flatMap_cons, writes.char]
              rfl
          | dot | index => cases known
      | false =>
          have nothing : ahead (p :: ps) = none := by cases p <;> first | rfl | cases known
          have settled : partMarks s (p :: ps) = (p, s.mode.isText) :: partMarks ⟨s.mode.settle, none⟩ ps := by
            cases p <;> first | rfl | cases known
          obtain ⟨mode, second⟩ := s
          obtain rfl : second = none := by
            by_contra pending
            exact ready pending nothing
          rw [List.flatMap_cons, marks_inert (writes.some_text p known) (writes.inert p known),
            ih fun pending => (pending rfl).elim, settled, List.flatMap_cons]

/-! The text of a template before and after. -/

theorem joinCode_joinCode (os : List (Option Char)) : joinCode (joinCode os) = joinCode os := by
  cases os with
  | nil => rfl
  | cons o os => cases o <;> rfl

theorem outline_code {front : List Char} (nonempty : front ≠ []) (rest : List (Char × Bool)) :
    outline (front.map (fun c => (c, false)) ++ rest) = joinCode (outline rest) := by
  induction front with
  | nil => exact (nonempty rfl).elim
  | cons c front ih =>
      rw [List.map_cons, List.cons_append, outline]
      cases front with
      | nil => rfl
      | cons d front => rw [ih (by simp), joinCode_joinCode]

theorem outline_length (ms : List (Char × Bool)) :
    (outline ms).countP Option.isSome = ms.countP fun m => m.2 := by
  have joined (os : List (Option Char)) : (joinCode os).countP Option.isSome = os.countP Option.isSome := by
    cases os with
    | nil => rfl
    | cons o os => cases o <;> simp [joinCode]
  induction ms with
  | nil => rfl
  | cons m ms ih =>
      obtain ⟨c, isText⟩ := m
      cases isText with
      | true => simp [outline, ih]
      | false => simp [outline, joined, ih]

def written (write : Part → List Char) (ms : List (Part × Bool)) : List (Char × Bool) :=
  ms.flatMap fun p => (write p.1).map fun c => (c, p.2)

theorem written_length (write : Part → List Char) (p : Part) (isText : Bool) (ms : List (Part × Bool)) :
    (outline (written write ((p, isText) :: ms))).countP Option.isSome =
      (if isText then (write p).length else 0) + (outline (written write ms)).countP Option.isSome := by
  rw [outline_length, outline_length, written, written, List.flatMap_cons, List.countP_append, List.countP_map]
  cases isText <;> simp [Function.comp_def]

theorem Part.target_longer {p : Part} (changed : p.isChar = false) : p.source.length < p.target.length := by
  cases p with
  | char c => cases changed
  | dot => decide
  | index i => cases i <;> decide

/-- What is changed in the text makes it longer. -/
theorem written_longer (ms : List (Part × Bool)) :
    (outline (written Part.source ms)).countP Option.isSome + ms.countP (fun p => p.2 && !p.1.isChar) ≤
      (outline (written Part.target ms)).countP Option.isSome := by
  induction ms with
  | nil => exact Nat.le_refl _
  | cons m ms ih =>
      obtain ⟨p, isText⟩ := m
      rw [written_length, written_length, List.countP_cons]
      cases isText with
      | false => simpa using ih
      | true =>
          cases changed : p.isChar with
          | true =>
              cases p with
              | char c =>
                  simp only [if_true, Part.source, Part.target, List.length_singleton, Bool.not_true, Bool.and_false,
                    Bool.false_eq_true, if_false]
                  omega
              | dot | index => cases changed
          | false =>
              have := Part.target_longer changed
              simp only [if_true, Bool.not_false, Bool.and_self]
              omega

theorem written_code {write : Part → List Char} (writes : Writes write) (p : Part) (ms : List (Part × Bool)) :
    outline (written write ((p, false) :: ms)) = joinCode (outline (written write ms)) := by
  rw [written, List.flatMap_cons]
  refine outline_code ?_ _
  cases known : p.isChar with
  | false => exact writes.some_text p known
  | true =>
      cases p with
      | char c =>
          rw [writes.char]
          exact List.cons_ne_nil c []
      | dot | index => cases known

theorem outline_written_iff (ms : List (Part × Bool)) :
    outline (written Part.target ms) = outline (written Part.source ms) ↔
      ∀ p ∈ ms, p.2 = true → p.1.isChar = true := by
  constructor
  · intro same
    have longer := written_longer ms
    rw [same] at longer
    have nothing : ms.countP (fun p => p.2 && !p.1.isChar) = 0 := by omega
    rw [List.countP_eq_zero] at nothing
    intro p member isText
    have unchanged := nothing p member
    rw [isText, Bool.true_and] at unchanged
    simpa using unchanged
  · intro kept
    induction ms with
    | nil => rfl
    | cons m ms ih =>
        obtain ⟨p, isText⟩ := m
        obtain ⟨first, others⟩ := List.forall_mem_cons.mp kept
        cases isText with
        | false => rw [written_code writes_target, written_code writes_source, ih others]
        | true =>
            cases p with
            | char c => exact congrArg (some c :: ·) (ih others)
            | dot | index => cases first rfl

/-- The rewrite keeps the text of a template only if nothing that it changes is in the text. -/
theorem keeps_text_iff (template : String) : KeepsText template ↔ CallsInCode template.toList := by
  have ready : Ready .start (parts (pieces template.toList)) := fun pending => (pending rfl).elim
  have before := marks_flatMap writes_source ready
  have after := marks_flatMap writes_target ready
  rw [parts_source, pieces_source] at before
  have rewritten := rewritePythonStrMethods_eq template
  rw [CallsInCode, ← outline_written_iff, written, written, ← before, ← after]
  constructor
  · intro keeps
    obtain ⟨out, done, same⟩ := keeps
    rw [rewritten, Except.ok.injEq] at done
    rwa [← done, String.toList_ofList] at same
  · intro same
    exact ⟨_, rewritten, by rwa [String.toList_ofList]⟩

/-- A prompt that speaks of a method. -/
theorem keeps_text_counterexample : ¬ KeepsText "Call x.strip() first. \x7b\x7b m \x7d\x7d" := by
  intro keeps
  obtain ⟨out, done, same⟩ := keeps
  have changed : rewritePythonStrMethods "Call x.strip() first. \x7b\x7b m \x7d\x7d" = .ok "Call x | strip() first. \x7b\x7b m \x7d\x7d" := by
    decide +kernel
  rw [changed, Except.ok.injEq] at done
  subst done
  exact absurd same (by decide +kernel)

end Pleiades.MlEngine
