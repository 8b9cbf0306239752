import Mathlib.Data.List.Chain

/-!
# Balanced brackets beside literals

Texts in which brackets match, where those inside a quoted literal do not count, and the scan
that finds the bracket closing such a text.
-/
namespace Pleiades.Lib

variable {α : Type}

/-- The characters with a meaning: a pair of brackets, quotes, and what takes the character
behind it into a literal. -/
structure Marks (α : Type) where
  opening : α
  closing : α
  quote : α → Bool
  escape : Option α
  apart : closing ≠ opening
  bare : quote opening = false ∧ quote closing = false
  noQuote : ∀ q, quote q = true → escape ≠ some q

/-- Where a scan stands: between literals, in one, or behind an escape in one. -/
inductive Reading (α : Type) where
  | code
  | literal (quote : α)
  | escaped (quote : α)

namespace Marks

variable (m : Marks α)

/-- The text of a literal between two quotes `q`. -/
inductive Literal (q : α) : List α → Prop
  | nil : Literal q []
  | plain {c : α} {cs : List α} (other : c ≠ q) (unescaped : m.escape ≠ some c) :
      Literal q cs → Literal q (c :: cs)
  | escaped {e : α} (c : α) {cs : List α} (escapes : m.escape = some e) :
      Literal q cs → Literal q (e :: c :: cs)

/-- Outside of literals every bracket has its partner. -/
inductive Balanced : List α → Prop
  | nil : Balanced []
  | plain {c : α} {cs : List α} (notOpening : c ≠ m.opening) (notClosing : c ≠ m.closing)
      (unquoted : m.quote c = false) : Balanced cs → Balanced (c :: cs)
  | literal {q : α} {body cs : List α} (quoted : m.quote q = true) (inside : m.Literal q body) :
      Balanced cs → Balanced (q :: (body ++ q :: cs))
  | group {inside cs : List α} : Balanced inside → Balanced cs →
      Balanced (m.opening :: (inside ++ m.closing :: cs))

variable [DecidableEq α]

/-- The state behind a character, with `depth` brackets open; none behind the closing bracket. -/
def next (depth : ℕ) : Reading α → α → Option (ℕ × Reading α)
  | .escaped q, _ => some (depth, .literal q)
  | .literal q, c =>
    some (depth, if c = q then .code else if m.escape = some c then .escaped q else .literal q)
  | .code, c =>
    if m.quote c then some (depth, .literal c)
    else if c = m.opening then some (depth + 1, .code)
    else if c = m.closing then if depth = 0 then none else some (depth - 1, .code)
    else some (depth, .code)

/-- The text in front of the bracket that closes it, and the text behind that bracket. -/
def matching (depth : ℕ) (reading : Reading α) : List α → Option (List α × List α)
  | [] => none
  | c :: cs =>
    match m.next depth reading c with
    | none => some ([], cs)
    | some (depth', reading') => (matching depth' reading' cs).map fun p => (c :: p.1, p.2)

/-- The state behind a text. -/
def scan (depth : ℕ) (reading : Reading α) : List α → Option (ℕ × Reading α)
  | [] => some (depth, reading)
  | c :: cs => (m.next depth reading c).bind fun p => scan p.1 p.2 cs

variable {m}

theorem next_eq_none {depth : ℕ} {reading : Reading α} {c : α} :
    m.next depth reading c = none ↔ depth = 0 ∧ reading = .code ∧ c = m.closing := by
  cases reading with
  | escaped q => simp [next]
  | literal q => simp [next]
  | code =>
      rw [next]
      split
      · next quoted =>
          refine iff_of_false nofun ?_
          rintro ⟨-, -, rfl⟩
          rw [m.bare.2] at quoted
          cases quoted
      · split
        · next opens =>
            refine iff_of_false nofun ?_
            rintro ⟨-, -, closes⟩
            exact m.apart (closes.symm.trans opens)
        · split
          · next closes => simp [closes]
          · next other => simp [other]

theorem next_quote {q : α} (quoted : m.quote q = true) (depth : ℕ) :
    m.next depth .code q = some (depth, .literal q) := by
  rw [next, if_pos quoted]

theorem next_opening (depth : ℕ) : m.next depth .code m.opening = some (depth + 1, .code) := by
  rw [next, m.bare.1, if_neg Bool.false_ne_true, if_pos rfl]

theorem next_closing (depth : ℕ) : m.next (depth + 1) .code m.closing = some (depth, .code) := by
  rw [next, m.bare.2, if_neg Bool.false_ne_true, if_neg m.apart, if_pos rfl, if_neg (Nat.succ_ne_zero _)]
  rfl

theorem next_plain {c : α} (notOpening : c ≠ m.opening) (notClosing : c ≠ m.closing) (unquoted : m.quote c = false)
    (depth : ℕ) : m.next depth .code c = some (depth, .code) := by
  rw [next, unquoted, if_neg Bool.false_ne_true, if_neg notOpening, if_neg notClosing]

theorem next_end (q : α) (depth : ℕ) : m.next depth (.literal q) q = some (depth, .code) := by
  rw [next, if_pos rfl]

theorem next_literal {q c : α} (other : c ≠ q) (free : m.escape ≠ some c) (depth : ℕ) :
    m.next depth (.literal q) c = some (depth, .literal q) := by
  rw [next, if_neg other, if_neg free]

theorem scan_append (depth : ℕ) (reading : Reading α) (front back : List α) :
    m.scan depth reading (front ++ back) =
      (m.scan depth reading front).bind fun p => m.scan p.1 p.2 back := by
  induction front generalizing depth reading with
  | nil => rfl
  | cons c front ih =>
      rw [List.cons_append, scan, scan, Option.bind_assoc]
      exact congrArg _ (funext fun p => ih p.1 p.2)

theorem matching_iff_scan {depth : ℕ} {reading : Reading α} {cs args after : List α} :
    m.matching depth reading cs = some (args, after) ↔
      cs = args ++ m.closing :: after ∧ m.scan depth reading args = some (0, .code) := by
  induction cs generalizing depth reading args with
  | nil => simp [matching]
  | cons c cs ih =>
      cases stepped : m.next depth reading c with
      | none =>
          obtain ⟨rfl, rfl, rfl⟩ := next_eq_none.mp stepped
          cases args with
          | nil => simp [matching, stepped, scan]
          | cons c' args =>
              refine iff_of_false (by simp [matching, stepped]) ?_
              rintro ⟨same, scanned⟩
              obtain ⟨rfl, -⟩ := List.cons.inj same
              rw [scan, stepped] at scanned
              cases scanned
      | some p =>
          rw [matching, stepped]
          dsimp only
          cases args with
          | nil =>
              refine iff_of_false (by simp) ?_
              rintro ⟨same, scanned⟩
              obtain ⟨rfl, -⟩ := List.cons.inj same
              cases scanned
              rw [next_eq_none.mpr ⟨rfl, rfl, rfl⟩] at stepped
              cases stepped
          | cons c' args =>
              simp only [Option.map_eq_some_iff, Prod.mk.injEq, List.cons.injEq, Prod.exists, List.cons_append]
              constructor
              · rintro ⟨args', after', found, ⟨rfl, rfl⟩, rfl⟩
                obtain ⟨whole, scanned⟩ := ih.mp found
                exact ⟨⟨rfl, whole⟩, by rw [scan, stepped]; exact scanned⟩
              · rintro ⟨⟨rfl, whole⟩, scanned⟩
                rw [scan, stepped] at scanned
                exact ⟨args, after, ih.mpr ⟨whole, scanned⟩, ⟨rfl, rfl⟩, rfl⟩

/-! A balanced text is scanned from one place between literals to another, at any depth. -/

theorem scan_literal {q : α} {body : List α} (quoted : m.quote q = true) (inside : m.Literal q body)
    (depth : ℕ) (rest : List α) : m.scan depth (.literal q) (body ++ q :: rest) = m.scan depth .code rest := by
  induction inside with
  | nil =>
      rw [List.nil_append, scan, next_end]
      rfl
  | plain other unescaped _ ih =>
      rw [List.cons_append, scan, next_literal other unescaped]
      exact ih
  | @escaped e c cs escapes _ ih =>
      have other : e ≠ q := by
        rintro rfl
        exact m.noQuote e quoted escapes
      rw [List.cons_append, scan, next, if_neg other, if_pos escapes]
      exact ih

theorem Balanced.scan_eq {cs : List α} (balanced : m.Balanced cs) (depth : ℕ) :
    m.scan depth .code cs = some (depth, .code) := by
  induction balanced generalizing depth with
  | nil => rfl
  | plain notOpening notClosing unquoted _ ih =>
      rw [scan, next_plain notOpening notClosing unquoted]
      exact ih depth
  | literal quoted inside _ ih =>
      rw [scan, next_quote quoted, Option.bind_some, scan_literal quoted inside]
      exact ih depth
  | @group inside cs _ _ ihInside ih =>
      rw [scan, next_opening, Option.bind_some, scan_append, ihInside, Option.bind_some, scan, next_closing]
      exact ih depth

/-! And only balanced texts are: what is left is balanced up to the brackets that are open. -/

variable (m) in
/-- Balanced texts with a closing bracket behind each but the last, `depth` of them. -/
def Nested : ℕ → List α → Prop
  | 0, cs => m.Balanced cs
  | depth + 1, cs => ∃ front back, m.Balanced front ∧ Nested depth back ∧ cs = front ++ m.closing :: back

omit [DecidableEq α] in
theorem Nested.prepend {front : List α} (keeps : ∀ cs, m.Balanced cs → m.Balanced (front ++ cs)) {depth : ℕ}
    {cs : List α} (nested : m.Nested depth cs) : m.Nested depth (front ++ cs) := by
  cases depth with
  | zero => exact keeps cs nested
  | succ depth =>
      obtain ⟨first, back, balanced, later, rfl⟩ := nested
      exact ⟨front ++ first, back, keeps first balanced, later, (List.append_assoc ..).symm⟩

variable (m) in
/-- What a scan that ends between literals with no bracket open has yet to read. -/
def Ahead (depth : ℕ) : Reading α → List α → Prop
  | .code, cs => m.Nested depth cs
  | .literal q, cs => ∃ body rest, m.Literal q body ∧ m.Nested depth rest ∧ cs = body ++ q :: rest
  | .escaped q, cs => ∃ c body rest, m.Literal q body ∧ m.Nested depth rest ∧ cs = c :: (body ++ q :: rest)

theorem ahead_of_scan {depth : ℕ} {reading : Reading α} {cs : List α}
    (scanned : m.scan depth reading cs = some (0, .code)) : m.Ahead depth reading cs := by
  induction cs generalizing depth reading with
  | nil =>
      cases scanned
      exact .nil
  | cons c cs ih =>
      obtain ⟨⟨depth', reading'⟩, stepped, later⟩ := Option.bind_eq_some_iff.mp scanned
      have ahead := ih later
      cases reading with
      | escaped q =>
          cases stepped
          obtain ⟨body, rest, inside, nested, rfl⟩ := ahead
          exact ⟨c, body, rest, inside, nested, rfl⟩
      | literal q =>
          cases stepped
          split at ahead
          · next closes =>
              subst closes
              exact ⟨[], cs, .nil, ahead, rfl⟩
          · next other =>
              split at ahead
              · next escapes =>
                  obtain ⟨c', body, rest, inside, nested, rfl⟩ := ahead
                  exact ⟨c :: c' :: body, rest, .escaped c' escapes inside, nested, rfl⟩
              · next unescaped =>
                  obtain ⟨body, rest, inside, nested, rfl⟩ := ahead
                  exact ⟨c :: body, rest, .plain other unescaped inside, nested, rfl⟩
      | code =>
          rw [next] at stepped
          split at stepped
          · next quoted =>
              cases stepped
              obtain ⟨body, rest, inside, nested, rfl⟩ := ahead
              have longer : ∀ cs, m.Balanced cs → m.Balanced (c :: (body ++ [c]) ++ cs) := by
                intro cs balanced
                simpa using Balanced.literal quoted inside balanced
              have whole := nested.prepend longer
              rwa [List.cons_append, List.append_assoc] at whole
          · next unquoted =>
              split at stepped
              · next opens =>
                  cases stepped
                  obtain ⟨inside, rest, balanced, nested, rfl⟩ := ahead
                  have longer : ∀ cs, m.Balanced cs → m.Balanced (m.opening :: (inside ++ [m.closing]) ++ cs) := by
                    intro cs later
                    simpa using Balanced.group balanced later
                  have whole := nested.prepend longer
                  rwa [List.cons_append, List.append_assoc, ← opens] at whole
              · next notOpening =>
                  split at stepped
                  · next closes =>
                      split at stepped
                      · cases stepped
                      · next positive =>
                          cases stepped
                          obtain ⟨depth, rfl⟩ := Nat.exists_eq_succ_of_ne_zero positive
                          exact ⟨[], cs, .nil, ahead, by rw [closes]; rfl⟩
                  · next notClosing =>
                      cases stepped
                      have longer : ∀ cs, m.Balanced cs → m.Balanced ([c] ++ cs) := by
                        intro cs balanced
                        exact .plain notOpening notClosing (Bool.not_eq_true _ ▸ unquoted) balanced
                      exact Nested.prepend longer ahead

theorem balanced_iff_scan {cs : List α} : m.Balanced cs ↔ m.scan 0 .code cs = some (0, .code) :=
  ⟨fun balanced => balanced.scan_eq 0, fun scanned => ahead_of_scan scanned⟩

/-- The scan finds the bracket behind a balanced text, and no other one. -/
theorem matching_iff {cs args after : List α} :
    m.matching 0 .code cs = some (args, after) ↔ cs = args ++ m.closing :: after ∧ m.Balanced args := by
  rw [matching_iff_scan, balanced_iff_scan]

/-! Reading an escape as any other character. -/

/-- The same marks without an escape. -/
def unescaped (m : Marks α) : Marks α := { m with escape := none, noQuote := fun _ _ => nofun }

variable (m) in
/-- No escape stands directly in front of a quote. -/
def QuotesKept (cs : List α) : Prop := cs.IsChain fun c d => m.escape = some c → m.quote d = false

omit [DecidableEq α] in
theorem QuotesKept.tail {c : α} {cs : List α} (kept : m.QuotesKept (c :: cs)) : m.QuotesKept cs :=
  (List.isChain_cons.mp kept).2

/-- Both scans get to the end, from the same place or, in a literal, when one of them has just seen an escape. -/
theorem scan_unescaped_iff {cs : List α} (kept : m.QuotesKept cs) (depth : ℕ) :
    (m.unescaped.scan depth .code cs = some (0, .code) ↔ m.scan depth .code cs = some (0, .code)) ∧
    ∀ q, m.quote q = true →
      (m.unescaped.scan depth (.literal q) cs = some (0, .code) ↔ m.scan depth (.literal q) cs = some (0, .code)) ∧
      ((∀ c ∈ cs.head?, m.quote c = false) →
        (m.unescaped.scan depth (.literal q) cs = some (0, .code) ↔ m.scan depth (.escaped q) cs = some (0, .code))) := by
  induction cs generalizing depth with
  | nil => simp [scan]
  | cons c cs ih =>
      have later := ih kept.tail
      refine ⟨?code, fun q quoted => ⟨?literal, fun unquoted => ?escaped⟩⟩
      case code =>
        have same : m.unescaped.next depth .code c = m.next depth .code c := rfl
        rw [scan, scan, same]
        by_cases quoted : m.quote c = true
        · rw [next_quote quoted]
          exact ((later depth).2 c quoted).1
        · rw [next, if_neg quoted]
          split
          · exact (later (depth + 1)).1
          · split
            · split
              · rfl
              · exact (later (depth - 1)).1
            · exact (later depth).1
      case literal =>
        by_cases ends : c = q
        · subst ends
          rw [scan, scan, next_end, next_end]
          exact (later depth).1
        · rw [scan, scan, next_literal (m := m.unescaped) ends nofun, next, if_neg ends]
          by_cases escapes : m.escape = some c
          · rw [if_pos escapes]
            exact ((later depth).2 q quoted).2 fun d first => (List.isChain_cons.mp kept).1 d first escapes
          · rw [if_neg escapes]
            exact ((later depth).2 q quoted).1
      case escaped =>
        have other : c ≠ q := by
          rintro rfl
          rw [unquoted c rfl] at quoted
          cases quoted
        rw [scan, scan, next_literal (m := m.unescaped) other nofun, next]
        exact ((later depth).2 q quoted).1

/-- Where no quote is escaped both scans find the same bracket. -/
theorem matching_unescaped_iff {cs args after : List α} (kept : m.QuotesKept args) :
    m.unescaped.matching 0 .code cs = some (args, after) ↔ m.matching 0 .code cs = some (args, after) := by
  rw [matching_iff_scan, matching_iff_scan, (scan_unescaped_iff kept 0).1]
  rfl

end Marks

end Pleiades.Lib
