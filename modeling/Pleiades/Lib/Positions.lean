import Pleiades.Lib.Reader
import Pleiades.Lib.Table

/-!
# Parsers with a position

Parsers of a byte string that keep the position in it. `Parses` says that a parser gets a
value from the bytes written for it, wherever they are; `Uses` bounds how far any
successful call has to go.
-/
namespace Pleiades.Lib

abbrev Parse (ε α : Type) := StateT ℕ (Except ε) α

namespace Parse

variable {ε α β κ ν : Type} (data : List UInt8)

/-- The next `n` bytes, which have to be there. The error may tell the position. -/
def exactly (eof : ℕ → ε) (n : ℕ) : Parse ε (List UInt8) := fun pos =>
  if data.length < pos + n then .error (eof pos) else .ok (readAt data pos n, pos + n)

def number (eof : ε) (k : ℕ) : Parse ε ℕ := leNat <$> exactly data (fun _ => eof) k

/-- As many of the next `n` bytes as there are. -/
def slice (n : ℕ) : Parse ε (List UInt8) := fun pos => .ok (readAt data pos n, pos + n)

def many (p : Parse ε α) : ℕ → Parse ε (List α)
  | 0 => pure []
  | n + 1 => do
    let a ← p
    let as ← many p n
    pure (a :: as)

/-- A loop that needs only the position. -/
def skip (p : Parse ε α) : ℕ → Parse ε Unit
  | 0 => pure ()
  | n + 1 => do
    let _ ← p
    skip p n

/-- A loop that fills a table, which is kept when a call fails. -/
def collect [DecidableEq κ] (p : Parse ε (κ × ν)) : ℕ → ℕ → Table κ ν → Table κ ν × Except ε ℕ
  | 0, pos, t => (t, .ok pos)
  | n + 1, pos, t =>
    match p pos with
    | .error e => (t, .error e)
    | .ok (entry, pos) => collect p n pos (t.insert entry.1 entry.2)

/-- Calls one after the other, with what they return and where the last one ends. -/
inductive Calls (p : Parse ε α) : ℕ → List α → ℕ → Prop
  | done {pos : ℕ} : Calls p pos [] pos
  | step {pos mid pos' : ℕ} {a : α} {as : List α} (first : p pos = .ok (a, mid)) (others : Calls p mid as pos') :
    Calls p pos (a :: as) pos'

/-- What is behind a position. -/
structure Behind (pos : ℕ) (rest : List UInt8) : Prop where
  inside : pos ≤ data.length
  drop : data.drop pos = rest

/-- Where the bytes are, the parser returns the value and goes behind them. -/
def Parses (p : Parse ε α) (bytes : List UInt8) (a : α) : Prop :=
  ∀ pos rest, Behind data pos (bytes ++ rest) → p pos = .ok (a, pos + bytes.length)

/-- A call that succeeds goes on by at least `k`, which is not behind the end. -/
def Uses (k : ℕ) (p : Parse ε α) : Prop :=
  ∀ pos a pos', p pos = .ok (a, pos') → pos + k ≤ pos' ∧ (0 < k → pos + k ≤ data.length)

variable {data}

namespace Behind

variable {pos : ℕ} {front rest : List UInt8}

theorem start (front rest : List UInt8) : Behind (front ++ rest) front.length rest :=
  ⟨by rw [List.length_append]; omega, List.drop_left⟩

theorem readAt_eq (h : Behind data pos (front ++ rest)) : readAt data pos front.length = front := by
  rw [readAt, h.drop, List.take_left]

theorem bound (h : Behind data pos (front ++ rest)) : pos + front.length ≤ data.length := by
  have length := congrArg List.length h.drop
  have inside := h.inside
  rw [List.length_drop, List.length_append] at length
  omega

theorem add (h : Behind data pos (front ++ rest)) : Behind data (pos + front.length) rest :=
  ⟨h.bound, by rw [← List.drop_drop, h.drop, List.drop_left]⟩

end Behind

namespace Parses

variable {p : Parse ε α} {a : α} {b : β} {front back : List UInt8}

theorem of_pure (a : α) : Parses data (pure a : Parse ε α) [] a := fun _ _ _ => rfl

theorem bind {f : α → Parse ε β} (h : Parses data p front a) (h' : Parses data (f a) back b) :
    Parses data (p >>= f) (front ++ back) b := by
  intro pos rest here
  rw [List.append_assoc] at here
  have second := h' _ _ here.add
  rw [Nat.add_assoc, ← List.length_append] at second
  exact run_bind.mpr ⟨a, _, h _ _ here, second⟩

theorem congr {a' : α} (h : Parses data p front a) (same : a = a') : Parses data p front a' := same ▸ h

/-- The last call of a parser. -/
theorem bind_pure (h : Parses data p front a) (f : α → β) : Parses data (p >>= fun a => pure (f a)) front (f a) := by
  rw [← List.append_nil front]
  exact h.bind (of_pure (f a))

theorem map (h : Parses data p front a) (f : α → β) : Parses data (f <$> p) front (f a) := by
  rw [map_eq_pure_bind]
  exact h.bind_pure f

theorem exactly (eof : ℕ → ε) (bytes : List UInt8) : Parses data (exactly data eof bytes.length) bytes bytes := by
  intro pos rest here
  rw [Parse.exactly, if_neg (Nat.not_lt.mpr here.bound), here.readAt_eq]

theorem number (eof : ε) {k n : ℕ} (small : n < 256 ^ k) : Parses data (number data eof k) (leBytes k n) n := by
  have bytes : Parses data (Parse.exactly data (fun _ => eof) (leBytes k n).length) (leBytes k n) (leBytes k n) :=
    exactly _ _
  have read := bytes.map leNat
  rw [leNat_leBytes, (mod_width_iff k n).mpr small, leBytes_length] at read
  exact read

theorem slice (bytes : List UInt8) : Parses data (slice data bytes.length : Parse ε (List UInt8)) bytes bytes := by
  intro pos rest here
  rw [Parse.slice, here.readAt_eq]

theorem many {encode : α → List UInt8} {as : List α} (h : ∀ a ∈ as, Parses data p (encode a) a) :
    Parses data (p.many as.length) (as.flatMap encode) as := by
  induction as with
  | nil => exact of_pure []
  | cons a as ih =>
      obtain ⟨one, others⟩ := List.forall_mem_cons.mp h
      rw [List.flatMap_cons, List.length_cons, Parse.many]
      exact one.bind ((ih others).bind_pure _)

theorem skip {encode : β → List UInt8} {value : β → α} {bs : List β}
    (h : ∀ b ∈ bs, Parses data p (encode b) (value b)) : Parses data (p.skip bs.length) (bs.flatMap encode) () := by
  induction bs with
  | nil => exact of_pure ()
  | cons b bs ih =>
      obtain ⟨one, others⟩ := List.forall_mem_cons.mp h
      rw [List.flatMap_cons, List.length_cons, Parse.skip]
      exact one.bind (ih others)

theorem calls {encode : β → List UInt8} {value : β → α} {bs : List β}
    (h : ∀ b ∈ bs, Parses data p (encode b) (value b)) {pos : ℕ} {rest : List UInt8}
    (here : Behind data pos (bs.flatMap encode ++ rest)) :
    Calls p pos (bs.map value) (pos + (bs.flatMap encode).length) := by
  induction bs generalizing pos with
  | nil => exact Calls.done
  | cons b bs ih =>
      obtain ⟨one, others⟩ := List.forall_mem_cons.mp h
      rw [List.flatMap_cons, List.append_assoc] at here
      rw [List.map_cons, List.flatMap_cons, List.length_append, ← Nat.add_assoc]
      exact Calls.step (one _ _ here) (ih others here.add)

end Parses

namespace Uses

variable {k m : ℕ} {p : Parse ε α}

theorem of_pure (a : α) : Uses data 0 (pure a : Parse ε α) := by
  intro pos b pos' done
  cases done
  exact ⟨Nat.le_refl _, fun none => absurd none (Nat.lt_irrefl 0)⟩

theorem weaken (h : Uses data k p) (less : m ≤ k) : Uses data m p := by
  intro pos a pos' done
  obtain ⟨onward, inside⟩ := h pos a pos' done
  exact ⟨by omega, fun some => by have := inside (by omega); omega⟩

theorem bind {f : α → Parse ε β} (h : Uses data k p) (h' : ∀ a, Uses data m (f a)) :
    Uses data (k + m) (p >>= f) := by
  intro pos b pos' done
  obtain ⟨a, mid, first, second⟩ := run_bind.mp done
  obtain ⟨onward, inside⟩ := h pos a mid first
  obtain ⟨onward', inside'⟩ := h' a mid b pos' second
  refine ⟨by omega, fun _ => ?_⟩
  rcases Nat.eq_zero_or_pos m with rfl | positive
  · exact inside (by omega)
  · have := inside' positive
    omega

theorem map (h : Uses data k p) (f : α → β) : Uses data k (f <$> p) := by
  rw [map_eq_pure_bind]
  exact h.bind fun a => of_pure (f a)

theorem exactly (eof : ℕ → ε) (n : ℕ) : Uses data n (exactly data eof n) := by
  intro pos bytes pos' done
  unfold Parse.exactly at done
  split at done
  · cases done
  · next enough =>
      cases done
      exact ⟨Nat.le_refl _, fun _ => Nat.le_of_not_lt enough⟩

theorem number (eof : ε) (k : ℕ) : Uses data k (number data eof k) := (exactly (fun _ => eof) k).map leNat

theorem slice (n : ℕ) : Uses data 0 (slice data n : Parse ε (List UInt8)) := by
  intro pos bytes pos' done
  cases done
  exact ⟨Nat.le_add_right .., fun none => absurd none (Nat.lt_irrefl 0)⟩

theorem skip (h : Uses data 0 p) (n : ℕ) : Uses data 0 (p.skip n) := by
  induction n with
  | zero => exact of_pure ()
  | succ n ih => exact h.bind fun _ => ih

end Uses

/-- The bytes that all of the calls need. -/
theorem Calls.uses {k : ℕ} {p : Parse ε α} (positive : 0 < k) (uses : Uses data k p) {pos pos' : ℕ} {as : List α}
    (calls : Calls p pos as pos') (some : as ≠ []) : pos + k * as.length ≤ data.length := by
  induction calls with
  | done => exact absurd rfl some
  | step first others ih =>
      obtain ⟨onward, inside⟩ := uses _ _ _ first
      cases others with
      | done =>
          rw [List.length_singleton, Nat.mul_one]
          exact inside positive
      | step next others =>
          have rest := ih (List.cons_ne_nil _ _)
          rw [List.length_cons, Nat.mul_succ]
          omega

theorem collect_eq_ok_iff [DecidableEq κ] {p : Parse ε (κ × ν)} {n pos pos' : ℕ} {t t' : Table κ ν} :
    p.collect n pos t = (t', .ok pos') ↔
      ∃ entries, entries.length = n ∧ Calls p pos entries pos' ∧ t.insertAll entries = t' := by
  induction n generalizing pos t with
  | zero =>
      constructor
      · intro done
        cases done
        exact ⟨[], rfl, Calls.done, rfl⟩
      · rintro ⟨entries, none, calls, rfl⟩
        cases calls with
        | done => rfl
        | step _ _ => cases none
  | succ n ih =>
      rw [collect]
      constructor
      · intro done
        split at done
        · cases (Prod.mk.inj done).2
        · next entry mid first =>
            obtain ⟨entries, count, calls, table⟩ := ih.mp done
            exact ⟨entry :: entries, congrArg Nat.succ count, Calls.step first calls, table⟩
      · rintro ⟨entries, count, calls, table⟩
        cases calls with
        | done => cases count
        | step first others =>
            rw [first]
            exact ih.mpr ⟨_, Nat.succ.inj count, others, table⟩

end Parse
end Pleiades.Lib
