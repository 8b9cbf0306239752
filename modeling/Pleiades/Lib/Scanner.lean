import Pleiades.Lib.Reader

/-!
# Readers at a position

A scanner reads a byte string at a running position, a word that wraps: a bounds check may
let a length through whose end lies before its start. `Follows` compares a scanner with a
reader of what is left of the input.
-/
namespace Pleiades.Lib

abbrev Scanner (ε α : Type) := StateT UInt64 (Except ε) α

namespace Scanner

variable {ε ε' α β : Type}

/-- `data[start..stop]`. -/
def slice (bad : ε) (data : List UInt8) (start stop : UInt64) : Except ε (List UInt8) :=
  if start ≤ stop ∧ stop.toNat ≤ data.length then .ok (readAt data start.toNat (stop.toNat - start.toNat))
  else .error bad

/-- The next `n` bytes, if they do not end behind the input. -/
def take (eof bad : ε) (data : List UInt8) (n : ℕ) : Scanner ε (List UInt8) := fun start =>
  let stop := start + UInt64.ofNat n
  if data.length < stop.toNat then .error eof
  else (slice bad data start stop).map fun bytes => (bytes, stop)

def pair (s : Scanner ε α) (t : Scanner ε β) : Scanner ε (α × β) := do
  let a ← s
  let b ← t
  pure (a, b)

def many (s : Scanner ε α) : ℕ → Scanner ε (List α)
  | 0 => pure []
  | n + 1 => do
    let a ← s
    let as ← many s n
    pure (a :: as)

/-- What is left of the input at a position. -/
structure Left (data : List UInt8) (pos : UInt64) (rest : List UInt8) : Prop where
  inside : pos.toNat ≤ data.length
  drop : data.drop pos.toNat = rest

/-- The scanner reads what the reader reads of what is left, and stops where it stops. -/
structure Follows (data : List UInt8) (embed : ε' → ε) (s : Scanner ε α) (r : Reader ε' α) : Prop where
  error : ∀ {pos rest e}, Left data pos rest → r rest = .error e → s pos = .error (embed e)
  ok : ∀ {pos rest a rest'}, Left data pos rest → r rest = .ok (a, rest') →
    ∃ pos', Left data pos' rest' ∧ s pos = .ok (a, pos')

/-! Positions. -/

section Positions
variable {data rest front : List UInt8} {pos pos' : UInt64}

theorem Left.start (data : List UInt8) : Left data 0 data := ⟨Nat.zero_le _, rfl⟩

theorem Left.length (left : Left data pos rest) : pos.toNat + rest.length = data.length := by
  have inside := left.inside
  rw [← left.drop, List.length_drop]
  omega

theorem Left.pos_eq (left : Left data pos rest) (left' : Left data pos' rest) : pos = pos' := by
  have same := left.length.trans left'.length.symm
  exact UInt64.toNat.inj (by omega)

theorem Left.add (left : Left data pos (front ++ rest)) (sum : pos'.toNat = pos.toNat + front.length) :
    Left data pos' rest := by
  have length := left.length
  rw [List.length_append] at length
  refine ⟨by omega, ?_⟩
  rw [sum, ← List.drop_drop, left.drop, List.drop_left]

variable {eof bad : ε} {n : ℕ}

theorem add_toNat (pos : UInt64) (small : n < 2 ^ 64) : (pos + UInt64.ofNat n).toNat = (pos.toNat + n) % 2 ^ 64 := by
  rw [UInt64.toNat_add, UInt64.toNat_ofNat_of_lt' small]

/-- The bounds check does not see a sum that wraps, the slice does. -/
theorem take_wraps (left : Left data pos rest) (small : n < 2 ^ 64) (wraps : 2 ^ 64 ≤ pos.toNat + n) :
    take eof bad data n pos = .error bad := by
  have inside := left.inside
  have bound := pos.toNat_lt
  have sum : (pos + UInt64.ofNat n).toNat = pos.toNat + n - 2 ^ 64 := by
    rw [add_toNat pos small]
    omega
  have passed : ¬data.length < (pos + UInt64.ofNat n).toNat := by omega
  have before : ¬(pos ≤ pos + UInt64.ofNat n ∧ (pos + UInt64.ofNat n).toNat ≤ data.length) := by
    rw [UInt64.le_iff_toNat_le]
    omega
  simp only [take, if_neg passed, slice, if_neg before]
  rfl

theorem take_behind (left : Left data pos rest) (sum : pos.toNat + n < 2 ^ 64) (short : rest.length < n) :
    take eof bad data n pos = .error eof := by
  have length := left.length
  have stop : (pos + UInt64.ofNat n).toNat = pos.toNat + n := by
    rw [add_toNat pos (by omega), Nat.mod_eq_of_lt sum]
  exact if_pos (by omega)

theorem take_inside (left : Left data pos rest) (bound : data.length < 2 ^ 64) (enough : n ≤ rest.length) :
    ∃ pos', Left data pos' (rest.drop n) ∧ take eof bad data n pos = .ok (rest.take n, pos') := by
  have length := left.length
  have stop : (pos + UInt64.ofNat n).toNat = pos.toNat + n := by
    rw [add_toNat pos (by omega), Nat.mod_eq_of_lt (by omega)]
  refine ⟨pos + UInt64.ofNat n, ⟨by omega, by rw [stop, ← List.drop_drop, left.drop]⟩, ?_⟩
  have passed : ¬data.length < (pos + UInt64.ofNat n).toNat := by omega
  have inside : pos ≤ pos + UInt64.ofNat n ∧ (pos + UInt64.ofNat n).toNat ≤ data.length := by
    rw [UInt64.le_iff_toNat_le]
    omega
  have bytes : readAt data pos.toNat ((pos + UInt64.ofNat n).toNat - pos.toNat) = rest.take n := by
    rw [readAt, left.drop, stop, Nat.add_sub_cancel_left]
  simp only [take, if_neg passed, slice, if_pos inside, bytes]
  rfl

/-- The three ways out of `take`, by how far the length reaches. -/
theorem take_bad_iff (left : Left data pos rest) (bound : data.length < 2 ^ 64) (small : n < 2 ^ 64)
    (differ : eof ≠ bad) :
    take eof bad data n pos = .error bad ↔ 2 ^ 64 ≤ pos.toNat + n := by
  constructor
  · intro stopped
    by_contra sum
    rw [Nat.not_le] at sum
    rcases Nat.lt_or_ge rest.length n with short | enough
    · rw [take_behind left sum short] at stopped
      exact differ (Except.error.inj stopped)
    · have inside : ∃ pos', _ ∧ take eof bad data n pos = .ok (_, pos') := take_inside left bound enough
      obtain ⟨pos', _, done⟩ := inside
      rw [done] at stopped
      cases stopped
  · exact take_wraps left small

theorem take_ok_iff {bytes : List UInt8} (left : Left data pos rest) (bound : data.length < 2 ^ 64)
    (small : n < 2 ^ 64) :
    take eof bad data n pos = .ok (bytes, pos') ↔
      bytes.length = n ∧ ∃ rest', rest = bytes ++ rest' ∧ Left data pos' rest' := by
  constructor
  · intro read
    rcases Nat.lt_or_ge (pos.toNat + n) (2 ^ 64) with sum | wraps
    · rcases Nat.lt_or_ge rest.length n with short | enough
      · rw [take_behind left sum short] at read
        cases read
      · have inside : ∃ mid, _ ∧ take eof bad data n pos = .ok (_, mid) := take_inside left bound enough
        obtain ⟨mid, left', done⟩ := inside
        rw [done] at read
        cases read
        exact ⟨List.length_take_of_le enough, _, (List.take_append_drop n rest).symm, left'⟩
    · rw [take_wraps left small wraps] at read
      cases read
  · intro there
    obtain ⟨rfl, rest', rfl, left'⟩ := there
    have inside : ∃ mid, _ ∧ take eof bad data bytes.length pos = .ok (_, mid) := take_inside left bound (by simp)
    obtain ⟨mid, left'', done⟩ := inside
    rw [List.drop_left] at left''
    rw [done, List.take_left, left''.pos_eq left']

end Positions

/-! The rules of `Follows`. -/

namespace Follows

variable {data : List UInt8} {embed : ε' → ε} {s : Scanner ε α} {r : Reader ε' α}

theorem of_pure (a : α) : Follows data embed (pure a) (pure a) where
  error _ failed := by cases failed
  ok {pos rest b rest'} left done := by
    cases done
    exact ⟨pos, left, rfl⟩

theorem of_lift (x : Except ε' α) : Follows data embed (liftM (x.mapError embed)) (liftM x) where
  error {pos rest e} _ failed := by
    cases x with
    | error e' =>
        cases failed
        rfl
    | ok a => cases failed
  ok {pos rest a rest'} left done := by
    cases x with
    | error e' => cases done
    | ok b =>
        cases done
        exact ⟨pos, left, rfl⟩

/-- What the first part has read may be used to compare the second ones. -/
theorem bind {f : α → Scanner ε β} {g : α → Reader ε' β} (h : Follows data embed s r)
    (h' : ∀ a, (∃ bytes rest, r bytes = .ok (a, rest)) → Follows data embed (f a) (g a)) :
    Follows data embed (s >>= f) (r >>= g) where
  error {pos rest e} left failed := by
    cases first : r rest with
    | error e' =>
        rw [bind_of_error first] at failed
        cases failed
        exact bind_of_error (h.error left first) f
    | ok p =>
        obtain ⟨mid, left', done⟩ := h.ok left first
        rw [bind_of_ok first] at failed
        rw [bind_of_ok done]
        exact (h' p.1 ⟨rest, p.2, first⟩).error left' failed
  ok {pos rest b rest'} left done := by
    obtain ⟨a, mid, first, second⟩ := run_bind.mp done
    obtain ⟨pos', left', read⟩ := h.ok left first
    rw [bind_of_ok read]
    exact (h' a ⟨rest, mid, first⟩).ok left' second

theorem map (h : Follows data embed s r) (f : α → β) : Follows data embed (f <$> s) (f <$> r) := by
  rw [map_eq_pure_bind, map_eq_pure_bind]
  exact h.bind fun a _ => of_pure (f a)

/-- The errors of both may tell where they are. -/
theorem takeAt {eof : UInt64 → ε} {eof' : List UInt8 → ε'} {bad : ε} {n : ℕ} (bound : data.length + n < 2 ^ 64)
    (same : ∀ {pos rest}, Left data pos rest → eof pos = embed (eof' rest)) :
    Follows data embed (fun pos => Scanner.take (eof pos) bad data n pos) (fun rest => Reader.take (eof' rest) n rest) where
  error {pos rest e} left failed := by
    have inside := left.inside
    unfold Reader.take at failed
    split at failed
    · next short =>
        cases failed
        rw [← same left]
        exact take_behind left (by omega) short
    · cases failed
  ok {pos rest a rest'} left done := by
    unfold Reader.take at done
    split at done
    · cases done
    · next enough =>
        cases done
        exact take_inside left (by omega) (Nat.not_lt.mp enough)

theorem take {eof : ε'} {bad : ε} {n : ℕ} (bound : data.length < 2 ^ 63) (small : n < 2 ^ 63) :
    Follows data embed (take (embed eof) bad data n) (Reader.take eof n) :=
  takeAt (by omega) fun _ => rfl

theorem many (h : Follows data embed s r) (n : ℕ) : Follows data embed (s.many n) (r.many n) := by
  induction n with
  | zero => exact of_pure []
  | succ n ih => exact h.bind fun a _ => ih.bind fun as _ => of_pure (a :: as)

variable {pos pos' : UInt64} {rest : List UInt8} {a : α}

/-- The scanner reads nothing else. -/
theorem of_ok (h : Follows data embed s r) (left : Left data pos rest) (done : s pos = .ok (a, pos')) :
    ∃ rest', r rest = .ok (a, rest') ∧ Left data pos' rest' := by
  cases read : r rest with
  | error e =>
      rw [h.error left read] at done
      cases done
  | ok p =>
      obtain ⟨mid, left', same⟩ := h.ok left read
      rw [same] at done
      cases done
      exact ⟨p.2, rfl, left'⟩

/-- An outcome that is not one of the reader's does not happen. -/
theorem ne_error (h : Follows data embed s r) {bad : ε} (foreign : ∀ e, embed e ≠ bad) (left : Left data pos rest) :
    s pos ≠ .error bad := by
  intro stopped
  cases read : r rest with
  | error e =>
      rw [h.error left read] at stopped
      exact foreign e (Except.error.inj stopped)
  | ok p =>
      obtain ⟨mid, _, done⟩ := h.ok left read
      rw [done] at stopped
      cases stopped

end Follows

/-! Loops. -/

section Loops
variable {s : Scanner ε α} {n : ℕ} {pos : UInt64} {e : ε}

theorem pair_ok_iff {t : Scanner ε β} {p : α × β} {pos' : UInt64} : s.pair t pos = .ok (p, pos') ↔
    ∃ mid, s pos = .ok (p.1, mid) ∧ t mid = .ok (p.2, pos') := by
  rw [pair, run_bind]
  constructor
  · intro read
    obtain ⟨a, mid, first, others⟩ := read
    obtain ⟨b, mid', second, same⟩ := run_bind.mp others
    cases same
    exact ⟨mid, first, second⟩
  · intro read
    obtain ⟨mid, first, second⟩ := read
    exact ⟨p.1, mid, first, run_bind.mpr ⟨p.2, pos', second, rfl⟩⟩

theorem pair_error_iff {t : Scanner ε β} : s.pair t pos = .error e ↔
    s pos = .error e ∨ ∃ a mid, s pos = .ok (a, mid) ∧ t mid = .error e := by
  rw [pair, bind_error_iff]
  refine or_congr_right (exists₂_congr fun a mid => and_congr_right fun _ => ?_)
  rw [bind_error_iff]
  exact or_iff_left fun last => by
    obtain ⟨_, _, _, last⟩ := last
    cases last

theorem many_succ_ok_iff {as : List α} {pos' : UInt64} : s.many (n + 1) pos = .ok (as, pos') ↔
    ∃ a mid others, as = a :: others ∧ s pos = .ok (a, mid) ∧ s.many n mid = .ok (others, pos') := by
  rw [many, run_bind]
  constructor
  · intro read
    obtain ⟨a, mid, first, second⟩ := read
    obtain ⟨others, _, second, same⟩ := run_bind.mp second
    cases same
    exact ⟨a, mid, others, rfl, first, second⟩
  · intro read
    obtain ⟨a, mid, others, rfl, first, second⟩ := read
    exact ⟨a, mid, first, run_bind.mpr ⟨others, pos', second, rfl⟩⟩

theorem many_succ_error_iff : s.many (n + 1) pos = .error e ↔
    s pos = .error e ∨ ∃ a mid, s pos = .ok (a, mid) ∧ s.many n mid = .error e := by
  rw [many, bind_error_iff]
  refine or_congr_right (exists₂_congr fun a mid => and_congr_right fun _ => ?_)
  rw [bind_error_iff]
  exact or_iff_left fun last => by
    obtain ⟨_, _, _, last⟩ := last
    cases last

/-- A loop over pairs stops where one that takes them one by one stops. -/
theorem many_pair_error_iff : (s.pair s).many n pos = .error e ↔ s.many (2 * n) pos = .error e := by
  induction n generalizing pos with
  | zero => exact iff_of_false nofun nofun
  | succ n ih =>
      rw [many_succ_error_iff, pair_error_iff, Nat.mul_succ, many_succ_error_iff, or_assoc]
      refine or_congr_right ?_
      simp only [many_succ_error_iff, pair_ok_iff, ih]
      constructor
      · intro stops
        obtain ⟨a, mid, first, second⟩ | ⟨p, mid', ⟨mid, first, second⟩, others⟩ := stops
        · exact ⟨a, mid, first, .inl second⟩
        · exact ⟨p.1, mid, first, .inr ⟨p.2, mid', second, others⟩⟩
      · intro stops
        obtain ⟨a, mid, first, second | ⟨b, mid', second, others⟩⟩ := stops
        · exact .inl ⟨a, mid, first, second⟩
        · exact .inr ⟨(a, b), mid', ⟨mid, first, second⟩, others⟩

end Loops

end Scanner
end Pleiades.Lib
