import Pleiades.Lib.Bytes
import Mathlib.Logic.Equiv.Defs

/-!
# Readers of byte strings

A reader consumes a front part of its input or fails. `Recovers` says on which
condition a reader gets a value back from the bytes written for it, however the
input goes on; the rules give the condition of a composed reader.
-/
namespace Pleiades.Lib

abbrev Reader (ε α : Type) := StateT (List UInt8) (Except ε) α

/-- The number that little-endian bytes stand for. -/
def leNat : List UInt8 → ℕ
  | [] => 0
  | b :: bytes => b.toNat + 256 * leNat bytes

theorem leNat_leBytes (k n : ℕ) : leNat (leBytes k n) = n % 256 ^ k := by
  induction k generalizing n with
  | zero => simp [leBytes, leNat, Nat.mod_one]
  | succ k ih =>
      have low : (UInt8.ofNat n).toNat = n % 256 := rfl
      rw [leBytes, leNat, ih, low, Nat.pow_succ', Nat.mod_mul]

theorem leNat_lt (bytes : List UInt8) : leNat bytes < 256 ^ bytes.length := by
  induction bytes with
  | nil => exact Nat.one_pos
  | cons b bytes ih =>
      have low := b.toNat_lt
      rw [leNat, List.length_cons, Nat.pow_succ]
      omega

theorem leBytes_leNat (bytes : List UInt8) : leBytes bytes.length (leNat bytes) = bytes := by
  induction bytes with
  | nil => rfl
  | cons b bytes ih =>
      have low := b.toNat_lt
      have first : UInt8.ofNat (b.toNat + 256 * leNat bytes) = b := by
        apply UInt8.toNat.inj
        simp only [UInt8.toNat_ofNat']
        omega
      have others : (b.toNat + 256 * leNat bytes) / 256 = leNat bytes := by omega
      rw [leNat, List.length_cons, leBytes, first, others, ih]

theorem mod_width_iff (k n : ℕ) : n % 256 ^ k = n ↔ n < 256 ^ k :=
  Nat.mod_eq_iff_lt (Nat.ne_of_gt (Nat.pow_pos (by decide)))

/-! Functions of a state that may fail, the state being the input or a position in it. -/

section Stateful
variable {σ ε α β : Type} {r : StateT σ (Except ε) α} {s s' : σ}

theorem bind_of_ok {a : α} (h : r s = .ok (a, s')) (f : α → StateT σ (Except ε) β) : (r >>= f) s = f a s' := by
  change Except.bind (r s) (fun p => f p.1 p.2) = _
  rw [h]
  rfl

theorem bind_of_error {e : ε} (h : r s = .error e) (f : α → StateT σ (Except ε) β) : (r >>= f) s = .error e := by
  change Except.bind (r s) (fun p => f p.1 p.2) = _
  rw [h]
  rfl

theorem run_bind {f : α → StateT σ (Except ε) β} {b : β} :
    (r >>= f) s = .ok (b, s') ↔ ∃ a mid, r s = .ok (a, mid) ∧ f a mid = .ok (b, s') := by
  cases ran : r s with
  | error e => simp [bind_of_error ran]
  | ok p =>
      obtain ⟨a, mid⟩ := p
      simp [bind_of_ok ran]

theorem bind_error_iff {f : α → StateT σ (Except ε) β} {e : ε} :
    (r >>= f) s = .error e ↔ r s = .error e ∨ ∃ a mid, r s = .ok (a, mid) ∧ f a mid = .error e := by
  cases ran : r s with
  | error e => simp [bind_of_error ran]
  | ok p =>
      obtain ⟨a, mid⟩ := p
      simp [bind_of_ok ran]

theorem run_lift {x : Except ε α} {a : α} :
    (liftM x : StateT σ (Except ε) α) s = .ok (a, s') ↔ x = .ok a ∧ s' = s := by
  change Except.bind x (fun y => .ok (y, s)) = _ ↔ _
  cases x with
  | error e => simp [Except.bind]
  | ok y => simp [Except.bind, eq_comm]

theorem lift_error_iff {x : Except ε α} {e : ε} :
    (liftM x : StateT σ (Except ε) α) s = .error e ↔ x = .error e := by
  change Except.bind x (fun y => .ok (y, s)) = _ ↔ _
  cases x with
  | error e' => simp [Except.bind]
  | ok y => simp [Except.bind]

end Stateful

namespace Reader

variable {ε α β : Type}

/-- The next `n` bytes. -/
def take (eof : ε) (n : ℕ) : Reader ε (List UInt8) := fun bytes =>
  if bytes.length < n then .error eof else .ok (bytes.take n, bytes.drop n)

def byte (eof : ε) : Reader ε UInt8
  | [] => .error eof
  | b :: bytes => .ok (b, bytes)

def nat (eof : ε) (k : ℕ) : Reader ε ℕ := leNat <$> take eof k

def natBE (eof : ε) (k : ℕ) : Reader ε ℕ := (fun bytes => leNat bytes.reverse) <$> take eof k

def pair (r : Reader ε α) (s : Reader ε β) : Reader ε (α × β) := do
  let a ← r
  let b ← s
  pure (a, b)

def many (r : Reader ε α) : ℕ → Reader ε (List α)
  | 0 => pure []
  | n + 1 => do
    let a ← r
    let as ← many r n
    pure (a :: as)

/-- What is read is checked or translated. -/
def through (r : Reader ε β) (decode : β → Except ε α) : Reader ε α := r >>= fun b => liftM (decode b)

theorem take_append (eof : ε) {front rest : List UInt8} {n : ℕ} (fits : n ≤ front.length) :
    take eof n (front ++ rest) = .ok (front.take n, front.drop n ++ rest) := by
  have enough : ¬ (front ++ rest).length < n := by
    rw [List.length_append]
    omega
  rw [take, if_neg enough, List.take_append_of_le_length fits, List.drop_append_of_le_length fits]

theorem take_exact (eof : ε) {front rest : List UInt8} {n : ℕ} (fits : front.length = n) :
    take eof n (front ++ rest) = .ok (front, rest) := by
  rw [take_append eof (by omega), List.take_of_length_le (by omega), List.drop_of_length_le (by omega)]
  rfl

theorem nat_leBytes (eof : ε) (k n : ℕ) (rest : List UInt8) :
    nat eof k (leBytes k n ++ rest) = .ok (n % 256 ^ k, rest) := by
  change Except.bind (take eof k (leBytes k n ++ rest)) (fun p => .ok (leNat p.1, p.2)) = _
  rw [take_exact eof (leBytes_length k n), ← leNat_leBytes]
  rfl

/-- Behind `bytes` the reader returns `a` and leaves the rest of the input exactly if `fits`. -/
def Recovers (r : Reader ε α) (bytes : List UInt8) (a : α) (fits : Prop) : Prop :=
  ∀ rest rest', r (bytes ++ rest) = .ok (a, rest') ↔ fits ∧ rest' = rest

namespace Recovers

variable {r : Reader ε α} {s : Reader ε β} {bytes bytes' : List UInt8} {a : α} {b : β} {fits fits' : Prop}

theorem congr (h : Recovers r bytes a fits) (same : fits ↔ fits') : Recovers r bytes a fits' := by
  intro rest rest'
  rw [h rest rest', same]

/-- The reader on nothing but the bytes written. -/
theorem parse (h : Recovers r bytes a fits) : (r bytes).map Prod.fst = .ok a ↔ fits := by
  have exactly := h []
  rw [List.append_nil] at exactly
  constructor
  · intro read
    cases found : r bytes with
    | error e =>
        rw [found] at read
        cases read
    | ok p =>
        rw [found] at read
        cases read
        exact ((exactly p.2).mp found).1
  · intro fit
    rw [(exactly []).mpr ⟨fit, rfl⟩]
    rfl

theorem of_ok (h : ∀ rest : List UInt8, r (bytes ++ rest) = .ok (a, rest)) : Recovers r bytes a True := by
  intro rest rest'
  rw [h rest]
  simp [eq_comm]

theorem pair (h : Recovers r bytes a fits) (h' : Recovers s bytes' b fits') :
    Recovers (r.pair s) (bytes ++ bytes') (a, b) (fits ∧ fits') := by
  intro rest rest'
  rw [Reader.pair, run_bind, List.append_assoc]
  constructor
  · rintro ⟨x, mid, first, second⟩
    obtain ⟨y, mid', second, final⟩ := run_bind.mp second
    cases final
    obtain ⟨fit, rfl⟩ := (h _ _).mp first
    obtain ⟨fit', same⟩ := (h' _ _).mp second
    exact ⟨⟨fit, fit'⟩, same⟩
  · rintro ⟨⟨fit, fit'⟩, rfl⟩
    refine ⟨a, _, (h _ _).mpr ⟨fit, rfl⟩, run_bind.mpr ?_⟩
    exact ⟨b, _, (h' _ _).mpr ⟨fit', rfl⟩, rfl⟩

theorem through {decode : α → Except ε β} {good : Prop} (h : Recovers r bytes a fits)
    (inverse : ∀ x, decode x = .ok b ↔ x = a ∧ good) :
    Recovers (r.through decode) bytes b (fits ∧ good) := by
  intro rest rest'
  rw [Reader.through, run_bind]
  constructor
  · rintro ⟨x, mid, first, second⟩
    obtain ⟨decoded, rfl⟩ := run_lift.mp second
    obtain ⟨rfl, isGood⟩ := (inverse x).mp decoded
    obtain ⟨fit, same⟩ := (h _ _).mp first
    exact ⟨⟨fit, isGood⟩, same⟩
  · rintro ⟨⟨fit, isGood⟩, rfl⟩
    exact ⟨a, rest', (h _ _).mpr ⟨fit, rfl⟩, run_lift.mpr ⟨(inverse a).mpr ⟨rfl, isGood⟩, rfl⟩⟩

theorem map (h : Recovers r bytes a fits) (e : α ≃ β) : Recovers (e <$> r) bytes (e a) fits := by
  intro rest rest'
  rw [map_eq_pure_bind, run_bind, ← h]
  constructor
  · rintro ⟨x, mid, first, second⟩
    have same : e x = e a ∧ mid = rest' := by simpa using (Except.ok.inj second)
    rw [← e.injective same.1, ← same.2]
    exact first
  · intro first
    exact ⟨a, rest', first, rfl⟩

theorem nat (eof : ε) (k n : ℕ) : Recovers (Reader.nat eof k) (leBytes k n) n (n < 256 ^ k) := by
  intro rest rest'
  rw [nat_leBytes, Except.ok.injEq, Prod.mk.injEq, mod_width_iff k n,
    eq_comm (a := rest)]

theorem many {encode : α → List UInt8} {fits : α → Prop} {as : List α}
    (h : ∀ a ∈ as, Recovers r (encode a) a (fits a)) :
    Recovers (r.many as.length) (as.flatMap encode) as (∀ a ∈ as, fits a) := by
  induction as with
  | nil => exact (of_ok fun rest => rfl).congr (by simp)
  | cons a as ih =>
      obtain ⟨one, others⟩ := List.forall_mem_cons.mp h
      intro rest rest'
      rw [List.flatMap_cons, List.append_assoc, List.length_cons, Reader.many, run_bind]
      constructor
      · rintro ⟨x, mid, first, second⟩
        obtain ⟨xs, mid', second, final⟩ := run_bind.mp second
        cases final
        obtain ⟨fit, rfl⟩ := (one _ _).mp first
        obtain ⟨fits, same⟩ := (ih others _ _).mp second
        exact ⟨List.forall_mem_cons.mpr ⟨fit, fits⟩, same⟩
      · rintro ⟨fits, rfl⟩
        obtain ⟨fit, fits⟩ := List.forall_mem_cons.mp fits
        refine ⟨a, _, (one _ _).mpr ⟨fit, rfl⟩, run_bind.mpr ?_⟩
        exact ⟨as, rest', (ih others _ _).mpr ⟨fits, rfl⟩, rfl⟩

end Recovers

theorem many_length {r : Reader ε α} {n : ℕ} {bytes rest : List UInt8} {as : List α}
    (h : r.many n bytes = .ok (as, rest)) : as.length = n := by
  induction n generalizing bytes rest as with
  | zero => cases h; rfl
  | succ n ih =>
      obtain ⟨x, mid, _, second⟩ := run_bind.mp h
      obtain ⟨xs, mid', second, final⟩ := run_bind.mp second
      cases final
      rw [List.length_cons, ih second]

namespace Recovers

variable {r : Reader ε α}

/-- The elements of a list one after the other, behind their number. -/
theorem counted (eof : ε) (k : ℕ) {encode : α → List UInt8} {fits : α → Prop} {as : List α}
    (h : ∀ a ∈ as, Recovers r (encode a) a (fits a)) :
    Recovers (Reader.nat eof k >>= r.many) (leBytes k as.length ++ as.flatMap encode) as
      (as.length < 256 ^ k ∧ ∀ a ∈ as, fits a) := by
  intro rest rest'
  rw [List.append_assoc, run_bind]
  constructor
  · rintro ⟨n, mid, first, second⟩
    rw [nat_leBytes] at first
    cases first
    have short := (many_length second).symm
    rw [short] at second
    obtain ⟨fits, same⟩ := (many h _ _).mp second
    exact ⟨⟨(mod_width_iff ..).mp short, fits⟩, same⟩
  · rintro ⟨⟨short, fits⟩, rfl⟩
    refine ⟨as.length, _, ?_, (many h _ _).mpr ⟨fits, rfl⟩⟩
    rw [nat_leBytes, Nat.mod_eq_of_lt short]

/-- Bytes behind their number. -/
theorem sized (eof : ε) (k : ℕ) (xs : List UInt8) :
    Recovers (Reader.nat eof k >>= take eof) (leBytes k xs.length ++ xs) xs (xs.length < 256 ^ k) := by
  intro rest rest'
  rw [List.append_assoc, run_bind]
  constructor
  · rintro ⟨n, mid, first, second⟩
    rw [nat_leBytes] at first
    cases first
    rw [take_append eof (Nat.mod_le ..)] at second
    have parts := Prod.mk.inj (Except.ok.inj second)
    have short : xs.length % 256 ^ k = xs.length := by
      have lengths := congrArg List.length parts.1
      rw [List.length_take] at lengths
      have := Nat.mod_le xs.length (256 ^ k)
      omega
    refine ⟨(mod_width_iff ..).mp short, ?_⟩
    rw [← parts.2, short, List.drop_length, List.nil_append]
  · rintro ⟨short, rfl⟩
    refine ⟨xs.length, _, ?_, take_exact eof rfl⟩
    rw [nat_leBytes, Nat.mod_eq_of_lt short]

end Recovers

/-- The reader accepts what `encode` writes for the values that fit, and nothing else. -/
def Decodes (r : Reader ε α) (encode : α → List UInt8) (fits : α → Prop) : Prop :=
  ∀ bytes a rest, r bytes = .ok (a, rest) ↔ fits a ∧ bytes = encode a ++ rest

namespace Decodes

variable {r : Reader ε α} {s : Reader ε β} {encode : α → List UInt8} {encode' : β → List UInt8}
  {fits : α → Prop} {fits' : β → Prop}

theorem take (eof : ε) (n : ℕ) : Decodes (take eof n) id (·.length = n) := by
  intro bytes a rest
  constructor
  · intro read
    unfold Reader.take at read
    split at read
    · cases read
    · next enough =>
        cases read
        exact ⟨List.length_take_of_le (by omega), (List.take_append_drop n bytes).symm⟩
  · rintro ⟨exactly, rfl⟩
    exact take_exact eof exactly

theorem byte (eof : ε) : Decodes (byte eof) (fun b => [b]) fun _ => True := by
  intro bytes b rest
  cases bytes with
  | nil => simp [Reader.byte]
  | cons b' bytes => simp [Reader.byte]

/-- What is read is taken in another form, which `g` undoes. -/
theorem map (h : Decodes r encode fits) {f : α → β} {g : β → α} (valid : ∀ b, fits' b → fits (g b) ∧ f (g b) = b)
    (undo : ∀ a, fits a → fits' (f a) ∧ g (f a) = a) :
    Decodes (f <$> r) (fun b => encode (g b)) fits' := by
  intro bytes b rest
  rw [map_eq_pure_bind, run_bind]
  constructor
  · rintro ⟨a, mid, first, second⟩
    cases second
    obtain ⟨fit, rfl⟩ := (h ..).mp first
    obtain ⟨fit', same⟩ := undo a fit
    exact ⟨fit', by simp only [same]⟩
  · rintro ⟨fit', rfl⟩
    obtain ⟨fit, same⟩ := valid b fit'
    refine ⟨g b, rest, (h ..).mpr ⟨fit, rfl⟩, ?_⟩
    rw [same]
    rfl

theorem equiv (h : Decodes r encode fits) (e : α ≃ β) :
    Decodes (e <$> r) (fun b => encode (e.symm b)) (fun b => fits (e.symm b)) := by
  refine h.map (fun b fit => ⟨fit, e.apply_symm_apply b⟩) fun a fit => ⟨?_, e.symm_apply_apply a⟩
  rwa [e.symm_apply_apply]

theorem nat (eof : ε) (k : ℕ) : Decodes (Reader.nat eof k) (leBytes k) (· < 256 ^ k) := by
  refine (take eof k).map (fun n small => ⟨leBytes_length k n, ?_⟩) fun bytes exactly => ⟨?_, ?_⟩
  · rw [leNat_leBytes, Nat.mod_eq_of_lt small]
  · exact exactly ▸ leNat_lt bytes
  · exact exactly ▸ leBytes_leNat bytes

theorem bigEndian {r : Reader ε (List UInt8)} {k : ℕ} (h : Decodes r id (·.length = k)) :
    Decodes ((fun bytes => leNat bytes.reverse) <$> r) (beBytes k) (· < 256 ^ k) := by
  refine h.map (fun n small => ⟨?_, ?_⟩) fun bytes exactly => ⟨?_, ?_⟩
  · exact List.length_reverse.trans (leBytes_length k n)
  · rw [List.reverse_reverse, leNat_leBytes, Nat.mod_eq_of_lt small]
  · have bound := leNat_lt bytes.reverse
    rwa [List.length_reverse, exactly] at bound
  · have back := leBytes_leNat bytes.reverse
    rw [List.length_reverse, exactly] at back
    exact (congrArg List.reverse back).trans (List.reverse_reverse bytes)

theorem natBE (eof : ε) (k : ℕ) : Decodes (Reader.natBE eof k) (beBytes k) (· < 256 ^ k) := (take eof k).bigEndian

theorem pair (h : Decodes r encode fits) (h' : Decodes s encode' fits') :
    Decodes (r.pair s) (fun p => encode p.1 ++ encode' p.2) (fun p => fits p.1 ∧ fits' p.2) := by
  rintro bytes ⟨a, b⟩ rest
  rw [Reader.pair, run_bind]
  constructor
  · rintro ⟨x, mid, first, second⟩
    obtain ⟨y, mid', second, final⟩ := run_bind.mp second
    cases final
    obtain ⟨fit, rfl⟩ := (h ..).mp first
    obtain ⟨fit', rfl⟩ := (h' ..).mp second
    exact ⟨⟨fit, fit'⟩, (List.append_assoc ..).symm⟩
  · rintro ⟨⟨fit, fit'⟩, rfl⟩
    refine ⟨a, encode' b ++ rest, (h ..).mpr ⟨fit, List.append_assoc ..⟩, run_bind.mpr ?_⟩
    exact ⟨b, rest, (h' ..).mpr ⟨fit', rfl⟩, rfl⟩

/-- What is read stands for something else, unless it is refused. -/
theorem through_checked (h : Decodes r encode fits) {decode : α → Except ε β} {e : β → α} {good : β → Prop}
    (inverse : ∀ a b, decode a = .ok b ↔ a = e b ∧ good b) :
    Decodes (r.through decode) (fun b => encode (e b)) (fun b => fits (e b) ∧ good b) := by
  intro bytes b rest
  rw [Reader.through, run_bind]
  constructor
  · rintro ⟨a, mid, first, second⟩
    obtain ⟨decoded, rfl⟩ := run_lift.mp second
    obtain ⟨rfl, isGood⟩ := (inverse a b).mp decoded
    obtain ⟨fit, same⟩ := (h ..).mp first
    exact ⟨⟨fit, isGood⟩, same⟩
  · rintro ⟨⟨fit, isGood⟩, same⟩
    exact ⟨e b, rest, (h ..).mpr ⟨fit, same⟩, run_lift.mpr ⟨(inverse ..).mpr ⟨rfl, isGood⟩, rfl⟩⟩

theorem congr (h : Decodes r encode fits) {encode₁ : α → List UInt8} {fits₁ : α → Prop}
    (same : ∀ a, encode a = encode₁ a) (same' : ∀ a, fits a ↔ fits₁ a) : Decodes r encode₁ fits₁ := by
  intro bytes a rest
  rw [h bytes a rest, same, same']

theorem through (h : Decodes r encode fits) {decode : α → Except ε β} {e : β → α}
    (inverse : ∀ a b, decode a = .ok b ↔ a = e b) :
    Decodes (r.through decode) (fun b => encode (e b)) (fun b => fits (e b)) := by
  have checked : ∀ a b, decode a = .ok b ↔ a = e b ∧ True := by
    intro a b
    rw [inverse, and_true]
  exact (h.through_checked checked).congr (fun _ => rfl) fun _ => and_iff_left trivial

/-- What is read behind its size. -/
theorem bind (h : Decodes r encode fits) {f : α → Reader ε β} {size : β → α}
    (h' : ∀ a, Decodes (f a) encode' fun b => size b = a ∧ fits' b) :
    Decodes (r >>= f) (fun b => encode (size b) ++ encode' b) (fun b => fits (size b) ∧ fits' b) := by
  intro bytes b rest
  rw [run_bind]
  constructor
  · rintro ⟨a, mid, first, second⟩
    obtain ⟨fit, rfl⟩ := (h ..).mp first
    obtain ⟨⟨rfl, fit'⟩, rfl⟩ := (h' ..).mp second
    exact ⟨⟨fit, fit'⟩, (List.append_assoc ..).symm⟩
  · rintro ⟨⟨fit, fit'⟩, rfl⟩
    exact ⟨size b, encode' b ++ rest, (h ..).mpr ⟨fit, List.append_assoc ..⟩, (h' ..).mpr ⟨⟨rfl, fit'⟩, rfl⟩⟩

theorem many (h : Decodes r encode fits) (n : ℕ) :
    Decodes (r.many n) (fun as => as.flatMap encode) (fun as => as.length = n ∧ ∀ a ∈ as, fits a) := by
  induction n with
  | zero =>
      intro bytes as rest
      constructor
      · intro read
        cases read
        exact ⟨⟨rfl, nofun⟩, rfl⟩
      · rintro ⟨⟨none, _⟩, rfl⟩
        rw [List.length_eq_zero_iff.mp none]
        rfl
  | succ n ih =>
      intro bytes as rest
      rw [Reader.many, run_bind]
      constructor
      · rintro ⟨a, mid, first, second⟩
        obtain ⟨others, mid', second, final⟩ := run_bind.mp second
        cases final
        obtain ⟨fit, rfl⟩ := (h ..).mp first
        obtain ⟨⟨rfl, fits⟩, rfl⟩ := (ih ..).mp second
        exact ⟨⟨rfl, List.forall_mem_cons.mpr ⟨fit, fits⟩⟩, (List.append_assoc ..).symm⟩
      · rintro ⟨⟨count, fits⟩, rfl⟩
        cases as with
        | nil => cases count
        | cons a others =>
            obtain ⟨fit, fits⟩ := List.forall_mem_cons.mp fits
            refine ⟨a, others.flatMap encode ++ rest, (h ..).mpr ⟨fit, List.append_assoc ..⟩, run_bind.mpr ?_⟩
            exact ⟨others, rest, (ih ..).mpr ⟨⟨Nat.succ.inj count, fits⟩, rfl⟩, rfl⟩

/-- Bytes behind their number. -/
theorem counted {count : Reader ε ℕ} {encodeCount : ℕ → List UInt8} {fitsCount : ℕ → Prop}
    {bytes : ℕ → Reader ε (List UInt8)} (h : Decodes count encodeCount fitsCount)
    (h' : ∀ n, Decodes (bytes n) id (·.length = n)) :
    Decodes (count >>= bytes) (fun xs => encodeCount xs.length ++ xs) (fun xs => fitsCount xs.length) := by
  have exactly : ∀ n, Decodes (bytes n) id fun xs => xs.length = n ∧ True := fun n =>
    (h' n).congr (fun _ => rfl) fun _ => (and_iff_left trivial).symm
  exact (h.bind exactly).congr (fun _ => rfl) fun _ => and_iff_left trivial

theorem prefixed {count : Reader ε ℕ} {encodeCount : ℕ → List UInt8} {fitsCount : ℕ → Prop}
    (h : Decodes count encodeCount fitsCount) (eof : ε) :
    Decodes (count >>= Reader.take eof) (fun xs => encodeCount xs.length ++ xs) (fun xs => fitsCount xs.length) :=
  h.counted (take eof)

theorem sized (eof : ε) (k : ℕ) :
    Decodes (Reader.natBE eof k >>= Reader.take eof) (fun xs => beBytes k xs.length ++ xs) (·.length < 256 ^ k) :=
  (natBE eof k).prefixed eof

end Decodes

/-- More input makes no difference unless the reader ran out of input. -/
def Prompt (eof : ε) (r : Reader ε α) : Prop :=
  ∀ bytes more, r bytes = .error eof ∨ r (bytes ++ more) = (r bytes).map fun p => (p.1, p.2 ++ more)

namespace Prompt

variable {eof : ε} {r : Reader ε α}

theorem take (eof : ε) (n : ℕ) : Prompt eof (take eof n) := by
  intro bytes more
  rcases Nat.lt_or_ge bytes.length n with short | enough
  · exact .inl (if_pos short)
  · refine .inr ?_
    rw [take_append eof enough, Reader.take, if_neg (Nat.not_lt.mpr enough)]
    rfl

theorem bind (h : Prompt eof r) {f : α → Reader ε β} (h' : ∀ a, Prompt eof (f a)) : Prompt eof (r >>= f) := by
  intro bytes more
  have run : ∀ bytes, (r >>= f) bytes = Except.bind (r bytes) fun p => f p.1 p.2 := fun _ => rfl
  rw [run, run]
  rcases h bytes more with out | same
  · rw [out]
    exact .inl rfl
  · rw [same]
    cases r bytes with
    | error e => exact .inr rfl
    | ok p => exact h' p.1 p.2 more

theorem of_pure (a : α) : Prompt eof (pure a : Reader ε α) := fun _ _ => .inr rfl

theorem of_lift (x : Except ε α) : Prompt eof (liftM x : Reader ε α) := by
  intro bytes more
  cases x with
  | error e => exact .inr rfl
  | ok a => exact .inr rfl

theorem map (h : Prompt eof r) (f : α → β) : Prompt eof (f <$> r) := by
  rw [map_eq_pure_bind]
  exact h.bind fun a => of_pure (f a)

end Prompt
end Reader
end Pleiades.Lib
