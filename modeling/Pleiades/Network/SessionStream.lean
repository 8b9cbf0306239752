import Pleiades.Lib.Reader
import Pleiades.Lib.Text

/-!
# Session streams

The data frames `[4B length BE][text]` of a session stream, and a reader that takes an
empty one for the end of a turn.
-/
namespace Pleiades.Network

open Lib Reader

inductive SessionFrameError where
  | unexpectedEof
  | invalidData
  deriving DecidableEq

/-- `len() as u32` in front of the bytes; `MAX_FRAME_SIZE` is not looked at. -/
def writeSessionFrame (text : String) : List UInt8 := beBytes 4 (utf8 text).length ++ utf8 text

def decodeSessionText (bytes : List UInt8) : Except SessionFrameError String :=
  match ofUtf8 bytes with
  | some text => .ok text
  | none => .error .invalidData

def readSessionFrame : Reader SessionFrameError String :=
  (natBE .unexpectedEof 4 >>= take .unexpectedEof).through decodeSessionText

inductive TurnReading where
  | receiving
  | endOfTurn (rest : List UInt8)
  | failed (e : SessionFrameError)
  deriving DecidableEq

/-- Frame after frame up to the empty one. -/
def readTurn : ℕ → List UInt8 → List String × TurnReading
  | 0, _ => ([], .receiving)
  | calls + 1, bytes =>
    match readSessionFrame bytes with
    | .error e => ([], .failed e)
    | .ok (text, rest) =>
      if text = "" then ([], .endOfTurn rest)
      else (text :: (readTurn calls rest).1, (readTurn calls rest).2)

/-- The length of the text fits into its field, and it is not the empty frame. -/
structure Framable (text : String) : Prop where
  nonempty : text ≠ ""
  length : (utf8 text).length < 256 ^ 4

theorem decodes_sessionFrame :
    Decodes readSessionFrame writeSessionFrame fun text => (utf8 text).length < 256 ^ 4 := by
  apply (Decodes.sized SessionFrameError.unexpectedEof 4).through
  intro bytes text
  rw [← ofUtf8_iff, decodeSessionText]
  cases ofUtf8 bytes <;> simp

theorem readTurn_end (calls : ℕ) (rest : List UInt8) :
    readTurn (calls + 1) (writeSessionFrame "" ++ rest) = ([], .endOfTurn rest) := by
  have read : readSessionFrame (writeSessionFrame "" ++ rest) = .ok ("", rest) :=
    (decodes_sessionFrame _ _ _).mpr ⟨by decide, rfl⟩
  rw [readTurn, read]
  rfl

theorem readTurn_framable {text : String} (framable : Framable text) (calls : ℕ) (rest : List UInt8) :
    readTurn (calls + 1) (writeSessionFrame text ++ rest) =
      (text :: (readTurn calls rest).1, (readTurn calls rest).2) := by
  have read : readSessionFrame (writeSessionFrame text ++ rest) = .ok (text, rest) :=
    (decodes_sessionFrame _ _ _).mpr ⟨framable.length, rfl⟩
  rw [readTurn, read]
  exact if_neg framable.nonempty

/-- The first text that is read is never an empty or an overlong one. -/
theorem framable_of_readTurn {text : String} {texts : List String} {bytes : List UInt8} {calls : ℕ}
    (first : (readTurn (calls + 1) bytes).1 = text :: texts) : Framable text := by
  rw [readTurn] at first
  split at first
  · cases first
  · next text' rest read =>
      split at first
      · cases first
      · next nonempty =>
          cases first
          exact ⟨nonempty, ((decodes_sessionFrame ..).mp read).1⟩

/-- The texts of a turn arrive, and it ends behind them, exactly if all are framable. -/
theorem readTurn_iff (texts : List String) (more : List UInt8) :
    (∀ calls, readTurn calls (texts.flatMap writeSessionFrame ++ (writeSessionFrame "" ++ more)) =
        (texts.take calls, if calls ≤ texts.length then .receiving else .endOfTurn more)) ↔
      ∀ text ∈ texts, Framable text := by
  induction texts with
  | nil =>
      refine iff_of_true (fun calls => ?_) nofun
      cases calls with
      | zero => rfl
      | succ calls =>
          rw [List.flatMap_nil, List.nil_append, readTurn_end]
          simp
  | cons text texts ih =>
      rw [List.forall_mem_cons, ← ih, List.flatMap_cons, List.append_assoc]
      constructor
      · intro arrive
        have framable : Framable text := framable_of_readTurn (congrArg Prod.fst (arrive 1))
        refine ⟨framable, fun calls => ?_⟩
        have next := arrive (calls + 1)
        rw [readTurn_framable framable, Prod.mk.injEq, List.take_succ_cons, List.cons.injEq,
          List.length_cons] at next
        refine Prod.ext next.1.2 (next.2.trans ?_)
        simp
      · rintro ⟨framable, arrive⟩ calls
        cases calls with
        | zero => rfl
        | succ calls =>
            rw [readTurn_framable framable, arrive calls]
            simp

end Pleiades.Network
