import Pleiades.Lib.Mealy

/-!
# Scripts

Programs that call operations on a state one after the other and stop at the first
error, and the rules by which their runs are put together.
-/
namespace Pleiades.Lib

abbrev Script (σ α : Type) := ExceptT String (StateM σ) α

variable {σ τ α β : Type}

/-- The script ends without error with `a`, and changes the state from `s` to `t`. -/
def Runs (x : Script σ α) (s : σ) (a : α) (t : σ) : Prop := x.run.run s = (.ok a, t)

namespace Runs

variable {s t u : σ} {a : α} {b : β} {x : Script σ α}

theorem pure (a : α) (s : σ) : Runs (Pure.pure a) s a s := rfl

theorem bind {f : α → Script σ β} (first : Runs x s a t) (rest : Runs (f a) t b u) :
    Runs (x >>= f) s b u := by
  unfold Runs at *
  rw [ExceptT.run_bind, StateT.run_bind, first]
  exact rest

end Runs

/-- An operation on a part of the state. -/
def Script.call (get : τ → σ) (set : τ → σ → τ) (op : σ → Except String α × σ) : Script τ α :=
  ExceptT.mk fun t => ((op (get t)).1, set t (op (get t)).2)

theorem Runs.call {get : τ → σ} {set : τ → σ → τ} {op : σ → Except String α × σ} {t : τ} {a : α} {s : σ}
    (done : op (get t) = (.ok a, s)) : Runs (.call get set op) t a (set t s) := by
  rw [Runs, Script.call]
  exact congrArg (fun out => (out.1, set t out.2)) done

/-- A loop over inputs that answers each input as a machine does answers all of them so. -/
theorem Runs.forM {m : Mealy τ α β} {f : α → Script σ Unit} (emitted : σ → List β) (R : σ → τ → Prop)
    (sim : ∀ {s t}, R s t → ∀ a, ∃ s', Runs (f a) s () s' ∧ R s' (m.next t a).1 ∧
      emitted s' = emitted s ++ [(m.next t a).2])
    {s : σ} {t : τ} (related : R s t) (as : List α) :
    ∃ s', Runs (as.forM f) s () s' ∧ R s' (m.after t as) ∧ emitted s' = emitted s ++ m.outputs t as := by
  induction as generalizing s t with
  | nil => exact ⟨s, .pure () s, related, (List.append_nil _).symm⟩
  | cons a as ih =>
      obtain ⟨s', body, related', sent⟩ := sim related a
      obtain ⟨s'', rest, related'', sent'⟩ := ih related'
      refine ⟨s'', body.bind rest, related'', ?_⟩
      rw [sent', sent, List.append_assoc]
      rfl

end Pleiades.Lib
