import Mathlib.Algebra.BigOperators.Group.Finset.Basic
import Mathlib.Algebra.Order.BigOperators.Group.Finset
import Mathlib.Data.List.Basic
import Mathlib.Data.List.Infix
import Mathlib.Logic.Function.Basic

/-!
# Stream machines

Machines that answer each input with one output, and chains of them that pass their
outputs on over FIFO links. A link remembers what was sent, so that what a chain has
computed can be read off its links in whatever order its stages have moved.
-/
namespace Pleiades.Lib

variable {σ τ α β γ : Type*}

structure Mealy (σ α β : Type*) where
  next : σ → α → σ × β

namespace Mealy

variable (m : Mealy σ α β)

def after : σ → List α → σ
  | s, [] => s
  | s, a :: as => after (m.next s a).1 as

def outputs : σ → List α → List β
  | _, [] => []
  | s, a :: as => (m.next s a).2 :: outputs (m.next s a).1 as

theorem outputs_length (s : σ) (as : List α) : (m.outputs s as).length = as.length := by
  induction as generalizing s with
  | nil => rfl
  | cons a as ih => simp [outputs, ih]

theorem after_append (s : σ) (as bs : List α) :
    m.after s (as ++ bs) = m.after (m.after s as) bs := by
  induction as generalizing s with
  | nil => rfl
  | cons a as ih => exact ih _

theorem outputs_append (s : σ) (as bs : List α) :
    m.outputs s (as ++ bs) = m.outputs s as ++ m.outputs (m.after s as) bs := by
  induction as generalizing s with
  | nil => rfl
  | cons a as ih => exact congrArg (List.cons _) (ih _)

theorem outputs_mono (s : σ) {as bs : List α} (initial : as <+: bs) :
    m.outputs s as <+: m.outputs s bs := by
  obtain ⟨rest, rfl⟩ := initial
  rw [outputs_append]
  exact List.prefix_append _ _

/-- An input is answered from the state that the inputs before it have led to. -/
theorem outputs_getElem? (s : σ) (as : List α) (i : ℕ) (inside : i < as.length) :
    (m.outputs s as)[i]? = some (m.next (m.after s (as.take i)) as[i]).2 := by
  induction as generalizing s i with
  | nil => cases inside
  | cons a as ih =>
      cases i with
      | zero => rfl
      | succ i => exact ih _ i (Nat.lt_of_succ_lt_succ inside)

/-- The outputs of the first machine go to the second. -/
def comp (m : Mealy σ α β) (m' : Mealy τ β γ) : Mealy (σ × τ) α γ where
  next s a :=
    let lower := m.next s.1 a
    let upper := m'.next s.2 lower.2
    ((lower.1, upper.1), upper.2)

theorem outputs_comp (m' : Mealy τ β γ) (s : σ) (t : τ) (as : List α) :
    (m.comp m').outputs (s, t) as = m'.outputs t (m.outputs s as) := by
  induction as generalizing s t with
  | nil => rfl
  | cons a as ih => exact congrArg (List.cons _) (ih _ _)

/-- Machines in step with each other have the same outputs. -/
theorem outputs_eq_of_sim {m : Mealy σ α β} {m' : Mealy τ α β} (R : σ → τ → Prop)
    (sim : ∀ {s t}, R s t → ∀ a, R (m.next s a).1 (m'.next t a).1 ∧ (m.next s a).2 = (m'.next t a).2)
    {s : σ} {t : τ} (related : R s t) (as : List α) : m.outputs s as = m'.outputs t as := by
  induction as generalizing s t with
  | nil => rfl
  | cons a as ih =>
      obtain ⟨onward, same⟩ := sim related a
      rw [outputs, outputs, same, ih onward]

/-- The outputs of `n` machines one after the other, each from its initial state. -/
def chainOutputs (m : ℕ → Mealy τ α α) (start : ℕ → τ) : ℕ → List α → List α
  | 0, as => as
  | n + 1, as => (m n).outputs (start n) (chainOutputs m start n as)

theorem chainOutputs_first (m : ℕ → Mealy τ α α) (start : ℕ → τ) (n : ℕ) (as : List α) :
    chainOutputs m start (n + 1) as =
      chainOutputs (fun i => m (i + 1)) (fun i => start (i + 1)) n ((m 0).outputs (start 0) as) := by
  induction n with
  | zero => rfl
  | succ n ih =>
      rw [chainOutputs, ih]
      rfl

end Mealy

/-- A FIFO link: everything sent over it so far, of which `taken` has been received. -/
structure Link (α : Type*) where
  sent : List α
  taken : ℕ
  bound : taken ≤ sent.length

namespace Link

def empty : Link α := ⟨[], 0, le_rfl⟩

def received (l : Link α) : List α := l.sent.take l.taken

def push (l : Link α) (a : α) : Link α where
  sent := l.sent ++ [a]
  taken := l.taken
  bound := by
    rw [List.length_append]
    exact l.bound.trans (Nat.le_add_right _ _)

def pop (l : Link α) : Option (α × Link α) :=
  if more : l.taken < l.sent.length then some (l.sent[l.taken], ⟨l.sent, l.taken + 1, more⟩) else none

theorem received_sent (l : Link α) : l.received <+: l.sent := List.take_prefix _ _

@[simp]
theorem empty_received : (empty : Link α).received = [] := rfl

@[simp]
theorem push_sent (l : Link α) (a : α) : (l.push a).sent = l.sent ++ [a] := rfl

@[simp]
theorem push_received (l : Link α) (a : α) : (l.push a).received = l.received :=
  List.take_append_of_le_length l.bound

theorem received_length (l : Link α) : l.received.length = l.taken :=
  List.length_take_of_le l.bound

theorem pop_spec {l l' : Link α} {a : α} (popped : l.pop = some (a, l')) :
    l'.sent = l.sent ∧ l'.received = l.received ++ [a] := by
  rw [pop] at popped
  split at popped
  · cases popped
    exact ⟨rfl, List.take_succ_eq_append_getElem _⟩
  · cases popped

theorem pop_taken {l l' : Link α} {a : α} (popped : l.pop = some (a, l')) :
    l'.taken = l.taken + 1 := by
  rw [← received_length, (pop_spec popped).2, List.length_append, received_length]
  rfl

theorem pop_none {l : Link α} (none : l.pop = none) : l.received = l.sent := by
  rw [pop] at none
  split at none
  · cases none
  · rename_i all
    exact List.take_of_length_le (Nat.le_of_not_lt all)

/-- How much has been received over the links up to link `n`. -/
def total (n : ℕ) (links : ℕ → Link α) : ℕ := ∑ i ∈ Finset.range (n + 1), (links i).taken

theorem total_update {links : ℕ → Link α} {n k d : ℕ} {l : Link α} (small : k ≤ n)
    (more : l.taken = (links k).taken + d) :
    total n (Function.update links k l) = total n links + d := by
  have member : k ∈ Finset.range (n + 1) := Finset.mem_range_succ_iff.mpr small
  have others : ∑ i ∈ (Finset.range (n + 1)).erase k, (Function.update links k l i).taken =
      ∑ i ∈ (Finset.range (n + 1)).erase k, (links i).taken := by
    apply Finset.sum_congr rfl
    intro i other
    rw [Function.update_of_ne (Finset.ne_of_mem_erase other)]
  rw [total, total, ← Finset.sum_erase_add _ _ member, ← Finset.sum_erase_add _ _ member, others,
    Function.update_self, more, Nat.add_assoc]

theorem total_push {links : ℕ → Link α} {n k : ℕ} (small : k ≤ n) (a : α) :
    total n (Function.update links k ((links k).push a)) = total n links :=
  total_update (d := 0) small rfl

end Link

/-- The links of a chain hold what its stages have computed: stage `i` receives from
link `i`, sends over link `i + 1` what the machine `m i` answers, and is in a state
that stands for that machine's. -/
structure Flow (m : ℕ → Mealy τ α α) (start : ℕ → τ) (R : ℕ → σ → τ → Prop) (n : ℕ)
    (links : ℕ → Link α) (stages : ℕ → σ) : Prop where
  stage : ∀ i < n, R i (stages i) ((m i).after (start i) (links i).received)
  link : ∀ i < n, (links (i + 1)).sent = (m i).outputs (start i) (links i).received

namespace Flow

variable {m : ℕ → Mealy τ α α} {start : ℕ → τ} {R : ℕ → σ → τ → Prop} {n : ℕ}
  {links : ℕ → Link α} {stages : ℕ → σ}

theorem initial (related : ∀ i < n, R i (stages i) (start i)) :
    Flow m start R n (fun _ => .empty) stages :=
  ⟨related, fun _ _ => rfl⟩

theorem push (flow : Flow m start R n links stages) (a : α) :
    Flow m start R n (Function.update links 0 ((links 0).push a)) stages := by
  constructor
  · intro i small
    by_cases first : i = 0
    · subst first
      simpa using flow.stage 0 small
    · simpa [Function.update_of_ne first] using flow.stage i small
  · intro i small
    rw [Function.update_of_ne (Nat.succ_ne_zero i), flow.link i small]
    by_cases first : i = 0
    · subst first
      simp
    · rw [Function.update_of_ne first]

theorem pop {a : α} {l : Link α} (flow : Flow m start R n links stages)
    (popped : (links n).pop = some (a, l)) :
    Flow m start R n (Function.update links n l) stages := by
  constructor
  · intro i small
    rw [Function.update_of_ne small.ne]
    exact flow.stage i small
  · intro i small
    rw [Function.update_of_ne small.ne, ← flow.link i small]
    by_cases last : i + 1 = n
    · subst last
      rw [Function.update_self, (Link.pop_spec popped).1]
    · rw [Function.update_of_ne last]

/-- A stage moves as its machine does. -/
theorem work {i : ℕ} {a b : α} {l : Link α} {s : σ} (flow : Flow m start R n links stages)
    (small : i < n) (popped : (links i).pop = some (a, l))
    (moves : ∀ {t}, R i (stages i) t → R i s ((m i).next t a).1 ∧ b = ((m i).next t a).2) :
    Flow m start R n (Function.update (Function.update links i l) (i + 1) ((links (i + 1)).push b))
      (Function.update stages i s) := by
  obtain ⟨sent, received⟩ := Link.pop_spec popped
  obtain ⟨onward, answer⟩ := moves (flow.stage i small)
  have received_other {j : ℕ} (other : j ≠ i) :
      ((Function.update (Function.update links i l) (i + 1) ((links (i + 1)).push b)) j).received =
        (links j).received := by
    by_cases next : j = i + 1
    · subst next
      simp
    · rw [Function.update_of_ne next, Function.update_of_ne other]
  have received_here :
      ((Function.update (Function.update links i l) (i + 1) ((links (i + 1)).push b)) i).received =
        (links i).received ++ [a] := by
    rw [Function.update_of_ne (Nat.succ_ne_self i).symm, Function.update_self, received]
  constructor
  · intro j below
    by_cases here : j = i
    · subst here
      rw [received_here, Function.update_self, Mealy.after_append]
      exact onward
    · rw [received_other here, Function.update_of_ne here]
      exact flow.stage j below
  · intro j below
    by_cases here : j = i
    · subst here
      rw [received_here, Function.update_self, Link.push_sent, flow.link j below,
        Mealy.outputs_append, answer]
      rfl
    · have next : j + 1 ≠ i + 1 := fun same => here (Nat.succ.inj same)
      rw [received_other here, Function.update_of_ne next, ← flow.link j below]
      by_cases back : j + 1 = i
      · rw [back, Function.update_self, sent]
      · rw [Function.update_of_ne back]

/-- What leaves a chain is the beginning of what its machines make of the input. -/
theorem outputs (flow : Flow m start R n links stages) :
    (links n).sent <+: Mealy.chainOutputs m start n (links 0).sent := by
  have upto : ∀ i ≤ n, (links i).sent <+: Mealy.chainOutputs m start i (links 0).sent := by
    intro i
    induction i with
    | zero =>
        intro _
        exact List.prefix_rfl
    | succ i ih =>
        intro small
        rw [flow.link i small]
        exact (m i).outputs_mono _ ((links i).received_sent.trans (ih (Nat.le_of_succ_le small)))
  exact upto n le_rfl

/-- A chain whose stages have received everything is done with its input. -/
theorem drained (flow : Flow m start R n links stages)
    (all : ∀ i < n, (links i).received = (links i).sent) :
    (links n).sent = Mealy.chainOutputs m start n (links 0).sent := by
  have upto : ∀ i ≤ n, (links i).sent = Mealy.chainOutputs m start i (links 0).sent := by
    intro i
    induction i with
    | zero =>
        intro _
        rfl
    | succ i ih =>
        intro small
        rw [flow.link i small, all i small, ih (Nat.le_of_succ_le small)]
        rfl
  exact upto n le_rfl

/-- No link gets more than the chain was given. -/
theorem total_le (flow : Flow m start R n links stages) :
    Link.total n links ≤ (n + 1) * (links 0).sent.length := by
  have upto : ∀ i ≤ n, (links i).sent.length ≤ (links 0).sent.length := by
    intro i
    induction i with
    | zero =>
        intro _
        exact le_rfl
    | succ i ih =>
        intro small
        rw [flow.link i small, Mealy.outputs_length]
        exact (links i).received_sent.length_le.trans (ih (Nat.le_of_succ_le small))
  have each : ∀ i ∈ Finset.range (n + 1), (links i).taken ≤ (links 0).sent.length := by
    intro i member
    exact (links i).bound.trans (upto i (Finset.mem_range_succ_iff.mp member))
  simpa [Link.total] using Finset.sum_le_card_nsmul _ _ _ each

end Flow

end Pleiades.Lib
