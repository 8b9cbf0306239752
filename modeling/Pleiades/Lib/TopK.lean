import Mathlib.Data.List.Sort
import Mathlib.Order.Basic

/-!
# The best of some candidates

A stable descending sort of candidates with scores, of which the first ones are taken. What
is among them is a matter of rank: how many others beat a candidate. Scores are compared by a
relation of which nothing is known; the ranks need it to be an order on the candidates.
-/
namespace Pleiades.Lib

variable {α : Type*} [LT α] [DecidableLT α] (score : ℕ → α)

/-- `i` comes before `j`: it has the better score, or none is better and it has the smaller number. -/
def Beats (i j : ℕ) : Prop := score j < score i ∨ ¬ score i < score j ∧ i < j

instance : DecidableRel (Beats score) := fun _ _ => inferInstanceAs (Decidable (_ ∨ _ ∧ _))

/-- The scores of the candidates are in an order, in which some may be the same: what a sort by comparisons asks
for. A score that compares with no other one is in such an order only with others that do not compare either. -/
structure Comparable (candidates : List ℕ) : Prop where
  asymm : ∀ i ∈ candidates, ∀ j ∈ candidates, score i < score j → ¬ score j < score i
  between : ∀ i ∈ candidates, ∀ j ∈ candidates, ∀ l ∈ candidates,
    score i < score l → score i < score j ∨ score j < score l

/-- Candidates with their scores, sorted with the best first, of which `k` are taken. -/
def topK (k : ℕ) (candidates : List ℕ) : List ℕ :=
  (((candidates.map fun j => (score j, j)).insertionSort fun a b => ¬ a.1 < b.1).take k).map Prod.snd

/-- All candidates, the best first. -/
def ranked (candidates : List ℕ) : List ℕ := candidates.insertionSort fun i j => ¬ score i < score j

variable {score} {candidates : List ℕ} {i j k l : ℕ}

theorem topK_eq : topK score k candidates = (ranked score candidates).take k := by
  have sorted : (candidates.map fun j => (score j, j)).insertionSort (fun a b => ¬ a.1 < b.1) =
      (ranked score candidates).map fun j => (score j, j) := by
    symm
    apply List.map_insertionSort
    intro i _ j _
    exact Iff.rfl
  rw [topK, sorted, ← List.map_take, List.map_map]
  exact List.map_id _

theorem ranked_perm (candidates : List ℕ) : (ranked score candidates).Perm candidates := List.perm_insertionSort _ _

omit [DecidableLT α] in
theorem Comparable.of_linearOrder {β : Type*} [LinearOrder β] (score : ℕ → β) (candidates : List ℕ) :
    Comparable score candidates where
  asymm _ _ _ _ := lt_asymm
  between _ _ _ _ _ _ less := lt_or_ge .. |>.imp_right fun upTo => upTo.trans_lt less

section Order

omit [DecidableLT α]

variable (comparable : Comparable score candidates)
include comparable

theorem Comparable.irrefl (member : i ∈ candidates) : ¬ Beats score i i := by
  rintro (less | ⟨-, less⟩)
  · exact comparable.asymm i member i member less less
  · exact lt_irrefl _ less

theorem Comparable.trans (inI : i ∈ candidates) (inJ : j ∈ candidates) (inL : l ∈ candidates)
    (first : Beats score i j) (second : Beats score j l) : Beats score i l := by
  rcases first with less | ⟨notLess, before⟩
  · left
    rcases second with less' | ⟨notLess', -⟩
    · exact (comparable.between l inL i inI j inJ less').resolve_right (comparable.asymm j inJ i inI less)
    · exact (comparable.between j inJ l inL i inI less).resolve_left notLess'
  · rcases second with less' | ⟨notLess', before'⟩
    · exact .inl ((comparable.between l inL i inI j inJ less').resolve_right notLess)
    · refine .inr ⟨fun less => ?_, before.trans before'⟩
      exact (comparable.between i inI j inJ l inL less).elim notLess notLess'

theorem Comparable.asymm_beats (inI : i ∈ candidates) (inJ : j ∈ candidates) (first : Beats score i j) :
    ¬ Beats score j i :=
  fun back => comparable.irrefl inI (comparable.trans inI inJ inI first back)

end Order

/-- A candidate is put in front of the later ones with the same score. -/
theorem orderedInsert_pairwise {sorted : List ℕ} (comparable : Comparable score candidates) (inI : i ∈ candidates)
    (inside : ∀ j ∈ sorted, j ∈ candidates) (before : ∀ j ∈ sorted, i < j) (ranks : sorted.Pairwise (Beats score)) :
    (sorted.orderedInsert (fun i j => ¬ score i < score j) i).Pairwise (Beats score) := by
  induction sorted with
  | nil => exact List.pairwise_singleton _ _
  | cons j sorted ih =>
      obtain ⟨inJ, insideLater⟩ := List.forall_mem_cons.mp inside
      obtain ⟨beforeJ, beforeLater⟩ := List.forall_mem_cons.mp before
      obtain ⟨first, later⟩ := List.pairwise_cons.mp ranks
      rw [List.orderedInsert_cons]
      split
      · next notLess =>
          have here : Beats score i j := .inr ⟨notLess, beforeJ⟩
          refine List.pairwise_cons.mpr ⟨List.forall_mem_cons.mpr ⟨here, fun l member => ?_⟩, ranks⟩
          exact comparable.trans inI inJ (insideLater l member) here (first l member)
      · next less =>
          refine List.pairwise_cons.mpr ⟨fun l member => ?_, ih insideLater beforeLater later⟩
          rcases (List.mem_orderedInsert _).mp member with rfl | member
          · exact .inl (not_not.mp less)
          · exact first l member

/-- No two candidates rank the same: equal scores keep the order of the candidates. -/
theorem ranked_pairwise (comparable : Comparable score candidates) (ascending : candidates.Pairwise (· < ·)) :
    (ranked score candidates).Pairwise (Beats score) := by
  unfold ranked
  suffices sorted : ∀ rest : List ℕ, (∀ j ∈ rest, j ∈ candidates) → rest.Pairwise (· < ·) →
      (rest.insertionSort fun i j => ¬ score i < score j).Pairwise (Beats score) from
    sorted candidates (fun _ member => member) ascending
  intro rest inside ascending
  induction rest with
  | nil => exact .nil
  | cons i rest ih =>
      obtain ⟨inI, insideLater⟩ := List.forall_mem_cons.mp inside
      obtain ⟨first, later⟩ := List.pairwise_cons.mp ascending
      rw [List.insertionSort_cons]
      refine orderedInsert_pairwise comparable inI ?_ ?_ (ih insideLater later)
      · exact fun j member => insideLater j ((List.mem_insertionSort _).mp member)
      · exact fun j member => first j ((List.mem_insertionSort _).mp member)

theorem mem_take_beats {sorted : List ℕ} (comparable : Comparable score candidates)
    (inside : ∀ j ∈ sorted, j ∈ candidates) (ranks : sorted.Pairwise (Beats score)) (k : ℕ) :
    j ∈ sorted.take k ↔ j ∈ sorted ∧ sorted.countP (fun i => Beats score i j) < k := by
  induction sorted generalizing k with
  | nil => simp
  | cons i sorted ih =>
      obtain ⟨inI, insideLater⟩ := List.forall_mem_cons.mp inside
      obtain ⟨first, later⟩ := List.pairwise_cons.mp ranks
      cases k with
      | zero => simp
      | succ k =>
          rw [List.take_succ_cons, List.mem_cons, List.mem_cons, List.countP_cons, ih insideLater later]
          by_cases same : j = i
          · subst same
            have none : sorted.countP (fun i => Beats score i j) = 0 := by
              rw [List.countP_eq_zero]
              intro l member
              simpa using comparable.asymm_beats inI (insideLater l member) (first l member)
            simp [none, comparable.irrefl inI]
          · by_cases member : j ∈ sorted
            · simp [same, member, first j member]
            · simp [same, member]

/-- A candidate is taken if fewer than `k` beat it. -/
theorem mem_topK (comparable : Comparable score candidates) (ascending : candidates.Pairwise (· < ·)) :
    j ∈ topK score k candidates ↔ j ∈ candidates ∧ candidates.countP (fun i => Beats score i j) < k := by
  have inside : ∀ j ∈ ranked score candidates, j ∈ candidates := fun j => (ranked_perm candidates).mem_iff.mp
  rw [topK_eq, mem_take_beats comparable inside (ranked_pairwise comparable ascending), (ranked_perm candidates).mem_iff,
    (ranked_perm candidates).countP_eq]

/-- Whatever is taken is a candidate, in whatever order the scores are. -/
theorem mem_of_mem_topK (member : j ∈ topK score k candidates) : j ∈ candidates := by
  rw [topK_eq] at member
  exact (ranked_perm candidates).mem_iff.mp (List.mem_of_mem_take member)

theorem topK_nodup (ascending : candidates.Pairwise (· < ·)) : (topK score k candidates).Nodup := by
  rw [topK_eq]
  have nodup : (ranked score candidates).Nodup := (ranked_perm candidates).nodup_iff.mpr (ascending.imp ne_of_lt)
  exact nodup.sublist (List.take_sublist _ _)

theorem topK_length : (topK score k candidates).length = min k candidates.length := by
  rw [topK_eq, List.length_take, (ranked_perm candidates).length_eq]

/-- A bound on what is taken does not matter when it is no smaller than what is there. -/
theorem topK_min (few : candidates.length ≤ l) : topK score (min k l) candidates = topK score k candidates := by
  have all : (ranked score candidates).take l = ranked score candidates :=
    List.take_of_length_le ((ranked_perm candidates).length_eq.trans_le few)
  rw [topK_eq, topK_eq, ← List.take_take, all]

theorem topK_congr {score' : ℕ → α} (same : ∀ j ∈ candidates, score j = score' j) :
    topK score k candidates = topK score' k candidates := by
  have pairs : (candidates.map fun j => (score j, j)) = candidates.map fun j => (score' j, j) :=
    List.map_congr_left fun j member => by rw [same j member]
  rw [topK, topK, pairs]

end Pleiades.Lib
