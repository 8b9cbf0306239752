import Pleiades.Lib.Run
import Pleiades.Lib.TopK
import Mathlib.Algebra.BigOperators.Group.List.Basic
import Mathlib.Algebra.Order.Field.Rat
import Mathlib.Data.List.Count
import Mathlib.Data.List.Induction
import Mathlib.Order.MinMax

/-!
# Mixture of experts

The gate of a DeepSeek V4 layer and the pass through its experts, which goes over the
experts and gathers for each of them the tokens that it is chosen for. Rows are sorted by
scores that compare with one another: with a NaN among others `sort_by` promises no order
(it may panic), and the rows here are then in that of an insertion sort.
-/
namespace Pleiades.MlEngine.DeepSeekV4

open Lib

variable {H S : Type}

inductive ScoreFunc where
  | sqrtSoftplus
  | softmax
  | sigmoid
  deriving DecidableEq, Repr

/-- The numbers of the tensor library as far as scores and weights are computed and compared with them. No law is
assumed of the operations, which round, and of two numbers neither may be less, as with a NaN. -/
class Score (S : Type) where
  add : S → S → S
  mul : S → S → S
  div : S → S → S
  zero : S
  lt : S → S → Prop
  /-- `sum_keepdim` of a row, in the order in which the library adds it up. -/
  sum : List S → S
  decidableLT : DecidableRel lt

namespace Score

variable [Score S]

-- A type of numbers that has operations of its own keeps them.
instance (priority := 100) toAdd : Add S := ⟨Score.add⟩
instance (priority := 100) toMul : Mul S := ⟨Score.mul⟩
instance (priority := 100) toDiv : Div S := ⟨Score.div⟩
instance (priority := 100) toZero : Zero S := ⟨Score.zero⟩
instance (priority := 100) toLT : LT S := ⟨Score.lt⟩
instance (priority := 100) toDecidableLT : DecidableLT S := Score.decidableLT

end Score

/-- `Tensor::affine` of a number. -/
def affine [Score S] (x mul add : S) : S := x * mul + add

/-- `Gate`, with a score and a bias for each of its experts. A row of the table has the experts of one token. -/
structure Gate (H S : Type) where
  experts : ℕ
  scores : H → List S
  bias : Option (List S)
  topk : ℕ
  routeScale : S
  /-- The weight of each of some experts that share the scale, which is divided before it is rounded. -/
  routeShare : ℕ → S
  scoreFunc : ScoreFunc
  tid2eid : Option (List (List ℕ))
  perToken : ℕ
  even : ∀ table ∈ tid2eid, ∀ row ∈ table, row.length = perToken
  scored : ∀ x, (scores x).length = experts
  biased : ∀ b ∈ bias, b.length = experts

/-- Why rows are not routed by their tokens; the second one is the tensor library's. -/
inductive HashError where
  | message (text : String)
  | indexSelect
  deriving DecidableEq, Repr

namespace Gate

variable [Score S] (gate : Gate H S)

def biasedScores (x : H) : List S :=
  match gate.bias with
  | some bias => List.zipWith (· + ·) (gate.scores x) bias
  | none => gate.scores x

/-- What an expert is sorted by. -/
def biasedScore (x : H) (j : ℕ) : S := (gate.biasedScores x).getD j 0

/-- The experts of a row, and the weights that they get from the scores without the bias. -/
def chosen (x : H) : List ℕ := topK (gate.biasedScore x) (min gate.topk gate.experts) (List.range gate.experts)

def picked (x : H) : List S := (gate.chosen x).map fun j => (gate.scores x).getD j 0

def weights (x : H) : List S :=
  match gate.scoreFunc with
  | .softmax => (gate.picked x).map fun w => affine w gate.routeScale 0
  | _ => (gate.picked x).map fun w => affine (w / Score.sum (gate.picked x)) gate.routeScale 0

def routed (x : H) : List (ℕ × S) := (gate.chosen x).zip (gate.weights x)

/-- `route`: the weights and the indices of all rows, one row after the other. -/
def route (xs : List H) : List S × List ℕ := (xs.flatMap gate.weights, xs.flatMap gate.chosen)

/-- The first experts of a token's row, with the same weight each. -/
def looked (table : List (List ℕ)) (id : ℕ) : List (ℕ × S) :=
  let k := min gate.topk gate.perToken
  ((table.getD id []).take k).map fun e => (e, gate.routeShare k)

def lookUp (table : List (List ℕ)) (id : ℕ) : Except HashError (List (ℕ × S)) :=
  if id < table.length then .ok (gate.looked table id) else .error .indexSelect

/-- The rows of `route_hashed`. -/
def hashed (ids : List ℕ) : Except HashError (List (List (ℕ × S))) :=
  match gate.tid2eid with
  | none => .error (.message "route_hashed: tid2eid not loaded")
  | some table => ids.mapM (gate.lookUp table)

/-- `route_hashed`. -/
def routeHashed (ids : List ℕ) : Except HashError (List S × List ℕ) :=
  (gate.hashed ids).map fun rows => (rows.flatMap fun row => row.map Prod.snd, rows.flatMap fun row => row.map Prod.fst)

end Gate

/-- The experts, each as what it makes of a row with a weight, and the one for all rows. -/
structure Moe (H S : Type) where
  gate : Gate H S
  experts : List (H → S → H)
  shared : H → H
  zero : H
  add : H → H → H
  sized : experts.length = gate.experts

namespace Moe

/-- Whether a slot of the routed rows is the expert's. An index behind the end of the lists is a panic. -/
def slot (topk : ℕ) (wv : List S) (iv : List ℕ) (e : ℕ) (at_ : ℕ × ℕ) : Option (Option (ℕ × S)) :=
  match iv[at_.1 * topk + at_.2]? with
  | none => none
  | some id => if id = e then wv[at_.1 * topk + at_.2]?.map fun w => some (at_.1, w) else some none

/-- The rows of one expert with their weights. -/
def gathered (topk n : ℕ) (wv : List S) (iv : List ℕ) (e : ℕ) : Option (List (ℕ × S)) :=
  (((List.range n).flatMap fun t => (List.range topk).map fun s => (t, s)).mapM (slot topk wv iv e)).map
    (List.filterMap id)

variable (moe : Moe H S)

/-- `index_add`. -/
def indexAdd (y : List H) (rows : List (ℕ × H)) : List H := rows.foldl (fun y (t, h) => y.modify t (moe.add · h)) y

/-- One round of the loop over the experts. -/
def pass (xs : List H) (wv : List S) (iv : List ℕ) (y : List H) (expert : (H → S → H) × ℕ) : Option (List H) :=
  (gathered moe.gate.topk xs.length wv iv expert.2).map fun rows =>
    moe.indexAdd y (rows.filterMap fun row => xs[row.1]?.map fun x => (row.1, expert.1 x row.2))

/-- What both passes have in common; nothing is returned when it panics. -/
def dispatch (xs : List H) (wv : List S) (iv : List ℕ) : Option (List H) :=
  (moe.experts.zipIdx.foldlM (moe.pass xs wv iv) (List.replicate xs.length moe.zero)).map fun y =>
    List.zipWith moe.add y (xs.map moe.shared)

/-- `forward`. -/
def forward [Score S] (xs : List H) : Option (List H) :=
  let (wv, iv) := moe.gate.route xs
  moe.dispatch xs wv iv

/-- `forward_hashed`. -/
def forwardHashed (xs : List H) (ids : List ℕ) : Except HashError (Option (List H)) :=
  (moe.gate.routeHashed ids).map fun (wv, iv) => moe.dispatch xs wv iv

/-- What the experts of a single row answer, in the order of the experts. -/
def answers (x : H) (routed : List (ℕ × S)) : List H :=
  moe.experts.zipIdx.flatMap fun (expert, e) => (routed.filter (·.1 = e)).map fun r => expert x r.2

/-- What a single row gets. -/
def token (x : H) (routed : List (ℕ × S)) : H := moe.add ((moe.answers x routed).foldl moe.add moe.zero) (moe.shared x)

end Moe

/-! Rows of equal length, one after the other. -/

theorem getElem?_flatMap_rows {A A' : Type} {f : A → List A'} {k : ℕ} {rows : List A}
    (each : ∀ row ∈ rows, (f row).length = k)
    (t : ℕ) {s : ℕ} (inside : s < k) : (rows.flatMap f)[t * k + s]? = rows[t]?.bind fun row => (f row)[s]? := by
  induction rows generalizing t with
  | nil => rfl
  | cons row rows ih =>
      obtain ⟨here, later⟩ := List.forall_mem_cons.mp each
      rw [List.flatMap_cons]
      cases t with
      | zero =>
          rw [List.getElem?_append_left (by omega), Nat.zero_mul, Nat.zero_add]
          rfl
      | succ t =>
          have behind : (t + 1) * k + s - (f row).length = t * k + s := by rw [here, Nat.succ_mul]; omega
          have beyond : (f row).length ≤ (t + 1) * k + s := by rw [here, Nat.succ_mul]; omega
          rw [List.getElem?_append_right beyond, behind, ih later]
          rfl

/-- What is done with each entry of a list can be done with each index. -/
theorem filterMap_range {A A' : Type} (l : List A) (g : A → Option A') :
    (List.range l.length).filterMap (fun s => l[s]?.bind g) = l.filterMap g := by
  induction l using List.reverseRecOn with
  | nil => rfl
  | append_singleton l a ih =>
      have before : (List.range l.length).filterMap (fun s => (l ++ [a])[s]?.bind g) =
          (List.range l.length).filterMap fun s => l[s]?.bind g := by
        apply List.filterMap_congr
        intro s member
        rw [List.getElem?_append_left (List.mem_range.mp member)]
      rw [List.length_append, List.length_singleton, List.range_succ, List.filterMap_append, List.filterMap_append,
        before, ih]
      simp [List.filterMap_cons]

/-- Of values that are numbered by their groups a filter takes one group. -/
theorem filter_flatMap_range {A : Type} (n t : ℕ) (values : ℕ → List A) :
    ((List.range n).flatMap fun i => (values i).map fun a => (i, a)).filter (·.1 = t) =
      if t < n then (values t).map fun a => (t, a) else [] := by
  induction n with
  | zero => simp
  | succ n ih =>
      rw [List.range_succ, List.flatMap_append, List.filter_append, ih, List.flatMap_singleton]
      rcases lt_trichotomy t n with less | rfl | more
      · have other : n ≠ t := less.ne'
        simp [less, less.trans (Nat.lt_succ_self n), other]
      · simp
      · have other : n ≠ t := more.ne
        have no : ¬ t < n := by omega
        have no' : ¬ t < n + 1 := by omega
        simp [no, no', other]

namespace Moe

variable {moe : Moe H S} {xs : List H} {routed : List (List (ℕ × S))} {topk : ℕ}

/-- The rows of an expert are found in the lists of all routed rows. -/
theorem gathered_eq (each : ∀ row ∈ routed, row.length = topk) (e : ℕ) :
    gathered topk routed.length (routed.flatMap fun row => row.map Prod.snd)
      (routed.flatMap fun row => row.map Prod.fst) e =
      some ((List.range routed.length).flatMap fun t =>
        (((routed[t]?.getD []).filter (·.1 = e)).map Prod.snd).map fun w => (t, w)) := by
  let mine (t : ℕ) (r : ℕ × S) : Option (ℕ × S) := if r.1 = e then some (t, r.2) else none
  let found (slot : ℕ × ℕ) : Option (ℕ × S) := (routed[slot.1]?.getD [])[slot.2]?.bind (mine slot.1)
  unfold gathered
  rw [mapM_some (g := found)]
  · rw [Option.map_some, List.filterMap_map, List.filterMap_flatMap]
    congr 1
    apply List.flatMap_congr
    intro t member
    have inside := List.mem_range.mp member
    have width : (routed[t]?.getD []).length = topk := by
      rw [List.getElem?_eq_getElem inside]
      exact each _ (List.getElem_mem inside)
    rw [List.filterMap_map, ← width]
    refine (filterMap_range (routed[t]?.getD []) (mine t)).trans ?_
    rw [List.map_map]
    induction routed[t]?.getD [] with
    | nil => rfl
    | cons r row ih => by_cases same : r.1 = e <;> simp [mine, same, ← ih]
  · rintro ⟨t, s⟩ member
    obtain ⟨t', known, member⟩ := List.mem_flatMap.mp member
    obtain ⟨s', within, same⟩ := List.mem_map.mp member
    obtain ⟨rfl, rfl⟩ := Prod.mk.inj same
    have inside := List.mem_range.mp known
    have short := List.mem_range.mp within
    have width : routed[t'].length = topk := each _ (List.getElem_mem inside)
    have names : (routed.flatMap fun row => row.map Prod.fst)[t' * topk + s']? = some routed[t'][s'].1 := by
      rw [getElem?_flatMap_rows (fun row member => by rw [List.length_map, each row member]) t' short]
      simp [inside, width, short]
    have shares : (routed.flatMap fun row => row.map Prod.snd)[t' * topk + s']? = some routed[t'][s'].2 := by
      rw [getElem?_flatMap_rows (fun row member => by rw [List.length_map, each row member]) t' short]
      simp [inside, width, short]
    by_cases same : routed[t'][s'].1 = e <;> simp [slot, found, mine, names, shares, inside, width, short, same]

/-- A row that is added to gets what is meant for it, in the order of the list. -/
theorem indexAdd_getElem? (y : List H) (rows : List (ℕ × H)) (t : ℕ) :
    (moe.indexAdd y rows)[t]? = y[t]?.map fun h => ((rows.filter (·.1 = t)).map Prod.snd).foldl moe.add h := by
  induction rows generalizing y with
  | nil => simp [indexAdd]
  | cons row rows ih =>
      refine (ih (y.modify row.1 (moe.add · row.2))).trans ?_
      rw [List.getElem?_modify]
      by_cases same : row.1 = t <;> cases y[t]? <;> simp [same]

theorem foldl_indexAdd {A : Type} (y : List H) (f : A → List (ℕ × H)) (l : List A) :
    l.foldl (fun y a => moe.indexAdd y (f a)) y = moe.indexAdd y (l.flatMap f) := by
  unfold indexAdd
  exact List.foldl_flatMap.symm

/-- What an expert makes of the rows that it is chosen for. -/
theorem pass_eq (each : ∀ row ∈ routed, row.length = moe.gate.topk) (same : routed.length = xs.length) (y : List H)
    (expert : (H → S → H) × ℕ) :
    moe.pass xs (routed.flatMap fun row => row.map Prod.snd) (routed.flatMap fun row => row.map Prod.fst) y expert =
      some (moe.indexAdd y ((List.range xs.length).flatMap fun t =>
        ((xs[t]?.elim [] fun x => ((routed[t]?.getD []).filter (·.1 = expert.2)).map fun r => expert.1 x r.2)).map
          fun h => (t, h))) := by
  rw [pass, ← same, gathered_eq each, Option.map_some, List.filterMap_flatMap]
  congr 2
  apply List.flatMap_congr
  intro t member
  have inside : t < xs.length := same ▸ List.mem_range.mp member
  rw [List.filterMap_map, List.getElem?_eq_getElem inside, Option.elim_some, ← List.filterMap_eq_map,
    ← List.filterMap_eq_map, List.filterMap_filterMap]
  simp [inside]

/-- With as many slots in each row as there are indices, each row gets what it would get alone. -/
theorem dispatch_eq (each : ∀ row ∈ routed, row.length = moe.gate.topk) (same : routed.length = xs.length) :
    moe.dispatch xs (routed.flatMap fun row => row.map Prod.snd) (routed.flatMap fun row => row.map Prod.fst) =
      some (List.zipWith moe.token xs routed) := by
  rw [dispatch, foldlM_some (pass_eq each same), Option.map_some]
  congr 1
  apply List.ext_getElem?
  intro t
  rw [foldl_indexAdd, List.getElem?_zipWith, indexAdd_getElem?, List.filter_flatMap]
  simp only [filter_flatMap_range]
  by_cases inside : t < xs.length
  · have known : t < routed.length := same ▸ inside
    simp [inside, known, token, answers, List.map_flatMap, Function.comp_def]
  · simp [inside]

theorem dispatch_nil (none : moe.experts = []) (same : routed.length = xs.length) (wv : List S) (iv : List ℕ) :
    moe.dispatch xs wv iv = some (List.zipWith moe.token xs routed) := by
  rw [dispatch, none]
  apply congrArg some
  induction xs generalizing routed with
  | nil => rfl
  | cons x xs ih =>
      cases routed with
      | nil => cases same
      | cons row routed =>
          rw [List.zipWith_cons_cons, ← ih (Nat.succ.inj same), token, answers, none]
          rfl

/-- With fewer slots than there are indices the last one of the last row is behind the end. -/
theorem dispatch_panics (some' : moe.experts ≠ []) {wv : List S} {iv : List ℕ}
    (fewer : iv.length < xs.length * moe.gate.topk) : moe.dispatch xs wv iv = none := by
  obtain ⟨n, rows⟩ := Nat.exists_eq_succ_of_ne_zero (Nat.pos_of_mul_pos_right (Nat.zero_lt_of_lt fewer)).ne'
  obtain ⟨s, slots⟩ := Nat.exists_eq_succ_of_ne_zero (Nat.pos_of_mul_pos_left (Nat.zero_lt_of_lt fewer)).ne'
  have last : (n, s) ∈ (List.range xs.length).flatMap fun t => (List.range moe.gate.topk).map fun s => (t, s) := by
    simp [rows, slots]
  have behind : iv.length ≤ n * moe.gate.topk + s := by
    rw [rows, Nat.succ_mul] at fewer
    omega
  have panics (e : ℕ) : gathered moe.gate.topk xs.length wv iv e = none := by
    rw [gathered, mapM_none last]
    · rfl
    · rw [slot, List.getElem?_eq_none behind]
  obtain ⟨expert, experts, known⟩ := List.exists_cons_of_ne_nil some'
  rw [dispatch, known, List.zipIdx_cons, List.foldlM_cons, pass, panics]
  rfl

/-- The rows have as many slots as there can be, of which too few are a panic unless nothing is read. -/
theorem dispatch_rows {k : ℕ} (each : ∀ row ∈ routed, row.length = min moe.gate.topk k)
    (same : routed.length = xs.length) :
    moe.dispatch xs (routed.flatMap fun row => row.map Prod.snd) (routed.flatMap fun row => row.map Prod.fst) =
      if moe.gate.topk ≤ k ∨ moe.experts = [] ∨ xs = [] then some (List.zipWith moe.token xs routed) else none := by
  by_cases enough : moe.gate.topk ≤ k
  · rw [if_pos (.inl enough)]
    exact dispatch_eq (fun row member => (each row member).trans (min_eq_left enough)) same
  by_cases none : moe.experts = []
  · rw [if_pos (.inr (.inl none))]
    exact dispatch_nil none same _ _
  by_cases empty : xs = []
  · rw [if_pos (.inr (.inr empty))]
    subst empty
    rw [List.length_eq_zero_iff.mp same]
    exact dispatch_eq (fun row member => by cases member) rfl
  · rw [if_neg (by simp [enough, none, empty])]
    apply dispatch_panics none
    have short : (routed.flatMap fun row => row.map Prod.fst).length = routed.length * min moe.gate.topk k := by
      rw [List.length_flatMap, List.map_congr_left (g := fun _ => min moe.gate.topk k)]
      · simp
      · intro row member
        rw [List.length_map, each row member]
    rw [short, same]
    exact Nat.mul_lt_mul_of_pos_left (by omega) (List.length_pos_of_ne_nil empty)

theorem flatMap_zipIdx {A A' : Type} (f : A → A') (l : List A) (n j : ℕ) :
    ((l.zipIdx n).flatMap fun p => if n + j = p.2 then [f p.1] else []) = (l[j]?.map f).toList := by
  induction l generalizing n j with
  | nil => rfl
  | cons a l ih =>
      rw [List.zipIdx_cons, List.flatMap_cons]
      cases j with
      | zero =>
          have later : ((l.zipIdx (n + 1)).flatMap fun p => if n + 0 = p.2 then [f p.1] else []) = [] := by
            rw [List.flatMap_eq_nil_iff]
            intro p member
            have more := List.le_snd_of_mem_zipIdx member
            exact if_neg (by omega)
          rw [later]
          simp
      | succ j =>
          have shifted : n + (j + 1) = n + 1 + j := by omega
          rw [shifted, ih, if_neg (by omega)]
          rfl

/-- Every answer that is added up is one of an expert that the row is routed to, and the other way round. -/
theorem answers_perm (x : H) (routed : List (ℕ × S)) :
    (moe.answers x routed).Perm (routed.filterMap fun r => moe.experts[r.1]?.map fun expert => expert x r.2) := by
  induction routed with
  | nil => simp [answers]
  | cons r routed ih =>
      have first := flatMap_zipIdx (fun expert : H → S → H => expert x r.2) moe.experts 0 r.1
      have apart : moe.answers x (r :: routed) = moe.experts.zipIdx.flatMap fun p =>
          (if 0 + r.1 = p.2 then [p.1 x r.2] else []) ++ (routed.filter (·.1 = p.2)).map fun r => p.1 x r.2 := by
        apply List.flatMap_congr
        rintro ⟨expert, e⟩ _
        by_cases same : r.1 = e <;> simp [same]
      rw [apart]
      refine (List.flatMap_append_perm ..).symm.trans ?_
      rw [first]
      refine (ih.append_left _).trans ?_
      cases known : moe.experts[r.1]? <;> simp [known]

end Moe

namespace Gate

variable [Score S] {gate : Gate H S}

theorem chosen_length (x : H) : (gate.chosen x).length = min gate.topk gate.experts := by
  rw [chosen, topK_length, List.length_range, min_assoc, min_self]

theorem weights_length (x : H) : (gate.weights x).length = min gate.topk gate.experts := by
  rw [← chosen_length x, weights]
  cases gate.scoreFunc <;> simp [picked]

theorem routed_length (x : H) : (gate.routed x).length = min gate.topk gate.experts := by
  rw [routed, List.length_zip, chosen_length, weights_length, min_self]

theorem route_eq (xs : List H) :
    gate.route xs = ((xs.map gate.routed).flatMap fun row => row.map Prod.snd,
      (xs.map gate.routed).flatMap fun row => row.map Prod.fst) := by
  have lengths (x : H) : (gate.chosen x).length = (gate.weights x).length := by rw [chosen_length, weights_length]
  rw [route, List.flatMap_map, List.flatMap_map]
  congr 1 <;> apply List.flatMap_congr <;> intro x _
  · exact (List.map_snd_zip (lengths x).ge).symm
  · exact (List.map_fst_zip (lengths x).le).symm

theorem lt_of_mem_chosen {x : H} {j : ℕ} (member : j ∈ gate.chosen x) : j < gate.experts :=
  List.mem_range.mp (mem_of_mem_topK member)

theorem mem_chosen {x : H} (comparable : Comparable (gate.biasedScore x) (List.range gate.experts)) {j : ℕ} :
    j ∈ gate.chosen x ↔ j < gate.experts ∧
      (List.range gate.experts).countP (fun i => Beats (gate.biasedScore x) i j) < gate.topk := by
  rw [chosen, mem_topK comparable List.pairwise_lt_range, List.mem_range, lt_min_iff]
  refine and_congr_right fun inside => and_iff_left ?_
  -- the candidate itself is not among those that beat it
  refine (List.countP_lt_length_iff.mpr ⟨j, List.mem_range.mpr inside, ?_⟩).trans_eq List.length_range
  exact decide_eq_false (comparable.irrefl (List.mem_range.mpr inside))

/-- The weight of an expert of a row, from its own score. -/
def weight (gate : Gate H S) (x : H) (j : ℕ) : S :=
  let score := (gate.scores x).getD j 0
  affine (if gate.scoreFunc = .softmax then score else score / Score.sum (gate.picked x)) gate.routeScale 0

theorem routed_eq (x : H) : gate.routed x = (gate.chosen x).map fun j => (j, gate.weight x j) := by
  have each : gate.weights x = (gate.chosen x).map (gate.weight x) := by
    rw [weights]
    cases known : gate.scoreFunc <;> simp [picked, weight, known]
  rw [routed, each, List.zip, List.zipWith_map_right, List.zipWith_self]

/-- If the biased scores of a row compare with one another, its experts are those that fewer than `topk` others beat,
without a repeat and the best first; each goes with a weight of its own score without the bias. -/
theorem chosen_best (gate : Gate H S) (x : H)
    (comparable : Comparable (gate.biasedScore x) (List.range gate.experts)) :
    (gate.chosen x).Nodup ∧ (gate.chosen x).Pairwise (Beats (gate.biasedScore x)) ∧
      (∀ j, j ∈ gate.chosen x ↔ j < gate.experts ∧
        (List.range gate.experts).countP (fun i => Beats (gate.biasedScore x) i j) < gate.topk) ∧
      gate.routed x = (gate.chosen x).map fun j => (j, gate.weight x j) := by
  refine ⟨topK_nodup List.pairwise_lt_range, ?_, fun j => mem_chosen comparable, routed_eq x⟩
  rw [chosen, topK_eq]
  exact (ranked_pairwise comparable List.pairwise_lt_range).take

instance : Score ℚ where
  add := (· + ·)
  mul := (· * ·)
  div := (· / ·)
  zero := 0
  lt := (· < ·)
  sum := List.sum
  decidableLT := inferInstance

/-- Three experts with their scores given, of which the first one has a bias. -/
def threeExperts (routeScale : ℚ) : Gate (ℚ × ℚ × ℚ) ℚ where
  experts := 3
  scores x := [x.1, x.2.1, x.2.2]
  bias := some [1, 0, 0]
  topk := 2
  routeScale := routeScale
  routeShare k := routeScale / k
  scoreFunc := .sigmoid
  tid2eid := none
  perToken := 0
  even := by simp
  scored _ := rfl
  biased := by simp

/-- The bias lets the first expert be chosen and not the second one, with the weight of its own score. -/
theorem chosen_best_threeExperts :
    (threeExperts 2).chosen (2, 3, 5) = [2, 0] ∧ (2 ∈ (threeExperts 2).chosen (2, 3, 5)) ∧
      (threeExperts 2).routed (2, 3, 5) = [(2, 10 / 7), (0, 4 / 7)] := by
  have evaluated : (threeExperts 2).chosen (2, 3, 5) = [2, 0] := by decide +kernel
  have best := (threeExperts 2).chosen_best (2, 3, 5) (.of_linearOrder _ _)
  refine ⟨evaluated, (best.2.2.1 2).mpr (by decide +kernel), ?_⟩
  rw [best.2.2.2, evaluated]
  decide +kernel

end Gate

namespace Moe

variable [Score S] (moe : Moe H S)

theorem forward_eq (xs : List H) :
    moe.forward xs =
      if moe.gate.topk ≤ moe.experts.length ∨ moe.experts = [] ∨ xs = [] then
        some (xs.map fun x => moe.token x (moe.gate.routed x))
      else none := by
  rw [forward, Gate.route_eq, moe.sized]
  refine (dispatch_rows (k := moe.gate.experts) ?_ (List.length_map ..)).trans ?_
  · intro row member
    obtain ⟨x, _, rfl⟩ := List.mem_map.mp member
    exact Gate.routed_length x
  · rw [List.zipWith_map_right, List.zipWith_self]

/-- The pass that goes over the experts gives each row what it would get alone, in which each expert that is chosen
for it answers once. It panics if there are fewer experts than are to be chosen. -/
theorem forward_per_token (xs : List H) :
    (moe.forward xs =
      if moe.gate.topk ≤ moe.experts.length ∨ moe.experts = [] ∨ xs = [] then
        some (xs.map fun x => moe.token x (moe.gate.routed x))
      else none) ∧
    ∀ x, (moe.answers x (moe.gate.routed x)).length = min moe.gate.topk moe.experts.length ∧
      (moe.answers x (moe.gate.routed x)).Perm
        ((moe.gate.routed x).filterMap fun r => moe.experts[r.1]?.map fun expert => expert x r.2) := by
  constructor
  · exact moe.forward_eq xs
  · intro x
    refine ⟨?_, answers_perm x _⟩
    rw [(answers_perm x _).length_eq, moe.sized, ← Gate.routed_length x, List.filterMap_length_eq_length]
    intro r member
    have inside := Gate.lt_of_mem_chosen (List.of_mem_zip member).1
    rw [← moe.sized] at inside
    simp [inside]

end Moe

/-- Rows that are looked up by their tokens. A token without a row in the table is an error before anything is
computed. -/
theorem Moe.forwardHashed_eq (moe : Moe H S) (table : List (List ℕ)) (known : moe.gate.tid2eid = some table)
    (rows : List (H × ℕ)) :
    moe.forwardHashed (rows.map Prod.fst) (rows.map Prod.snd) =
      if ∀ row ∈ rows, row.2 < table.length then
        .ok (if moe.gate.topk ≤ moe.gate.perToken ∨ moe.experts = [] ∨ rows = [] then
          some (rows.map fun row => moe.token row.1 (moe.gate.looked table row.2))
        else none)
      else .error .indexSelect := by
  rw [forwardHashed, Gate.routeHashed, Gate.hashed, known]
  change ((rows.map Prod.snd).mapM (moe.gate.lookUp table) |>.map _).map _ = _
  by_cases all : ∀ row ∈ rows, row.2 < table.length
  · rw [if_pos all, mapM_eq_map (g := moe.gate.looked table)]
    · refine congrArg Except.ok ((dispatch_rows (k := moe.gate.perToken) ?_ (by simp)).trans ?_)
      · intro row member
        obtain ⟨id, isRow, rfl⟩ := List.mem_map.mp member
        obtain ⟨row, given, rfl⟩ := List.mem_map.mp isRow
        have width := moe.gate.even table known _ (List.getElem_mem (all row given))
        simp [Gate.looked, all row given, width]
      · rw [List.map_map, List.zipWith_map, List.zipWith_self]
        simp only [List.map_eq_nil_iff]
        rfl
    · intro id isRow
      obtain ⟨row, given, rfl⟩ := List.mem_map.mp isRow
      exact if_pos (all row given)
  · rw [if_neg all]
    push Not at all
    obtain ⟨row, given, beyond⟩ := all
    have fails : moe.gate.lookUp table row.2 = .error .indexSelect := if_neg (not_lt.mpr beyond)
    rw [mapM_eq_error (List.mem_map_of_mem given) fails]
    · rfl
    · intro id e fails
      unfold Gate.lookUp at fails
      split at fails <;> cases fails
      rfl

end Pleiades.MlEngine.DeepSeekV4
