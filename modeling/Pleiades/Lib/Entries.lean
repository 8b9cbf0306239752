import Mathlib.Data.List.Sort

/-!
# Entries sorted by their keys

A list of entries in which a key may occur more than once, as a reader takes it that
goes by the last of them, and what sorting by key keeps.
-/
namespace Pleiades.Lib

variable {κ ν : Type*} [LinearOrder κ] {entries entries' : List (κ × ν)} {k : κ} {v : ν}

/-- The value of the last entry with a key. -/
def lastEntry (entries : List (κ × ν)) (k : κ) : Option ν :=
  (entries.filter fun entry => entry.1 = k).getLast?.map Prod.snd

theorem filter_of_absent (absent : k ∉ entries.map Prod.fst) :
    (entries.filter fun entry => entry.1 = k) = [] := by
  rw [List.filter_eq_nil_iff]
  intro entry member same
  rw [← of_decide_eq_true same] at absent
  exact absent (List.mem_map_of_mem member)

theorem lastEntry_append (absent : k ∉ entries'.map Prod.fst) :
    lastEntry (entries ++ entries') k = lastEntry entries k := by
  rw [lastEntry, List.filter_append, filter_of_absent absent, List.append_nil]
  rfl

/-- Entries that are left out by their keys. -/
theorem lastEntry_filter (keep : κ → Bool) :
    lastEntry (entries.filter fun entry => keep entry.1) k = if keep k then lastEntry entries k else none := by
  unfold lastEntry
  rw [List.filter_filter]
  split
  · next kept =>
    congr 2
    refine List.filter_congr fun entry _ => ?_
    by_cases here : entry.1 = k
    · simp [here, kept]
    · simp [here]
  · next dropped =>
    have none : (entries.filter fun entry => decide (entry.1 = k) && keep entry.1) = [] := by
      rw [List.filter_eq_nil_iff]
      rintro entry - both
      obtain ⟨here, kept⟩ := Bool.and_eq_true_iff.mp both
      exact dropped (of_decide_eq_true here ▸ kept)
    rw [none]
    rfl

/-- Where keys do not repeat the last entry is the only one. -/
theorem lastEntry_eq_lookup (distinct : (entries.map Prod.fst).Nodup) :
    lastEntry entries k = entries.lookup k := by
  induction entries with
  | nil => rfl
  | cons entry entries ih =>
      obtain ⟨key, value⟩ := entry
      obtain ⟨fresh, distinct⟩ := List.nodup_cons.mp distinct
      by_cases same : key = k
      · subst same
        simp [lastEntry, filter_of_absent fresh]
      · have other : (k == key) = false := by simpa using fun h => same h.symm
        rw [List.lookup_cons, other]
        simpa [lastEntry, same] using ih distinct

/-- The last entry of every key. -/
def lastEntries : List (κ × ν) → List (κ × ν)
  | [] => []
  | entry :: entries => if entry.1 ∈ entries.map Prod.fst then lastEntries entries else entry :: lastEntries entries

theorem mem_lastEntries_fst : k ∈ (lastEntries entries).map Prod.fst ↔ k ∈ entries.map Prod.fst := by
  induction entries with
  | nil => rfl
  | cons entry entries ih =>
      rw [lastEntries]
      split
      · next again =>
        rw [ih, List.map_cons, List.mem_cons]
        refine ⟨.inr, ?_⟩
        rintro (rfl | later)
        · exact again
        · exact later
      · rw [List.map_cons, List.map_cons, List.mem_cons, List.mem_cons, ih]

theorem lastEntries_nodup (entries : List (κ × ν)) : ((lastEntries entries).map Prod.fst).Nodup := by
  induction entries with
  | nil => exact List.nodup_nil
  | cons entry entries ih =>
      rw [lastEntries]
      split
      · exact ih
      · next fresh => exact List.nodup_cons.mpr ⟨fun later => fresh (mem_lastEntries_fst.mp later), ih⟩

theorem lookup_lastEntries (entries : List (κ × ν)) (k : κ) :
    (lastEntries entries).lookup k = lastEntry entries k := by
  induction entries with
  | nil => rfl
  | cons entry entries ih =>
      rw [lastEntries, lastEntry, List.filter_cons]
      split
      · next again =>
        rw [ih, lastEntry]
        split
        · next here =>
          have here := of_decide_eq_true here
          obtain ⟨other, member, same⟩ := List.mem_map.mp again
          have later : (entries.filter fun entry => entry.1 = k) ≠ [] :=
            List.ne_nil_of_mem (List.mem_filter.mpr ⟨member, decide_eq_true (same.trans here)⟩)
          rw [List.getLast?_cons_of_ne_nil later]
        · rfl
      · next fresh =>
        split
        · next here =>
          have here := of_decide_eq_true here
          rw [filter_of_absent (here ▸ fresh), List.lookup_cons, here, beq_self_eq_true]
          rfl
        · next other =>
          have other : (k == entry.1) = false := by simpa using fun same => other (decide_eq_true same.symm)
          rw [List.lookup_cons, other]
          exact ih

section Sorted

variable [DecidableRel fun a b : κ × ν => a.1 ≤ b.1]

theorem filter_orderedInsert (entry : κ × ν) (entries : List (κ × ν)) :
    (entries.orderedInsert (fun a b => a.1 ≤ b.1) entry).filter (fun entry => entry.1 = k) =
      (entry :: entries).filter fun entry => entry.1 = k := by
  induction entries with
  | nil => rfl
  | cons first entries ih =>
      by_cases before : entry.1 ≤ first.1
      · rw [List.orderedInsert, if_pos before]
      · rw [List.orderedInsert, if_neg before, List.filter_cons, ih]
        by_cases here : first.1 = k
        · have other : entry.1 ≠ k := fun same => before (same.trans here.symm).le
          simp [here, other]
        · simp [List.filter_cons, here]

/-- Sorting keeps the entries of one key in their order. -/
theorem filter_insertionSort (entries : List (κ × ν)) :
    (entries.insertionSort fun a b => a.1 ≤ b.1).filter (fun entry => entry.1 = k) =
      entries.filter fun entry => entry.1 = k := by
  induction entries with
  | nil => rfl
  | cons entry entries ih =>
      rw [List.insertionSort_cons, filter_orderedInsert, List.filter_cons, ih, List.filter_cons]

theorem lastEntry_insertionSort (entries : List (κ × ν)) :
    lastEntry (entries.insertionSort fun a b => a.1 ≤ b.1) k = lastEntry entries k := by
  rw [lastEntry, filter_insertionSort]
  rfl

/-- The sorted order of entries with different keys does not depend on their order. -/
theorem insertionSort_eq_of_perm (distinct : (entries.map Prod.fst).Nodup) (same : entries.Perm entries') :
    entries.insertionSort (fun a b => a.1 ≤ b.1) = entries'.insertionSort fun a b => a.1 ≤ b.1 := by
  have total : Std.Total fun a b : κ × ν => a.1 ≤ b.1 := ⟨fun a b => le_total a.1 b.1⟩
  have transitive : IsTrans (κ × ν) fun a b => a.1 ≤ b.1 := ⟨fun _ _ _ => le_trans⟩
  have sorted (entries : List (κ × ν)) :
      (entries.insertionSort fun a b => a.1 ≤ b.1).Pairwise fun a b => a.1 ≤ b.1 :=
    List.pairwise_insertionSort _ _
  have both : (entries.insertionSort fun a b => a.1 ≤ b.1).Perm (entries'.insertionSort fun a b => a.1 ≤ b.1) :=
    (List.perm_insertionSort ..).trans (same.trans (List.perm_insertionSort ..).symm)
  apply both.eq_of_pairwise (fun a b inA inB less greater => ?_) (sorted entries) (sorted entries')
  have inA := (List.mem_insertionSort _).mp inA
  have inB := same.mem_iff.mpr ((List.mem_insertionSort _).mp inB)
  exact List.inj_on_of_nodup_map distinct inA inB (le_antisymm less greater)

end Sorted

end Pleiades.Lib
