import Mathlib.Data.List.AList
import Mathlib.Data.List.Perm.Basic
import Mathlib.Algebra.Order.Group.Multiset

/-!
# Tables

Maps with their entries as a list: what an update does to all the entries at once. Then
the same for lists that are read by position.
-/
namespace Pleiades.Lib

abbrev Table (κ ν : Type*) := AList fun _ : κ => ν

namespace Table

variable {κ ν : Type*} [DecidableEq κ] {t : Table κ ν} {k : κ} {v : ν}

theorem entries_perm_of_lookup (found : t.lookup k = some v) :
    t.entries.Perm (⟨k, v⟩ :: (t.erase k).entries) := by
  have member : k ∈ t.entries.keys := by
    rw [← AList.keys, ← AList.mem_keys, ← AList.lookup_isSome, found]
    rfl
  obtain ⟨w, before, after, absent, whole, erased⟩ := List.exists_of_kerase member
  have same : w = v := by
    have here : (⟨k, w⟩ : Sigma fun _ : κ => ν) ∈ t.entries := by
      rw [whole]
      simp
    have both := (AList.mem_lookup_iff (s := t)).mpr here
    exact Option.some.inj (Option.mem_def.mp both |>.symm.trans found)
  subst same
  change t.entries.Perm (⟨k, w⟩ :: List.kerase k t.entries)
  rw [erased, whole]
  exact List.perm_middle

/-- The only entry that is picked. -/
theorem filter_entries_eq {p : (Sigma fun _ : κ => ν) → Bool} (found : t.lookup k = some v) (picked : p ⟨k, v⟩ = true)
    (others : ∀ k' v', k' ≠ k → t.lookup k' = some v' → p ⟨k', v'⟩ = false) : t.entries.filter p = [⟨k, v⟩] := by
  apply List.perm_singleton.mp
  have rest : (t.erase k).entries.filter p = [] := by
    rw [List.filter_eq_nil_iff]
    intro e member
    have there := (AList.mem_lookup_iff (s := t.erase k)).mpr member
    have other : e.1 ≠ k := by
      rintro same
      rw [same, AList.lookup_erase] at there
      cases there
    rw [AList.lookup_erase_ne other] at there
    exact Bool.eq_false_iff.mp (others e.1 e.2 other there)
  have split := (entries_perm_of_lookup found).filter p
  rwa [List.filter_cons, if_pos picked, rest] at split

theorem entries_insert_of_lookup (missing : t.lookup k = none) :
    (t.insert k v).entries = ⟨k, v⟩ :: t.entries :=
  AList.entries_insert_of_notMem (AList.lookup_eq_none.mp missing)

theorem insert_length_le (found : t.lookup k = some v) (w : ν) :
    (t.insert k w).entries.length = t.entries.length := by
  rw [AList.entries_insert, List.length_cons]
  have whole := (entries_perm_of_lookup found).length_eq
  rw [whole]
  rfl

theorem lookup_eq_some_iff : t.lookup k = some v ↔ ⟨k, v⟩ ∈ t.entries := AList.mem_lookup_iff

/-- What is found after an insertion is the new entry or an old one of another key. -/
theorem lookup_insert_eq_some {k' : κ} {w : ν} (found : (t.insert k v).lookup k' = some w) :
    k' = k ∧ w = v ∨ k' ≠ k ∧ t.lookup k' = some w := by
  by_cases same : k' = k
  · subst same
    rw [AList.lookup_insert] at found
    exact .inl ⟨rfl, (Option.some.inj found).symm⟩
  · rw [AList.lookup_insert_ne same] at found
    exact .inr ⟨same, found⟩

theorem lookup_erase_of_none {k' : κ} (missing : t.lookup k = none) : (t.erase k').lookup k = none := by
  by_cases same : k = k'
  · subst same
    exact AList.lookup_erase _ _
  · rwa [AList.lookup_erase_ne same]

theorem lookup_of_erase {k' : κ} (found : (t.erase k').lookup k = some v) : t.lookup k = some v := by
  by_cases same : k = k'
  · subst same
    cases (AList.lookup_erase _ _).symm.trans found
  · rwa [AList.lookup_erase_ne same] at found

/-- Entries with different keys put into a table one after the other. -/
theorem lookup_foldl_insert {pairs : List (κ × ν)} (distinct : (pairs.map Prod.fst).Nodup) :
    (pairs.foldl (fun t p => t.insert p.1 p.2) t).lookup k = some v ↔
      (k, v) ∈ pairs ∨ (k ∉ pairs.map Prod.fst ∧ t.lookup k = some v) := by
  induction pairs generalizing t with
  | nil => simp
  | cons p pairs ih =>
      obtain ⟨fresh, distinct⟩ := List.nodup_cons.mp distinct
      rw [List.foldl_cons, ih distinct, List.mem_cons, List.map_cons, List.mem_cons]
      by_cases same : k = p.1
      · have absent : ∀ w, (k, w) ∉ pairs := fun w member => fresh (same ▸ List.mem_map_of_mem member)
        subst same
        rw [AList.lookup_insert]
        have head : (p.1, v) = p ↔ p.2 = v := by
          constructor
          · intro whole
            rw [← whole]
          · rintro rfl
            rfl
        simp [absent, fresh, head]
      · have other : (k, v) ≠ p := fun whole => same (congrArg Prod.fst whole)
        rw [AList.lookup_insert_ne same]
        simp [same, other]

/-- Entries put into a table one after the other: of a key the last one stays. -/
def insertAll (t : Table κ ν) (entries : List (κ × ν)) : Table κ ν :=
  entries.foldl (fun t entry => t.insert entry.1 entry.2) t

theorem mem_insertAll {entries : List (κ × ν)} : k ∈ t.insertAll entries ↔ k ∈ t ∨ k ∈ entries.map Prod.fst := by
  induction entries generalizing t with
  | nil => simp [insertAll]
  | cons entry entries ih =>
      rw [insertAll, List.foldl_cons, ← insertAll, ih, AList.mem_insert, List.map_cons, List.mem_cons, or_assoc,
        or_left_comm]

/-- The entries without their order. -/
def pairs (t : Table κ ν) : Multiset (κ × ν) := (t.entries.map fun e => (e.1, e.2) : List (κ × ν))

theorem pairs_of_lookup (found : t.lookup k = some v) : pairs t = (k, v) ::ₘ pairs (t.erase k) :=
  Multiset.coe_eq_coe.mpr ((entries_perm_of_lookup found).map _)

theorem pairs_erase_of_lookup (missing : t.lookup k = none) : pairs (t.erase k) = pairs t := by
  have absent : k ∉ t.entries.keys := AList.lookup_eq_none.mp missing
  have same : (t.erase k).entries = t.entries := List.kerase_of_notMem_keys absent
  rw [pairs, same]
  rfl

theorem pairs_insert : pairs (t.insert k v) = (k, v) ::ₘ pairs (t.erase k) := by
  rw [pairs, AList.entries_insert]
  rfl

end Table

theorem getElem?_append_of_some {α : Type} {l : List α} {i : ℕ} {a : α} (found : l[i]? = some a)
    (l' : List α) : (l ++ l')[i]? = some a := by
  rw [List.getElem?_append_left (List.getElem?_eq_some_iff.mp found).1]
  exact found

theorem getElem?_concat_cases {α : Type} {l : List α} {a b : α} {i : ℕ}
    (found : (l ++ [a])[i]? = some b) : l[i]? = some b ∨ i = l.length ∧ b = a := by
  rcases Nat.lt_or_ge i l.length with old | new
  · exact .inl (List.getElem?_append_left old ▸ found)
  · rw [List.getElem?_append_right new, List.getElem?_singleton, Option.ite_none_right_eq_some] at found
    exact .inr ⟨by omega, (Option.some.inj found.2).symm⟩

theorem set_perm {α : Type} {l : List α} {i : ℕ} {old : α} (found : l[i]? = some old) (new : α) :
    ∃ rest, l.Perm (old :: rest) ∧ (l.set i new).Perm (new :: rest) := by
  obtain ⟨small, rfl⟩ := List.getElem?_eq_some_iff.mp found
  exact ⟨l.eraseIdx i, (List.getElem_cons_eraseIdx_perm small).symm, List.set_perm_cons_eraseIdx small new⟩

/-- An entry that selects nothing is replaced. -/
theorem filterMap_set {α β : Type} {f : α → Option β} {l : List α} {i : ℕ} {old : α}
    (found : l[i]? = some old) (nothing : f old = none) (new : α) :
    ((l.set i new).filterMap f : Multiset β) = (f new).toList + (l.filterMap f : Multiset β) := by
  obtain ⟨rest, before, after⟩ := set_perm found new
  rw [Multiset.coe_eq_coe.mpr (after.filterMap f), Multiset.coe_eq_coe.mpr (before.filterMap f),
    List.filterMap_cons, List.filterMap_cons, nothing]
  cases f new with
  | none => exact (zero_add _).symm
  | some b => rfl

/-- An entry is changed in a way that `f` does not see. -/
theorem filterMap_modify {α β : Type} {f : α → Option β} {g : α → α} (same : ∀ a, f (g a) = f a)
    (l : List α) (i : ℕ) : (l.modify i g).filterMap f = l.filterMap f := by
  induction l generalizing i with
  | nil => simp
  | cons a l ih =>
      cases i with
      | zero => simp [List.filterMap_cons, same]
      | succ i => simp [List.filterMap_cons, ih]

end Pleiades.Lib
