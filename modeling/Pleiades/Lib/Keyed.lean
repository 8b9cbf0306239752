import Mathlib.Data.List.Basic
import Mathlib.Data.List.Nodup
import Mathlib.Data.List.Perm.Basic
import Mathlib.Logic.Function.Basic

/-!
# Rows with keys

A list of rows in which no two have the same key, read by key. Changes of a row that keep or
move it differ in the order only.
-/
namespace Pleiades.Lib

variable {α κ : Type} [DecidableEq κ] (key : α → κ) {rows rows' : List α} {a : α} {k : κ}

/-- The first row with the key. -/
def rowOf (rows : List α) (k : κ) : Option α := rows.find? fun a => key a = k

def Keyed (rows : List α) : Prop := (rows.map key).Nodup

/-- The list without the rows of a key. -/
def without (k : κ) (rows : List α) : List α := rows.filter fun a => key a ≠ k

variable {key}

theorem rowOf_eq_some (keyed : Keyed key rows) : rowOf key rows k = some a ↔ a ∈ rows ∧ key a = k := by
  constructor
  · intro found
    exact ⟨List.mem_of_find?_eq_some found, by simpa using List.find?_some found⟩
  · rintro ⟨member, rfl⟩
    induction rows with
    | nil => cases member
    | cons b rows ih =>
        rw [Keyed, List.map_cons, List.nodup_cons] at keyed
        rcases List.mem_cons.mp member with rfl | later
        · simp [rowOf]
        · have differs : key b ≠ key a := by
            intro same
            exact keyed.1 (same ▸ List.mem_map_of_mem later)
          rw [rowOf, List.find?_cons_of_neg (by simpa using differs)]
          exact ih keyed.2 later

omit [DecidableEq κ] in
theorem Keyed.perm (keyed : Keyed key rows) (same : rows.Perm rows') : Keyed key rows' :=
  (same.map key).nodup_iff.mp keyed

theorem rowOf_perm (keyed : Keyed key rows) (same : rows.Perm rows') : rowOf key rows = rowOf key rows' := by
  funext k
  ext a
  rw [rowOf_eq_some keyed, rowOf_eq_some (keyed.perm same), same.mem_iff]

theorem Keyed.without (keyed : Keyed key rows) (k : κ) : Keyed key (without key k rows) :=
  keyed.sublist (List.filter_sublist.map key)

/-- A row put in place of the one with its key. -/
theorem Keyed.put (keyed : Keyed key rows) (a : α) : Keyed key (a :: Lib.without key (key a) rows) := by
  rw [Keyed, List.map_cons, List.nodup_cons]
  refine ⟨?_, keyed.without (key a)⟩
  intro member
  obtain ⟨b, kept, same⟩ := List.mem_map.mp member
  exact absurd same (by simpa using (List.mem_filter.mp kept).2)

theorem rowOf_without (k' : κ) : rowOf key (without key k' rows) k = if k = k' then none else rowOf key rows k := by
  rw [rowOf, without, List.find?_filter]
  split
  · next same =>
      subst same
      rw [List.find?_eq_none]
      simp
  · next differs =>
      rw [rowOf]
      congr 1
      funext a
      by_cases here : key a = k
      · simp [here, differs]
      · simp [here]

theorem rowOf_put (a : α) :
    rowOf key (a :: without key (key a) rows) k = if k = key a then some a else rowOf key rows k := by
  by_cases same : k = key a
  · rw [rowOf, List.find?_cons_of_pos (by simpa using same.symm), if_pos same]
  · rw [rowOf, List.find?_cons_of_neg (by simpa using Ne.symm same), ← rowOf, rowOf_without, if_neg same, if_neg same]

/-- Rows of which one was put in place of the one with its key. -/
theorem rowOf_of_perm (keyed : Keyed key rows) (here : key a = k) (same : rows'.Perm (a :: without key k rows)) :
    Keyed key rows' ∧ rowOf key rows' = Function.update (rowOf key rows) k (some a) := by
  subst here
  have put := (keyed.put a).perm same.symm
  refine ⟨put, ?_⟩
  rw [rowOf_perm put same]
  funext k
  rw [rowOf_put, Function.update_apply]

variable (key) in
/-- Where the first row with a key is, if there is one. -/
theorem findIdx?_cases (rows : List α) (k : κ) :
    (rows.findIdx? (fun a => key a = k) = none ∧ rowOf key rows k = none) ∨
    ∃ front a back, rows = front ++ a :: back ∧ rows.findIdx? (fun a => key a = k) = some front.length ∧ key a = k ∧
      rowOf key rows k = some a := by
  induction rows with
  | nil => exact .inl ⟨rfl, rfl⟩
  | cons b rows ih =>
      by_cases here : key b = k
      · exact .inr ⟨[], b, rows, rfl, by simp [List.findIdx?_cons, here], here, by simp [rowOf, here]⟩
      · have later : rowOf key (b :: rows) k = rowOf key rows k := by simp [rowOf, here]
        rw [later, List.findIdx?_cons, if_neg (by simpa using here)]
        rcases ih with ⟨missing, none'⟩ | ⟨front, a, back, rfl, found, same, row⟩
        · exact .inl ⟨by rw [missing]; rfl, none'⟩
        · exact .inr ⟨b :: front, a, back, rfl, by rw [found]; rfl, same, row⟩

theorem modify_split (front back : List α) (a : α) (f : α → α) :
    (front ++ a :: back).modify front.length f = front ++ f a :: back := by
  induction front with
  | nil => rfl
  | cons b front ih => rw [List.cons_append, List.length_cons, List.modify_succ_cons, ih, List.cons_append]

theorem mem_modify {i : ℕ} {f : α → α} (member : a ∈ rows.modify i f) : a ∈ rows ∨ ∃ b ∈ rows, a = f b := by
  induction rows generalizing i with
  | nil =>
      rw [List.modify_nil] at member
      cases member
  | cons b rows ih =>
      cases i with
      | zero =>
          rw [List.modify_zero_cons] at member
          rcases List.mem_cons.mp member with rfl | later
          · exact .inr ⟨b, List.mem_cons_self, rfl⟩
          · exact .inl (List.mem_cons_of_mem b later)
      | succ i =>
          rw [List.modify_succ_cons] at member
          rcases List.mem_cons.mp member with rfl | later
          · exact .inl List.mem_cons_self
          · rcases ih later with there | ⟨c, there, rfl⟩
            · exact .inl (List.mem_cons_of_mem b there)
            · exact .inr ⟨c, List.mem_cons_of_mem b there, rfl⟩

/-- The other rows are those with other keys. -/
theorem without_split {front back : List α} (keyed : Keyed key (front ++ a :: back)) :
    without key (key a) (front ++ a :: back) = front ++ back := by
  have others : ∀ b ∈ front ++ back, key b ≠ key a := by
    have moved := keyed.perm List.perm_middle
    rw [Keyed, List.map_cons, List.nodup_cons] at moved
    intro b member same
    exact moved.1 (same ▸ List.mem_map_of_mem member)
  rw [without, List.filter_append, List.filter_cons_of_neg (by simp), ← List.filter_append, List.filter_eq_self]
  simpa using others

/-- Without a row of the key nothing is taken out. -/
theorem without_missing (missing : rowOf key rows k = none) : without key k rows = rows := by
  rw [without, List.filter_eq_self]
  rw [rowOf, List.find?_eq_none] at missing
  simpa using missing

end Pleiades.Lib
