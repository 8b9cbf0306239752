import Mathlib.Data.List.Basic
import Mathlib.Data.List.TakeWhile

/-!
# Tokens of a text

The ends of a list are stripped of blanks, and it is taken apart at them.
-/
namespace Pleiades.Lib

variable {α : Type} {p : α → Bool} {xs ys w : List α} {c : α}

/-- The list without the blanks at its ends. -/
def strip (p : α → Bool) (xs : List α) : List α := ((xs.dropWhile p).reverse.dropWhile p).reverse

/-- The longest parts without a blank. -/
def tokens (p : α → Bool) (xs : List α) : List (List α) := (xs.splitOnP p).filter fun w => !w.isEmpty

/-- Neither the first nor the last is a blank. -/
structure Stripped (p : α → Bool) (xs : List α) : Prop where
  first : ∀ c ∈ xs.head?, p c = false
  last : ∀ c ∈ xs.getLast?, p c = false

/-- Something without a blank in it. -/
structure Token (p : α → Bool) (w : List α) : Prop where
  some : w ≠ []
  free : ∀ c ∈ w, p c = false

instance decidableStripped : Decidable (Stripped p xs) :=
  decidable_of_iff (xs.head?.all (fun c => !p c) = true ∧ xs.getLast?.all (fun c => !p c) = true) <| by
    rw [Option.all_eq_true, Option.all_eq_true]
    exact ⟨fun ends => ⟨fun c here => by simpa using ends.1 c here, fun c here => by simpa using ends.2 c here⟩,
      fun stripped => ⟨fun c here => by simpa using stripped.first c here,
        fun c here => by simpa using stripped.last c here⟩⟩

instance decidableToken : Decidable (Token p w) :=
  decidable_of_iff (w.isEmpty = false ∧ w.all (fun c => !p c) = true) <| by
    rw [List.isEmpty_eq_false_iff, List.all_eq_true]
    exact ⟨fun each => ⟨each.1, fun c here => by simpa using each.2 c here⟩,
      fun token => ⟨token.some, fun c here => by simpa using token.free c here⟩⟩

theorem dropWhile_eq_self (first : ∀ c ∈ xs.head?, p c = false) : xs.dropWhile p = xs := by
  cases xs with
  | nil => rfl
  | cons c xs =>
      have blank := first c rfl
      simp [blank]

theorem head_dropWhile : ∀ c ∈ (xs.dropWhile p).head?, p c = false := by
  induction xs with
  | nil => simp
  | cons c xs ih =>
      cases blank : p c with
      | true => simpa [blank] using ih
      | false => simp [blank]

theorem Stripped.strip_eq (stripped : Stripped p xs) : strip p xs = xs := by
  have last : ∀ c ∈ xs.reverse.head?, p c = false := by simpa using stripped.last
  rw [strip, dropWhile_eq_self stripped.first, dropWhile_eq_self last, List.reverse_reverse]

theorem stripped_strip (p : α → Bool) (xs : List α) : Stripped p (strip p xs) := by
  constructor
  · -- what is left of the list in front of its last blanks begins as the list does
    intro c first
    have part : ((xs.dropWhile p).reverse.dropWhile p).reverse <+: xs.dropWhile p := by
      have back := List.dropWhile_suffix p (l := (xs.dropWhile p).reverse)
      simpa using List.reverse_prefix.mpr back
    obtain ⟨rest, whole⟩ := part
    have begins : ∀ d ∈ (xs.dropWhile p).head?, p d = false := head_dropWhile
    apply begins
    rw [← whole]
    cases known : strip p xs with
    | nil => simp [known] at first
    | cons d ds =>
        rw [known] at first
        change c ∈ (strip p xs ++ rest).head?
        rw [known]
        exact first
  · intro c last
    rw [strip, List.getLast?_reverse] at last
    exact head_dropWhile c last

/-- Only blanks leave nothing. -/
theorem strip_eq_nil : strip p xs = [] ↔ ∀ c ∈ xs, p c = true := by
  have behind : strip p xs = [] ↔ ∀ c ∈ xs.dropWhile p, p c = true := by
    rw [strip, List.reverse_eq_nil_iff, List.dropWhile_eq_nil_iff]
    simp
  rw [behind]
  constructor
  · intro blank
    rw [← List.dropWhile_eq_nil_iff]
    cases left : xs.dropWhile p with
    | nil => rfl
    | cons c rest =>
        have solid : p c = false := head_dropWhile c (by rw [left]; rfl)
        rw [blank c (by simp [left])] at solid
        cases solid
  · intro blank c member
    exact blank c ((List.dropWhile_suffix p).subset member)

theorem Token.stripped (token : Token p w) : Stripped p w where
  first c here := token.free c (List.mem_of_head? here)
  last c here := token.free c (List.mem_of_getLast? here)

/-- A text with something that is no blank in front and a stripped rest. -/
theorem Stripped.append (first : ∀ c ∈ xs.head?, p c = false) (some' : ys ≠ []) (rest : Stripped p ys)
    (front : xs ≠ []) : Stripped p (xs ++ ys) := by
  constructor
  · cases xs with
    | nil => exact absurd rfl front
    | cons c xs => simpa using first
  · intro c last
    rw [List.getLast?_append_of_ne_nil _ some'] at last
    exact rest.last c last

@[simp]
theorem tokens_nil : tokens p [] = [] := rfl

theorem tokens_blank (blank : p c = true) : tokens p (c :: xs) = tokens p xs := by
  rw [tokens, List.splitOnP_cons_eq_if_modifyHead, if_pos blank]
  rfl

theorem tokens_append (blank : p c = true) : tokens p (xs ++ c :: ys) = tokens p xs ++ tokens p ys := by
  rw [tokens, List.splitOnP_append_cons xs ys blank, List.filter_append]
  rfl

theorem Token.tokens_eq (token : Token p w) : tokens p w = [w] := by
  rw [tokens, List.splitOnP_eq_singleton token.free]
  simp [token.some]

/-- Tokens with one blank between them are found again. -/
theorem tokens_join {words : List (List α)} (blank : p c = true) (each : ∀ w ∈ words, Token p w) :
    tokens p ([c].intercalate words) = words := by
  induction words with
  | nil => rfl
  | cons w words ih =>
      obtain ⟨here, later⟩ := List.forall_mem_cons.mp each
      cases words with
      | nil => simpa using here.tokens_eq
      | cons next words =>
          rw [List.intercalate_cons_of_ne_nil (by simp), List.append_assoc, List.singleton_append, tokens_append blank,
            here.tokens_eq, ih later]
          rfl

/-- Joined tokens are a stripped text. -/
theorem stripped_join {words : List (List α)} (some' : words ≠ []) (each : ∀ w ∈ words, Token p w) :
    [c].intercalate words ≠ [] ∧ Stripped p ([c].intercalate words) := by
  induction words with
  | nil => exact absurd rfl some'
  | cons w words ih =>
      obtain ⟨here, later⟩ := List.forall_mem_cons.mp each
      cases words with
      | nil => simpa using ⟨here.some, here.stripped⟩
      | cons next words =>
          obtain ⟨rest, stripped⟩ := ih (by simp) later
          rw [List.intercalate_cons_of_ne_nil (by simp), List.append_assoc]
          refine ⟨by simp [here.some], ⟨?_, ?_⟩⟩
          · intro d first
            rw [List.head?_append_of_ne_nil _ here.some] at first
            exact here.stripped.first d first
          · intro d last
            rw [List.getLast?_append_of_ne_nil _ (by simp), List.getLast?_append_of_ne_nil _ rest] at last
            exact stripped.last d last

theorem free_of_mem_splitOnP (member : w ∈ xs.splitOnP p) : ∀ c ∈ w, p c = false := by
  induction xs generalizing w with
  | nil =>
      rw [List.splitOnP_nil, List.mem_singleton] at member
      simp [member]
  | cons c xs ih =>
      obtain ⟨first, rest, parts⟩ := List.exists_cons_of_ne_nil (List.splitOnP_ne_nil p xs)
      rw [List.splitOnP_cons_eq_if_modifyHead, parts] at member
      rw [parts] at ih
      cases blank : p c with
      | true =>
          rw [if_pos blank] at member
          rcases List.mem_cons.mp member with rfl | later
          · simp
          · exact ih later
      | false =>
          rw [if_neg (by simp [blank]), List.modifyHead_cons] at member
          rcases List.mem_cons.mp member with rfl | later
          · exact List.forall_mem_cons.mpr ⟨blank, ih (List.mem_cons_self ..)⟩
          · exact ih (List.mem_cons_of_mem _ later)

theorem token_of_mem (member : w ∈ tokens p xs) : Token p w := by
  obtain ⟨part, some'⟩ := List.mem_filter.mp member
  exact ⟨by simpa using some', free_of_mem_splitOnP part⟩

/-- What is not all blanks has a token. -/
theorem tokens_ne_nil (found : ∃ c ∈ xs, p c = false) : tokens p xs ≠ [] := by
  induction xs with
  | nil => simp at found
  | cons c xs ih =>
      cases blank : p c with
      | true =>
          rw [tokens_blank blank]
          apply ih
          simpa [blank] using found
      | false =>
          obtain ⟨first, rest, parts⟩ := List.exists_cons_of_ne_nil (List.splitOnP_ne_nil p xs)
          rw [tokens, List.splitOnP_cons_eq_if_modifyHead, if_neg (by simp [blank]), parts, List.modifyHead_cons]
          simp

end Pleiades.Lib
