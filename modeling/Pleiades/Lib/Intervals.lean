import Mathlib.Data.List.Sort
import Mathlib.Order.Interval.Set.Defs
import Mathlib.Data.Set.Lattice

/-!
# Merging overlapping intervals

Items with an interval each, sorted by where they start, are merged as long as they
overlap, and the first of the widest stands for all of them: when that is right.
-/
namespace Pleiades.Lib

/-- Items that overlap: the first one, the greatest end, and the first of the widest. -/
structure Cluster (α : Type*) where
  first : α
  last : ℕ
  widest : α

variable {α : Type*} (lo hi : α → ℕ)

/-- The earlier start first, and of the same start the later end. -/
def StartsBefore (a b : α) : Prop := lo a < lo b ∨ lo a = lo b ∧ hi b ≤ hi a

instance : DecidableRel (StartsBefore lo hi) := fun a b =>
  inferInstanceAs (Decidable (lo a < lo b ∨ lo a = lo b ∧ hi b ≤ hi a))

instance : Std.Total (StartsBefore lo hi) where
  total a b := by
    unfold StartsBefore
    omega

instance : IsTrans α (StartsBefore lo hi) where
  trans a b c := by
    unfold StartsBefore
    omega

def byStart (items : List α) : List α := items.insertionSort (StartsBefore lo hi)

namespace Cluster

def width (a : α) : ℤ := (hi a : ℤ) - lo a

def single (a : α) : Cluster α := ⟨a, hi a, a⟩

def add (c : Cluster α) (a : α) : Cluster α where
  first := c.first
  last := if c.last < hi a then hi a else c.last
  widest := if width lo hi c.widest < width lo hi a then a else c.widest

/-- A cluster takes in the items that start within it; the next item opens another one. -/
def absorb (c : Cluster α) : List α → List (Cluster α)
  | [] => [c]
  | a :: rest => if lo a ≤ c.last then absorb (c.add lo hi a) rest else c :: absorb (single hi a) rest

def merge : List α → List (Cluster α)
  | [] => []
  | a :: rest => absorb lo hi (single hi a) rest

/-- What a cluster is of its members, and what the items before it are. -/
structure Gathered (before members : List α) (c : Cluster α) : Prop where
  head : members.head? = some c.first
  apart : ∀ m ∈ before, hi m < lo c.first
  ends : ∀ m ∈ members, hi m ≤ c.last
  reached : ∃ m ∈ members, hi m = c.last
  filled : ∀ y, lo c.first ≤ y → y < c.last → ∃ m ∈ members, lo m ≤ y ∧ y < hi m
  upright : members = [c.first] ∨ lo c.first ≤ hi c.first
  widest_mem : c.widest ∈ members
  widest : ∀ m ∈ members, width lo hi m ≤ width lo hi c.widest
  first_wins : width lo hi c.widest ≤ width lo hi c.first → c.widest = c.first

/-- The members of a finished cluster among all items. -/
def Of (items members : List α) (c : Cluster α) : Prop :=
  ∃ before after, items = before ++ members ++ after ∧ Gathered lo hi before members c ∧
    ∀ m ∈ after, c.last < lo m

variable {lo hi} {before members rest items : List α} {c : Cluster α} {a : α}

theorem Gathered.single (apart : ∀ m ∈ before, hi m < lo a) : Gathered lo hi before [a] (single hi a) where
  head := rfl
  apart := apart
  ends := by simp [Cluster.single]
  reached := ⟨a, by simp, rfl⟩
  filled y low high := ⟨a, by simp, low, high⟩
  upright := .inl rfl
  widest_mem := by simp [Cluster.single]
  widest := by simp [Cluster.single]
  first_wins _ := rfl

theorem Gathered.mem_first (gathered : Gathered lo hi before members c) : c.first ∈ members :=
  List.mem_of_mem_head? gathered.head

theorem Gathered.first_last (gathered : Gathered lo hi before members c) : hi c.first ≤ c.last :=
  gathered.ends _ gathered.mem_first

theorem Gathered.add (gathered : Gathered lo hi before members c) (later : lo c.first ≤ lo a)
    (overlaps : lo a ≤ c.last) : Gathered lo hi before (members ++ [a]) (c.add lo hi a) where
  head := by
    rw [List.head?_append, gathered.head]
    rfl
  apart := gathered.apart
  ends := by
    intro m member
    simp only [Cluster.add]
    rcases List.mem_append.mp member with old | new
    · have := gathered.ends m old
      split <;> omega
    · rw [List.mem_singleton.mp new]
      split <;> omega
  reached := by
    simp only [Cluster.add]
    split
    · exact ⟨a, by simp, rfl⟩
    · obtain ⟨m, member, last⟩ := gathered.reached
      exact ⟨m, List.mem_append_left _ member, last⟩
  filled := by
    intro y low high
    rcases Nat.lt_or_ge y c.last with inside | beyond
    · obtain ⟨m, member, here⟩ := gathered.filled y low inside
      exact ⟨m, List.mem_append_left _ member, here⟩
    · refine ⟨a, by simp, by omega, ?_⟩
      simp only [Cluster.add] at high
      split at high <;> omega
  upright := by
    right
    rcases gathered.upright with alone | upright
    · obtain ⟨m, member, last⟩ := gathered.reached
      rw [alone, List.mem_singleton] at member
      subst member
      exact Nat.le_trans later (Nat.le_trans overlaps last.ge)
    · exact upright
  widest_mem := by
    simp only [Cluster.add]
    split
    · simp
    · exact List.mem_append_left _ gathered.widest_mem
  widest := by
    intro m member
    simp only [Cluster.add]
    rcases List.mem_append.mp member with old | new
    · have := gathered.widest m old
      split <;> omega
    · rw [List.mem_singleton.mp new]
      split <;> omega
  first_wins := by
    simp only [Cluster.add]
    split
    · have := gathered.widest _ gathered.mem_first
      omega
    · exact gathered.first_wins

theorem lo_le_of_pairwise {front back : List α} (sorted : (front ++ back).Pairwise (StartsBefore lo hi))
    {x y : α} (early : x ∈ front) (late : y ∈ back) : lo x ≤ lo y := by
  have ordered := (List.pairwise_append.mp sorted).2.2 x early y late
  unfold StartsBefore at ordered
  omega

theorem absorb_spec (sorted : items.Pairwise (StartsBefore lo hi)) (whole : items = before ++ members ++ rest)
    (gathered : Gathered lo hi before members c) :
    (∀ c' ∈ absorb lo hi c rest, ∃ members', Of lo hi items members' c') ∧
      ∀ x ∈ members ++ rest, ∃ c' ∈ absorb lo hi c rest, ∃ members', Of lo hi items members' c' ∧ x ∈ members' := by
  induction rest generalizing before members c with
  | nil =>
      have closed : Of lo hi items members c := ⟨before, [], whole, gathered, by simp⟩
      rw [absorb]
      refine ⟨List.forall_mem_singleton.mpr ⟨members, closed⟩, fun x member => ?_⟩
      rw [List.append_nil] at member
      exact ⟨c, List.mem_singleton_self c, members, closed, member⟩
  | cons a rest ih =>
      have ordered : ((before ++ members) ++ (a :: rest)).Pairwise (StartsBefore lo hi) := whole ▸ sorted
      have later : ∀ m ∈ before ++ members, lo m ≤ lo a := fun m member =>
        lo_le_of_pairwise ordered member List.mem_cons_self
      rw [absorb]
      by_cases overlaps : lo a ≤ c.last
      · rw [if_pos overlaps]
        have grown := gathered.add (later _ (List.mem_append_right _ gathered.mem_first)) overlaps
        obtain ⟨each, covers⟩ := ih (by simp [whole]) grown
        exact ⟨each, fun x member => covers x (by simpa using member)⟩
      · rw [if_neg overlaps]
        have beyond : ∀ m ∈ a :: rest, c.last < lo m := by
          have onward := List.pairwise_cons.mp (List.pairwise_append.mp ordered).2.1
          refine List.forall_mem_cons.mpr ⟨Nat.lt_of_not_le overlaps, fun m member => ?_⟩
          have next := onward.1 m member
          unfold StartsBefore at next
          omega
        have closed : Of lo hi items members c := ⟨before, a :: rest, whole, gathered, beyond⟩
        have fresh : Gathered lo hi (before ++ members) [a] (single hi a) := by
          refine .single fun m member => ?_
          rcases List.mem_append.mp member with old | here
          · have := gathered.apart m old
            have := later _ (List.mem_append_right _ gathered.mem_first)
            omega
          · have := gathered.ends m here
            omega
        obtain ⟨each, covers⟩ := ih (by simp [whole]) fresh
        refine ⟨List.forall_mem_cons.mpr ⟨⟨members, closed⟩, each⟩, fun x member => ?_⟩
        rcases List.mem_append.mp member with here | there
        · exact ⟨c, List.mem_cons_self, members, closed, here⟩
        · obtain ⟨c', member, found⟩ := covers x (by simpa using there)
          exact ⟨c', List.mem_cons_of_mem _ member, found⟩

/-- Every item is a member of a cluster. -/
theorem merge_spec (sorted : items.Pairwise (StartsBefore lo hi)) :
    (∀ c ∈ merge lo hi items, ∃ members, Of lo hi items members c) ∧
      ∀ x ∈ items, ∃ c ∈ merge lo hi items, ∃ members, Of lo hi items members c ∧ x ∈ members := by
  cases items with
  | nil => simp [merge]
  | cons a rest =>
      have alone : Gathered lo hi [] [a] (single hi a) := .single (by simp)
      exact absorb_spec sorted rfl alone

theorem byStart_sorted (lo hi : α → ℕ) (items : List α) : (byStart lo hi items).Pairwise (StartsBefore lo hi) :=
  List.pairwise_insertionSort _ items

theorem mem_byStart {x : α} : x ∈ byStart lo hi items ↔ x ∈ items := List.mem_insertionSort _

section Of
variable {m : α} (of : Of lo hi items members c)
include of

theorem Of.gathered : ∃ before, Gathered lo hi before members c := by
  obtain ⟨before, -, -, gathered, -⟩ := of
  exact ⟨before, gathered⟩

theorem Of.mem (member : m ∈ members) : m ∈ items := by
  obtain ⟨before, after, rfl, -, -⟩ := of
  simp [member]

/-- An item that reaches into a cluster is one of its members. -/
theorem Of.member (there : m ∈ items) (low : lo m ≤ c.last) (high : lo c.first ≤ hi m) : m ∈ members := by
  obtain ⟨before, after, rfl, gathered, beyond⟩ := of
  rcases List.mem_append.mp there with there | late
  · rcases List.mem_append.mp there with early | here
    · have := gathered.apart m early
      omega
    · exact here
  · have := beyond m late
    omega

/-- The first member starts first and is the longest of those that start with it. -/
theorem Of.first_le (sorted : items.Pairwise (StartsBefore lo hi)) (member : m ∈ members) :
    lo c.first < lo m ∨ lo c.first = lo m ∧ hi m ≤ hi c.first := by
  obtain ⟨before, after, rfl, gathered, -⟩ := of
  obtain ⟨tail, rfl⟩ : ∃ tail, members = c.first :: tail := List.head?_eq_some_iff.mp gathered.head
  rcases List.mem_cons.mp member with rfl | later
  · exact .inr ⟨rfl, Nat.le_refl _⟩
  · have inner := (List.pairwise_append.mp (List.pairwise_append.mp sorted).1).2.1
    exact (List.pairwise_cons.mp inner).1 m later

theorem Of.fits (member : m ∈ members) : hi m ≤ c.last := by
  obtain ⟨before, gathered⟩ := of.gathered
  exact gathered.ends m member

theorem Of.first_upright (nonempty : lo c.first ≤ c.last) : lo c.first ≤ hi c.first := by
  obtain ⟨before, gathered⟩ := of.gathered
  rcases gathered.upright with alone | upright
  · obtain ⟨m, member, last⟩ := gathered.reached
    rw [alone, List.mem_singleton] at member
    rw [member] at last
    rwa [last]
  · exact upright

end Of

theorem first_of_mem_absorb {d : Cluster α} (member : d ∈ absorb lo hi c rest) :
    d.first = c.first ∨ d.first ∈ rest := by
  induction rest generalizing c with
  | nil =>
      rw [absorb, List.mem_singleton] at member
      exact .inl (congrArg first member)
  | cons a rest ih =>
      rw [absorb] at member
      split at member
      · exact (ih member).imp id (List.mem_cons_of_mem a)
      · rcases List.mem_cons.mp member with rfl | later
        · exact .inl rfl
        · exact .inr (List.mem_cons.mpr (ih later))

theorem absorb_separated (sorted : rest.Pairwise (StartsBefore lo hi)) :
    (absorb lo hi c rest).Pairwise fun c d => c.last < lo d.first := by
  induction rest generalizing c with
  | nil => exact List.pairwise_singleton _ c
  | cons a rest ih =>
      obtain ⟨after, sorted⟩ := List.pairwise_cons.mp sorted
      rw [absorb]
      split
      · exact ih sorted
      · next apart =>
          refine List.pairwise_cons.mpr ⟨fun d member => ?_, ih sorted⟩
          rcases first_of_mem_absorb member with here | later
          · rw [here, single]
            exact Nat.lt_of_not_le apart
          · have next := after d.first later
            unfold StartsBefore at next
            omega

/-- A cluster ends before the next one starts. -/
theorem merge_separated (sorted : items.Pairwise (StartsBefore lo hi)) :
    (merge lo hi items).Pairwise fun c d => c.last < lo d.first := by
  cases items with
  | nil => exact .nil
  | cons a rest => exact absorb_separated (List.pairwise_cons.mp sorted).2

section Upright
variable (sorted : items.Pairwise (StartsBefore lo hi)) (upright : ∀ a ∈ items, lo a ≤ hi a)
include sorted upright

theorem merge_upright : ∀ c ∈ merge lo hi items, lo c.first ≤ c.last := by
  intro c member
  obtain ⟨members, of⟩ := (merge_spec sorted).1 c member
  obtain ⟨before, gathered⟩ := of.gathered
  exact Nat.le_trans (upright _ (of.mem gathered.mem_first)) gathered.first_last

/-- The clusters cover what the intervals cover. -/
theorem merge_covers :
    (⋃ c ∈ merge lo hi items, Set.Icc (lo c.first) c.last) = ⋃ a ∈ items, Set.Icc (lo a) (hi a) := by
  obtain ⟨each, covers⟩ := merge_spec sorted
  ext y
  simp only [Set.mem_iUnion, Set.mem_Icc, exists_prop]
  constructor
  · intro covered
    obtain ⟨c, member, low, high⟩ := covered
    obtain ⟨members, of⟩ := each c member
    obtain ⟨before, gathered⟩ := of.gathered
    rcases Nat.lt_or_eq_of_le high with inside | rfl
    · obtain ⟨m, here, start, stop⟩ := gathered.filled y low inside
      exact ⟨m, of.mem here, start, stop.le⟩
    · obtain ⟨m, here, last⟩ := gathered.reached
      exact ⟨m, of.mem here, last ▸ upright m (of.mem here), last.ge⟩
  · intro covered
    obtain ⟨a, there, low, high⟩ := covered
    obtain ⟨c, member, members, of, here⟩ := covers a there
    have after := of.first_le sorted here
    have within := of.fits here
    exact ⟨c, member, by omega, by omega⟩

end Upright

/-- Overlapping items start at `first`, leave no gap and end at `last`, and no other item
reaches across their ends. -/
structure Spans (lo hi : α → ℕ) (items : List α) (first last : ℕ) : Prop where
  starts : ∃ m ∈ items, lo m = first ∧ first ≤ hi m
  below : ∀ m ∈ items, lo m < first → hi m < first
  closed : ∀ m ∈ items, first ≤ lo m → lo m ≤ last → hi m ≤ last
  filled : ∀ y, first ≤ y → y < last → ∃ m ∈ items, first ≤ lo m ∧ lo m ≤ y ∧ y < hi m

/-- The nonempty ranges of the clusters. -/
theorem merge_range_iff (sorted : items.Pairwise (StartsBefore lo hi)) {first last : ℕ} (nonempty : first ≤ last) :
    (∃ c ∈ merge lo hi items, lo c.first = first ∧ c.last = last) ↔ Spans lo hi items first last := by
  obtain ⟨each, covers⟩ := merge_spec sorted
  constructor
  · rintro ⟨c, member, rfl, rfl⟩
    obtain ⟨members, of⟩ := each c member
    obtain ⟨before, gathered⟩ := of.gathered
    refine ⟨⟨c.first, of.mem gathered.mem_first, rfl, of.first_upright nonempty⟩, ?_, ?_, ?_⟩
    · intro m there low
      by_contra high
      have here := of.first_le sorted (of.member there (by omega) (by omega))
      omega
    · intro m there low high
      by_cases upright : lo m ≤ hi m
      · exact of.fits (of.member there high (by omega))
      · omega
    · intro y low high
      obtain ⟨m, here, start, stop⟩ := gathered.filled y low high
      have after := of.first_le sorted here
      exact ⟨m, of.mem here, by omega, start, stop⟩
  · intro spans
    obtain ⟨m, there, start, stop⟩ := spans.starts
    obtain ⟨c, member, members, of, here⟩ := covers m there
    obtain ⟨before, gathered⟩ := of.gathered
    have reaches := of.fits here
    have begins : lo c.first = first := by
      have before := of.first_le sorted here
      by_contra other
      obtain ⟨m', here', start', stop'⟩ := gathered.filled (first - 1) (by omega) (by omega)
      have := spans.below m' (of.mem here') (by omega)
      omega
    refine ⟨c, member, begins, ?_⟩
    by_contra other
    rcases Nat.lt_or_gt_of_ne other with short | long
    · obtain ⟨m', there', low, start', stop'⟩ := spans.filled c.last (by omega) short
      have := of.fits (of.member there' start' (by omega))
      omega
    · obtain ⟨m', here', start', stop'⟩ := gathered.filled last (by omega) long
      have after := of.first_le sorted here'
      have := spans.closed m' (of.mem here') (by omega) start'
      omega

theorem spans_byStart {first last : ℕ} : Spans lo hi (byStart lo hi items) first last ↔ Spans lo hi items first last := by
  constructor
  · rintro ⟨starts, below, closed, filled⟩
    simp only [mem_byStart] at starts below closed filled
    exact ⟨starts, below, closed, filled⟩
  · rintro ⟨starts, below, closed, filled⟩
    constructor <;> simpa only [mem_byStart]

theorem spans_singleton {first last : ℕ} (nonempty : first ≤ last) :
    Spans lo hi [a] first last ↔ lo a = first ∧ hi a = last := by
  constructor
  · intro spans
    have starts := spans.starts
    have closed := spans.closed a (List.mem_singleton_self a)
    have filled := spans.filled (hi a)
    simp only [List.mem_singleton, exists_eq_left] at starts filled
    omega
  · rintro ⟨rfl, rfl⟩
    constructor
    · exact ⟨a, List.mem_singleton_self a, rfl, nonempty⟩
    · intro m there low
      rw [List.mem_singleton.mp there] at low
      exact absurd low (Nat.lt_irrefl _)
    · intro m there _ _
      rw [List.mem_singleton.mp there]
    · intro y low high
      exact ⟨a, List.mem_singleton_self a, Nat.le_refl _, low, high⟩

/-- Two overlapping items always lie within one item. -/
def Nested (lo hi : α → ℕ) (items : List α) : Prop :=
  ∀ a ∈ items, ∀ b ∈ items, lo a ≤ lo b → lo b ≤ hi a → ∃ c ∈ items, lo c ≤ lo a ∧ hi a ≤ hi c ∧ hi b ≤ hi c

def sameRange (lo hi : α → ℕ) (a b : α) : Bool := lo b = lo a ∧ hi b = hi a

/-- An item lies within no larger one, and is the first of its range. -/
structure Leads (lo hi : α → ℕ) (items : List α) (a : α) : Prop where
  greatest : ∀ b ∈ items, lo b ≤ lo a → hi a ≤ hi b → lo b = lo a ∧ hi b = hi a
  listed : items.find? (sameRange lo hi a) = some a

/-- Sorting keeps the order of items of one range. -/
theorem find?_byStart (items : List α) (a : α) :
    (byStart lo hi items).find? (sameRange lo hi a) = items.find? (sameRange lo hi a) := by
  have equal : (items.filter (sameRange lo hi a)).Pairwise (StartsBefore lo hi) := by
    refine List.pairwise_of_forall_mem_list fun b member b' member' => .inr ?_
    simp only [List.mem_filter, sameRange, decide_eq_true_iff] at member member'
    omega
  have kept := (List.sublist_insertionSort equal List.filter_sublist).filter (sameRange lo hi a)
  simp only [List.filter_filter, Bool.and_self] at kept
  have count := ((List.perm_insertionSort (StartsBefore lo hi) items).filter (sameRange lo hi a)).length_eq
  rw [← List.head?_filter, ← List.head?_filter, kept.eq_of_length count.symm, byStart]

/-- Every cluster is held by the item that stands for it. -/
def Sound (lo hi : α → ℕ) (holds : α → ℕ → Prop) (items : List α) : Prop :=
  ∀ c ∈ merge lo hi (byStart lo hi items), ∀ l, lo c.first ≤ l → l ≤ c.last → holds c.widest l

/-- The first of a cluster leads when nothing reaches beyond it. -/
theorem Of.leads (of : Of lo hi (byStart lo hi items) members c) (nonempty : lo c.first ≤ c.last)
    (alone : c.last = hi c.first) : Leads lo hi items c.first := by
  constructor
  · intro b there low high
    have here := of.first_le (byStart_sorted lo hi items)
      (of.member (mem_byStart.mpr there) (Nat.le_trans low nonempty) (Nat.le_trans (alone ▸ nonempty) high))
    omega
  · obtain ⟨before, after, whole, gathered, -⟩ := of
    obtain ⟨tail, rfl⟩ : ∃ tail, members = c.first :: tail := List.head?_eq_some_iff.mp gathered.head
    have early : before.find? (sameRange lo hi c.first) = none := by
      rw [List.find?_eq_none]
      intro m member same
      have := gathered.apart m member
      rw [sameRange, decide_eq_true_iff] at same
      omega
    rw [← find?_byStart, whole, List.append_assoc, List.find?_append, early, Option.none_or, List.cons_append]
    exact List.find?_cons_of_pos (by simp [sameRange])

/-- Among nested items a cluster is its first one. -/
theorem Of.of_nested (nested : Nested lo hi items) (of : Of lo hi (byStart lo hi items) members c)
    (nonempty : lo c.first ≤ c.last) : c.last = hi c.first ∧ c.widest = c.first := by
  obtain ⟨before, gathered⟩ := of.gathered
  have sorted : (byStart lo hi items).Pairwise (StartsBefore lo hi) := byStart_sorted lo hi items
  have upright := of.first_upright nonempty
  have last : c.last = hi c.first := by
    by_contra longer
    have first_last := gathered.first_last
    obtain ⟨m, member, start, stop⟩ := gathered.filled (hi c.first) upright (by omega)
    have after := of.first_le sorted member
    obtain ⟨d, there, low, high, covers⟩ := nested c.first (mem_byStart.mp (of.mem gathered.mem_first)) m
      (mem_byStart.mp (of.mem member)) (by omega) start
    have here := of.first_le sorted (of.member (mem_byStart.mpr there) (by omega) (by omega))
    omega
  refine ⟨last, gathered.first_wins ?_⟩
  have after := of.first_le sorted gathered.widest_mem
  have within := of.fits gathered.widest_mem
  unfold width
  omega

section Sound
variable {holds : α → ℕ → Prop}
  (fills : ∀ a ∈ items, ∀ x y, x ≤ y → x ≤ lo a → hi a ≤ y → (∀ l, x ≤ l → l ≤ y → holds a l) →
    lo a ≤ x ∧ y ≤ hi a)
include fills

/-- In a cluster that is held by one of its items this item is all of it. -/
theorem Sound.covers (sound : Sound lo hi holds items) (member : c ∈ merge lo hi (byStart lo hi items))
    (of : Of lo hi (byStart lo hi items) members c) (nonempty : lo c.first ≤ c.last) :
    lo c.widest = lo c.first ∧ hi c.widest = c.last := by
  obtain ⟨before, gathered⟩ := of.gathered
  have after := of.first_le (byStart_sorted lo hi items) gathered.widest_mem
  have within := of.fits gathered.widest_mem
  have whole := fills c.widest (mem_byStart.mp (of.mem gathered.widest_mem)) _ _ nonempty (by omega) within (sound c member)
  omega

theorem Sound.nested (sound : Sound lo hi holds items) : Nested lo hi items := by
  intro a there b there' low high
  by_cases shorter : hi b ≤ hi a
  · exact ⟨a, there, Nat.le_refl _, Nat.le_refl _, shorter⟩
  · obtain ⟨c, member, members, of, here⟩ := (merge_spec (byStart_sorted lo hi items)).2 a (mem_byStart.mpr there)
    have after := of.first_le (byStart_sorted lo hi items) here
    have within := of.fits here
    have here' := of.member (mem_byStart.mpr there') (by omega) (by omega)
    have within' := of.fits here'
    obtain ⟨before, gathered⟩ := of.gathered
    have whole := sound.covers fills member of (by omega)
    exact ⟨c.widest, mem_byStart.mp (of.mem gathered.widest_mem), by omega, by omega, by omega⟩

/-- The items that lead stand for clusters of their own. -/
theorem Sound.leads (sound : Sound lo hi holds items) {a : α} (leads : Leads lo hi items a) {l : ℕ}
    (low : lo a ≤ l) (high : l ≤ hi a) : holds a l := by
  have there : a ∈ items := List.mem_of_find?_eq_some leads.listed
  obtain ⟨c, member, members, of, here⟩ := (merge_spec (byStart_sorted lo hi items)).2 a (mem_byStart.mpr there)
  have after := of.first_le (byStart_sorted lo hi items) here
  have within := of.fits here
  have nonempty : lo c.first ≤ c.last := by omega
  obtain ⟨last, stands⟩ := of.of_nested (sound.nested fills) nonempty
  obtain ⟨before, gathered⟩ := of.gathered
  have first_there := mem_byStart.mp (of.mem gathered.mem_first)
  have range := leads.greatest c.first first_there (by omega) (by omega)
  -- both are the first item of their range
  have same : c.first = a := by
    have mine := (of.leads nonempty last).listed
    have predicate : sameRange lo hi c.first = sameRange lo hi a := by
      funext b
      simp only [sameRange, range.1, range.2]
    rw [predicate, leads.listed] at mine
    exact (Option.some.inj mine).symm
  have held := sound c member l
  rw [stands, same] at held
  exact held low (by rw [last, same]; exact high)

/-- When the merged ranges are sound. -/
theorem sound_iff : Sound lo hi holds items ↔
    Nested lo hi items ∧ ∀ a, Leads lo hi items a → ∀ l, lo a ≤ l → l ≤ hi a → holds a l := by
  constructor
  · intro sound
    exact ⟨sound.nested fills, fun a leads l low high => sound.leads fills leads low high⟩
  · intro condition c member l low high
    obtain ⟨nested, held⟩ := condition
    obtain ⟨members, of⟩ := (merge_spec (byStart_sorted lo hi items)).1 c member
    have nonempty := Nat.le_trans low high
    obtain ⟨last, stands⟩ := of.of_nested nested nonempty
    rw [stands]
    exact held c.first (of.leads nonempty last) l low (last ▸ high)

end Sound

end Cluster

end Pleiades.Lib
