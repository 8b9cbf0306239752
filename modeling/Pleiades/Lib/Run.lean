import Mathlib.Data.List.Forall2

/-!
# Runs of an executable transition system

A system is a partial step function: an action names the party that moves and
everything the environment decides, and `none` means the action is not enabled.
A run keeps the state each action was taken in, so a condition on every step of
a run is a condition on the members of its trace.
-/
namespace Pleiades.Lib

variable {σ α : Type*} {step : σ → α → Option σ}

/-- `Run step s tr t`: the actions of `tr`, each paired with its pre-state, lead from `s` to `t`. -/
inductive Run (step : σ → α → Option σ) (s : σ) : List (σ × α) → σ → Prop
  | nil : Run step s [] s
  | snoc {tr t a u} : Run step s tr t → step t a = some u → Run step s (tr ++ [(t, a)]) u

/-- The state after a list of actions, when every one of them is enabled in turn. -/
def exec (step : σ → α → Option σ) : σ → List α → Option σ
  | s, [] => some s
  | s, a :: as => (step s a).bind fun t => exec step t as

theorem Run.append {s t u : σ} {tr tr' : List (σ × α)} (h : Run step s tr t)
    (h' : Run step t tr' u) : Run step s (tr ++ tr') u := by
  induction h' with
  | nil => simpa only [List.append_nil] using h
  | snoc _ hstep ih => simpa only [List.append_assoc] using ih.snoc hstep

theorem Run.cons {s t u : σ} {a : α} {tr : List (σ × α)} (hstep : step s a = some t)
    (h : Run step t tr u) : Run step s ((s, a) :: tr) u :=
  Run.append (Run.nil.snoc hstep) h

/-- The actions of a list with the states they are taken in, as far as they are enabled. -/
def trace (step : σ → α → Option σ) : σ → List α → List (σ × α)
  | _, [] => []
  | s, a :: as =>
    (s, a) :: match step s a with
      | some t => trace step t as
      | none => []

/-- An executed action list is a run over its trace. -/
theorem exec_run {s u : σ} {as : List α} (h : exec step s as = some u) :
    Run step s (trace step s as) u := by
  induction as generalizing s with
  | nil =>
      cases h
      exact .nil
  | cons a as ih =>
      obtain ⟨t, hstep, hrest⟩ := Option.bind_eq_some_iff.mp h
      simp only [trace, hstep]
      exact (ih hrest).cons hstep

/-- A run of a system is a run of any system that has its steps. -/
theorem Run.mono {step' : σ → α → Option σ} (all : ∀ {s a t}, step s a = some t → step' s a = some t)
    {s t : σ} {tr : List (σ × α)} (h : Run step s tr t) : Run step' s tr t := by
  induction h with
  | nil => exact .nil
  | snoc _ hstep ih => exact ih.snoc (all hstep)

/-- The invariant rule: what holds at the start and is kept by each step that
meets the condition `C` holds at the end of a run whose steps all meet `C`. -/
theorem Run.invariant {I : σ → Prop} {C : σ → α → Prop} {s t : σ} {tr : List (σ × α)}
    (h : Run step s tr t) (hC : ∀ p ∈ tr, C p.1 p.2) (h0 : I s)
    (keep : ∀ {u a v}, I u → C u a → step u a = some v → I v) : I t := by
  induction h with
  | nil => exact h0
  | @snoc tr t a u _ hstep ih =>
      have before := ih fun p hp => hC p (List.mem_append_left _ hp)
      exact keep before (hC (t, a) (by simp)) hstep

/-- The invariant rule without a condition on the steps. -/
theorem Run.always {I : σ → Prop} {s t : σ} {tr : List (σ × α)} (h : Run step s tr t)
    (h0 : I s) (keep : ∀ {u a v}, I u → step u a = some v → I v) : I t :=
  h.invariant (C := fun _ _ => True) (fun _ _ => trivial) h0 fun hu _ => keep hu

/-- The characterisation rule: when each step keeps `P` exactly if it meets `C`,
a run keeps `P` exactly if all its steps meet `C`. -/
theorem Run.iff_forall {I P : σ → Prop} {C : σ → α → Prop} {s t : σ} {tr : List (σ × α)}
    (h : Run step s tr t) (h0 : I s) (keep : ∀ {u a v}, I u → step u a = some v → I v)
    (each : ∀ {u a v}, I u → step u a = some v → (P v ↔ P u ∧ C u a)) :
    P t ↔ P s ∧ ∀ p ∈ tr, C p.1 p.2 := by
  induction h with
  | nil => simp
  | @snoc tr t a u hrun hstep ih =>
      rw [each (hrun.always h0 keep) hstep, ih, List.forall_mem_append, List.forall_mem_singleton,
        and_assoc]

/-- The step-by-step rule: when a step from a state with `P` leads to a state with `P`
exactly if it meets `C`, all states of a run have `P` exactly if all its steps meet `C`. -/
theorem Run.states_iff {I P : σ → Prop} {C : σ → α → Prop} {s t : σ} {tr : List (σ × α)}
    (h : Run step s tr t) (h0 : I s) (start : P s) (keep : ∀ {u a v}, I u → step u a = some v → I v)
    (each : ∀ {u a v}, I u → P u → step u a = some v → (P v ↔ C u a)) :
    ((∀ p ∈ tr, P p.1) ∧ P t) ↔ ∀ p ∈ tr, C p.1 p.2 := by
  induction h with
  | nil => simp [start]
  | @snoc tr t a u hrun hstep ih =>
      have always := hrun.always h0 keep
      rw [List.forall_mem_append, List.forall_mem_append, List.forall_mem_singleton,
        List.forall_mem_singleton, ← ih]
      constructor
      · rintro ⟨⟨before, here⟩, after⟩
        exact ⟨⟨before, here⟩, (each always here hstep).mp after⟩
      · rintro ⟨⟨before, here⟩, good⟩
        exact ⟨⟨before, here⟩, (each always here hstep).mpr good⟩

/-- Every step of a run is taken in a state that an initial part of the run reaches. -/
theorem Run.reaches {s t : σ} {tr : List (σ × α)} (h : Run step s tr t) :
    ∀ p ∈ tr, ∃ pre post u, tr = pre ++ p :: post ∧ Run step s pre p.1 ∧
      step p.1 p.2 = some u ∧ Run step u post t := by
  induction h with
  | nil => simp
  | @snoc tr t a u hrun hstep ih =>
      intro p hp
      rcases List.mem_append.mp hp with hp | hp
      · obtain ⟨pre, post, v, rfl, hpre, hv, hpost⟩ := ih p hp
        exact ⟨pre, post ++ [(t, a)], v, by simp, hpre, hv, hpost.snoc hstep⟩
      · cases List.mem_singleton.mp hp
        exact ⟨tr, [], u, rfl, hrun, hstep, .nil⟩

/-- A sequence of computations succeeds only if each of them does. -/
theorem bind_ok {ε α β : Type*} {x : Except ε α} {f : α → Except ε β} {b : β}
    (h : x.bind f = .ok b) : ∃ a, x = .ok a ∧ f a = .ok b := by
  cases x with
  | error e => cases h
  | ok a => exact ⟨a, rfl, h⟩

/-- The invariant rule of a loop that may fail: what holds before it and is kept by each
round that succeeds holds after a loop that succeeds. -/
theorem foldlM_ok {ε α β : Type*} {f : β → α → Except ε β} {P : List α → β → Prop} {as : List α} {b b' : β}
    (folded : as.foldlM f b = .ok b') (start : P [] b)
    (keep : ∀ {done a c c'}, a ∈ as → P done c → f c a = .ok c' → P (done ++ [a]) c') : P as b' := by
  have go (rest : List α) : ∀ done c, (∀ a ∈ rest, a ∈ as) → P done c → rest.foldlM f c = .ok b' →
      P (done ++ rest) b' := by
    induction rest with
    | nil =>
        intro done c _ here ended
        cases ended
        rwa [List.append_nil]
    | cons a rest ih =>
        intro done c members here folded
        rw [List.foldlM_cons] at folded
        obtain ⟨c', first, later⟩ := bind_ok folded
        obtain ⟨member, members⟩ := List.forall_mem_cons.mp members
        have whole := ih (done ++ [a]) c' members (keep member here first) later
        rwa [List.append_assoc] at whole
  exact go as [] b (fun _ member => member) start folded

/-- A loop that fails does so in a round it has got to. -/
theorem foldlM_error {ε α β : Type*} {f : β → α → Except ε β} {P : β → Prop} {as : List α} {b : β} {e : ε}
    (failed : as.foldlM f b = .error e) (start : P b)
    (keep : ∀ {a c c'}, a ∈ as → P c → f c a = .ok c' → P c') : ∃ a ∈ as, ∃ c, P c ∧ f c a = .error e := by
  induction as generalizing b with
  | nil => cases failed
  | cons a as ih =>
      rw [List.foldlM_cons] at failed
      cases first : f b a with
      | error e' =>
          rw [first] at failed
          cases failed
          exact ⟨a, List.mem_cons_self, b, start, first⟩
      | ok c =>
          rw [first] at failed
          obtain ⟨a', member, found⟩ := ih failed (keep List.mem_cons_self start first)
            fun member => keep (List.mem_cons_of_mem _ member)
          exact ⟨a', List.mem_cons_of_mem _ member, found⟩

/-- The same for a loop of which each round succeeds. -/
theorem foldlM_succeeds {ε α β : Type*} {f : β → α → Except ε β} {P : List α → β → Prop} {as : List α} {b : β}
    (start : P [] b) (keep : ∀ {done a c}, a ∈ as → P done c → ∃ c', f c a = .ok c' ∧ P (done ++ [a]) c') :
    ∃ b', as.foldlM f b = .ok b' ∧ P as b' := by
  have go (rest : List α) : ∀ done c, (∀ a ∈ rest, a ∈ as) → P done c →
      ∃ b', rest.foldlM f c = .ok b' ∧ P (done ++ rest) b' := by
    induction rest with
    | nil => exact fun done c _ here => ⟨c, rfl, by rwa [List.append_nil]⟩
    | cons a rest ih =>
        intro done c members here
        obtain ⟨member, members⟩ := List.forall_mem_cons.mp members
        obtain ⟨c', first, here⟩ := keep member here
        obtain ⟨b', later, whole⟩ := ih (done ++ [a]) c' members here
        refine ⟨b', ?_, by rwa [List.append_assoc] at whole⟩
        rw [List.foldlM_cons, first]
        exact later
  exact go as [] b (fun _ member => member) start

/-- A computation over a list succeeds element by element. -/
theorem mapM_forall₂ {ε α β : Type*} {f : α → Except ε β} {as : List α} {bs : List β} :
    as.mapM f = .ok bs ↔ List.Forall₂ (fun a b => f a = .ok b) as bs := by
  induction as generalizing bs with
  | nil =>
      rw [List.forall₂_nil_left_iff]
      simp [pure, Except.pure, eq_comm]
  | cons a as ih =>
      rw [List.mapM_cons, List.forall₂_cons_left_iff]
      constructor
      · intro all
        obtain ⟨b, first, all⟩ := bind_ok all
        obtain ⟨bs, others, final⟩ := bind_ok all
        cases final
        exact ⟨b, bs, first, ih.mp others, rfl⟩
      · rintro ⟨b, bs, first, others, rfl⟩
        rw [first, ih.mpr others]
        rfl

theorem mem_of_mapM {ε α β : Type*} {f : α → Except ε β} {as : List α} {bs : List β} (made : as.mapM f = .ok bs) :
    ∀ b ∈ bs, ∃ a ∈ as, f a = .ok b := by
  have each := mapM_forall₂.mp made
  induction each with
  | nil => simp
  | @cons a b as bs first others ih =>
      rw [List.forall_mem_cons]
      refine ⟨⟨a, List.mem_cons_self, first⟩, fun b' member => ?_⟩
      obtain ⟨a', given, later⟩ := ih (mapM_forall₂.mpr others) b' member
      exact ⟨a', List.mem_cons_of_mem _ given, later⟩

theorem mapM_each {ε α β : Type*} {f : α → Except ε β} {as : List α} {bs : List β} {a : α} (made : as.mapM f = .ok bs)
    (member : a ∈ as) : ∃ b ∈ bs, f a = .ok b := by
  have each := mapM_forall₂.mp made
  induction each with
  | nil => cases member
  | @cons a' b as bs first others ih =>
      rcases List.mem_cons.mp member with rfl | later
      · exact ⟨b, List.mem_cons_self, first⟩
      · obtain ⟨b', among, here⟩ := ih (mapM_forall₂.mpr others) later
        exact ⟨b', List.mem_cons_of_mem _ among, here⟩

theorem mem_of_mapM_error {ε α β : Type*} {f : α → Except ε β} {as : List α} {e : ε}
    (failed : as.mapM f = .error e) : ∃ a ∈ as, f a = .error e := by
  induction as with
  | nil => cases failed
  | cons a as ih =>
      rw [List.mapM_cons] at failed
      cases first : f a with
      | error e' =>
          rw [first] at failed
          cases failed
          exact ⟨a, List.mem_cons_self, first⟩
      | ok b =>
          cases others : as.mapM f with
          | error e' =>
              rw [first, others] at failed
              cases failed
              obtain ⟨a', member, here⟩ := ih others
              exact ⟨a', List.mem_cons_of_mem _ member, here⟩
          | ok bs =>
              rw [first, others] at failed
              cases failed

/-- A computation that succeeds on some elements only, over a list. -/
theorem mapM_ok {ε α β : Type*} {f : α → Except ε β} {good : α → Prop} {g : α → β}
    (h : ∀ a b, f a = .ok b ↔ good a ∧ b = g a) (as : List α) (bs : List β) :
    as.mapM f = .ok bs ↔ (∀ a ∈ as, good a) ∧ bs = as.map g := by
  simp only [mapM_forall₂, h]
  rw [List.forall₂_and_left, eq_comm, ← List.forall₂_eq_eq_eq, List.forall₂_map_left_iff]
  simp only [eq_comm]

/-- A computation whose results tell what they are the result of, over a list. -/
theorem mapM_labelled {ε α β : Type*} {f : α → Except ε β} {label : β → α} {good : β → Prop}
    (h : ∀ a b, f a = .ok b ↔ good b ∧ label b = a) (as : List α) (bs : List β) :
    as.mapM f = .ok bs ↔ bs.map label = as ∧ ∀ b ∈ bs, good b := by
  simp only [mapM_forall₂, h]
  have turned : List.Forall₂ (fun a b => good b ∧ label b = a) as bs ↔
      List.Forall₂ (fun b a => good b ∧ label b = a) bs as := ⟨List.Forall₂.flip, List.Forall₂.flip⟩
  rw [turned, List.forall₂_and_left, and_comm, ← List.forall₂_eq_eq_eq, List.forall₂_map_left_iff]

theorem mapM_of_forall {ε α β : Type*} {f : α → Except ε β} {as : List α} (each : ∀ a ∈ as, ∃ b, f a = .ok b) :
    ∃ bs, as.mapM f = .ok bs := by
  induction as with
  | nil => exact ⟨[], rfl⟩
  | cons a as ih =>
      obtain ⟨⟨b, first⟩, others⟩ := List.forall_mem_cons.mp each
      obtain ⟨bs, others⟩ := ih others
      exact ⟨b :: bs, mapM_forall₂.mpr (.cons first (mapM_forall₂.mp others))⟩

theorem mapM_eq_map {ε α β : Type*} {f : α → Except ε β} {g : α → β} {as : List α}
    (each : ∀ a ∈ as, f a = .ok (g a)) : as.mapM f = .ok (as.map g) :=
  mapM_forall₂.mpr (List.forall₂_map_right_iff.mpr (List.forall₂_same.mpr each))

/-- Over a list with a member that fails, where all that fail do so alike. -/
theorem mapM_eq_error {ε α β : Type*} {f : α → Except ε β} {e : ε} {as : List α} {a : α} (member : a ∈ as)
    (fails : f a = .error e) (only : ∀ a e', f a = .error e' → e' = e) : as.mapM f = .error e := by
  cases whole : as.mapM f with
  | error e' =>
      obtain ⟨a', -, failed⟩ := mem_of_mapM_error whole
      rw [only a' e' failed]
  | ok bs =>
      obtain ⟨b, -, here⟩ := mapM_each whole member
      rw [fails] at here
      cases here

theorem mapM_some {α β : Type*} {f : α → Option β} {g : α → β} {l : List α} (each : ∀ a ∈ l, f a = some (g a)) :
    l.mapM f = some (l.map g) := by
  induction l with
  | nil => rfl
  | cons a l ih =>
      obtain ⟨here, later⟩ := List.forall_mem_cons.mp each
      rw [List.mapM_cons, here, ih later]
      rfl

theorem mapM_none {α β : Type*} {f : α → Option β} {l : List α} {a : α} (member : a ∈ l) (fails : f a = none) :
    l.mapM f = none := by
  induction l with
  | nil => cases member
  | cons b l ih =>
      rw [List.mapM_cons]
      rcases List.mem_cons.mp member with rfl | later
      · rw [fails]
        rfl
      · rw [ih later]
        cases f b <;> rfl

theorem mapM_eq_none {α β : Type*} {f : α → Option β} {l : List α} : l.mapM f = none ↔ ∃ a ∈ l, f a = none := by
  refine ⟨fun fails => ?_, fun ⟨_, member, fails⟩ => mapM_none member fails⟩
  induction l with
  | nil => cases fails
  | cons a l ih =>
      cases here : f a with
      | none => exact ⟨a, List.mem_cons_self, here⟩
      | some b =>
          cases later : l.mapM f with
          | none =>
              obtain ⟨a', member, missing⟩ := ih later
              exact ⟨a', List.mem_cons_of_mem a member, missing⟩
          | some bs =>
              rw [List.mapM_cons, here, later] at fails
              cases fails

theorem foldlM_some {α β : Type*} {f : α → β → Option α} {g : α → β → α} (each : ∀ a b, f a b = some (g a b))
    (a : α) (l : List β) : l.foldlM f a = some (l.foldl g a) := by
  induction l generalizing a with
  | nil => rfl
  | cons b l ih =>
      rw [List.foldlM_cons, each]
      exact ih (g a b)

/-- What every step keeps holds behind the last one. -/
theorem foldlM_keeps {α β : Type*} {f : α → β → Option α} {P : α → Prop} {a a' : α} {l : List β} (start : P a)
    (keeps : ∀ b ∈ l, ∀ {a a'}, P a → f a b = some a' → P a') (run : l.foldlM f a = some a') : P a' := by
  induction l generalizing a with
  | nil =>
      cases run
      exact start
  | cons b l ih =>
      obtain ⟨here, later⟩ := List.forall_mem_cons.mp keeps
      rw [List.foldlM_cons] at run
      obtain ⟨next, first, rest⟩ := Option.bind_eq_some_iff.mp run
      exact ih (here start first) later rest

/-- A loop that ends early does so in a first step that fails. -/
theorem foldlM_eq_none {α β : Type*} {f : α → β → Option α} {a : α} {l : List β} : l.foldlM f a = none ↔
    ∃ done b rest c, l = done ++ b :: rest ∧ done.foldlM f a = some c ∧ f c b = none := by
  constructor
  · intro failed
    induction l generalizing a with
    | nil => cases failed
    | cons b l ih =>
        rw [List.foldlM_cons] at failed
        cases first : f a b with
        | none => exact ⟨[], b, l, a, rfl, rfl, first⟩
        | some next =>
            rw [first] at failed
            obtain ⟨done, b', rest, c, rfl, before, here⟩ := ih failed
            refine ⟨b :: done, b', rest, c, rfl, ?_, here⟩
            rw [List.foldlM_cons, first]
            exact before
  · rintro ⟨done, b, rest, c, rfl, before, here⟩
    rw [List.foldlM_append, before, Option.bind_eq_bind, Option.bind_some, List.foldlM_cons, here]
    rfl

/-- Where a step fails or not by its element alone. -/
theorem foldlM_eq_none_iff {α β : Type*} {f : α → β → Option α} {bad : β → Prop} (each : ∀ a b, f a b = none ↔ bad b)
    {a : α} {l : List β} : l.foldlM f a = none ↔ ∃ b ∈ l, bad b := by
  rw [foldlM_eq_none]
  constructor
  · rintro ⟨done, b, rest, c, rfl, -, here⟩
    exact ⟨b, by simp, (each c b).mp here⟩
  · intro some'
    by_contra never
    have goes : ∃ c, l.foldlM f a = some c := by
      rw [← Option.ne_none_iff_exists']
      exact fun failed => never (foldlM_eq_none.mp failed)
    obtain ⟨b, member, fails⟩ := some'
    obtain ⟨done, rest, rfl⟩ := List.append_of_mem member
    obtain ⟨c, whole⟩ := goes
    rw [List.foldlM_append] at whole
    obtain ⟨middle, before, -⟩ := Option.bind_eq_some_iff.mp whole
    exact never ⟨done, b, rest, middle, rfl, before, (each middle b).mpr fails⟩

end Pleiades.Lib
