import Mathlib.Data.List.Induction
import Pleiades.Lib.Table
import Pleiades.Network.ServiceLoop

/-!
# Responses of outbound requests

`Outbound_Manager`: whom it sends what, over any sequence of its calls.
-/
namespace Pleiades.Network

open Lib

structure NetworkData where
  dataType : DataType
  payload : List UInt8
  deriving DecidableEq

/-- What a waiter is sent. -/
abbrev Result := Except String NetworkData

/-- The senders that wait, and what has been sent through which one so far. -/
structure OutboundManager (Id Tx : Type) where
  pendingResponses : Table Id Tx := ∅
  sent : List (Tx × Result) := []

namespace OutboundManager

inductive Op (Id Tx : Type) where
  | registerOutbound (outboundId : Id) (responseTx : Tx)
  | routeResponse (outboundId : Id) (response : NetworkData)
  | routeFailure (outboundId : Id) (error : String)
  | clearAll

variable {Id Tx : Type} [DecidableEq Id] (m : OutboundManager Id Tx)

def registerOutbound (outboundId : Id) (responseTx : Tx) : OutboundManager Id Tx :=
  { m with pendingResponses := m.pendingResponses.insert outboundId responseTx }

/-- The sender of a request is taken out and gets the result. -/
def route (outboundId : Id) (result : Result) : OutboundManager Id Tx :=
  match m.pendingResponses.lookup outboundId with
  | some tx => ⟨m.pendingResponses.erase outboundId, m.sent ++ [(tx, result)]⟩
  | none => m

def routeResponse (outboundId : Id) (response : NetworkData) : OutboundManager Id Tx := m.route outboundId (.ok response)

def routeFailure (outboundId : Id) (error : String) : OutboundManager Id Tx := m.route outboundId (.error error)

def stopError : Result := .error "Network_Service stopped"

/-- All senders are drained, in the order of the map. -/
def clearAll : OutboundManager Id Tx := ⟨∅, m.sent ++ m.pendingResponses.entries.map fun e => (e.2, stopError)⟩

def apply : Op Id Tx → OutboundManager Id Tx
  | .registerOutbound outboundId responseTx => m.registerOutbound outboundId responseTx
  | .routeResponse outboundId response => m.routeResponse outboundId response
  | .routeFailure outboundId error => m.routeFailure outboundId error
  | .clearAll => m.clearAll

def run (ops : List (Op Id Tx)) : OutboundManager Id Tx := ops.foldl apply {}

/-- The results that were sent through a sender. -/
def received [DecidableEq Tx] (tx : Tx) : List Result := (m.sent.filter fun p => p.1 = tx).map Prod.snd

omit [DecidableEq Id] in
/-- The requests with their senders. -/
def registered (ops : List (Op Id Tx)) : List (Id × Tx) :=
  ops.filterMap fun
    | .registerOutbound outboundId responseTx => some (outboundId, responseTx)
    | _ => none

/-- The call sends the result to the waiter of the request. -/
def Op.Routes (outboundId : Id) (result : Result) : Op Id Tx → Prop
  | .routeResponse id response => id = outboundId ∧ result = .ok response
  | .routeFailure id error => id = outboundId ∧ result = .error error
  | .clearAll => result = stopError
  | .registerOutbound _ _ => False

/-- A call behind the registration of the request has this result for it. -/
def Routed (ops : List (Op Id Tx)) (outboundId : Id) (tx : Tx) (result : Result) : Prop :=
  ∃ before after, ops = before ++ .registerOutbound outboundId tx :: after ∧
    ∃ op ∈ after, op.Routes outboundId result

/-- Every request is registered under an id of its own and with a sender of its own. -/
structure Distinct (ops : List (Op Id Tx)) : Prop where
  ids : ((registered ops).map Prod.fst).Nodup
  senders : ((registered ops).map Prod.snd).Nodup

section Calls
omit [DecidableEq Id]
variable {ops ops' : List (Op Id Tx)} {id id' : Id} {tx tx' : Tx} {result : Result}

theorem mem_registered : (id, tx) ∈ registered ops ↔ .registerOutbound id tx ∈ ops := by
  rw [registered, List.mem_filterMap]
  constructor
  · intro member
    obtain ⟨op, member, same⟩ := member
    cases op with
    | registerOutbound id' tx' =>
        cases same
        exact member
    | routeResponse | routeFailure | clearAll => cases same
  · intro member
    exact ⟨_, member, rfl⟩

theorem registered_append (ops ops' : List (Op Id Tx)) : registered (ops ++ ops') = registered ops ++ registered ops' :=
  List.filterMap_append

theorem Distinct.front (distinct : Distinct (ops ++ ops')) : Distinct ops where
  ids := by
    have ids := distinct.ids
    rw [registered_append, List.map_append] at ids
    exact ids.of_append_left
  senders := by
    have senders := distinct.senders
    rw [registered_append, List.map_append] at senders
    exact senders.of_append_left

theorem Distinct.id_eq (distinct : Distinct ops) (first : (id, tx) ∈ registered ops)
    (second : (id', tx) ∈ registered ops) : id = id' :=
  congrArg Prod.fst (List.inj_on_of_nodup_map distinct.senders first second rfl)

theorem Distinct.sender_eq (distinct : Distinct ops) (first : (id, tx) ∈ registered ops)
    (second : (id, tx') ∈ registered ops) : tx = tx' :=
  congrArg Prod.snd (List.inj_on_of_nodup_map distinct.ids first second rfl)

theorem Distinct.fresh (distinct : Distinct (ops ++ [.registerOutbound id tx])) (old : (id', tx') ∈ registered ops) :
    id' ≠ id ∧ tx' ≠ tx := by
  have both : registered (ops ++ [.registerOutbound id tx]) = registered ops ++ [(id, tx)] := registered_append _ _
  have ids := distinct.ids
  have senders := distinct.senders
  rw [both, List.map_append, List.nodup_append] at ids senders
  constructor
  · exact ids.2.2 _ (List.mem_map_of_mem old) _ (List.mem_singleton_self id)
  · exact senders.2.2 _ (List.mem_map_of_mem old) _ (List.mem_singleton_self tx)

theorem Routed.append (routed : Routed ops id tx result) (ops' : List (Op Id Tx)) : Routed (ops ++ ops') id tx result := by
  obtain ⟨before, after, rfl, op, member, routes⟩ := routed
  exact ⟨before, after ++ ops', by simp, op, List.mem_append_left _ member, routes⟩

theorem routed_concat {op : Op Id Tx} (waits : (id, tx) ∈ registered ops) (routes : op.Routes id result) :
    Routed (ops ++ [op]) id tx result := by
  obtain ⟨before, after, rfl⟩ := List.append_of_mem (mem_registered.mp waits)
  exact ⟨before, after ++ [op], by simp, op, List.mem_append_right _ (List.mem_singleton_self op), routes⟩

end Calls

variable [DecidableEq Tx]

/-- Every waiter is still registered and has nothing, or is not and has one result. -/
structure Bookkept (ops : List (Op Id Tx)) (m : OutboundManager Id Tx) : Prop where
  pending : ∀ {id tx}, m.pendingResponses.lookup id = some tx → (id, tx) ∈ registered ops
  sent : ∀ p ∈ m.sent, ∃ id, (id, p.1) ∈ registered ops
  each : ∀ {id tx}, (id, tx) ∈ registered ops →
    m.pendingResponses.lookup id = some tx ∧ m.received tx = [] ∨
      m.pendingResponses.lookup id = none ∧ ∃ result, m.received tx = [result] ∧ Routed ops id tx result

section Steps
variable {m} {ops : List (Op Id Tx)} {id : Id} {tx : Tx} {result : Result}

omit [DecidableEq Id] in
theorem received_sent (pending : Table Id Tx) (more : List (Tx × Result)) (tx : Tx) :
    (⟨pending, m.sent ++ more⟩ : OutboundManager Id Tx).received tx =
      m.received tx ++ (more.filter fun p => p.1 = tx).map Prod.snd := by
  rw [received, received, List.filter_append, List.map_append]

omit [DecidableEq Id] in
/-- Every sender that is pending under some id gets the error. -/
theorem received_clearAll (tx : Tx) : m.clearAll.received tx =
    m.received tx ++ (m.pendingResponses.entries.filter fun e => e.2 = tx).map fun _ => stopError := by
  rw [clearAll, received_sent, List.filter_map, List.map_map]
  rfl

theorem bookkept_nil : Bookkept ([] : List (Op Id Tx)) {} where
  pending found := by cases found
  sent := by nofun
  each member := by cases member

theorem Bookkept.unsent (kept : Bookkept ops m) (fresh : ∀ id, (id, tx) ∉ registered ops) : m.received tx = [] := by
  rw [received, List.map_eq_nil_iff, List.filter_eq_nil_iff]
  intro p member same
  obtain ⟨id, old⟩ := kept.sent p member
  rw [of_decide_eq_true same] at old
  exact fresh id old

/-- A waiter that the next call leaves alone. -/
theorem Bookkept.still (kept : Bookkept ops m) (waits : (id, tx) ∈ registered ops) (op : Op Id Tx) :
    m.pendingResponses.lookup id = some tx ∧ m.received tx = [] ∨
      m.pendingResponses.lookup id = none ∧ ∃ result, m.received tx = [result] ∧ Routed (ops ++ [op]) id tx result := by
  rcases kept.each waits with waits | ⟨gone, result, got, routed⟩
  · exact .inl waits
  · exact .inr ⟨gone, result, got, routed.append _⟩

/-- A waiter that is still registered has nothing. -/
theorem Bookkept.nothing (kept : Bookkept ops m) (waits : m.pendingResponses.lookup id = some tx) : m.received tx = [] := by
  rcases kept.each (kept.pending waits) with ⟨-, nothing⟩ | ⟨gone, -⟩
  · exact nothing
  · cases waits.symm.trans gone

theorem Bookkept.received_route (kept : Bookkept ops m) (waits : m.pendingResponses.lookup id = some tx)
    (result : Result) : (m.route id result).received tx = [result] := by
  have all : ([(tx, result)].filter fun p => p.1 = tx) = [(tx, result)] :=
    List.filter_cons_of_pos (decide_eq_true rfl)
  unfold OutboundManager.route
  rw [waits]
  dsimp only
  rw [received_sent, kept.nothing waits, all]
  rfl

theorem Bookkept.received_stopped (kept : Bookkept ops m) (distinct : Distinct ops)
    (waits : m.pendingResponses.lookup id = some tx) : m.clearAll.received tx = [stopError] := by
  have only : m.pendingResponses.entries.filter (fun e => decide (e.2 = tx)) = [⟨id, tx⟩] := by
    apply Table.filter_entries_eq waits (decide_eq_true rfl)
    intro id' tx' other there
    refine decide_eq_false ?_
    rintro rfl
    exact other (distinct.id_eq (kept.pending there) (kept.pending waits))
  rw [received_clearAll, kept.nothing waits, only]
  rfl

theorem Bookkept.registerOutbound (kept : Bookkept ops m) (distinct : Distinct (ops ++ [.registerOutbound id tx])) :
    Bookkept (ops ++ [.registerOutbound id tx]) (m.registerOutbound id tx) := by
  have both : registered (ops ++ [.registerOutbound id tx]) = registered ops ++ [(id, tx)] := registered_append _ _
  refine ⟨?_, ?_, ?_⟩
  · intro id' tx' found
    rw [both, List.mem_append]
    rcases Table.lookup_insert_eq_some found with ⟨rfl, rfl⟩ | ⟨-, found⟩
    · exact .inr (List.mem_singleton_self _)
    · exact .inl (kept.pending found)
  · intro p member
    obtain ⟨id', old⟩ := kept.sent p member
    exact ⟨id', by rw [both]; exact List.mem_append_left _ old⟩
  · intro id' tx' member
    rw [both] at member
    rcases List.mem_append.mp member with old | new
    · have lookup : (m.registerOutbound id tx).pendingResponses.lookup id' = m.pendingResponses.lookup id' :=
        AList.lookup_insert_ne (distinct.fresh old).1
      rw [lookup]
      exact kept.still old _
    · cases List.mem_singleton.mp new
      have fresh : ∀ id', (id', tx) ∉ registered ops := fun id' old => (distinct.fresh old).2 rfl
      exact .inl ⟨AList.lookup_insert _, kept.unsent fresh⟩

theorem Bookkept.route {op : Op Id Tx} (kept : Bookkept ops m) (distinct : Distinct ops)
    (routes : op.Routes id result) (quiet : registered [op] = []) : Bookkept (ops ++ [op]) (m.route id result) := by
  have same : registered (ops ++ [op]) = registered ops := by rw [registered_append, quiet, List.append_nil]
  unfold OutboundManager.route
  cases found : m.pendingResponses.lookup id with
  | none =>
      refine ⟨?_, ?_, ?_⟩
      · intro id' tx' there
        exact same ▸ kept.pending there
      · rw [same]
        exact kept.sent
      · intro id' tx' member
        rw [same] at member
        exact kept.still member op
  | some tx =>
      have waits := kept.pending found
      refine ⟨?_, ?_, ?_⟩
      · intro id' tx' there
        exact same ▸ kept.pending (Table.lookup_of_erase there)
      · rw [same]
        refine List.forall_mem_append.mpr ⟨kept.sent, List.forall_mem_singleton.mpr ⟨id, waits⟩⟩
      · intro id' tx' member
        rw [same] at member
        by_cases own : id' = id
        · subst own
          obtain rfl := distinct.sender_eq waits member
          have got := kept.received_route found result
          unfold OutboundManager.route at got
          rw [found] at got
          exact .inr ⟨AList.lookup_erase _ _, result, got, routed_concat waits routes⟩
        · rw [received_sent]
          have other : tx ≠ tx' := by
            rintro rfl
            exact own (distinct.id_eq member waits)
          have nothing : ([(tx, result)].filter fun p => p.1 = tx') = [] :=
            List.filter_cons_of_neg (by rw [decide_eq_true_iff]; exact other)
          rw [nothing, List.map_nil, List.append_nil]
          dsimp only
          rw [AList.lookup_erase_ne own]
          exact kept.still member op

theorem Bookkept.clearAll (kept : Bookkept ops m) (distinct : Distinct ops) : Bookkept (ops ++ [.clearAll]) m.clearAll := by
  have same : registered (ops ++ [.clearAll]) = registered ops := by
    rw [registered_append]
    exact List.append_nil _
  refine ⟨fun found => ?_, ?_, ?_⟩
  · cases found
  · rw [same]
    refine List.forall_mem_append.mpr ⟨kept.sent, List.forall_mem_map.mpr fun e member => ?_⟩
    exact ⟨e.1, kept.pending (Table.lookup_eq_some_iff.mpr member)⟩
  · intro id tx member
    rw [same] at member
    right
    refine ⟨rfl, ?_⟩
    rcases kept.each member with ⟨waits, -⟩ | ⟨gone, result, got, routed⟩
    · exact ⟨stopError, kept.received_stopped distinct waits, routed_concat member rfl⟩
    · refine ⟨result, ?_, routed.append _⟩
      rw [received_clearAll]
      have none_left : m.pendingResponses.entries.filter (fun e => decide (e.2 = tx)) = [] := by
        rw [List.filter_eq_nil_iff]
        intro e there picked
        have waits := Table.lookup_eq_some_iff.mpr there
        rw [of_decide_eq_true picked] at waits
        rw [distinct.id_eq (kept.pending waits) member, gone] at waits
        cases waits
      rw [got, none_left]
      rfl

/-- A call that has no result for a waiter leaves it registered. -/
theorem still_registered {op : Op Id Tx} (kept : Bookkept ops m) (distinct : Distinct (ops ++ [op]))
    (waits : m.pendingResponses.lookup id = some tx) (quiet : ∀ result, ¬op.Routes id result) :
    (m.apply op).pendingResponses.lookup id = some tx := by
  have route (id' : Id) (result : Result) (other : id ≠ id') :
      (m.route id' result).pendingResponses.lookup id = some tx := by
    unfold OutboundManager.route
    split
    · rw [AList.lookup_erase_ne other]
      exact waits
    · exact waits
  cases op with
  | registerOutbound id' tx' =>
      have other := (distinct.fresh (kept.pending waits)).1
      exact (AList.lookup_insert_ne other).trans waits
  | routeResponse id' response => exact route id' _ fun same => quiet (.ok response) ⟨same.symm, rfl⟩
  | routeFailure id' error => exact route id' _ fun same => quiet (.error error) ⟨same.symm, rfl⟩
  | clearAll => exact absurd rfl (quiet stopError)

/-- A call that has a result for a waiter that is registered gives it this result. -/
theorem received_apply {op : Op Id Tx} (kept : Bookkept ops m) (distinct : Distinct ops)
    (waits : m.pendingResponses.lookup id = some tx) (routes : op.Routes id result) :
    (m.apply op).received tx = [result] := by
  cases op with
  | registerOutbound id' tx' => cases routes
  | routeResponse id' response =>
      obtain ⟨rfl, rfl⟩ := routes
      exact kept.received_route waits _
  | routeFailure id' error =>
      obtain ⟨rfl, rfl⟩ := routes
      exact kept.received_route waits _
  | clearAll =>
      cases routes
      exact kept.received_stopped distinct waits

end Steps

variable {ops : List (Op Id Tx)}

omit [DecidableEq Tx] in
theorem run_append (ops ops' : List (Op Id Tx)) : run (ops ++ ops') = ops'.foldl apply (run ops) := List.foldl_append

theorem bookkept_run (distinct : Distinct ops) : Bookkept ops (run ops) := by
  induction ops using List.reverseRecOn with
  | nil => exact bookkept_nil
  | append_singleton ops op ih =>
      have kept := ih distinct.front
      rw [run_append]
      cases op with
      | registerOutbound id tx => exact kept.registerOutbound distinct
      | routeResponse id response => exact kept.route distinct.front ⟨rfl, rfl⟩ rfl
      | routeFailure id error => exact kept.route distinct.front ⟨rfl, rfl⟩ rfl
      | clearAll => exact kept.clearAll distinct.front

/-- As long as no call has a result for a waiter, it stays registered. -/
theorem waits_run {before middle : List (Op Id Tx)} {id : Id} {tx : Tx}
    (distinct : Distinct (before ++ [.registerOutbound id tx] ++ middle))
    (quiet : ∀ other ∈ middle, ∀ result, ¬other.Routes id result) :
    (run (before ++ [.registerOutbound id tx] ++ middle)).pendingResponses.lookup id = some tx := by
  induction middle using List.reverseRecOn with
  | nil =>
      rw [List.append_nil, run_append]
      exact AList.lookup_insert _
  | append_singleton middle other ih =>
      obtain ⟨earlier, here⟩ := List.forall_mem_append.mp quiet
      rw [← List.append_assoc] at distinct ⊢
      rw [run_append]
      exact still_registered (bookkept_run distinct.front) distinct (ih distinct.front earlier)
        (here other (List.mem_singleton_self other))

omit [DecidableEq Tx] in
theorem sent_route (m : OutboundManager Id Tx) (id : Id) (result : Result) : m.sent <+: (m.route id result).sent := by
  unfold route
  split
  · exact List.prefix_append ..
  · exact List.prefix_refl _

omit [DecidableEq Tx] in
/-- What has been sent stays sent. -/
theorem sent_grows (m : OutboundManager Id Tx) (ops : List (Op Id Tx)) : m.sent <+: (ops.foldl apply m).sent := by
  induction ops generalizing m with
  | nil => exact List.prefix_refl _
  | cons op ops ih =>
      refine List.IsPrefix.trans ?_ (ih (m.apply op))
      cases op with
      | registerOutbound id tx => exact List.prefix_refl _
      | routeResponse id response | routeFailure id error => exact sent_route m id _
      | clearAll => exact List.prefix_append ..

/-- The first call behind its registration that has a result for a waiter gives it this result and nothing else. -/
theorem received_first (distinct : Distinct ops) {before middle after : List (Op Id Tx)} {op : Op Id Tx} {id : Id}
    {tx : Tx} {result : Result} (split : ops = before ++ .registerOutbound id tx :: (middle ++ op :: after))
    (quiet : ∀ other ∈ middle, ∀ result, ¬other.Routes id result) (routes : op.Routes id result) :
    (run ops).received tx = [result] := by
  have whole : ops = before ++ [.registerOutbound id tx] ++ middle ++ [op] ++ after := by simp [split]
  have earlier : Distinct (before ++ [.registerOutbound id tx] ++ middle) := (whole ▸ distinct).front.front
  have got : (run (before ++ [.registerOutbound id tx] ++ middle ++ [op])).received tx = [result] := by
    rw [run_append _ [op]]
    exact received_apply (bookkept_run earlier) earlier (waits_run earlier quiet) routes
  have grows : (run (before ++ [.registerOutbound id tx] ++ middle ++ [op])).received tx <+: (run ops).received tx := by
    rw [whole, run_append _ after]
    exact ((sent_grows _ after).filter _).map _
  have waits : (id, tx) ∈ registered ops := mem_registered.mpr (by simp [split])
  rw [got] at grows
  rcases (bookkept_run distinct).each waits with ⟨-, nothing⟩ | ⟨-, last, only, -⟩
  · rw [nothing] at grows
    cases List.prefix_nil.mp grows
  · rw [only] at grows ⊢
    rw [(List.cons_prefix_cons.mp grows).1]

/-- A waiter gets one result at most, one of its own request or the stop error, and exactly
one if everything is cleared after it has registered. The first result for it is what it gets. -/
theorem each_waiter_once (distinct : Distinct ops) : ∀ id tx, (id, tx) ∈ registered ops →
    ((run ops).received tx).length ≤ 1 ∧ (∀ result ∈ (run ops).received tx, Routed ops id tx result) ∧
      (∀ before after, ops = before ++ .clearAll :: after → (id, tx) ∈ registered before →
        ((run ops).received tx).length = 1) ∧
      ∀ before middle op after result, ops = before ++ .registerOutbound id tx :: (middle ++ op :: after) →
        (∀ other ∈ middle, ∀ result, ¬other.Routes id result) → op.Routes id result →
        (run ops).received tx = [result] := by
  intro id tx waits
  have each := (bookkept_run distinct).each waits
  refine ⟨?_, ?_, ?_, fun before middle op after result split => received_first distinct split⟩
  · rcases each with ⟨-, nothing⟩ | ⟨-, result, got, -⟩
    · rw [nothing]
      exact Nat.zero_le 1
    · rw [got]
      exact Nat.le_refl 1
  · intro result member
    rcases each with ⟨-, nothing⟩ | ⟨-, result', got, routed⟩
    · rw [nothing] at member
      cases member
    · rw [got] at member
      cases List.mem_singleton.mp member
      exact routed
  · intro before after split earlier
    have cleared : ops = (before ++ [.clearAll]) ++ after := by rw [split, List.append_assoc, List.singleton_append]
    have there : (id, tx) ∈ registered (before ++ [.clearAll]) := by
      rw [registered_append]
      exact List.mem_append_left _ earlier
    have empty : (run (before ++ [.clearAll])).pendingResponses.lookup id = none := by
      rw [run_append]
      rfl
    have got : (run (before ++ [.clearAll])).received tx ≠ [] := by
      rcases (bookkept_run (cleared ▸ distinct).front).each there with ⟨still, -⟩ | ⟨-, result, got, -⟩
      · cases empty.symm.trans still
      · rw [got]
        nofun
    have grows : (run (before ++ [.clearAll])).received tx <+: (run ops).received tx := by
      rw [cleared, run_append _ after]
      exact ((sent_grows _ after).filter _).map _
    rcases each with ⟨-, nothing⟩ | ⟨-, result, here, -⟩
    · rw [nothing] at grows
      exact absurd (List.prefix_nil.mp grows) got
    · rw [here]
      rfl

/-- Late, repeated and stray results, and a request that is stopped. -/
theorem each_waiter_once_stopped :
    let ops : List (Op ℕ ℕ) := [.registerOutbound 1 10, .registerOutbound 2 20, .routeResponse 1 ⟨.data, [0]⟩,
      .routeFailure 1 "late", .routeFailure 3 "stray", .clearAll, .clearAll]
    (run ops).received 10 = [.ok ⟨.data, [0]⟩] ∧ (run ops).received 20 = [stopError] ∧
    ∀ result ∈ (run ops).received 20, Routed ops 2 20 result := by
  intro ops
  have distinct : Distinct ops := ⟨by decide, by decide⟩
  have routed := (each_waiter_once distinct 1 10 (by decide)).2.2.2 [] [.registerOutbound 2 20]
    (.routeResponse 1 ⟨.data, [0]⟩) [.routeFailure 1 "late", .routeFailure 3 "stray", .clearAll, .clearAll] _ rfl
    (by simp [Op.Routes]) ⟨rfl, rfl⟩
  have stopped := (each_waiter_once distinct 2 20 (by decide)).2.2.2 [.registerOutbound 1 10]
    [.routeResponse 1 ⟨.data, [0]⟩, .routeFailure 1 "late", .routeFailure 3 "stray"] .clearAll [.clearAll] _ rfl
    (by simp [Op.Routes]) rfl
  exact ⟨routed, stopped, (each_waiter_once distinct 2 20 (by decide)).2.1⟩

end OutboundManager

end Pleiades.Network
