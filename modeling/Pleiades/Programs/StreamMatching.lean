import Pleiades.Programs.Cluster

/-!
# Pipelines that do not mix

Streams are matched by their id alone. They come from the upstream neighbour as long
as no two edges that still wait for their stream have the same node and the same id.
-/
namespace Pleiades.Programs

open Lib Network

variable {P : Type}

namespace Cluster

/-- Every stream a program has accepted was opened on its own edge of the chain. -/
def Unmixed (c : Cluster P) : Prop := ∀ e e', c.accepts e = some (.got e') → e' = e

/-- The program has ended, or is one that nobody starts any more. -/
def isOver (c : Cluster P) (e : Edge) : Bool :=
  c.programs e = .ended || c.programs e = .absent && c.programs (e.1, c.last e.1) = .ended

def storedAt (c : Cluster P) (e : Edge) : Bool :=
  (c.address e).any fun a => (c.maps a.1).pendingInbound.lookup a.2 = some e

def answered (c : Cluster P) (e : Edge) : Bool :=
  match c.accepts e with
  | none => c.isOver e
  | some .waiting => false
  | some _ => true

/-- Neither the stream of the edge nor its accept call can still be matched. -/
def closed (c : Cluster P) (e : Edge) : Bool :=
  (c.opened e || c.isOver (c.opener e)) && e ∉ c.flying && !c.storedAt e && c.answered e

def edges (c : Cluster P) : List Edge :=
  (List.range c.runs.length).flatMap fun run =>
    (List.range (c.last run + 1)).map fun position => (run, position)

variable [DecidableEq P] in
/-- A run starts with pairwise distinct workers, and where no earlier run with the same
session id has an edge that is still to be matched. -/
def startsApart (c : Cluster P) : ClusterAction P → Bool
  | .start run =>
    run.workers.Nodup && c.edges.all fun e =>
      (c.address e).all fun a => a.1 ∉ run.peers || a.2 ≠ run.sessionId || c.closed e
  | _ => true

variable {c c' : Cluster P}

theorem closed_iff {e : Edge} :
    c.closed e = true ↔ (c.opened e = true ∨ c.isOver (c.opener e) = true) ∧ e ∉ c.flying ∧
      c.storedAt e = false ∧ c.answered e = true := by
  simp [closed, and_assoc]

theorem over_iff {e : Edge} :
    c.isOver e = true ↔ c.programs e = .ended ∨ c.programs e = .absent ∧ c.programs (e.1, c.last e.1) = .ended := by
  simp [isOver]

theorem over_running {e : Edge} (running : c.programs e = .running) : c.isOver e = false := by
  simp [isOver, running]

theorem not_closed_flying {e : Edge} (member : e ∈ c.flying) : c.closed e = false :=
  Bool.eq_false_iff.mpr fun closed => (closed_iff.mp closed).2.1 member

theorem not_closed_waiting {e : Edge} (waits : c.accepts e = some .waiting) : c.closed e = false := by
  simp [closed, answered, waits]

theorem not_closed_running {e : Edge} (running : c.programs e = .running) (uncalled : c.accepts e = none) :
    c.closed e = false := by
  simp [closed, answered, uncalled, over_running running]

theorem not_closed_stored {e : Edge} {peer : P} {id : ℕ} (here : c.address e = some (peer, id))
    (found : (c.maps peer).pendingInbound.lookup id = some e) : c.closed e = false := by
  simp [closed, storedAt, here, found]

theorem not_closed_unopened {e : Edge} (unopened : c.opened e = false)
    (running : c.programs (c.opener e) = .running) : c.closed e = false := by
  simp [closed, unopened, over_running running]

/-- The maps hold what is on its way to be matched, under its address. -/
structure Tracked (c : Cluster P) : Prop where
  flying : ∀ e ∈ c.flying, c.opened e = true
  stored : ∀ peer id e, (c.maps peer).pendingInbound.lookup id = some e → c.address e = some (peer, id)
  waiting : ∀ peer id e, (c.maps peer).pendingAccept.lookup id = some e → c.address e = some (peer, id)
  single : ∀ e e' a, c.address e = some a → c.address e' = some a →
    c.closed e = false → c.closed e' = false → e = e'
  unmixed : c.Unmixed

theorem Tracked.init : Tracked (init : Cluster P) := by
  constructor
  · intro e member
    cases member
  · intro peer id e found
    cases found
  · intro peer id e found
    cases found
  · intro e e' a here
    cases here
  · intro e e' got
    cases got

/-- `c'` comes after `c`, with the same runs: what is over stays so. -/
structure Onward (c c' : Cluster P) : Prop where
  runs : c'.runs = c.runs
  closed : ∀ e, (c.address e).isSome → c.closed e = true → c'.closed e = true

namespace Onward

theorem address (onward : Onward c c') (e : Edge) : c'.address e = c.address e := by
  rw [Cluster.address, Cluster.address, onward.runs]

/-- Edges that are still to be matched were so before. -/
theorem single (onward : Onward c c') (tracked : Tracked c) (e e' : Edge) (a : P × ℕ)
    (here : c'.address e = some a) (here' : c'.address e' = some a)
    (opened : c'.closed e = false) (opened' : c'.closed e' = false) : e = e' := by
  rw [onward.address] at here here'
  have before {e : Edge} (here : c.address e = some a) (opened : c'.closed e = false) :
      c.closed e = false := by
    cases closed : c.closed e with
    | false => rfl
    | true =>
        rw [onward.closed e (by rw [here]; rfl) closed] at opened
        cases opened
  exact tracked.single e e' a here here' (before here opened) (before here' opened')

/-- What may change about an edge that is over and what may not. -/
theorem of_parts (runs : c'.runs = c.runs) (past : ∀ e, c.isOver e = true → c'.isOver e = true)
    (opened : ∀ e, c.opened e = true → c'.opened e = true)
    (flying : ∀ e ∈ c'.flying, e ∈ c.flying ∨ c.closed e = false)
    (stored : ∀ e, c'.storedAt e = true → c.storedAt e = true ∨ c.closed e = false)
    (accepts : ∀ e, c'.accepts e = c.accepts e ∨ c.closed e = false ∨ c'.answered e = true) :
    Onward c c' := by
  refine ⟨runs, ?_⟩
  intro e _ closed
  have parts := closed_iff.mp closed
  obtain ⟨begun, landed, unstored, answered⟩ := parts
  refine closed_iff.mpr ⟨?_, ?_, ?_, ?_⟩
  · have same : c'.opener e = c.opener e := by simp only [opener, last, runs]
    rw [same]
    exact begun.imp (opened e) (past _)
  · intro member
    rcases flying e member with before | opened
    · exact landed before
    · rw [closed] at opened
      cases opened
  · cases there : c'.storedAt e with
    | false => rfl
    | true =>
        rcases stored e there with before | opened
        · rw [before] at unstored
          cases unstored
        · rw [closed] at opened
          cases opened
  · rcases accepts e with same | opened | now
    · rw [Cluster.answered] at answered ⊢
      rw [same]
      split
      · rename_i uncalled
        rw [uncalled] at answered
        exact past e answered
      · rename_i waits
        rw [waits] at answered
        cases answered
      · rfl
    · rw [closed] at opened
      cases opened
    · exact now

theorem over_of_ends (runs : c'.runs = c.runs)
    (programs : ∀ e, c'.programs e = c.programs e ∨ c'.programs e = .ended) (e : Edge)
    (before : c.isOver e = true) : c'.isOver e = true := by
  have last (run : ℕ) : c'.last run = c.last run := by simp only [Cluster.last, runs]
  rw [over_iff] at before ⊢
  rw [last]
  rcases programs e with same | ended
  · rw [same]
    rcases before with ended | ⟨absent, ended⟩
    · exact .inl ended
    · refine .inr ⟨absent, ?_⟩
      rcases programs (e.1, c.last e.1) with same | now
      · rw [same]
        exact ended
      · exact now
  · exact .inl ended

end Onward

theorem fail_spec (c : Cluster P) (e : Edge) :
    (c.fail e).runs = c.runs ∧ (c.fail e).opened = c.opened ∧ (c.fail e).flying = c.flying ∧
      (c.fail e).maps = c.maps ∧
      (∀ e', (c.fail e).programs e' = c.programs e' ∨ (c.fail e).programs e' = .ended) ∧
      ∀ e', (c.fail e).accepts e' = c.accepts e' ∨ (c.fail e).accepts e' = some .failed := by
  rw [fail]
  split
  · refine ⟨rfl, rfl, rfl, rfl, ?_, ?_⟩ <;> intro e'
    · by_cases here : e' = e
      · exact .inr (by simp [here])
      · exact .inl (Function.update_of_ne here _ _)
    · by_cases here : e' = e
      · exact .inr (by simp [here])
      · exact .inl (Function.update_of_ne here _ _)
  · exact ⟨rfl, rfl, rfl, rfl, fun _ => .inl rfl, fun _ => .inl rfl⟩

/-- A failing call leaves the maps alone. -/
theorem Tracked.fail (tracked : Tracked c) (e : Edge) : Tracked (c.fail e) ∧ Onward c (c.fail e) := by
  obtain ⟨runs, opened, flying, maps, programs, accepts⟩ := c.fail_spec e
  have onward : Onward c (c.fail e) := by
    apply Onward.of_parts runs (Onward.over_of_ends runs programs)
    · intro e' before
      rw [opened]
      exact before
    · intro e' member
      rw [flying] at member
      exact .inl member
    · intro e' there
      rw [storedAt, Cluster.address, runs, maps] at there
      exact .inl there
    · intro e'
      rcases accepts e' with same | failed
      · exact .inl same
      · exact .inr (.inr (by rw [answered, failed]))
  refine ⟨⟨?_, ?_, ?_, onward.single tracked, ?_⟩, onward⟩
  · rw [flying, opened]
    exact tracked.flying
  · intro peer id e'
    rw [maps, onward.address]
    exact tracked.stored peer id e'
  · intro peer id e'
    rw [maps, onward.address]
    exact tracked.waiting peer id e'
  · intro e' e'' got
    rcases accepts e' with same | failed
    · rw [same] at got
      exact tracked.unmixed e' e'' got
    · rw [failed] at got
      cases got

theorem address_spec {e : Edge} {peer : P} {id : ℕ} (here : c.address e = some (peer, id)) :
    ∃ run, c.runs[e.1]? = some run ∧ run.peers[e.2]? = some peer ∧ run.sessionId = id := by
  simpa [address, Option.bind_eq_some_iff, Option.map_eq_some_iff] using here

theorem mem_edges {e : Edge} {a : P × ℕ} (here : c.address e = some a) : e ∈ c.edges := by
  obtain ⟨run, found, placed, -⟩ := address_spec here
  have small := (List.getElem?_eq_some_iff.mp found).1
  have short := (List.getElem?_eq_some_iff.mp placed).1
  rw [PipelineRun.peers, List.length_append, List.length_singleton] at short
  simp only [edges, List.mem_flatMap, List.mem_map, List.mem_range]
  refine ⟨e.1, small, e.2, ?_, rfl⟩
  rw [last, found]
  exact short

/-- One call gets an answer. -/
theorem answers_update {e : Edge} {phase : AcceptPhase Edge} (unmatched : c.closed e = false)
    (own : phase = .waiting ∨ phase = .got e) (e' : Edge) :
    Function.update c.accepts e (some phase) e' = c.accepts e' ∨ c.closed e' = false ∧
      (Function.update c.accepts e (some phase) e' = some .waiting ∨
        Function.update c.accepts e (some phase) e' = some (.got e')) := by
  by_cases same : e' = e
  · subst same
    rw [Function.update_self]
    exact .inr ⟨unmatched, own.imp (congrArg some) (congrArg some)⟩
  · exact .inl (Function.update_of_ne same _ _)

/-- The cluster in which a run has just been started. -/
def started (c : Cluster P) (run : PipelineRun P) : Cluster P :=
  { c with
    runs := c.runs ++ [run]
    programs := Function.update c.programs (c.runs.length, run.workers.length) .running }

section Started

variable {run : PipelineRun P} {e : Edge} {a : P × ℕ}

theorem run_of_address (here : c.address e = some a) : e.1 < c.runs.length := by
  obtain ⟨run, found, -⟩ := address_spec here
  exact (List.getElem?_eq_some_iff.mp found).1

theorem runs_started {k : ℕ} (small : k < c.runs.length) : (c.started run).runs[k]? = c.runs[k]? :=
  List.getElem?_append_left small

theorem address_started (small : e.1 < c.runs.length) : (c.started run).address e = c.address e := by
  rw [address, address, runs_started small]

theorem address_started_new (here : (c.started run).address e = some a) (large : ¬ e.1 < c.runs.length) :
    e.1 = c.runs.length ∧ run.peers[e.2]? = some a.1 ∧ run.sessionId = a.2 := by
  obtain ⟨r, found, placed, sid⟩ := address_spec here
  rw [started, List.getElem?_append_right (Nat.not_lt.mp large), List.getElem?_singleton] at found
  split at found
  · cases found
    exact ⟨by omega, placed, sid⟩
  · cases found

/-- The earlier runs are not touched. -/
theorem closed_started (small : e.1 < c.runs.length) : (c.started run).closed e = c.closed e := by
  have last : (c.started run).last e.1 = c.last e.1 := by rw [Cluster.last, Cluster.last, runs_started small]
  have programs (place : ℕ) : (c.started run).programs (e.1, place) = c.programs (e.1, place) := by
    apply Function.update_of_ne
    intro same
    rw [Prod.mk.injEq] at same
    omega
  have past (place : ℕ) : (c.started run).isOver (e.1, place) = c.isOver (e.1, place) := by
    simp only [isOver, programs, last]
  have opens : (c.started run).isOver ((c.started run).opener e) = c.isOver (c.opener e) := by
    simp only [opener, last]
    split <;> exact past _
  have answers : (c.started run).answered e = c.answered e := by
    simp only [answered]
    rw [past e.2]
    rfl
  have stores : (c.started run).storedAt e = c.storedAt e := by
    simp only [storedAt, address_started small]
    rfl
  simp only [closed, opens, answers, stores]
  rfl

/-- An edge at a place of the new run has been matched. -/
theorem closed_of_apart [DecidableEq P] (apart : c.startsApart (.start run) = true) {e' : Edge}
    (here : (c.started run).address e = some a) (here' : (c.started run).address e' = some a)
    (small : e.1 < c.runs.length) (large : ¬ e'.1 < c.runs.length) : (c.started run).closed e = true := by
  simp only [startsApart, Bool.and_eq_true, List.all_eq_true] at apart
  obtain ⟨-, placed, sid⟩ := address_started_new here' large
  rw [address_started small] at here
  have known := apart.2 e (mem_edges here)
  simp only [here, Option.all_some, Bool.or_eq_true, decide_eq_true_eq, sid,
    List.mem_of_getElem? placed, not_true, ne_eq, false_or] at known
  rw [closed_started small]
  exact known

end Started

namespace Tracked

variable [DecidableEq P]

/-- The edges of a new run are apart from one another and from those still to be matched. -/
theorem start {run : PipelineRun P} (tracked : Tracked c) (apart : c.startsApart (.start run) = true)
    (h : c.step (.start run) = some c') : Tracked c' := by
  simp only [Cluster.step] at h
  split at h
  · rename_i guard
    cases h
    have peers : run.peers.Nodup := by
      simp only [startsApart, Bool.and_eq_true, decide_eq_true_eq] at apart
      rw [PipelineRun.peers, List.nodup_append]
      refine ⟨apart.1, List.nodup_singleton _, ?_⟩
      intro worker member coordinator last same
      rw [List.mem_singleton.mp last] at same
      exact guard.2.1 (same ▸ member)
    have kept {e : Edge} {a : P × ℕ} (here : c.address e = some a) : (c.started run).address e = some a := by
      rw [address_started (run_of_address here), here]
    refine ⟨tracked.flying, fun peer id e found => kept (tracked.stored peer id e found),
      fun peer id e found => kept (tracked.waiting peer id e found), ?_, tracked.unmixed⟩
    change ∀ e e' a, (c.started run).address e = some a → (c.started run).address e' = some a →
      (c.started run).closed e = false → (c.started run).closed e' = false → e = e'
    intro e e' a here here' opened opened'
    by_cases small : e.1 < c.runs.length
    · by_cases small' : e'.1 < c.runs.length
      · rw [address_started small] at here
        rw [address_started small'] at here'
        rw [closed_started small] at opened
        rw [closed_started small'] at opened'
        exact tracked.single e e' a here here' opened opened'
      · have gone := closed_of_apart apart here here' small small'
        rw [opened] at gone
        cases gone
    · by_cases small' : e'.1 < c.runs.length
      · have gone := closed_of_apart apart here' here small' small
        rw [opened'] at gone
        cases gone
      · obtain ⟨first, placed, -⟩ := address_started_new here small
        obtain ⟨first', placed', -⟩ := address_started_new here' small'
        have same : e.2 = e'.2 :=
          (List.getElem?_inj (List.getElem?_eq_some_iff.mp placed).1 peers).mp (placed.trans placed'.symm)
        exact Prod.ext (first.trans first'.symm) same
  · cases h

theorem dispatch {run worker : ℕ} (tracked : Tracked c)
    (h : c.step (.dispatch run worker) = some c') : Tracked c' := by
  simp only [Cluster.step] at h
  split at h
  · rename_i guard
    obtain ⟨small, coordinator, -, absent⟩ := guard
    cases h
    have onward : Onward c { c with
        programs := Function.update c.programs (run, worker) .running } := by
      refine Onward.of_parts rfl ?_ (fun _ opened => opened) (fun _ member => .inl member)
        (fun _ there => .inl there) (fun _ => .inl rfl)
      intro e before
      rw [over_iff] at before ⊢
      have placed : (e.1, c.last e.1) ≠ (run, worker) := by
        intro same
        rw [Prod.mk.injEq] at same
        obtain ⟨rfl, same⟩ := same
        omega
      have other : e ≠ (run, worker) := by
        rintro rfl
        rcases before with ended | ⟨-, ended⟩
        · rw [absent] at ended
          cases ended
        · rw [coordinator] at ended
          cases ended
      change Function.update c.programs (run, worker) .running e = .ended ∨
        Function.update c.programs (run, worker) .running e = .absent ∧
          Function.update c.programs (run, worker) .running (e.1, c.last e.1) = .ended
      rw [Function.update_of_ne other, Function.update_of_ne placed]
      exact before
    exact ⟨tracked.flying, tracked.stored, tracked.waiting, onward.single tracked, tracked.unmixed⟩
  · cases h

theorem openStream {e : Edge} (tracked : Tracked c) (h : c.step (.openStream e) = some c') :
    Tracked c' := by
  simp only [Cluster.step] at h
  split at h
  · rename_i guard
    obtain ⟨-, unopened, ready⟩ := guard
    cases h
    rw [readyToOpen, Bool.and_eq_true, decide_eq_true_eq] at ready
    have fresh : c.closed e = false := not_closed_unopened unopened ready.1
    have opens (e' : Edge) (before : c.opened e' = true) : Function.update c.opened e true e' = true := by
      by_cases here : e' = e
      · rw [here, Function.update_self]
      · rw [Function.update_of_ne here]
        exact before
    have onward : Onward c { c with opened := Function.update c.opened e true, flying := c.flying ++ [e] } := by
      refine Onward.of_parts rfl (fun _ past => past) opens ?_ (fun _ there => .inl there) (fun _ => .inl rfl)
      intro e' member
      rcases List.mem_append.mp member with before | new
      · exact .inl before
      · rw [List.mem_singleton.mp new]
        exact .inr fresh
    refine ⟨?_, tracked.stored, tracked.waiting, onward.single tracked, tracked.unmixed⟩
    intro e' member
    rcases List.mem_append.mp member with before | new
    · exact opens e' (tracked.flying e' before)
    · rw [List.mem_singleton.mp new]
      exact Function.update_self _ _ _
  · cases h

/-- The map of one node, the streams on their way and one accept call change at once: what
the map now holds came from its own address, and only an edge still to be matched gets an
answer. -/
theorem exchange {flying : List Edge} {peer : P} {map : RendezvousMap Edge Edge Empty}
    {accepts : Edge → Option (AcceptPhase Edge)} (tracked : Tracked c)
    (flew : ∀ e ∈ flying, e ∈ c.flying)
    (stored : ∀ id e, map.pendingInbound.lookup id = some e →
      (c.maps peer).pendingInbound.lookup id = some e ∨
        c.address e = some (peer, id) ∧ c.closed e = false)
    (waiting : ∀ id e, map.pendingAccept.lookup id = some e →
      (c.maps peer).pendingAccept.lookup id = some e ∨ c.address e = some (peer, id))
    (answers : ∀ e, accepts e = c.accepts e ∨
      c.closed e = false ∧ (accepts e = some .waiting ∨ accepts e = some (.got e))) :
    Tracked { c with flying, maps := Function.update c.maps peer map, accepts } := by
  have inbound {peer' : P} {id : ℕ} {e : Edge}
      (found : (Function.update c.maps peer map peer').pendingInbound.lookup id = some e) :
      (c.maps peer').pendingInbound.lookup id = some e ∨
        c.address e = some (peer', id) ∧ c.closed e = false := by
    by_cases same : peer' = peer
    · subst same
      rw [Function.update_self] at found
      exact stored id e found
    · rw [Function.update_of_ne same] at found
      exact .inl found
  have onward : Onward c { c with flying, maps := Function.update c.maps peer map, accepts } := by
    refine Onward.of_parts rfl (fun _ past => past) (fun _ opened => opened)
      (fun e member => .inl (flew e member)) ?_ ?_
    · intro e there
      simp only [storedAt, Option.any_eq_true, decide_eq_true_eq] at there ⊢
      obtain ⟨a, placed, found⟩ := there
      rcases inbound found with before | ⟨-, unmatched⟩
      · exact .inl ⟨a, placed, before⟩
      · exact .inr unmatched
    · intro e
      rcases answers e with same | ⟨unmatched, -⟩
      · exact .inl same
      · exact .inr (.inl unmatched)
  refine ⟨fun e member => tracked.flying e (flew e member), ?_, ?_, onward.single tracked, ?_⟩
  · intro peer' id e found
    rcases inbound found with before | ⟨placed, -⟩
    · exact tracked.stored peer' id e before
    · exact placed
  · intro peer' id e found
    dsimp only at found
    by_cases same : peer' = peer
    · subst same
      rw [Function.update_self] at found
      rcases waiting id e found with before | placed
      · exact tracked.waiting peer' id e before
      · exact placed
    · rw [Function.update_of_ne same] at found
      exact tracked.waiting peer' id e found
  · intro e e' got
    dsimp only at got
    rcases answers e with same | ⟨-, waits | own⟩
    · rw [same] at got
      exact tracked.unmixed e e' got
    · rw [waits] at got
      cases got
    · rw [own] at got
      cases got
      rfl

/-- A stream comes to the map of its node; there it is stored, or sent to the one call
that waits for it. -/
theorem arrive {i : ℕ} (tracked : Tracked c) (h : c.step (.arrive i) = some c') : Tracked c' := by
  simp only [Cluster.step] at h
  split at h
  · cases h
  · rename_i e peer id found
    obtain ⟨e', flew, placed⟩ := Option.bind_eq_some_iff.mp found
    obtain ⟨a, here, same⟩ := Option.map_eq_some_iff.mp placed
    cases same
    have landing : c.closed e = false := not_closed_flying (List.mem_of_getElem? flew)
    have flying (e' : Edge) (member : e' ∈ c.flying.eraseIdx i) : e' ∈ c.flying :=
      List.mem_of_mem_eraseIdx member
    have silent : (c.maps peer).notifiers.lookup id = none := by
      cases heard : (c.maps peer).notifiers.lookup id with
      | none => rfl
      | some tx => cases tx
    unfold RendezvousMap.insertInbound at h
    cases waited : (c.maps peer).pendingAccept.lookup id with
    | some tx =>
        simp only [silent, waited] at h
        cases h
        apply tracked.exchange flying
        · intro id' e' found
          exact .inl found
        · intro id' e' found
          exact .inl (Table.lookup_of_erase found)
        · intro e'
          split
          · rename_i waits
            have unmatched := not_closed_waiting waits
            have meets : e = tx :=
              tracked.single e tx _ here (tracked.waiting peer id tx waited) landing unmatched
            exact answers_update unmatched (.inr (meets ▸ rfl)) e'
          · exact .inl rfl
    | none =>
        simp only [silent, waited] at h
        cases h
        apply tracked.exchange flying
        · intro id' e' found
          rcases Table.lookup_insert_eq_some found with ⟨rfl, rfl⟩ | ⟨-, found⟩
          · exact .inr ⟨here, landing⟩
          · exact .inl found
        · intro id' e' found
          exact .inl found
        · exact fun e' => .inl rfl

/-- A program takes the stream that is stored under its address. -/
theorem take {e stream : Edge} {peer : P} {id : ℕ} (tracked : Tracked c)
    (here : c.address e = some (peer, id)) (calling : c.closed e = false)
    (found : (c.maps peer).pendingInbound.lookup id = some stream) :
    Tracked { c with
      maps := Function.update c.maps peer { c.maps peer with
        pendingInbound := (c.maps peer).pendingInbound.erase id }
      accepts := Function.update c.accepts e (some (.got stream)) } := by
  have there := tracked.stored peer id stream found
  have meets : stream = e :=
    tracked.single stream e _ there here (not_closed_stored there found) calling
  apply tracked.exchange
  · exact fun e' member => member
  · intro id' e' found
    exact .inl (Table.lookup_of_erase found)
  · intro id' e' found
    exact .inl found
  · exact answers_update calling (.inr (congrArg _ meets))

/-- A program waits under its address. -/
theorem wait {e : Edge} {peer : P} {id : ℕ} (tracked : Tracked c)
    (here : c.address e = some (peer, id)) (calling : c.closed e = false) :
    Tracked { c with
      maps := Function.update c.maps peer { c.maps peer with
        pendingAccept := (c.maps peer).pendingAccept.insert id e }
      accepts := Function.update c.accepts e (some .waiting) } := by
  apply tracked.exchange
  · exact fun e' member => member
  · intro id' e' found
    exact .inl found
  · intro id' e' found
    rcases Table.lookup_insert_eq_some found with ⟨rfl, rfl⟩ | ⟨-, found⟩
    · exact .inr here
    · exact .inl found
  · exact answers_update calling (.inl rfl)

theorem accept {e : Edge} (tracked : Tracked c) (h : c.step (.accept e) = some c') : Tracked c' := by
  simp only [Cluster.step] at h
  split at h
  · cases h
  · rename_i peer id here
    split at h
    · rename_i guard
      obtain ⟨uncalled, ready⟩ := guard
      rw [readyToAccept, Bool.and_eq_true, decide_eq_true_eq] at ready
      have calling := not_closed_running ready.1 uncalled
      unfold RendezvousMap.registerAccept at h
      cases found : (c.maps peer).pendingInbound.lookup id with
      | some stream =>
          simp only [found] at h
          cases h
          exact tracked.take here calling found
      | none =>
          simp only [found] at h
          cases dropped : (c.maps peer).pendingAccept.lookup id with
          | none =>
              rw [dropped] at h
              cases h
              exact tracked.wait here calling
          | some tx =>
              rw [dropped] at h
              cases h
              obtain ⟨failed, onward⟩ := tracked.fail tx
              have still : (c.fail tx).closed e = false := by
                -- the call that is dropped is another one
                rw [Cluster.fail]
                split
                · rename_i waits
                  have other : e ≠ tx := by
                    rintro rfl
                    rw [uncalled] at waits
                    cases waits
                  apply not_closed_running
                  · exact (Function.update_of_ne other _ _).trans ready.1
                  · exact (Function.update_of_ne other _ _).trans uncalled
                · exact calling
              have there : (c.fail tx).address e = some (peer, id) := (onward.address e).trans here
              have maps := (c.fail_spec tx).2.2.2.1
              have waited := failed.wait there still
              rw [maps] at waited
              simpa only [Option.elim_some, maps] using waited
    · cases h

theorem quit {e : Edge} (tracked : Tracked c) (h : c.step (.quit e) = some c') : Tracked c' := by
  simp only [Cluster.step] at h
  split at h
  · cases h
    obtain ⟨failed, -⟩ := tracked.fail e
    have onward : Onward (c.fail e) { c.fail e with
        programs := Function.update (c.fail e).programs e .ended } := by
      refine Onward.of_parts rfl (Onward.over_of_ends rfl ?_) (fun _ opened => opened)
        (fun _ member => .inl member) (fun _ there => .inl there) (fun _ => .inl rfl)
      intro e'
      by_cases same : e' = e
      · exact .inr (by simp [same])
      · exact .inl (Function.update_of_ne same _ _)
    exact ⟨failed.flying, failed.stored, failed.waiting, onward.single failed, failed.unmixed⟩
  · cases h

theorem step {a : ClusterAction P} (tracked : Tracked c) (apart : c.startsApart a = true)
    (h : c.step a = some c') : Tracked c' := by
  cases a with
  | createSession peer =>
      cases h
      exact ⟨tracked.flying, tracked.stored, tracked.waiting, tracked.single, tracked.unmixed⟩
  | start run => exact tracked.start apart h
  | dispatch run worker => exact tracked.dispatch h
  | openStream e => exact tracked.openStream h
  | arrive i => exact tracked.arrive h
  | accept e => exact tracked.accept h
  | timeout e =>
      simp only [Cluster.step] at h
      split at h
      · cases h
        exact (tracked.fail e).1
      · cases h
  | quit e => exact tracked.quit h

end Tracked

/-- Pipelines do not mix as long as each of them starts apart from those that are still
under way. -/
theorem pipelines_unmixed [DecidableEq P] {tr : List (Cluster P × ClusterAction P)} {c : Cluster P}
    (run : Run step init tr c) (apart : ∀ p ∈ tr, p.1.startsApart p.2 = true) : c.Unmixed := by
  have tracked : Tracked c :=
    run.invariant (C := fun c a => c.startsApart a = true) apart Tracked.init
      fun tracked apart h => tracked.step apart h
  exact tracked.unmixed

/-- Two coordinators use one worker with different ids; then the second one uses the id
of the first, whose streams have been accepted. -/
def apartActions : List (ClusterAction ℕ) :=
  [.createSession 0, .createSession 1, .createSession 1, .start ⟨0, [2], 1⟩, .dispatch 0 0,
    .start ⟨1, [2], 2⟩, .dispatch 1 0, .openStream (0, 0), .openStream (1, 0), .arrive 1, .arrive 0,
    .accept (0, 0), .accept (1, 0), .openStream (0, 1), .accept (0, 1), .arrive 0,
    .start ⟨1, [2], 1⟩, .dispatch 2 0, .accept (2, 0), .openStream (2, 0), .arrive 0]

theorem pipelines_unmixed_apart :
    ∃ c, exec (step (P := ℕ)) init apartActions = some c ∧ c.accepts (2, 0) = some (.got (2, 0)) ∧
      c.Unmixed := by
  have runs : (exec step init apartActions).map (fun c => c.accepts (2, 0)) =
      some (some (.got (2, 0))) := by decide +kernel
  have apart : (trace step init apartActions).all (fun p => p.1.startsApart p.2) = true := by
    decide +kernel
  obtain ⟨c, done, final⟩ := Option.map_eq_some_iff.mp runs
  exact ⟨c, done, final, pipelines_unmixed (exec_run done) (List.all_eq_true.mp apart)⟩

/-- Each coordinator calls its first session 1. The stream of the second one is sent to the
worker program of the first. -/
theorem pipelines_unmixed_counterexample :
    ∃ tr c, Run (step (P := ℕ)) init tr c ∧ ¬ c.Unmixed := by
  have runs : (exec (step (P := ℕ)) init [.createSession 0, .createSession 1, .start ⟨0, [2], 1⟩,
      .dispatch 0 0, .start ⟨1, [2], 1⟩, .dispatch 1 0, .accept (0, 0), .openStream (1, 0),
      .arrive 0]).map (fun c => c.accepts (0, 0)) = some (some (.got (1, 0))) := by decide +kernel
  obtain ⟨c, done, final⟩ := Option.map_eq_some_iff.mp runs
  refine ⟨_, c, exec_run done, ?_⟩
  intro unmixed
  have same := unmixed (0, 0) (1, 0) final
  cases same

end Cluster

end Pleiades.Programs
