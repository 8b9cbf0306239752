import Pleiades.Network.Rendezvous
import Mathlib.Logic.Function.Basic

/-!
# Pipelines of a cluster

The set-up of pipelines on the nodes of a cluster: dispatch, opening, arrival and
acceptance of the tensor streams, with one rendezvous per node and session ids that
each node counts by itself.
-/
namespace Pleiades.Programs

open Lib Network

/-- A run of `pipeline_coord` with the workers it has found. -/
structure PipelineRun (P : Type) where
  coordinator : P
  workers : List P
  sessionId : ℕ
  deriving DecidableEq

/-- A place in the chain of a run, by the number of the run. It stands for the stream
that ends there and for the program that accepts it: a worker, or at last the coordinator. -/
abbrev Edge := ℕ × ℕ

inductive ProgramPhase where
  | absent
  | running
  | ended
  deriving DecidableEq, Repr

/-- Streams and accept calls are known by their edges; no program registers a notifier. -/
structure Cluster (P : Type) where
  counters : P → ℕ
  runs : List (PipelineRun P)
  programs : Edge → ProgramPhase
  opened : Edge → Bool
  flying : List Edge
  maps : P → RendezvousMap Edge Edge Empty
  accepts : Edge → Option (AcceptPhase Edge)

inductive ClusterAction (P : Type) where
  | createSession (peer : P)
  | start (run : PipelineRun P)
  | dispatch (run worker : ℕ)
  | openStream (e : Edge)
  | arrive (i : ℕ)
  | accept (e : Edge)
  | timeout (e : Edge)
  | quit (e : Edge)

/-- The nodes on which the streams of a run end. -/
def PipelineRun.peers {P : Type} (run : PipelineRun P) : List P := run.workers ++ [run.coordinator]

namespace Cluster

variable {P : Type} [DecidableEq P]

def init : Cluster P where
  counters := fun _ => 1
  runs := []
  programs := fun _ => .absent
  opened := fun _ => false
  flying := []
  maps := fun _ => {}
  accepts := fun _ => none

variable (c : Cluster P)

/-- The node on which a stream ends, and its id there. -/
def address (e : Edge) : Option (P × ℕ) :=
  c.runs[e.1]?.bind fun run => run.peers[e.2]?.map fun peer => (peer, run.sessionId)

/-- The place of the coordinator, behind its workers. -/
def last (run : ℕ) : ℕ := c.runs[run]?.elim 0 fun run => run.workers.length

/-- The program that opens a stream: the upstream neighbour. -/
def opener (e : Edge) : Edge := if e.2 = 0 then (e.1, c.last e.1) else (e.1, e.2 - 1)

/-- The opener has come to its `open_tensor_stream`. -/
def readyToOpen (e : Edge) : Bool :=
  c.programs (c.opener e) = .running &&
    if e.2 = 0 then (List.range (c.last e.1)).all fun worker => c.programs (e.1, worker) ≠ .absent
    else
      match c.accepts (e.1, e.2 - 1) with
      | some (.got _) => true
      | _ => false

/-- The program has come to its `accept_tensor_stream`. -/
def readyToAccept (e : Edge) : Bool :=
  c.programs e = .running && (e.2 ≠ c.last e.1 || c.opened (e.1, 0))

/-- An accept call that still waits fails, and its program with it. -/
def fail (e : Edge) : Cluster P :=
  if c.accepts e = some .waiting then
    { c with
      accepts := Function.update c.accepts e (some .failed)
      programs := Function.update c.programs e .ended }
  else c

def step : ClusterAction P → Option (Cluster P)
  | .createSession peer =>
      some { c with counters := Function.update c.counters peer (c.counters peer + 1) }
  | .start run =>
    if run.workers ≠ [] ∧ run.coordinator ∉ run.workers ∧ 1 ≤ run.sessionId ∧
        run.sessionId < c.counters run.coordinator then
      some { c with
        runs := c.runs ++ [run]
        programs := Function.update c.programs (c.runs.length, run.workers.length) .running }
    else none
  | .dispatch run worker =>
    if worker < c.last run ∧ c.programs (run, c.last run) = .running ∧
        (∀ earlier < worker, c.programs (run, earlier) ≠ .absent) ∧
        c.programs (run, worker) = .absent then
      some { c with programs := Function.update c.programs (run, worker) .running }
    else none
  | .openStream e =>
    if (c.address e).isSome ∧ c.opened e = false ∧ c.readyToOpen e then
      some { c with opened := Function.update c.opened e true, flying := c.flying ++ [e] }
    else none
  | .arrive i =>
    match c.flying[i]?.bind fun e => (c.address e).map fun a => (e, a) with
    | none => none
    | some (e, peer, id) =>
      let c := { c with flying := c.flying.eraseIdx i }
      match (c.maps peer).insertInbound id e with
      | (map, .sent tx) =>
          some { c with
            maps := Function.update c.maps peer map
            accepts :=
              if c.accepts tx = some .waiting then Function.update c.accepts tx (some (.got e))
              else c.accepts }
      | (map, _) => some { c with maps := Function.update c.maps peer map }
  | .accept e =>
    match c.address e with
    | none => none
    | some (peer, id) =>
      if c.accepts e = none ∧ c.readyToAccept e then
        match (c.maps peer).registerAccept id e with
        | (map, .ready stream) =>
            some { c with
              maps := Function.update c.maps peer map
              accepts := Function.update c.accepts e (some (.got stream)) }
        | (map, .pending dropped) =>
          let c := dropped.elim c c.fail
          some { c with
            maps := Function.update c.maps peer map
            accepts := Function.update c.accepts e (some .waiting) }
      else none
  | .timeout e => if c.accepts e = some .waiting then some (c.fail e) else none
  | .quit e =>
    if c.programs e = .running then
      let c := c.fail e
      some { c with programs := Function.update c.programs e .ended }
    else none

end Cluster

end Pleiades.Programs
