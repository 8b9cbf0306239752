import Pleiades.Lib.Run
import Pleiades.Lib.Snapshots
import Pleiades.Network.InfoExchange
import Pleiades.Session.Manager

/-!
# Session commands and the local list of sessions

Each `Session` command of the user runs as a task of its own. Between two of its calls on
the session manager, the peer table and the network the others go on, and so does the
handling of an Info message from a remote peer, unless its models make their decoder panic.
-/
namespace Pleiades.Orchestrator

open Lib Network PeerManagement

variable {Id Addr : Type}

/-- What an Info message changes in the table, one call of the peer manager each. -/
inductive PeerUpdate (Id : Type) where
  | upsert (peer : Id) (name : String) (now : ℕ)
  | models (peer : Id) (models : List SupportedModel) (now : ℕ)
  | sessions (peer : Id) (sessions : List SessionSummary) (now : ℕ)

def PeerUpdate.peer : PeerUpdate Id → Id
  | .upsert peer _ _ => peer
  | .models peer _ _ => peer
  | .sessions peer _ _ => peer

def PeerUpdate.apply [DecidableEq Id] (peers : Peers Id Addr) : PeerUpdate Id → Peers Id Addr
  | .upsert peer name now => peers.upsertPeer { PeerInfo.new peer [] now with name }
  | .models peer held now => peers.updateSupportedModels peer held now
  | .sessions peer run now => peers.updateSessions peer run now

def infoUpdates (serde : Serde) (peer : Id) (payload : String) (now : ℕ) : List (PeerUpdate Id) :=
  let (name, modelsJson, sessionsJson) := infoParts payload
  (if name ≠ "" then [.upsert peer name now] else []) ++
    match serde.readModels modelsJson with
    | none => []
    | some models =>
      let sessions := serde.readSessions sessionsJson
      (if models ≠ [] then [.models peer models now] else []) ++
        (if sessions ≠ [] then [.sessions peer sessions now] else [])

/-- One after the other they do what handling the message does. -/
theorem foldl_infoUpdates [DecidableEq Id] (serde : Serde) (peers : Peers Id Addr) (peer : Id)
    (payload : String) (now : ℕ) :
    (infoUpdates serde peer payload now).foldl PeerUpdate.apply peers =
      handleInfo serde peers peer payload now := by
  unfold infoUpdates handleInfo applyInfo
  dsimp only
  rw [List.foldl_append]
  cases serde.readModels (infoParts payload).2.1 with
  | none => split <;> rfl
  | some models =>
      dsimp only
      rw [List.foldl_append]
      split <;> split <;> split <;> rfl

theorem infoUpdates_peer (serde : Serde) (peer : Id) (payload : String) (now : ℕ) :
    ∀ update ∈ infoUpdates serde peer payload now, update.peer = peer := by
  intro update member
  simp only [infoUpdates, List.mem_append] at member
  rcases member with member | member
  · split at member <;> simp only [List.mem_singleton, List.not_mem_nil] at member
    rw [member]
    rfl
  · split at member
    · cases member
    · rw [List.mem_append] at member
      rcases member with member | member <;> split at member <;>
        simp only [List.mem_singleton, List.not_mem_nil] at member <;> rw [member] <;> rfl

/-- Where the task of a command stands. -/
inductive CommandPhase (Id : Type) where
  | spawned
  | created (sessionId : ℕ)
  | foundLocal (sessionId : ℕ) (localId : Id)
  | listed (sessionId : ℕ) (localId : Id) (sessions : List SessionSummary)
  | recorded (sessionId : ℕ)
  | broadcasting (sessionId : ℕ) (localId : Id) (payload : String)
  | finished (sessionId : ℕ)

def CommandPhase.isFinished : CommandPhase Id → Bool
  | .finished _ => true
  | _ => false

structure CommandTask (Id : Type) where
  modelId : String
  phase : CommandPhase Id

structure CommandNode (Id Addr : Type) where
  localPeerId : Id
  manager : Session.SessionManager
  peers : Peers Id Addr
  tasks : List (CommandTask Id)
  pending : List (PeerUpdate Id)
  /-- The task of the network runs. -/
  listening : Bool
  sent : List (Id × String)

/-- `SessionSummary` of a session. -/
def toSummary (info : Session.SessionInfo) : SessionSummary where
  sessionId := .ofNat info.sessionId
  modelId := info.modelId
  occupiedSlots := info.occupiedSlots
  totalSlots := info.totalSlots

/-- `get_local_peer`. -/
def getLocalPeer (peers : Peers Id Addr) : Option (PeerInfo Id Addr) :=
  (peers.entries.map Sigma.snd).find? PeerInfo.isLocal

inductive CommandAct (Id : Type) where
  | spawn (modelId : String)
  | createSession (task : ℕ)
  | getLocalPeer (task : ℕ)
  | listSessions (task : ℕ)
  | updateSessions (task : ℕ) (now : ℕ)
  | buildInfo (task : ℕ)
  | sendInfo (task : ℕ)
  | info (peer : Id) (payload : String) (now : ℕ)
  | applyInfo
  deriving DecidableEq

namespace CommandNode

variable [DecidableEq Id]

def start (localPeerId : Id) (name : String) (now maxSlots : ℕ) : CommandNode Id Addr where
  localPeerId
  manager := .new maxSlots
  peers := Peers.new localPeerId name now
  tasks := []
  pending := []
  listening := true
  sent := []

variable (s : CommandNode Id Addr)

/-- The sessions as a command lists them. -/
def summaries : List SessionSummary := s.manager.listSessions.map toSummary

/-- The sessions in the entry of the local node. -/
def recordedSessions : List SessionSummary := (getLocalPeer s.peers).elim [] PeerInfo.sessions

/-- All commands and the handling of a message have come to their end. -/
def Finished : Prop := (∀ task ∈ s.tasks, task.phase.isFinished = true) ∧ s.pending = []

/-- Task `i` goes on to `phase`. -/
def advance (i : ℕ) (modelId : String) (phase : CommandPhase Id) : CommandNode Id Addr :=
  { s with tasks := s.tasks.set i ⟨modelId, phase⟩ }

def step (serde : Serde) (s : CommandNode Id Addr) : CommandAct Id → Option (CommandNode Id Addr)
  | .spawn modelId => some { s with tasks := s.tasks ++ [⟨modelId, .spawned⟩] }
  | .createSession i =>
    match s.tasks[i]? with
    | some ⟨modelId, .spawned⟩ =>
        let (id, manager) := s.manager.createSession modelId
        some { s.advance i modelId (.created id) with manager }
    | _ => none
  | .getLocalPeer i =>
    match s.tasks[i]? with
    | some ⟨modelId, .created id⟩ =>
        match Orchestrator.getLocalPeer s.peers with
        | some info => some (s.advance i modelId (.foundLocal id info.peerId))
        | none => some (s.advance i modelId (.recorded id))
    | _ => none
  | .listSessions i =>
    match s.tasks[i]? with
    | some ⟨modelId, .foundLocal id localId⟩ => some (s.advance i modelId (.listed id localId s.summaries))
    | _ => none
  | .updateSessions i now =>
    match s.tasks[i]? with
    | some ⟨modelId, .listed id localId sessions⟩ =>
        some { s.advance i modelId (.recorded id) with
          peers := s.peers.updateSessions localId sessions now }
    | _ => none
  | .buildInfo i =>
    match s.tasks[i]? with
    | some ⟨modelId, .recorded id⟩ =>
        match Orchestrator.getLocalPeer s.peers with
        | some info =>
            some (s.advance i modelId (.broadcasting id info.peerId (buildLocalInfoPayload serde info)))
        | none => some (s.advance i modelId (.finished id))
    | _ => none
  | .sendInfo i =>
    match s.tasks[i]? with
    | some ⟨modelId, .broadcasting id localId payload⟩ =>
        let remote := (s.peers.entries.map Sigma.fst).filter (· ≠ localId)
        -- without the network every message is refused
        some { s.advance i modelId (.finished id) with
          sent := if s.listening then s.sent ++ remote.map (·, payload) else s.sent }
    | _ => none
  | .info peer payload now =>
    if peer ≠ s.localPeerId ∧ s.pending = [] ∧ s.listening then
      some { s with
        pending := infoUpdates serde peer payload now
        -- the panic of the decoder ends the task, once the name is recorded
        listening := (serde.readModels (infoParts payload).2.1).isSome }
    else none
  | .applyInfo =>
    match s.pending with
    | update :: pending => some { s with peers := update.apply s.peers, pending }
    | [] => none

end CommandNode

/-! The entry of the local node. -/

section LocalEntry

variable [DecidableEq Id] {localPeerId : Id} {peers : Peers Id Addr} {info : PeerInfo Id Addr}

/-- `info` is the entry of the local node, and the only one marked so. -/
structure LocalEntry (localPeerId : Id) (peers : Peers Id Addr) (info : PeerInfo Id Addr) : Prop where
  here : peers.lookup localPeerId = some info
  peerId : info.peerId = localPeerId
  marked : info.isLocal = true
  only : ∀ {id other}, peers.lookup id = some other → other.isLocal = true → id = localPeerId

theorem LocalEntry.new (localPeerId : Id) (name : String) (now : ℕ) :
    LocalEntry localPeerId (Peers.new localPeerId name now : Peers Id Addr) (.newLocal localPeerId name now) where
  here := AList.lookup_insert _
  peerId := rfl
  marked := rfl
  only {id other} found _ := by
    by_contra ne
    rw [Peers.new, AList.lookup_insert_ne ne] at found
    cases found

theorem LocalEntry.getLocalPeer (entry : LocalEntry localPeerId peers info) : getLocalPeer peers = some info := by
  have member : info ∈ peers.entries.map Sigma.snd :=
    List.mem_map_of_mem (Table.lookup_eq_some_iff.mp entry.here)
  obtain ⟨found, isFound⟩ : ∃ found, Orchestrator.getLocalPeer peers = some found :=
    Option.isSome_iff_exists.mp (List.find?_isSome.mpr ⟨info, member, entry.marked⟩)
  obtain ⟨⟨id, _⟩, listed, rfl⟩ := List.mem_map.mp (List.mem_of_find?_eq_some isFound)
  have there := Table.lookup_eq_some_iff.mpr listed
  cases entry.only there (List.find?_some (p := PeerInfo.isLocal) isFound)
  rw [isFound]
  exact there.symm.trans entry.here

/-- A list of sessions in the entry is all that `update_sessions` changes for its readers. -/
theorem LocalEntry.updateSessions (entry : LocalEntry localPeerId peers info) (sessions : List SessionSummary)
    (now : ℕ) :
    LocalEntry localPeerId (peers.updateSessions localPeerId sessions now) (info.updateSessions sessions now) where
  here := by
    rw [Peers.updateSessions, Peers.lookup_modify, entry.here]
    rfl
  peerId := entry.peerId
  marked := entry.marked
  only {id other} found marked := by
    by_contra ne
    rw [Peers.updateSessions, Peers.lookup_modify_ne _ ne] at found
    exact ne (entry.only found marked)

theorem PeerUpdate.lookup_apply_ne (update : PeerUpdate Id) {id : Id} (ne : id ≠ update.peer) :
    (update.apply peers).lookup id = peers.lookup id := by
  cases update with
  | upsert peer name now => exact peers.lookup_upsertPeer_ne _ ne
  | models peer held now => exact peers.lookup_modify_ne ne _
  | sessions peer run now => exact peers.lookup_modify_ne ne _

theorem PeerUpdate.isLocal_apply (update : PeerUpdate Id) {after : PeerInfo Id Addr}
    (found : (update.apply peers).lookup update.peer = some after) (marked : after.isLocal = true) :
    ∃ before, peers.lookup update.peer = some before ∧ before.isLocal = true := by
  cases update with
  | upsert peer name now =>
      have whole := (peers.lookup_upsertPeer { PeerInfo.new peer [] now with name }).symm.trans found
      cases before : peers.lookup peer with
      | none =>
          change peers.lookup peer = none at before
          simp only [PeerInfo.new, before, Option.elim] at whole
          cases whole
          cases marked
      | some old =>
          simp only [PeerInfo.new, before, Option.elim] at whole
          cases whole
          exact ⟨old, before, marked⟩
  | models peer held now =>
      obtain ⟨old, before, rfl⟩ := Option.map_eq_some_iff.mp ((Peers.lookup_modify _ _).symm.trans found)
      exact ⟨old, before, marked⟩
  | sessions peer run now =>
      obtain ⟨old, before, rfl⟩ := Option.map_eq_some_iff.mp ((Peers.lookup_modify _ _).symm.trans found)
      exact ⟨old, before, marked⟩

/-- A message of a remote peer does not reach the entry. -/
theorem LocalEntry.apply (entry : LocalEntry localPeerId peers info) (update : PeerUpdate Id)
    (remote : update.peer ≠ localPeerId) : LocalEntry localPeerId (update.apply peers) info where
  here := (update.lookup_apply_ne remote.symm).trans entry.here
  peerId := entry.peerId
  marked := entry.marked
  only {id other} found marked := by
    by_cases same : id = update.peer
    · subst same
      obtain ⟨before, old, wasMarked⟩ := update.isLocal_apply found marked
      exact entry.only old wasMarked
    · rw [update.lookup_apply_ne same] at found
      exact entry.only found marked

end LocalEntry

/-- Creating, listing and recording sessions, seen as changes of a value with snapshots. -/
def CommandAct.event : CommandAct Id → SnapshotEvent
  | .createSession _ => .change
  | .listSessions i => .take i
  | .updateSessions i _ => .write i
  | _ => .other

/-- What a task knows: the local node, and the beginning of the list of sessions. -/
def CommandPhase.Stands (localPeerId : Id) (sessions : List SessionSummary) (version : ℕ) :
    CommandPhase Id → Prop
  | .foundLocal _ localId => localId = localPeerId
  | .listed _ localId found => localId = localPeerId ∧ found <:+ sessions ∧ found.length = version
  | _ => True

theorem CommandPhase.Stands.mono {localPeerId : Id} {sessions sessions' : List SessionSummary} {version : ℕ}
    {phase : CommandPhase Id} (stands : phase.Stands localPeerId sessions version)
    (grows : sessions <:+ sessions') : phase.Stands localPeerId sessions' version := by
  cases phase with
  | listed id localId found => exact ⟨stands.1, stands.2.1.trans grows, stands.2.2⟩
  | _ => exact stands

namespace CommandNode

variable [DecidableEq Id]

/-- The versions that the events so far give are those of the lists in the node. Lists of
sessions grow at the front. -/
structure Tracks (s : CommandNode Id Addr) (v : Versions) : Prop where
  fresh : ∀ {id session}, s.manager.sessions.lookup id = some session → id < s.manager.counter
  count : s.summaries.length = v.current
  tasks : ∀ {i : ℕ} {task : CommandTask Id}, s.tasks[i]? = some task →
     task.phase.Stands s.localPeerId s.summaries (v.taken i)
  entry : ∃ info, LocalEntry s.localPeerId s.peers info ∧ info.sessions <:+ s.summaries ∧
    info.sessions.length = v.written
  pending : ∀ update ∈ s.pending, update.peer ≠ s.localPeerId

variable {s s' : CommandNode Id Addr} {v : Versions}

omit [DecidableEq Id] in
theorem tasks_advance {i j : ℕ} {modelId : String} {phase : CommandPhase Id} {task : CommandTask Id}
    (found : (s.advance i modelId phase).tasks[j]? = some task) :
    i = j ∧ task = ⟨modelId, phase⟩ ∨ i ≠ j ∧ s.tasks[j]? = some task := by
  rw [advance, List.getElem?_set] at found
  by_cases same : i = j
  · rw [if_pos same] at found
    split at found
    · exact .inl ⟨same, (Option.some.inj found).symm⟩
    · cases found
  · rw [if_neg same] at found
    exact .inr ⟨same, found⟩

/-- A task that goes on leaves the others as they are. -/
theorem Tracks.stands_advance (tracks : s.Tracks v) {i : ℕ} {modelId : String} {phase : CommandPhase Id}
    {sessions : List SessionSummary} {taken : ℕ → ℕ} (grows : s.summaries <:+ sessions)
    (others : ∀ j, i ≠ j → taken j = v.taken j) (here : phase.Stands s.localPeerId sessions (taken i))
    {j : ℕ} {task : CommandTask Id} (found : (s.advance i modelId phase).tasks[j]? = some task) :
    task.phase.Stands s.localPeerId sessions (taken j) := by
  rcases tasks_advance found with ⟨rfl, rfl⟩ | ⟨ne, found⟩
  · exact here
  · rw [others j ne]
    exact (tracks.tasks found).mono grows

theorem Tracks.start (localPeerId : Id) (name : String) (now maxSlots : ℕ) :
    (start localPeerId name now maxSlots : CommandNode Id Addr).Tracks (.after []) where
  fresh found := nomatch found
  count := rfl
  tasks found := nomatch found
  entry := ⟨.newLocal localPeerId name now, .new localPeerId name now, List.suffix_refl [], rfl⟩
  pending := nofun

/-- A task that goes on without touching a list. -/
theorem Tracks.advance (tracks : s.Tracks v) {i : ℕ} {modelId : String} {phase : CommandPhase Id}
    (here : phase.Stands s.localPeerId s.summaries (v.taken i)) : (s.advance i modelId phase).Tracks v where
  fresh := tracks.fresh
  count := tracks.count
  tasks found := tracks.stands_advance (List.suffix_refl _) (fun _ _ => rfl) here found
  entry := tracks.entry
  pending := tracks.pending

theorem Tracks.createSession (tracks : s.Tracks v) (i : ℕ) (modelId modelId' : String) :
    ({ s.advance i modelId (.created (s.manager.createSession modelId').1) with
        manager := (s.manager.createSession modelId').2 } : CommandNode Id Addr).Tracks (v.step .change) := by
  have missing : s.manager.sessions.lookup s.manager.counter = none := by
    cases found : s.manager.sessions.lookup s.manager.counter with
    | none => rfl
    | some session => exact absurd (tracks.fresh found) (Nat.lt_irrefl _)
  have grown : ∃ new, (s.manager.createSession modelId').2.listSessions.map toSummary = new :: s.summaries := by
    unfold Session.SessionManager.createSession Session.SessionManager.listSessions
    rw [Table.entries_insert_of_lookup missing]
    exact ⟨_, rfl⟩
  obtain ⟨new, grown⟩ := grown
  have grows : s.summaries <:+ (s.manager.createSession modelId').2.listSessions.map toSummary := by
    rw [grown]
    exact List.suffix_cons _ _
  obtain ⟨info, entry, kept, length⟩ := tracks.entry
  refine ⟨?_, ?_, ?_, ⟨info, entry, kept.trans grows, length⟩, tracks.pending⟩
  · intro id session found
    by_cases same : id = s.manager.counter
    · rw [same]
      exact Nat.lt_succ_self _
    · have old := (AList.lookup_insert_ne same).symm.trans found
      exact Nat.lt_succ_of_lt (tracks.fresh old)
  · rw [summaries, grown, List.length_cons, tracks.count]
    rfl
  · intro j task found
    have here : (CommandPhase.created (s.manager.createSession modelId').1 : CommandPhase Id).Stands
        s.localPeerId ((s.manager.createSession modelId').2.listSessions.map toSummary) (v.taken i) := trivial
    exact tracks.stands_advance grows (fun _ _ => rfl) here found

theorem Tracks.listSessions (tracks : s.Tracks v) {i : ℕ} {modelId : String} {id : ℕ} {localId : Id}
    (found : s.tasks[i]? = some ⟨modelId, .foundLocal id localId⟩) :
    (s.advance i modelId (.listed id localId s.summaries)).Tracks (v.step (.take i)) where
  fresh := tracks.fresh
  count := tracks.count
  tasks {j task} there := by
    have here : (CommandPhase.listed id localId s.summaries).Stands s.localPeerId s.summaries
        (Function.update v.taken i v.current i) := by
      rw [Function.update_self]
      exact ⟨tracks.tasks found, List.suffix_refl _, tracks.count⟩
    exact tracks.stands_advance (List.suffix_refl _) (fun j ne => Function.update_of_ne ne.symm ..) here there
  entry := tracks.entry
  pending := tracks.pending

theorem Tracks.updateSessions (tracks : s.Tracks v) {i now : ℕ} {modelId : String} {id : ℕ} {localId : Id}
    {sessions : List SessionSummary} (found : s.tasks[i]? = some ⟨modelId, .listed id localId sessions⟩) :
    ({ s.advance i modelId (.recorded id) with
        peers := s.peers.updateSessions localId sessions now } : CommandNode Id Addr).Tracks (v.step (.write i)) := by
  obtain ⟨rfl, part, length⟩ := tracks.tasks found
  obtain ⟨info, entry, -, -⟩ := tracks.entry
  refine ⟨tracks.fresh, tracks.count, ?_, ?_, tracks.pending⟩
  · intro j task there
    have here : (CommandPhase.recorded id : CommandPhase Id).Stands s.localPeerId s.summaries (v.taken i) := trivial
    exact tracks.stands_advance (List.suffix_refl _) (fun _ _ => rfl) here there
  · exact ⟨info.updateSessions sessions now, entry.updateSessions sessions now, part, length⟩

theorem Tracks.spawn (tracks : s.Tracks v) (modelId : String) :
    ({ s with tasks := s.tasks ++ [⟨modelId, .spawned⟩] } : CommandNode Id Addr).Tracks v where
  fresh := tracks.fresh
  count := tracks.count
  tasks {i task} found := by
    obtain old | ⟨-, rfl⟩ := getElem?_concat_cases found
    · exact tracks.tasks old
    · trivial
  entry := tracks.entry
  pending := tracks.pending

theorem Tracks.info (tracks : s.Tracks v) (serde : Serde) {peer : Id} (remote : peer ≠ s.localPeerId)
    (payload : String) (now : ℕ) (listening : Bool) :
    ({ s with pending := infoUpdates serde peer payload now, listening } : CommandNode Id Addr).Tracks v where
  fresh := tracks.fresh
  count := tracks.count
  tasks := tracks.tasks
  entry := tracks.entry
  pending update member := (infoUpdates_peer serde peer payload now update member).symm ▸ remote

theorem Tracks.applyInfo (tracks : s.Tracks v) {update : PeerUpdate Id} {pending : List (PeerUpdate Id)}
    (next : s.pending = update :: pending) :
    ({ s with peers := update.apply s.peers, pending } : CommandNode Id Addr).Tracks v := by
  have remote := tracks.pending
  rw [next, List.forall_mem_cons] at remote
  obtain ⟨info, entry, part, length⟩ := tracks.entry
  exact ⟨tracks.fresh, tracks.count, tracks.tasks, ⟨info, entry.apply update remote.1, part, length⟩, remote.2⟩

/-- One call of a command, or one change of a remote entry. -/
theorem Tracks.step {serde : Serde} {a : CommandAct Id} (tracks : s.Tracks v) (h : s.step serde a = some s') :
    s'.Tracks (v.step a.event) := by
  cases a with
  | spawn modelId =>
      cases h
      exact tracks.spawn modelId
  | createSession i =>
      simp only [CommandNode.step] at h
      split at h
      · next modelId found =>
        cases h
        exact tracks.createSession i modelId modelId
      · cases h
  | getLocalPeer i =>
      simp only [CommandNode.step] at h
      split at h
      · next modelId id found =>
        obtain ⟨info, entry, -⟩ := tracks.entry
        rw [entry.getLocalPeer] at h
        cases h
        exact tracks.advance entry.peerId
      · cases h
  | listSessions i =>
      simp only [CommandNode.step] at h
      split at h
      · next found =>
        cases h
        exact tracks.listSessions found
      · cases h
  | updateSessions i now =>
      simp only [CommandNode.step] at h
      split at h
      · next found =>
        cases h
        exact tracks.updateSessions found
      · cases h
  | buildInfo i =>
      simp only [CommandNode.step] at h
      split at h
      · next modelId id found =>
        obtain ⟨info, entry, -⟩ := tracks.entry
        rw [entry.getLocalPeer] at h
        cases h
        exact tracks.advance trivial
      · cases h
  | sendInfo i =>
      simp only [CommandNode.step] at h
      split at h
      · next modelId id localId payload found =>
        cases h
        have done : (s.advance i modelId (.finished id)).Tracks v := tracks.advance trivial
        exact ⟨done.fresh, done.count, done.tasks, done.entry, done.pending⟩
      · cases h
  | info peer payload now =>
      simp only [CommandNode.step] at h
      split at h
      · next allowed =>
        cases h
        exact tracks.info serde allowed.1 payload now _
      · cases h
  | applyInfo =>
      simp only [CommandNode.step] at h
      split at h
      · next next =>
        cases h
        exact tracks.applyInfo next
      · cases h

theorem Tracks.run {serde : Serde} {tr : List (CommandNode Id Addr × CommandAct Id)} {localPeerId : Id}
    {name : String} {now maxSlots : ℕ}
    (run : Run (CommandNode.step serde) (CommandNode.start localPeerId name now maxSlots) tr s) :
    s.Tracks (.after (tr.map (·.2.event))) := by
  induction run with
  | nil => exact .start localPeerId name now maxSlots
  | snoc _ hstep ih =>
      rw [List.map_append, List.map_singleton, Versions.after_concat]
      exact ih.step hstep

theorem Tracks.recorded (tracks : s.Tracks v) :
    s.recordedSessions <:+ s.summaries ∧ s.recordedSessions.length = v.written := by
  obtain ⟨info, entry, part, length⟩ := tracks.entry
  rw [recordedSessions, entry.getLocalPeer]
  exact ⟨part, length⟩

/-- At any time, and so once all commands have finished, the local entry has the sessions
of the session manager exactly if none was ever created, or the list that was written last
was taken after the last of them was. -/
theorem sessions_recorded_iff {serde : Serde} {tr : List (CommandNode Id Addr × CommandAct Id)}
    {localPeerId : Id} {name : String} {now maxSlots : ℕ}
    (run : Run (step serde) (start localPeerId name now maxSlots) tr s) :
    s.recordedSessions.Perm s.summaries ↔
      .change ∉ tr.map (·.2.event) ∨ Versions.Settled (tr.map (·.2.event)) := by
  have tracks := Tracks.run run
  obtain ⟨part, length⟩ := tracks.recorded
  rw [← Versions.written_current_iff, ← length, ← tracks.count]
  exact ⟨List.Perm.length_eq, fun same => part.eq_of_length same ▸ List.Perm.refl _⟩

/-- The calls of one command on its own. -/
def alone (i : ℕ) : List (CommandAct ℕ) :=
  [.createSession i, .getLocalPeer i, .listSessions i, .updateSessions i 1, .buildInfo i, .sendInfo i]

theorem sessions_recorded_iff_alone :
    ∃ tr s, Run (step emptySerde) (start 0 "node" 0 4 : CommandNode ℕ Unit) tr s ∧ s.Finished ∧
      s.recordedSessions.length = 2 ∧
      (s.recordedSessions.Perm s.summaries ↔
        .change ∉ tr.map (·.2.event) ∨ Versions.Settled (tr.map (·.2.event))) := by
  have runs : (exec (step emptySerde) (start 0 "node" 0 4 : CommandNode ℕ Unit)
      (.spawn "a" :: .spawn "b" :: alone 0 ++ alone 1)).map (fun s =>
        (s.tasks.all (·.phase.isFinished), s.pending.isEmpty, s.recordedSessions.length)) =
      some (true, true, 2) := by decide +kernel
  obtain ⟨s, done, final⟩ := Option.map_eq_some_iff.mp runs
  simp only [Prod.mk.injEq, List.all_eq_true, List.isEmpty_iff] at final
  exact ⟨_, s, exec_run done, ⟨final.1, final.2.1⟩, final.2.2, sessions_recorded_iff (exec_run done)⟩

/-- The second command lists both sessions, and then the first writes its older list. -/
theorem sessions_recorded_counterexample :
    ∃ tr s, Run (step emptySerde) (start 0 "node" 0 4 : CommandNode ℕ Unit) tr s ∧ s.Finished ∧
      s.summaries.length = 2 ∧ s.recordedSessions.length = 1 ∧ ¬ s.recordedSessions.Perm s.summaries := by
  have runs : (exec (step emptySerde) (start 0 "node" 0 4 : CommandNode ℕ Unit)
      [.spawn "a", .spawn "b", .createSession 0, .getLocalPeer 0, .listSessions 0, .createSession 1,
        .getLocalPeer 1, .listSessions 1, .updateSessions 1 1, .updateSessions 0 2, .buildInfo 0, .buildInfo 1,
        .sendInfo 0, .sendInfo 1]).map (fun s =>
        (s.tasks.all (·.phase.isFinished), s.pending.isEmpty, s.summaries.length, s.recordedSessions.length)) =
      some (true, true, 2, 1) := by decide +kernel
  obtain ⟨s, done, final⟩ := Option.map_eq_some_iff.mp runs
  simp only [Prod.mk.injEq, List.all_eq_true, List.isEmpty_iff] at final
  obtain ⟨finished, none, both, one⟩ := final
  refine ⟨_, s, exec_run done, ⟨finished, none⟩, both, one, ?_⟩
  intro same
  have := same.length_eq
  omega

end CommandNode

end Pleiades.Orchestrator
