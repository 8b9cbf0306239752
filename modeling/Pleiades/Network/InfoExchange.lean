import Pleiades.Lib.Text
import Pleiades.PeerManagement.PeerManager
import Pleiades.Tui.BitmapHex

/-!
# Exchange of node information

The text a node sends about itself and what the receiver does with it.
-/
namespace Pleiades.Network

open Lib PeerManagement

/-- The JSON library as far as the two lists of a node go through it. It reads a list of models from
the left, and hands each text in the place of a layer bitmap to the decoder of the node. -/
structure Serde where
  printModels : List SupportedModel → String
  /-- The texts of the bitmaps that are come to if no decoder stops before. -/
  bitmapTexts : String → List String
  /-- What the library makes of the rest, once the bitmaps are decoded. -/
  assemble : String → List (Vector UInt8 32) → Except String (List SupportedModel)
  printSessions : List SessionSummary → String
  parseSessions : String → Option (List SessionSummary)

namespace Serde

variable (serde : Serde)

/-- `from_str` of a list of models. -/
def parseModels (text : String) : Except Tui.Stop (List SupportedModel) :=
  match (serde.bitmapTexts text).mapM Tui.deserializeBitmapHex with
  | .error stop => .error stop
  | .ok bitmaps => (serde.assemble text bitmaps).mapError .error

/-- The models of a message with `unwrap_or_default`, unless their decoder panics. -/
def readModels (text : String) : Option (List SupportedModel) :=
  match serde.parseModels text with
  | .ok models => some models
  | .error (.error _) => some []
  | .error .panic => none

def readSessions (text : String) : List SessionSummary := (serde.parseSessions text).getD []

end Serde

variable {Id Addr : Type}

/-- `build_local_info_payload`. -/
def buildLocalInfoPayload (serde : Serde) (info : PeerInfo Id Addr) : String :=
  s!"{info.name}|{serde.printModels info.supportedModels}|{serde.printSessions info.sessions}"

/-- The three parts of a received text, missing ones as the receiver takes them. -/
def infoParts (payload : String) : String × String × String :=
  let parts := (splitn '|' 3 payload.toList).map String.ofList
  (parts.getD 0 "", parts.getD 1 "[]", parts.getD 2 "[]")

/-- What the parts of a message from `peer` change in the table. A panic comes after the name. -/
def applyInfo [DecidableEq Id] (serde : Serde) (peers : Peers Id Addr) (peer : Id)
    (name modelsJson sessionsJson : String) (now : ℕ) : Peers Id Addr :=
  let peers := if name ≠ "" then peers.upsertPeer { PeerInfo.new peer [] now with name } else peers
  match serde.readModels modelsJson with
  | none => peers
  | some models =>
    let peers := if models ≠ [] then peers.updateSupportedModels peer models now else peers
    let sessions := serde.readSessions sessionsJson
    if sessions ≠ [] then peers.updateSessions peer sessions now else peers

/-- The table after an Info message from `peer`. -/
def handleInfo [DecidableEq Id] (serde : Serde) (peers : Peers Id Addr) (peer : Id) (payload : String)
    (now : ℕ) : Peers Id Addr :=
  applyInfo serde peers peer (infoParts payload).1 (infoParts payload).2.1 (infoParts payload).2.2 now

/-- The JSON library reads back what it wrote for a node, writes separators only where
a file name has one, and refuses a list of models cut short. -/
structure Serde.Reads (serde : Serde) (info : PeerInfo Id Addr) : Prop where
  models : serde.parseModels (serde.printModels info.supportedModels) = .ok info.supportedModels
  sessions : serde.parseSessions (serde.printSessions info.sessions) = some info.sessions
  separator : '|' ∈ (serde.printModels info.supportedModels).toList ↔
    ∃ model ∈ info.supportedModels, '|' ∈ model.fileName.toList
  cut : ∀ front rest, (serde.printModels info.supportedModels).toList = front ++ '|' :: rest →
    ∃ e, serde.parseModels (String.ofList front) = .error (.error e)

/-- Neither the name nor a model file has a separator in its name. -/
structure Plain (info : PeerInfo Id Addr) : Prop where
  name : '|' ∉ info.name.toList
  models : ∀ model ∈ info.supportedModels, '|' ∉ model.fileName.toList

/-- The receiver's entry for `peer` after the message of `sender`. -/
def received [DecidableEq Id] (serde : Serde) (sender : PeerInfo Id Addr) (peers : Peers Id Addr)
    (peer : Id) (now : ℕ) : Option (PeerInfo Id Addr) :=
  (handleInfo serde peers peer (buildLocalInfoPayload serde sender) now).lookup peer

/-- The entry has the name and the two lists of the sender. -/
def Transferred [DecidableEq Id] (serde : Serde) (sender : PeerInfo Id Addr) (peers : Peers Id Addr)
    (peer : Id) (now : ℕ) : Prop :=
  ∃ info, received serde sender peers peer now = some info ∧ info.name = sender.name ∧
    info.supportedModels = sender.supportedModels ∧ info.sessions = sender.sessions

section Entry
variable (serde : Serde) (peer : Id) (name modelsJson sessionsJson : String) (now : ℕ)

/-- The sender's entry after its name has been read. -/
def named (old : Option (PeerInfo Id Addr)) : Option (PeerInfo Id Addr) :=
  if name ≠ "" then
    let info := { PeerInfo.new peer [] now with name }
    some (old.elim info info.keep)
  else old

theorem isSome_named (old : Option (PeerInfo Id Addr)) :
    (named peer name now old).isSome ↔ name ≠ "" ∨ old.isSome := by
  unfold named
  split
  · next isName => simp [isName]
  · next noName => simp [not_not.mp noName]

/-- The sender's entry after the two lists have been read; empty ones change nothing. -/
def listed (info : PeerInfo Id Addr) : PeerInfo Id Addr :=
  match serde.readModels modelsJson with
  | none => info
  | some models =>
    let info := if models ≠ [] then info.updateSupportedModels models now else info
    let sessions := serde.readSessions sessionsJson
    if sessions ≠ [] then info.updateSessions sessions now else info

theorem lookup_applyInfo [DecidableEq Id] (peers : Peers Id Addr) :
    (applyInfo serde peers peer name modelsJson sessionsJson now).lookup peer =
      (named peer name now (peers.lookup peer)).map (listed serde modelsJson sessionsJson now) := by
  have first : (if name ≠ "" then peers.upsertPeer { PeerInfo.new peer [] now with name } else peers).lookup
      peer = named peer name now (peers.lookup peer) := by
    unfold named
    split
    · exact peers.lookup_upsertPeer { PeerInfo.new peer [] now with name }
    · rfl
  unfold applyInfo listed
  rw [← first]
  cases serde.readModels modelsJson with
  | none => exact Option.map_id'.symm
  | some models =>
      by_cases none : models = [] <;> by_cases idle : serde.readSessions sessionsJson = [] <;>
        simp [none, idle, Peers.updateSupportedModels, Peers.updateSessions, Peers.lookup_modify, Function.comp_def]

/-- The lists change nothing but themselves and the time of the last activity. -/
theorem listed_eq_with (info : PeerInfo Id Addr) :
    listed serde modelsJson sessionsJson now info = { info with
      supportedModels := (listed serde modelsJson sessionsJson now info).supportedModels
      sessions := (listed serde modelsJson sessionsJson now info).sessions
      lastActive := (listed serde modelsJson sessionsJson now info).lastActive } := by
  unfold listed
  split
  · rfl
  · dsimp only
    split <;> split <;> rfl

theorem listed_name (info : PeerInfo Id Addr) :
    (listed serde modelsJson sessionsJson now info).name = info.name := by
  rw [listed_eq_with]

theorem listed_isLocal (info : PeerInfo Id Addr) :
    (listed serde modelsJson sessionsJson now info).isLocal = info.isLocal := by
  rw [listed_eq_with]

variable {modelsJson} in
theorem listed_models {models : List SupportedModel} (read : serde.readModels modelsJson = some models)
    (info : PeerInfo Id Addr) : (listed serde modelsJson sessionsJson now info).supportedModels =
      if models ≠ [] then models else info.supportedModels := by
  simp only [listed, read]
  split <;> split <;> rfl

variable {modelsJson} in
theorem listed_sessions {models : List SupportedModel} (read : serde.readModels modelsJson = some models)
    (info : PeerInfo Id Addr) : (listed serde modelsJson sessionsJson now info).sessions =
      if serde.readSessions sessionsJson ≠ [] then serde.readSessions sessionsJson else info.sessions := by
  simp only [listed, read]
  split <;> split <;> rfl

theorem named_isLocal {old : Option (PeerInfo Id Addr)} (remote : ∀ info ∈ old, info.isLocal = false) :
    ∀ info ∈ named peer name now old, info.isLocal = false := by
  unfold named
  split
  · rintro _ ⟨⟩
    cases old with
    | none => rfl
    | some info => exact remote info rfl
  · exact remote

theorem lookup_applyInfo_ne [DecidableEq Id] {other : Id} (peers : Peers Id Addr) (ne : other ≠ peer) :
    (applyInfo serde peers peer name modelsJson sessionsJson now).lookup other = peers.lookup other := by
  have first : (if name ≠ "" then peers.upsertPeer { PeerInfo.new peer [] now with name } else peers).lookup
      other = peers.lookup other := by
    split
    · exact peers.lookup_upsertPeer_ne { PeerInfo.new peer [] now with name } ne
    · rfl
  unfold applyInfo
  rw [← first]
  cases serde.readModels modelsJson with
  | none => rfl
  | some models =>
      by_cases none : models = [] <;> by_cases idle : serde.readSessions sessionsJson = [] <;>
        simp [none, idle, Peers.updateSupportedModels, Peers.updateSessions, Peers.lookup_modify_ne _ ne]

end Entry

/-! How a text is taken apart. -/

theorem infoParts_fst {payload : String} {front rest : List Char}
    (text : payload.toList = front ++ '|' :: rest) (free : '|' ∉ front) :
    (infoParts payload).1 = String.ofList front := by
  rw [infoParts, text, splitn_append free]
  rfl

theorem infoParts_eq {payload : String} {front middle rest : List Char}
    (text : payload.toList = front ++ '|' :: (middle ++ '|' :: rest)) (free : '|' ∉ front)
    (free' : '|' ∉ middle) :
    infoParts payload = (String.ofList front, String.ofList middle, String.ofList rest) := by
  rw [infoParts, text, splitn_append free, splitn_append free']
  rfl

theorem payload_toList (serde : Serde) (info : PeerInfo Id Addr) :
    (buildLocalInfoPayload serde info).toList = info.name.toList ++ '|' ::
      ((serde.printModels info.supportedModels).toList ++ '|' ::
        (serde.printSessions info.sessions).toList) := by
  have text : buildLocalInfoPayload serde info = info.name ++ "|" ++ serde.printModels info.supportedModels ++
      "|" ++ serde.printSessions info.sessions := rfl
  rw [text]
  simp

theorem named_some {name : String} (isName : name ≠ "") (peer : Id) (now : ℕ)
    (old : Option (PeerInfo Id Addr)) :
    ∃ info, named peer name now old = some info ∧ info.name = name ∧ info.sessions = [] ∧
      info.supportedModels = old.elim [] PeerInfo.supportedModels := by
  rw [named, if_pos isName]
  cases old with
  | none => exact ⟨_, rfl, rfl, rfl, rfl⟩
  | some old => exact ⟨_, rfl, if_neg isName, rfl, rfl⟩

theorem readModels_ok {serde : Serde} {text : String} {models : List SupportedModel}
    (parsed : serde.parseModels text = .ok models) : serde.readModels text = some models := by
  rw [Serde.readModels, parsed]

theorem readModels_error {serde : Serde} {text e : String} (refused : serde.parseModels text = .error (.error e)) :
    serde.readModels text = some [] := by
  rw [Serde.readModels, refused]

theorem infoParts_plain {serde : Serde} {sender : PeerInfo Id Addr} (reads : serde.Reads sender) (plain : Plain sender) :
    infoParts (buildLocalInfoPayload serde sender) =
      (sender.name, serde.printModels sender.supportedModels, serde.printSessions sender.sessions) := by
  have free : '|' ∉ (serde.printModels sender.supportedModels).toList := by
    rw [reads.separator]
    rintro ⟨model, member, inside⟩
    exact plain.models model member inside
  have parts := infoParts_eq (payload_toList serde sender) plain.name free
  simpa only [String.ofList_toList] using parts

section Transfer
variable [DecidableEq Id] {serde : Serde} {sender : PeerInfo Id Addr} {peers : Peers Id Addr} {peer : Id}
  {now : ℕ}

theorem received_eq :
    received serde sender peers peer now =
      (named peer (infoParts (buildLocalInfoPayload serde sender)).1 now (peers.lookup peer)).map
        (listed serde (infoParts (buildLocalInfoPayload serde sender)).2.1
          (infoParts (buildLocalInfoPayload serde sender)).2.2 now) :=
  lookup_applyInfo ..

/-- A plain name and plain models arrive, an empty list of models where none was. -/
theorem transferred_of_plain (reads : serde.Reads sender) (isName : sender.name ≠ "")
    (plain : Plain sender) (fresh : sender.supportedModels = [] →
      ∀ old, peers.lookup peer = some old → old.supportedModels = []) :
    Transferred serde sender peers peer now := by
  obtain ⟨info, hasName, name, sessions, models⟩ := named_some isName peer now (peers.lookup peer)
  refine ⟨_, by rw [received_eq, infoParts_plain reads plain, hasName]; rfl, ?_, ?_, ?_⟩
  · rw [listed_name, name]
  · rw [listed_models _ _ _ (readModels_ok reads.models), models]
    split
    · rfl
    · next empty =>
        have empty : sender.supportedModels = [] := not_not.mp empty
        rw [empty]
        cases found : peers.lookup peer with
        | none => rfl
        | some old => exact fresh empty old found
  · rw [listed_sessions _ _ _ (readModels_ok reads.models), Serde.readSessions, reads.sessions, Option.getD_some, sessions]
    split
    · rfl
    · next empty => exact (not_not.mp empty).symm

/-- A separator in the sender's name cuts the name. -/
theorem plain_name_of_transferred (unlike : ∀ old, peers.lookup peer = some old → old.name ≠ sender.name)
    (h : Transferred serde sender peers peer now) : '|' ∉ sender.name.toList := by
  intro member
  obtain ⟨front, rest, whole, free⟩ := List.eq_append_cons_of_mem member
  obtain ⟨info, isReceived, name, _, _⟩ := h
  have text := payload_toList serde sender
  rw [whole, List.append_assoc, List.cons_append] at text
  rw [received_eq, infoParts_fst text free] at isReceived
  obtain ⟨before, hasName, rfl⟩ := Option.map_eq_some_iff.mp isReceived
  rw [listed_name] at name
  by_cases empty : String.ofList front = ""
  · rw [named, if_neg (by simp [empty])] at hasName
    exact unlike before hasName name
  · obtain ⟨info, hasName', cut, _⟩ := named_some empty peer now (peers.lookup peer)
    cases hasName.symm.trans hasName'
    have lengths := congrArg (fun s : String => s.toList.length) (cut.symm.trans name)
    simp only [String.toList_ofList, whole, List.length_append, List.length_cons] at lengths
    omega

/-- A separator in a file name cuts the list of models, which is then not read. -/
theorem plain_models_of_transferred (reads : serde.Reads sender) (isName : sender.name ≠ "")
    (plainName : '|' ∉ sender.name.toList)
    (unlike : ∀ old, peers.lookup peer = some old → old.supportedModels ≠ sender.supportedModels)
    (h : Transferred serde sender peers peer now) :
    ∀ model ∈ sender.supportedModels, '|' ∉ model.fileName.toList := by
  intro model member inside
  obtain ⟨front, rest, whole, free⟩ := List.eq_append_cons_of_mem (reads.separator.mpr ⟨model, member, inside⟩)
  obtain ⟨info, isReceived, _, models, _⟩ := h
  have text := payload_toList serde sender
  rw [whole, List.append_assoc, List.cons_append] at text
  rw [received_eq, infoParts_eq text plainName free, String.ofList_toList] at isReceived
  obtain ⟨before, hasName, rfl⟩ := Option.map_eq_some_iff.mp isReceived
  obtain ⟨_, hasName', _, _, kept⟩ := named_some isName peer now (peers.lookup peer)
  cases hasName.symm.trans hasName'
  obtain ⟨e, refused⟩ := reads.cut front rest whole
  rw [listed_models _ _ _ (readModels_error refused), if_neg (not_not.mpr rfl), kept] at models
  cases found : peers.lookup peer with
  | none =>
      rw [found] at models
      rw [← models] at member
      cases member
  | some old =>
      rw [found] at models
      exact unlike old found models

/-- A plain sender's state arrives exactly if an empty list of models does not meet
another one; the state of another sender does not arrive where it was not known. -/
theorem info_transferred_iff (reads : serde.Reads sender) (isName : sender.name ≠ "") :
    (Plain sender → (Transferred serde sender peers peer now ↔ (sender.supportedModels = [] →
      ∀ old, peers.lookup peer = some old → old.supportedModels = []))) ∧
    (¬ Plain sender → (∀ old, peers.lookup peer = some old →
      old.name ≠ sender.name ∧ old.supportedModels ≠ sender.supportedModels) →
      ¬ Transferred serde sender peers peer now) := by
  constructor
  · refine fun plain => ⟨fun h empty old found => ?_, transferred_of_plain reads isName plain⟩
    obtain ⟨info, isReceived, _, models, _⟩ := h
    obtain ⟨before, hasName, _, _, kept⟩ := named_some isName peer now (peers.lookup peer)
    rw [received_eq, infoParts_plain reads plain, hasName] at isReceived
    cases isReceived
    rw [listed_models _ _ _ (readModels_ok reads.models), if_neg (not_not.mpr empty), kept, found, empty] at models
    exact models
  · intro separated unlike h
    have plainName := plain_name_of_transferred (fun old found => (unlike old found).1) h
    exact separated ⟨plainName, plain_models_of_transferred reads isName plainName
      (fun old found => (unlike old found).2) h⟩

end Transfer

/-- A model without any layer. -/
def emptyModel : SupportedModel := ⟨7, "q.pgguf", Vector.replicate 32 0⟩

def emptyModelJson : String :=
  "[\x7b\"id\":7,\"file_name\":\"q.pgguf\",\"layer_bitmap\":\"" ++ String.ofList (List.replicate 64 '0') ++
    "\"\x7d]"

/-- The JSON texts of no model, of `emptyModel`, and of no session. -/
def emptySerde : Serde where
  printModels models := if models = [] then "[]" else emptyModelJson
  bitmapTexts text := if text = emptyModelJson then [String.ofList (List.replicate 64 '0')] else []
  assemble text bitmaps :=
    if text = "[]" then .ok []
    else if text = emptyModelJson then .ok (bitmaps.map fun bitmap => ⟨7, "q.pgguf", bitmap⟩)
    else .error "expected value"
  printSessions _ := "[]"
  parseSessions text := if text = "[]" then some [] else none

/-- A node of the given name with the given models. -/
def holder (name : String) (models : List SupportedModel) : PeerInfo ℕ Unit :=
  { PeerInfo.new 1 [] 0 with name, supportedModels := models }

theorem info_transferred_iff_holder :
    (Plain (holder "w" [emptyModel]) →
      (Transferred emptySerde (holder "w" [emptyModel]) ∅ 1 0 ↔ ([emptyModel] = [] →
        ∀ old, (∅ : Peers ℕ Unit).lookup 1 = some old → old.supportedModels = []))) ∧
    (¬ Plain (holder "w" [emptyModel]) → (∀ old, (∅ : Peers ℕ Unit).lookup 1 = some old →
        old.name ≠ "w" ∧ old.supportedModels ≠ [emptyModel]) →
      ¬ Transferred emptySerde (holder "w" [emptyModel]) ∅ 1 0) := by
  have free : '|' ∉ emptyModelJson.toList := by decide +kernel
  refine info_transferred_iff ⟨by decide +kernel, by decide, ?_, ?_⟩ (by decide)
  · exact ⟨fun member => (free member).elim, fun h => absurd h (by decide)⟩
  · intro front rest whole
    have member : '|' ∈ emptyModelJson.toList := by
      rw [show emptyModelJson.toList = front ++ '|' :: rest from whole]
      simp
    exact (free member).elim

/-- A name with a separator in it, and an empty list of models where one was known. -/
theorem info_transferred_counterexample :
    ¬ Transferred emptySerde (holder "a|b" []) ∅ 1 0 ∧
      ¬ Transferred emptySerde (holder "w" []) (AList.singleton 1 (holder "w" [emptyModel])) 1 0 := by
  constructor
  · intro h
    refine plain_name_of_transferred ?_ h (by decide)
    intro old found
    cases found
  · rintro ⟨info, isReceived, _, models, _⟩
    cases isReceived
    exact absurd models (by decide)

end Pleiades.Network
