import Pleiades.Lib.Run
import Mathlib.Logic.Function.Basic
import Mathlib.Data.Finset.Card
import Mathlib.Data.Finset.Range
import Mathlib.Data.List.Infix

/-!
# Closed loops over a chain of servers

A client that has one request under way at a time, and servers that pass it on to each
other until the last one sends the reply. A server that fails ends, and so does one whose
requests have ended; the client ends when it has no more requests or gets no reply.
-/
namespace Pleiades.Lib

variable {γ α τ κ κ' : Type*}

/-- `ask` gives the next request, or ends the client; `hear` takes its reply, or that there is
none. Each reply brings the client closer to its end. -/
structure Client (γ α : Type*) where
  ask : γ → Option α × γ
  hear : γ → Option α → γ
  rank : γ → ℕ
  settles : ∀ {c a c'}, ask c = (some a, c') → ∀ b, rank (hear c' (some b)) < rank c

inductive ClientTurn where
  | ready
  | waiting
  | ended
  deriving DecidableEq, Repr

/-- Link 0 is the client's, link `i + 1` that of server `i`. A server that has ended is `none`. -/
structure Loop (γ α τ : Type*) where
  client : γ
  turn : ClientTurn
  links : ℕ → List α
  servers : ℕ → Option τ

inductive Move where
  | ask
  | hear
  | serve (i : ℕ)
  deriving DecidableEq, Repr

namespace Loop

def start (c : γ) (ts : ℕ → τ) : Loop γ α τ := ⟨c, .ready, fun _ => [], fun i => some (ts i)⟩

/-- The sender of a link has ended. -/
def closed (s : Loop γ α τ) : ℕ → Bool
  | 0 => s.turn == .ended
  | i + 1 => (s.servers i).isNone

/-- The reader of a link of a chain of `n` servers has ended. -/
def gone (n : ℕ) (s : Loop γ α τ) (i : ℕ) : Bool := if i < n then (s.servers i).isNone else s.turn == .ended

def push (s : Loop γ α τ) (i : ℕ) (a : α) : Loop γ α τ :=
  { s with links := Function.update s.links i (s.links i ++ [a]) }

def stop (s : Loop γ α τ) (i : ℕ) : Loop γ α τ := { s with servers := Function.update s.servers i none }

@[simp] theorem push_turn (s : Loop γ α τ) (i : ℕ) (a : α) : (s.push i a).turn = s.turn := rfl
@[simp] theorem push_client (s : Loop γ α τ) (i : ℕ) (a : α) : (s.push i a).client = s.client := rfl
@[simp] theorem push_servers (s : Loop γ α τ) (i : ℕ) (a : α) : (s.push i a).servers = s.servers := rfl
@[simp] theorem push_links (s : Loop γ α τ) (i : ℕ) (a : α) :
    (s.push i a).links = Function.update s.links i (s.links i ++ [a]) := rfl
@[simp] theorem stop_turn (s : Loop γ α τ) (i : ℕ) : (s.stop i).turn = s.turn := rfl
@[simp] theorem stop_client (s : Loop γ α τ) (i : ℕ) : (s.stop i).client = s.client := rfl
@[simp] theorem stop_links (s : Loop γ α τ) (i : ℕ) : (s.stop i).links = s.links := rfl
@[simp] theorem stop_servers (s : Loop γ α τ) (i : ℕ) : (s.stop i).servers = Function.update s.servers i none := rfl

variable (client : Client γ α) (serve : ℕ → τ → α → Option (τ × α)) (n : ℕ)

/-- What is sent to somebody who has ended is an error of the sender. -/
def step (s : Loop γ α τ) : Move → Option (Loop γ α τ)
  | .ask =>
    if s.turn = .ready then
      match client.ask s.client with
      | (none, c) => some { s with client := c, turn := .ended }
      | (some a, c) =>
        if s.gone n 0 then some { s with client := client.hear c none, turn := .ended }
        else some ({ s with client := c, turn := .waiting }.push 0 a)
    else none
  | .hear =>
    if s.turn = .waiting then
      match s.links n with
      | b :: rest => some { s with
          client := client.hear s.client (some b), turn := .ready, links := Function.update s.links n rest }
      | [] => if s.closed n then some { s with client := client.hear s.client none, turn := .ended } else none
    else none
  | .serve i =>
    if i < n then
      match s.servers i, s.links i with
      | none, _ => none
      | some t, a :: rest =>
        let s := { s with links := Function.update s.links i rest }
        match serve i t a with
        | none => some (s.stop i)
        | some (t, b) =>
          if s.gone n (i + 1) then some (s.stop i)
          else some ({ s with servers := Function.update s.servers i (some t) }.push (i + 1) b)
      | some _, [] => if s.closed i then some (s.stop i) else none
    else none

end Loop

/-- A request as it arrives at server `i`, when the servers are in the states `ts`. -/
def passed (serve : ℕ → τ → α → Option (τ × α)) (ts : ℕ → τ) (a : α) : ℕ → Option α
  | 0 => some a
  | i + 1 => (passed serve ts a i).bind fun x => (serve i (ts i) x).map Prod.snd

/-- The servers when the request has passed them. -/
def passedBy (serve : ℕ → τ → α → Option (τ × α)) (ts : ℕ → τ) (a : α) (i : ℕ) : τ :=
  ((passed serve ts a i).bind fun x => (serve i (ts i) x).map Prod.fst).getD (ts i)

/-- A single server that stands for a chain of `n`. -/
structure Chain (whole : κ → α → Option (κ × α)) (serve : ℕ → τ → α → Option (τ × α)) (n : ℕ)
    (R : κ → (ℕ → τ) → Prop) : Prop where
  fails : ∀ {k ts a}, R k ts → whole k a = none → passed serve ts a n = none
  moves : ∀ {k ts a k' b}, R k ts → whole k a = some (k', b) →
    passed serve ts a n = some b ∧ R k' (passedBy serve ts a)

namespace Client

variable (client : Client γ α)

/-- The client with a single server, for at most `fuel` requests. -/
def alone (whole : κ → α → Option (κ × α)) : ℕ → γ → κ → γ
  | 0, c, _ => c
  | fuel + 1, c, k =>
    match client.ask c with
    | (none, c) => c
    | (some a, c) =>
      match whole k a with
      | none => client.hear c none
      | some (k, b) => alone whole fuel (client.hear c (some b)) k

/-- The client with a single server until it ends. -/
def outcome (whole : κ → α → Option (κ × α)) (c : γ) (k : κ) : γ := client.alone whole (client.rank c + 1) c k

variable {client} {whole : κ → α → Option (κ × α)} {c c' : γ} {k k' : κ} {a b : α}

theorem alone_enough {fuel fuel' : ℕ} (enough : client.rank c < fuel) (enough' : client.rank c < fuel') :
    client.alone whole fuel c k = client.alone whole fuel' c k := by
  induction fuel generalizing fuel' c k with
  | zero => cases enough
  | succ fuel ih =>
      obtain ⟨more, rfl⟩ : ∃ more, fuel' = more + 1 := ⟨fuel' - 1, by omega⟩
      rw [alone, alone]
      cases asked : client.ask c with
      | mk request c' =>
          cases request with
          | none => rfl
          | some a =>
              dsimp only
              cases whole k a with
              | none => rfl
              | some reply =>
                  have closer := client.settles asked reply.2
                  exact ih (closer.trans_le (Nat.lt_succ_iff.mp enough)) (closer.trans_le (Nat.lt_succ_iff.mp enough'))

theorem outcome_ends (asked : client.ask c = (none, c')) : client.outcome whole c k = c' := by
  rw [outcome, alone, asked]

theorem outcome_fails (asked : client.ask c = (some a, c')) (fails : whole k a = none) :
    client.outcome whole c k = client.hear c' none := by
  rw [outcome, alone, asked]
  dsimp only
  rw [fails]

theorem outcome_moves (asked : client.ask c = (some a, c')) (moves : whole k a = some (k', b)) :
    client.outcome whole c k = client.outcome whole (client.hear c' (some b)) k' := by
  have closer := client.settles asked b
  rw [outcome, alone, asked]
  dsimp only
  rw [moves]
  exact alone_enough closer (Nat.lt_succ_self _)

/-- Servers that answer alike, whatever the client has been told, lead it to the same end. -/
theorem outcome_eq_of_sim {whole' : κ' → α → Option (κ' × α)} (Q : γ → κ → κ' → Prop)
    (sim : ∀ {c k l a c'}, Q c k l → client.ask c = (some a, c') → (whole k a = none ∧ whole' l a = none) ∨
      ∃ k' l' b, whole k a = some (k', b) ∧ whole' l a = some (l', b) ∧ Q (client.hear c' (some b)) k' l')
    {l : κ'} (related : Q c k l) : client.outcome whole c k = client.outcome whole' c l := by
  rw [outcome, outcome]
  generalize client.rank c + 1 = fuel
  induction fuel generalizing c k l with
  | zero => rfl
  | succ fuel ih =>
      rw [alone, alone]
      cases asked : client.ask c with
      | mk request c' =>
          cases request with
          | none => rfl
          | some a =>
              dsimp only
              rcases sim related asked with ⟨fails, fails'⟩ | ⟨k', l', b, moves, moves', onward⟩
              · rw [fails, fails']
              · rw [moves, moves']
                exact ih onward

end Client

section Passing

variable {serve : ℕ → τ → α → Option (τ × α)} {ts : ℕ → τ} {a x b : α} {t : τ} {i n : ℕ}

theorem passed_none (none : passed serve ts a i = none) (later : i ≤ n) : passed serve ts a n = Option.none := by
  induction later with
  | refl => exact none
  | step _ ih => rw [passed, ih, Option.bind_none]

theorem passed_next (arrives : passed serve ts a i = some x) :
    passed serve ts a (i + 1) = (serve i (ts i) x).map Prod.snd := by rw [passed, arrives, Option.bind_some]

theorem passedBy_eq (arrives : passed serve ts a i = some x) (served : serve i (ts i) x = some (t, b)) :
    passedBy serve ts a i = t := by
  rw [passedBy, arrives, Option.bind_some, served]
  rfl

/-- The first server passes its answer on to the others. -/
theorem passed_first (serve : ℕ → τ → α → Option (τ × α)) (ts : ℕ → τ) (a : α) (i : ℕ) :
    passed serve ts a (i + 1) =
      (serve 0 (ts 0) a).bind fun r => passed (fun j => serve (j + 1)) (fun j => ts (j + 1)) r.2 i := by
  induction i with
  | zero => cases h : serve 0 (ts 0) a <;> simp [passed, h]
  | succ i ih =>
      rw [passed, ih]
      cases serve 0 (ts 0) a <;> rfl

theorem passedBy_later (served : serve 0 (ts 0) a = some (t, b)) (i : ℕ) :
    passedBy serve ts a (i + 1) = passedBy (fun j => serve (j + 1)) (fun j => ts (j + 1)) b i := by
  rw [passedBy, passed_first, served]
  rfl

theorem passedBy_first (served : serve 0 (ts 0) a = some (t, b)) : passedBy serve ts a 0 = t :=
  passedBy_eq rfl served

end Passing

/-- A server is a chain of one. -/
theorem Chain.single (serve : ℕ → τ → α → Option (τ × α)) : Chain (serve 0) serve 1 fun k ts => k = ts 0 where
  fails := by
    rintro _ ts a rfl fails
    rw [passed_next rfl, fails]
    rfl
  moves := by
    rintro _ ts a k' b rfl moves
    exact ⟨by rw [passed_next rfl, moves]; rfl, (passedBy_first moves).symm⟩

/-- A server in front of a chain, when `whole` stands for the two of them. -/
theorem Chain.cons (serve : ℕ → τ → α → Option (τ × α)) {n : ℕ} {upper : κ → α → Option (κ × α)}
    {whole : κ' → α → Option (κ' × α)} {R : κ → (ℕ → τ) → Prop} (join : τ → κ → κ')
    (chain : Chain upper (fun i => serve (i + 1)) n R)
    (fails : ∀ {t k a}, serve 0 t a = none → whole (join t k) a = none)
    (moves : ∀ {t k a t' b}, serve 0 t a = some (t', b) →
      whole (join t k) a = (upper k b).map fun r => (join t' r.1, r.2)) :
    Chain whole serve (n + 1) fun l ts => ∃ k, l = join (ts 0) k ∧ R k fun i => ts (i + 1) where
  fails := by
    rintro _ ts a ⟨k, rfl, related⟩ none
    rw [passed_first]
    cases served : serve 0 (ts 0) a with
    | none => rfl
    | some r =>
        rw [moves served, Option.map_eq_none_iff] at none
        exact chain.fails related none
  moves := by
    rintro _ ts a l' b ⟨k, rfl, related⟩ some
    cases served : serve 0 (ts 0) a with
    | none =>
        rw [fails served] at some
        cases some
    | some r =>
        rw [moves served] at some
        obtain ⟨⟨k', b'⟩, onward, same⟩ := Option.map_eq_some_iff.mp some
        obtain ⟨rfl, rfl⟩ := Prod.mk.inj same
        obtain ⟨reaches, above⟩ := chain.moves related onward
        refine ⟨?_, k', ?_, ?_⟩
        · rw [passed_first, served]
          exact reaches
        · rw [passedBy_first served]
        · simp only [passedBy_later served]
          exact above

namespace Loop

/-- How many of `n` servers run. -/
def running (n : ℕ) (s : Loop γ α τ) : ℕ := ((Finset.range n).filter fun i => (s.servers i).isSome).card

variable {client : Client γ α} {serve : ℕ → τ → α → Option (τ × α)} {n : ℕ} {whole : κ → α → Option (κ × α)}
  {R : κ → (ℕ → τ) → Prop} {target : γ}

theorem running_le (n : ℕ) (s : Loop γ α τ) : s.running n ≤ n :=
  (Finset.card_filter_le _ _).trans_eq (Finset.card_range n)

theorem running_stop {s : Loop γ α τ} {i : ℕ} (small : i < n) (runs : (s.servers i).isSome = true) :
    (s.stop i).running n < s.running n := by
  apply Finset.card_lt_card
  constructor
  · intro j member
    obtain ⟨below, still⟩ := Finset.mem_filter.mp member
    have other : j ≠ i := by
      rintro rfl
      simp at still
    exact Finset.mem_filter.mpr ⟨below, by rwa [stop_servers, Function.update_of_ne other] at still⟩
  · intro all
    have still := (Finset.mem_filter.mp (all (Finset.mem_filter.mpr ⟨Finset.mem_range.mpr small, runs⟩))).2
    simp at still

/-- Where a loop stands whose client is to end as `target`; at most `left` moves are still to come. -/
inductive Stands (client : Client γ α) (serve : ℕ → τ → α → Option (τ × α)) (n : ℕ) (whole : κ → α → Option (κ × α))
    (R : κ → (ℕ → τ) → Prop) (target : γ) : ℕ → Loop γ α τ → Prop
  | idle {s ts k} : s.turn = .ready → R k ts → (∀ i, s.links i = []) → (∀ i < n, s.servers i = some (ts i)) →
      client.outcome whole s.client k = target →
      Stands client serve n whole R target (client.rank s.client * (n + 2) + 1 + n) s
  | underWay {s ts k c a x i} : s.turn = .waiting → R k ts → client.ask c = (some a, s.client) →
      client.outcome whole c k = target → i ≤ n → passed serve ts a i = some x → s.links i = [x] →
      (∀ j ≠ i, s.links j = []) → (∀ j < n, s.servers j = some (if j < i then passedBy serve ts a j else ts j)) →
      Stands client serve n whole R target ((client.rank c - 1) * (n + 2) + (n - i) + 2 + n) s
  | lost {s} : s.turn = .waiting → (∀ i, s.links i = []) → (∃ i < n, s.servers i = none) →
      client.hear s.client none = target → Stands client serve n whole R target (1 + s.running n) s
  | finished {s} : s.turn = .ended → (∀ i, s.links i = []) → s.client = target →
      Stands client serve n whole R target (s.running n) s

variable {s t : Loop γ α τ} {left : ℕ} {move : Move}

theorem stop_ended {i j : ℕ} (ended : s.servers j = none) : (s.stop i).servers j = none := by
  rw [stop_servers, Function.update_apply]
  split
  · rfl
  · exact ended

/-- A server without requests only ends. -/
theorem serve_idle {i : ℕ} (small : i < n) (none : s.links i = []) {t : τ} (runs : s.servers i = some t) :
    step client serve n s (.serve i) = if s.closed i then some (s.stop i) else Option.none := by
  simp [step, small, none, runs]

theorem serve_ended {i : ℕ} (ended : s.servers i = none) : step client serve n s (.serve i) = none := by
  rw [step, ended]
  split <;> rfl

/-- As long as nothing has ended no link is closed. -/
theorem open_link (all : ∀ i < n, (s.servers i).isSome = true) (runs : s.turn ≠ .ended) {i : ℕ} (small : i ≤ n) :
    s.closed i = false ∧ s.gone n i = false := by
  constructor
  · cases i with
    | zero => simpa [closed] using runs
    | succ i =>
        obtain ⟨t, found⟩ := Option.isSome_iff_exists.mp (all i small)
        simp [closed, found]
  · unfold gone
    split
    · next below =>
        obtain ⟨t, found⟩ := Option.isSome_iff_exists.mp (all i below)
        rw [found]
        rfl
    · simpa using runs

theorem update_empty {links : ℕ → List α} {i : ℕ} (others : ∀ j ≠ i, links j = []) (j : ℕ) :
    Function.update links i [] j = [] := by
  by_cases same : j = i
  · rw [same, Function.update_self]
  · rw [Function.update_of_ne same, others j same]

/-- The request of a loop is sent to the first server. -/
theorem Stands.step_idle {ts : ℕ → τ} {k : κ} (ready : s.turn = .ready) (related : R k ts) (links : ∀ i, s.links i = [])
    (servers : ∀ i < n, s.servers i = some (ts i)) (outcome : client.outcome whole s.client k = target)
    (moved : step client serve n s move = some t) :
    ∃ left < client.rank s.client * (n + 2) + 1 + n, Stands client serve n whole R target left t := by
  have all (i : ℕ) (small : i < n) : (s.servers i).isSome = true := by rw [servers i small]; rfl
  have open_ {i : ℕ} (small : i ≤ n) := open_link all (by simp [ready]) small
  cases move with
  | hear => simp [step, ready] at moved
  | serve i =>
      by_cases small : i < n
      · rw [serve_idle small (links i) (servers i small), (open_ small.le).1] at moved
        cases moved
      · simp [step, small] at moved
  | ask =>
      cases asked : client.ask s.client with
      | mk request c =>
          cases request with
          | none =>
              simp only [step, ready, if_true, asked] at moved
              cases moved
              exact ⟨_, (running_le n _).trans_lt (by omega),
                .finished rfl links ((client.outcome_ends asked).symm.trans outcome)⟩
          | some a =>
              simp only [step, ready, if_true, asked, (open_ (Nat.zero_le n)).2] at moved
              cases moved
              have closer := client.settles asked a
              refine ⟨_, ?_,
                .underWay (a := a) (x := a) (c := s.client) rfl related asked outcome (Nat.zero_le n) rfl ?_ ?_ ?_⟩
              · obtain ⟨rank, positive⟩ : ∃ rank, client.rank s.client = rank + 1 :=
                  ⟨client.rank s.client - 1, by omega⟩
                rw [positive, Nat.add_sub_cancel, Nat.succ_mul]
                omega
              · simp [links]
              · intro j other
                simp [Function.update_of_ne other, links]
              · intro j small
                simpa using servers j small

/-- The request goes on to the next server, or back to the client. -/
theorem Stands.step_underWay (chain : Chain whole serve n R) {ts : ℕ → τ} {k : κ} {c : γ} {a x : α} {i : ℕ}
    (waiting : s.turn = .waiting) (related : R k ts) (asked : client.ask c = (some a, s.client))
    (outcome : client.outcome whole c k = target) (upTo : i ≤ n) (arrives : passed serve ts a i = some x)
    (here : s.links i = [x]) (others : ∀ j ≠ i, s.links j = [])
    (servers : ∀ j < n, s.servers j = some (if j < i then passedBy serve ts a j else ts j))
    (moved : step client serve n s move = some t) :
    ∃ left < (client.rank c - 1) * (n + 2) + (n - i) + 2 + n, Stands client serve n whole R target left t := by
  have all (j : ℕ) (small : j < n) : (s.servers j).isSome = true := by rw [servers j small]; rfl
  have open_ {j : ℕ} (small : j ≤ n) := open_link all (by simp [waiting]) small
  cases move with
  | ask => simp [step, waiting] at moved
  | hear =>
      by_cases last : i = n
      · subst last
        simp only [step, waiting, if_true, here] at moved
        cases moved
        cases served : whole k a with
        | none => simp [chain.fails related served] at arrives
        | some reply =>
            obtain ⟨same, onward⟩ := chain.moves related served
            obtain rfl : x = reply.2 := Option.some.inj (arrives.symm.trans same)
            have closer := client.settles asked reply.2
            refine ⟨_, ?_, .idle rfl onward ?_ ?_ ((client.outcome_moves asked served).symm.trans outcome)⟩
            · have rounds := Nat.mul_le_mul_right (i + 2) (Nat.le_sub_one_of_lt closer)
              dsimp only
              omega
            · exact update_empty others
            · intro j small
              rw [servers j small, if_pos small]
      · have none : s.links n = [] := others n (Ne.symm last)
        simp [step, waiting, none, (open_ le_rfl).1] at moved
  | serve j =>
      by_cases small : j < n
      · by_cases other : j = i
        · subst other
          have state : s.servers j = some (ts j) := by rw [servers j small, if_neg (lt_irrefl j)]
          have passes := passed_next arrives
          cases served : serve j (ts j) x with
          | none =>
              rw [served] at passes
              have broken : whole k a = none := by
                cases alone : whole k a with
                | none => rfl
                | some reply =>
                    have reaches := (chain.moves related alone).1
                    rw [passed_none passes small] at reaches
                    cases reaches
              simp only [step, small, if_true, state, here, served] at moved
              cases moved
              refine ⟨_, ?_, .lost waiting ?_ ⟨j, small, ?_⟩ ((client.outcome_fails asked broken).symm.trans outcome)⟩
              · have count := running_le n (stop { s with links := Function.update s.links j [] } j)
                omega
              · exact update_empty others
              · exact Function.update_self ..
          | some reply =>
              rw [served] at passes
              obtain ⟨t', b⟩ := reply
              have free : gone n { s with links := Function.update s.links j [] } (j + 1) = false := (open_ small).2
              simp only [step, small, if_true, state, here, served, free] at moved
              cases moved
              refine ⟨_, ?_, .underWay waiting related asked outcome small passes ?_ ?_ ?_⟩
              · omega
              · rw [push_links, Function.update_self]
                exact congrArg (· ++ [b]) (update_empty others (j + 1))
              · intro l other
                rw [push_links, Function.update_of_ne other]
                exact update_empty others l
              · intro l below
                rw [push_servers]
                dsimp only
                by_cases same : l = j
                · rw [same, Function.update_self, if_pos (Nat.lt_succ_self j), passedBy_eq arrives served]
                · have order : l < j + 1 ↔ l < j := by omega
                  rw [Function.update_of_ne same, servers l below]
                  simp only [order]
        · rw [serve_idle small (others j other) (servers j small), (open_ small.le).1] at moved
          cases moved
      · simp [step, small] at moved

theorem Stands.step_lost (waiting : s.turn = .waiting) (links : ∀ i, s.links i = [])
    (some : ∃ i < n, s.servers i = none)
    (outcome : client.hear s.client none = target) (moved : step client serve n s move = Option.some t) :
    ∃ left < 1 + s.running n, Stands client serve n whole R target left t := by
  cases move with
  | ask => simp [step, waiting] at moved
  | hear =>
      by_cases closed : s.closed n
      · simp only [step, waiting, if_true, links, closed] at moved
        cases moved
        refine ⟨_, ?_, .finished rfl ?_ outcome⟩
        · exact Nat.lt_one_add_iff.mpr le_rfl
        · exact links
      · simp [step, waiting, links, closed] at moved
  | serve i =>
      by_cases small : i < n
      · cases runs : s.servers i with
        | none => simp [serve_ended runs] at moved
        | some state =>
            rw [serve_idle small (links i) runs] at moved
            split at moved
            · cases moved
              obtain ⟨j, below, ended⟩ := some
              refine ⟨_, ?_, .lost waiting links ⟨j, below, stop_ended ended⟩ outcome⟩
              exact Nat.add_lt_add_left (running_stop small (by rw [runs]; rfl)) 1
            · cases moved
      · simp [step, small] at moved

theorem Stands.step_over (ended : s.turn = .ended) (links : ∀ i, s.links i = []) (outcome : s.client = target)
    (moved : step client serve n s move = some t) :
    ∃ left < s.running n, Stands client serve n whole R target left t := by
  cases move with
  | ask => simp [step, ended] at moved
  | hear => simp [step, ended] at moved
  | serve i =>
      by_cases small : i < n
      · cases runs : s.servers i with
        | none => simp [serve_ended runs] at moved
        | some state =>
            rw [serve_idle small (links i) runs] at moved
            split at moved
            · cases moved
              exact ⟨_, running_stop small (by rw [runs]; rfl), .finished ended links outcome⟩
            · cases moved
      · simp [step, small] at moved

theorem Stands.step (chain : Chain whole serve n R) (stands : Stands client serve n whole R target left s)
    (moved : Loop.step client serve n s move = some t) :
    ∃ left' < left, Stands client serve n whole R target left' t := by
  cases stands with
  | idle ready related links servers outcome => exact step_idle ready related links servers outcome moved
  | underWay waiting related asked outcome upTo arrives here others servers =>
      exact step_underWay chain waiting related asked outcome upTo arrives here others servers moved
  | lost waiting links some outcome => exact step_lost waiting links some outcome moved
  | finished ended links outcome => exact step_over ended links outcome moved

/-- In a loop that cannot move all have ended. -/
theorem Stands.stuck (stands : Stands client serve n whole R target left s)
    (stuck : ∀ move, Loop.step client serve n s move = none) :
    s.turn = .ended ∧ s.client = target ∧ ∀ i < n, s.servers i = none := by
  have quiet (links : ∀ i, s.links i = []) {i : ℕ} (small : i < n) (closed : s.closed i = true) :
      s.servers i = none := by
    cases runs : s.servers i with
    | none => rfl
    | some t =>
        have stays := stuck (.serve i)
        rw [serve_idle small (links i) runs, if_pos closed] at stays
        cases stays
  cases stands with
  | idle ready =>
      have stays := stuck .ask
      rw [Loop.step, if_pos ready] at stays
      split at stays
      · cases stays
      · split at stays <;> cases stays
  | @underWay _ ts k c a x i waiting related asked outcome upTo arrives here others servers =>
      rcases upTo.lt_or_eq with small | rfl
      · have stays := stuck (.serve i)
        simp only [Loop.step, small, if_true, servers i small, here] at stays
        split at stays
        · cases stays
        · split at stays <;> cases stays
      · have stays := stuck .hear
        simp [Loop.step, waiting, here] at stays
  | lost waiting links some outcome =>
      obtain ⟨i, small, ended⟩ := some
      -- one server after the other ends behind server `i`
      have later (d : ℕ) : i + d < n → s.servers (i + d) = none := by
        induction d with
        | zero => exact fun _ => ended
        | succ d ih =>
            intro below
            refine quiet links below ?_
            rw [← Nat.add_assoc, closed, ih (by omega)]
            rfl
      obtain ⟨last, rfl⟩ : ∃ last, n = last + 1 := ⟨n - 1, by omega⟩
      have end_ : i + (last - i) = last := by omega
      have stays := stuck .hear
      have over_ := later (last - i) (by omega)
      rw [end_] at over_
      simp [Loop.step, waiting, links, closed, over_] at stays
  | finished ended links outcome =>
      refine ⟨ended, outcome, fun i => ?_⟩
      induction i with
      | zero => exact fun small => quiet links small (by simp [closed, ended])
      | succ i ih => exact fun small => quiet links small (by simp [closed, ih (Nat.lt_of_succ_lt small)])

theorem Stands.ended (stands : Stands client serve n whole R target left s) (ended : s.turn = .ended) :
    s.client = target := by
  cases stands with
  | idle ready => simp [ready] at ended
  | underWay waiting => simp [waiting] at ended
  | lost waiting => simp [waiting] at ended
  | finished _ _ outcome => exact outcome

/-- What a client has written down stays. -/
theorem Stands.log {δ : Type*} (log : γ → List δ) (asks : ∀ c, log c <+: log (client.ask c).2)
    (hears : ∀ c b, log c <+: log (client.hear c b)) (stands : Stands client serve n whole R target left s) :
    log s.client <+: log target := by
  have asked {c c' : γ} {request : Option α} (request : client.ask c = (request, c')) : log c <+: log c' := by
    have here := asks c
    rwa [request] at here
  have onward (fuel : ℕ) (c : γ) (k : κ) : log c <+: log (client.alone whole fuel c k) := by
    induction fuel generalizing c k with
    | zero => exact List.prefix_rfl
    | succ fuel ih =>
        rw [Client.alone]
        split
        · next request => exact asked request
        · next request =>
            split
            · exact (asked request).trans (hears _ _)
            · exact ((asked request).trans (hears _ _)).trans (ih _ _)
  cases stands with
  | idle ready related links servers outcome => exact outcome ▸ onward _ _ _
  | @underWay _ ts k c a x i waiting related request outcome =>
      rw [← outcome, Client.outcome, Client.alone, request]
      dsimp only
      split
      · exact hears _ _
      · exact (hears _ _).trans (onward _ _ _)
  | lost waiting links some outcome => exact outcome ▸ hears _ _
  | finished ended links outcome => exact outcome ▸ List.prefix_rfl

/-- A loop over a chain of servers is the loop with the single server that stands for them: it comes
to its end in a bounded number of moves, whatever their order, and the client ends as it does alone. -/
theorem closed_loop {c : γ} {ts : ℕ → τ} {k : κ} (chain : Chain whole serve n R) (related : R k ts)
    {tr : List (Loop γ α τ × Move)} (run : Run (Loop.step client serve n) (start c ts) tr s) :
    ∃ left, tr.length + left ≤ client.rank c * (n + 2) + 1 + n ∧
      Stands client serve n whole R (client.outcome whole c k) left s := by
  induction run with
  | nil => exact ⟨_, (Nat.zero_add _).le, .idle (s := start c ts) rfl related (fun _ => rfl) (fun _ _ => rfl) rfl⟩
  | snoc _ moved ih =>
      obtain ⟨left, bound, stands⟩ := ih
      obtain ⟨left', fewer, onward⟩ := stands.step chain moved
      refine ⟨left', ?_, onward⟩
      rw [List.length_append, List.length_singleton]
      omega

end Loop

end Pleiades.Lib
