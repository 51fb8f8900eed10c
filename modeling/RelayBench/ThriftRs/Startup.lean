import RelayBench.Library.Execution
import RelayBench.ThriftRs.Model

/-! # How the Rust thrift chain starts

`main` spawns the sink's thread and then those of the relays, the last relay first; its sleeps
order nothing. A relay connects to the next server before it listens itself. A thread panics
where its connection is refused or its port is taken; with `main` the process ends. The sink
is server `numRelays`, and the field `log` records what happened.
-/
namespace RelayBench.ThriftRsStartup
open Execution Ports ThriftRs Function

inductive MainPc
  | spawnSink
  | spawnRelays (left : ℕ)
  | connecting
  | looping
  | panicked
deriving DecidableEq, Repr

inductive ServerPc
  | unspawned
  | connecting
  | binding
  | listening
  | panicked
deriving DecidableEq, Repr

/-- A server listens; the client of a hop has got a connection to a server. -/
inductive Event
  | listens (server : ℕ)
  | connects (hop server : ℕ)
deriving DecidableEq, Repr

structure State where
  main : MainPc
  server : ℕ → ServerPc
  log : List Event

def init : State := ⟨.spawnSink,fun _ => .unspawned,[]⟩

/-- The operating system lets the thread have its connection or its port, or not. -/
inductive Label
  | main (granted : Bool)
  | server (k : ℕ) (granted : Bool)
deriving DecidableEq, Repr

/-- The server that accepts a connection to this port. -/
def State.accepts (numRelays : ℕ) (s : State) (p : ℕ) : Option ℕ :=
  match Ports.listening RELAY_PORT_START numRelays p with
  | none => none
  | some (.relay i) => if s.server i = .listening then some i else none
  | some .sink => if s.server numRelays = .listening then some numRelays else none

/-- `create_client`, none where the `unwrap` panics. -/
def createClient (numRelays : ℕ) (granted : Bool) (s : State) (index : ℕ) : Option ℕ :=
  if granted then s.accepts numRelays (port index) else none

def mainStep (numRelays : ℕ) (granted : Bool) (s : State) : Option State :=
  match s.main with
  | .spawnSink =>
    some { s with server := update s.server numRelays .binding, main := .spawnRelays numRelays }
  | .spawnRelays 0 => some { s with main := .connecting }
  | .spawnRelays (i + 1) =>
    some { s with server := update s.server i .connecting, main := .spawnRelays i }
  | .connecting =>
    match createClient numRelays granted s 0 with
    | none => some { s with main := .panicked }
    | some k => some { s with main := .looping, log := s.log ++ [.connects 0 k] }
  | .looping => none
  | .panicked => none

/-- `relay_loop` and `sink_loop` up to the loop of `listen`. -/
def serverStep (numRelays k : ℕ) (granted : Bool) (s : State) : Option State :=
  match s.server k with
  | .connecting =>
    match createClient numRelays granted s (k + 1) with
    | none => some { s with server := update s.server k .panicked }
    | some j => some { s with
        server := update s.server k .binding, log := s.log ++ [.connects (k + 1) j] }
  | .binding =>
    if granted then
      some { s with server := update s.server k .listening, log := s.log ++ [.listens k] }
    else some { s with server := update s.server k .panicked }
  | _ => none

def step (numRelays : ℕ) (s : State) : Label → Option State
  | .main granted => mainStep numRelays granted s
  | .server k granted => if s.main = .panicked then none else serverStep numRelays k granted s

/-! ## The only order -/

/-- From the sink back to `main`, a server listens and then the hop to it is connected. -/
def order : ℕ → List Event
  | 0 => [.listens 0,.connects 0 0]
  | k + 1 => .listens (k + 1) :: .connects (k + 1) (k + 1) :: order k

variable {numRelays : ℕ} {s t : State} {l : Label} {ls : List Label}

theorem order_length (n : ℕ) : (order n).length = 2 * n + 2 := by
  induction n with
  | zero => rfl
  | succ n ih => rw [order, List.length_cons, List.length_cons, ih]; ring

/-- What every thread has done is read off the length of the log. -/
structure Ordered (numRelays : ℕ) (s : State) : Prop where
  log : s.log <+: order numRelays
  listening : ∀ k, s.server k = .listening ↔ k ≤ numRelays ∧ 2 * (numRelays - k) < s.log.length
  binding : ∀ k, s.server k = .binding → k ≤ numRelays ∧ 2 * (numRelays - k) ≤ s.log.length
  connecting : ∀ k, s.server k = .connecting →
    k < numRelays ∧ s.log.length < 2 * (numRelays - k)
  first : s.main = .spawnSink → s.log = [] ∧ ∀ k, s.server k = .unspawned
  left : ∀ i, s.main = .spawnRelays i → i ≤ numRelays ∧
    s.log.length ≤ 2 * (numRelays - i) + 1 ∧ ∀ k < i, s.server k = .unspawned
  looping : s.main = .looping ↔ s.log.length = 2 * numRelays + 2
  spawned : ∀ k, s.server k ≠ .unspawned → k ≤ numRelays

theorem update_spawned {server : ℕ → ServerPc} (h : ∀ k, server k ≠ .unspawned → k ≤ numRelays)
    {k : ℕ} (hk : k ≤ numRelays) (pc : ServerPc) :
    ∀ j, update server k pc j ≠ .unspawned → j ≤ numRelays := by
  intro j hj
  rcases eq_or_ne j k with rfl | hne
  · exact hk
  · exact h j (by rwa [update_of_ne hne] at hj)

theorem Ordered.length_le (h : Ordered numRelays s) : s.log.length ≤ 2 * numRelays + 2 :=
  order_length numRelays ▸ h.log.length_le

theorem Ordered.panic (h : Ordered numRelays s) {k : ℕ} (hk : s.server k ≠ .unspawned)
    (hlistening : s.server k ≠ .listening) :
    Ordered numRelays { s with server := update s.server k .panicked } := by
  refine ⟨h.log,fun j => ?_,fun j => ?_,fun j => ?_,fun hmain => ?_,fun i hi => ?_,h.looping,
    update_spawned h.spawned (h.spawned k hk) _⟩
  · rcases eq_or_ne j k with rfl | hne
    · simpa using fun hle => not_lt.mp (fun hlt => hlistening ((h.listening j).mpr ⟨hle,hlt⟩))
    · simpa [update_of_ne hne] using h.listening j
  · rcases eq_or_ne j k with rfl | hne
    · simp
    · simpa [update_of_ne hne] using h.binding j
  · rcases eq_or_ne j k with rfl | hne
    · simp
    · simpa [update_of_ne hne] using h.connecting j
  · exact absurd ((h.first hmain).2 k) hk
  · obtain ⟨hle,hlen,hserver⟩ := h.left i hi
    refine ⟨hle,hlen,fun j hj => ?_⟩
    rcases eq_or_ne j k with rfl | hne
    · exact absurd (hserver j hj) hk
    · simpa [update_of_ne hne] using hserver j hj

end RelayBench.ThriftRsStartup
