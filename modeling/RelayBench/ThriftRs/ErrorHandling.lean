import RelayBench.ThriftRs.Model

/-! # A relay whose downstream calls may fail

`handle_bench` unwraps what its client returns while it holds the client's mutex. An `Err`
makes it panic and leaves the mutex poisoned, after which every request panics at the lock.
-/
namespace RelayBench.ThriftRs
open RemoteCall Function
variable {index : ℕ} {s : State}

/-- `client.bench` with the outcome it is going to have. -/
def clientOutcome (outcome : Except String ℤ) : Call Timing State ℤ := fun _ s =>
  match outcome with
  | .ok v => (s,.replied v)
  | .error _ => (s,.failed)

/-- A request to the relay and the outcome of its downstream call, if it comes to one. -/
structure RelayRequest where
  arg : Timing
  outcome : Except String ℤ

/-- What `handle_bench` returns to each of a sequence of requests. -/
def handleBenches (index : ℕ) : State → List RelayRequest → List (Reply (Except String ℤ))
  | _, [] => []
  | s, c :: cs =>
    let r := relayBench index (clientOutcome c.outcome) c.arg s
    r.2 :: handleBenches index r.1 cs

/-- `Ok` for `Ok` and `Err` for `Err`, without a panic. -/
def PassesOn (c : RelayRequest) (reply : Reply (Except String ℤ)) : Prop :=
  match c.outcome with
  | .ok _ => ∃ v, reply = .replied (.ok v)
  | .error _ => ∃ text, reply = .replied (.error text)

theorem relayBench_poisoned (h : s.clientPoisoned index = true) (client : Call Timing State ℤ)
    (arg : Timing) : relayBench index client arg s = (s,.failed) := if_pos h

theorem relayBench_ok (h : s.clientPoisoned index = false) (arg : Timing) (v : ℤ) :
    relayBench index (clientOutcome (.ok v)) arg s = (s,.replied (.ok 0)) := by
  simp [relayBench, clientOutcome, h]

theorem relayBench_error (h : s.clientPoisoned index = false) (arg : Timing) (text : String) :
    relayBench index (clientOutcome (.error text)) arg s =
      ({ s with clientPoisoned := update s.clientPoisoned index true },.failed) := by
  simp [relayBench, clientOutcome, h]

/-- Behind a poisoned mutex every request panics, whatever its downstream call would do. -/
theorem handleBenches_poisoned (h : s.clientPoisoned index = true) (cs : List RelayRequest) :
    handleBenches index s cs = List.replicate cs.length .failed := by
  induction cs with
  | nil => rfl
  | cons c cs ih =>
    simp only [handleBenches, relayBench_poisoned h, ih]
    rfl

/-- Until the first `Err` every request is answered, from there on none is. -/
theorem handleBenches_eq (h : s.clientPoisoned index = false) (cs : List RelayRequest) :
    handleBenches index s cs =
      List.replicate (cs.takeWhile (fun c => c.outcome.isOk)).length (.replied (.ok 0)) ++
      List.replicate (cs.dropWhile (fun c => c.outcome.isOk)).length .failed := by
  induction cs with
  | nil => rfl
  | cons c cs ih =>
    obtain ⟨arg,outcome⟩ := c
    cases outcome with
    | ok v =>
      simp only [handleBenches, relayBench_ok h, ih]
      rfl
    | error text =>
      have hpoisoned := @handleBenches_poisoned index
        { s with clientPoisoned := update s.clientPoisoned index true } (update_self _ _ _) cs
      simp only [handleBenches, relayBench_error h, hpoisoned]
      rfl

/-- A relay passes on all outcomes of a sequence exactly when none of them is an `Err`. -/
theorem relay_passesOn_iff (index : ℕ) (cs : List RelayRequest) :
    List.Forall₂ PassesOn cs (handleBenches index init cs) ↔ ∀ c ∈ cs, ∃ v, c.outcome = .ok v := by
  generalize hs : init = s
  have h : s.clientPoisoned index = false := hs ▸ rfl
  clear hs
  induction cs with
  | nil => simp [handleBenches]
  | cons c cs ih =>
    obtain ⟨arg,outcome⟩ := c
    cases outcome with
    | ok v =>
      simp only [handleBenches, relayBench_ok h, List.forall₂_cons, ih]
      simp [PassesOn]
    | error text =>
      simp only [handleBenches, relayBench_error h, List.forall₂_cons]
      simp [PassesOn]

/-- One failed call, and the next request is not answered although its call would succeed. -/
theorem relay_unusable : let cs : List RelayRequest := [⟨⟨0,5,"client"⟩,.error "connection closed"⟩,
      ⟨⟨1,6,"client"⟩,.ok 0⟩]
    handleBenches 0 init cs = [.failed,.failed] ∧
      ¬ List.Forall₂ PassesOn cs (handleBenches 0 init cs) := by
  intro cs
  have hrun : handleBenches 0 init cs = [.failed,.failed] := by
    rw [handleBenches_eq rfl]
    rfl
  refine ⟨hrun,?_⟩
  rw [hrun, List.forall₂_cons]
  simp [PassesOn]

end RelayBench.ThriftRs
