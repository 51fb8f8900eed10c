import Mathlib

/-! # Chains of blocking remote calls

A call takes a request and a state to a state and a reply. Between a caller and its callee
the request may be lost, and the reply may come too late although the callee ran. In a
chain of `n` relays and a sink every relay calls the next hop; hop `i` is the call of
relay `i`, hop `n` the call of the sink.
-/
namespace RelayBench.RemoteCall
variable {Q S α O K : Type*}

inductive Fault
  | none
  | lost
  | late
deriving DecidableEq, Repr

/-- What the caller sees; nothing, when the callee has ended the whole process. -/
inductive Reply (α : Type*)
  | replied (a : α)
  | failed
  | exited
deriving DecidableEq, Repr

abbrev Call (Q S α : Type*) := Q → S → S × Reply α

def remote (fault : Fault) (callee : Call Q S α) : Call Q S α := fun q s =>
  match fault with
  | .none => callee q s
  | .lost => (s,.failed)
  | .late =>
    match callee q s with
    | (t,.exited) => (t,.exited)
    | (t,_) => (t,.failed)

section Remote
variable {fault : Fault} {callee : Call Q S α} {q : Q} {s t : S} {a : α}

@[simp] theorem remote_none : remote .none callee = callee := rfl

@[simp] theorem remote_lost : remote .lost callee q s = (s,.failed) := rfl

theorem remote_state (h : fault ≠ .lost) : (remote fault callee q s).1 = (callee q s).1 := by
  cases fault with
  | none => rfl
  | lost => exact absurd rfl h
  | late =>
    rcases hc : callee q s with ⟨t,r⟩
    cases r <;> simp [remote, hc]

theorem remote_exited (h : fault ≠ .lost) :
    (remote fault callee q s).2 = .exited ↔ (callee q s).2 = .exited := by
  cases fault with
  | none => rfl
  | lost => exact absurd rfl h
  | late =>
    rcases hc : callee q s with ⟨t,r⟩
    cases r <;> simp [remote, hc]

end Remote

/-! ## Chains -/

def chain (relay : ℕ → Call Q S α → Call Q S α) (sink : Call Q S α) (faults : ℕ → Fault) :
    ℕ → ℕ → Call Q S α
  | 0, i => remote (faults i) sink
  | n + 1, i => remote (faults i) (relay i (chain relay sink faults n (i + 1)))

variable {relay : ℕ → Call Q S α → Call Q S α} {sink : Call Q S α} {faults : ℕ → Fault} {n : ℕ}

/-- Services that call one another as relays and sink do form a chain. -/
theorem eq_chain {serve : ℕ → Call Q S α} (hsink : serve n = sink)
    (hrelay : ∀ i < n, serve i = relay i (remote (faults (i + 1)) (serve (i + 1)))) :
    remote (faults 0) (serve 0) = chain relay sink faults n 0 := by
  have hall : ∀ k i, i + k = n → remote (faults i) (serve i) = chain relay sink faults k i := by
    intro k
    induction k with
    | zero =>
      intro i hi
      obtain rfl : i = n := hi
      rw [hsink]
      rfl
    | succ k ih =>
      intro i hi
      rw [hrelay i (by omega), ih (i + 1) (by omega)]
      rfl
  exact hall n 0 (Nat.zero_add n)

/-- Induction from the sink's hop back to the first. -/
theorem chain_rule {P : ℕ → Call Q S α → Prop} (hsink : P n (remote (faults n) sink))
    (hrelay : ∀ i < n, ∀ next, P (i + 1) next → P i (remote (faults i) (relay i next))) :
    P 0 (chain relay sink faults n 0) := by
  have hall : ∀ k i, i + k = n → P i (chain relay sink faults k i) := by
    intro k
    induction k with
    | zero =>
      intro i hi
      obtain rfl : i = n := hi
      exact hsink
    | succ k ih =>
      intro i hi
      exact hrelay i (by omega) _ (ih (i + 1) (by omega))
  exact hall n 0 (Nat.zero_add n)

/-- All hops from `i` on satisfy `p`. -/
def FromHop (p : Fault → Prop) (faults : ℕ → Fault) (n i : ℕ) : Prop :=
  ∀ j, i ≤ j → j ≤ n → p (faults j)

theorem fromHop_zero {p : Fault → Prop} : FromHop p faults n 0 ↔ ∀ i ≤ n, p (faults i) := by
  simp [FromHop]

theorem fromHop_self {p : Fault → Prop} : FromHop p faults n n ↔ p (faults n) := by
  constructor
  · intro h
    exact h n le_rfl le_rfl
  · intro h j hj hjn
    obtain rfl : j = n := by omega
    exact h

theorem fromHop_succ {p : Fault → Prop} {i : ℕ} (hi : i ≤ n) :
    FromHop p faults n i ↔ p (faults i) ∧ FromHop p faults n (i + 1) := by
  constructor
  · intro h
    exact ⟨h i le_rfl hi,fun j hj hjn => h j (by omega) hjn⟩
  · rintro ⟨h,hrest⟩ j hj hjn
    rcases Nat.eq_or_lt_of_le hj with rfl | hlt
    · exact h
    · exact hrest j hlt hjn

/-- A relay makes one call on the next hop, with the same key, and nothing else it does
is observed. -/
def Forwards (obs : S → O) (key : Q → K) (relay : Call Q S α → Call Q S α) : Prop :=
  ∀ next q s, ∃ q' s', key q' = key q ∧ obs s' = obs s ∧
    obs (relay next q s).1 = obs (next q' s').1 ∧
    ((relay next q s).2 = .exited ↔ (next q' s').2 = .exited)

section Forwarding
variable {obs : S → O} {key : Q → K} {effect : K → O → O} {stops : K → O → Prop}

/-- The state after a call through the chain: the sink's effect when no hop lost the
request, and no effect otherwise. -/
theorem chain_obs (hsink : ∀ q s, obs (sink q s).1 = effect (key q) (obs s))
    (hrelay : ∀ i < n, Forwards obs key (relay i)) (q : Q) (s : S) :
    (FromHop (· ≠ .lost) faults n 0 →
      obs (chain relay sink faults n 0 q s).1 = effect (key q) (obs s)) ∧
    (¬FromHop (· ≠ .lost) faults n 0 → obs (chain relay sink faults n 0 q s).1 = obs s) := by
  refine @chain_rule Q S α relay sink faults n (fun i f => ∀ q s,
    (FromHop (· ≠ .lost) faults n i → obs (f q s).1 = effect (key q) (obs s)) ∧
    (¬FromHop (· ≠ .lost) faults n i → obs (f q s).1 = obs s)) ?_ ?_ q s
  · intro q s
    rw [fromHop_self]
    by_cases hf : faults n = .lost
    · simp [hf]
    · exact ⟨fun _ => by rw [remote_state hf, hsink],fun h => absurd hf h⟩
  · intro i hi next ih q s
    rw [fromHop_succ hi.le]
    by_cases hf : faults i = .lost
    · simp [hf]
    · obtain ⟨q',s',hq,hs,hobs,_⟩ := hrelay i hi next q s
      have hnext := ih q' s'
      rw [hq, hs] at hnext
      rw [remote_state hf, hobs]
      exact ⟨fun h => hnext.1 h.2,fun h => hnext.2 (fun hr => h ⟨hf,hr⟩)⟩

/-- The process ends in a call exactly when the request reaches a sink that stops on it. -/
theorem chain_exited (hsink : ∀ q s, (sink q s).2 = .exited ↔ stops (key q) (obs s))
    (hrelay : ∀ i < n, Forwards obs key (relay i)) (q : Q) (s : S) :
    (chain relay sink faults n 0 q s).2 = .exited ↔
      FromHop (· ≠ .lost) faults n 0 ∧ stops (key q) (obs s) := by
  refine @chain_rule Q S α relay sink faults n (fun i f => ∀ q s,
    (f q s).2 = .exited ↔ FromHop (· ≠ .lost) faults n i ∧ stops (key q) (obs s)) ?_ ?_ q s
  · intro q s
    rw [fromHop_self]
    by_cases hf : faults n = .lost
    · simp [hf]
    · rw [remote_exited hf, hsink]
      exact ⟨fun h => ⟨hf,h⟩,fun h => h.2⟩
  · intro i hi next ih q s
    rw [fromHop_succ hi.le]
    by_cases hf : faults i = .lost
    · simp [hf]
    · obtain ⟨q',s',hq,hs,_,hexited⟩ := hrelay i hi next q s
      rw [remote_exited hf, hexited, ih, hq, hs, and_assoc]
      exact ⟨fun h => ⟨hf,h⟩,fun h => h.2⟩

end Forwarding

end RelayBench.RemoteCall
