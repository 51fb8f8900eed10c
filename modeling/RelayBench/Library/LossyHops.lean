import RelayBench.Library.Stages

/-! # A chain of hops that may lose and keep the order

One hop is a queue and the hand of its receiver, with all that was ever sent on it, handled
at its end and lost. A chain sends on a hop what the hop before it has handled.
-/
namespace RelayBench.LossyHops
open Conservation
open scoped List
variable {α : Type*}

structure Hop (α : Type*) where
  sent : List α
  handled : List α
  hand : List α
  queue : List α
  lost : List α

/-- What was sent and neither handled nor lost. -/
def Hop.pending (h : Hop α) : List α := h.hand ++ h.queue

inductive Hop.Step (h : Hop α) : Hop α → Prop
  | stay : Step h h
  | send (m : α) : Step h { h with sent := h.sent ++ [m], queue := h.queue ++ [m] }
  | take (m : α) (rest : List α) (hhand : h.hand = []) (hqueue : h.queue = m :: rest) :
      Step h { h with hand := [m], queue := rest }
  | handle (m : α) (hhand : h.hand = [m]) :
      Step h { h with hand := [], handled := h.handled ++ [m] }
  | lose (j : ℕ) (m : α) (hm : h.queue[j]? = some m) :
      Step h { h with queue := h.queue.eraseIdx j, lost := h.lost ++ [m] }

/-- Nothing is reordered, and nothing is duplicated or vanishes unrecorded. -/
structure Hop.Kept (h : Hop α) : Prop where
  order : (h.handled ++ h.pending).Sublist h.sent
  conserved : (h.handled ++ (h.pending ++ h.lost)).Perm h.sent

theorem kept_empty : Hop.Kept (⟨[],[],[],[],[]⟩ : Hop α) := ⟨.slnil,.nil⟩

variable {h h' : Hop α}

theorem eraseIdx_perm {queue : List α} {j : ℕ} {m : α} (hm : queue[j]? = some m) (lost : List α) :
    (queue.eraseIdx j ++ (lost ++ [m])).Perm (queue ++ lost) := by
  obtain ⟨hj,rfl⟩ := List.getElem?_eq_some_iff.mp hm
  have hback : (queue[j] :: queue.eraseIdx j).Perm queue := List.getElem_cons_eraseIdx_perm hj
  calc queue.eraseIdx j ++ (lost ++ [queue[j]])
      ~ queue.eraseIdx j ++ (queue[j] :: lost) :=
        (List.perm_append_singleton _ _).append_left _
    _ ~ queue[j] :: (queue.eraseIdx j ++ lost) := List.perm_middle
    _ ~ queue ++ lost := hback.append_right lost

theorem Hop.Step.kept (hs : Hop.Step h h') (hk : h.Kept) : h'.Kept := by
  obtain ⟨horder,hconserved⟩ := hk
  cases hs with
  | stay => exact ⟨horder,hconserved⟩
  | send m =>
    constructor
    · simpa [Hop.pending] using horder.append_right [m]
    · have hmid := (hconserved.append_right [m])
      refine List.Perm.trans ?_ hmid
      simp only [Hop.pending, List.append_assoc]
      exact ((List.perm_append_comm.append_left _).append_left _).append_left _
  | take m rest hhand hqueue =>
    constructor
    · simpa [Hop.pending, hhand, hqueue] using horder
    · simpa [Hop.pending, hhand, hqueue] using hconserved
  | handle m hhand =>
    constructor
    · simpa [Hop.pending, hhand] using horder
    · simpa [Hop.pending, hhand] using hconserved
  | lose j m hm =>
    constructor
    · exact (((List.eraseIdx_sublist _ j).append_left _).append_left _).trans horder
    · refine List.Perm.trans ?_ hconserved
      simp only [Hop.pending, List.append_assoc]
      exact ((eraseIdx_perm hm _).append_left _).append_left _

theorem Hop.Kept.handled_sublist (hk : h.Kept) : h.handled.Sublist h.sent :=
  (List.sublist_append_left _ _).trans hk.order

theorem Hop.Kept.sent_ne_nil (hk : h.Kept) (hp : h.pending ≠ []) : h.sent ≠ [] := by
  intro hsent
  have horder := hk.order
  rw [hsent, List.sublist_nil, List.append_eq_nil_iff] at horder
  exact hp horder.2

/-! ## Chains -/

structure Chain (hops : ℕ → Hop α) (n : ℕ) : Prop where
  kept : ∀ k ≤ n, (hops k).Kept
  next : ∀ k < n, (hops (k + 1)).sent = (hops k).handled

variable {hops : ℕ → Hop α} {n k : ℕ}

theorem Chain.sent_sublist (hc : Chain hops n) (hk : k ≤ n) :
    (hops k).sent.Sublist (hops 0).sent := by
  induction k with
  | zero => exact List.Sublist.refl _
  | succ k ih =>
    rw [hc.next k hk]
    exact (hc.kept k (by omega)).handled_sublist.trans (ih (by omega))

theorem Chain.handled_sublist (hc : Chain hops n) (hk : k ≤ n) :
    (hops k).handled.Sublist (hops 0).sent :=
  (hc.kept k hk).handled_sublist.trans (hc.sent_sublist hk)

theorem Chain.stages (hc : Chain hops n) :
    Stages (fun k => (hops k).sent) (fun k => (hops k).handled)
      (fun k => (hops k).pending ++ (hops k).lost) n :=
  ⟨fun k hk => (hc.kept k hk).conserved,fun k hk => List.Perm.of_eq (hc.next k hk)⟩

/-- A hop that has handled as many as the chain was sent has nothing pending or lost, and
neither has any hop before it. -/
theorem Chain.nothing_left (hc : Chain hops n) (hk : k ≤ n)
    (hfull : (hops 0).sent.length ≤ (hops k).handled.length) {j : ℕ} (hj : j ≤ k) :
    (hops j).pending = [] ∧ (hops j).lost = [] :=
  List.append_eq_nil_iff.mp ((hc.stages.mono hk).rest_eq_nil hfull hj)

/-- Where nothing is pending or lost, all that was sent was handled, in order. -/
theorem Chain.handled_eq (hc : Chain hops n)
    (hnil : ∀ k ≤ n, (hops k).pending = [] ∧ (hops k).lost = []) (hk : k ≤ n) :
    (hops k).handled = (hops 0).sent := by
  have hall : ∀ j ≤ k, (hops j).pending ++ (hops j).lost = [] := fun j hj =>
    List.append_eq_nil_iff.mpr (hnil j (hj.trans hk))
  exact (hc.handled_sublist hk).eq_of_length
    ((hc.stages.mono hk).handled_perm hall).length_eq

end RelayBench.LossyHops
