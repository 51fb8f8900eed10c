import Mathlib

/-! # Labelled executions of a partial step function

A system is a step function `S → L → Option S`; a label that is not enabled has no
successor. The two induction rules below are the only ones the systems use: a state
invariant, and an invariant that also reads the labels taken so far.
-/
namespace RelayBench.Execution
variable {S L : Type*}

/-- The state after a list of labels, and none when one of them is not enabled. -/
def exec (step : S → L → Option S) : S → List L → Option S
  | s, [] => some s
  | s, l :: ls => (step s l).bind (fun t => exec step t ls)

variable {step : S → L → Option S}

@[simp] theorem exec_nil (s : S) : exec step s [] = some s := rfl

@[simp] theorem exec_cons (s : S) (l : L) (ls : List L) :
    exec step s (l :: ls) = (step s l).bind (fun t => exec step t ls) := rfl

theorem exec_step {s t u : S} {l : L} {ls : List L} (h : step s l = some t)
    (hk : exec step t ls = some u) : exec step s (l :: ls) = some u := by
  rw [exec_cons, h]
  exact hk

theorem exec_append (s : S) (ls ks : List L) :
    exec step s (ls ++ ks) = (exec step s ls).bind (fun t => exec step t ks) := by
  induction ls generalizing s with
  | nil => rfl
  | cons l ls ih =>
    simp only [List.cons_append, exec_cons, ih]
    cases step s l <;> rfl

theorem exec_trans {s t u : S} {ls ks : List L} (h : exec step s ls = some t)
    (hk : exec step t ks = some u) : exec step s (ls ++ ks) = some u := by
  rw [exec_append, h]
  exact hk

theorem exec_snoc {s u : S} {ls : List L} {l : L} :
    exec step s (ls ++ [l]) = some u ↔ ∃ t, exec step s ls = some t ∧ step t l = some u := by
  simp [exec_append, Option.bind_eq_some_iff]

/-- An invariant that may read the labels taken so far. -/
theorem exec_history {Inv : List L → S → Prop} {s : S} (h0 : Inv [] s)
    (hstep : ∀ ls t l u, exec step s ls = some t → Inv ls t → step t l = some u →
      Inv (ls ++ [l]) u) {ls : List L} {t : S} (h : exec step s ls = some t) : Inv ls t := by
  induction ls using List.reverseRecOn generalizing t with
  | nil =>
    cases h
    exact h0
  | append_singleton ls l ih =>
    obtain ⟨u,hu,hl⟩ := exec_snoc.mp h
    exact hstep ls u l t hu (ih hu) hl

/-- An invariant of the state alone. -/
theorem exec_invariant {Inv : S → Prop} {s : S} (h0 : Inv s)
    (hstep : ∀ t l u, Inv t → step t l = some u → Inv u) {ls : List L} {t : S}
    (h : exec step s ls = some t) : Inv t :=
  @exec_history S L step (fun _ => Inv) s h0 (fun _ t l u _ hi hs => hstep t l u hi hs) ls t h

/-- Every step of the run satisfies the condition in the state it starts from. -/
def StepsMeet (P : S → L → Prop) (step : S → L → Option S) : S → List L → Prop
  | _, [] => True
  | s, l :: ls => P s l ∧ ∀ t, step s l = some t → StepsMeet P step t ls

variable {P : S → L → Prop}

theorem stepsMeet_append {s t : S} {ls ks : List L} (h : exec step s ls = some t) :
    StepsMeet P step s (ls ++ ks) ↔ StepsMeet P step s ls ∧ StepsMeet P step t ks := by
  induction ls generalizing s with
  | nil =>
    cases h
    simp [StepsMeet]
  | cons l ls ih =>
    obtain ⟨u,hu,hl⟩ := Option.bind_eq_some_iff.mp h
    simp only [List.cons_append, StepsMeet, hu, Option.some.injEq, forall_eq']
    rw [ih hl, and_assoc]

theorem stepsMeet_snoc {s t : S} {ls : List L} {l : L} (h : exec step s ls = some t) :
    StepsMeet P step s (ls ++ [l]) ↔ StepsMeet P step s ls ∧ P t l := by
  rw [stepsMeet_append h]
  simp [StepsMeet]

end RelayBench.Execution
