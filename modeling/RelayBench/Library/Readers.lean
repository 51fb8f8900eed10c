import Mathlib

/-! # Readers and writers of a stream

A reader takes a state to a value and the state after it, or fails. `Follows` compares a
reader with one on an abstract state, through a view of the concrete states that satisfy `p`:
they fail together, and where they succeed the values are the same and the views agree.
`Moves` relates the states before and after a reader. A `Local` reader of a list is not affected
by what stands behind the items it reads.
-/
namespace RelayBench.Readers
variable {σ τ ι α β : Type}

abbrev Reader (σ α : Type) := StateT σ Option α

/-- A reader that succeeds hands its value and state to the next one. -/
theorem run_bind_some {f : Reader σ α} {k : α → Reader σ β} {s t : σ} {a : α}
    (h : f.run s = some (a,t)) : (f >>= k).run s = (k a).run t := by
  rw [StateT.run_bind, h]
  rfl

theorem run_bind_none {f : Reader σ α} {k : α → Reader σ β} {s : σ} (h : f.run s = none) :
    (f >>= k).run s = none := by
  rw [StateT.run_bind, h]
  rfl

theorem run_bind_eq_some {f : Reader σ α} {k : α → Reader σ β} {s u : σ} {b : β}
    (h : (f >>= k).run s = some (b,u)) :
    ∃ a t, f.run s = some (a,t) ∧ (k a).run t = some (b,u) := by
  rw [StateT.run_bind] at h
  obtain ⟨⟨a,t⟩,hf,hk⟩ := Option.bind_eq_some_iff.mp h
  exact ⟨a,t,hf,hk⟩

/-! ## Where a reader leads to -/

section Moves
variable {R : σ → σ → Prop} {f : Reader σ α}

def Moves (R : σ → σ → Prop) (f : Reader σ α) : Prop := ∀ s a t, f.run s = some (a,t) → R s t

theorem Moves.pure [Std.Refl R] (a : α) : Moves R (pure a : Reader σ α) := by
  intro s b t h
  cases h
  exact Std.Refl.refl s

theorem Moves.failure : Moves R (failure : Reader σ α) := by
  intro s a t h
  cases h

theorem Moves.bind [IsTrans σ R] {k : α → Reader σ β} (hf : Moves R f) (hk : ∀ a, Moves R (k a)) :
    Moves R (f >>= k) := by
  intro s b u h
  obtain ⟨a,t,hs,ht⟩ := run_bind_eq_some h
  exact IsTrans.trans _ _ _ (hf s a t hs) (hk a t b u ht)

theorem Moves.map [Std.Refl R] [IsTrans σ R] (c : α → β) (hf : Moves R f) : Moves R (c <$> f) := by
  rw [map_eq_pure_bind]
  exact hf.bind (fun a => .pure (c a))

end Moves

/-! ## Readers that follow one another -/

structure Follows (view : σ → τ) (p : τ → Prop) (f : Reader σ α) (g : Reader τ α) : Prop where
  run : ∀ s, p (view s) → (f.run s).map (Prod.map id view) = g.run (view s)
  keeps : ∀ s t a, p s → g.run s = some (a,t) → p t

section Follows
variable {view : σ → τ} {p : τ → Prop} {f : Reader σ α} {g : Reader τ α} {s : σ} {t : τ} {a : α}

theorem Follows.some (h : Follows view p f g) (hs : p (view s)) (hg : g.run (view s) = some (a,t)) :
    ∃ u, f.run s = some (a,u) ∧ view u = t := by
  have hrun := h.run s hs
  rw [hg] at hrun
  obtain ⟨⟨b,u⟩,hf,heq⟩ := Option.map_eq_some_iff.mp hrun
  cases heq
  exact ⟨u,hf,rfl⟩

theorem Follows.none (h : Follows view p f g) (hs : p (view s)) (hg : g.run (view s) = none) :
    f.run s = none := by
  have hrun := h.run s hs
  rw [hg] at hrun
  exact Option.map_eq_none_iff.mp hrun

theorem Follows.pure (a : α) : Follows view p (pure a : Reader σ α) (pure a) where
  run _ _ := rfl
  keeps s t b hs h := by
    cases h
    exact hs

theorem Follows.failure : Follows view p (failure : Reader σ α) failure where
  run _ _ := rfl
  keeps _ _ _ _ h := by cases h

theorem Follows.bind {k : α → Reader σ β} {l : α → Reader τ β} (h : Follows view p f g)
    (hk : ∀ a, Follows view p (k a) (l a)) : Follows view p (f >>= k) (g >>= l) where
  run s hs := by
    cases hg : g.run (view s) with
    | none => rw [run_bind_none hg, run_bind_none (h.none hs hg), Option.map_none]
    | some r =>
      obtain ⟨a,t⟩ := r
      obtain ⟨u,hf,rfl⟩ := h.some hs hg
      rw [run_bind_some hg, run_bind_some hf]
      exact (hk a).run u (h.keeps _ _ _ hs hg)
  keeps s t b hs hb := by
    obtain ⟨a,u,hg,hl⟩ := run_bind_eq_some hb
    exact (hk a).keeps u t b (h.keeps s u a hs hg) hl

theorem Follows.map (c : α → β) (h : Follows view p f g) : Follows view p (c <$> f) (c <$> g) := by
  rw [map_eq_pure_bind, map_eq_pure_bind]
  exact h.bind (fun a => .pure (c a))

/-- Every reader follows itself. -/
theorem Follows.self {R : τ → τ → Prop} (hp : ∀ s t, R s t → p s → p t) (h : Moves R g) :
    Follows id p g g where
  run s _ := by simp
  keeps s t a hs hg := hp s t (h s a t hg) hs

end Follows

/-! ## Local readers -/

section Local
variable {extend : σ → ι → σ} {f : Reader σ α} {s u : σ} {x : ι} {a : α}

def Local (extend : σ → ι → σ) (f : Reader σ α) : Prop :=
  ∀ s a t, f.run s = some (a,t) → ∀ x, f.run (extend s x) = some (a,extend t x)

theorem Local.pure (a : α) : Local extend (pure a : Reader σ α) := by
  intro s b t h x
  cases h
  rfl

theorem Local.failure : Local extend (failure : Reader σ α) := by
  intro s a t h
  cases h

theorem Local.bind {k : α → Reader σ β} (hf : Local extend f) (hk : ∀ a, Local extend (k a)) :
    Local extend (f >>= k) := by
  intro s b u h x
  obtain ⟨a,t,hs,ht⟩ := run_bind_eq_some h
  rw [run_bind_some (hf s a t hs x)]
  exact hk a t b u ht x

theorem Local.map (c : α → β) (hf : Local extend f) : Local extend (c <$> f) := by
  rw [map_eq_pure_bind]
  exact hf.bind (fun a => .pure (c a))

/-- A proper part of two pieces ends in the first or in the second. -/
theorem prefix_append_cases {part p q : List α} (h : part <+: p ++ q) (hne : part ≠ p ++ q) :
    (part <+: p ∧ part ≠ p) ∨ ∃ r, part = p ++ r ∧ r <+: q ∧ r ≠ q := by
  obtain ⟨t,ht⟩ := h
  rcases List.append_eq_append_iff.mp ht with ⟨r,hp,_⟩ | ⟨r,hpart,hq⟩
  · by_cases hr : r = []
    · subst hr
      refine .inr ⟨[],by simpa using hp.symm,List.nil_prefix,?_⟩
      rintro rfl
      simp [hp] at hne
    · refine .inl ⟨⟨r,hp.symm⟩,fun heq => hr ?_⟩
      simpa [heq] using hp
  · refine .inr ⟨r,hpart,⟨t,hq.symm⟩,?_⟩
    rintro rfl
    exact hne hpart

/-- What reads to the end of a stream fails on every part of it that stops short. -/
theorem Local.none_of_short (hf : Local extend f) (hfull : f.run (extend s x) = some (a,u))
    (hshort : ∀ t, extend t x ≠ u) : f.run s = none := by
  cases h : f.run s with
  | none => rfl
  | some r =>
    obtain ⟨b,t⟩ := r
    rw [hf s b t h x] at hfull
    cases hfull
    exact absurd rfl (hshort t)

end Local

/-! ## Loops up to a stop -/

section Loop
variable {η : Type} {stop : η → Prop} [DecidablePred stop] {header : Reader σ η}
    {body : α → η → Reader σ (ForInStep α)}

/-- Bodies after their headers, up to a header that is a stop or a body that is done, for at most
`fuel` headers. -/
def untilStop (stop : η → Prop) [DecidablePred stop] (header : Reader σ η)
    (body : α → η → Reader σ (ForInStep α)) : ℕ → α → Reader σ α
  | 0, _ => failure
  | fuel + 1, a => do
    let h ← header
    if stop h then return a
    match ← body a h with
    | .done a => return a
    | .yield a => untilStop stop header body fuel a

theorem untilStop_moves {R : σ → σ → Prop} [Std.Refl R] [IsTrans σ R] (hheader : Moves R header)
    (hbody : ∀ a h, Moves R (body a h)) (fuel : ℕ) (a : α) :
    Moves R (untilStop stop header body fuel a) := by
  induction fuel generalizing a with
  | zero => exact .failure
  | succ fuel ih =>
    refine hheader.bind (fun h => ?_)
    split
    · exact .pure a
    · refine (hbody a h).bind (fun r => ?_)
      cases r with
      | done a => exact .pure a
      | yield a => exact ih a

theorem untilStop_local {extend : σ → ι → σ} (hheader : Local extend header)
    (hbody : ∀ a h, Local extend (body a h)) (fuel : ℕ) (a : α) :
    Local extend (untilStop stop header body fuel a) := by
  induction fuel generalizing a with
  | zero => exact .failure
  | succ fuel ih =>
    refine hheader.bind (fun h => ?_)
    split
    · exact .pure a
    · refine (hbody a h).bind (fun r => ?_)
      cases r with
      | done a => exact .pure a
      | yield a => exact ih a

/-- Loops whose parts follow one another do so themselves. -/
theorem untilStop_follows {view : σ → τ} {p : τ → Prop} {header' : Reader τ η}
    {body' : α → η → Reader τ (ForInStep α)} (hheader : Follows view p header header')
    (hbody : ∀ a h, Follows view p (body a h) (body' a h)) (fuel : ℕ) (a : α) :
    Follows view p (untilStop stop header body fuel a) (untilStop stop header' body' fuel a) := by
  induction fuel generalizing a with
  | zero => exact .failure
  | succ fuel ih =>
    refine hheader.bind (fun h => ?_)
    split
    · exact .pure a
    · refine (hbody a h).bind (fun r => ?_)
      cases r with
      | done a => exact .pure a
      | yield a => exact ih a

/-- A loop that has come to its end does so for every larger limit. -/
theorem untilStop_mono {fuel more : ℕ} (hmore : fuel ≤ more) {a b : α} {s t : σ}
    (h : (untilStop stop header body fuel a).run s = some (b,t)) :
    (untilStop stop header body more a).run s = some (b,t) := by
  induction fuel generalizing more a s with
  | zero => cases h
  | succ fuel ih =>
    obtain ⟨more,rfl⟩ : ∃ n, more = n + 1 := ⟨more - 1,by omega⟩
    obtain ⟨x,u,hheader,hrest⟩ := run_bind_eq_some h
    rw [untilStop, run_bind_some hheader]
    by_cases hstop : stop x
    · rwa [if_pos hstop] at hrest ⊢
    · rw [if_neg hstop] at hrest ⊢
      obtain ⟨r,v,hbody,hrest⟩ := run_bind_eq_some hrest
      rw [run_bind_some hbody]
      cases r with
      | done c => exact hrest
      | yield c => exact ih (by omega) hrest

end Loop

/-- The same reader a number of times. -/
def times (f : Reader σ Unit) : ℕ → Reader σ Unit
  | 0 => pure ()
  | n + 1 => f >>= fun _ => times f n

theorem times_moves {R : σ → σ → Prop} [Std.Refl R] [IsTrans σ R] {f : Reader σ Unit}
    (hf : Moves R f) (n : ℕ) : Moves R (times f n) := by
  induction n with
  | zero => exact .pure ()
  | succ n ih => exact hf.bind (fun _ => ih)

theorem times_local {extend : σ → ι → σ} {f : Reader σ Unit} (hf : Local extend f) (n : ℕ) :
    Local extend (times f n) := by
  induction n with
  | zero => exact .pure ()
  | succ n ih => exact hf.bind (fun _ => ih)

end RelayBench.Readers
