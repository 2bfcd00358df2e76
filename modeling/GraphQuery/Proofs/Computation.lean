import GraphQuery.Fault

/-!
# Computations that keep their effects

Builders, stores and connections all work in the same way: a step answers or
fails, and what it did to the state before it failed stays done.  `exec`
runs such a step, and `Yields` says what it ends in.  `Guarantee.At` says
that a step, run from a given state, keeps an invariant, stays within a
relation between states and answers with something that fits.  The lemmas on
both follow the ways steps are put together.
-/

namespace GraphQuery

/-- A step in a state, which keeps what was done before a failure. -/
abbrev Computation (σ α : Type) := ExceptT Fault (StateM σ) α

namespace Computation

variable {σ α β : Type}

/-- The outcome of a step and the state it leads to. -/
def exec (x : Computation σ α) (s : σ) : Except Fault α × σ := x.run.run s

@[simp]
theorem exec_pure (a : α) (s : σ) : exec (pure a) s = (.ok a, s) := rfl

@[simp]
theorem exec_throw (fault : Fault) (s : σ) :
    exec (throw fault : Computation σ α) s = (.error fault, s) := rfl

/-- One computation behind another is run from where the first one ends, if
it succeeds. -/
theorem exec_bind (x : Computation σ α) (f : α → Computation σ β) (s : σ) :
    exec (x >>= f) s = match x.exec s with
      | (.ok a, s') => (f a).exec s'
      | (.error fault, s') => (.error fault, s') := by
  have h : exec (x >>= f) s = ExceptT.bindCont f (x.exec s).1 (x.exec s).2 :=
    rfl
  rw [h]
  rcases x.exec s with ⟨_ | a, t⟩ <;> rfl

/-- A step that answers after another one. -/
theorem exec_bind_eq_ok {x : Computation σ α} {f : α → Computation σ β}
    {s t : σ} {b : β} :
    exec (x >>= f) s = (.ok b, t) ↔ ∃ a u, x.exec s = (.ok a, u) ∧
    (f a).exec u = (.ok b, t) := by
  rw [exec_bind]
  rcases hx : x.exec s with ⟨_ | a, u⟩
  · constructor
    · intro h
      cases h
    · rintro ⟨a, v, hv, -⟩
      cases hv
  · constructor
    · intro h
      exact ⟨a, u, rfl, h⟩
    · rintro ⟨a', u', hu, h⟩
      cases hu
      exact h

/-- A step that fails, or one that fails after it. -/
theorem exec_bind_eq_error {x : Computation σ α} {f : α → Computation σ β}
    {s t : σ} {fault : Fault} :
    exec (x >>= f) s = (.error fault, t) ↔
      x.exec s = (.error fault, t) ∨
        ∃ a u, x.exec s = (.ok a, u) ∧ (f a).exec u = (.error fault, t) := by
  rw [exec_bind]
  rcases hx : x.exec s with ⟨fault' | a, u⟩
  · constructor
    · intro h
      cases h
      exact .inl rfl
    · rintro (h | ⟨a, v, hv, -⟩)
      · cases h
        rfl
      · cases hv
  · constructor
    · intro h
      exact .inr ⟨a, u, rfl, h⟩
    · rintro (h | ⟨a', u', hu, h⟩)
      · cases h
      · cases hu
        exact h

/-- A step whose answer is only dressed up. -/
theorem exec_bind_pure_snd (x : Computation σ α) (f : α → β) (s : σ) :
    (exec (x >>= fun a => pure (f a)) s).2 = (x.exec s).2 := by
  rw [exec_bind]
  rcases x.exec s with ⟨_ | _, t⟩ <;> rfl

/-- Doing something with an answer makes no difference to how it ends. -/
theorem exec_bind_pure_fst (x : Computation σ α) (f : α → β) (s : σ) :
    (exec (x >>= fun a => pure (f a)) s).1 = (x.exec s).1.map f := by
  rw [exec_bind]
  rcases x.exec s with ⟨_ | _, t⟩ <;> rfl

/-- A fault is handled where it has left the state. -/
theorem exec_tryCatch (x : Computation σ α) (f : Fault → Computation σ α)
    (s : σ) :
    exec (tryCatch x f) s = match x.exec s with
      | (.ok a, s') => (.ok a, s')
      | (.error fault, s') => (f fault).exec s' := by
  rw [exec]
  simp only [tryCatch, tryCatchThe, MonadExceptOf.tryCatch, ExceptT.tryCatch,
    ExceptT.run,
    ExceptT.mk, StateT.run, bind, StateT.bind]
  rcases h : x.exec s with ⟨_ | a, t⟩
  all_goals
    have hrun : x s = _ := h
    rw [hrun]
    rfl

/-- The outcome of a step as an answer. -/
theorem exec_lift_run (x : Computation σ α) (s : σ) :
    exec (ExceptT.lift x.run : Computation σ (Except Fault α)) s =
      (.ok (x.exec s).1, (x.exec s).2) :=
  rfl

@[simp]
theorem exec_get (s : σ) : exec (get : Computation σ σ) s = (.ok s, s) := rfl

@[simp]
theorem exec_set (s' s : σ) :
    exec (set s' : Computation σ PUnit) s = (.ok ⟨⟩, s') := rfl

@[simp]
theorem exec_modify (f : σ → σ) (s : σ) :
    exec (modify f : Computation σ PUnit) s = (.ok ⟨⟩, f s) := rfl

@[simp]
theorem exec_modifyGet (f : σ → α × σ) (s : σ) :
    exec (modifyGet f : Computation σ α) s = (.ok (f s).1, (f s).2) := rfl

/-- An outcome that is there already leaves the state as it is. -/
@[simp]
theorem exec_lift (x : Except Fault α) (s : σ) :
    exec (liftM x : Computation σ α) s = (x, s) := rfl

end Computation

/-- What a step ends in, run from a state: an outcome and a state that fit. -/
def Yields {σ α : Type} (x : Computation σ α) (s : σ)
    (fits : Except Fault α → σ → Prop) : Prop :=
  fits (x.exec s).1 (x.exec s).2

namespace Yields

open GraphQuery.Computation

variable {σ α β : Type} {s : σ} {x : Computation σ α}
    {p q : Except Fault α → σ → Prop}

/-- What is yielded is all that follows from it. -/
theorem mono (hx : Yields x s p) (hpq : ∀ r t, p r t → q r t) :
    Yields x s q := hpq _ _ hx

/-- What a run is known to give is yielded. -/
theorem of_exec {r : Except Fault α} {t : σ} (hx : x.exec s = (r, t))
    (h : q r t) : Yields x s q := by
  rw [Yields, hx]
  exact h

/-- The second step is taken only if the first one answers. -/
theorem bind {f : α → Computation σ β} {q : Except Fault β → σ → Prop}
    (hx : Yields x s p) (hok : ∀ a t, p (.ok a) t → Yields (f a) t q)
    (herror : ∀ fault t, p (.error fault) t → q (.error fault) t) :
    Yields (x >>= f) s q := by
  rw [Yields] at hx
  rw [Yields, exec_bind]
  rcases hexec : x.exec s with ⟨fault | a, t⟩
  · rw [hexec] at hx
    exact herror fault t hx
  · rw [hexec] at hx
    exact hok a t hx

/-- A first step of which it is known how it answers. -/
theorem bind_of_exec {f : α → Computation σ β}
    {q : Except Fault β → σ → Prop} {a : α} {t : σ}
    (hx : x.exec s = (.ok a, t)) (h : Yields (f a) t q) :
    Yields (x >>= f) s q := by
  rw [Yields, exec_bind, hx]
  exact h

/-- A computation may look at the state first. -/
theorem get_bind {f : σ → Computation σ β} {q : Except Fault β → σ → Prop}
    (h : Yields (f s) s q) :
    Yields (get >>= f) s q :=
  bind_of_exec (exec_get s) h

/-- The second step is taken only if the first one fails. -/
theorem tryCatch {f : Fault → Computation σ α} (hx : Yields x s p)
    (hok : ∀ a t, p (.ok a) t → q (.ok a) t)
    (herror : ∀ fault t, p (.error fault) t → Yields (f fault) t q) :
    Yields (MonadExcept.tryCatch x f) s q := by
  rw [Yields] at hx
  rw [Yields, exec_tryCatch]
  rcases hexec : x.exec s with ⟨fault | a, t⟩
  · rw [hexec] at hx
    exact herror fault t hx
  · rw [hexec] at hx
    exact hok a t hx

end Yields

/-- An invariant of states, and a relation between the states before and
after. -/
structure Guarantee (σ : Type) where
  holds : σ → Prop
  leads : σ → σ → Prop
  refl : ∀ s, leads s s
  trans : ∀ {s t u}, leads s t → leads t u → leads s u

namespace Guarantee

open GraphQuery.Computation

variable {σ α β : Type} {G : Guarantee σ} {s : σ}

/-- The guarantee that an invariant is kept, and nothing else. -/
def keeping (holds : σ → Prop) : Guarantee σ :=
  { holds, leads := fun _ _ => True, refl := fun _ => trivial,
    trans := fun _ _ => trivial }

/-- A step keeps a guarantee from a state, and what it answers with fits the
state it leads to. -/
def At (G : Guarantee σ) (s : σ) (x : Computation σ α)
    (fits : α → σ → Prop) : Prop :=
  G.holds s → G.holds (x.exec s).2 ∧ G.leads s (x.exec s).2 ∧
    ∀ a, (x.exec s).1 = .ok a → fits a (x.exec s).2

/-- A step keeps a guarantee from every state. -/
def Kept (G : Guarantee σ) (x : Computation σ α) :
    Prop := ∀ s, G.At s x fun _ _ => True

/-- A guarantee is given for all that follows from it. -/
theorem At.mono {x : Computation σ α} {p q : α → σ → Prop} (hx : G.At s x p)
    (hpq : ∀ a t, G.holds t → G.leads s t → p a t → q a t) : G.At s x q := by
  intro hs
  obtain ⟨hholds, hleads, hfits⟩ := hx hs
  exact ⟨hholds, hleads, fun a ha => hpq a _ hholds hleads (hfits a ha)⟩

/-- The invariant may be used to show that it is kept. -/
theorem at_of_holds {x : Computation σ α} {p : α → σ → Prop}
    (h : G.holds s → G.At s x p) :
    G.At s x p :=
  fun hs => h hs hs

/-- Answering keeps the guarantee. -/
theorem at_pure {a : α} {p : α → σ → Prop} (h : G.holds s → p a s) :
    G.At s (pure a) p := by
  intro hs
  refine ⟨hs, G.refl s, fun b hb => ?_⟩
  cases hb
  exact h hs

/-- Failing keeps the guarantee. -/
theorem at_throw {fault : Fault} {p : α → σ → Prop} :
    G.At s (throw fault) p := by
  intro hs
  exact ⟨hs, G.refl s, fun _ hb => nomatch hb⟩

/-- An outcome that is there already keeps the guarantee. -/
theorem at_lift {x : Except Fault α} {p : α → σ → Prop}
    (h : ∀ a, x = .ok a → p a s) :
    G.At s (liftM x : Computation σ α) p := by
  intro hs
  exact ⟨hs, G.refl s, fun a ha => h a ha⟩

/-- Two computations keep the guarantee one behind the other. -/
theorem At.bind {x : Computation σ α} {f : α → Computation σ β}
    {p : α → σ → Prop} {q : β → σ → Prop} (hx : G.At s x p)
    (hf : ∀ a t, G.holds t → G.leads s t → p a t → G.At t (f a) q) :
    G.At s (x >>= f) q := by
  intro hs
  obtain ⟨hholds, hleads, hfits⟩ := hx hs
  rw [exec_bind]
  rcases hexec : x.exec s with ⟨_ | a, t⟩
  · rw [hexec] at hholds hleads
    exact ⟨hholds, hleads, fun _ hb => nomatch hb⟩
  · rw [hexec] at hholds hleads hfits
    obtain ⟨hholds', hleads', hfits'⟩ :=
      hf a t hholds hleads (hfits a rfl) hholds
    exact ⟨hholds', G.trans hleads hleads', hfits'⟩

/-- A step that only looks at the state. -/
theorem at_bind_of_exec {x : Computation σ α} {r : Except Fault α}
    {f : α → Computation σ β} {q : β → σ → Prop} (hx : x.exec s = (r, s))
    (hf : ∀ a, r = .ok a → G.At s (f a) q) :
    G.At s (x >>= f) q := by
  intro hs
  rw [exec_bind, hx]
  cases r with
  | error fault => exact at_throw hs
  | ok a => exact hf a rfl hs

/-- Looking at the state first keeps the guarantee. -/
theorem at_get_bind {f : σ → Computation σ β} {q : β → σ → Prop}
    (hf : G.At s (f s) q) :
    G.At s (get >>= f) q :=
  at_bind_of_exec rfl fun _ ha => Except.ok.inj ha ▸ hf

/-- Going on from an outcome that is there keeps the guarantee. -/
theorem at_lift_bind {x : Except Fault α} {f : α → Computation σ β}
    {q : β → σ → Prop} (hf : ∀ a, x = .ok a → G.At s (f a) q) :
    G.At s ((liftM x : Computation σ α) >>= f) q :=
  at_bind_of_exec rfl hf

/-- A new state keeps the guarantee if it holds of it and is led to. -/
theorem at_set {t : σ} {p : PUnit → σ → Prop}
    (h : G.holds s → G.holds t ∧ G.leads s t ∧ p ⟨⟩ t) :
    G.At s (set t : Computation σ PUnit) p := by
  intro hs
  obtain ⟨hholds, hleads, hfits⟩ := h hs
  exact ⟨hholds, hleads, fun _ _ => hfits⟩

/-- A change of the state with an answer keeps the guarantee if it holds
afterwards and is led to. -/
theorem at_modifyGet {f : σ → α × σ} {p : α → σ → Prop} (h : G.holds s →
    G.holds (f s).2 ∧ G.leads s (f s).2 ∧ p (f s).1 (f s).2) :
    G.At s (modifyGet f : Computation σ α) p := by
  intro hs
  obtain ⟨hholds, hleads, hfits⟩ := h hs
  refine ⟨hholds, hleads, fun b hb => ?_⟩
  cases hb
  exact hfits

/-- A change of the state keeps the guarantee if it holds afterwards and is
led to. -/
theorem at_modify {f : σ → σ} {p : PUnit → σ → Prop}
    (h : G.holds s → G.holds (f s) ∧ G.leads s (f s) ∧ p ⟨⟩ (f s)) :
    G.At s (modify f : Computation σ PUnit) p :=
  at_modifyGet h

/-- Two computations that keep a guarantee everywhere keep it one behind the
other. -/
theorem Kept.bind {x : Computation σ α} {f : α → Computation σ β}
    (hx : G.Kept x) (hf : ∀ a, G.Kept (f a)) : G.Kept (x >>= f) :=
  fun s => (hx s).bind fun a t _ _ _ => hf a t

theorem kept_pure (a : α) : G.Kept (pure a) := fun _ => at_pure fun _ =>
    trivial

theorem kept_throw (fault : Fault) :
    G.Kept (throw fault : Computation σ α) := fun _ => at_throw

theorem kept_lift (x : Except Fault α) : G.Kept (liftM x : Computation σ α) :=
  fun _ => at_lift fun _ _ => trivial

/-- A computation that looks at the state first keeps a guarantee if it does
from every state. -/
theorem kept_get_bind {f : σ → Computation σ β}
    (hf : ∀ s, G.At s (f s) fun _ _ => True) :
    G.Kept (get >>= f) :=
  fun s => at_get_bind (hf s)

/-- A computation run for each member of a list keeps a guarantee if it does
for each. -/
theorem kept_forM {l : List α} {f : α → Computation σ PUnit}
    (hf : ∀ a ∈ l, G.Kept (f a)) :
    G.Kept (l.forM f) := by
  induction l with
  | nil => exact kept_pure _
  | cons a rest ih =>
    exact (hf a (by simp)).bind fun _ => ih fun b hb => hf b (by simp [hb])

/-- Steps taken for the items of a list, each of which is fit for its step
and stays so. -/
theorem at_forM {l : List α} {f : α → Computation σ PUnit} {p : α → σ → Prop}
    (hstable : ∀ a s t, G.leads s t → p a s → p a t)
    (hf : ∀ a ∈ l, ∀ s, p a s → G.At s (f a) fun _ _ => True)
    (hl : ∀ a ∈ l, p a s) :
    G.At s (l.forM f) fun _ _ => True := by
  induction l generalizing s with
  | nil => exact at_pure fun _ => trivial
  | cons a rest ih =>
    refine (hf a (by simp) s (hl a (by simp))).bind fun _ t _ hleads _ => ?_
    refine ih (fun b hb => hf b (by simp [hb])) fun b hb => ?_
    exact hstable b s t hleads (hl b (by simp [hb]))

/-- Steps taken for the items of a list, each of which finds the state as
the one before left it. -/
theorem at_forM_of_next {l : List α} {f : α → Computation σ PUnit}
    {p : σ → Prop} (hf : ∀ a ∈ l, ∀ s, p s → G.At s (f a) fun _ t => p t)
    (hs : p s) :
    G.At s (l.forM f) fun _ t => p t := by
  induction l generalizing s with
  | nil => exact at_pure fun _ => hs
  | cons a rest ih =>
    refine (hf a (by simp) s hs).bind fun _ t _ _ ht => ?_
    exact ih (fun b hb => hf b (by simp [hb])) ht

/-- Steps taken for the items of a list, each with an answer that goes on to
fit. -/
theorem at_mapM {l : List α} {f : α → Computation σ β} {p : β → σ → Prop}
    (hstable : ∀ b s t, G.leads s t → p b s → p b t)
    (hf : ∀ a ∈ l, ∀ s, G.At s (f a) p) (s : σ) :
    G.At s (l.mapM f) fun bs t => ∀ b ∈ bs, p b t := by
  induction l generalizing s with
  | nil => exact at_pure fun _ => by simp
  | cons a rest ih =>
    rw [List.mapM_cons]
    refine (hf a (by simp) s).bind fun b t _ _ hb => ?_
    refine (ih (fun c hc => hf c (by simp [hc])) t).bind
      fun bs u _ hleads hbs => ?_
    refine at_pure fun _ =>
      List.forall_mem_cons.mpr ⟨hstable b t u hleads hb, hbs⟩

end Guarantee

end GraphQuery
