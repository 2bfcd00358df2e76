import GraphQuery.Proofs.Computation
import Mathlib.Data.List.Forall2

/-!
# Steps that cannot be told apart

Two runs of two steps are compared: started in states that are alike, they
lead to states that are alike, and both answer, with related answers, or
both fail, with faults that are alike.  The first run may also end in a
fault that excuses it, and then nothing is said.  `Alike` says so of two
steps, and the lemmas on it follow the ways steps are put together.
-/

namespace GraphQuery

/-- What it is for two states, and for two faults, to be alike. -/
structure Likeness (σ : Type) where
  states : σ → σ → Prop
  faults : Fault → Fault → Prop
  /-- The faults that excuse the first run. -/
  excused : Fault → Prop := fun _ => False

namespace Likeness

open GraphQuery.Computation

variable {σ α β γ δ : Type} {L : Likeness σ}

/-- Two outcomes are alike: related answers, or faults that are alike. -/
inductive Outcomes (L : Likeness σ) (R : α → β → Prop) : Except Fault α →
    Except Fault β → Prop
  | ok {a : α} {b : β} (h : R a b) : L.Outcomes R (.ok a) (.ok b)
  | error {fault fault' : Fault} (h : L.faults fault fault') :
    L.Outcomes R (.error fault) (.error fault')

/-- An outcome that excuses the first run. -/
def Excused (L : Likeness σ) (r : Except Fault α) : Prop :=
  ∃ fault, r = .error fault ∧ L.excused fault

/-- **Two steps cannot be told apart**: from states that are alike they lead
to states that are alike, and so are their outcomes, unless the first one
ends in an excuse. -/
def Alike (L : Likeness σ) (R : α → β → Prop) (x : Computation σ α)
    (y : Computation σ β) : Prop :=
  ∀ s t, L.states s t → L.Excused (x.exec s).1 ∨
    L.states (x.exec s).2 (y.exec t).2 ∧
    L.Outcomes R (x.exec s).1 (y.exec t).1

/-- Where nothing is an excuse, two steps that cannot be told apart lead to
states and to outcomes that are alike. -/
theorem Alike.sure {R : α → β → Prop} {x : Computation σ α}
    {y : Computation σ β} (h : L.Alike R x y)
    (hstrict : ∀ fault, ¬ L.excused fault) {s t : σ} (hst : L.states s t) :
    L.states (x.exec s).2 (y.exec t).2 ∧
      L.Outcomes R (x.exec s).1 (y.exec t).1 := by
  rcases h s t hst with ⟨fault, -, hexcused⟩ | halike
  · exact absurd hexcused (hstrict fault)
  · exact halike

/-- States do not matter for outcomes. -/
theorem Outcomes.of_faults {τ : Type} {M : Likeness τ} {R : α → β → Prop}
    {r : Except Fault α} {r' : Except Fault β} (h : L.Outcomes R r r')
    (hfaults : ∀ fault fault', L.faults fault fault' →
      M.faults fault fault') :
    M.Outcomes R r r' := by
  cases h with
  | ok h => exact .ok h
  | error h => exact .error (hfaults _ _ h)

/-- An outcome is like itself. -/
theorem Outcomes.of_eq {r : Except Fault α}
    (hfaults : ∀ fault, L.faults fault fault) :
    L.Outcomes Eq r r := by
  cases r with
  | ok a => exact .ok rfl
  | error fault => exact .error (hfaults fault)

/-- Both steps are taken, from states that are alike. -/
theorem Alike.taken {R : α → β → Prop} {x : Computation σ α}
    {y : Computation σ β} (hxy : L.Alike R x y) {s t : σ}
    (hst : L.states s t) :
    ∃ r s' r' t', x.exec s = (r, s') ∧ y.exec t = (r', t') ∧
      (L.Excused r ∨ L.states s' t' ∧ L.Outcomes R r r') :=
  ⟨_, _, _, _, rfl, rfl, hxy s t hst⟩

/-- Two answers. -/
theorem alike_pure {R : α → β → Prop} {a : α} {b : β} (h : R a b) :
    L.Alike R (pure a) (pure b) :=
  fun _ _ hst => .inr ⟨hst, .ok h⟩

/-- Two failures. -/
theorem alike_throw {R : α → β → Prop} {fault fault' : Fault}
    (h : L.faults fault fault') : L.Alike R (throw fault) (throw fault') :=
  fun _ _ hst => .inr ⟨hst, .error h⟩

/-- A failure that excuses the first run, whatever the second one does. -/
theorem alike_excused {R : α → β → Prop} {fault : Fault}
    (h : L.excused fault) (y : Computation σ β) :
    L.Alike R (throw fault : Computation σ α) y :=
  fun _ _ _ => .inl ⟨fault, rfl, h⟩

/-- Two outcomes that are given. -/
theorem alike_lift {R : α → β → Prop} {r : Except Fault α}
    {r' : Except Fault β} (h : L.Outcomes R r r') :
    L.Alike R (liftM r : Computation σ α) (liftM r' : Computation σ β) :=
  fun _ _ hst => .inr ⟨hst, h⟩

/-- **Steps taken one after the other.** -/
theorem Alike.bind {R : α → β → Prop} {Q : γ → δ → Prop}
    {x : Computation σ α} {y : Computation σ β} {f : α → Computation σ γ}
    {g : β → Computation σ δ} (hxy : L.Alike R x y)
    (hfg : ∀ a b, R a b → L.Alike Q (f a) (g b)) :
    L.Alike Q (x >>= f) (y >>= g) := by
  intro s t hst
  obtain ⟨r, s', r', t', hx, hy, hboth⟩ := hxy.taken hst
  rw [exec_bind, exec_bind, hx, hy]
  rcases hboth with ⟨fault, rfl, hexcused⟩ | ⟨hstates, hout⟩
  · exact .inl ⟨fault, rfl, hexcused⟩
  · cases hout with
    | ok hab => exact hfg _ _ hab s' t' hstates
    | error hfault => exact .inr ⟨hstates, .error hfault⟩

/-- Steps that follow the same answer. -/
theorem Alike.bind_eq {Q : γ → δ → Prop} {x y : Computation σ α}
    {f : α → Computation σ γ} {g : α → Computation σ δ}
    (hxy : L.Alike Eq x y) (hfg : ∀ a, L.Alike Q (f a) (g a)) :
    L.Alike Q (x >>= f) (y >>= g) :=
  hxy.bind fun a _ hab => hab ▸ hfg a

/-- The states at hand may be used. -/
theorem alike_get_bind {R : α → β → Prop} {f : σ → Computation σ α}
    {g : σ → Computation σ β}
    (h : ∀ s t, L.states s t → L.Alike R (f s) (g t)) :
    L.Alike R (get >>= f) (get >>= g) := by
  intro s t hst
  exact h s t hst s t hst

/-- States that are set. -/
theorem alike_set {s t : σ} (h : L.states s t) :
    L.Alike Eq (set s : Computation σ PUnit) (set t) :=
  fun _ _ _ => .inr ⟨h, .ok rfl⟩

/-- States that are changed for an answer. -/
theorem alike_modifyGet {R : α → β → Prop} {f : σ → α × σ} {g : σ → β × σ}
    (h : ∀ s t, L.states s t → L.states (f s).2 (g t).2 ∧ R (f s).1 (g t).1) :
    L.Alike R (modifyGet f : Computation σ α) (modifyGet g) := by
  intro s t hst
  obtain ⟨hstates, hanswers⟩ := h s t hst
  exact .inr ⟨hstates, .ok hanswers⟩

/-- States that are changed. -/
theorem alike_modify {f g : σ → σ}
    (h : ∀ s t, L.states s t → L.states (f s) (g t)) :
    L.Alike Eq (modify f : Computation σ PUnit) (modify g) :=
  alike_modifyGet fun s t hst => ⟨h s t hst, rfl⟩

/-- Handlers of faults that are alike, where no fault is an excuse. -/
theorem Alike.tryCatch {R : α → α → Prop} {x y : Computation σ α}
    {f g : Fault → Computation σ α} (hxy : L.Alike R x y)
    (hstrict : ∀ fault, ¬ L.excused fault)
    (hfg : ∀ fault fault', L.faults fault fault' →
      L.Alike R (f fault) (g fault')) :
    L.Alike R (tryCatch x f) (tryCatch y g) := by
  intro s t hst
  obtain ⟨hstates, hout⟩ := hxy.sure hstrict hst
  rw [exec_tryCatch, exec_tryCatch]
  rcases hx : x.exec s with ⟨r, s'⟩
  rcases hy : y.exec t with ⟨r', t'⟩
  rw [hx, hy] at hout hstates
  cases hout with
  | ok hab => exact .inr ⟨hstates, .ok hab⟩
  | error hfault => exact hfg _ _ hfault s' t' hstates

/-- The outcome of a step, failed or not, as an answer, where no fault is an
excuse. -/
theorem Alike.outcome {R : α → β → Prop} {x : Computation σ α}
    {y : Computation σ β} (hxy : L.Alike R x y)
    (hstrict : ∀ fault, ¬ L.excused fault) :
    L.Alike (L.Outcomes R)
      (ExceptT.lift x.run : Computation σ (Except Fault α))
      (ExceptT.lift y.run : Computation σ (Except Fault β)) := by
  intro s t hst
  obtain ⟨hstates, hout⟩ := hxy.sure hstrict hst
  rw [exec_lift_run, exec_lift_run]
  exact .inr ⟨hstates, .ok hout⟩

/-- Lists that are the same under `key` and `key'` are so item by item. -/
theorem forall₂_of_map_eq {key : α → γ} {key' : β → γ} {l : List α}
    {l' : List β} (h : l.map key = l'.map key') :
    l.Forall₂ (fun a b => key a = key' b) l' := by
  rw [← List.forall₂_eq_eq_eq, List.forall₂_map_left_iff,
    List.forall₂_map_right_iff] at h
  exact h

/-- Steps taken for the items of two lists that are the same under `key` and
`key'`. -/
theorem alike_forM {key : α → γ} {key' : β → γ} {f : α → Computation σ PUnit}
    {g : β → Computation σ PUnit} {l : List α} {l' : List β}
    (hl : l.map key = l'.map key')
    (h : ∀ a b, key a = key' b → L.Alike Eq (f a) (g b)) :
    L.Alike Eq (l.forM f) (l'.forM g) := by
  have hitems := forall₂_of_map_eq hl
  clear hl
  induction hitems with
  | nil => exact alike_pure rfl
  | cons hab _ ih => exact (h _ _ hab).bind fun _ _ _ => ih

/-- Steps taken for the items of one list. -/
theorem alike_forM_same {f g : α → Computation σ PUnit} {l : List α}
    (h : ∀ a, L.Alike Eq (f a) (g a)) : L.Alike Eq (l.forM f) (l.forM g) := by
  refine alike_forM (rfl : l.map id = l.map id) fun a b hab => ?_
  obtain rfl : a = b := hab
  exact h a

/-- Answers collected for the items of two lists that are the same under
`key` and `key'`. -/
theorem alike_mapM {key : α → γ} {key' : β → γ} {ε : Type} {tag : δ → ε}
    {f : α → Computation σ δ} {g : β → Computation σ δ} {l : List α}
    {l' : List β} (hl : l.map key = l'.map key') (h : ∀ a b, key a = key' b →
      L.Alike (fun d e => tag d = tag e) (f a) (g b)) :
    L.Alike (fun ds es => ds.map tag = es.map tag) (l.mapM f)
    (l'.mapM g) := by
  have hitems := forall₂_of_map_eq hl
  clear hl
  induction hitems with
  | nil => exact alike_pure rfl
  | cons hab _ ih =>
    rw [List.mapM_cons, List.mapM_cons]
    refine (h _ _ hab).bind fun d e hde => ?_
    refine ih.bind fun ds es hdes => ?_
    apply alike_pure
    rw [List.map_cons, List.map_cons, hde, hdes]

end Likeness

end GraphQuery
