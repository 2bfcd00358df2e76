import GraphQuery.Fault

/-!
# What a computation ends in

A computation that may fail ends in an answer or in a fault.  `Ends good
allowed` says of both at once what they can be; the lemmas follow the ways
computations are put together.
-/

namespace GraphQuery

/-- An answer that is good, or a fault that is allowed. -/
def Ends {α : Type} (good : α → Prop) (allowed : Fault → Prop) :
    Except Fault α → Prop
  | .ok a => good a
  | .error fault => allowed fault

namespace Ends

variable {α β : Type} {good : α → Prop} {better : β → Prop}
    {allowed : Fault → Prop}

/-- A computation ends well if its first part does and the second one goes
on from there. -/
theorem bind {x : Except Fault α} {f : α → Except Fault β}
    (hx : Ends good allowed x)
    (hf : ∀ a, good a → Ends better allowed (f a)) :
    Ends better allowed (x >>= f) := by
  cases x with
  | error fault => exact hx
  | ok a => exact hf a hx

/-- An answer made of that of another computation, of which nothing is
asked. -/
theorem answer {x : Except Fault α} {f : α → β} (hx : Ends good allowed x) :
    Ends (fun _ => True) allowed (do return f (← x)) :=
  hx.bind fun _ _ => trivial

/-- Ending well means ending better, and with fewer faults, where that is
implied. -/
theorem mono {x : Except Fault α} {good' : α → Prop} {allowed' : Fault → Prop}
    (hx : Ends good allowed x) (hgood : ∀ a, good a → good' a)
    (hallowed : ∀ fault, allowed fault → allowed' fault) :
    Ends good' allowed' x := by
  cases x with
  | error fault => exact hallowed fault hx
  | ok a => exact hgood a hx

/-- Computations for the members of a list, one after the other. -/
theorem mapM {l : List α} {f : α → Except Fault β}
    (hf : ∀ a ∈ l, Ends better allowed (f a)) :
    Ends (fun bs => ∀ b ∈ bs, better b) allowed (l.mapM f) := by
  induction l with
  | nil =>
    intro b hb
    cases hb
  | cons a rest ih =>
    rw [List.mapM_cons]
    have hhead : Ends better allowed (f a) := hf a List.mem_cons_self
    have htail := ih fun a' ha' => hf a' (List.mem_cons_of_mem a ha')
    refine hhead.bind fun b hb => htail.bind fun bs hbs => ?_
    intro b' hb'
    rcases List.mem_cons.mp hb' with rfl | hmem
    · exact hb
    · exact hbs b' hmem

end Ends

/-- An outcome with an answer is this answer. -/
theorem eq_ok_of_toOption {α : Type} {x : Except Fault α} {a : α}
    (h : x.toOption = some a) :
    x = .ok a := by
  cases x with
  | error fault => cases h
  | ok b => exact congrArg Except.ok (Option.some.inj h)

/-- Where two parts succeed, each of them does. -/
theorem bind_ok_inversion {α β : Type} {x : Except Fault α}
    {f : α → Except Fault β} {b : β} (h : x >>= f = .ok b) :
    ∃ a, x = .ok a ∧ f a = .ok b := by
  cases x with
  | error fault => cases h
  | ok a => exact ⟨a, rfl, h⟩

/-- Computations for the members of a list answer only if each of them does. -/
theorem mapM_ok_inversion {α β : Type} {l : List α} {f : α → Except Fault β}
    {bs : List β} (h : l.mapM f = .ok bs) : ∀ a ∈ l, ∃ b, f a = .ok b := by
  induction l generalizing bs with
  | nil =>
    intro a ha
    cases ha
  | cons a rest ih =>
    rw [List.mapM_cons] at h
    obtain ⟨b, hb, hrest⟩ := bind_ok_inversion h
    obtain ⟨bs', hbs', -⟩ := bind_ok_inversion hrest
    intro a' ha'
    rcases List.mem_cons.mp ha' with rfl | hmem
    · exact ⟨b, hb⟩
    · exact ih hbs' a' hmem

end GraphQuery
