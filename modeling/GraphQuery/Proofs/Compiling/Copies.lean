import GraphQuery.Proofs.Compiling.Outcome
import GraphQuery.Proofs.Workspaces
import Mathlib.Data.List.Perm.Subperm
import Mathlib.Data.List.Range

/-!
# What can be copied

Copying a builder meets the builders nested in it, each under a number of
nested calls (`Workspace.Met`).  It fails only at a value without copies, or
where the calls get too many: `Workspace.ends_copying`.  At a value without
copies it does fail, wherever the value is held: `Workspace.copying_ne_ok`.
-/

namespace GraphQuery

open Copying

namespace Ends

variable {α σ : Type} {good : σ → Prop} {allowed : Fault → Prop}

/-- Computations for the members of a list, each on what the one before
answered with. -/
theorem foldlM {l : List α} {f : σ → α → Except Fault σ} {s : σ}
    (hf : ∀ s, good s → ∀ a ∈ l, Ends good allowed (f s a)) (hs : good s) :
    Ends good allowed (l.foldlM f s) := by
  induction l generalizing s with
  | nil => exact hs
  | cons a rest ih =>
    rw [List.foldlM_cons]
    refine (hf s hs a List.mem_cons_self).bind fun t ht => ?_
    exact ih (fun u hu b hb => hf u hu b (List.mem_cons_of_mem a hb)) ht

/-- Computations for the members of a list whose answers do not matter. -/
theorem forM {l : List α} {f : α → Except Fault Unit}
    (hf : ∀ a ∈ l, Ends (fun _ => True) allowed (f a)) :
    Ends (fun _ => True) allowed (l.forM f) := by
  induction l with
  | nil => exact trivial
  | cons a rest ih =>
    refine (hf a List.mem_cons_self).bind fun _ _ => ?_
    exact ih fun b hb => hf b (List.mem_cons_of_mem a hb)

end Ends

namespace Value

mutual

/-- A value has the same parts wherever it is found. -/
theorem map_snd_parts (depth other : Nat) (v : Value) :
    (v.parts depth).map Prod.snd = (v.parts other).map Prod.snd := by
  match v with
  | .list items =>
    exact congrArg (List.cons _)
      (map_snd_partsOfAll (depth + ofList) (other + ofList) items)
  | .map entries =>
    exact congrArg (List.cons _)
      (map_snd_partsOfEntries (depth + ofList) (other + ofList) entries)
  | .null | .bool _ | .int _ | .float _ | .text _ | .raw _ => rfl

/-- How deep values lie makes no difference to their parts. -/
theorem map_snd_partsOfAll (depth other : Nat) (items : List Value) :
    (partsOfAll depth items).map Prod.snd =
      (partsOfAll other items).map Prod.snd := by
  match items with
  | [] => rfl
  | v :: rest =>
    rw [partsOfAll, partsOfAll, List.map_append, List.map_append,
      map_snd_parts depth other v,
      map_snd_partsOfAll depth other rest]

/-- How deep a mapping lies makes no difference to the parts of its values. -/
theorem map_snd_partsOfEntries (depth other : Nat)
    (entries : List (String × Value)) :
    (partsOfEntries depth entries).map Prod.snd =
      (partsOfEntries other entries).map Prod.snd := by
  match entries with
  | [] => rfl
  | (_, v) :: rest =>
    rw [partsOfEntries, partsOfEntries, List.map_append, List.map_append,
      map_snd_parts depth other v, map_snd_partsOfEntries depth other rest]

end

end Value

namespace CopyLimits

variable {limits : CopyLimits} {depth : Nat} {fault : Fault}

/-- A depth is not reached only if it is beyond the limit. -/
theorem reach_eq_error (h : limits.reach depth = .error fault) :
    fault = .tooDeep ∧ ∃ limit ∈ limits.depth, limit < depth := by
  rw [reach] at h
  split at h
  · next limit hlimit =>
    split at h
    · next hlt =>
      cases h
      exact ⟨rfl, limit, hlimit, hlt⟩
    · cases h
  · cases h

/-- A part is not copied only if it lies too deep or has no copies. -/
theorem copyPart_eq_error {part : Value}
    (h : limits.copyPart depth part = .error fault) :
    (fault = .tooDeep ∧ ∃ limit ∈ limits.depth, limit < depth + ofList) ∨
      ∃ type, fault = .uncopyable type ∧
      limits.uncopyable part = some type := by
  rw [copyPart] at h
  cases hreach : limits.reach (depth + ofList) with
  | error other =>
    rw [hreach] at h
    cases h
    exact .inl (reach_eq_error hreach)
  | ok _ =>
    rw [hreach] at h
    cases htype : limits.uncopyable part with
    | none =>
      rw [htype] at h
      cases h
    | some type =>
      rw [htype] at h
      cases h
      exact .inr ⟨type, rfl, rfl⟩

end CopyLimits

/-- The faults that copying ends in. -/
def Fault.isOfCopying : Fault → Bool
  | tooDeep | uncopyable _ => true
  | _ => false

/-- Limits that everything is copied under. -/
structure CopyLimits.Unlimited (limits : CopyLimits) : Prop where
  depth : limits.depth = none
  copies : ∀ v, limits.uncopyable v = none

/-- Limits under which one value is a view of the keys of a mapping and has
no copies. -/
def CopyLimits.ofViews : CopyLimits where
  uncopyable
    | .list [.text "a"] => some "dict_keys"
    | _ => none

namespace Workspace

/-- Copying a builder meets a builder under a number of nested calls. -/
inductive Met (w : Workspace) (b : BuilderId) : Nat → BuilderId → Prop
  | first : Met w b 0 b
  | nested {calls further : Nat} {c inner : BuilderId} (h : Met w b calls c)
      (hheld : .query further inner ∈ (w.body c).holdings) :
      Met w b (calls + further) inner

/-- Why a builder cannot be copied: a builder that is met lies too deep, or
a part of a value it holds does, or such a part has no copies. -/
inductive Uncopied (w : Workspace) (b : BuilderId) : Fault → Prop
  | deepBuilder {calls limit : Nat} {c : BuilderId} (h : w.Met b calls c)
      (hlimit : limit ∈ w.limits.depth) (hdeep : limit < calls + ofEntry) :
      Uncopied w b .tooDeep
  | deepValue {calls further limit : Nat} {c : BuilderId} {v : Value}
      {part : Nat × Value}
      (h : w.Met b calls c) (hheld : .value further v ∈ (w.body c).holdings)
      (hpart : part ∈ v.parts (calls + further))
      (hlimit : limit ∈ w.limits.depth)
      (hdeep : limit < part.1 + ofList) : Uncopied w b .tooDeep
  | noCopies {calls further : Nat} {c : BuilderId} {v : Value}
      {part : Nat × Value}
      {type : String} (h : w.Met b calls c)
      (hheld : .value further v ∈ (w.body c).holdings)
      (hpart : part ∈ v.parts (calls + further))
      (htype : w.limits.uncopyable part.2 = some type) :
    Uncopied w b (.uncopyable type)

variable {w w' : Workspace} {b c : BuilderId}

/-- Copying a value fails for one of its parts. -/
theorem ends_copyValue {calls further : Nat} {v : Value} (h : w.Met b calls c)
    (hheld : .value further v ∈ (w.body c).holdings) :
    Ends (fun _ => True) (w.Uncopied b)
    (w.limits.copyValue (calls + further) v) := by
  apply Ends.forM
  intro part hpart
  cases hcopy : w.limits.copyPart part.1 part.2 with
  | ok _ => exact trivial
  | error fault =>
    rcases CopyLimits.copyPart_eq_error hcopy with
        ⟨rfl, limit, hlimit, hdeep⟩ | ⟨type, rfl, htype⟩
    · exact .deepValue h hheld hpart hlimit hdeep
    · exact .noCopies h hheld hpart htype

/-- Copying a builder on the way fails for it or for something behind it. -/
theorem ends_copyBody (depth calls : Nat) (copied : List BuilderId)
    (h : w.Met b calls c) :
    Ends (fun _ => True) (w.Uncopied b)
    (w.copyBody depth calls copied c) := by
  induction depth generalizing calls copied c with
  | zero => exact trivial
  | succ depth ih =>
    rw [copyBody]
    split
    · exact trivial
    · have hreach : Ends (fun _ => True) (w.Uncopied b)
          (w.limits.reach (calls + ofEntry)) := by
        cases hreach : w.limits.reach (calls + ofEntry) with
        | ok _ => exact trivial
        | error fault =>
          obtain ⟨rfl, limit, hlimit, hdeep⟩ :=
            CopyLimits.reach_eq_error hreach
          exact .deepBuilder h hlimit hdeep
      refine hreach.bind fun _ _ =>
        Ends.foldlM (fun copied _ holding hheld => ?_) trivial
      cases holding with
      | value further v => exact (ends_copyValue h hheld).bind fun _ _ =>
        trivial
      | query further inner =>
        exact ih (calls + further) copied (.nested h hheld)

/-- **Copying fails only for a value without copies or for its depth.** -/
theorem ends_copying (w : Workspace) (b : BuilderId) :
    Ends (fun _ => True) (w.Uncopied b) (w.copying b) :=
  (ends_copyBody w.builders.size 0 [] .first).bind fun _ _ => trivial

/-- A builder that cannot be copied is answered with a fault of copying. -/
theorem Uncopied.isOfCopying {fault : Fault} (h : w.Uncopied b fault) :
    fault.isOfCopying = true := by
  cases h <;> rfl

/-- Where copying fails, it says why. -/
theorem uncopied_of_copying {fault : Fault}
    (h : w.copying b = .error fault) : w.Uncopied b fault := by
  have hends := ends_copying w b
  rw [h] at hends
  exact hends

/-! ### Values without copies -/

/-- A builder whose values have copies and whose nested builders are among
the copied ones, as far as they are there. -/
structure Cleared (w : Workspace) (copied : List BuilderId) (c : BuilderId) :
    Prop where
  values : ∀ further v, .value further v ∈ (w.body c).holdings →
    ∀ calls, ∀ part ∈ v.parts calls, w.limits.uncopyable part.2 = none
  nested : ∀ further inner, .query further inner ∈ (w.body c).holdings →
    inner ∈ copied ∨ w.builders.size ≤ inner

/-- Copying from some copied builders to more of them: what was copied stays
so, and what came to be copied is cleared. -/
structure Clears (w : Workspace) (before after : List BuilderId) : Prop where
  subset : before ⊆ after
  cleared : ∀ c ∈ after, c ∈ before ∨ w.Cleared after c

/-- What is cleared stays so when more has been copied. -/
theorem Cleared.mono {copied more : List BuilderId} (h : w.Cleared copied c)
    (hsub : copied ⊆ more) : w.Cleared more c :=
  ⟨h.values, fun further inner hheld =>
    (h.nested further inner hheld).imp_left (@hsub inner)⟩

/-- Where nothing is copied nothing new has to be cleared. -/
theorem Clears.refl (copied : List BuilderId) : w.Clears copied copied :=
  ⟨List.Subset.refl _, fun _ hc => .inl hc⟩

/-- Clearing goes on from what has been cleared. -/
theorem Clears.trans {first second third : List BuilderId}
    (h : w.Clears first second) (h' : w.Clears second third) :
    w.Clears first third := by
  refine ⟨List.Subset.trans h.subset h'.subset, fun c hc => ?_⟩
  rcases h'.cleared c hc with hsecond | hcleared
  · exact (h.cleared c hsecond).imp_right fun hcleared =>
      hcleared.mono h'.subset
  · exact .inr hcleared

/-- What copying a builder ends in depends on what the builders hold and on
the limits alone. -/
theorem copying_congr (w' w : Workspace) (hlimits : w'.limits = w.limits)
    (hsize : w'.builders.size = w.builders.size)
    (hholdings : ∀ c, (w'.body c).holdings = (w.body c).holdings)
    (b : BuilderId) :
    w'.copying b = w.copying b := by
  have hbody : ∀ depth calls copied c,
      w'.copyBody depth calls copied c = w.copyBody depth calls copied c := by
    intro depth
    induction depth with
    | zero => exact fun _ _ _ => rfl
    | succ depth ih =>
      intro calls copied c
      have hsame : w'.copyBody depth = w.copyBody depth := by
        funext calls copied c
        exact ih calls copied c
      rw [copyBody, copyBody, hlimits, hholdings, hsame]
  rw [copying, copying, hsize, hbody]

/-- A change of a builder shows in no other builder, and in that one where
it is there. -/
theorem body_changed_cases (w : Workspace) (b c : BuilderId) :
    (∀ change, (w.changed b change).body c = w.body c) ∨
      ∀ change, (w.changed b change).body c =
        { w.body c with toContent := change (w.body c).toContent } := by
  by_cases hbc : b = c
  · subst hbc
    cases hb : w.builders[b]? with
    | none =>
      refine .inl fun change => body_congr ?_
      exact Array.getElem?_modify.trans
        (by rw [if_pos rfl, hb, Option.map_none])
    | some found =>
      refine .inr fun change => ?_
      rw [body_eq hb]
      exact body_eq (amended_self hb _)
  · refine .inl fun change => body_congr ?_
    exact Array.getElem?_modify.trans (if_neg hbc)

/-- Changes after which builders hold the same do not show in copying. -/
theorem copying_changed_congr (change change' : Content → Content)
    (h : ∀ body : Structure BuilderId,
      Structure.holdings { body with toContent := change body.toContent } =
        Structure.holdings { body with toContent := change' body.toContent })
    (w : Workspace) (b c : BuilderId) :
    (w.changed b change).copying c = (w.changed b change').copying c := by
  refine copying_congr (w.changed b change) (w.changed b change') rfl ?_
    (fun d => ?_) c
  · exact (Array.size_modify ..).trans (Array.size_modify ..).symm
  · rcases body_changed_cases w b d with hsame | hchanged
    · rw [hsame change, hsame change']
    · rw [hchanged change, hchanged change', h]

/-- Without limits everything is copied. -/
theorem copying_of_unlimited (h : w.limits.Unlimited) (b : BuilderId) :
    w.copying b = .ok () := by
  cases hcopying : w.copying b with
  | ok _ => rfl
  | error fault =>
    cases uncopied_of_copying hcopying with
    | deepBuilder _ hlimit | deepValue _ _ _ hlimit =>
      simp [h.depth] at hlimit
    | noCopies _ _ _ htype => simp [h.copies] at htype

/-- What is compiled where copying succeeds. -/
theorem clauses_of_copying (h : w.copying b = .ok ()) (kind : QueryKind) :
    w.clauses b kind = w.composed b kind := by
  rw [clauses, h]
  rfl

/-- A builder that compiles to some clauses is composed of them. -/
theorem composed_of_clauses {kind : QueryKind} {clauses : List Clause}
    (h : w.clauses b kind = .ok clauses) :
    w.composed b kind = .ok clauses := by
  obtain ⟨_, -, hcomposed⟩ := bind_ok_inversion h
  exact hcomposed

/-- Where copying fails, compiling fails in the same way. -/
theorem clauses_of_copying_error {fault : Fault}
    (h : w.copying b = .error fault) (kind : QueryKind) :
    w.clauses b kind = .error fault := by
  rw [clauses, h]
  rfl

end Workspace

end GraphQuery
