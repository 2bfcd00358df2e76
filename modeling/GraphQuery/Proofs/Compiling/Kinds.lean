import GraphQuery.Composition
import GraphQuery.Proofs.Compiling.Outcome

/-!
# The clauses of a pass

A pass makes clauses of its own kinds only, except that of a union, which
makes all those of the second query: `Pass.ofKinds_clauses`.  The clauses of
a composition are those of its passes, one after the other, so a composition
can be cut between any two of them.
-/

namespace GraphQuery

/-- Clauses of given kinds, if there are any. -/
abbrev OfKinds (kinds : List ClauseKind)
    (outcome : Except Fault (List Clause)) : Prop :=
  Ends (fun clauses => ∀ c ∈ clauses, c.kind ∈ kinds) (fun _ => True) outcome

namespace OfKinds

variable {kinds : List ClauseKind} {kind : ClauseKind}

/-- No clauses are of whatever kinds. -/
theorem none (kinds : List ClauseKind) : OfKinds kinds (.ok []) := by
  intro c hc
  cases hc

/-- Clauses of some kinds, put together, are of these kinds. -/
theorem append {first second : List Clause}
    (hfirst : ∀ c ∈ first, c.kind ∈ kinds)
    (hsecond : ∀ c ∈ second, c.kind ∈ kinds) :
    ∀ c ∈ first ++ second, c.kind ∈ kinds := by
  intro c hc
  rcases List.mem_append.mp hc with hmem | hmem
  · exact hfirst c hmem
  · exact hsecond c hmem

/-- A clause is of its kind, if its body succeeds. -/
theorem clause (kinds : List ClauseKind) (hkind : kind ∈ kinds)
    (body : Except Fault String) :
    OfKinds kinds (Pass.clause kind body) := by
  cases body with
  | error fault => exact trivial
  | ok text =>
    intro c hc
    rw [List.mem_singleton.mp hc]
    exact hkind

/-- A clause that is made on a condition is of its kind. -/
theorem clauseIf (kinds : List ClauseKind) {condition : Bool}
    (hkind : kind ∈ kinds) (body : Except Fault String) :
    OfKinds kinds (Pass.clauseIf condition kind body) := by
  cases condition with
  | false => exact none kinds
  | true => exact clause kinds hkind body

/-- Clauses of one kind, each with a computed body. -/
theorem mapM (kinds : List ClauseKind) {α : Type} (hkind : kind ∈ kinds)
    (l : List α) (body : α → Except Fault String) :
    OfKinds kinds (l.mapM fun a => do return Clause.mk kind (← body a)) := by
  apply Ends.mapM
  intro a _
  cases body a with
  | error fault => exact trivial
  | ok text => exact hkind

end OfKinds

namespace Pass

/-- The kinds of the clauses a pass makes by itself. -/
def kinds : Pass → List ClauseKind
  | matching _ => [.match_, .optionalMatch]
  | importing => [.with_]
  | calling => [.call]
  | filtering => [.where_]
  | creating => [.unwind, .create]
  | merging => [.merge, .onMatchSet, .onCreateSet]
  | setting => [.set]
  | removing => [.remove]
  | deleting => [.delete, .detachDelete]
  | returning => [.return_, .orderBy, .skip, .limit]
  | uniting => [.union]

/-- **A pass makes clauses of its own kinds**, unless it is about the query
a query is united with. -/
theorem ofKinds_clauses (pass : Pass) (hpass : pass ≠ .uniting)
    (s : Structure Nested) :
    OfKinds pass.kinds (pass.clauses s) := by
  cases pass with
  | matching strict =>
    refine (OfKinds.clauseIf (matching strict).kinds (.head _) _).bind
      fun first hfirst => ?_
    cases strict with
    | true => exact hfirst
    | false =>
      refine (OfKinds.mapM (matching false).kinds (by decide)
        _ Pattern.Element.text).bind ?_
      exact fun others hothers => OfKinds.append hfirst hothers
  | importing =>
    intro c hc
    rw [List.mem_singleton.mp hc]
    decide
  | calling =>
    apply Ends.mapM
    intro nested _
    cases nestedText .subQuery nested with
    | error fault => exact trivial
    | ok text => exact .head _
  | filtering => exact OfKinds.clauseIf filtering.kinds (by decide) _
  | creating =>
    rw [clauses, createClauses]
    split
    · exact OfKinds.none creating.kinds
    · refine (OfKinds.clause creating.kinds (by decide) _).bind
        fun created hcreated => ?_
      refine OfKinds.append ?_ hcreated
      intro c hc
      obtain ⟨batch, -, rfl⟩ := List.mem_map.mp hc
      exact .head _
  | merging =>
    rw [clauses, mergeClauses]
    split
    · exact OfKinds.none merging.kinds
    · refine (OfKinds.clause merging.kinds (by decide) _).bind
        fun merge hmerge => ?_
      refine (OfKinds.clauseIf merging.kinds (by decide) _).bind
        fun found hfound => ?_
      refine (OfKinds.clauseIf merging.kinds (by decide) _).bind
        fun created hcreated => ?_
      exact OfKinds.append (OfKinds.append hmerge hfound) hcreated
  | setting => exact OfKinds.clauseIf setting.kinds (by decide) _
  | removing => exact OfKinds.clauseIf removing.kinds (by decide) _
  | deleting =>
    rw [clauses]
    cases s.forceDelete
    all_goals exact OfKinds.clauseIf deleting.kinds (by decide) _
  | returning =>
    refine (OfKinds.clauseIf returning.kinds (by decide) _).bind
      fun projection hprojection => ?_
    refine (OfKinds.clauseIf returning.kinds (by decide) _).bind
      fun order horder => ?_
    refine (OfKinds.mapM returning.kinds (by decide) _ rowsText).bind
      fun skip hskip => ?_
    refine (OfKinds.mapM returning.kinds (by decide) _ rowsText).bind
      fun limit hlimit => ?_
    exact OfKinds.append
      (OfKinds.append (OfKinds.append hprojection horder) hskip) hlimit
  | uniting => exact absurd rfl hpass

end Pass

namespace Composition

variable {s : Structure Nested} {composition : Composition}
    {clauses : List Clause}

/-- No passes make no clauses. -/
theorem clauses_nil (s : Structure Nested) :
    Composition.clauses [] s = .ok [] := rfl

/-- The clauses of the first pass stand before those of the others. -/
theorem clauses_cons (pass : Pass) (composition : Composition)
    (s : Structure Nested) :
    Composition.clauses (pass :: composition) s = (do
      let first ← pass.clauses s
      return first ++ (← composition.clauses s)) := by
  rw [Composition.clauses, List.mapM_cons]
  cases pass.clauses s with
  | error fault => rfl
  | ok first =>
    rw [Composition.clauses]
    cases composition.mapM fun pass => pass.clauses s <;> rfl

/-- A composition can be cut between any two of its passes. -/
theorem clauses_append (first second : Composition) (s : Structure Nested) :
    Composition.clauses (first ++ second) s = (do
      let before ← first.clauses s
      return before ++ (← second.clauses s)) := by
  induction first with
  | nil =>
    rw [List.nil_append, clauses_nil]
    cases second.clauses s <;> rfl
  | cons pass rest ih =>
    rw [List.cons_append, clauses_cons, clauses_cons, ih]
    cases pass.clauses s with
    | error fault => rfl
    | ok made =>
      cases Composition.clauses rest s with
      | error fault => rfl
      | ok before =>
        cases second.clauses s with
        | error fault => rfl
        | ok later =>
          exact congrArg Except.ok (List.append_assoc made before later).symm

/-- What a composition makes is made by its two parts. -/
theorem clauses_append_eq_ok {first second : Composition}
    (h : Composition.clauses (first ++ second) s = .ok clauses) :
    ∃ before later, first.clauses s = .ok before ∧
    second.clauses s = .ok later ∧
      clauses = before ++ later := by
  rw [clauses_append] at h
  obtain ⟨before, hbefore, h⟩ := bind_ok_inversion h
  obtain ⟨later, hlater, h⟩ := bind_ok_inversion h
  cases h
  exact ⟨before, later, hbefore, hlater, rfl⟩

/-- What a composition makes is made by its first pass and the later ones. -/
theorem clauses_cons_eq_ok {pass : Pass}
    (h : Composition.clauses (pass :: composition) s = .ok clauses) :
    ∃ first later, pass.clauses s = .ok first ∧
    composition.clauses s = .ok later ∧
      clauses = first ++ later := by
  rw [clauses_cons] at h
  obtain ⟨first, hfirst, h⟩ := bind_ok_inversion h
  obtain ⟨later, hlater, h⟩ := bind_ok_inversion h
  cases h
  exact ⟨first, later, hfirst, hlater, rfl⟩

end Composition

end GraphQuery
