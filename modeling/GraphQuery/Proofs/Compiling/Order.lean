import GraphQuery.Proofs.Compiling.Views
import Mathlib.Computability.RegularExpressions

/-!
# The order of clauses

The kinds of the clauses of a query are a word.  Each pass makes words of a
small regular expression, `Pass.order`, so a composition of passes makes
words of their product, `Composition.inOrder_clauses`; for everything a
query is compiled for by itself that product is `ClauseOrder.single`.  The
pass that unites starts over with the second query.  The queries united one
after the other are the chain of a query, and the query compiles to what the
members of its chain compile to by themselves, set apart by unions:
`Query.compile_chain`.  The two together are
`Query.clause_order_is_canonical`.
-/

namespace GraphQuery

/-- An order in which clauses can stand. -/
abbrev ClauseOrder := RegularExpression ClauseKind

namespace ClauseOrder

open RegularExpression

/-- Clauses that may be missing. -/
def optional (order : ClauseOrder) : ClauseOrder := 1 + order

/-- The order of the clauses of a query by itself. -/
def single : ClauseOrder :=
  optional (char .match_) * star (char .optionalMatch) * star (char .call) *
    optional (char .where_) *
    optional (char .merge * optional (char .onMatchSet) *
      optional (char .onCreateSet)) *
    optional (optional (char .unwind) * char .create) * optional (char .set) *
    optional (char .remove) * optional (char .delete + char .detachDelete) *
    optional (char .return_) * optional (char .orderBy) *
      optional (char .skip) *
    optional (char .limit)

/-- The words of the grammar of queries: a query by itself, or one with
another query behind a union. -/
inductive Canonical : List ClauseKind → Prop
  | alone {word : List ClauseKind} (hword : word ∈ single.matches') :
      Canonical word
  | united {word rest : List ClauseKind} (hword : word ∈ single.matches')
      (hrest : Canonical rest) :
    Canonical (word ++ .union :: rest)

variable {order : ClauseOrder} {word : List ClauseKind}

/-- What is optional may be missing. -/
theorem nil_mem_optional (order : ClauseOrder) :
    [] ∈ (optional order).matches' := .inl rfl

/-- What is optional may be there. -/
theorem mem_optional (h : word ∈ order.matches') :
    word ∈ (optional order).matches' := .inr h

/-- Clauses of one kind are in the order that repeats it. -/
theorem mem_star_char {kind : ClauseKind} (h : ∀ k ∈ word, k = kind) :
    word ∈ (star (char kind)).matches' := by
  have hword : word = (word.map fun k => [k]).flatten := by
    induction word with
    | nil => rfl
    | cons k rest ih =>
      have hrest := ih fun k' hk' => h k' (List.mem_cons_of_mem k hk')
      rw [List.map_cons, List.flatten_cons, ← hrest]
      rfl
  rw [matches'_star, Language.mem_kstar]
  refine ⟨_, hword, ?_⟩
  intro letter hletter
  obtain ⟨k, hk, rfl⟩ := List.mem_map.mp hletter
  rw [h k hk]
  rfl

/-- Words of the order by itself, set apart by unions, are a word of the
grammar. -/
theorem canonical_intercalate {first : List ClauseKind}
    {others : List (List ClauseKind)}
    (h : ∀ word ∈ first :: others, word ∈ single.matches') :
    Canonical ([ClauseKind.union].intercalate (first :: others)) := by
  induction others generalizing first with
  | nil =>
    rw [List.intercalate_singleton]
    exact .alone (h first List.mem_cons_self)
  | cons second rest ih =>
    have hrest := ih fun word hword =>
      h word (List.mem_cons_of_mem first hword)
    rw [List.intercalate_cons_cons, List.append_assoc, List.singleton_append]
    exact .united (h first List.mem_cons_self) hrest

/-- Between words without a union there is one union less than there are
words. -/
theorem count_union_intercalate {first : List ClauseKind}
    {others : List (List ClauseKind)}
    (h : ∀ word ∈ first :: others, .union ∉ word) :
    ([ClauseKind.union].intercalate (first :: others)).count .union =
      others.length := by
  have hfirst : first.count .union = 0 :=
    List.count_eq_zero.mpr (h first List.mem_cons_self)
  induction others generalizing first with
  | nil => rw [List.intercalate_singleton, hfirst, List.length_nil]
  | cons second rest ih =>
    have hothers : ∀ word ∈ second :: rest, .union ∉ word :=
      fun word hword => h word (List.mem_cons_of_mem first hword)
    have hsecond : second.count .union = 0 :=
      List.count_eq_zero.mpr (hothers second List.mem_cons_self)
    rw [List.intercalate_cons_cons, List.count_append, List.count_append,
      hfirst,
      ih hothers hsecond, List.count_singleton_self, List.length_cons]
    omega

end ClauseOrder

/-- Clauses in a given order, if there are any. -/
abbrev InOrder (order : ClauseOrder) (outcome : Except Fault (List Clause)) :
    Prop :=
  Ends (fun clauses => clauses.map Clause.kind ∈ order.matches')
    (fun _ => True) outcome

namespace InOrder

open ClauseOrder RegularExpression

variable {order next : ClauseOrder} {kind : ClauseKind}

/-- Clauses in one order and clauses in the next are in both, one behind the
other. -/
theorem append {first second : List Clause}
    (hfirst : first.map Clause.kind ∈ order.matches')
    (hsecond : second.map Clause.kind ∈ next.matches') :
    (first ++ second).map Clause.kind ∈ (order * next).matches' := by
  rw [List.map_append, matches'_mul]
  exact Language.append_mem_mul hfirst hsecond

/-- A clause is in the order of its kind. -/
theorem clause (kind : ClauseKind) (body : Except Fault String) :
    InOrder (char kind) (Pass.clause kind body) := by
  cases body with
  | error fault => exact trivial
  | ok text => exact Set.mem_singleton [kind]

/-- A clause that is made on a condition is in the order where its kind is
optional. -/
theorem clauseIf (condition : Bool) (kind : ClauseKind)
    (body : Except Fault String) :
    InOrder (optional (char kind)) (Pass.clauseIf condition kind body) := by
  cases condition with
  | false => exact nil_mem_optional (char kind)
  | true => exact (clause kind body).mono (fun _ h =>
      mem_optional h) fun _ _ => trivial

/-- Any number of clauses of one kind. -/
theorem all {outcome : Except Fault (List Clause)}
    (h : OfKinds [kind] outcome) :
    InOrder (star (char kind)) outcome := by
  refine h.mono (fun clauses hclauses => ?_) fun _ h => h
  apply mem_star_char
  intro k hk
  obtain ⟨c, hc, rfl⟩ := List.mem_map.mp hk
  exact List.mem_singleton.mp (hclauses c hc)

/-- A clause for something that may be missing. -/
theorem ofOption {α : Type} (kind : ClauseKind) (o : Option α)
    (body : α → Except Fault String) :
    InOrder (optional (char kind))
    (o.toList.mapM fun a => do return Clause.mk kind (← body a)) := by
  cases o with
  | none => exact nil_mem_optional (char kind)
  | some a =>
    rw [Option.toList_some, List.mapM_cons]
    cases body a with
    | error fault => exact trivial
    | ok text => exact mem_optional (Set.mem_singleton [kind])

end InOrder

namespace Pass

open ClauseOrder RegularExpression

/-- The order of the clauses a pass makes by itself. -/
def order : Pass → ClauseOrder
  | matching true => optional (char .match_)
  | matching false => optional (char .match_) * star (char .optionalMatch)
  | importing => char .with_
  | calling => star (char .call)
  | filtering => optional (char .where_)
  | creating => optional (optional (char .unwind) * char .create)
  | merging => optional (char .merge * optional (char .onMatchSet) *
      optional (char .onCreateSet))
  | setting => optional (char .set)
  | removing => optional (char .remove)
  | deleting => optional (char .delete + char .detachDelete)
  | returning => optional (char .return_) * optional (char .orderBy) *
      optional (char .skip) *
      optional (char .limit)
  | uniting => char .union

/-- **A pass makes its clauses in its order**, unless it is about the query
a query is united with.  Which of two kinds a clause is of is told by a flag
of the query. -/
theorem inOrder_clauses (pass : Pass) (hpass : pass ≠ .uniting)
    (s : Structure Nested) :
    InOrder pass.order (pass.clauses s) := by
  cases pass with
  | matching strict =>
    refine (InOrder.clauseIf _ .match_ _).bind fun first hfirst => ?_
    cases strict with
    | true => exact hfirst
    | false =>
      have hothers := OfKinds.mapM [ClauseKind.optionalMatch] (.head _)
        (s.pattern.chunk .matchedOptionally) Pattern.Element.text
      exact (InOrder.all hothers).bind fun others hothers =>
        InOrder.append hfirst hothers
  | importing => exact Set.mem_singleton [ClauseKind.with_]
  | calling => exact InOrder.all (calling.ofKinds_clauses hpass s)
  | filtering => exact InOrder.clauseIf _ .where_ _
  | creating =>
    rw [clauses, createClauses]
    split
    · exact nil_mem_optional _
    · refine (InOrder.clause .create _).bind fun created hcreated => ?_
      refine mem_optional (InOrder.append ?_ hcreated)
      cases s.batchCreate with
      | none => exact nil_mem_optional _
      | some batch =>
        exact mem_optional (Set.mem_singleton [ClauseKind.unwind])
  | merging =>
    rw [clauses, mergeClauses]
    split
    · exact nil_mem_optional _
    · refine (InOrder.clause .merge _).bind fun merge hmerge => ?_
      refine (InOrder.clauseIf _ .onMatchSet _).bind fun found hfound => ?_
      refine (InOrder.clauseIf _ .onCreateSet _).bind fun created hcreated =>
        ?_
      exact mem_optional
        (InOrder.append (InOrder.append hmerge hfound) hcreated)
  | setting => exact InOrder.clauseIf _ .set _
  | removing => exact InOrder.clauseIf _ .remove _
  | deleting =>
    rw [clauses]
    cases s.forceDelete with
    | false =>
      refine (InOrder.clauseIf _ .delete _).mono (fun _ h => ?_) fun _ h => h
      exact h.imp id .inl
    | true =>
      refine (InOrder.clauseIf _ .detachDelete _).mono (fun _ h =>
        ?_) fun _ h => h
      exact h.imp id .inr
  | returning =>
    refine (InOrder.clauseIf _ .return_ _).bind fun projection hprojection =>
      ?_
    refine (InOrder.clauseIf _ .orderBy _).bind fun order horder => ?_
    have hskip : InOrder (optional (char .skip)) _ :=
      InOrder.ofOption .skip (s.skip.filter fun rows => rows != 0) rowsText
    rw [Option.toList_filter] at hskip
    refine hskip.bind fun skip hskip => ?_
    refine (InOrder.ofOption .limit s.limit rowsText).bind
      fun limit hlimit => ?_
    exact InOrder.append
      (InOrder.append (InOrder.append hprojection horder) hskip) hlimit
  | uniting => exact absurd rfl hpass

/-- Only the pass that unites makes unions. -/
theorem union_notMem_kinds (pass : Pass) (hpass : pass ≠ .uniting) :
    .union ∉ pass.kinds := by
  cases pass with
  | matching strict => cases strict <;> decide
  | uniting => exact absurd rfl hpass
  | _ => decide

/-- Only the pass that unites looks at the query a query is united with. -/
theorem clauses_alone (pass : Pass) (hpass : pass ≠ .uniting)
    (s : Structure Nested) :
    pass.clauses { s with union := none } = pass.clauses s := by
  cases pass with
  | uniting => exact absurd rfl hpass
  | _ => rfl

end Pass

namespace Composition

variable {composition : Composition} {clauses : List Clause}

/-- The order of the clauses of a composition. -/
def order (composition : Composition) : ClauseOrder :=
  (composition.map Pass.order).prod

/-- The clauses of a composition stand in the order of its passes. -/
theorem inOrder_clauses (composition : Composition)
    (hunited : .uniting ∉ composition) (s : Structure Nested) :
    InOrder composition.order (composition.clauses s) := by
  induction composition with
  | nil => exact rfl
  | cons pass rest ih =>
    rw [List.mem_cons, not_or] at hunited
    rw [clauses_cons]
    refine (pass.inOrder_clauses (Ne.symm hunited.1) s).bind
      fun first hfirst => ?_
    exact (ih hunited.2).bind fun later hlater => InOrder.append hfirst hlater

/-- A composition that does not unite does not see the second query. -/
theorem clauses_alone (composition : Composition)
    (hunited : .uniting ∉ composition) (s : Structure Nested) :
    composition.clauses { s with union := none } = composition.clauses s := by
  induction composition with
  | nil => rfl
  | cons pass rest ih =>
    rw [List.mem_cons, not_or] at hunited
    rw [clauses_cons, clauses_cons, pass.clauses_alone (Ne.symm hunited.1),
      ih hunited.2]

/-- The order of the full composition without the union is the grammar of a
single query. -/
theorem matches'_order_single :
    Composition.single.order.matches' = ClauseOrder.single.matches' := by
  simp [order, single, ClauseOrder.single, Pass.order, mul_assoc]

/-- A composition that does not unite makes no union. -/
theorem union_notMem (hunited : .uniting ∉ composition)
    {s : Structure Nested} (h : composition.clauses s = .ok clauses) :
    .union ∉ clauses.map Clause.kind := by
  induction composition generalizing clauses with
  | nil =>
    cases h
    exact List.not_mem_nil
  | cons pass rest ih =>
    rw [List.mem_cons, not_or] at hunited
    obtain ⟨first, later, hfirst, hlater, rfl⟩ := clauses_cons_eq_ok h
    have hkinds := pass.ofKinds_clauses (Ne.symm hunited.1) s
    rw [hfirst] at hkinds
    rw [List.map_append, List.mem_append, not_or]
    constructor
    · intro hmem
      obtain ⟨c, hc, hunion⟩ := List.mem_map.mp hmem
      have hpass := hkinds c hc
      rw [hunion] at hpass
      exact pass.union_notMem_kinds (Ne.symm hunited.1) hpass
    · exact ih hunited.2 hlater

end Composition

/-! ### The chain of a query -/

/-- Computations for the members of a list answer with one answer for each. -/
theorem forall₂_of_mapM {α β : Type} {l : List α} {f : α → Except Fault β}
    {bs : List β} (h : l.mapM f = .ok bs) :
    List.Forall₂ (fun a b => f a = .ok b) l bs := by
  induction l generalizing bs with
  | nil =>
    cases h
    exact .nil
  | cons a rest ih =>
    rw [List.mapM_cons] at h
    obtain ⟨b, hb, h⟩ := bind_ok_inversion h
    obtain ⟨later, hlater, h⟩ := bind_ok_inversion h
    cases h
    exact .cons hb (ih hlater)

/-- The kinds of clauses set apart by others are the kinds of the clauses,
set apart by those of the others. -/
theorem map_kind_intercalate (between first : List Clause)
    (others : List (List Clause)) :
    (between.intercalate (first :: others)).map Clause.kind =
      (between.map Clause.kind).intercalate
        ((first :: others).map (List.map Clause.kind)) := by
  induction others generalizing first with
  | nil => rw [List.intercalate_singleton, List.map_singleton,
      List.intercalate_singleton]
  | cons second rest ih =>
    rw [List.intercalate_cons_cons, List.map_append, List.map_append, ih]
    simp only [List.map_cons, List.intercalate_cons_cons]

namespace Query

mutual

/-- A query and those united with it, one after the other. -/
def chain : Query → List Query
  | mk content wheres subQueries union =>
    mk content wheres subQueries union :: chainOption union

/-- `chain` on a query that may be missing. -/
def chainOption : Option Query → List Query
  | none => []
  | some query => chain query

end

/-- The chain of a query is the query and the chain of the one it is united
with. -/
theorem chain_eq (q : Query) :
    q.chain = q :: chainOption q.structure.union := by
  cases q
  rfl

/-- A query without the one it is united with. -/
def alone (q : Query) :
    Query := Structure.toQuery { q.structure with union := none }

/-- What stands between two queries that are united. -/
def separator : List Clause := [⟨.union, ""⟩]

/-- The clauses that the members of a chain compile to by themselves, set
apart by unions. -/
def clausesOfChain (queries : List Query) : Except Fault (List Clause) := do
  return separator.intercalate (← queries.mapM fun part =>
    part.alone.compile .full)

/-- What a query compiles to by itself is what it compiles to without the
one it is united with. -/
theorem compile_alone (q : Query) :
    q.alone.compile .full = q.compile .single := by
  have hsame := Composition.clauses_alone .single (by decide)
    (q.structure.map toNested)
  rw [compile_full, compile_eq]
  show (do
    let own ← Composition.single.clauses
        { q.structure.map toNested with union := none }
    return own ++ []) = _
  rw [hsame, compile_eq]
  cases Composition.single.clauses (q.structure.map toNested) with
  | error fault => rfl
  | ok own => exact congrArg Except.ok (List.append_nil own)

/-- A chain of one member compiles to what this member does. -/
theorem clausesOfChain_singleton (q : Query) :
    clausesOfChain [q] = q.alone.compile .full := by
  rw [clausesOfChain, List.mapM_cons]
  cases q.alone.compile .full with
  | error fault => rfl
  | ok own => exact congrArg Except.ok List.intercalate_singleton

/-- The first member of a chain and the rest of it, which is that of the
next query. -/
theorem clausesOfChain_cons (q second : Query) :
    clausesOfChain (q :: second.chain) = (do
      let own ← q.alone.compile .full
      return own ++ ⟨.union, ""⟩ :: (← clausesOfChain second.chain)) := by
  rw [chain_eq, clausesOfChain, clausesOfChain, List.mapM_cons]
  cases q.alone.compile .full with
  | error fault => rfl
  | ok own =>
    cases hparts : (second :: chainOption second.structure.union).mapM
        fun part => part.alone.compile .full with
    | error fault => rfl
    | ok parts =>
      cases parts with
      | nil => cases forall₂_of_mapM hparts
      | cons first others =>
        have hcut : separator.intercalate (own :: first :: others) =
            own ++ ⟨.union, ""⟩ :: separator.intercalate
              (first :: others) := by
          rw [List.intercalate_cons_cons, List.append_assoc]
          rfl
        exact congrArg Except.ok hcut

mutual

/-- **A query compiles to what the members of its chain compile to by
themselves**, set apart by unions, and it fails where the first of them
fails. -/
theorem compile_chain (q : Query) :
    q.compile .full = clausesOfChain q.chain := by
  match q with
  | mk content wheres subQueries none =>
    show _ = clausesOfChain [mk content wheres subQueries none]
    rw [clausesOfChain_singleton, compile_alone, compile_full]
    show (do
      let own ← (mk content wheres subQueries none).compile .single
      return own ++ []) = _
    cases (mk content wheres subQueries none).compile .single with
    | error fault => rfl
    | ok own => exact congrArg Except.ok (List.append_nil own)
  | mk content wheres subQueries (some second) =>
    have hsecond : second.compile .full = clausesOfChain second.chain :=
      compile_united (some second) second rfl
    show _ = clausesOfChain (mk content wheres subQueries (some second) ::
        second.chain)
    have hunited : (mk content wheres subQueries (some second)).united = (do
        return ⟨.union, ""⟩ :: (← second.compile .full)) := rfl
    rw [clausesOfChain_cons, compile_alone, compile_full, hunited, ← hsecond]
    cases second.compile .full <;> rfl

/-- The second query of a union compiles to what its chain does. -/
theorem compile_united (union : Option Query) :
    ∀ second, union = some second →
    second.compile .full = clausesOfChain second.chain := by
  match union with
  | none =>
    intro second hsecond
    cases hsecond
  | some query =>
    intro second hsecond
    cases hsecond
    exact compile_chain query

end

/-- A query by itself compiles to clauses in the order of one, and to no
union. -/
theorem alone_inOrder {q : Query} {own : List Clause}
    (h : q.alone.compile .full = .ok own) :
    own.map Clause.kind ∈ ClauseOrder.single.matches' ∧
    .union ∉ own.map Clause.kind := by
  rw [compile_alone, compile_eq] at h
  have horder := Composition.inOrder_clauses .single (by decide)
    (q.structure.map toNested)
  rw [h, InOrder, Composition.matches'_order_single] at horder
  exact ⟨horder, Composition.union_notMem (by decide) h⟩

/-- **The order of clauses is canonical.**  A query compiles to what the
members of its chain, each without the one it is united with, compile to,
set apart by unions.  What each of them compiles to is in the order of a
query by itself and without a union, so that the kinds of all clauses are a
word of the grammar, in which there are as many unions as the chain has
links.  A chain is never empty, as the query itself comes first. -/
theorem clause_order_is_canonical (q : Query) :
    q.compile .full = clausesOfChain q.chain ∧
      ∀ clauses, q.compile .full = .ok clauses →
        ClauseOrder.Canonical (clauses.map Clause.kind) ∧
          (clauses.map Clause.kind).count .union + 1 = q.chain.length ∧
          ∃ parts, clauses = separator.intercalate parts ∧
            q.chain.Forall₂ (fun part own => part.alone.compile .full =
              .ok own) parts ∧
            ∀ own ∈ parts, own.map Clause.kind ∈ ClauseOrder.single.matches' ∧
              .union ∉ own.map Clause.kind := by
  refine ⟨q.compile_chain, fun clauses hclauses => ?_⟩
  rw [compile_chain, chain_eq] at hclauses
  rw [chain_eq]
  obtain ⟨parts, hparts, h⟩ := bind_ok_inversion hclauses
  cases h
  have hmembers := forall₂_of_mapM hparts
  have hends : Ends (fun parts => ∀ own ∈ parts,
      own.map Clause.kind ∈ ClauseOrder.single.matches' ∧
      .union ∉ own.map Clause.kind)
      (fun _ => True) (.ok parts) := by
    rw [← hparts]
    apply Ends.mapM
    intro part _
    cases hown : part.alone.compile .full with
    | error fault => exact trivial
    | ok own => exact alone_inOrder hown
  cases hmembers with
  | @cons _ first _ others hfirst hothers =>
    have hwords : ∀ word ∈ (first :: others).map (List.map Clause.kind),
        word ∈ ClauseOrder.single.matches' ∧ .union ∉ word := by
      intro word hword
      obtain ⟨own, hown, rfl⟩ := List.mem_map.mp hword
      exact hends own hown
    have hcanonical := ClauseOrder.canonical_intercalate fun word hword =>
      (hwords word hword).1
    have hcount := ClauseOrder.count_union_intercalate fun word hword =>
      (hwords word hword).2
    have hkinds := map_kind_intercalate separator first others
    rw [List.length_map, ← hothers.length_eq] at hcount
    refine ⟨?_, ?_, first :: others, rfl, .cons hfirst hothers, hends⟩
    · rw [hkinds]
      exact hcanonical
    · rw [hkinds, List.length_cons]
      exact congrArg (· + 1) hcount

/-- A query that skips a row and is united with one that is not. -/
def reunited : Query :=
  Structure.toQuery
    { rededicated.structure with skip := some 1, union := some rededicated }

/-- A query that skips a row is united with one that does not, and both of
them match, merge and create. -/
theorem clause_order_is_canonical_of_reunited :
    ∃ clauses parts, reunited.compile .full = .ok clauses ∧
      clauses.map Clause.kind = [.match_, .optionalMatch, .merge, .create,
        .skip, .union, .match_,
        .optionalMatch, .merge, .create] ∧
      ClauseOrder.Canonical (clauses.map Clause.kind) ∧
      (clauses.map Clause.kind).count .union + 1 = reunited.chain.length ∧
      clauses = separator.intercalate parts := by
  have hkinds : (reunited.compile .full).toOption.map
      (List.map Clause.kind) = some
      [.match_, .optionalMatch, .merge, .create, .skip, .union,
        .match_, .optionalMatch, .merge,
        .create] := by
    decide +kernel
  obtain ⟨-, hordered⟩ := clause_order_is_canonical reunited
  cases hcompile : reunited.compile .full with
  | error fault =>
    rw [hcompile] at hkinds
    cases hkinds
  | ok clauses =>
    rw [hcompile] at hkinds
    obtain ⟨hcanonical, hcount, parts, hparts, -, -⟩ :=
      hordered clauses hcompile
    exact ⟨clauses, parts, rfl, Option.some.inj hkinds, hcanonical,
      hcount, hparts⟩

/-- The order of a query by itself has no place for a page in front of the
projection. -/
example : ClauseOrder.single.rmatch [.match_, .limit, .return_] = false := by
  decide

end Query

end GraphQuery
