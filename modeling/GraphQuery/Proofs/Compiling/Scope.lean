import GraphQuery.Proofs.Compiling.Views
import GraphQuery.Proofs.Parameters.Script
import GraphQuery.Proofs.Scripts.Batches

/-!
# Lookups in scope

A lookup is written with the row that a batch is unwound to, so it means
something only right behind the clause that unwinds the batch:
`Workspace.InScope`.  It stands there exactly as long as the batch serves
it: `Session.lookups_in_scope`.  The batch does when the lookup is made, but
nothing takes the lookup back when the batch, or what its element is
declared for, changes.
-/

namespace GraphQuery

/-! ### The clause that unwinds a batch -/

/-- Whether a pass makes clauses of its own only, none of which unwinds a
batch. -/
def Pass.isRowless (pass : Pass) :
    Bool := pass != .uniting && !pass.kinds.contains .unwind

/-- The clauses of the query that another one is united with, as it is
given. -/
def Structure.UnitedBy (s : Structure Nested) (united : List Clause) : Prop :=
  united = [] ∨
    ∃ second more, s.union = some second ∧ second .full = .ok more ∧
    united = ⟨.union, ""⟩ :: more

namespace Composition

variable {s : Structure Nested} {composition first later : Composition}
    {clauses : List Clause}

/-- Passes that make no rows unwind nothing. -/
theorem kind_ne_unwind
    (hrowless : ∀ pass ∈ composition, pass.isRowless = true)
    (h : composition.clauses s = .ok clauses) :
    ∀ c ∈ clauses, c.kind ≠ .unwind := by
  induction composition generalizing clauses with
  | nil =>
    cases h
    intro c hc
    cases hc
  | cons pass rest ih =>
    obtain ⟨made, others, hmade, hothers, rfl⟩ := clauses_cons_eq_ok h
    have hpass := hrowless pass List.mem_cons_self
    rw [Pass.isRowless, Bool.and_eq_true, bne_iff_ne, Bool.not_eq_true',
      ← Bool.not_eq_true,
      List.contains_iff_mem] at hpass
    have hkinds := pass.ofKinds_clauses hpass.1 s
    rw [hmade] at hkinds
    intro c hc hunwind
    rcases List.mem_append.mp hc with hfirst | hlater
    · exact hpass.2 (hunwind ▸ hkinds c hfirst)
    · exact ih (fun pass hpass =>
        hrowless pass (List.mem_cons_of_mem _ hpass)) hothers c hlater hunwind

/-- Where one pass creates, the clauses it makes are the only ones that can
unwind a batch. -/
theorem creating_eq_ok (hfirst : ∀ pass ∈ first, pass.isRowless = true)
    (hlater : ∀ pass ∈ later, pass.isRowless = true)
    (h : Composition.clauses (first ++ .creating :: later) s = .ok clauses) :
    ∃ before made after, clauses = before ++ made ++ after ∧
      Pass.createClauses s.toContent = .ok made ∧
      ∀ c ∈ before ++ after, c.kind ≠ .unwind := by
  obtain ⟨before, others, hbefore, hothers, rfl⟩ := clauses_append_eq_ok h
  obtain ⟨made, after, hmade, hafter, rfl⟩ := clauses_cons_eq_ok hothers
  refine ⟨before, made, after, (List.append_assoc before made after).symm,
    hmade, ?_⟩
  exact List.forall_mem_append.mpr ⟨kind_ne_unwind hfirst hbefore,
    kind_ne_unwind hlater hafter⟩

/-- What uniting adds is a union and what the second query compiles to. -/
theorem unitedBy_of_uniting
    (h : Composition.clauses [.uniting] s = .ok clauses) :
    s.UnitedBy clauses := by
  obtain ⟨made, none, hmade, hnone, rfl⟩ := clauses_cons_eq_ok h
  rw [clauses_nil] at hnone
  cases hnone
  rw [List.append_nil]
  rw [Pass.clauses] at hmade
  split at hmade
  · cases hmade
    exact .inl rfl
  · next second hunion =>
    obtain ⟨more, hmore, hmade⟩ := bind_ok_inversion hmade
    cases hmade
    exact .inr ⟨second, more, hunion, hmore, rfl⟩

/-- The clauses of a query that is created or compiled whole: what comes
before the clauses that create, these, what comes after them, and those of
the query it is united with. -/
theorem clauses_cut {kind : QueryKind} (hkind : kind = .full ∨ kind = .create)
    (h : kind.composition.clauses s = .ok clauses) :
    ∃ before made after united, clauses = before ++ made ++ after ++ united ∧
      Pass.createClauses s.toContent = .ok made ∧
      (∀ c ∈ before ++ after, c.kind ≠ .unwind) ∧
      s.UnitedBy united := by
  rcases hkind with rfl | rfl
  · have hcut : QueryKind.full.composition =
        ([.matching false, .calling, .filtering, .merging] ++
          .creating :: [.setting, .removing, .deleting, .returning]) ++
            [.uniting] := rfl
    rw [hcut] at h
    obtain ⟨own, united, hown, hunited, rfl⟩ := clauses_append_eq_ok h
    obtain ⟨before, made, after, rfl, hmade, hothers⟩ :=
      creating_eq_ok (by decide) (by decide) hown
    exact ⟨before, made, after, united, rfl, hmade, hothers,
      unitedBy_of_uniting hunited⟩
  · have hcut : QueryKind.create.composition =
        [.matching true, .calling, .filtering] ++ .creating :: [] := rfl
    rw [hcut] at h
    obtain ⟨before, made, after, rfl, hmade, hothers⟩ :=
      creating_eq_ok (by decide) (by decide) h
    exact ⟨before, made, after, [], (List.append_nil _).symm, hmade, hothers,
      .inl rfl⟩

end Composition

/-- Clauses that unwind to one row unwind parameters of one name. -/
theorem name_eq_of_unwindClause_eq {p q : Parameter} {row : String}
    (h : unwindClause p row = unwindClause q row) : p.name = q.name := by
  have hbody : "$" ++ p.name ++ " AS " ++ Text.identifier row =
      "$" ++ q.name ++ " AS " ++ Text.identifier row := congrArg Clause.body h
  rw [String.append_left_inj, String.append_left_inj,
    String.append_right_inj] at hbody
  exact hbody

/-- Only the batch of a query is unwound by it. -/
theorem Pass.name_eq_of_mem_createClauses {c : Content} {made : List Clause}
    {batch : Parameter} (hmade : createClauses c = .ok made)
    (hmem : unwindClause batch c.batchVariable ∈ made) :
    ∃ own, c.batchCreate = some own ∧ own.name = batch.name := by
  rcases createClauses_eq_ok hmade with ⟨-, rfl⟩ | ⟨texts, -, -, rfl⟩
  · cases hmem
  · rcases List.mem_append.mp hmem with hrows | hcreate
    · obtain ⟨own, hown, hequal⟩ := List.mem_map.mp hrows
      exact ⟨own, Option.mem_toList.mp hown,
        name_eq_of_unwindClause_eq hequal⟩
    · cases List.mem_singleton.mp hcreate

/-! ### Scope -/

namespace Workspace

/-- Whether a lookup of an element of a builder is in scope in clauses of
the builder: the element stands in the clause that creates, this stands
right behind one that unwinds a parameter to the row of the lookup, and the
list bound to the parameter has a column of the key. -/
def InScope (w : Workspace) (b : BuilderId) (clauses : List Clause)
    (e : Pattern.Element) (row key : String) : Prop :=
  e ∈ (w.body b).pattern.chunk .created ∧ ∃ texts batch before after,
    ((w.body b).pattern.chunk .created).mapM Pattern.Element.text =
      .ok texts ∧
    clauses = before ++ [unwindClause batch row,
      ⟨.create, ",".intercalate texts⟩] ++ after ∧
    (w.stackOf b).Binds batch ∧ key ∈ batch.columns

/-- A builder is composed with what its nested builders make in the places
of these. -/
theorem composed_eq (w : Workspace) (b : BuilderId) (kind : QueryKind) :
    w.composed b kind = kind.composition.clauses
      ((w.body b).map (w.nested (3 * w.builders.size) [])) := rfl

section

variable {w : Workspace} {b : BuilderId} {before made after : List Clause}
  {entry : Pattern.Entry} {row key : String}

/-- A lookup that the batch serves is in scope. -/
theorem inScope_of_serves
    (hmade : Pass.createClauses (w.body b).toContent = .ok made)
    (hbinds : ∀ batch, (w.body b).batchCreate = some batch →
      (w.stackOf b).Binds batch)
    (hentry : entry ∈ (w.body b).pattern.entries)
    (h : (w.body b).Serves entry key) :
    w.InScope b (before ++ made ++ after) entry.element
      (w.body b).batchVariable key := by
  obtain ⟨hintent, hcolumn⟩ := h
  have hcreated : entry.element ∈ (w.body b).pattern.chunk .created :=
    Pattern.Store.mem_chunk_iff.mpr ⟨entry, hentry, hintent ▸ .head _, rfl⟩
  rcases Pass.createClauses_eq_ok hmade with ⟨hnone, -⟩ |
      ⟨texts, -, htexts, hclauses⟩
  · rw [hnone] at hcreated
    cases hcreated
  · cases hbatch : (w.body b).batchCreate with
    | none =>
      rw [Content.columns, hbatch] at hcolumn
      cases hcolumn
    | some batch =>
      rw [Content.columns_eq hbatch] at hcolumn
      rw [hbatch] at hclauses
      refine ⟨hcreated, texts, batch, before, after, htexts, ?_,
        hbinds batch hbatch, hcolumn⟩
      rw [hclauses]
      rfl

/-- A lookup in scope is served by the batch: the parameter that is unwound
and the batch are both bound, and under one name. -/
theorem serves_of_inScope (htidy : (w.body b).Tidy)
    (hmade : Pass.createClauses (w.body b).toContent = .ok made)
    (hothers : ∀ c ∈ before ++ after, c.kind ≠ .unwind)
    (hbinds : ∀ batch, (w.body b).batchCreate = some batch →
      (w.stackOf b).Binds batch)
    (hentry : entry ∈ (w.body b).pattern.entries)
    (hlookup : (row, key) ∈ entry.element.lookups)
    (h : w.InScope b (before ++ made ++ after) entry.element
      (w.body b).batchVariable key) :
    (w.body b).Serves entry key := by
  obtain ⟨hcreated, texts, batch, front, back, -, hclauses, hbound,
      hcolumn⟩ := h
  constructor
  · obtain ⟨other, hother, hintent, hsame⟩ :=
      Pattern.Store.mem_chunk_iff.mp hcreated
    obtain ⟨name, hname⟩ := Pattern.Element.exists_name_of_mem_lookups hlookup
    have hfind := htidy.indexed.find?_eq_some_iff.mpr ⟨hentry, hname⟩
    have hfindOther := htidy.indexed.find?_eq_some_iff.mpr ⟨hother,
      hsame ▸ hname⟩
    obtain rfl : entry = other :=
      Option.some.inj (hfind.symm.trans hfindOther)
    exact List.mem_singleton.mp hintent
  · have hunwind : unwindClause batch (w.body b).batchVariable ∈ before ++
        made ++ after := by
      rw [hclauses]
      exact List.mem_append_left _ (List.mem_append_right _ (.head _))
    have hmem : unwindClause batch (w.body b).batchVariable ∈ made := by
      rcases List.mem_append.mp hunwind with hfront | hback
      · rcases List.mem_append.mp hfront with hbefore | hmem
        · exact absurd rfl (hothers _ (List.mem_append_left _ hbefore))
        · exact hmem
      · exact absurd rfl (hothers _ (List.mem_append_right _ hback))
    obtain ⟨own, hown, hname⟩ := Pass.name_eq_of_mem_createClauses hmade hmem
    have hvalue : own.value = batch.value := by
      have hlookup := hbinds own hown
      rw [ParameterStack.Binds, hname, hbound] at hlookup
      exact (Option.some.inj hlookup).symm
    rw [Content.columns_eq hown, Parameter.columns, hvalue]
    exact hcolumn

end

end Workspace

namespace Session

/-- **A lookup is in scope unless its batch has abandoned it.**  After any
script whose walks give values only, none of them a list of rows, what a
builder is compiled to, whole or for creating, is made of clauses of its own
and of those of the query it is united with.  Every lookup of an element of
the builder is one in the row that the batch is unwound to.  In the
builder's own clauses it is in scope exactly if the batch serves it.  If it
is not in scope, the batch served it once, and then was dropped or replaced
by rows without the column, or the element was declared for something else.
That is so whatever the queries nested in the builder are given by, hence
also for the one it is united with, and whether or not steps of the script
fail.  As no walk was given a list of rows, a batch is one that was bound. -/
theorem lookups_in_scope {s : Session} {script : List Step}
    (hs : s.workspace.builders = #[])
    (hwalks : ∀ call ∈ Step.callsOfAll script, ∀ step ∈ call.walkSteps,
      ∀ a ∈ step.properties, a.hasValue = true)
    (hgiven : ∀ p ∈ Step.walkedInAll script,
      ∀ rows : List (List (String × Value)),
      p.value ≠ .list (rows.map Value.map))
    (b : BuilderId) {kind : QueryKind} (hkind : kind = .full ∨ kind = .create)
    (nested : BuilderId → Nested) {clauses : List Clause}
    (hclauses : kind.composition.clauses
      (((s.after script).workspace.body b).map nested) =
      .ok clauses) :
    let w := (s.after script).workspace
    ∃ own united, clauses = own ++ united ∧
    ((w.body b).map nested).UnitedBy united ∧
      ∀ entry ∈ (w.body b).pattern.entries, ∀ row key,
        (row, key) ∈ entry.element.lookups →
        row = (w.body b).batchVariable ∧
          (w.InScope b own entry.element row key ↔
            (w.body b).Serves entry key) ∧
          (w.InScope b own entry.element row key ∨
            s.workspace.AbandonedBetween w b entry.element.name?
              row key) := by
  intro w
  have htraced : s.workspace.Traced w := traced_after hs hwalks
  have hgrounded : w.Grounded (· ∈ Step.walkedInAll script) :=
    grounded_after (Workspace.grounded_empty hs) fun p hp => hp
  have hbinds : ∀ batch, (w.body b).batchCreate = some batch →
      (w.stackOf b).Binds batch := by
    intro batch hbatch
    have hmem : batch ∈ (w.body b).toContent.parameters :=
      List.mem_append_right _ (Option.mem_toList.mpr hbatch)
    rcases hgrounded.content b batch hmem with hwalked | hbound
    · obtain ⟨rows, hrows⟩ := (htraced.tidy b).rows batch hbatch
      exact absurd hrows (hgiven batch hwalked rows)
    · exact hbound
  obtain ⟨before, made, after, united, rfl, hmade, hothers, hunited⟩ :=
    Composition.clauses_cut hkind hclauses
  refine ⟨before ++ made ++ after, united, rfl, hunited, ?_⟩
  intro entry hentry row key hlookup
  have hrow : row = (w.body b).batchVariable :=
    (htraced.tidy b).row entry hentry row key hlookup
  have hscope : (w.body b).Serves entry key →
      w.InScope b (before ++ made ++ after) entry.element row key := by
    rw [hrow]
    exact Workspace.inScope_of_serves hmade hbinds hentry
  refine ⟨hrow, ⟨?_, hscope⟩,
    (htraced.served b entry hentry row key hlookup).imp_left hscope⟩
  rw [hrow]
  exact Workspace.serves_of_inScope (htraced.tidy b) hmade hothers hbinds
    hentry hlookup

/-- A query that creates one element for each row of a batch, and another
one with it. -/
def batched : List Step :=
  [.mk "from_" (.start (.any (.one "Bar") none false)) none none,
   .mk "batch_creating"
     (.change (.writeBatch [[("foo", .int 1)], [("foo", .int 2)]])) none none,
   .mk "creating_node" (.change
     (.writeNode .creating (.one "Baz") none [("x", .int 3)])) none none]

/-- Two rows are created from, and the lookups in them are in scope. -/
theorem lookups_in_scope_of_batched :
    let w := ((ofSettings {}).after batched).workspace
    ∃ own, w.clauses 0 .full = .ok own ∧
      clausesText own = "UNWIND $param0 AS toCreate " ++
        "CREATE (bar:Bar \x7bfoo: toCreate['foo']\x7d)," ++
        "(baz:Baz \x7bx: $param1\x7d)" ∧
      ∃ entry ∈ (w.body 0).pattern.entries,
        ("toCreate", "foo") ∈ entry.element.lookups ∧
        (w.body 0).Serves entry "foo" ∧
        w.InScope 0 own entry.element "toCreate" "foo" := by
  dsimp only
  have hwalks : ∀ call ∈ Step.callsOfAll batched, ∀ step ∈ call.walkSteps,
      ∀ a ∈ step.properties, a.hasValue = true := by
    simp [batched, Step.callsOfAll, Step.calls, Call.inner, Call.walkSteps]
  have hgiven : ∀ p ∈ Step.walkedInAll batched,
      ∀ rows : List (List (String × Value)),
      p.value ≠ .list (rows.map Value.map) := by
    simp [batched, Step.walkedInAll, Step.walked, Call.walked]
  have hentry : ∃ entry ∈
      (((ofSettings {}).after batched).workspace.body 0).pattern.entries,
      ("toCreate", "foo") ∈ entry.element.lookups ∧
        (((ofSettings {}).after batched).workspace.body 0).Serves entry
          "foo" := by
    decide +kernel
  have hunion : (((ofSettings {}).after batched).workspace.body 0).union =
      none := by
    decide +kernel
  have htext :
      (((ofSettings {}).after batched).workspace.clauses 0 .full).toOption.map
        clausesText = some ("UNWIND $param0 AS toCreate " ++
          "CREATE (bar:Bar \x7bfoo: toCreate['foo']\x7d)," ++
          "(baz:Baz \x7bx: $param1\x7d)") := by
    decide +kernel
  cases hclauses : ((ofSettings {}).after batched).workspace.clauses 0
      .full with
  | error fault =>
    rw [hclauses] at htext
    cases htext
  | ok clauses =>
    rw [hclauses] at htext
    have hcomposed := Workspace.composed_of_clauses hclauses
    rw [Workspace.composed_eq] at hcomposed
    obtain ⟨own, united, rfl, hunited, hscope⟩ :=
      lookups_in_scope (s := ofSettings {}) rfl hwalks hgiven 0 (.inl rfl)
        _ hcomposed
    obtain ⟨entry, hmem, hlookup, hserves⟩ := hentry
    obtain ⟨-, hiff, -⟩ := hscope entry hmem "toCreate" "foo" hlookup
    have halone : united = [] := by
      rcases hunited with hnone | ⟨second, more, hsecond, -⟩
      · exact hnone
      · rw [Structure.map, hunion] at hsecond
        cases hsecond
    subst halone
    rw [List.append_nil] at htext ⊢
    exact ⟨own, rfl, Option.some.inj htext, entry, hmem, hlookup, hserves,
      hiff.mpr hserves⟩

/-- Creating single values drops the batch and leaves the lookup it served
behind. -/
example :
    let script :=
      batched ++
        [.mk "creating" (.change (.write .creating [("baz", .int 2)]))
          none none]
    let w := ((ofSettings {}).after script).workspace
    (∃ entry ∈ (w.body 0).pattern.entries,
      ("toCreate", "foo") ∈ entry.element.lookups ∧
      ¬ (w.body 0).Serves entry "foo") ∧
    (w.clauses 0 .full).toOption.map clausesText = some
      ("CREATE (bar:Bar \x7bfoo: toCreate['foo'], baz: $param2\x7d)," ++
        "(baz:Baz \x7bx: $param1\x7d)") := by
  decide +kernel

end Session

end GraphQuery
