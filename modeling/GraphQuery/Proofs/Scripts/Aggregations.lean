import GraphQuery.Proofs.Compiling.Projection
import GraphQuery.Proofs.Condition.Calls
import GraphQuery.Proofs.Scripts.Reads

/-!
# What is aggregated

An aggregation reads a query with another projection and keeps its order and
its page.  These are written behind the aggregate, so they order and cut the
one row there is, in the place of the rows that are aggregated.  What is
sent for a query with a page is what would be sent for the query without
one, followed by the clauses of the page:
`Session.aggregations_carry_pages`.
-/

namespace GraphQuery

open GraphQuery.Computation

/-! ### Pages -/

namespace Content

/-- A query whose order and page are unset. -/
def unpaged (c : Content) : Content :=
  { c with orderBy := [], order := .ascending, skip := none, limit := none }

/-- A query that returns all rows in no order; skipping no rows skips none. -/
structure IsUnpaged (c : Content) : Prop where
  orderBy : c.orderBy = []
  skip : ∀ rows ∈ c.skip, rows = 0
  limit : c.limit = none

/-- A query whose page is unset has none. -/
theorem isUnpaged_unpaged (c : Content) : c.unpaged.IsUnpaged where
  orderBy := rfl
  skip := by
    intro rows hrows
    cases hrows
  limit := rfl

/-- A query that returns an aggregate, whatever it returned. -/
def aggregating (function : String) (arguments : List Expression)
    (c : Content) : Content :=
  { c with returns := [.aliased (.call function arguments) aggregateColumn] }

/-- The projection of a query that returns an aggregate. -/
def aggregateText (c : Content) (function : String)
    (arguments : List Expression) :
    Except Fault String := do
  let item ←
      (Expression.aliased (.call function arguments) aggregateColumn).text
  return if c.distinct then "DISTINCT " ++ item else item

end Content

namespace Pass

/-- The projection of a query. -/
def projectionClauses (c : Content) : Except Fault (List Clause) :=
  clauseIf (!c.returns.isEmpty) .return_ do
    let items := ", ".intercalate (← Expression.texts c.returns)
    return if c.distinct then "DISTINCT " ++ items else items

/-- The order and the page of a query. -/
def pageClauses (c : Content) : Except Fault (List Clause) := do
  let order ← clauseIf (!c.orderBy.isEmpty) .orderBy do
    let items := ",".intercalate (← Expression.texts c.orderBy)
    return if c.order = .descending then items ++ " DESC" else items
  let skip ← (c.skip.toList.filter fun rows => rows != 0).mapM fun rows => do
    return Clause.mk .skip (← rowsText rows)
  let limit ← c.limit.toList.mapM
      fun rows => do return Clause.mk .limit (← rowsText rows)
  return order ++ skip ++ limit

variable {c : Content}

/-- The projection stands in front of the order and the page. -/
theorem returnClauses_eq (c : Content) : returnClauses c = (do
    let projection ← projectionClauses c
    return projection ++ (← pageClauses c)) := by
  simp only [returnClauses, projectionClauses, pageClauses, bind_assoc,
    pure_bind, List.append_assoc]

/-- A query that returns an aggregate returns it in one clause, in front of
the page. -/
theorem returnClauses_aggregating (c : Content) (function : String)
    (arguments : List Expression) :
    returnClauses (c.aggregating function arguments) = (do
      let aggregate ← c.aggregateText function arguments
      return ⟨.return_, aggregate⟩ :: (← pageClauses c)) := by
  have hitems : Expression.texts (c.aggregating function arguments).returns =
      (do
      return [← (Expression.aliased (.call function arguments)
        aggregateColumn).text]) := rfl
  have hprojection : projectionClauses (c.aggregating function arguments) =
      clause .return_ (c.aggregateText function arguments) := by
    rw [projectionClauses, hitems, Content.aggregateText]
    simp only [bind_assoc, pure_bind, String.intercalate_singleton]
    rfl
  have hpage : pageClauses (c.aggregating function arguments) =
      pageClauses c := rfl
  rw [returnClauses_eq, hprojection, hpage, clause, bind_assoc]
  simp only [pure_bind, List.singleton_append]

/-- Without a page there are no clauses for it. -/
theorem pageClauses_of_isUnpaged (h : c.IsUnpaged) :
    pageClauses c = .ok [] := by
  have hskip : c.skip.toList.filter (fun rows => rows != 0) = [] := by
    rw [List.filter_eq_nil_iff]
    intro rows hrows
    simp [h.skip rows (Option.mem_toList.mp hrows)]
  rw [pageClauses, h.orderBy, hskip, h.limit]
  rfl

/-- Where nothing comes of a list there was nothing in it. -/
theorem eq_nil_of_mapM {α β : Type} {l : List α} {f : α → Except Fault β}
    (h : l.mapM f = .ok []) : l = [] := by
  cases forall₂_of_mapM h
  rfl

/-- A query of which no page is written has none. -/
theorem isUnpaged_of_pageClauses (h : pageClauses c = .ok []) :
    c.IsUnpaged := by
  obtain ⟨order, horder, h⟩ := bind_ok_inversion h
  obtain ⟨skip, hskip, h⟩ := bind_ok_inversion h
  obtain ⟨limit, hlimit, h⟩ := bind_ok_inversion h
  have hnone : order ++ skip ++ limit = [] := Except.ok.inj h
  rw [List.append_eq_nil_iff, List.append_eq_nil_iff] at hnone
  obtain ⟨⟨rfl, rfl⟩, rfl⟩ := hnone
  refine ⟨?_, fun rows hrows => ?_, ?_⟩
  · by_contra hordered
    rw [clauseIf, if_pos (by simpa using hordered)] at horder
    obtain ⟨text, -, hclause⟩ := bind_ok_inversion horder
    cases hclause
  · have hrest := List.filter_eq_nil_iff.mp (eq_nil_of_mapM hskip) rows
      (Option.mem_toList.mpr hrows)
    simpa using hrest
  · exact Option.toList_eq_nil_iff.mp (eq_nil_of_mapM hlimit)

end Pass

/-! ### Texts -/

/-- The first clause stands in front of the others, with a space behind it. -/
theorem length_clausesText_cons_cons (first second : Clause)
    (rest : List Clause) :
    (clausesText (first :: second :: rest)).length =
      first.text.length + 1 + (clausesText (second :: rest)).length := by
  have hcons : clausesText (first :: second :: rest) =
      first.text ++ " " ++ clausesText (second :: rest) :=
        String.intercalate_cons_cons
  have hspace : " ".length = 1 := rfl
  rw [hcons, String.length_append, String.length_append, hspace]

/-- Clauses that go on have a longer text. -/
theorem length_clausesText_lt (first next : Clause)
    (rest later : List Clause) :
    (clausesText (first :: rest)).length <
      (clausesText (first :: (rest ++ next :: later))).length := by
  induction rest generalizing first with
  | nil =>
    have halone : clausesText [first] = first.text :=
      String.intercalate_singleton
    rw [List.nil_append, length_clausesText_cons_cons, halone]
    omega
  | cons second others ih =>
    have hothers := ih second
    rw [List.cons_append, length_clausesText_cons_cons,
      length_clausesText_cons_cons]
    omega

/-- More clauses make another text. -/
theorem clausesText_append_ne {clauses page : List Clause}
    (hclauses : clauses ≠ []) (hpage : page ≠ []) :
    clausesText (clauses ++ page) ≠ clausesText clauses := by
  obtain ⟨first, rest, rfl⟩ := List.exists_cons_of_ne_nil hclauses
  obtain ⟨next, later, rfl⟩ := List.exists_cons_of_ne_nil hpage
  intro hsame
  have hlonger := length_clausesText_lt first next rest later
  rw [← List.cons_append, hsame] at hlonger
  exact Nat.lt_irrefl _ hlonger

namespace Workspace

variable {w : Workspace} {b : BuilderId} {found : Builder}

/-- A workspace in which a builder returns an aggregate. -/
def aggregating (w : Workspace) (b : BuilderId) (function : String)
    (arguments : List Expression) : Workspace :=
  w.changed b (Content.aggregating function arguments)

/-- What a builder is compiled to for an aggregation. -/
def aggregated (w : Workspace) (b : BuilderId) (function : String)
    (arguments : List Expression) : Except Fault (List Clause) :=
  (w.aggregating b function arguments).clauses b .read

/-- An aggregation depends on the builders and on what can be copied alone. -/
theorem aggregated_of_held_eq {w' : Workspace} (h : w'.held = w.held)
    (b : BuilderId) (function : String) (arguments : List Expression) :
    w'.aggregated b function arguments = w.aggregated b function arguments :=
  clauses_of_held_eq (held_changed_congr h b _) b .read

/-- The order and the page of a query hold no values to be copied. -/
theorem copying_unpaged (w : Workspace) (b c : BuilderId) :
    (w.changed b Content.unpaged).copying c = w.copying c := by
  have hcopying : (w.changed b Content.unpaged).copying c =
      (w.changed b id).copying c :=
    copying_changed_congr Content.unpaged id (fun _ => rfl) w b c
  rw [hcopying, changed_id]

/-- Nor do those of a query that returns an aggregate. -/
theorem copying_aggregating_unpaged (w : Workspace) (b c : BuilderId)
    (function : String) (arguments : List Expression) :
    ((w.changed b Content.unpaged).aggregating b function arguments).copying
      c =
      (w.aggregating b function arguments).copying c := by
  rw [aggregating, changed_changed]
  exact copying_changed_congr
    (fun content => Content.aggregating function arguments content.unpaged)
    (Content.aggregating function arguments) (fun _ => rfl) w b c

/-- An aggregation is made of a copy: it matches, calls and filters as the
query does, returns the aggregate and goes on with the page. -/
theorem aggregated_eq (hfound : w.builders[b]? = some found)
    (function : String)
    (arguments : List Expression) : w.aggregated b function arguments = (do
      (w.aggregating b function arguments).copying b
      let matched ← Composition.matched.clauses (w.opened b)
      let aggregate ← found.body.aggregateText function arguments
      return matched ++ ⟨.return_, aggregate⟩ ::
        (← Pass.pageClauses found.body.toContent)) := by
  have hbody : ((w.changed b (Content.aggregating function arguments)).body
      b).toContent =
      found.body.aggregating function arguments :=
    congrArg Structure.toContent (body_eq (amended_self hfound _))
  have hbare : ∀ content,
      (Content.aggregating function arguments content).bare = content.bare :=
    fun _ => rfl
  have hcomposed : (w.aggregating b function arguments).composed b .read = (do
      let matched ← Composition.matched.clauses (w.opened b)
      let aggregate ← found.body.aggregateText function arguments
      return matched ++ ⟨.return_, aggregate⟩ ::
        (← Pass.pageClauses found.body.toContent)) := by
    rw [aggregating, composed_read_changed hbare, hbody,
      Pass.returnClauses_aggregating]
    simp only [bind_assoc, pure_bind]
  rw [aggregated, clauses, hcomposed]

/-- The aggregation of a query whose order and page are unset ends in the
aggregate. -/
theorem aggregated_unpaged (hfound : w.builders[b]? = some found)
    (function : String) (arguments : List Expression) :
    (w.changed b Content.unpaged).aggregated b function arguments = (do
      (w.aggregating b function arguments).copying b
      let matched ← Composition.matched.clauses (w.opened b)
      return matched ++
        [⟨.return_, ← found.body.aggregateText function arguments⟩]) := by
  let unpaged : Builder :=
    { found with body :=
      { found.body with toContent := found.body.toContent.unpaged } }
  have hunpaged : (w.changed b Content.unpaged).builders[b]? =
      some unpaged := amended_self hfound _
  have hbare : ∀ content, (Content.unpaged content).bare = content.bare :=
    fun _ => rfl
  have hmatched :
      Composition.matched.clauses ((w.changed b Content.unpaged).opened b) =
      Composition.matched.clauses (w.opened b) :=
    clauses_opened_changed hbare w b (by decide) (by decide)
  have hpage : Pass.pageClauses unpaged.body.toContent = .ok [] :=
    Pass.pageClauses_of_isUnpaged found.body.toContent.isUnpaged_unpaged
  rw [aggregated_eq hunpaged, hmatched, hpage, copying_aggregating_unpaged]
  rfl

/-- The order and the page of a query come behind the aggregation of the
query without them. -/
theorem aggregated_paged (hfound : w.builders[b]? = some found)
    (function : String) (arguments : List Expression) :
    w.aggregated b function arguments = (do
      let whole ← (w.changed b Content.unpaged).aggregated b function
          arguments
      return whole ++ (← Pass.pageClauses found.body.toContent)) := by
  rw [aggregated_eq hfound, aggregated_unpaged hfound]
  simp only [bind_assoc, pure_bind, List.append_assoc, List.singleton_append]

/-- A query without a page is aggregated as if its order and page were
unset. -/
theorem aggregated_of_isUnpaged (hfound : w.builders[b]? = some found)
    (h : found.body.IsUnpaged) (function : String)
    (arguments : List Expression) :
    w.aggregated b function arguments =
      (w.changed b Content.unpaged).aggregated b function arguments := by
  rw [aggregated_paged hfound, Pass.pageClauses_of_isUnpaged h]
  cases (w.changed b Content.unpaged).aggregated b function arguments with
  | error fault => rfl
  | ok whole => exact congrArg Except.ok (List.append_nil whole)

/-- A query with a page is aggregated by another text. -/
theorem aggregated_of_not_isUnpaged (hfound : w.builders[b]? = some found)
    (hpage : ¬found.body.IsUnpaged) {function : String}
    {arguments : List Expression} {sent : List Clause}
    (h : w.aggregated b function arguments = .ok sent) :
    ∃ whole, (w.changed b Content.unpaged).aggregated b function arguments =
      .ok whole ∧
      whole <+: sent ∧ clausesText sent ≠ clausesText whole := by
  rw [aggregated_paged hfound] at h
  obtain ⟨whole, hwhole, h⟩ := bind_ok_inversion h
  obtain ⟨page, hpageClauses, h⟩ := bind_ok_inversion h
  cases h
  have hnonempty : whole ≠ [] := by
    rw [aggregated_unpaged hfound] at hwhole
    obtain ⟨_, -, hwhole⟩ := bind_ok_inversion hwhole
    obtain ⟨matched, -, hwhole⟩ := bind_ok_inversion hwhole
    obtain ⟨aggregate, -, hwhole⟩ := bind_ok_inversion hwhole
    cases hwhole
    simp
  have hwritten : page ≠ [] := by
    rintro rfl
    exact hpage (Pass.isUnpaged_of_pageClauses hpageClauses)
  exact ⟨whole, hwhole, List.prefix_append whole page,
    clausesText_append_ne hnonempty hwritten⟩

/-- A workspace in which the value is bound that comes with an aggregation,
if one does. -/
def boundFor (w : Workspace) (n : Nat) : Run → Workspace
  | .percentile _ _ fraction => w.bound n fraction
  | _ => w

end Workspace

/-! ### Answers -/

/-- The function an aggregation applies and what it applies it to; other
ways to run a query apply none. -/
def Run.aggregation? (entry : String) (reference : Value → Expression) :
    Run → Option (String × List Expression)
  | count property distinct =>
    let counted := match property with
      | some argument => argument.expression entry
      | none => .raw "*"
    some ("count", [if distinct then .distinct counted else counted])
  | aggregate function property =>
    some (function, [property.expression entry])
  | percentile function property fraction =>
    some (function, [property.expression entry, reference fraction])
  | _ => none

/-- The aggregate in a result. -/
def QueryResult.aggregate (result : QueryResult) : Except Fault Value := do
  match (← result.first).lookup aggregateColumn with
  | some value => return value
  | none => throw (.missingColumn aggregateColumn)

namespace Session

/-- A session in which the order and the page of a builder are unset. -/
def unpaged (s : Session) (b : BuilderId) : Session :=
  { s with workspace := s.workspace.changed b Content.unpaged }

/-- What a session answers to a query that is compiled to some clauses and
sent from a builder, and its connections after that. -/
def sending (s : Session) (found : Builder) (operation : String)
    (compiled : Except Fault (List Clause)) :
    Except Fault QueryResult × Connections :=
  match found.runner with
  | none => (.error (.notAttached operation), s.connections)
  | some runner =>
    match compiled with
    | .error fault => (.error fault, s.connections)
    | .ok clauses =>
      match runner with
      | .connections =>
        let parameters := (s.workspace.stack found.stack).entries
        let sent :=
          exec (Connecting.runQuery (clausesText clauses)
            parameters found.connection)
          { s.connections with log := [] }
        (sent.1, { sent.2 with log := [] })
      | .builder => (.error .notARunner, s.connections)

end Session

namespace Acting

variable {s : Session} {b : BuilderId} {found : Builder}

/-- Sending a query is compiling it and handing its text to the connections. -/
theorem exec_send (hfound : s.workspace.builders[b]? = some found)
    (kind : QueryKind) (operation : String) (change : Content → Content) :
    ((exec (send b kind operation change) s).1,
      (exec (send b kind operation change) s).2.connections) =
      s.sending found operation
        ((s.workspace.changed b change).clauses b kind) := by
  obtain ⟨events, hcompile⟩ := Building.exec_compile b kind change s.workspace
  have hbuilder : exec (build (Building.builder b)) s = (.ok found, s) := by
    rw [exec_build, Building.exec_builder, hfound]
  rw [send, exec_bind, hbuilder, Session.sending]
  dsimp only
  cases found.runner with
  | none => rfl
  | some runner =>
    dsimp only
    rw [exec_bind, exec_build, hcompile]
    cases (s.workspace.changed b change).clauses b kind with
    | error fault => rfl
    | ok clauses =>
      dsimp only
      rw [exec_bind, exec_get]
      dsimp only
      cases runner with
      | builder => rfl
      | connections =>
        dsimp only
        rw [exec_connect]
        have hstack : Workspace.stackOf
            { s.workspace with log := s.workspace.log ++ events } b =
            s.workspace.stack found.stack :=
          Workspace.stackOf_eq hfound
        rw [hstack]

/-- Aggregating is reading another projection of a copy and looking the
aggregate up. -/
theorem exec_aggregate (hfound : s.workspace.builders[b]? = some found)
    (function : String) (arguments : List Expression) :
    let sent :=
      s.sending found function (s.workspace.aggregated b function arguments)
    ((exec (aggregate b function arguments) s).1,
      (exec (aggregate b function arguments) s).2.connections) =
        match s.workspace.copying b with
        | .error fault => (.error fault, s.connections)
        | .ok _ => (sent.1.bind QueryResult.aggregate, sent.2) := by
  intro sent
  have hsent : _ = sent :=
    exec_send hfound .read function (Content.aggregating function arguments)
  have haggregate : aggregate b function arguments =
      (do
        build (Building.copy b)
        let result ← send b .read function
            (Content.aggregating function arguments)
        match (← result.first).lookup aggregateColumn with
        | some value => return value
        | none => throw (.missingColumn aggregateColumn)) := by
    simp only [aggregate, sendCopy, bind_assoc]
    rfl
  rw [haggregate, exec_bind, exec_copy]
  cases s.workspace.copying b with
  | error fault => rfl
  | ok _ =>
  dsimp only
  rw [exec_bind]
  rcases hexec : exec
      (send b .read function (Content.aggregating function arguments)) s with
    ⟨fault | result, t⟩
  · rw [hexec] at hsent
    rw [← hsent]
    rfl
  · rw [hexec] at hsent
    rw [← hsent]
    dsimp only
    rw [exec_bind, exec_lift]
    have hresult : Except.bind (.ok result) QueryResult.aggregate =
        result.aggregate := rfl
    rw [hresult, QueryResult.aggregate]
    cases result.first with
    | error fault => rfl
    | ok record =>
      dsimp only [bind, Except.bind]
      cases record.lookup aggregateColumn <;> rfl

end Acting

namespace Session

/-- What a session answers to an aggregation of a copy that is compiled to
some clauses, and its connections after that. -/
def totalling (s : Session) (found : Builder) (function : String)
    (copied : Except Fault Unit) (compiled : Except Fault (List Clause)) :
    Except Fault Reply × Connections :=
  match copied with
  | .error fault => (.error fault, s.connections)
  | .ok _ =>
    let sent := s.sending found function compiled
    ((sent.1.bind QueryResult.aggregate).map Reply.value, sent.2)

/-- What a session answers when a query is run, and its connections after
that. -/
def answer (s : Session) (b : BuilderId) (r : Run) :
    Except Fault Reply × Connections :=
  ((exec (Acting.runQuery b r) s).1,
    (exec (Acting.runQuery b r) s).2.connections)

variable {s : Session} {b : BuilderId} {found : Builder} {function : String}
  {arguments : List Expression}

/-- The answer depends on where the query is run and on its parameters
alone. -/
theorem totalling_congr {t : Session} {other : Builder}
    (hrunner : other.runner = found.runner)
    (hconnection : other.connection = found.connection)
    (hstack : t.workspace.stack other.stack = s.workspace.stack found.stack)
    (hconnections : t.connections = s.connections)
    (copied : Except Fault Unit) (compiled : Except Fault (List Clause)) :
    t.totalling other function copied compiled =
      s.totalling found function copied compiled := by
  cases copied with
  | error fault => exact Prod.ext rfl hconnections
  | ok _ =>
    simp only [totalling, sending, hrunner, hconnection, hstack, hconnections]

/-- An aggregation is answered with its value, if the query can be copied,
compiled and sent. -/
theorem exec_aggregate_value
    (hfound : s.workspace.builders[b]? = some found) :
    let ran :=
      exec (do return Reply.value (← Acting.aggregate b function arguments)) s
    (ran.1, ran.2.connections) =
      s.totalling found function (s.workspace.copying b)
        (s.workspace.aggregated b function arguments) := by
  intro ran
  have haggregate := Acting.exec_aggregate hfound function arguments
  have hvalue : ran.1 = _ := exec_bind_pure_fst _ Reply.value s
  have hafter : ran.2 = _ := exec_bind_pure_snd _ Reply.value s
  rw [hvalue, hafter]
  refine (congrArg (fun answered => (answered.1.map Reply.value, answered.2))
    haggregate).trans ?_
  cases s.workspace.copying b <;> rfl

/-- **How an aggregation is answered**: by what the connections answer to
the text of the aggregated query, sent with the value that comes with the
aggregation. -/
theorem answer_eq (hfound : s.workspace.builders[b]? = some found) {r : Run}
    (hr : r.aggregation? found.body.entry
      (s.workspace.reference found.stack) =
      some (function, arguments)) :
    s.answer b r =
      totalling { s with workspace := s.workspace.boundFor found.stack r }
        found function (s.workspace.copying b)
        (s.workspace.aggregated b function arguments) := by
  have hentry : ∀ t : Session, t.workspace.builders[b]? = some found →
      exec (Acting.build (Building.entry b)) t =
        (.ok found.body.entry, t) := by
    intro t ht
    rw [Acting.exec_build, Building.entry, exec_bind, Building.exec_builder,
      ht]
    rfl
  cases r with
  | count property distinct =>
    cases hr
    rw [answer, Acting.runQuery, exec_bind, hentry s hfound]
    exact exec_aggregate_value hfound
  | aggregate function property =>
    cases hr
    rw [answer, Acting.runQuery, exec_bind, hentry s hfound]
    exact exec_aggregate_value hfound
  | percentile function property fraction =>
    cases hr
    let bound : Session :=
      { s with workspace := s.workspace.bound found.stack fraction }
    have hbind : exec (Acting.build (Building.bind b fraction)) s =
        (.ok (s.workspace.reference found.stack fraction), bound) := by
      rw [Acting.exec_build, Building.exec_bind_value hfound]
    have hheld : bound.workspace.held = s.workspace.held := rfl
    have hcopying : bound.workspace.copying b = s.workspace.copying b :=
      Workspace.copying_congr bound.workspace s.workspace rfl rfl
        (fun _ => rfl) b
    rw [answer, Acting.runQuery, exec_bind, hbind]
    dsimp only
    rw [exec_bind, hentry bound hfound,
      ← Workspace.aggregated_of_held_eq hheld, ← hcopying]
    exact exec_aggregate_value hfound
  | _ => cases hr

/-- So is the aggregation of a query whose order and page are unset. -/
theorem answer_unpaged (hfound : s.workspace.builders[b]? = some found)
    {r : Run}
    (hr : r.aggregation? found.body.entry
      (s.workspace.reference found.stack) =
      some (function, arguments)) :
    (s.unpaged b).answer b r =
      totalling { s with workspace := s.workspace.boundFor found.stack r }
        found function (s.workspace.copying b)
        ((s.unpaged b).workspace.aggregated b function arguments) := by
  let unset : Builder :=
    { found with body :=
      { found.body with toContent := found.body.toContent.unpaged } }
  have hunset : (s.unpaged b).workspace.builders[b]? = some unset :=
    Workspace.amended_self hfound _
  have hstack : ((s.unpaged b).workspace.boundFor found.stack r).stack
      found.stack =
      (s.workspace.boundFor found.stack r).stack found.stack := by
    cases r <;> rfl
  have hanswer :=
    @answer_eq (s.unpaged b) b unset function arguments hunset r hr
  have hcopying : (s.unpaged b).workspace.copying b = s.workspace.copying b :=
    Workspace.copying_unpaged s.workspace b b
  rw [hcopying] at hanswer
  refine hanswer.trans ?_
  apply totalling_congr
  · rfl
  · rfl
  · exact hstack
  · rfl

/-- **Aggregations carry pages.**  What is sent for an aggregation is what
the query matches, calls and filters when it is read, then one clause that
returns the aggregate, and then the order and the page of the query.  These
last clauses are all that is missing if the order and the page are unset
before.  The answer is in both cases what the connections answer to the text
of the clauses, if the query can be copied.  So it is the same if the query
has no page, and what is sent is another text if it has one. -/
theorem aggregations_carry_pages
    (hfound : s.workspace.builders[b]? = some found) {r : Run}
    (hr : r.aggregation? found.body.entry
      (s.workspace.reference found.stack) = some (function, arguments)) :
    let sent := s.workspace.aggregated b function arguments
    let whole := (s.unpaged b).workspace.aggregated b function arguments
    let ready : Session :=
      { s with workspace := s.workspace.boundFor found.stack r }
    let copied := s.workspace.copying b
    s.answer b r = ready.totalling found function copied sent ∧
      (s.unpaged b).answer b r =
        ready.totalling found function copied whole ∧
      whole = (do
        (s.workspace.aggregating b function arguments).copying b
        let matched ← Composition.matched.clauses (s.workspace.opened b)
        return matched ++
          [⟨.return_, ← found.body.aggregateText function arguments⟩]) ∧
      sent =
        (do return (← whole) ++ (← Pass.pageClauses found.body.toContent)) ∧
      (found.body.IsUnpaged → s.answer b r = (s.unpaged b).answer b r) ∧
      (¬found.body.IsUnpaged → ∀ clauses, sent = .ok clauses →
        ∃ first, whole = .ok first ∧ first <+: clauses ∧
        clausesText clauses ≠ clausesText first) := by
  intro sent whole ready copied
  have hsent : s.answer b r = ready.totalling found function copied sent :=
    answer_eq hfound hr
  have hwhole : (s.unpaged b).answer b r =
      ready.totalling found function copied whole :=
    answer_unpaged hfound hr
  refine ⟨hsent, hwhole,
    Workspace.aggregated_unpaged hfound function arguments,
    Workspace.aggregated_paged hfound function arguments, fun hunpaged => ?_,
    fun hpage clauses h => ?_⟩
  · rw [hsent, hwhole]
    exact congrArg _ (Workspace.aggregated_of_isUnpaged hfound hunpaged
      function arguments)
  · exact Workspace.aggregated_of_not_isUnpaged hfound hpage h

/-- The third page of a query in descending order. -/
def onThirdPage : Session :=
  (withConnections {} Connections.unreliable).after
    [.mk "from_" (.start (.any (.one "p:Person") none false)) none none,
     .mk "using_context" (.attach "ctx") none none,
     .mk "ordering_by" (.change (.orderBy "DESC" [.written "name"]))
       none none,
     .mk "paginate" (.change (.paginate 3 20)) none none]

/-- The texts that were sent to drivers. -/
def sentTexts (connections : Connections) : List String :=
  connections.events.filterMap fun event =>
    match event.2 with
    | .run _ query _ => some query
    | _ => none

/-- A percentile is asked for, and the row it is returned in is ordered and
skipped. -/
theorem aggregations_carry_pages_of_onThirdPage :
    let r := Run.percentile "percentileCont" (.written "age") (.float "0.5")
    let arguments :=
      [.property "p" "age", .parameter ⟨"param0", .float "0.5"⟩]
    sentTexts (onThirdPage.answer 0 r).2 = ["MATCH (p:Person) " ++
        "RETURN percentileCont(p.age,$param0) AS aggregate " ++
        "ORDER BY p.name DESC SKIP 40 LIMIT 20"] ∧
      sentTexts ((onThirdPage.unpaged 0).answer 0 r).2 =
        ["MATCH (p:Person) RETURN percentileCont(p.age,$param0) AS aggregate"] ∧
      ∃ clauses first, onThirdPage.workspace.aggregated 0 "percentileCont"
        arguments = .ok clauses ∧
        (onThirdPage.unpaged 0).workspace.aggregated 0 "percentileCont"
          arguments = .ok first ∧
        first <+: clauses ∧ clausesText clauses ≠ clausesText first := by
  intro r arguments
  have hfacts : (onThirdPage.workspace.builders[0]?.map fun found =>
      (found.body.entry, found.stack, found.body.limit)) = some ("p", 0,
      some 20) := by
    decide +kernel
  have hname : (onThirdPage.workspace.stack 0).freshName = "param0" := by
    decide +kernel
  have hreference : ∀ stack : ParameterStack,
      (stack.add (.float "0.5")).1 = .parameter ⟨stack.freshName,
        .float "0.5"⟩ := fun _ => rfl
  have hcompiles : (onThirdPage.workspace.aggregated 0 "percentileCont"
      arguments).toOption.isSome := by
    decide +kernel
  refine ⟨by decide +kernel, by decide +kernel, ?_⟩
  cases hfound : onThirdPage.workspace.builders[0]? with
  | none =>
    rw [hfound] at hfacts
    cases hfacts
  | some found =>
    rw [hfound, Option.map_some, Option.some_inj] at hfacts
    obtain ⟨hentry, hstack, hlimit⟩ : found.body.entry = "p" ∧
        found.stack = 0 ∧
        found.body.limit = some 20 := by
      simpa using hfacts
    have hr : r.aggregation? found.body.entry
        (onThirdPage.workspace.reference found.stack) =
        some ("percentileCont", arguments) := by
      rw [hentry, hstack, Run.aggregation?, Workspace.reference,
        hreference, hname]
      rfl
    have hpage : ¬found.body.IsUnpaged := by
      intro hunpaged
      rw [hunpaged.limit] at hlimit
      cases hlimit
    obtain ⟨-, -, -, -, -, hdiffer⟩ := aggregations_carry_pages hfound hr
    cases hsent : onThirdPage.workspace.aggregated 0 "percentileCont"
        arguments with
    | error fault =>
      rw [hsent] at hcompiles
      cases hcompiles
    | ok clauses =>
      obtain ⟨first, hfirst, hprefix, htexts⟩ := hdiffer hpage clauses hsent
      exact ⟨clauses, first, rfl, hfirst, hprefix, htexts⟩

end Session

end GraphQuery
