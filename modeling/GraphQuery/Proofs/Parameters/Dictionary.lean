import GraphQuery.Proofs.Compiling.Copies
import GraphQuery.Proofs.Condition.Calls
import GraphQuery.Proofs.Parameters.Script

/-!
# The dictionary a query is built with

A query is built with what its stack binds.  That covers the parameters of
the query and of the builders nested in it, unless one of these was left
behind on another stack: `Session.built_binds`, which also says that such a
builder makes the dictionary wrong as soon as it filters by a value.
Uniting leaves builders behind, as it moves the second query alone:
`Session.uniting_leaves_behind`.
-/

namespace GraphQuery

namespace Workspace

/-- The builders nested in a builder: those it calls, those its filters are
about, the one it is united with, and those it took filters from. -/
inductive Nests (w : Workspace) (b : BuilderId) : BuilderId → Prop
  | called {c : BuilderId} (h : c ∈ (w.body b).subQueries) : Nests w b c
  | filtered {c : BuilderId} (h : c ∈ Filter.nestedInAll (w.body b).wheres) :
      Nests w b c
  | united {c : BuilderId} (h : (w.body b).union = some c) : Nests w b c
  | grouped {c : BuilderId} (h : w.TakesFrom b c) : Nests w b c

/-- A builder is nested in another one at any depth, or is that one. -/
def Within (w : Workspace) : BuilderId → BuilderId → Prop :=
  Relation.ReflTransGen w.Nests

/-- Two builders bind their values in different stacks. -/
def Apart (w : Workspace) (b c : BuilderId) : Prop :=
  ∃ x y, w.builders[b]? = some x ∧ w.builders[c]? = some y ∧ x.stack ≠ y.stack

/-- Builders that are not apart have one stack. -/
theorem stackOf_eq_of_not_apart {w : Workspace} {b c : BuilderId}
    {x y : Builder} (hb : w.builders[b]? = some x)
    (hc : w.builders[c]? = some y) (h : ¬ w.Apart b c) :
    w.stackOf b = w.stackOf c := by
  have hsame : x.stack = y.stack := by
    by_contra hne
    exact h ⟨x, y, hb, hc, hne⟩
  rw [stackOf_eq hb, stackOf_eq hc, hsame]

/-- Whether builders are apart is told by the numbers of their stacks. -/
theorem apart_iff_of_map_stack {w : Workspace} {numbers : Array Nat}
    (h : w.builders.map Builder.stack = numbers) {b c : BuilderId} :
    w.Apart b c ↔ ∃ m n, numbers[b]? = some m ∧ numbers[c]? = some n ∧
    m ≠ n := by
  subst h
  simp only [Array.getElem?_map, Option.map_eq_some_iff]
  constructor
  · rintro ⟨x, y, hx, hy, hne⟩
    exact ⟨x.stack, y.stack, ⟨x, hx, rfl⟩, ⟨y, hy, rfl⟩, hne⟩
  · rintro ⟨_, _, ⟨x, hx, rfl⟩, ⟨y, hy, rfl⟩, hne⟩
    exact ⟨x, y, hx, hy, hne⟩

/-- A parameter held within a builder is bound in the stack of a builder
within it that holds it. -/
theorem Grounded.exists_binds {given : Parameter → Prop} {w : Workspace}
    (hw : w.Grounded given) {b : BuilderId} {p : Parameter}
    (hp : p ∈ (w.body b).parameters) (hgiven : ¬ given p) :
    ∃ c, w.Within b c ∧ p ∈ (w.body c).parameters ∧
    (w.stackOf c).Binds p := by
  rcases List.mem_append.mp hp with hcontent | hfilter
  · rcases hw.content b p hcontent with hout | hbinds
    · exact absurd hout hgiven
    · exact ⟨b, .refl, hp, hbinds⟩
  · obtain ⟨c, hpath, hmem, hbinds⟩ := hw.filters b p hfilter
    refine ⟨c, Relation.ReflTransGen.mono (fun _ _ h =>
      .grouped h) _ _ hpath, ?_, hbinds⟩
    exact List.mem_append_right _ hmem

/-- Nesting is not undone where builders keep what they call and are united
with. -/
theorem Within.of_grows {w w' : Workspace} (hgrows : Grows w w')
    (hcalls : ∀ b, (w'.body b).subQueries = (w.body b).subQueries)
    (hunion : ∀ b, (w'.body b).union = (w.body b).union) {b c : BuilderId}
    (h : w.Within b c) :
    w'.Within b c := by
  refine Relation.ReflTransGen.mono (fun d e hnests => ?_) _ _ h
  cases hnests with
  | called hmem => exact .called (by rwa [hcalls])
  | united heq => exact .united (by rwa [hunion])
  | grouped htakes => exact .grouped (hgrows.takesFrom htakes)
  | filtered hmem =>
    obtain ⟨more, hmore⟩ := hgrows.wheres d
    refine .filtered ?_
    rw [← hmore, Filter.nestedInAll_append]
    exact List.mem_append_left _ hmem

end Workspace

namespace Workspace

/-! ### Compiling -/

/-- What compiling depends on: the builders, and what can be copied. -/
def held (w : Workspace) : Array Builder × CopyLimits :=
  (w.builders, w.limits)

/-- What a builder compiles to depends on the builders and on what can be
copied alone. -/
theorem clauses_of_held_eq {w w' : Workspace} (hheld : w'.held = w.held)
    (b : BuilderId) (kind : QueryKind) :
    w'.clauses b kind = w.clauses b kind := by
  have h : w'.builders = w.builders := congrArg Prod.fst hheld
  have hlimits : w'.limits = w.limits := congrArg Prod.snd hheld
  have hbody : w'.body = w.body := by
    funext c
    rw [body, body, h]
  have hnested : ∀ depth outer,
      w'.nested depth outer = w.nested depth outer := by
    intro depth
    induction depth with
    | zero => exact fun _ => rfl
    | succ depth ih =>
      intro outer
      funext c composition
      simp only [nested, hbody, ih]
  have hcopying : w'.copying b = w.copying b :=
    copying_congr w' w hlimits (by rw [h]) (fun c => by rw [hbody]) b
  rw [clauses, clauses, hcopying, composed, composed, opened, opened, hbody,
    hnested, h]

end Workspace

/-- Filtering by a value binds the value in the stack of the builder and
appends the filter. -/
theorem Building.exec_whereCompare {w : Workspace} {b : BuilderId}
    {found : Builder} (hb : w.builders[b]? = some found) (property : String)
    {value : Value} (hvalue : ∀ fragment, value ≠ .raw fragment) :
    let p : Parameter := ⟨(w.stack found.stack).freshName, value⟩
    let stack : ParameterStack :=
      { w.stack found.stack with parameters :=
        (w.stack found.stack).parameters ++ [p] }
    let filter := Filter.compare (writtenProperty found.body.entry property)
      "=" (.parameter p) .and
    (Computation.exec (whereCompare b property "=" value "AND") w).2 =
      (w.withStack found.stack stack).amended b fun builder =>
        { builder with body := { builder.body with wheres :=
          builder.body.wheres ++ [filter] } } := by
  intro p stack filter
  have hadd : (w.stack found.stack).add value = (.parameter p, stack) := by
    rcases (w.stack found.stack).add_cases value with ⟨fragment, hraw, -⟩ |
        ⟨-, hadd⟩
    · exact absurd hraw (hvalue fragment)
    · exact hadd
  have hoperator : comparison "where" "=" = .ok "=" := by rfl
  have hchain : Chain.ofSpelling "AND" = .ok .and := by rfl
  rw [exec_whereCompare_eq hb hoperator, chained, hchain]
  dsimp only
  rw [Workspace.bound, Workspace.reference, hadd]
  rfl

namespace Workspace

/-- A builder has come to filter by a parameter that is bound in its own
stack, and nothing else has changed that a dictionary depends on. -/
structure FiltersBy (w w' : Workspace) (c : BuilderId) (found : Builder)
    (p : Parameter) : Prop where
  filters : p ∈ (w'.body c).parameters
  subQueries : ∀ d, (w'.body d).subQueries = (w.body d).subQueries
  union : ∀ d, (w'.body d).union = (w.body d).union
  elsewhere : ∀ d x, w.builders[d]? = some x → x.stack ≠ found.stack →
  w'.stackOf d = w.stackOf d

/-- An accepted comparison filters by its value. -/
theorem filtersBy_whereCompare {given : Parameter → Prop} {w : Workspace}
    (hw : w.Grounded given) {c : BuilderId} {found : Builder}
    (hc : w.builders[c]? = some found) (property : String) {value : Value}
    (hraw : ∀ fragment, value ≠ .raw fragment) :
    w.FiltersBy (Computation.exec
      (Building.whereCompare c property "=" value "AND") w).2 c found
      ⟨(w.stack found.stack).freshName, value⟩ := by
  rw [Building.exec_whereCompare hc property hraw]
  generalize ({ w.stack found.stack with parameters := _ } :
      ParameterStack) = stack
  generalize hfilter : Filter.compare _ _ (Expression.parameter _) _ = filter
  have hcases :=
    amended_cases (w.withStack found.stack stack) c fun builder =>
    { builder with body :=
      { builder.body with wheres := builder.body.wheres ++ [filter] } }
  have hself :=
    amended_self (w := w.withStack found.stack stack) hc fun builder =>
    { builder with body :=
      { builder.body with wheres := builder.body.wheres ++ [filter] } }
  refine ⟨?_, fun d => ?_, fun d => ?_, fun d x hd hne => ?_⟩
  · rw [body_eq hself, ← hfilter]
    refine List.mem_append_right _ ?_
    simp [Filter.parametersOfAll, Filter.parameters, Expression.parameters]
  · rcases hcases d with ⟨-, old, hold, hnew⟩ | hsame
    · rw [body_eq hnew, body_eq (w := w) hold]
    · rw [body_congr hsame]
      rfl
  · rcases hcases d with ⟨-, old, hold, hnew⟩ | hsame
    · rw [body_eq hnew, body_eq (w := w) hold]
    · rw [body_congr hsame]
      rfl
  · rcases hcases d with ⟨rfl, -⟩ | hsame
    · rw [hc] at hd
      exact absurd (congrArg Builder.stack (Option.some.inj hd).symm) hne
    · rw [stackOf_eq (hsame.trans hd), stackOf_eq hd]
      exact (stack_withStack w (hw.stack_lt c found hc) stack x.stack).trans
        (if_neg hne)

/-- **A builder left behind on another stack makes the dictionary wrong.**
If it filters by a value, the parameter is not bound where the outer query
is built from, but for one value at most. -/
theorem exists_unbound {given : Parameter → Prop} {w : Workspace}
    (hw : w.Grounded given) {b c : BuilderId} (hwithin : w.Within b c)
    (hapart : w.Apart b c) (property : String) :
    ∃ exception, ∀ value, value ≠ exception →
    (∀ fragment, value ≠ .raw fragment) →
      let w' :=
        (Computation.exec (Building.whereCompare c property "=" value "AND")
          w).2
      w'.Within b c ∧ ∃ p ∈ (w'.body c).parameters, p.value = value ∧
      ¬ (w'.stackOf b).Binds p := by
  obtain ⟨x, y, hb, hc, hne⟩ := hapart
  refine ⟨((w.stackOf b).entries.lookup (w.stack y.stack).freshName).getD
    .null, ?_⟩
  intro value hexception hraw w'
  have hgrows : Grows w w' :=
    (Building.kept_whereCompare property "=" value "AND" w hw).2.1
  have hfilters := filtersBy_whereCompare hw hc property hraw
  refine ⟨hwithin.of_grows hgrows hfilters.subQueries hfilters.union, _,
    hfilters.filters, rfl,
    fun hbinds => hexception ?_⟩
  rw [hfilters.elsewhere b x hb hne] at hbinds
  have hlookup : (w.stackOf b).entries.lookup (w.stack y.stack).freshName =
      some value := hbinds
  rw [hlookup, Option.getD_some]

end Workspace

namespace Session

/-- Building a query answers with the text it compiles to and with what its
stack binds. -/
theorem exec_perform_build (b : BuilderId) (method : String)
    (into : Option String) (kind : QueryKind) (s : Session) :
    (Computation.exec (Call.perform b method into (.build kind)) s).1 =
      ((s.workspace.changed b id).clauses b kind).map fun clauses =>
        (.built (clausesText clauses) (s.workspace.stackOf b).entries,
          none) := by
  obtain ⟨events, hcompile⟩ := Building.exec_compile b kind id s.workspace
  rw [Call.perform, Computation.exec_bind, Acting.exec_build, hcompile]
  cases (s.workspace.changed b id).clauses b kind with
  | ok clauses => rfl
  | error fault => rfl

/-- A builder found in a register is in it. -/
theorem lookup_of_builder? {s : Session} {register : String} {b : BuilderId}
    (h : s.builder? register = some b) :
    s.registers.lookup register = some (.builder b) := by
  rw [builder?] at h
  split at h
  · next found hfound => rw [hfound, Option.some.inj h]
  · cases h

/-- A query that is built answers with its text and with what its stack
binds.  A sub-query is not built by itself. -/
theorem reply_build {s : Session} {register : String} {b : BuilderId}
    (hbuilder : s.builder? register = some b) (method : String)
    (into : Option String) (kind : QueryKind) :
    (s.step (.mk method (.build kind) (some register) into)).1.reply =
      match s.workspace.builders[b]? with
      | none => .error .endless
      | some found =>
        if found.whole then (s.workspace.clauses b kind).map fun clauses =>
          .built (clausesText clauses) (s.workspace.stackOf b).entries
        else .error (.noSuchMethod method) := by
  let quiet : Session :=
    { s with workspace := { s.workspace with log := [] } }
  show (Computation.exec
      (Step.run none (.mk method (.build kind) (some register) into))
      quiet).1.map Prod.fst = _
  have htarget : Computation.exec (Step.target none (some register)) quiet =
      (.ok (.builder b), quiet) := by
    rw [Step.target, Acting.lookup, Computation.exec_bind,
      Computation.exec_get]
    simp [quiet, lookup_of_builder? hbuilder]
  have hfound : quiet.workspace.builders[b]? = s.workspace.builders[b]? := rfl
  unfold Step.run
  rw [Computation.exec_bind, htarget]
  dsimp only
  rw [Computation.exec_bind, Acting.exec_build, Building.exec_builder, hfound]
  cases hb : s.workspace.builders[b]? with
  | none => rfl
  | some found =>
    dsimp only
    have hreads : (Call.build kind).reads = false := rfl
    cases hwhole : found.whole with
    | false =>
      simp only [hreads]
      rfl
    | true =>
      have hperform := exec_perform_build b method into kind quiet
      have hclauses : quiet.workspace.clauses b kind =
          s.workspace.clauses b kind :=
        @Workspace.clauses_of_held_eq s.workspace quiet.workspace rfl b kind
      rw [Workspace.changed_id, hclauses] at hperform
      simp only [Bool.not_true, Bool.false_and, Bool.false_eq_true, if_false,
        if_true]
      rw [Computation.exec_bind]
      rcases hexec : Computation.exec
          (Call.perform b method into (.build kind)) quiet with
        ⟨outcome, t⟩
      rw [hexec] at hperform
      cases hresult : s.workspace.clauses b kind with
      | error fault =>
        rw [hresult] at hperform
        obtain rfl : outcome = .error fault := hperform
        rfl
      | ok clauses =>
        rw [hresult] at hperform
        obtain rfl : outcome = .ok (.built (clausesText clauses)
          (s.workspace.stackOf b).entries, none) := hperform
        rfl

/-- The query that is built is there, and its dictionary is that of its
stack. -/
theorem built_inversion {s : Session} {method register : String}
    {into : Option String} {kind : QueryKind} {b : BuilderId} {text : String}
    {parameters : List (String × Value)}
    (hbuilder : s.builder? register = some b)
    (hbuilt : (s.step (.mk method (.build kind) (some register)
      into)).1.reply = .ok (.built text parameters)) :
    (∃ found, s.workspace.builders[b]? = some found) ∧
      parameters = (s.workspace.stackOf b).entries := by
  rw [reply_build hbuilder] at hbuilt
  cases hb : s.workspace.builders[b]? with
  | none =>
    rw [hb] at hbuilt
    cases hbuilt
  | some found =>
    rw [hb] at hbuilt
    dsimp only at hbuilt
    split at hbuilt
    · cases hclauses : s.workspace.clauses b kind with
      | error fault =>
        rw [hclauses] at hbuilt
        cases hbuilt
      | ok clauses =>
        rw [hclauses] at hbuilt
        cases hbuilt
        exact ⟨⟨found, rfl⟩, rfl⟩
    · cases hbuilt

/-- **When a query is built right.**  After any script, a parameter held by
a query or by a builder nested in it is bound to its value in the dictionary
the query is built with, unless it is bound in the stack of a nested builder
apart from the query; parameters that walks brought along do not count.  A
builder nested in the query and apart from it makes the dictionary wrong
once it filters by a value, but for one value at most. -/
theorem built_binds {s : Session} {script : List Step}
    {method register : String} {into : Option String} {kind : QueryKind}
    {b : BuilderId} {text : String} {parameters : List (String × Value)}
    (hs : s.workspace.builders = #[])
    (hbuilder : (s.after script).builder? register = some b)
    (hbuilt : ((s.after script).step (.mk method (.build kind)
      (some register) into)).1.reply =
      .ok (.built text parameters)) :
    let w := (s.after script).workspace
    (∀ c, w.Within b c →
      ∀ p ∈ (w.body c).parameters, p ∉ Step.walkedInAll script →
      (∀ d, w.Within b d → p ∈ (w.body d).parameters →
        (w.stackOf d).Binds p → ¬ w.Apart b d) →
      parameters.lookup p.name = some p.value) ∧
    ∀ c, w.Within b c → w.Apart b c →
    ∀ property, ∃ exception, ∀ value, value ≠ exception →
      (∀ fragment, value ≠ .raw fragment) →
      let w' :=
        (Computation.exec (Building.whereCompare c property "=" value "AND")
          w).2
      w'.Within b c ∧ ∃ p ∈ (w'.body c).parameters, p.value = value ∧
        (w'.stackOf b).entries.lookup p.name ≠ some p.value := by
  intro w
  have hgrounded : w.Grounded (· ∈ Step.walkedInAll script) :=
    grounded_after (Workspace.grounded_empty hs) fun p hp => hp
  obtain ⟨⟨found, hb⟩, rfl⟩ := built_inversion hbuilder hbuilt
  refine ⟨fun c hwithin p hp hout htogether => ?_,
    fun c hwithin hapart property =>
    Workspace.exists_unbound hgrounded hwithin hapart property⟩
  obtain ⟨d, hpath, hmem, hbinds⟩ := hgrounded.exists_binds hp hout
  obtain ⟨other, hd⟩ := Workspace.exists_of_binds hbinds
  have hstack := Workspace.stackOf_eq_of_not_apart hb hd
    (htogether d (hwithin.trans hpath) hmem hbinds)
  have hbound : (w.stackOf b).Binds p := hstack ▸ hbinds
  exact hbound

/-! ### A builder left behind -/

/-- A query is united with one that calls a sub-query already. -/
def uniteLate : List Step :=
  [.mk "from_" (.start (.any (.one "a:A") none false)) none (some "q1"),
   .mk "from_" (.start (.any (.one "b:B") none false)) none (some "q2"),
   .mk "sub_query" .subQuery (some "q2") (some "s"),
   .mk "calling" (.callingRegister "s") (some "q2") none,
   .mk "unioning" (.unioningRegister "q2") (some "q1") none]

/-- A step that compares the property `x` with a value. -/
def compareStep (register : String) (value : Value) : Step :=
  .mk "where" (.change (.compare "x" "=" value "AND")) (some register) none

/-- A query that compiles is built. -/
theorem reply_build_of_text {s : Session} {register text : String}
    {b : BuilderId} {kind : QueryKind}
    (hbuilder : s.builder? register = some b)
    (hwhole : s.workspace.builders[b]?.map Builder.whole = some true)
    (htext : (s.workspace.clauses b kind).toOption.map clausesText =
      some text) (method : String) (into : Option String) :
    (s.step (.mk method (.build kind) (some register) into)).1.reply =
      .ok (.built text (s.workspace.stackOf b).entries) := by
  rw [reply_build hbuilder]
  cases hb : s.workspace.builders[b]? with
  | none => simp [hb] at hwhole
  | some found =>
    cases hclauses : s.workspace.clauses b kind with
    | error fault => simp [hclauses, Except.toOption] at htext
    | ok clauses =>
      rw [hb, Option.map_some, Option.some_inj] at hwhole
      rw [hclauses, Except.toOption, Option.map_some,
        Option.some_inj] at htext
      simp only [hwhole, if_true, Except.map, htext]

/-- The sub-query is left behind on its stack: what it filters by is written
as a placeholder, but is not in the dictionary.  No step fails. -/
theorem uniting_leaves_behind :
    let script := uniteLate ++ [compareStep "s" (.int 1)]
    (∀ n < 6, ∀ step ∈ script[n]?,
      (((ofSettings {}).after (script.take n)).step step).1.reply.isOk =
        true) ∧
    (((ofSettings {}).after script).step (.mk "build" (.build .full)
      (some "q1") none)).1.reply =
      .ok (.built ("MATCH (a:A) UNION MATCH (b:B) " ++
        "CALL \x7b WITH * WHERE b.x = $param0 \x7d") []) := by
  intro script
  have hok : ∀ n < 6, ∀ step ∈ script[n]?,
      (((ofSettings {}).after (script.take n)).step step).1.reply.isOk =
        true := by
    decide +kernel
  have hbuilder : ((ofSettings {}).after script).builder? "q1" = some 0 := by
    decide +kernel
  have hwhole : ((ofSettings {}).after script).workspace.builders[0]?.map
      Builder.whole =
      some true := by
    decide +kernel
  have htext : (((ofSettings {}).after script).workspace.clauses
      0 .full).toOption.map clausesText =
      some ("MATCH (a:A) UNION MATCH (b:B) " ++
        "CALL \x7b WITH * WHERE b.x = $param0 \x7d") := by
    decide +kernel
  have hentries : (((ofSettings {}).after script).workspace.stackOf
      0).entries.isEmpty = true := by
    decide +kernel
  have hreply := reply_build_of_text hbuilder hwhole htext "build" none
  rw [List.isEmpty_iff.mp hentries] at hreply
  exact ⟨hok, hreply⟩

/-- What the second query filters by is bound, and what the sub-query it
calls would filter by is not.  There are three builders, and the first two
share a stack. -/
theorem built_binds_of_uniteLate :
    let script := uniteLate ++ [compareStep "q2" (.int 2)]
    let w := ((ofSettings {}).after script).workspace
    ∃ text parameters,
      (((ofSettings {}).after script).step (.mk "build" (.build .full)
        (some "q1") none)).1.reply =
        .ok (.built text parameters) ∧
      (w.body 1).parameters.map Parameter.name = ["param0"] ∧
      (∀ p ∈ (w.body 1).parameters, parameters.lookup p.name = some p.value) ∧
      ∃ exception, ∀ value, value ≠ exception →
      (∀ fragment, value ≠ .raw fragment) →
        let w' :=
          (Computation.exec (Building.whereCompare 2 "x" "=" value "AND") w).2
        w'.Within 0 2 ∧ ∃ p ∈ (w'.body 2).parameters, p.value = value ∧
          (w'.stackOf 0).entries.lookup p.name ≠ some p.value := by
  intro script
  dsimp only
  have hbuilder : ((ofSettings {}).after script).builder? "q1" = some 0 := by
    decide +kernel
  have hwhole : ((ofSettings {}).after script).workspace.builders[0]?.map
      Builder.whole =
      some true := by
    decide +kernel
  have htext : (((ofSettings {}).after script).workspace.clauses
      0 .full).toOption.map clausesText =
      some ("MATCH (a:A) UNION MATCH (b:B) " ++
        "CALL \x7b WITH * \x7d WHERE b.x = $param0") := by
    decide +kernel
  have hreply := reply_build_of_text hbuilder hwhole htext "build" none
  obtain ⟨hbound, hunbound⟩ := built_binds rfl hbuilder hreply
  have hstacks : ((ofSettings {}).after script).workspace.builders.map
      Builder.stack =
      #[0, 0, 1] := by
    decide +kernel
  have hunion : (((ofSettings {}).after script).workspace.body 0).union =
      some 1 := by
    decide +kernel
  have hcalls :
      2 ∈ (((ofSettings {}).after script).workspace.body 1).subQueries := by
    decide +kernel
  have hunited : ((ofSettings {}).after script).workspace.Within 0 1 :=
    .single (.united hunion)
  have hcalled : ((ofSettings {}).after script).workspace.Within 0 2 :=
    hunited.tail (.called hcalls)
  have hnames : (((ofSettings {}).after script).workspace.body
      1).parameters.map Parameter.name =
      ["param0"] := by
    decide +kernel
  have hnone : (((ofSettings {}).after script).workspace.body
      2).parameters.isEmpty = true := by
    decide +kernel
  have hapart : ((ofSettings {}).after script).workspace.Apart 0 2 :=
    (Workspace.apart_iff_of_map_stack hstacks).mpr ⟨0, 1, rfl, rfl, by decide⟩
  have honly : ∀ c, ((ofSettings {}).after script).workspace.Apart 0 c →
      c = 2 := by
    intro c hc
    obtain ⟨m, n, hm, hn, hne⟩ :=
      (Workspace.apart_iff_of_map_stack hstacks).mp hc
    rcases c with _ | _ | _ | c
    · exact absurd (Option.some.inj (hm.symm.trans hn)) hne
    · exact absurd (Option.some.inj (hm.symm.trans hn)) hne
    · rfl
    · cases hn
  have hwalked : Step.walkedInAll script = [] := by
    simp [script, uniteLate, compareStep, Step.walkedInAll, Step.walked,
      Call.walked]
  have hwhere := hunbound 2 hcalled hapart "x"
  have hthere :
      ∀ p ∈ (((ofSettings {}).after script).workspace.body 1).parameters,
      (((ofSettings {}).after script).workspace.stackOf 0).entries.lookup
        p.name = some p.value := by
    intro p hp
    refine hbound 1 hunited p hp (by simp [hwalked])
      fun c hwithin hmem hbinds hc => ?_
    rw [honly c hc, List.isEmpty_iff.mp hnone] at hmem
    cases hmem
  exact ⟨_, _, hreply, hnames, hthere, hwhere⟩

end Session

end GraphQuery
