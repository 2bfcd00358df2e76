import GraphQuery.Proofs.Compiling.Copies
import GraphQuery.Proofs.Compiling.Kinds
import GraphQuery.Proofs.Condition.Meaning
import GraphQuery.Proofs.Scripts.Steps

/-!
# No group is empty

A group of filters is only appended if it holds a filter, and what it holds
was appended in the same way, so whatever a script does, in callbacks of any
depth, every group of every builder holds a filter
(`Workspace.Filled.touch`).  A phrase of the grammar of conditions has
something in every pair of parentheses (`Condition.Reads.solid`), so the
same goes for the text of every condition that is compiled.  Both together
are `Session.no_group_is_empty`.
-/

namespace GraphQuery

namespace Condition

/-- Tokens in which every pair of parentheses has something in it, also when
others stand around them: they do not begin with a closing parenthesis and
do not end with an opening one. -/
structure Solid (tokens : List Token) : Prop where
  starts : ∃ first rest, tokens = first :: rest ∧ first ≠ .closing
  ends : ∀ last ∈ tokens.getLast?, last ≠ .opening
  filled : tokens.IsChain fun a b => ¬(a = .opening ∧ b = .closing)

namespace Solid

variable {tokens left right : List Token}

/-- A token that is no bracket is solid. -/
theorem singleton {token : Token} (hopening : token ≠ .opening)
    (hclosing : token ≠ .closing) :
    Solid [token] where
  starts := ⟨token, [], rfl, hclosing⟩
  ends last hlast := by
    obtain rfl : token = last := Option.some.inj hlast
    exact hopening
  filled := List.isChain_singleton token

/-- Solid tokens stay so together. -/
theorem append (hleft : Solid left) (hright : Solid right) :
    Solid (left ++ right) where
  starts := by
    obtain ⟨first, rest, rfl, hfirst⟩ := hleft.starts
    exact ⟨first, rest ++ right, rfl, hfirst⟩
  ends last hlast := by
    obtain ⟨first, rest, rfl, -⟩ := hright.starts
    rw [List.getLast?_append_of_ne_nil left
      (List.cons_ne_nil first rest)] at hlast
    exact hright.ends last hlast
  filled := by
    rw [List.isChain_append]
    refine ⟨hleft.filled, hright.filled, fun last hlast _ _ hpair => ?_⟩
    exact hleft.ends last hlast hpair.1

/-- Parentheses around something. -/
theorem parenthesize (h : Solid tokens) :
    Solid (.opening :: (tokens ++ [.closing])) := by
  obtain ⟨first, rest, rfl, hfirst⟩ := h.starts
  refine ⟨⟨.opening, _, rfl, by decide⟩, fun last hlast => ?_, ?_⟩
  · rw [← List.cons_append, List.getLast?_concat] at hlast
    obtain rfl : Token.closing = last := Option.some.inj hlast
    decide
  · have hinner : ((first :: rest) ++ [Token.closing]).IsChain
        fun a b => ¬(a = .opening ∧ b = .closing) := by
      rw [List.isChain_append]
      refine ⟨h.filled, List.isChain_singleton _, fun last hlast _ _ hpair =>
        ?_⟩
      exact h.ends last hlast hpair.1
    exact .cons_cons (fun hpair => hfirst hpair.2) hinner

/-- No closing parenthesis stands right behind an opening one. -/
theorem not_infix (h : Solid tokens) :
    ¬[Token.opening, .closing] <:+: tokens := by
  intro hinfix
  have hpair := h.filled.infix hinfix
  rw [List.isChain_cons_cons] at hpair
  exact hpair.1 ⟨rfl, rfl⟩

end Solid

/-- **A phrase has no empty pair of parentheses**, by induction on how it is
read. -/
theorem Reads.solid {truth : Nat → Bool} {level : Level}
    {tokens : List Token} {v : Bool} (h : Reads truth level tokens v) :
    Solid tokens := by
  induction h with
  | leaf i => exact .singleton (by simp) (by simp)
  | not _ ih =>
    have hnot : Solid [.not] := .singleton (by decide) (by decide)
    exact hnot.append ih
  | parentheses _ ih => exact ih.parenthesize
  | single _ _ ih => exact ih
  | join c _ _ ihleft ihright =>
    have hchain : Solid [.chain c] := .singleton (by simp) (by simp)
    exact ihleft.append (hchain.append ihright)

end Condition

namespace Filter

open Condition

variable {β γ : Type}

mutual

/-- Other bodies make no difference to whether a filter is filled. -/
theorem filled_map (f : β → γ) (filter : Filter β) (h : Filled filter) :
    Filled (map f filter) := by
  match filter with
  | .group filters negate chain =>
    rw [Filled] at h
    rw [map, Filled]
    refine ⟨fun hnil => h.1 ?_, allFilled_mapAll f filters h.2⟩
    cases filters with
    | nil => rfl
    | cons first rest =>
      rw [mapAll] at hnil
      cases hnil
  | .compare .. | .compareProperties .. | .isNull .. | .raw .. | .exists ..
  | .count .. | .misplaced _ =>
    exact trivial

/-- What nested queries are given by does not show in the groups. -/
theorem allFilled_mapAll (f : β → γ) (filters : List (Filter β))
    (h : AllFilled filters) :
    AllFilled (mapAll f filters) := by
  match filters with
  | [] => exact trivial
  | filter :: rest =>
    rw [AllFilled] at h
    rw [mapAll, AllFilled]
    exact ⟨filled_map f filter h.1, allFilled_mapAll f rest h.2⟩

end

/-- A text of filters in which every pair of parentheses around or between
the leaves has something in it.  The leaves are marked in the text, as what
is written inside a leaf belongs to no group. -/
def SolidText (nestedText : β → Except Fault String)
    (filters : List (Filter β)) (text : String) :
    Prop :=
  ∃ symbols texts tokens, spelled symbols = text ∧
  LeafTexts nestedText (leavesOfAll filters) texts ∧
    symbols.filterMap Symbol.leaf? = texts.zipIdx ∧
    tokens? symbols = some tokens ∧
    ¬[Token.opening, .closing] <:+: tokens

/-- The text of filled filters is solid. -/
theorem solidText_of_listText {nestedText : β → Except Fault String}
    {filters : List (Filter β)} (hne : filters ≠ [])
    (hfilled : AllFilled filters) {text : String}
    (h : listText nestedText filters = .ok text) :
    SolidText nestedText filters text := by
  obtain ⟨tokens, ⟨symbols, texts, hspelled, hcut, htexts, hmarks⟩,
      hreads, -⟩ :=
    listText_reads 0 filters hne hfilled h
  have hsolid : Solid tokens := (hreads fun _ => true).solid
  exact ⟨symbols, texts, tokens, hspelled, htexts, hmarks, hcut.tokens?_eq,
    hsolid.not_infix⟩

end Filter

/-- A condition is the text of the filters of a query, solid around its
leaves. -/
theorem Pass.solidText_filtering {s : Structure Nested}
    {clauses : List Clause} (hfilled : Filter.AllFilled s.wheres)
    (h : filtering.clauses s = .ok clauses) :
    ∀ c ∈ clauses, Filter.SolidText (nestedText .predicate) s.wheres
      c.body := by
  rw [Pass.clauses, clauseIf] at h
  split at h
  · next hsome =>
    obtain ⟨text, htext, h⟩ := bind_ok_inversion h
    cases h
    intro c hc
    rw [List.mem_singleton.mp hc]
    refine Filter.solidText_of_listText ?_ hfilled htext
    intro hnil
    rw [hnil] at hsome
    cases hsome
  · cases h
    intro c hc
    cases hc

/-- The conditions that a composition makes are that of the query itself and
those of the query it is united with.  No other pass makes clauses of this
kind. -/
theorem Composition.where_cases {composition : Composition}
    {s : Structure Nested} {clauses : List Clause}
    (h : composition.clauses s = .ok clauses) {c : Clause} (hc : c ∈ clauses)
    (hwhere : c.kind = .where_) :
    (∃ made, Pass.filtering.clauses s = .ok made ∧ c ∈ made) ∨
      ∃ second later, s.union = some second ∧ second .full = .ok later ∧
      c ∈ later := by
  induction composition generalizing clauses with
  | nil =>
    cases h
    cases hc
  | cons pass rest ih =>
    obtain ⟨first, later, hfirst, hlater, rfl⟩ := clauses_cons_eq_ok h
    rcases List.mem_append.mp hc with hc | hc
    · by_cases hunites : pass = .uniting
      · subst hunites
        right
        rw [Pass.clauses] at hfirst
        cases hunion : s.union with
        | none =>
          rw [hunion] at hfirst
          cases hfirst
          cases hc
        | some second =>
          rw [hunion] at hfirst
          obtain ⟨united, hunited, hfirst⟩ := bind_ok_inversion hfirst
          cases hfirst
          rcases List.mem_cons.mp hc with rfl | hc
          · cases hwhere
          · exact ⟨second, united, rfl, hunited, hc⟩
      · left
        have hkinds := pass.ofKinds_clauses hunites s
        rw [hfirst] at hkinds
        have hkind := hkinds c hc
        rw [hwhere] at hkind
        have hpass : pass = .filtering := by
          cases pass with
          | filtering => rfl
          | uniting => exact absurd rfl hunites
          | _ => simp [Pass.kinds] at hkind
        rw [hpass] at hfirst
        exact ⟨first, hfirst, hc⟩
    · exact ih hlater hc

namespace Workspace

variable {w w' : Workspace} {b : BuilderId}
    {links : BuilderId → BuilderId → Prop}
  {given : Assignment → Prop}

/-- Every group of every builder holds a filter. -/
def Filled (w : Workspace) : Prop :=
  ∀ (b : BuilderId) (found : Builder), w.builders[b]? = some found →
    Filter.AllFilled found.body.wheres

/-- The filters of every builder of a filled workspace are filled. -/
theorem Filled.body (hw : w.Filled) (b : BuilderId) :
    Filter.AllFilled (w.body b).wheres := by
  cases hb : w.builders[b]? with
  | none =>
    rw [Workspace.body, hb]
    exact trivial
  | some found =>
    rw [body_eq hb]
    exact hw b found hb

/-- A filter that a call adds is filled. -/
theorem NewFilter.filled {entry : String} {filter : Filter BuilderId}
    (h : w.NewFilter links b entry filter) (hw : w.Filled) :
    Filter.Filled filter := by
  cases h with
  | @group inner negate chain hlink hsome =>
    rw [Filter.Filled]
    exact ⟨hsome, hw.body inner⟩
  | _ => exact trivial

/-- Only new filters change the groups of a builder, and those of a new
filter are filled. -/
theorem Alteration.allFilled {s t : Structure BuilderId}
    (h : w.Alteration links b s t) (hw : w.Filled)
    (hs : Filter.AllFilled s.wheres) : Filter.AllFilled t.wheres := by
  cases h with
  | filter hfilter => exact Filter.allFilled_append hs ⟨hfilter.filled hw,
      trivial⟩
  | _ => exact hs

/-- **Nothing that happens to a workspace leaves an empty group.** -/
theorem Filled.touch (hw : w.Filled) (h : w.Touch links given w') :
    w'.Filled := by
  intro b found hfound
  rcases h.body_cases hfound with ⟨old, hold, hsame | hedit⟩ |
      ⟨pattern, entry, row, -, hbody⟩
  · rw [hsame]
    exact hw b old hold
  · exact hedit.allFilled hw (hw b old hold)
  · rw [hbody]
    exact trivial

/-- A workspace without builders is filled. -/
theorem filled_empty (h : w.builders = #[]) : w.Filled := by
  intro b found hfound
  rw [h] at hfound
  cases hfound

/-- A condition of a builder, solid around its leaves, whatever the nested
builders are given by. -/
def IsSolidCondition (w : Workspace) (text : String) : Prop :=
  ∃ (b : BuilderId) (nested : BuilderId → Nested),
    Filter.SolidText (Pass.nestedText .predicate)
      ((w.body b).map nested).wheres text

/-- The conditions of a builder are solid if those of the nested ones are. -/
theorem Filled.conditions (hw : w.Filled) {composition : Composition}
    {nested : BuilderId → Nested} {clauses : List Clause}
    (h : composition.clauses ((w.body b).map nested) = .ok clauses)
    (hnested : ∀ c later, nested c .full = .ok later →
      ∀ clause ∈ later, clause.kind = .where_ →
      w.IsSolidCondition clause.body) :
    ∀ clause ∈ clauses, clause.kind = .where_ →
    w.IsSolidCondition clause.body := by
  intro clause hclause hwhere
  rcases Composition.where_cases h hclause hwhere with
    ⟨made, hmade, hmem⟩ | ⟨second, later, hunion, hlater, hmem⟩
  · have hfilled : Filter.AllFilled ((w.body b).map nested).wheres :=
      Filter.allFilled_mapAll nested _ (hw.body b)
    exact ⟨b, nested, Pass.solidText_filtering hfilled hmade clause hmem⟩
  · obtain ⟨c, -, rfl⟩ := Option.map_eq_some_iff.mp hunion
    exact hnested c later hlater clause hmem hwhere

/-- Every condition that is made of a nested builder is solid; by induction
on how deep it is looked into. -/
theorem Filled.conditions_nested (hw : w.Filled) (depth : Nat)
    (outer : List (BuilderId × Composition)) (b : BuilderId)
    (composition : Composition) {clauses : List Clause}
    (h : w.nested depth outer b composition = .ok clauses) :
    ∀ clause ∈ clauses, clause.kind = .where_ →
    w.IsSolidCondition clause.body := by
  induction depth generalizing outer b composition clauses with
  | zero => cases h
  | succ depth ih =>
    rw [nested] at h
    split at h
    · cases h
    · exact hw.conditions h fun c later hlater => ih _ c .full hlater

end Workspace

namespace Session

/-- **No group is empty.**  After any script, with callbacks of any depth,
whether or not steps of it fail, every group in the filters of every builder
holds a filter, at any depth.  So every condition that is compiled, of a
builder by itself or inside another one, for whatever operation, has
something in every pair of parentheses that stands around or between its
leaves. -/
theorem no_group_is_empty {s : Session} (hs : s.workspace.builders = #[])
    (script : List Step) :
    let w := (s.after script).workspace
    (∀ b, Filter.AllFilled (w.body b).wheres) ∧
      (∀ b kind clauses, w.clauses b kind = .ok clauses →
        ∀ clause ∈ clauses, clause.kind = .where_ →
        w.IsSolidCondition clause.body) ∧
      ∀ depth outer b composition clauses,
      w.nested depth outer b composition = .ok clauses →
        ∀ clause ∈ clauses, clause.kind = .where_ →
        w.IsSolidCondition clause.body := by
  intro w
  have hallowed : ∀ call ∈ Step.callsOfAll script,
      call.Allowed (fun _ _ => True) (fun _ => True) :=
    fun _ _ => ⟨fun _ _ _ => trivial, fun _ _ _ _ => trivial⟩
  have htouches : s.workspace.Touches (fun _ _ => True) (fun _ => True) w :=
    touches_after (fun _ _ _ => trivial) hallowed
  have hw : w.Filled :=
    htouches.keeps (fun _ _ htouch hbefore => hbefore.touch htouch)
      (Workspace.filled_empty hs)
  have hnested := hw.conditions_nested
  refine ⟨hw.body, fun b kind clauses hclauses => ?_, fun _ _ _ _ _ h =>
    hnested _ _ _ _ h⟩
  have hcomposed := Workspace.composed_of_clauses hclauses
  exact hw.conditions hcomposed fun c later hlater =>
    hnested _ _ c .full hlater

/-- Groups that are given nothing, in mappings and in callbacks, beside some
that are given a filter. -/
def givenNothing : List Step :=
  let nothing := Call.whereGroup (.mk [] none) true "OR"
  let raw := Call.change (.rawFilter "f()" "AND")
  [.mk "from_" (.start (.any (.one "n:N") none false)) none none,
   .mk "where_filters" (.change (.filters
     [("$and", .list []),
       ("$or", .list [.map [], .map [("$and", .list [.map []])],
       .map [("a", .int 1)]])] "AND")) none none,
   .mk "where_not" (.whereGroup
     (.mk [.mk "where_not" nothing none none] none) true "AND") none none,
   .mk "where_inner" (.whereGroup
     (.mk [.mk "where_not" nothing none none, .mk "where_raw" raw none none,
     .mk "where_raw" raw none none] none) false "XOR") none none,
   .mk "where_exists" (.whereExists
     (.mk [.mk "where_not" nothing none none] none) true "OR") none none]

/-- What is left are the groups that were given something.  The parentheses
of `f()` are none of a group. -/
theorem no_group_is_empty_of_givenNothing :
    let w := ((ofSettings {}).after givenNothing).workspace
    ∃ clauses, w.clauses 0 .full = .ok clauses ∧
      clausesText clauses =
        "MATCH (n:N) WHERE n.a = $param0 XOR ((f()) AND (f())) OR " ++
          "NOT EXISTS \x7b  \x7d" ∧
      Filter.AllFilled (w.body 0).wheres ∧
      ∀ clause ∈ clauses, clause.kind = .where_ →
      w.IsSolidCondition clause.body := by
  obtain ⟨hfilled, hconditions, -⟩ :=
    no_group_is_empty (s := ofSettings {}) rfl givenNothing
  dsimp only
  generalize hw : ((ofSettings {}).after givenNothing).workspace =
      w at hfilled hconditions ⊢
  have htext : (w.clauses 0 .full).toOption.map clausesText = some
      ("MATCH (n:N) WHERE n.a = $param0 XOR ((f()) AND (f())) OR " ++
        "NOT EXISTS \x7b  \x7d") := by
    rw [← hw]
    decide +kernel
  cases hclauses : w.clauses 0 .full with
  | error fault =>
    rw [hclauses] at htext
    cases htext
  | ok clauses =>
    rw [hclauses] at htext
    exact ⟨clauses, rfl, Option.some.inj htext, hfilled 0,
      hconditions 0 .full clauses hclauses⟩

end Session

end GraphQuery
