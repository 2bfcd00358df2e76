import GraphQuery.Builder.Change
import GraphQuery.Proofs.Patterns.Walks
import GraphQuery.Proofs.Workspaces
import Mathlib.Logic.Relation

/-!
# What scripts do to builders

Whatever a script calls, what it does to the builders comes down to a few
kinds of alterations: of the pattern of a builder, of its items, of its
filters, and of the builders it refers to.  `Alteration` lists them with all
that is known of what they add, and `Touch` says what happens to a whole
workspace at once.  An invariant of builders need only be shown for each of
these.

Which builders a builder comes to refer to is left open: `links b c` says
that `b` may take `c` in.  What the walks give that queries start from is
left open in the same way.
-/

namespace GraphQuery

/-- Whether an expression is what a value is written as: its parameter, or
the fragment it is. -/
def Expression.isValue : Expression → Bool
  | parameter _ | raw _ => true
  | _ => false

/-- Whether a property is given a value, and no column of a batch. -/
def Assignment.hasValue (a : Assignment) : Bool := a.value.isValue

namespace Pattern

/-- A store is led to another one by declarations, all of whose properties
are of the given kind. -/
def Store.LeadsTo (given : Assignment → Prop) : Store → Store → Prop :=
  Relation.ReflTransGen fun s t =>
    ∃ d : Declaration, (∀ a ∈ d.properties, given a) ∧ d.apply s = .ok t

/-- Declarations of what is given lead on from a store. -/
theorem keeps_leadsTo (given : Assignment → Prop) (s : Store) :
    Keeps (Guarantee.keeping (s.LeadsTo given)) fun properties =>
      ∀ a ∈ properties, given a where
  none := by
    intro a ha
    cases ha
  declaration d t t' hgiven happly hlead :=
    ⟨hlead.tail ⟨d, hgiven, happly⟩, trivial⟩

end Pattern

namespace Workspace

section

variable (w : Workspace) (links : BuilderId → BuilderId → Prop)
    (b : BuilderId)

/-- The filters a builder with the given entry can append. -/
inductive NewFilter (entry : String) : Filter BuilderId → Prop
  | compare {property spelling operator : String} {right : Expression}
      {chain : Chain}
      (hoperator : comparison? spelling = some operator)
      (hright : right.isValue = true) :
      NewFilter entry
        (.compare (writtenProperty entry property) operator right chain)
  | compareProperties {left spelling operator right : String} {chain : Chain}
      (hoperator : comparison? spelling = some operator) :
      NewFilter entry
        (.compareProperties (writtenProperty entry left) operator
        (writtenProperty entry right) chain)
  | isNull {property : String} {negate : Bool} {chain : Chain} :
      NewFilter entry (.isNull (writtenProperty entry property) negate chain)
  | raw {text : String} {chain : Chain} : NewFilter entry (.raw text chain)
  /-- The filters another builder has are taken over as they are. -/
  | group {inner : BuilderId} {negate : Bool} {chain : Chain}
      (hlink : links b inner)
      (hsome : (w.body inner).wheres ≠ []) :
      NewFilter entry (.group (w.body inner).wheres negate chain)
  | exists {inner : BuilderId} {negate : Bool} {chain : Chain}
      (hlink : links b inner) (hinner : inner < w.builders.size) :
    NewFilter entry (.exists inner negate chain)
  | count {inner : BuilderId} {spelling operator : String}
      {value : Expression} {chain : Chain}
      (hlink : links b inner) (hinner : inner < w.builders.size)
      (hoperator : comparison? spelling = some operator)
      (hvalue : value.isValue = true) :
      NewFilter entry (.count inner operator value chain)

/-- What a call can do to what a builder has built. -/
inductive Alteration (s : Structure BuilderId) : Structure BuilderId → Prop
  | patterned {pattern : Pattern.Store}
      (h : s.pattern.LeadsTo (fun a => a.hasValue = true) pattern) :
    Alteration s { s with pattern }
  /-- A property of an element to be created is read from the row at hand, by
  a key of the first. -/
  | lookedUp {batch : Parameter} {first : List (String × Value)}
      {rest : List (List (String × Value))} {written : String}
      {pattern : Pattern.Store}
      (hbatch : s.batchCreate = some batch)
      (hrows : batch.value = .list ((first :: rest).map Value.map))
      (hkey : written ∈ first.map Prod.fst)
      (happly : (Pattern.Declaration.assign
        (propertyReference s.entry written).1
        [⟨(propertyReference s.entry written).1,
          (propertyReference s.entry written).2,
          .column s.batchVariable written⟩] .toCreate).apply s.pattern =
            .ok pattern) :
      Alteration s { s with pattern }
  | batched {batch : Parameter} {first : List (String × Value)}
      {rest : List (List (String × Value))}
      (hrows : batch.value = .list ((first :: rest).map Value.map)) :
      Alteration s { s with batchCreate := some batch }
  | unbatched : Alteration s { s with batchCreate := none }
  | setOnMatch {values : List Assignment}
      (h : ∀ a ∈ values, a.hasValue = true) :
      Alteration s
        { s with onMatch := s.onMatch ++ values.map SetItem.assign }
  | setOnCreate {values : List Assignment}
      (h : ∀ a ∈ values, a.hasValue = true) :
      Alteration s
        { s with onCreate := s.onCreate ++ values.map SetItem.assign }
  | set {a : Assignment} (h : a.hasValue = true) :
      Alteration s { s with sets := s.sets ++ [.assign a] }
  | setLabels {labels : List String} :
      Alteration s
        { s with sets := s.sets ++ labels.map (writtenLabelItem s.entry) }
  | setLabel {name : String} {given : Pattern.LabelArgument} :
      Alteration s { s with sets := s.sets ++ [.labels name given.labels] }
  | setRaw {texts : List String} :
      Alteration s { s with sets := s.sets ++ texts.map SetItem.raw }
  | remove {items : List String} :
      Alteration s
        { s with removes := s.removes ++ items.map (writtenRemoval s.entry) }
  | removeLabel {name : String} {labels : List String}
      (hsome : (Pattern.LabelArgument.many labels).labels ≠ []) :
      Alteration s { s with
        removes :=
  s.removes ++ [.labels name (Pattern.LabelArgument.many labels).labels] }
  | delete {names : List String} :
      Alteration s { s with deletes := s.deletes ++ names.map .var }
  | detach : Alteration s { s with forceDelete := true }
  | return_ {projections : List String} :
      Alteration s
        { s with returns := s.returns ++
          projections.map (writtenProjection s.entry) }
  | returnAll : Alteration s { s with returns := [.raw "*"] }
  | returnRaw {texts : List String} :
      Alteration s { s with returns := s.returns ++ texts.map .raw }
  | returnVariables {names : List String} :
      Alteration s { s with returns := s.returns ++ names.map .var }
  | returnCall {function name : String} {arguments : List PropertyArgument} :
      Alteration s { s with returns := s.returns ++
        [.aliased (.call function
          (arguments.map (PropertyArgument.expression s.entry))) name] }
  | distinct {wanted : Bool} : Alteration s { s with distinct := wanted }
  | page {skip limit : Option Int} : Alteration s { s with skip, limit }
  | order {order : Order} {properties : List PropertyArgument} :
      Alteration s { s with
        order, orderBy :=
  s.orderBy ++ properties.map (PropertyArgument.expression s.entry) }
  | filter {filter : Filter BuilderId}
      (h : w.NewFilter links b s.entry filter) :
      Alteration s { s with wheres := s.wheres ++ [filter] }
  | call {inner : BuilderId} (hlink : links b inner)
      (hinner : inner < w.builders.size) :
      Alteration s { s with subQueries := s.subQueries ++ [inner] }
  | unite {second : BuilderId} (hlink : links b second)
      (hsecond : second < w.builders.size) :
      Alteration s { s with union := some second }

end

/-- A builder that has built nothing but its pattern. -/
def Starts (given : Assignment → Prop) (builder : Builder) : Prop :=
  ∃ pattern entry batchVariable, Pattern.Store.LeadsTo given {} pattern ∧
    builder.body = { pattern, entry, batchVariable }

/-- What can happen to a workspace at once. -/
inductive Touch (links : BuilderId → BuilderId → Prop)
    (given : Assignment → Prop) (w : Workspace) :
    Workspace → Prop
  | aside {w' : Workspace} (h : w'.builders = w.builders) :
      Touch links given w w'
  /-- What a builder has built is left as it is. -/
  | around {b : BuilderId} {change : Builder → Builder}
      (h : ∀ old, (change old).body = old.body) :
    Touch links given w (w.amended b change)
  | edited {b : BuilderId} {found : Builder} {body : Structure BuilderId}
      (hfound : w.builders[b]? = some found) (h : w.Alteration links b
        found.body body) :
      Touch links given w (w.amended b fun builder => { builder with body })
  | added {builder : Builder} (h : Starts given builder) :
      Touch links given w (w.extended builder)

/-- What can happen to a workspace in any number of steps. -/
def Touches (links : BuilderId → BuilderId → Prop)
    (given : Assignment → Prop) :
    Workspace → Workspace → Prop :=
  Relation.ReflTransGen (Touch links given)

section

variable {links : BuilderId → BuilderId → Prop} {given : Assignment → Prop}
    {w w' : Workspace}

/-- No builder is taken away. -/
theorem Touch.size_le
    (h : w.Touch links given w') : w.builders.size ≤ w'.builders.size := by
  cases h with
  | aside h => exact Nat.le_of_eq (congrArg Array.size h).symm
  | around | edited => exact Nat.le_of_eq Array.size_modify.symm
  | @added builder =>
    have hsize : (w.builders.push builder).size = w.builders.size + 1 :=
      Array.size_push builder
    exact Nat.le_of_lt (Nat.lt_of_lt_of_eq (Nat.lt_succ_self _) hsize.symm)

/-- What a builder has built after a touch is what it had built before, an
edit of it, or the pattern a new builder starts from. -/
theorem Touch.body_cases (h : w.Touch links given w') {b : BuilderId}
    {found : Builder} (hfound : w'.builders[b]? = some found) :
    (∃ old, w.builders[b]? = some old ∧
      (found.body = old.body ∨ w.Alteration links b old.body found.body)) ∨
      Starts given found := by
  cases h with
  | aside hbuilders => exact .inl ⟨found, hbuilders ▸ hfound, .inl rfl⟩
  | @around c change hbody =>
    rcases w.amended_cases c change b with ⟨-, old, hold, hnew⟩ | hsame
    · rw [hnew] at hfound
      cases hfound
      exact .inl ⟨old, hold, .inl (hbody old)⟩
    · exact .inl ⟨found, hsame ▸ hfound, .inl rfl⟩
  | @edited c before body hbefore hedit =>
    rcases w.amended_cases c (fun builder => { builder with body }) b with
      ⟨hsame, old, hold, hnew⟩ | hsame
    · subst hsame
      rw [hnew] at hfound
      cases hfound
      obtain rfl : before = old := Option.some.inj (hbefore.symm.trans hold)
      exact .inl ⟨before, hold, .inr hedit⟩
    · exact .inl ⟨found, hsame ▸ hfound, .inl rfl⟩
  | @added builder hstarts =>
    rcases w.extended_cases builder b with ⟨-, hnew⟩ | hsame
    · rw [hnew] at hfound
      cases hfound
      exact .inr hstarts
    · exact .inl ⟨found, hsame ▸ hfound, .inl rfl⟩

/-- Builders are never taken from a workspace. -/
theorem Touches.size_le
    (h : w.Touches links given w') : w.builders.size ≤ w'.builders.size := by
  induction h with
  | refl => exact Nat.le_refl _
  | tail _ htouch ih => exact Nat.le_trans ih htouch.size_le

/-- An invariant that nothing that can happen at once breaks. -/
theorem Touches.keeps {holds : Workspace → Prop}
    (hstep : ∀ w w', w.Touch links given w' → holds w → holds w')
    (h : w.Touches links given w') (hw : holds w) : holds w' := by
  induction h with
  | refl => exact hw
  | tail _ htouch ih => exact hstep _ _ htouch ih

/-- The guarantee that only what is listed happens to the builders of a
workspace. -/
def touching (links : BuilderId → BuilderId → Prop)
    (given : Assignment → Prop) :
    Guarantee Workspace where
  holds _ := True
  leads := Touches links given
  refl _ := .refl
  trans := .trans

end

end Workspace

end GraphQuery
