import GraphQuery.Proofs.Patterns.Contexts
import Std.Data.String.ToNat

/-!
# The edges of a walk

Ascending from a relationship registers an edge to every node collected.
The edges are told apart by their names, and these are not new: an edge
whose name stands for a relationship already is merged into it, and that
keeps its own ends.  So an edge is there after a walk, with the ends the
walk gives it, unless its name was taken: `Walk.ascent_keeps_edges`.
-/

namespace GraphQuery.Pattern

open GraphQuery.Computation

/-- The name of an edge of a fan: the first one has the base, the others are
numbered after it. -/
def fanName (base : String) : Nat → String
  | 0 => base
  | k + 1 => base ++ toString (k + 1)

/-- A relationship that a walk describes. -/
structure Edge where
  name : String
  left : String
  right : String
  deriving DecidableEq, Repr

/-- The edges from a node to the nodes collected, or to an anonymous node if
there are none. -/
def fan (left : String) (types : LabelArgument) (name : Option String)
    (names : NameSequence) :
    List String → List Edge
  | [] => [⟨relationshipName types name names.draw.2, left, names.draw.1⟩]
  | first :: rest =>
    (first :: rest).mapIdx fun k right =>
      ⟨fanName (relationshipName types name names) k, left, right⟩

section

variable (left : String) (types : LabelArgument) (name : Option String)
    (names : NameSequence)
variable {children : List String}

variable {left types name names} in
/-- Every edge of a fan leaves from one node. -/
theorem left_of_mem_fan {edge : Edge}
    (h : edge ∈ fan left types name names children) :
    edge.left = left := by
  cases children with
  | nil => rw [List.mem_singleton.mp h]
  | cons first rest =>
    obtain ⟨k, hk, rfl⟩ := List.mem_mapIdx.mp h
    rfl

/-- There is an edge to every node collected. -/
theorem edge_mem_fan {k : Nat} {child : String}
    (h : children[k]? = some child) :
    (⟨fanName (relationshipName types name names) k, left, child⟩ : Edge) ∈
      fan left types name names children := by
  cases children with
  | nil => cases h
  | cons first rest =>
    obtain ⟨hk, hchild⟩ := List.getElem?_eq_some_iff.mp h
    exact List.mem_mapIdx.mpr ⟨k, hk, by rw [hchild]⟩

/-- A fan has an edge for every node. -/
theorem length_fan (h : children ≠ []) :
    (fan left types name names children).length =
    children.length := by
  obtain ⟨first, rest, rfl⟩ := List.exists_cons_of_ne_nil h
  exact List.length_mapIdx

end

/-- A name with a number behind it is another one. -/
theorem ne_append_number (base : String) (n : Nat) :
    base ≠ base ++ toString n := by
  intro heq
  have hlength := congrArg String.length heq
  rw [String.length_append] at hlength
  have hdigits : 0 < (toString n).length := Nat.length_repr_pos
  omega

/-- The names of a fan are all different. -/
theorem fanName_injective (base : String) {j k : Nat}
    (h : fanName base j = fanName base k) :
    j = k := by
  cases j with
  | zero =>
    cases k with
    | zero => rfl
    | succ k => exact absurd h (ne_append_number base (k + 1))
  | succ j =>
    cases k with
    | zero => exact absurd h.symm (ne_append_number base (j + 1))
    | succ k => exact Nat.repr_injective ((String.append_right_inj base).mp h)

/-- The names of a fan are plain if its own is. -/
theorem plain_fanName {base : String} (h : Plain base) (k : Nat) :
    Plain (fanName base k) := by
  cases k with
  | zero => exact h
  | succ k => exact h.append_number (k + 1)

/-! ## What an ascent registers -/

/-- An edge between plain ends. -/
theorem ends?_of_edge {r s : Registry} {left right : String}
    {types : LabelArgument} {name : Option String}
    {direction : Option Direction} {optional : Bool} {answer : StoreAnswer}
    (other : String) (hr : r.store.Indexed) (hleft : Plain left)
    (hright : Plain right)
    (h : exec (StoreCall.matchRelationship (some left)
      (some right) types name direction
      optional).perform r = (.ok answer, s)) :
    s.store.ends? other = (r.store.ends? other <|>
      if relationshipName types name r.names = other then some (left,
          right) else none) := by
  have hends := ends?_of_matchRelationship hr h other
  dsimp only at hends
  rw [endDeclarations_of_plain hleft] at hends
  dsimp only at hends
  rw [endDeclarations_of_plain hright] at hends
  exact hends

/-- An edge to an anonymous node. -/
theorem ends?_of_openEdge {r s : Registry} {left : String}
    {types : LabelArgument} {name : Option String}
    {direction : Option Direction} {optional : Bool} {answer : StoreAnswer}
    (hr : r.store.Indexed) (hleft : Plain left)
    (h : exec (StoreCall.matchRelationship (some left) none types name
      direction optional).perform r =
      (.ok answer, s)) :
    let own := relationshipName types name r.names.draw.2
    s.store.ends? own =
      some ((r.store.ends? own).getD (left, r.names.draw.1)) := by
  intro own
  have hends := ends?_of_matchRelationship hr h own
  dsimp only at hends
  rw [endDeclarations_of_plain hleft, endDeclarations_none] at hends
  dsimp only at hends
  rw [if_pos rfl, Option.orElse_eq_orElse, Option.orElse_eq_or,
    Option.or_some] at hends
  exact hends

/-- Later calls leave the ends of a relationship alone. -/
theorem ends?_of_afterCalls {s t : Registry} {name : String}
    {ends : String × String} {calls : List (StoreCall Assignment)}
    (ht : t.store.Indexed) (hends : t.store.ends? name = some ends)
    (h : t.afterCalls calls = (.ok (), s)) :
    s.store.ends? name = some ends := by
  have htraced := (Traced.refl (r := t)).afterCalls calls
  rw [h] at htraced
  exact htraced.ends? ht hends

/-- The edges behind the first one of a fan.  The edge is declared by the
first call, or by a later one that finds its name untouched. -/
theorem ends?_of_branchCalls {r s : Registry} {left base right : String}
    {types : LabelArgument} {direction : Option Direction} {optional : Bool}
    {i k : Nat} {rights : List String} (hr : r.store.Indexed)
    (hleft : Plain left) (hrights : ∀ right ∈ rights, Plain right)
    (hbase : Plain base) (hright : rights[k]? = some right)
    (h : r.afterCalls (branchCalls left base types direction optional
      (i + 1) rights) = (.ok (), s)) :
    s.store.ends? (fanName base (i + 1 + k)) =
      some
        ((r.store.ends? (fanName base (i + 1 + k))).getD (left, right)) := by
  induction rights generalizing i k r with
  | nil => cases hright
  | cons first rest ih =>
    obtain ⟨answer, t, hcall, hrest⟩ := Registry.afterCalls_cons_eq_ok h
    have ht : t.store.Indexed := (Traced.of_perform hcall).indexed hr
    have hname : relationshipName types (some (base ++ toString (i + 1)))
        r.names =
        fanName base (i + 1) := relationshipName_of_plain
          (plain_fanName hbase (i + 1)) types r.names
    have hedge := ends?_of_edge (fanName base (i + 1 + k)) hr hleft
      (hrights first List.mem_cons_self) hcall
    rw [hname] at hedge
    cases k with
    | zero =>
      obtain rfl := Option.some.inj hright
      rw [if_pos rfl, Option.orElse_eq_orElse, Option.orElse_eq_or,
        Option.or_some] at hedge
      exact ends?_of_afterCalls ht hedge hrest
    | succ k =>
      have hne : fanName base (i + 1) ≠ fanName base (i + 1 + (k + 1)) := by
        intro heq
        have hsame := fanName_injective base heq
        omega
      rw [if_neg hne] at hedge
      have hothers : ∀ right ∈ rest, Plain right :=
        fun right hmem => hrights right (List.mem_cons_of_mem first hmem)
      have hlater := @ih t (i + 1) k ht hothers hright hrest
      have hnumber : i + 1 + 1 + k = i + 1 + (k + 1) := by omega
      rw [hnumber, hedge] at hlater
      simpa using hlater

/-- The first edge of a fan is answered with the base of the names of the
others. -/
theorem name_of_answer {r s : Registry} {left right : String}
    {types : LabelArgument} {name : Option String}
    {direction : Option Direction} {optional : Bool} {answer : StoreAnswer}
    (hr : r.store.Indexed) (hleft : Plain left) (hright : Plain right)
    (h : exec (StoreCall.matchRelationship (some left)
      (some right) types name direction
      optional).perform r = (.ok answer, s)) :
    answer.name = relationshipName types name r.names := by
  rw [StoreCall.perform] at h
  obtain ⟨e, t, hrelationship, hanswer⟩ := exec_bind_eq_ok.mp h
  cases hanswer
  have hname := Registration.name?_of_relationship hr hrelationship
  rw [endDeclarations_of_plain hleft] at hname
  dsimp only at hname
  rw [endDeclarations_of_plain hright] at hname
  dsimp only at hname
  rw [StoreAnswer.name, hname, Option.getD_some]

/-- **What an ascent registers.**  Each edge has its own ends, unless its
name was taken. -/
theorem ends?_of_ascentCalls {w : Walk} {s : Registry} {left : String}
    {types : LabelArgument} {name : Option String}
    {direction : Option Direction} {optional : Bool} {children : List String}
    (hw : w.registry.store.Indexed) (hleft : Plain left)
    (hchildren : ∀ child ∈ children, Plain child)
    (hbase : 1 < children.length →
      Plain (relationshipName types name w.registry.names))
    (h : w.registry.afterCalls
      (w.ascentCalls left types name direction optional children) =
      (.ok (), s)) :
    ∀ edge ∈ fan left types name w.registry.names children,
      s.store.ends? edge.name =
        some ((w.registry.store.ends? edge.name).getD (edge.left,
          edge.right)) := by
  intro edge hedge
  cases children with
  | nil =>
    rw [List.mem_singleton.mp hedge]
    obtain ⟨answer, t, hcall, hrest⟩ := Registry.afterCalls_cons_eq_ok h
    cases hrest
    have hends := ends?_of_openEdge hw hleft hcall
    dsimp only at hends ⊢
    exact hends
  | cons first rest =>
    rw [Walk.ascentCalls] at h
    obtain ⟨answer, t, hcall, hrest⟩ := Registry.afterCalls_cons_eq_ok h
    have ht : t.store.Indexed := (Traced.of_perform hcall).indexed hw
    have hfirst : Plain first := hchildren first List.mem_cons_self
    have hname : answer.name = relationshipName types name w.registry.names :=
      name_of_answer hw hleft hfirst hcall
    rw [hcall] at hrest
    dsimp only at hrest
    rw [hname] at hrest
    obtain ⟨k, hk, rfl⟩ := List.mem_mapIdx.mp hedge
    dsimp only
    have hfan := ends?_of_edge
      (fanName (relationshipName types name w.registry.names) k) hw hleft
      hfirst hcall
    cases k with
    | zero =>
      rw [fanName, if_pos rfl, Option.orElse_eq_orElse, Option.orElse_eq_or,
        Option.or_some] at hfan
      exact ends?_of_afterCalls ht hfan hrest
    | succ k =>
      have hmany : 1 < (first :: rest).length := by omega
      have hne : relationshipName types name w.registry.names ≠
          fanName (relationshipName types name w.registry.names) (k + 1) := by
        intro heq
        have hsame := @fanName_injective _ 0 (k + 1) heq
        omega
      rw [if_neg hne] at hfan
      have hlater := ends?_of_branchCalls ht hleft
        (fun right hmem => hchildren right (List.mem_cons_of_mem first hmem))
          (hbase hmany)
        (List.getElem?_eq_getElem (Nat.lt_of_succ_lt_succ hk)) hrest
      have hnumber : 0 + 1 + k = k + 1 := by omega
      rw [hnumber, hfan] at hlater
      simpa using hlater

/-- Edges whose ends have no colon in their names, and neither have the
names they are numbered by. -/
def Clear (edges : List Edge) : Prop :=
  ∀ edge ∈ edges, ':' ∉ edge.left.toList ∧ ':' ∉ edge.right.toList ∧
    (1 < edges.length → ':' ∉ edge.name.toList)

instance (edges : List Edge) : Decidable (Clear edges) := by
  unfold Clear
  infer_instance

namespace Walk

variable {w v : Walk} {c origin : ContextId} {context : Context}
    {types : LabelArgument}
variable {name : Option String} {direction : Option Direction} {left : String}

/-- Ascending from a relationship asks for its edges. -/
theorem calls_ascend (hcontext : w.contexts[c]? = some context)
    (hplace : context.place = .relationship origin types name direction)
    (hleft : w.nodeName? origin = some left) :
    WalkStep.calls w c .ascend =
      w.ascentCalls left types name direction context.optional
        context.children := by
  obtain ⟨source, hsource, hnode⟩ := Option.bind_eq_some_iff.mp hleft
  unfold WalkStep.calls
  rw [hcontext]
  dsimp only
  rw [hplace]
  dsimp only
  rw [hsource]
  dsimp only
  rw [Context.name?_of_nodeName? hnode, Option.getD_some]

/-- The names of the edges of a fan are numbered after a plain one. -/
theorem Sound.plain_base {children : List String} (h : w.Sound)
    (hclear : Clear (fan left types name w.registry.names children))
    (hmany : 1 < children.length) :
    Plain (relationshipName types name w.registry.names) := by
  have hne : children ≠ [] :=
    List.ne_nil_of_length_pos (Nat.zero_lt_of_lt hmany)
  have hlength := length_fan left types name w.registry.names hne
  have hfirst := List.getElem?_eq_getElem (Nat.zero_lt_of_lt hmany)
  have hcolon :=
    (hclear _ (edge_mem_fan left types name w.registry.names hfirst)).2.2
    (hlength ▸ hmany)
  dsimp only [fanName] at hcolon
  have hproper : Proper (relationshipName types name w.registry.names) := by
    rw [relationshipName]
    exact proper_decode _ _ _ h.stem
  exact ⟨hproper, hcolon⟩

/-- **A walk keeps the edges whose names are free.**  A walk is begun and
goes on, each step from any of its contexts; at some time it ascends from a
relationship, and then it goes on again.  In the end there is a relationship
of the name of every edge of this ascent.  It has the ends of the edge, from
the node the relationship was opened from to the node collected, unless a
relationship of that name was there before the ascent: then it still has the
ends of that one, and the edge is lost. -/
theorem ascent_keeps_edges {here : Option Position}
    {opening : WalkStep Assignment} {root : ContextId} {start : Walk}
    {before later : List Leg} (hopening : opening.starting?.isSome = true)
    (hstart : Position.step here opening = (.ok (), some ⟨start, root⟩))
    (hbefore : start.along before = .ok w)
    (hlater : w.along (⟨c, .ascend⟩ :: later) = .ok v)
    (hcontext : w.contexts[c]? = some context)
    (hplace : context.place = .relationship origin types name direction) :
    ∃ left, w.nodeName? origin = some left ∧
      let edges := fan left types name w.registry.names context.children
      Clear edges → ∀ edge ∈ edges,
        v.registry.store.ends? edge.name =
          some ((w.registry.store.ends? edge.name).getD (edge.left,
            edge.right)) := by
  have hsound : w.Sound := (sound_of_starting hopening hstart).along hbefore
  have hfit := hsound.fit c context hcontext
  obtain ⟨left, hleft⟩ := hfit.origin origin types name direction hplace
  refine ⟨left, hleft, ?_⟩
  intro edges hclear edge hedge
  obtain ⟨there, u, hmove, hrest⟩ := along_cons_eq_ok hlater
  have hcalls := afterCalls_of_move hmove
  rw [calls_ascend hcontext hplace hleft] at hcalls
  have hplain : Plain left :=
    ⟨hsound.proper_of_nodeName? hleft,
      left_of_mem_fan hedge ▸ (hclear edge hedge).1⟩
  have hchildren : ∀ child ∈ context.children, Plain child := by
    intro child hchild
    obtain ⟨k, hk⟩ := List.mem_iff_getElem?.mp hchild
    exact ⟨hfit.children child hchild,
      (hclear _ (edge_mem_fan left types name _ hk)).2.1⟩
  have hends := ends?_of_ascentCalls hsound.indexed hplain hchildren
    (hsound.plain_base hclear) hcalls edge hedge
  exact (hsound.move hmove).ends?_along hrest hends

end Walk

deriving instance DecidableEq for Place

/-- The walk that legs lead to. -/
def Walk.reached (w : Walk) (legs : List Leg) :
    Walk := (w.along legs).toOption.getD default

/-- Legs that can be walked lead where they do. -/
theorem Walk.along_eq_ok {w : Walk} {legs : List Leg}
    (h : (w.along legs).isOk = true) :
    w.along legs = .ok (w.reached legs) := by
  rw [reached]
  cases hlegs : w.along legs with
  | error fault =>
    rw [hlegs] at h
    cases h
  | ok v => rfl

/-- A step that ends well somewhere ends there. -/
theorem Position.step_eq_ok {here : Option Position}
    {step : WalkStep Assignment}
    (hok : (Position.step here step).1.isOk = true)
    (hsome : (Position.step here step).2.isSome = true) :
    Position.step here step =
      (.ok (), some ((Position.step here step).2.getD default)) := by
  obtain ⟨there, hthere⟩ := Option.isSome_iff_exists.mp hsome
  rw [hthere]
  cases houtcome : (Position.step here step).1 with
  | error fault =>
    rw [houtcome] at hok
    cases hok
  | ok => exact Prod.ext houtcome hthere

/-- A walk begun at a person. -/
def person : Position :=
  (Position.step none (.startAtNode (.one "Person") (some "p") false)).2.getD
    default

/-- The person knows two others. -/
def acquainted : List Leg :=
  [⟨0, .addRelationship (.one "KNOWS") none none false⟩,
    ⟨1, .addChildNode (.one "Person") (some "a") false⟩,
    ⟨1, .addChildNode (.one "Person") (some "b") false⟩]

/-- And one of them likes somebody. -/
def liking : List Leg :=
  [⟨2, .addRelationship (.one "LIKES") none none false⟩, ⟨4, .ascend⟩]

/-- A fan keeps both of its edges, also when one of the nodes likes somebody
afterwards. -/
theorem Walk.ascent_keeps_edges_of_acquainted :
    let w := person.walk.reached acquainted
    let v := w.reached (⟨1, .ascend⟩ :: liking)
    v.registry.store.ends? "knows" = some ("p", "a") ∧
      v.registry.store.ends? "knows1" = some ("p", "b") := by
  intro w v
  have hstart :
      Position.step none (.startAtNode (.one "Person") (some "p") false) =
      (.ok (), some ⟨person.walk, person.context⟩) :=
    Position.step_eq_ok (by decide +kernel) (by decide +kernel)
  have hw : person.walk.along acquainted = .ok w :=
    along_eq_ok (by decide +kernel)
  have hv : w.along (⟨1, .ascend⟩ :: liking) = .ok v :=
    along_eq_ok (by decide +kernel)
  obtain ⟨context, hcontext⟩ : ∃ context, w.contexts[1]? = some context :=
    Option.isSome_iff_exists.mp (by decide +kernel)
  have hplace : w.contexts[1]?.map Context.place =
      some (.relationship 0 (.one "KNOWS") none none) := by decide +kernel
  have hchildren : w.contexts[1]?.map Context.children =
      some ["a", "b"] := by decide +kernel
  rw [hcontext] at hplace hchildren
  obtain ⟨left, hleft, hedges⟩ := ascent_keeps_edges rfl hstart hw hv hcontext
    (Option.some.inj hplace)
  have hperson : w.nodeName? 0 = some "p" := by decide +kernel
  obtain rfl : "p" = left := Option.some.inj (hperson.symm.trans hleft)
  rw [Option.some.inj hchildren] at hedges
  have hkept := hedges (by decide +kernel)
  constructor
  · have hfirst := hkept ⟨"knows", "p", "a"⟩ (by decide +kernel)
    have hfree : w.registry.store.ends? "knows" = none := by decide +kernel
    rw [hfirst, hfree]
    rfl
  · have hsecond := hkept ⟨"knows1", "p", "b"⟩ (by decide +kernel)
    have hfree : w.registry.store.ends? "knows1" = none := by decide +kernel
    rw [hsecond, hfree]
    rfl

/-- The person knows somebody who knows somebody.  Both relationships go by
the name of their type; the one further down is registered first, and the
edge from the person is lost. -/
example :
    let v := person.walk.reached
      [⟨0, .addRelationship (.one "KNOWS") none none false⟩,
        ⟨1, .addChildNode (.one "Person") (some "a") false⟩,
        ⟨2, .addRelationship (.one "KNOWS") none none false⟩,
        ⟨3, .addChildNode (.one "Person") (some "b") false⟩, ⟨3, .ascend⟩,
        ⟨1, .ascend⟩]
    v.contexts.size = 5 ∧ v.registry.store.ends? "knows" = some ("a", "b") ∧
      v.registry.store.entries.filterMap (fun entry => entry.element.ends?) =
        [("a", "b")] := by
  decide +kernel

end GraphQuery.Pattern
