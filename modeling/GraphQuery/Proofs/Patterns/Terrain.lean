import GraphQuery.Proofs.Patterns.Edges
import GraphQuery.Proofs.Patterns.Shelf

/-!
# Anonymous names

Several stores, and walks over them, draw their anonymous names from one
sequence.  The sequence does not look at the names in use.  It never gives a
name twice, but a name that was spelled before it is drawn, as an argument,
by a label or by the number of an edge, may be in use already:
`Terrain.drawn_name_is_new` says that a drawn name is not new for no other
reason.
-/

namespace GraphQuery.Pattern

open GraphQuery.Computation

/-- The contexts of a walk over one of several stores. -/
structure Tree where
  store : Nat
  contexts : Array Context := #[]
  deriving Inhabited

/-- Stores that draw their anonymous names from one sequence, and walks over
them. -/
structure Terrain extends Shelf where
  trees : Array Tree := #[]
  log : List LogEvent := []
  deriving Inhabited

/-- The names in use: those of all elements in the stores and of the ends of
all relationships. -/
def Shelf.mentions (s : Shelf) : List String :=
  s.stores.toList.flatMap Store.mentions

/-- Different numbers make different names. -/
theorem NameSequence.numbered_injective (names : NameSequence) :
    Function.Injective names.numbered := by
  intro j k h
  exact Nat.repr_injective ((String.append_right_inj names.stem).mp h)

/-- A larger number has at least as many digits. -/
theorem length_repr_mono {j k : Nat} (h : j ≤ k) :
    j.repr.length ≤ k.repr.length :=
  (Nat.length_repr_le_iff Nat.length_repr_pos).mpr
    (h.trans_lt ((Nat.length_repr_le_iff Nat.length_repr_pos).mp le_rfl))

/-- The further edges of a fan under an anonymous name get later anonymous
names, not earlier ones. -/
theorem fanName_numbered_ne (names : NameSequence) {j k : Nat} (h : j < k)
    (i : Nat) :
    fanName (names.numbered k) (i + 1) ≠ names.numbered j := by
  intro heq
  have happend : names.stem ++ (k.repr ++ (i + 1).repr) = names.stem ++
      j.repr := by
    rw [← String.append_assoc]
    exact heq
  have hdigits :=
    congrArg String.length ((String.append_right_inj names.stem).mp happend)
  rw [String.length_append] at hdigits
  have hshorter := length_repr_mono h.le
  have hpos : 0 < (i + 1).repr.length := Nat.length_repr_pos
  omega

namespace Terrain

/-- What is done on a terrain: a store is added, a call of one of the stores
is made, a walk over one of the stores is begun, or a step of one of the
walks is taken, from any of its contexts. -/
inductive Step where
  | fork
  | call (store : Nat) (made : StoreCall Assignment)
  | start (store : Nat) (opening : WalkStep Assignment)
  | move (tree : Nat) (leg : Leg)
  deriving Inhabited

/-- What the calls of a store start from. -/
def registry (t : Terrain) (i : Nat) : Registry :=
  { store := t.store i, names := t.names, log := t.log }

/-- The terrain with what calls of a store have led to. -/
def put (t : Terrain) (i : Nat) (r : Registry) : Terrain :=
  { t with stores := t.stores.setIfInBounds i r.store, names :=
    r.names, log := r.log }

/-- A walk on the terrain. -/
def walk (t : Terrain) (tree : Tree) : Walk :=
  { contexts := tree.contexts, registry := t.registry tree.store }

/-- Take a step.  What is done before a failure stays done; a walk that
cannot be begun is none. -/
def step (t : Terrain) : Step → Terrain
  | .fork => { t with toShelf := t.toShelf.fork.2 }
  | .call i made => t.put i (exec made.perform (t.registry i)).2
  | .start i opening =>
    match opening.starting? with
    | none => t
    | some starting =>
      match exec starting (t.walk { store := i }) with
      | (.ok _, w) =>
        { t.put i w.registry with
          trees := t.trees.push { store := i, contexts := w.contexts } }
      | (.error _, w) => t.put i w.registry
  | .move k leg =>
    match t.trees[k]? with
    | none => t
    | some tree =>
      let w := (exec (leg.step.move leg.source) (t.walk tree)).2
      { t.put tree.store w.registry with
        trees :=
  t.trees.setIfInBounds k { tree with contexts := w.contexts } }

/-- The terrain a run leads to. -/
def after (t : Terrain) (steps : List Step) : Terrain := steps.foldl step t

/-- The store a step calls, and its calls. -/
def calls (t : Terrain) : Step → Option (Nat × List (StoreCall Assignment))
  | .fork => none
  | .call i made => some (i, [made])
  | .start i opening => some (i, opening.openingCalls)
  | .move k leg => t.trees[k]?.map fun tree =>
    (tree.store, leg.step.calls (t.walk tree) leg.source)

/-- The names a step gives, each with the terrain at that moment. -/
def namings (t : Terrain) (step : Step) : List (Naming Terrain) :=
  match t.calls step with
  | none => []
  | some (i, calls) =>
    ((t.registry i).namings calls).map (Naming.map (t.put i))

/-- The names a run gives, in order. -/
def allNamings (t : Terrain) : List Step → List (Naming Terrain)
  | [] => []
  | step :: later => t.namings step ++ (t.step step).allNamings later

/-- The names in use were all given before, and those of them that were
drawn are the anonymous names up to the next one. -/
structure Accounts (first : NameSequence) (past : List (Naming Terrain))
    (s : Shelf) : Prop where
  indexed : ∀ i, (s.store i).Indexed
  given : ∀ name ∈ s.mentions, ∃ naming ∈ past, naming.name = name
  names : s.names =
    { first with drawn := first.drawn + past.countP Naming.drawn }
  drawn : (past.filter Naming.drawn).map Naming.name =
    (List.range' first.drawn (past.countP Naming.drawn)).map first.numbered

variable {t : Terrain} {r : Registry} {first : NameSequence}
    {past : List (Naming Terrain)}

/-- A registry that is put somewhere changes the store there only. -/
theorem store_put (t : Terrain) (i j : Nat) (r : Registry) :
    (t.put i r).store j = r.store ∨ (t.put i r).store j = t.store j := by
  unfold put Shelf.store
  rw [Array.getElem?_setIfInBounds]
  split
  · split
    · exact .inl rfl
    · rw [Array.getElem?_eq_none (by omega)]
      exact .inr rfl
  · exact .inr rfl

/-- What a store mentions, the shelf mentions. -/
theorem mentions_of_store {s : Shelf} {i : Nat} {name : String}
    (h : name ∈ (s.store i).mentions) :
    name ∈ s.mentions := by
  unfold Shelf.store at h
  cases hstore : s.stores[i]? with
  | none =>
    rw [hstore] at h
    cases h
  | some store =>
    rw [hstore] at h
    exact List.mem_flatMap.mpr ⟨store, (Array.mem_of_getElem? hstore).val, h⟩

/-- A registry that is put mentions no more than it does. -/
theorem mentions_put {i : Nat} {name : String}
    (h : name ∈ (t.put i r).mentions) :
    name ∈ t.mentions ∨ name ∈ r.store.mentions := by
  obtain ⟨store, hstore, hname⟩ := List.mem_flatMap.mp h
  rcases Array.mem_or_eq_of_mem_setIfInBounds
      (Array.mem_toList_iff.mp hstore) with hold | rfl
  · exact .inl (List.mem_flatMap.mpr ⟨store, Array.mem_toList_iff.mpr hold,
      hname⟩)
  · exact .inr hname

/-- As many names are drawn, whatever is noted beside them. -/
theorem countP_drawn_map (f : Registry → Terrain)
    (given : List (Naming Registry)) :
    (given.map (Naming.map f)).countP Naming.drawn =
      given.countP Naming.drawn := List.countP_map

/-- What has happened to one store is accounted for with what happened
before. -/
theorem Accounts.traced (h : Accounts first past t.toShelf) {i : Nat}
    {given : List (Naming Registry)}
    (htraced : Traced (t.registry i) given r) :
    Accounts first (past ++ given.map (Naming.map (t.put i)))
    (t.put i r).toShelf where
  indexed j := by
    rcases store_put t i j r with hstore | hstore
    · rw [hstore]
      exact htraced.indexed (h.indexed i)
    · rw [hstore]
      exact h.indexed j
  given name hname := by
    have hbefore : name ∈ t.mentions →
        ∃ naming ∈ past ++ given.map (Naming.map (t.put i)),
          naming.name = name := by
      intro hmention
      obtain ⟨naming, hnaming, heq⟩ := h.given name hmention
      exact ⟨naming, List.mem_append_left _ hnaming, heq⟩
    rcases mentions_put hname with hold | hnew
    · exact hbefore hold
    · rcases htraced.mentions hnew with hthere | ⟨naming, hnaming, heq⟩
      · exact hbefore (mentions_of_store hthere)
      · exact ⟨naming.map (t.put i),
          List.mem_append_right _ (List.mem_map_of_mem hnaming), heq⟩
  names := by
    have hnames : r.names = { t.names with
        drawn := t.names.drawn + given.countP Naming.drawn } :=
      htraced.names_eq
    rw [List.countP_append, countP_drawn_map, ← Nat.add_assoc]
    exact hnames.trans (by rw [h.names])
  drawn := by
    have hdrawn : ((given.map (Naming.map (t.put i))).filter
        Naming.drawn).map Naming.name =
        (List.range' t.names.drawn (given.countP Naming.drawn)).map
          t.names.numbered := by
      rw [List.filter_map, List.map_map]
      exact htraced.drawn_names
    have hnumbered : t.names.numbered = first.numbered := by
      rw [h.names]
      rfl
    have hfirst : t.names.drawn = first.drawn +
        past.countP Naming.drawn := by rw [h.names]
    rw [List.filter_append, List.map_append, h.drawn, hdrawn, hnumbered,
      hfirst, ← List.map_append,
      List.countP_append, countP_drawn_map, List.range'_append_1]

/-! ## Steps -/

/-- A registry put where it is changes nothing. -/
theorem put_registry (t : Terrain) (i : Nat) :
    (t.put i (t.registry i)).toShelf = t.toShelf := by
  have hstores : t.stores.setIfInBounds i (t.store i) = t.stores := by
    apply Array.ext_getElem?
    intro j
    rw [Array.getElem?_setIfInBounds]
    split
    · next hij =>
      subst hij
      split
      · next hi =>
        unfold Shelf.store
        rw [Array.getElem?_eq_getElem hi]
        rfl
      · next hi => rw [Array.getElem?_eq_none (by omega)]
    · rfl
  unfold put registry
  dsimp only
  rw [hstores]

/-- A step that starts no walk asks for nothing as a start. -/
theorem openingCalls_of_not_starting {opening : WalkStep Assignment}
    (h : opening.starting? = none) : opening.openingCalls = [] := by
  cases opening with
  | start | startAtNode | startOnRelationship => cases h
  | addChildNode | addRelationship | ascend | store | unknown => rfl

/-- A step of a terrain makes its calls. -/
theorem step_of_calls {step : Step} {i : Nat}
    {calls : List (StoreCall Assignment)}
    (h : t.calls step = some (i, calls)) :
    (t.step step).toShelf = (t.put
      i ((t.registry i).afterCalls calls).2).toShelf := by
  cases step with
  | fork => cases h
  | call j made =>
    cases h
    rw [Terrain.step, Registry.afterCalls]
    rcases exec made.perform (t.registry i) with ⟨fault | answer, r⟩ <;> rfl
  | start j opening =>
    cases h
    rw [Terrain.step]
    cases hstarting : opening.starting? with
    | none => rw [openingCalls_of_not_starting hstarting,
        Registry.afterCalls, put_registry]
    | some starting =>
      have hasks :=
        Walking.asks_opening (w := t.walk { store := i }) hstarting
      have hregistry : (t.walk { store := i }).registry = t.registry i := rfl
      rw [← hregistry, ← hasks.registry]
      dsimp only
      rcases exec starting (t.walk { store := i }) with ⟨fault | root, w⟩ <;>
          rfl
  | move k leg =>
    rw [Terrain.calls] at h
    obtain ⟨tree, htree, heq⟩ := Option.map_eq_some_iff.mp h
    cases heq
    have hasks := Walking.asks_move (w := t.walk tree) leg.source leg.step
    have hregistry : (t.walk tree).registry = t.registry tree.store := rfl
    rw [Terrain.step, htree, ← hregistry, ← hasks.registry]

/-- A step without calls leaves the shelf as it is, or forks it. -/
theorem step_of_no_calls {step : Step} (h : t.calls step = none) :
    (t.step step).toShelf = t.toShelf ∨
      (t.step step).toShelf = t.toShelf.fork.2 := by
  cases step with
  | fork => exact .inr rfl
  | call | start => cases h
  | move k leg =>
    rw [Terrain.calls] at h
    rw [Terrain.step, Option.map_eq_none_iff.mp h]
    exact .inl rfl

/-- Forking leaves all accounted for. -/
theorem Accounts.fork {s : Shelf} (h : Accounts first past s) :
    Accounts first past s.fork.2 where
  indexed i := by
    have hstore := Shelf.store_fork s i
    rw [Shelf.step] at hstore
    rw [hstore]
    exact h.indexed i
  given name hname := by
    have hmentions : s.fork.2.mentions = s.mentions := by
      unfold Shelf.mentions Shelf.fork
      rw [Array.toList_push, List.flatMap_append, List.flatMap_singleton]
      exact List.append_nil _
    rw [hmentions] at hname
    exact h.given name hname
  names := h.names
  drawn := h.drawn

/-- A step leaves all accounted for, with its own namings. -/
theorem Accounts.step (h : Accounts first past t.toShelf) (step : Step) :
    Accounts first (past ++ t.namings step) (t.step step).toShelf := by
  unfold namings
  cases hcalls : t.calls step with
  | none =>
    rw [List.append_nil]
    rcases step_of_no_calls hcalls with hstep | hstep
    · rwa [hstep]
    · rw [hstep]
      exact h.fork
  | some called =>
    obtain ⟨i, calls⟩ := called
    rw [step_of_calls hcalls]
    exact h.traced (Traced.refl.afterCalls calls)

/-- **Along every run the names in use are accounted for.** -/
theorem Accounts.after (h : Accounts first past t.toShelf)
    (steps : List Step) :
    Accounts first (past ++ t.allNamings steps) (t.after steps).toShelf := by
  induction steps generalizing t past with
  | nil =>
    rw [allNamings, List.append_nil]
    exact h
  | cons step later ih =>
    rw [allNamings, ← List.append_assoc]
    exact ih (h.step step)

/-- At first there is nothing to account for. -/
theorem accounts_start (names : NameSequence) :
    Accounts names [] ({ names } : Terrain).toShelf where
  indexed i := by
    rw [Shelf.store_new]
    exact Store.indexed_empty
  given _ hname := by
    have hnone : ({ names } : Terrain).toShelf.mentions = [] := rfl
    rw [hnone] at hname
    cases hname
  names := rfl
  drawn := rfl

/-! ## At the moment of a naming -/

/-- What a naming finds after those before it: the names in use are
accounted for, a name that is drawn is the next one, and an element under a
name not given before is an element of its own. -/
structure Placed (first : NameSequence) (before : List (Naming Terrain))
    (naming : Naming Terrain) :
    Prop where
  accounts : Accounts first before naming.moment.toShelf
  drawn : naming.drawn = true →
    naming.name = first.numbered (first.drawn + before.countP Naming.drawn)
  new : (∀ earlier ∈ before, earlier.name ≠ naming.name) →
  ∀ answer, naming.answer = some answer →
    ∃ e, answer = .ok (.element e) ∧ e.name? = some naming.name

/-- Every naming of a step finds all before it accounted for.  Where nothing
in the store of the call has the name the element is new, whether the store
is one of those there or not. -/
theorem Accounts.placed (h : Accounts first past t.toShelf) {step : Step}
    {before later : List (Naming Terrain)} {naming : Naming Terrain}
    (hnamings : t.namings step = before ++ naming :: later) :
    Placed first (past ++ before) naming := by
  unfold namings at hnamings
  cases hcalls : t.calls step with
  | none =>
    rw [hcalls] at hnamings
    exact absurd hnamings (by simp)
  | some called =>
    obtain ⟨i, calls⟩ := called
    rw [hcalls] at hnamings
    obtain ⟨earlier, rest, hsplit, rfl, hrest⟩ :=
      List.map_eq_append_iff.mp hnamings
    obtain ⟨given, others, rfl, rfl, -⟩ := List.map_eq_cons_iff.mp hrest
    have htraced := Traced.refl.afterCalls (r := t.registry i) calls
    rw [List.nil_append, hsplit] at htraced
    obtain ⟨hmoment, hname⟩ := htraced.at_moment
    have haccounts := h.traced hmoment
    refine ⟨haccounts, fun hdrawn => ?_, fun hunused answer hanswer => ?_⟩
    · have hnext : given.name = given.moment.names.draw.1 := hname hdrawn
      have hnames : given.moment.names = { first with
        drawn := first.drawn +
          (past ++ earlier.map (Naming.map (t.put i))).countP
            Naming.drawn } := haccounts.names
      rw [hnames] at hnext
      exact hnext
    · obtain ⟨call, s, hcall⟩ :=
        Registry.exists_of_mem_namings (hsplit ▸ List.mem_append_right earlier
        List.mem_cons_self)
      have hstore : given.name ∉ given.moment.store.mentions := by
        intro hmention
        rcases hmoment.mentions hmention with hthere | ⟨other, hother, heq⟩
        · obtain ⟨other, hother, heq⟩ := h.given _ (mentions_of_store hthere)
          exact hunused other (List.mem_append_left _ hother) heq
        · exact hunused (other.map (t.put i))
            (List.mem_append_right _ (List.mem_map_of_mem hother)) heq
      exact StoreCall.answer_of_unused hcall hanswer
        ((hmoment.indexed (h.indexed i)).find?_eq_none_of_not_mem hstore)

/-- Every naming of a run finds all before it accounted for, be it of the
first step or of a later one. -/
theorem Accounts.placed_of_run (h : Accounts first past t.toShelf)
    {steps : List Step} {before later : List (Naming Terrain)}
    {naming : Naming Terrain}
    (hrun : t.allNamings steps = before ++ naming :: later) :
    Placed first (past ++ before) naming := by
  induction steps generalizing t past before with
  | nil => exact absurd hrun (by simp [allNamings])
  | cons step rest ih =>
    rw [allNamings] at hrun
    rcases List.append_eq_append_iff.mp hrun with ⟨earlier, rfl, hrest⟩ |
        ⟨middle, hstep, hmiddle⟩
    · rw [← List.append_assoc]
      exact ih (h.step step) hrest
    · cases middle with
      | nil =>
        rw [List.append_nil] at hstep
        have hrest : (t.step step).allNamings rest = [] ++ naming :: later :=
          hmiddle.symm
        have hplaced := ih (h.step step) hrest
        rwa [List.append_nil, hstep] at hplaced
      | cons other others =>
        obtain ⟨rfl, -⟩ := List.cons.inj hmiddle
        exact h.placed hstep

/-! ## The names drawn -/

/-- A name that was drawn has one of the numbers so far. -/
theorem Accounts.numbered_of_drawn {s : Shelf} (h : Accounts first past s)
    {naming : Naming Terrain} (hnaming : naming ∈ past)
    (hdrawn : naming.drawn = true) :
    ∃ k < first.drawn + past.countP Naming.drawn,
      naming.name = first.numbered k := by
  have hmem : naming.name ∈ (past.filter Naming.drawn).map Naming.name :=
    List.mem_map_of_mem (List.mem_filter.mpr ⟨hnaming, hdrawn⟩)
  rw [h.drawn] at hmem
  obtain ⟨k, hk, heq⟩ := List.mem_map.mp hmem
  exact ⟨k, (List.mem_range'_1.mp hk).2, heq.symm⟩

/-- Two names that are drawn differ. -/
theorem Placed.ne_of_drawn {before : List (Naming Terrain)}
    {naming other : Naming Terrain} (h : Placed first before naming)
    (hdrawn : naming.drawn = true) (hother : other ∈ before)
    (hotherDrawn : other.drawn = true) : other.name ≠ naming.name := by
  obtain ⟨k, hk, hname⟩ := h.accounts.numbered_of_drawn hother hotherDrawn
  rw [hname, h.drawn hdrawn]
  intro heq
  have hsame := first.numbered_injective heq
  omega

/-- No edge of the fan under a name that is drawn takes up a name drawn so
far. -/
theorem Placed.fanName_ne_of_drawn {before : List (Naming Terrain)}
    {naming other : Naming Terrain} (h : Placed first before naming)
    (hdrawn : naming.drawn = true) (hother : other ∈ before)
    (hotherDrawn : other.drawn = true) (k : Nat) :
    fanName naming.name (k + 1) ≠ other.name := by
  obtain ⟨j, hj, hname⟩ := h.accounts.numbered_of_drawn hother hotherDrawn
  rw [hname, h.drawn hdrawn]
  exact fanName_numbered_ne first hj k

/-- **An anonymous name is new unless it was spelled before.**  It is not
drawn a second time, and the fan of a relationship that draws its name at
this moment or later does not take it up.  If no argument, no label and no
edge of a fan has spelled the name before, then it is not in use when it is
drawn, and the element declared under it is a new one, whose declaration
succeeds.  A later naming finds this one among those before it. -/
theorem drawn_name_is_new (names : NameSequence) (steps : List Step)
    {before later : List (Naming Terrain)} {naming : Naming Terrain}
    (hrun : ({ names } : Terrain).allNamings steps = before ++ naming ::
      later) (hdrawn : naming.drawn = true) :
    (∀ other ∈ before ++ later, other.drawn = true →
      other.name ≠ naming.name) ∧
      (∀ other ∈ naming :: later, other.drawn = true →
        ∀ k, fanName other.name (k + 1) ≠ naming.name) ∧
      ((∀ other ∈ before, other.drawn = false → other.name ≠ naming.name) →
        naming.name ∉ naming.moment.mentions ∧
          ∀ answer, naming.answer = some answer →
            ∃ e, answer = .ok (.element e) ∧ e.name? = some naming.name) := by
  have hplaced : Placed names before naming :=
    (accounts_start names).placed_of_run hrun
  have hlater : ∀ other ∈ later, ∃ middle,
      Placed names (before ++ naming :: middle) other := by
    intro other hother
    obtain ⟨middle, rest, rfl⟩ := List.append_of_mem hother
    have hthen : ({ names } : Terrain).allNamings steps =
        (before ++ naming :: middle) ++ other :: rest := by
      rw [hrun, List.append_assoc, List.cons_append]
    exact ⟨middle, (accounts_start names).placed_of_run hthen⟩
  have hself : ∀ middle, naming ∈ before ++ naming :: middle :=
    fun _ => List.mem_append_right before List.mem_cons_self
  refine ⟨?_, ?_, ?_⟩
  · intro other hother hotherDrawn
    rcases List.mem_append.mp hother with hearlier | hthen
    · exact hplaced.ne_of_drawn hdrawn hearlier hotherDrawn
    · obtain ⟨middle, hotherPlaced⟩ := hlater other hthen
      exact (hotherPlaced.ne_of_drawn hotherDrawn (hself middle) hdrawn).symm
  · intro other hother hotherDrawn k
    rcases List.mem_cons.mp hother with rfl | hthen
    · exact (ne_append_number other.name (k + 1)).symm
    · obtain ⟨middle, hotherPlaced⟩ := hlater other hthen
      exact hotherPlaced.fanName_ne_of_drawn hotherDrawn (hself middle)
        hdrawn k
  · intro hspelled
    have hnew : ∀ other ∈ before, other.name ≠ naming.name := by
      intro other hother
      cases hkind : other.drawn with
      | false => exact hspelled other hother hkind
      | true => exact hplaced.ne_of_drawn hdrawn hother hkind
    refine ⟨fun hmention => ?_, hplaced.new hnew⟩
    obtain ⟨other, hother, hname⟩ := hplaced.accounts.given _ hmention
    exact hnew other hother hname

/-- A walk from a node without a name or label, over relationships without
one, to two others. -/
def unnamed : List Step :=
  [.start 0 (.startAtNode .none none false),
    .move 0 ⟨0, .addRelationship .none none none false⟩,
    .move 0 ⟨1, .addChildNode (.one "B") none false⟩,
    .move 0 ⟨1, .addChildNode (.one "C") none false⟩,
    .move 0 ⟨1, .ascend⟩]

/-- The second name that is drawn stands for a node of its own. -/
theorem drawn_name_is_new_of_unnamed :
    ∃ naming,
      (({ names := {} } : Terrain).allNamings unnamed)[5]? = some naming ∧
      naming.name = "anon1" ∧ naming.name ∉ naming.moment.mentions ∧
      ∀ answer, naming.answer = some answer →
        ∃ e, answer = .ok (.element e) ∧ e.name? = some naming.name := by
  generalize hrun : ({ names := {} } : Terrain).allNamings unnamed = run
  have hnames : run.map Naming.name =
      ["anon0", "b", "c", "anon0", "b", "anon1", "anon0", "c", "anon11"] := by
    rw [← hrun]
    decide +kernel
  have hkinds : run.map Naming.drawn =
      [true, false, false, false, false, true, false, false, false] := by
    rw [← hrun]
    decide +kernel
  have hfifth : run[5]?.map Naming.name = some "anon1" := by
    rw [← List.getElem?_map, hnames]
    rfl
  have hkind : run[5]?.map Naming.drawn = some true := by
    rw [← List.getElem?_map, hkinds]
    rfl
  obtain ⟨naming, hnaming, hname⟩ := Option.map_eq_some_iff.mp hfifth
  rw [hnaming] at hkind
  obtain ⟨hlength, hget⟩ := List.getElem?_eq_some_iff.mp hnaming
  have hsplit : run = run.take 5 ++ naming :: run.drop 6 := by
    rw [← hget, ← List.drop_eq_getElem_cons hlength, List.take_append_drop]
  obtain ⟨-, -, hnew⟩ :=
    drawn_name_is_new {} unnamed (hrun.trans hsplit) (Option.some.inj hkind)
  refine ⟨naming, hnaming, hname, hnew ?_⟩
  intro other hother _ hsame
  have hbefore : (run.take 5).map Naming.name = ["anon0", "b", "c", "anon0",
      "b"] := by
    rw [List.map_take, hnames]
    rfl
  have hmem := List.mem_map_of_mem (f := Naming.name) hother
  rw [hbefore, hsame, hname] at hmem
  exact absurd hmem (by decide)

/-- Ten more nodes without a name or label: the last one draws the name that
the second edge of the walk has got already, and cannot be declared. -/
example :
    let run := ({ names := {} } : Terrain).allNamings
      (unnamed ++ List.replicate 10
        (.move 0 ⟨0, .addChildNode .none none false⟩))
    (run.drop 18).map (fun naming =>
      (naming.name, naming.answer.map Except.isOk)) =
      [("anon11", some false)] := by
  decide +kernel

end Terrain

end GraphQuery.Pattern
