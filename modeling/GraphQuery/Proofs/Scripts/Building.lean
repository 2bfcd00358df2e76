import GraphQuery.Proofs.Execution
import GraphQuery.Proofs.Scripts.Edits

/-!
# What single steps do to builders

The steps that calls are made of: looking a builder up, binding a value,
registering pattern elements, editing, and making a builder.  Each does only
what is listed, and the facts on what it answers with are those the edits
after it need.
-/

namespace GraphQuery.Building

open Guarantee Workspace

variable {links : BuilderId → BuilderId → Prop} {given : Assignment → Prop}
    {w : Workspace}
  {b : BuilderId}

/-- A step that leaves the builders as they are. -/
theorem touching_aside {α : Type} {f : Workspace → α × Workspace}
    {p : α → Workspace → Prop} (hbuilders : (f w).2.builders = w.builders)
    (hfits : p (f w).1 (f w).2) :
    (touching links given).At w (modifyGet f) p := by
  apply at_modifyGet
  intro _
  exact ⟨trivial, .single (.aside hbuilders), hfits⟩

/-- Logging touches no builder. -/
theorem touches_log (event : LogEvent) :
    (touching links given).Kept (log event) :=
  fun _ => touching_aside rfl trivial

/-- Noting that filters are taken over changes no builder. -/
theorem touching_noteTaking (inner : BuilderId) :
    (touching links given).At w (noteTaking b inner) fun _ w' =>
      w'.builders = w.builders :=
  touching_aside rfl rfl

/-- A value is bound to a parameter, unless it is a fragment, and no builder
is changed. -/
theorem touching_bind (value : Value) :
    (touching links given).At w (bind b value) fun e w' =>
    e.isValue = true ∧ w'.builders = w.builders ∧
      ((∀ fragment, value ≠ .raw fragment) →
        ∃ p : Parameter, e = .parameter p ∧ p.value = value) := by
  apply at_builder_bind
  intro found _
  apply at_get_bind
  rcases hadd : (w.stack found.stack).add value with ⟨e, stack⟩
  refine (at_set (p := fun _ w' => w.withStack found.stack stack = w')
    fun _ =>
    ⟨trivial, Relation.ReflTransGen.single (.aside rfl), rfl⟩).bind ?_
  intro _ w' _ _ hw'
  subst hw'
  refine at_pure fun _ => ⟨?_, rfl, ?_⟩
  · cases value <;> cases hadd <;> rfl
  · intro hraw
    cases value with
    | raw fragment => exact absurd rfl (hraw fragment)
    | _ =>
      cases hadd
      exact ⟨_, rfl, rfl⟩

/-! ### Edits -/

/-- An edit touches its builder as it says. -/
theorem touching_edit {change : Structure BuilderId → Structure BuilderId}
    (h : ∀ found, w.builders[b]? = some found →
      w.Alteration links b found.body (change found.body)) :
    (touching links given).At w (edit b change) fun _ w' =>
      w' = w.amended b fun builder =>
        { builder with body := change builder.body } := by
  apply at_modify
  intro _
  refine ⟨trivial, .single ?_, rfl⟩
  show w.Touch links given (w.amended b fun builder =>
      { builder with body := change builder.body })
  cases hb : w.builders[b]? with
  | some found =>
    have hsame : (w.amended b fun builder =>
        { builder with body := change builder.body }) =
        w.amended b fun builder =>
          { builder with body := change found.body } := by
      apply amended_congr
      intro other hother
      rw [hb] at hother
      cases hother
      rfl
    rw [hsame]
    exact .edited hb (h found hb)
  | none =>
    have hsame : (w.amended b fun builder =>
        { builder with body := change builder.body }) =
        w.amended b fun builder => builder := by
      apply amended_congr
      intro found hfound
      rw [hb] at hfound
      cases hfound
    rw [hsame]
    exact .around fun _ => rfl

/-- An edit of a builder that was found before. -/
theorem touching_edit_of_found
    {change : Structure BuilderId → Structure BuilderId} {found : Builder}
    (hfound : w.builders[b]? = some found)
    (h : w.Alteration links b found.body (change found.body)) :
    (touching links given).At w (edit b change) fun _ _ => True := by
  refine (touching_edit fun other hother => ?_).mono fun _ _ _ _ _ => trivial
  obtain rfl : found = other := Option.some.inj (hfound.symm.trans hother)
  exact h

/-- An edit of whatever a builder has built. -/
theorem touches_edit {change : Structure BuilderId → Structure BuilderId}
    (h : ∀ w s, Alteration w links b s (change s)) :
    (touching links given).Kept (edit b change) :=
  fun w => (touching_edit fun found _ => h w found.body).mono
    fun _ _ _ _ _ => trivial

/-- A change beside the query of a builder touches no query. -/
theorem touches_around {change : Builder → Builder}
    (h : ∀ old, (change old).body = old.body) :
    (touching links given).Kept (amend b change) := by
  intro w
  apply at_modify
  intro _
  exact ⟨trivial, .single (.around h), trivial⟩

/-- A registration in the pattern of a builder, seen as one edit. -/
theorem touching_register {α : Type} {registration : Pattern.Registration α}
    (h : ∀ found, w.builders[b]? = some found →
      ∀ (w' : Workspace) (r : Pattern.Registry),
      r.store = found.body.pattern → w'.Alteration links b found.body
        { found.body with pattern :=
          (Computation.exec registration r).2.store }) :
    (touching links given).At w (register b registration) fun _ w' =>
      ∃ pattern, w'.builders = (w.amended b fun builder =>
        { builder with body := { builder.body with pattern } }).builders := by
  apply at_builder_bind
  intro found hfound
  let registry : Pattern.Registry :=
    { store := found.body.pattern,
      names := w.sequences[found.sequence]?.getD {}, log := w.log }
  let pattern := (Computation.exec registration registry).2.store
  have hregister : (touching links given).At w
      (registerIn found.body.pattern found.sequence registration)
        fun out w' =>
        out.2 = pattern ∧ w'.builders = w.builders :=
    touching_aside rfl ⟨rfl, rfl⟩
  refine hregister.bind ?_
  intro out w₁ _ _ hout
  obtain ⟨outcome, made⟩ := out
  obtain ⟨hmade, hbuilders⟩ := hout
  dsimp only at hmade
  subst hmade
  have hedit : (touching links given).At w₁ (edit b fun body =>
      { body with pattern })
      fun _ w' => w' = w₁.amended b fun builder =>
        { builder with body := { builder.body with pattern } } := by
    apply touching_edit
    intro other hother
    rw [hbuilders] at hother
    obtain rfl : found = other := Option.some.inj (hfound.symm.trans hother)
    exact h found hfound w₁ registry rfl
  refine hedit.bind fun _ w₂ _ _ hw₂ => at_lift fun a _ => ⟨pattern, ?_⟩
  rw [hw₂, amended, amended, hbuilders]

/-- A registration that only gives values to properties. -/
theorem touches_register {α : Type} {registration : Pattern.Registration α}
    (h : ∀ s : Pattern.Store,
      (Pattern.onStore (.keeping (s.LeadsTo fun a => a.hasValue = true))).Kept
      registration) :
    (touching links given).Kept (register b registration) := by
  intro w
  refine (touching_register fun found _ w' r hr => ?_).mono fun _ _ _ _ _ =>
    trivial
  apply Alteration.patterned
  have hlead : found.body.pattern.LeadsTo (fun a => a.hasValue = true)
      r.store := hr ▸ .refl
  exact (h found.body.pattern r hlead).1

/-! ### New builders -/

/-- A new builder has the next number. -/
theorem touching_add {builder : Builder} (h : Starts given builder) :
    (touching links given).At w (add builder) fun b w' =>
      b = w.builders.size ∧ b < w'.builders.size := by
  apply at_modifyGet
  intro _
  refine ⟨trivial, Relation.ReflTransGen.single (.added h), rfl, ?_⟩
  show w.builders.size < (w.builders.push builder).size
  rw [Array.size_push]
  exact Nat.lt_succ_self _

/-- A new query is the last of all builders. -/
theorem touching_newQuery {stack sequence : Nat} {pattern : Pattern.Store}
    {entry : String} (h : Pattern.Store.LeadsTo given {} pattern) :
    (touching links given).At w (newQuery stack sequence pattern entry)
      fun b w' =>
      b = w.builders.size ∧ b < w'.builders.size :=
  at_get_bind (touching_add ⟨pattern, entry, _, h, rfl⟩)

/-- A sub-query comes after the query it is made from. -/
theorem touching_newSubQuery :
    (touching links given).At w (newSubQuery b) fun inner w' =>
    b < inner ∧ inner < w'.builders.size := by
  apply at_builder_bind
  intro found hfound
  apply at_get_bind
  have hlt : b < w.builders.size := (Array.getElem?_eq_some_iff.mp hfound).1
  refine (touching_add ⟨{}, found.body.entry, _, .refl, rfl⟩).mono ?_
  intro inner w' _ _ hinner
  obtain ⟨hnew, hin⟩ := hinner
  exact ⟨hnew ▸ hlt, hin⟩

/-- The element a query starts from is registered by declarations. -/
theorem kept_registration (how : QueryStart) {G : Guarantee Pattern.Store}
    {fit : List Assignment → Prop} (h : Pattern.Keeps G fit) :
    (Pattern.onStore G).Kept how.registration := by
  cases how with
  | any labels name optional =>
    rw [QueryStart.registration]
    split
    · exact h.relationship _ _ _ _ _ _ h.none
    · exact h.node _ _ _ h.none
  | node => exact h.node _ _ _ h.none
  | relationship => exact h.relationship _ _ _ _ _ _ h.none

/-- A query that is started is new, and touches no other one. -/
theorem touching_startWith {stack sequence : Nat} {how : QueryStart} :
    (touching links given).At w (startWith stack sequence how) fun b w' =>
      w.builders.size ≤ b ∧ b < w'.builders.size := by
  have hpattern :
      (touching links given).At w (registerIn {} sequence how.registration)
      fun out w' => Pattern.Store.LeadsTo given {} out.2 ∧
      w'.builders = w.builders := by
    refine touching_aside rfl ⟨?_, rfl⟩
    exact (kept_registration how (Pattern.keeps_leadsTo given {})
      { store := {}, names := w.sequences[sequence]?.getD {},
        log := w.log } .refl).1
  refine hpattern.bind ?_
  intro out w' _ _ hout
  apply at_lift_bind
  intro element _
  refine (touching_newQuery hout.1).mono ?_
  intro b w'' _ _ hb
  obtain ⟨hnew, hin⟩ := hb
  exact ⟨Nat.le_of_eq (hnew.trans (congrArg Array.size hout.2)).symm, hin⟩

/-- A new stack touches no builder. -/
theorem touches_newStack : (touching links given).Kept newStack := fun _ =>
    touching_aside rfl trivial

/-- A new sequence of names touches no builder. -/
theorem touches_newSequence {names : Pattern.NameSequence} :
    (touching links given).Kept (newSequence names) :=
  fun _ => touching_aside rfl trivial

/-- Starting a query touches no other one. -/
theorem touches_start (how : QueryStart) :
    (touching links given).Kept (start how) := by
  apply touches_newStack.bind
  intro stack
  apply touches_newSequence.bind
  intro sequence
  exact fun _ => touching_startWith.mono fun _ _ _ _ _ => trivial

/-- Starting a query from a walk touches no other one, and gives it what
walks were given. -/
theorem touches_startFromWalk {steps : List (Pattern.WalkStep Assignment)}
    (h : ∀ step ∈ steps, ∀ a ∈ step.properties, given a) :
    (touching links given).Kept (startFromWalk steps) := by
  have hwalk := (Pattern.keeps_leadsTo given {}).walk .refl h
    (Pattern.Position.holds_none _)
  unfold startFromWalk
  rcases hrun : Pattern.Position.run none steps with ⟨outcome, there⟩
  rw [hrun] at hwalk
  refine Kept.bind (fun w => touching_aside rfl trivial) fun _ => ?_
  apply (kept_lift outcome).bind
  intro _
  cases there with
  | none => exact kept_throw _
  | some position =>
    dsimp only [Option.map_some]
    split
    · apply touches_newStack.bind
      intro stack
      apply touches_newSequence.bind
      intro sequence
      exact fun _ =>
        (touching_newQuery (hwalk position rfl)).mono fun _ _ _ _ _ => trivial
    · exact kept_throw _

/-- Compiling only logs. -/
theorem touches_compile (kind : QueryKind) (change : Content → Content) :
    (touching links given).Kept (compile b kind change) := by
  apply kept_get_bind
  intro w
  split
  · exact (touches_log _).bind (fun _ => kept_pure _) w
  · exact (touches_log _).bind (fun _ => kept_throw _) w

end GraphQuery.Building
