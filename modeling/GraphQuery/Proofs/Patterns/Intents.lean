import GraphQuery.Proofs.Patterns.Ends
import GraphQuery.Proofs.Patterns.History
import GraphQuery.Proofs.Patterns.Rejections
import GraphQuery.Proofs.Patterns.Requests

/-!
# Intents

The intent of a name is that of the last declaration that was made of it.
Calls that match make their declarations one after the other, up to one that
is rejected (`Registry.made`), and all of them with the same intent if the
calls match alike, so what they have declared has that intent at the end
(`Store.Indexed.intentOf?_applyAll`).
-/

namespace GraphQuery.Pattern

open GraphQuery.Computation

/-! ## The declarations that are made -/

/-- The declarations that are made of a list: all in front of the first one
that is rejected. -/
def Store.made (s : Store) : List Declaration → List Declaration
  | [] => []
  | d :: later =>
    match d.apply s with
    | .ok t => d :: t.made later
    | .error _ => []

namespace Store

variable {s t : Store} {ds : List Declaration} {fault : Fault}

/-- Where all declarations succeed, all of them are made. -/
theorem made_of_applyAll (h : s.applyAll ds = .ok t) : s.made ds = ds := by
  induction ds generalizing s with
  | nil => rfl
  | cons d later ih =>
    obtain ⟨u, hd, hlater⟩ := applyAll_cons_eq_ok.mp h
    rw [made, hd]
    dsimp only
    rw [ih hlater]

/-- Not all declarations are made if one of them is rejected. -/
theorem made_of_stopsIn (h : StopsIn ds s t fault) :
    s.applyAll (s.made ds) = .ok t ∧ (s.made ds).length < ds.length := by
  obtain ⟨done, rejected, later, rfl, hdone, hrejected⟩ := h
  have hmade : s.made (done ++ rejected :: later) = done := by
    induction done generalizing s with
    | nil =>
      cases hdone
      rw [List.nil_append, made, hrejected]
    | cons d rest ih =>
      obtain ⟨u, hd, hrest⟩ := applyAll_cons_eq_ok.mp hdone
      rw [List.cons_append, made, hd]
      dsimp only
      rw [ih hrest]
  rw [hmade]
  refine ⟨hdone, ?_⟩
  rw [List.length_append, List.length_cons]
  omega

/-- Only what is declared is made. -/
theorem made_subset (s : Store) (ds : List Declaration) : s.made ds ⊆ ds := by
  induction ds generalizing s with
  | nil => exact fun _ hd => hd
  | cons d later ih =>
    intro e he
    rw [made] at he
    split at he
    · next t _ =>
      rcases List.mem_cons.mp he with rfl | hlater
      · exact List.mem_cons_self
      · exact List.mem_cons_of_mem d (ih t hlater)
    · cases he

end Store

/-- The intent of what a call declares; nothing if it declares nothing. -/
def StoreCall.intent? : StoreCall Assignment → Option Intent
  | matchNode _ _ optional | matchRelationship _ _ _ _ _ optional | matchRaw
      _ optional =>
    some (.matching optional)
  | writeNode writing _ _ _ | writeRelationship writing
      _ _ _ _ _ _ | writeRaw writing _ =>
    some writing.intent
  | assign _ _ intent => some intent
  | get _ | intentOf _ | chunk _ | size => none

/-- All that a call declares has its intent. -/
theorem StoreCall.intent_of_mem_declarations {call : StoreCall Assignment}
    {names : NameSequence} {intent : Intent} {d : Declaration}
    (h : call.intent? = some intent) (hd : d ∈ call.declarations names) :
    d.intent = intent := by
  cases call with
  | matchNode | matchRaw | writeNode | writeRaw | assign =>
    cases h
    rw [List.mem_singleton.mp hd]
    rfl
  | matchRelationship | writeRelationship =>
    cases h
    rcases List.mem_append.mp hd with hends | hown
    · obtain ⟨own, labels, rfl, -⟩ := (List.mem_append.mp hends).elim
        labelled_of_mem_endDeclarations labelled_of_mem_endDeclarations
      rfl
    · rw [List.mem_singleton.mp hown]
      rfl
  | get | intentOf | chunk | size => cases h

/-- Whether what a call matches is matched optionally; nothing if the call
is about something else. -/
def StoreCall.optional? : StoreCall Assignment → Option Bool
  | matchNode _ _ optional => some optional
  | matchRelationship _ _ _ _ _ optional => some optional
  | matchRaw _ optional => some optional
  | _ => none

/-- The declarations that calls which match have made when they end. -/
def Registry.made (r : Registry) : List (StoreCall Assignment) →
    List Declaration
  | [] => []
  | call :: rest =>
    r.store.made (call.declarations r.names) ++
      match exec call.perform r with
      | (.ok _, s) => s.made rest
      | (.error _, _) => []

section

variable {r s : Registry} {call : StoreCall Assignment} {optional : Bool}

/-- A call that matches and fails has been stopped by a declaration that was
rejected. -/
theorem StoreCall.stopsIn_of_matching (hcall : call.optional? = some optional)
    {fault : Fault} (h : exec call.perform r = (.error fault, s)) :
    StopsIn (call.declarations r.names) r.store s.store fault := by
  cases call with
  | matchNode =>
    exact Registration.stopsIn_of_node (Registration.error_of_answer h)
  | matchRelationship =>
    exact Registration.stopsIn_of_relationship
      (Registration.error_of_answer h)
  | matchRaw => cases h
  | writeNode | writeRelationship | writeRaw | assign | get | intentOf
  | chunk | size => cases hcall

/-- A call that matches, optionally or not, has this intent. -/
theorem StoreCall.intent?_of_optional? (h : call.optional? = some optional) :
    call.intent? = some (.matching optional) := by
  cases call <;> cases h <;> rfl

/-- **What calls that match have done to a store**, whether they failed or
not. -/
theorem Registry.applyAll_made {calls : List (StoreCall Assignment)}
    (hcalls : ∀ call ∈ calls, ∃ optional, call.optional? = some optional) :
    r.store.applyAll (r.made calls) = .ok (r.afterCalls calls).2.store := by
  induction calls generalizing r with
  | nil => rfl
  | cons call rest ih =>
    obtain ⟨optional, hcall⟩ := hcalls call List.mem_cons_self
    rw [made, afterCalls]
    rcases hexec : exec call.perform r with ⟨fault | answer, s⟩
    · dsimp only
      rw [List.append_nil]
      exact (Store.made_of_stopsIn
        (StoreCall.stopsIn_of_matching hcall hexec)).1
    · have happly := StoreCall.applyAll_of_perform hexec
      dsimp only
      rw [Store.made_of_applyAll happly, Store.applyAll_append, happly]
      exact ih fun call hmem => hcalls call (List.mem_cons_of_mem _ hmem)

/-- What such calls make has this intent. -/
theorem Registry.intent_of_made {calls : List (StoreCall Assignment)}
    (hcalls : ∀ call ∈ calls, call.optional? = some optional)
    {d : Declaration} (hd : d ∈ r.made calls) :
    d.intent = .matching optional := by
  induction calls generalizing r with
  | nil => cases hd
  | cons call rest ih =>
    rw [made] at hd
    rcases List.mem_append.mp hd with hown | hrest
    · exact StoreCall.intent_of_mem_declarations
        (StoreCall.intent?_of_optional? (hcalls call List.mem_cons_self))
          (Store.made_subset _ _ hown)
    · rcases hexec : exec call.perform r with ⟨fault | answer, s⟩
      · rw [hexec] at hrest
        cases hrest
      · rw [hexec] at hrest
        exact ih (fun call hmem => hcalls call (List.mem_cons_of_mem _ hmem))
          hrest

end

/-! ## The intents they leave behind -/

namespace Store.Indexed

variable {s t : Store} {d : Declaration} {ds : List Declaration}
    {name : String} {intent : Intent}

/-- A declaration gives its intent to its own name, and to no other one. -/
theorem intentOf?_of_makes (h : s.Indexed) (hmakes : d.Makes s t)
    (name : String) :
    t.intentOf? name = if d.name? = some name then some
      d.intent else s.intentOf? name := by
  unfold intentOf?
  by_cases hd : d.name? = some name
  · rw [if_pos hd]
    rcases h.find?_of_makes_self hmakes hd with
      ⟨-, entry, hentry, hfind⟩ | ⟨known, entry, -, hentry, hfind⟩
    · rw [hfind, Option.map_some, Declaration.intent_of_entry? hentry]
    · rw [hfind, Option.map_some, Declaration.intent_of_extend hentry]
  · rw [if_neg hd, h.find?_of_makes_of_ne hmakes hd]

/-- Declarations of one intent leave a name with it once one of them is
about the name.  The first declaration gives its intent to the name or
leaves the name to the later ones. -/
theorem intentOf?_applyAll (h : s.Indexed) (happly : s.applyAll ds = .ok t)
    (hintent : ∀ d ∈ ds, d.intent = intent)
    (hname : s.intentOf? name = some intent ∨ ∃ d ∈ ds, d.name? = some name) :
    t.intentOf? name = some intent := by
  induction ds generalizing s with
  | nil =>
    cases happly
    rcases hname with hknown | ⟨d, hd, -⟩
    · exact hknown
    · cases hd
  | cons first later ih =>
    obtain ⟨u, hfirst, hlater⟩ := applyAll_cons_eq_ok.mp happly
    have hmakes := Declaration.makes_of_apply hfirst
    have hu := h.intentOf?_of_makes hmakes name
    rw [hintent first List.mem_cons_self] at hu
    refine ih (h.of_makes hmakes) hlater (fun d hd =>
      hintent d (List.mem_cons_of_mem _ hd)) ?_
    by_cases hown : first.name? = some name
    · rw [if_pos hown] at hu
      exact .inl hu
    · rw [if_neg hown] at hu
      rcases hname with hknown | ⟨d, hd, hdname⟩
      · exact .inl (hu.trans hknown)
      · rcases List.mem_cons.mp hd with rfl | hmem
        · exact absurd hdname hown
        · exact .inr ⟨d, hmem, hdname⟩

end Store.Indexed

/-- An entry that was not there has the intent of the declaration. -/
theorem Declaration.Makes.intent {d : Declaration} {s t : Store}
    (h : d.Makes s t) {entry : Entry} (hentry : entry ∈ t.entries) :
    entry ∈ s.entries ∨ entry.intent = d.intent := by
  rcases h.mem_entries hentry with hold | hnew | ⟨known, -, hextend⟩
  · exact .inl hold
  · exact .inr <| intent_of_entry? hnew
  · exact .inr (intent_of_extend hextend)

/-- Where all have one intent, they do so after declarations of this intent. -/
theorem Store.intent_of_applyAll {s t : Store} {ds : List Declaration}
    {intent : Intent} (happly : s.applyAll ds = .ok t)
    (hintent : ∀ d ∈ ds, d.intent = intent)
    (hs : ∀ entry ∈ s.entries, entry.intent = intent) :
    ∀ entry ∈ t.entries, entry.intent = intent := by
  refine applyAll_induction (fun u => ∀ entry ∈ u.entries,
    entry.intent = intent) happly
    (fun d hd u v hmakes hu entry hentry => ?_) hs
  rcases hmakes.intent hentry with hold | hnew
  · exact hu entry hold
  · exact hnew.trans (hintent d hd)

/-- A view is empty if no entry has one of its intents. -/
theorem Store.chunk_eq_nil {s : Store} {view : Chunk} {intent : Intent}
    (h : ∀ entry ∈ s.entries, entry.intent = intent)
    (hview : intent ∉ view.intents) :
    s.chunk view = [] := by
  have hnone : s.entries.filter (fun entry =>
      view.intents.contains entry.intent) = [] := by
    rw [List.filter_eq_nil_iff]
    intro entry hentry
    rw [h entry hentry, List.contains_iff_mem]
    exact hview
  rw [chunk, hnone]
  rfl

end GraphQuery.Pattern
