import GraphQuery.Proofs.Compiling.Order

/-!
# One operation of a query and the whole of it

Each operation a query can be run for has a composition of its own.  They
differ from the full one in the passes they leave out, in which matches they
make and in whether they filter before they call.  Where the full
composition succeeds they all do, and what they make is found in what the
full one makes of the query by itself: `Structure.kinds_agree_with_full`.
Leaving passes out leaves clauses out (`Composition.clauses_sublist`),
strict matches come first among all matches (`Pass.strict_of_matching`), and
filters and calls that change places only move one clause
(`Composition.clauses_filtered_first`).
-/

namespace GraphQuery

/-- The clauses of a compiled query before its first union. -/
def beforeUnion (clauses : List Clause) : List Clause :=
  clauses.takeWhile fun c => c.kind != .union

/-- Clauses of which the first filter is moved behind the calls that stand
right behind it. -/
def whereBehindCalls : List Clause → List Clause
  | [] => []
  | c :: rest =>
    if c.kind = .where_ then
      rest.takeWhile (fun d => d.kind == .call) ++ c ::
        rest.dropWhile (fun d => d.kind == .call)
    else c :: whereBehindCalls rest

section Moving

variable {first rest calls : List Clause}

/-- Nothing is lost when the filter is moved. -/
theorem perm_whereBehindCalls (clauses : List Clause) :
    (whereBehindCalls clauses).Perm clauses := by
  induction clauses with
  | nil => exact .nil
  | cons c rest ih =>
    rw [whereBehindCalls]
    by_cases hwhere : c.kind = .where_
    · rw [if_pos hwhere]
      refine List.perm_middle.trans (List.Perm.cons c ?_)
      rw [List.takeWhile_append_dropWhile]
    · rw [if_neg hwhere]
      exact ih.cons c

/-- Clauses in front of the filter stay where they are. -/
theorem whereBehindCalls_append (hfirst : ∀ c ∈ first, c.kind ≠ .where_)
    (rest : List Clause) :
    whereBehindCalls (first ++ rest) = first ++ whereBehindCalls rest := by
  induction first with
  | nil => rfl
  | cons c later ih =>
    rw [List.cons_append, whereBehindCalls,
      if_neg (hfirst c List.mem_cons_self),
      ih fun d hd => hfirst d (List.mem_cons_of_mem c hd), List.cons_append]

/-- Clauses without a filter stay as they are. -/
theorem whereBehindCalls_eq_self (hfirst : ∀ c ∈ first, c.kind ≠ .where_) :
    whereBehindCalls first = first := by
  have hmoved := whereBehindCalls_append hfirst []
  rwa [List.append_nil, whereBehindCalls, List.append_nil] at hmoved

/-- A filter in front of calls is moved behind them. -/
theorem whereBehindCalls_cons {c : Clause} (hc : c.kind = .where_)
    (hcalls : ∀ d ∈ calls, d.kind = .call)
    (hrest : ∀ d ∈ rest, d.kind ≠ .call) :
    whereBehindCalls (c :: (calls ++ rest)) = calls ++ c :: rest := by
  have hall : ∀ d ∈ calls, (d.kind == ClauseKind.call) = true :=
    fun d hd => beq_iff_eq.mpr (hcalls d hd)
  have hnone : rest.takeWhile (fun d => d.kind == ClauseKind.call) = [] ∧
      rest.dropWhile (fun d => d.kind == ClauseKind.call) = rest := by
    cases rest with
    | nil => exact ⟨rfl, rfl⟩
    | cons d later =>
      have hd : ¬(d.kind == ClauseKind.call) = true :=
        fun hcall => hrest d List.mem_cons_self (beq_iff_eq.mp hcall)
      exact ⟨List.takeWhile_cons_of_neg hd, List.dropWhile_cons_of_neg hd⟩
  rw [whereBehindCalls, if_pos hc, List.takeWhile_append_of_pos hall,
    List.dropWhile_append_of_pos hall, hnone.1, hnone.2, List.append_nil]

end Moving

namespace Pass

variable {s : Structure Nested} {clauses : List Clause}

/-- The strict matches are made wherever all matches are, and stand in front
of the others. -/
theorem strict_of_matching (h : (matching false).clauses s = .ok clauses) :
    ∃ strict, (matching true).clauses s = .ok strict ∧
    strict <+: clauses := by
  obtain ⟨first, hfirst, h⟩ := bind_ok_inversion h
  obtain ⟨others, -, h⟩ := bind_ok_inversion h
  cases h
  refine ⟨first, ?_, List.prefix_append first others⟩
  show matchClauses true s.toContent = .ok first
  rw [matchClauses, hfirst]
  rfl

/-- All filters of a query are in one clause. -/
theorem filtering_eq_ok (h : filtering.clauses s = .ok clauses) :
    clauses = [] ∨ ∃ text, clauses = [⟨.where_, text⟩] := by
  rw [Pass.clauses, clauseIf] at h
  split at h
  · obtain ⟨text, -, h⟩ := bind_ok_inversion h
    cases h
    exact .inr ⟨text, rfl⟩
  · cases h
    exact .inl rfl

/-- The clauses of the query a query is united with stand behind a union. -/
theorem uniting_eq_ok (h : uniting.clauses s = .ok clauses) :
    s.union = none ∧ clauses = [] ∨
    ∃ others, clauses = ⟨.union, ""⟩ :: others := by
  rw [Pass.clauses] at h
  split at h
  · next hnone =>
    cases h
    exact .inl ⟨hnone, rfl⟩
  · obtain ⟨others, -, h⟩ := bind_ok_inversion h
    cases h
    exact .inr ⟨others, rfl⟩

/-- No clause of a pass is of a kind that the pass does not make. -/
theorem kind_ne {pass : Pass} {kind : ClauseKind} (hpass : pass ≠ .uniting)
    (hkind : kind ∉ pass.kinds) (h : pass.clauses s = .ok clauses) :
    ∀ c ∈ clauses, c.kind ≠ kind := by
  have hkinds := pass.ofKinds_clauses hpass s
  rw [h] at hkinds
  intro c hc hsame
  have hmem := hkinds c hc
  rw [hsame] at hmem
  exact hkind hmem

end Pass

namespace Composition

variable {s : Structure Nested} {clauses : List Clause}

/-- Where a pass and the later ones succeed, they do so together. -/
theorem clauses_cons_of_ok {pass : Pass} {composition : Composition}
    {first later : List Clause} (hfirst : pass.clauses s = .ok first)
    (hlater : composition.clauses s = .ok later) :
    Composition.clauses (pass :: composition) s = .ok (first ++ later) := by
  rw [clauses_cons, hfirst, hlater]
  rfl

/-- A composition that leaves passes out makes what another one makes and
leaves clauses out. -/
theorem clauses_sublist {fewer composition : Composition}
    (hfewer : fewer.Sublist composition)
    (h : composition.clauses s = .ok clauses) :
    ∃ made, fewer.clauses s = .ok made ∧ made.Sublist clauses := by
  induction hfewer generalizing clauses with
  | slnil => exact ⟨clauses, h, .refl clauses⟩
  | cons pass _ ih =>
    obtain ⟨first, later, -, hlater, rfl⟩ := clauses_cons_eq_ok h
    obtain ⟨made, hmade, hsub⟩ := ih hlater
    exact ⟨made, hmade, hsub.trans (List.sublist_append_right first later)⟩
  | cons_cons pass _ ih =>
    obtain ⟨first, later, hfirst, hlater, rfl⟩ := clauses_cons_eq_ok h
    obtain ⟨made, hmade, hsub⟩ := ih hlater
    exact ⟨first ++ made, clauses_cons_of_ok hfirst hmade,
      hsub.append_left first⟩

/-- A composition that makes the strict matches alone. -/
theorem clauses_strict {rest : Composition}
    (h : Composition.clauses (.matching false :: rest) s = .ok clauses) :
    ∃ made, Composition.clauses (.matching true :: rest) s = .ok made ∧
    made.Sublist clauses := by
  obtain ⟨matched, later, hmatched, hlater, rfl⟩ := clauses_cons_eq_ok h
  obtain ⟨strict, hstrict, hprefix⟩ := Pass.strict_of_matching hmatched
  exact ⟨strict ++ later, clauses_cons_of_ok hstrict hlater,
    hprefix.sublist.append_right later⟩

/-- A composition that filters before it calls makes the same clauses, but
for the place of the filter.  Without filters there is no clause to be
moved. -/
theorem clauses_filtered_first {last : Pass} (hlast : last ≠ .uniting)
    (hwhere : .where_ ∉ last.kinds) (hcall : .call ∉ last.kinds)
    (h : Composition.clauses [.matching false, .calling, .filtering, last]
      s = .ok clauses) :
    ∃ made, Composition.clauses [.matching false, .filtering, .calling, last]
      s = .ok made ∧
      whereBehindCalls made = clauses := by
  obtain ⟨matched, _, hmatched, hread, rfl⟩ := clauses_cons_eq_ok h
  obtain ⟨called, _, hcalled, hrest, rfl⟩ := clauses_cons_eq_ok hread
  obtain ⟨filtered, written, hfiltered, hwritten, rfl⟩ :=
    clauses_cons_eq_ok hrest
  have hmade := clauses_cons_of_ok hmatched
    (clauses_cons_of_ok hfiltered (clauses_cons_of_ok hcalled hwritten))
  refine ⟨_, hmade, ?_⟩
  obtain ⟨own, none, hown, hnone, rfl⟩ := clauses_cons_eq_ok hwritten
  rw [clauses_nil] at hnone
  cases hnone
  rw [List.append_nil]
  have hmatches : ∀ c ∈ matched, c.kind ≠ .where_ :=
    Pass.kind_ne (by decide) (by decide) hmatched
  have hcalls := Pass.calling.ofKinds_clauses (by decide) s
  rw [hcalled] at hcalls
  have hcallsOnly : ∀ c ∈ called, c.kind = .call := fun c hc =>
    List.mem_singleton.mp (hcalls c hc)
  rw [whereBehindCalls_append hmatches]
  rcases Pass.filtering_eq_ok hfiltered with rfl | ⟨text, rfl⟩
  · have hunfiltered : ∀ c ∈ called ++ own, c.kind ≠ .where_ := by
      intro c hc
      rcases List.mem_append.mp hc with hc | hc
      · rw [hcallsOnly c hc]
        decide
      · exact Pass.kind_ne hlast hwhere hown c hc
    rw [List.nil_append, List.nil_append,
      whereBehindCalls_eq_self hunfiltered]
  · rw [List.singleton_append, List.singleton_append,
      whereBehindCalls_cons rfl hcallsOnly (Pass.kind_ne hlast hcall hown)]

/-- What the full composition makes before its union is what a query makes
by itself. -/
theorem clauses_full_eq_ok (h : Composition.full.clauses s = .ok clauses) :
    Composition.single.clauses s = .ok (beforeUnion clauses) ∧
      (s.union = none → beforeUnion clauses = clauses) := by
  have hcut : Composition.full = Composition.single ++ [.uniting] := rfl
  rw [hcut] at h
  obtain ⟨own, later, hown, hlater, rfl⟩ := clauses_append_eq_ok h
  obtain ⟨united, none, hunited, hnone, rfl⟩ := clauses_cons_eq_ok hlater
  rw [clauses_nil] at hnone
  cases hnone
  rw [List.append_nil]
  have hkinds : ∀ c ∈ own, (c.kind != ClauseKind.union) = true := by
    intro c hc
    have hunion := Composition.union_notMem (by decide) hown
    exact bne_iff_ne.mpr fun hkind => hunion (List.mem_map.mpr ⟨c, hc, hkind⟩)
  rcases Pass.uniting_eq_ok hunited with ⟨-, rfl⟩ | ⟨others, rfl⟩
  · have hbefore : beforeUnion (own ++ []) = own := by
      rw [List.append_nil, beforeUnion, List.takeWhile_eq_self_iff]
      exact hkinds
    rw [hbefore, List.append_nil]
    exact ⟨hown, fun _ => rfl⟩
  · have hbefore : beforeUnion (own ++ ⟨.union, ""⟩ :: others) = own := by
      rw [beforeUnion, List.takeWhile_append_of_pos hkinds]
      exact List.append_nil own
    rw [hbefore]
    refine ⟨hown, fun hnone => ?_⟩
    rw [Pass.clauses, hnone] at hunited
    cases hunited

end Composition

/-- **Every operation agrees with the whole query**, whatever the queries
nested in it are given by: those of a tree (`Query.compile`) or of a
workspace (`Workspace.clauses`).  Where the full composition succeeds, that
of every operation does.  What it makes is found in what the full one makes
before its union, each clause as often and with the same body; only the full
composition itself goes on behind a union.  For reading, setting, creating
and removing the clauses stand in the same order too, and for merging and
deleting once the filter is moved behind the calls.  Apart from the passes
that read, every operation makes one pass that a query makes by itself. -/
theorem Structure.kinds_agree_with_full {s : Structure Nested}
    {clauses : List Clause}
    (hfull : Composition.full.clauses s = .ok clauses) (kind : QueryKind) :
    ∃ made, kind.composition.clauses s = .ok made ∧
      ((kind = .full → s.union = none) → made.Subperm (beforeUnion clauses)) ∧
      (kind ∈ [.read, .set, .create, .remove] →
        made.Sublist (beforeUnion clauses)) ∧
      (kind ∈ [.merge, .delete] →
        (whereBehindCalls made).Sublist (beforeUnion clauses)) := by
  obtain ⟨hown, halone⟩ := Composition.clauses_full_eq_ok hfull
  have hregular (last : Pass) (hlast : [.matching false, .calling,
      .filtering, last].Sublist
      Composition.single) := Composition.clauses_sublist hlast hown
  have hstrict (last : Pass) (hlast : [.matching false, .calling, .filtering,
      last].Sublist
      Composition.single) : ∃ made, Composition.clauses [.matching true,
      .calling, .filtering, last] s =
        .ok made ∧ made.Sublist (beforeUnion clauses) := by
    obtain ⟨regular, hplain, hsub⟩ := hregular last hlast
    obtain ⟨made, hmade, hfewer⟩ := Composition.clauses_strict hplain
    exact ⟨made, hmade, hfewer.trans hsub⟩
  have hmoved (last : Pass) (hlast : [.matching false, .calling, .filtering,
      last].Sublist
      Composition.single) (hpass : last ≠ .uniting) (hwhere :
        .where_ ∉ last.kinds)
      (hcall : .call ∉ last.kinds) : ∃ made,
        Composition.clauses [.matching false, .filtering, .calling, last] s =
          .ok made ∧
          (whereBehindCalls made).Sublist (beforeUnion clauses) := by
    obtain ⟨regular, hplain, hsub⟩ := hregular last hlast
    obtain ⟨made, hmade, rfl⟩ :=
      Composition.clauses_filtered_first hpass hwhere hcall hplain
    exact ⟨made, hmade, hsub⟩
  cases kind with
  | read =>
    obtain ⟨made, hmade, hsub⟩ := hregular .returning (by decide)
    exact ⟨made, hmade, fun _ => hsub.subperm, fun _ => hsub, by simp⟩
  | create =>
    obtain ⟨made, hmade, hsub⟩ := hstrict .creating (by decide)
    exact ⟨made, hmade, fun _ => hsub.subperm, fun _ => hsub, by simp⟩
  | set =>
    obtain ⟨made, hmade, hsub⟩ := hstrict .setting (by decide)
    exact ⟨made, hmade, fun _ => hsub.subperm, fun _ => hsub, by simp⟩
  | remove =>
    obtain ⟨made, hmade, hsub⟩ := hstrict .removing (by decide)
    exact ⟨made, hmade, fun _ => hsub.subperm, fun _ => hsub, by simp⟩
  | merge =>
    obtain ⟨made, hmade, hsub⟩ :=
      hmoved .merging (by decide) (by decide) (by decide) (by decide)
    have hsame := (perm_whereBehindCalls made).symm
    exact ⟨made, hmade, fun _ => hsame.subperm.trans hsub.subperm, by simp,
      fun _ => hsub⟩
  | delete =>
    obtain ⟨made, hmade, hsub⟩ :=
      hmoved .deleting (by decide) (by decide) (by decide) (by decide)
    have hsame := (perm_whereBehindCalls made).symm
    exact ⟨made, hmade, fun _ => hsame.subperm.trans hsub.subperm, by simp,
      fun _ => hsub⟩
  | full =>
    refine ⟨clauses, hfull, fun hnone => ?_, by simp, by simp⟩
    rw [halone (hnone rfl)]

namespace Query

/-- A query that does everything at once: it matches, calls, filters,
merges, creates, deletes and returns a page, and is united with another
query. -/
def crowded : Query :=
  Structure.toQuery { reunited.structure with
    wheres := [.raw "d.age > 1" .and]
    subQueries := [rededicated, rededicated]
    deletes := [.var "a"]
    returns := [.var "b"] }

/-- A merge filters before it calls. -/
theorem kinds_agree_with_full_of_crowded :
    ∃ clauses made, crowded.compile .full = .ok clauses ∧
      clauses.map Clause.kind = [.match_, .optionalMatch, .call, .call,
        .where_, .merge, .create,
        .delete, .return_, .skip, .union, .match_, .optionalMatch, .merge,
        .create] ∧
      crowded.compile QueryKind.merge.composition = .ok made ∧
      made.map Clause.kind = [.match_, .optionalMatch, .where_, .call, .call,
        .merge] ∧
      made.Subperm (beforeUnion clauses) ∧
      (whereBehindCalls made).Sublist (beforeUnion clauses) := by
  have hkinds : (crowded.compile .full).toOption.map (List.map Clause.kind) =
      some
      [.match_, .optionalMatch, .call, .call, .where_, .merge, .create,
        .delete, .return_, .skip,
        .union, .match_, .optionalMatch, .merge, .create] := by
    decide +kernel
  have hmerge : (crowded.compile QueryKind.merge.composition).toOption.map
      (List.map Clause.kind) =
      some [.match_, .optionalMatch, .where_, .call, .call, .merge] := by
    decide +kernel
  cases hfull : crowded.compile .full with
  | error fault =>
    rw [hfull] at hkinds
    cases hkinds
  | ok clauses =>
    have hopened := hfull
    rw [compile_eq] at hopened
    obtain ⟨made, hmade, hsubperm, -, hmoved⟩ :=
      Structure.kinds_agree_with_full hopened .merge
    rw [← compile_eq] at hmade
    rw [hfull] at hkinds
    rw [hmade] at hmerge
    exact ⟨clauses, made, rfl, Option.some.inj hkinds, hmade,
      Option.some.inj hmerge,
      hsubperm (by decide), hmoved (by decide)⟩

/-- The full composition of a query that is united with another one makes
more than stands before the union. -/
theorem full_exceeds_beforeUnion :
    ∃ clauses, crowded.compile .full = .ok clauses ∧
      ¬∀ kind : QueryKind, ∃ made,
        crowded.compile kind.composition = .ok made ∧
        made.Subperm (beforeUnion clauses) := by
  have hshorter : (crowded.compile .full).toOption.map (fun clauses =>
      decide ((beforeUnion clauses).length < clauses.length)) =
        some true := by
    decide +kernel
  cases hfull : crowded.compile .full with
  | error fault =>
    rw [hfull] at hshorter
    cases hshorter
  | ok clauses =>
    refine ⟨clauses, rfl, fun hall => ?_⟩
    obtain ⟨made, hmade, hsubperm⟩ := hall .full
    have hsame : Except.ok clauses = Except.ok made := hfull.symm.trans hmade
    cases hsame
    rw [hfull] at hshorter
    have hlt := of_decide_eq_true (Option.some.inj hshorter)
    have hle := hsubperm.length_le
    omega

end Query

end GraphQuery
