import GraphQuery.Filter.Text
import GraphQuery.Proofs.Condition.Grammar

/-!
# The meaning of a filter tree

A tree of filters has a value once its leaves have one, and its text is read
as a condition.  The main statement, `listText_keeps_meaning`, says that
both are the same, for every tree without empty groups and for all values of
the leaves.  A leaf is any filter that is no group; the text it stands with
is the one it is given by itself.
-/

namespace GraphQuery

namespace Condition

/-- A marked text that is cut into the given tokens, whatever follows it. -/
def CutInto (symbols : List Symbol) (tokens : List Token) : Prop :=
  ∀ rest, tokensFrom? [] (symbols ++ rest) = (tokensFrom? [] rest).map
    (tokens ++ ·)

/-- Symbols are cut into tokens one behind the other. -/
theorem CutInto.append {a b : List Symbol} {s t : List Token}
    (ha : CutInto a s) (hb : CutInto b t) : CutInto (a ++ b) (s ++ t) := by
  intro rest
  rw [List.append_assoc, ha, hb, Option.map_map]
  simp [Function.comp_def]

/-- Symbols that are cut into tokens are read as these. -/
theorem CutInto.tokens?_eq {a : List Symbol} {s : List Token}
    (h : CutInto a s) :
    tokens? a = some s := by
  simpa [tokens?, tokensFrom?, word?] using h []

/-- Symbols that are read as a token, whatever follows, are cut into it. -/
theorem cutInto_of_bind {symbols : List Symbol} {token : Token}
    (h : ∀ rest, tokensFrom? [] (symbols ++ rest) =
      (tokensFrom? [] rest).bind fun tokens => some (token :: tokens)) :
    CutInto symbols [token] := by
  intro rest
  cases hrest : tokensFrom? [] rest <;> simp [h, hrest]

/-- A leaf is a token. -/
theorem cutInto_leaf (i : Nat) (text : String) :
    CutInto [.leaf i text] [.leaf i] :=
  cutInto_of_bind fun _ => rfl

/-- An opening bracket is a token. -/
theorem cutInto_opening : CutInto (chars "(") [.opening] :=
  cutInto_of_bind fun _ => rfl

/-- A closing bracket is a token. -/
theorem cutInto_closing : CutInto (chars ")") [.closing] :=
  cutInto_of_bind fun _ => rfl

/-- A negation is a token, with its blank. -/
theorem cutInto_not : CutInto (chars "NOT ") [.not] :=
  cutInto_of_bind fun _ => rfl

/-- A chain operator is a token, with the blanks around it. -/
theorem cutInto_chain (c : Chain) : CutInto (chars (" " ++ c.keyword ++ " "))
    [.chain c] := by
  refine cutInto_of_bind fun rest => ?_
  have hcut : tokensFrom? [] (chars (" " ++ c.keyword ++ " ") ++ rest) =
      ((tokensFrom? [] rest).bind fun tokens =>
        some (.chain c :: tokens)).bind some := by
    cases c <;> rfl
  simpa using hcut

end Condition

namespace Filter

open Condition

variable {β : Type}

/-- Two parts succeed if the first one does, and the second one from there. -/
theorem bind_eq_ok {ε α γ : Type} {x : Except ε α} {f : α → Except ε γ}
    {b : γ} :
    x >>= f = .ok b ↔ ∃ a, x = .ok a ∧ f a = .ok b := by
  cases x <;> simp [bind, Except.bind]

mutual

/-- The leaves of a filter, from left to right: the filters in it that are
no groups. -/
def leaves : Filter β → List (Filter β)
  | group filters _ _ => leavesOfAll filters
  | leaf => [leaf]

/-- The leaves of a list of filters. -/
def leavesOfAll : List (Filter β) → List (Filter β)
  | [] => []
  | filter :: rest => leaves filter ++ leavesOfAll rest

end

mutual

/-- Whether every group in a filter holds a filter. -/
def Filled : Filter β → Prop
  | group filters _ _ => filters ≠ [] ∧ AllFilled filters
  | _ => True

/-- Whether every group in a list of filters holds a filter. -/
def AllFilled : List (Filter β) → Prop
  | [] => True
  | filter :: rest => Filled filter ∧ AllFilled rest

end

mutual

/-- The value of a filter whose leaves are numbered from `n` on and valued
by `truth`.  A group is one operand; it is negated if it says so. -/
def value (truth : Nat → Bool) (n : Nat) : Filter β → Bool
  | group filters negate _ => negate ^^ combined (operands truth n filters)
  | _ => truth n

/-- The values of the filters in a list, each with the operator that joins
it to the one before. -/
def operands (truth : Nat → Bool) (n : Nat) : List (Filter β) →
    List (Chain × Bool)
  | [] => []
  | filter :: rest =>
    (filter.chain, value truth n filter) ::
      operands truth (n + (leaves filter).length) rest

end

/-- The leaves of two lists of filters are those of both, in order. -/
theorem leavesOfAll_append (as bs : List (Filter β)) :
    leavesOfAll (as ++ bs) = leavesOfAll as ++ leavesOfAll bs := by
  induction as with
  | nil => rfl
  | cons filter rest ih => rw [List.cons_append, leavesOfAll, leavesOfAll,
      ih, List.append_assoc]

/-- Filled filters stay so together. -/
theorem allFilled_append {as bs : List (Filter β)} (has : AllFilled as)
    (hbs : AllFilled bs) :
    AllFilled (as ++ bs) := by
  induction as with
  | nil => exact hbs
  | cons filter rest ih =>
    rw [AllFilled] at has
    rw [List.cons_append, AllFilled]
    exact ⟨has.1, ih has.2⟩

/-- The operands of two lists of filters are those of both; the leaves of
the second one are numbered behind those of the first. -/
theorem operands_append (truth : Nat → Bool) (n : Nat)
    (as bs : List (Filter β)) :
    operands truth n (as ++ bs) =
      operands truth n as ++ operands truth (n + (leavesOfAll as).length)
        bs := by
  induction as generalizing n with
  | nil => rfl
  | cons filter rest ih =>
    rw [List.cons_append, operands, operands, ih, leavesOfAll,
      List.length_append, Nat.add_assoc,
      List.cons_append]

/-- The operands of filters stand behind their chain operators. -/
theorem map_fst_operands (truth : Nat → Bool) (n : Nat)
    (filters : List (Filter β)) :
    (operands truth n filters).map Prod.fst = filters.map chain := by
  induction filters generalizing n with
  | nil => rfl
  | cons filter rest ih => rw [operands, List.map_cons, List.map_cons, ih]

/-- **The value of a list of filters.** -/
def listValue (truth : Nat → Bool) (filters : List (Filter β)) : Bool :=
  combined (operands truth 0 filters)

/-! ### The text of a filter, marked at its leaves -/

/-- The texts of leaves, each as it is given by itself. -/
def LeafTexts (nestedText : β → Except Fault String)
    (leaves : List (Filter β)) (texts : List String) : Prop :=
  List.Forall₂ (fun leaf t => text nestedText leaf = .ok t) leaves texts

/-- A text that, marked at the given leaves, is cut into the given tokens.
The leaves are numbered from `n` on. -/
def Tokenized (nestedText : β → Except Fault String) (n : Nat)
    (leaves : List (Filter β)) (text : String) (tokens : List Token) : Prop :=
  ∃ symbols texts, spelled symbols = text ∧ CutInto symbols tokens ∧
    LeafTexts nestedText leaves texts ∧ symbols.filterMap Symbol.leaf? =
      texts.zipIdx n

section

variable {nestedText : β → Except Fault String}

/-- Two lists of leaves have the texts of both. -/
theorem LeafTexts.append {as bs : List (Filter β)} {s t : List String}
    (ha : LeafTexts nestedText as s) (hb : LeafTexts nestedText bs t) :
    LeafTexts nestedText (as ++ bs) (s ++ t) :=
  List.rel_append ha hb

/-- Leaves have texts if each of them has one. -/
theorem LeafTexts.exists_iff {leaves : List (Filter β)} :
    (∃ texts, LeafTexts nestedText leaves texts) ↔
      ∀ leaf ∈ leaves, ∃ t, text nestedText leaf = .ok t := by
  constructor
  · rintro ⟨texts, h⟩ leaf hleaf
    induction h with
    | nil => cases hleaf
    | cons hhead _ ih =>
      rcases List.mem_cons.mp hleaf with rfl | htail
      · exact ⟨_, hhead⟩
      · exact ih htail
  · intro h
    induction leaves with
    | nil => exact ⟨[], .nil⟩
    | cons leaf rest ih =>
      obtain ⟨t, ht⟩ := h leaf (by simp)
      obtain ⟨texts, htexts⟩ := ih fun other hother =>
        h other (by simp [hother])
      exact ⟨t :: texts, .cons ht htexts⟩

/-- Leaves have one list of texts. -/
theorem LeafTexts.unique {leaves : List (Filter β)} {s t : List String}
    (hs : LeafTexts nestedText leaves s)
    (ht : LeafTexts nestedText leaves t) : s = t :=
  List.right_unique_forall₂' (fun _ _ _ ha hb => by simpa [ha] using hb) hs ht

/-- Texts are cut into tokens one behind the other. -/
theorem Tokenized.append {n : Nat} {as bs : List (Filter β)} {s t : String}
    {x y : List Token} (ha : Tokenized nestedText n as s x)
    (hb : Tokenized nestedText (n + as.length) bs t y) :
    Tokenized nestedText n (as ++ bs) (s ++ t) (x ++ y) := by
  obtain ⟨a, texts, hspelled, hcut, htexts, hmarks⟩ := ha
  obtain ⟨b, texts', hspelled', hcut', htexts', hmarks'⟩ := hb
  have hlength : as.length = texts.length := htexts.length_eq
  refine ⟨a ++ b, texts ++ texts', ?_, hcut.append hcut',
    htexts.append htexts', ?_⟩
  · rw [spelled_append, hspelled, hspelled']
  · rw [List.filterMap_append, hmarks, hmarks', List.zipIdx_append, hlength]

/-- A text without leaves is cut into the tokens of its symbols. -/
theorem tokenized_chars {n : Nat} {s : String} {tokens : List Token}
    (h : CutInto (chars s) tokens) : Tokenized nestedText n [] s tokens :=
  ⟨chars s, [], spelled_chars s, h, .nil, by simp⟩

/-- The text of a leaf is one token. -/
theorem tokenized_leaf {n : Nat} {leaf : Filter β} {t : String}
    (h : text nestedText leaf = .ok t) :
    Tokenized nestedText n [leaf] t [.leaf n] := by
  refine ⟨[.leaf n t], [t], ?_, cutInto_leaf n t, .cons h .nil, rfl⟩
  simp [spelled, Symbol.text, String.join]

/-- A text in front of another one, without leaves of its own. -/
theorem Tokenized.prepend {n : Nat} {leaves : List (Filter β)} {s t : String}
    {x y : List Token} (hs : CutInto (chars s) x)
    (ht : Tokenized nestedText n leaves t y) :
    Tokenized nestedText n leaves (s ++ t) (x ++ y) :=
  (tokenized_chars hs).append ht

/-- A text in brackets is cut into the tokens of the text between them. -/
theorem Tokenized.parenthesize {n : Nat} {leaves : List (Filter β)}
    {t : String} {tokens : List Token}
    (h : Tokenized nestedText n leaves t tokens) :
    Tokenized nestedText n leaves ("(" ++ t ++ ")")
    (.opening :: (tokens ++ [.closing])) := by
  have hopen := h.prepend cutInto_opening
  have hclose := hopen.append (tokenized_chars cutInto_closing)
  simpa using hclose

/-! ### What the text is read as -/

/-- The operands of a list of filters, with tokens that are read to have
their values. -/
def ReadsTail (truth : Nat → Bool) (n : Nat) (filters : List (Filter β))
    (tokens : List Token) :
    Prop :=
  ∃ items : Operands, (items.flatMap fun x => .chain x.1 :: x.2.1) = tokens ∧
    items.map (Prod.map id Prod.snd) = operands truth n filters ∧
    ∀ x ∈ items, Reads truth .operand x.2.1 x.2.2

/-- A leaf is read as an operand with its own value. -/
theorem leaf_reads (n : Nat) {filter : Filter β} {t : String}
    (h : text nestedText filter = .ok t) :
    ∃ tokens, Tokenized nestedText n [filter] t tokens ∧
      ∀ truth : Nat → Bool, Reads truth .operand tokens (truth n) :=
  ⟨[.leaf n], tokenized_leaf h, fun _ => .leaf n⟩

/-- What is put around the text of a group keeps it one operand and negates
it if the group says so. -/
theorem group_reads {n : Nat} {leaves : List (Filter β)} {inner : String}
    {tokens : List Token} {combination : (Nat → Bool) → Bool} {single : Prop}
    [Decidable single] (negate : Bool)
    (hinner : Tokenized nestedText n leaves inner tokens)
    (hreads : ∀ truth, Reads truth (.joined .or) tokens (combination truth))
    (hsingle : single →
      ∀ truth, Reads truth .operand tokens (combination truth)) :
    ∃ tokens', Tokenized nestedText n leaves
        (if negate then "NOT (" ++ inner ++ ")" else if ¬ single then "(" ++
          inner ++ ")" else inner)
        tokens' ∧
      ∀ truth, Reads truth .operand tokens'
        (negate ^^ combination truth) := by
  have hparen : ∀ truth, Reads truth .operand
      (.opening :: (tokens ++ [.closing]))
      (combination truth) := fun truth => .parentheses (hreads truth)
  cases negate with
  | true =>
    refine ⟨.not :: .opening :: (tokens ++ [.closing]), ?_, fun truth => ?_⟩
    · have hnot := hinner.parenthesize.prepend cutInto_not
      have htext : "NOT (" ++ inner ++ ")" = "NOT " ++
          ("(" ++ inner ++ ")") := by
        rw [← String.append_assoc, ← String.append_assoc]
        rfl
      simpa [htext] using hnot
    · simpa using Reads.not (hparen truth)
  | false =>
    by_cases h : single
    · exact ⟨tokens, by simpa [h] using hinner, by simpa using hsingle h⟩
    · exact ⟨.opening :: (tokens ++ [.closing]),
        by simpa [h] using hinner.parenthesize,
        by simpa using hparen⟩

mutual

/-- **A filter is read as one operand**, with the value of the filter. -/
theorem text_reads (n : Nat) (filter : Filter β) (hfilled : Filled filter)
    {t : String} (h : text nestedText filter = .ok t) :
    ∃ tokens, Tokenized nestedText n (leaves filter) t tokens ∧
      ∀ truth, Reads truth .operand tokens (value truth n filter) := by
  cases filter with
  | compare | compareProperties | isNull | raw | «exists» | count | misplaced =>
    simpa only [leaves, value] using leaf_reads n h
  | group filters negate chain =>
    rw [Filled] at hfilled
    obtain ⟨hne, hall⟩ := hfilled
    rw [text] at h
    obtain ⟨inner, hinner, ht⟩ := bind_eq_ok.mp h
    obtain ⟨tokens, htokens, hreads, hsingle⟩ :=
      listText_reads n filters hne hall hinner
    have hone : ¬ filters.length = 1 ↔ filters.length > 1 := by
      have := List.length_pos_of_ne_nil hne
      omega
    have hgroup := group_reads negate htokens hreads hsingle
    simp only [hone] at hgroup
    cases ht
    simpa only [leaves, value] using hgroup

/-- A list of filters is read to have the combined value of its operands;
one filter alone is read as one operand.  One filter alone is joined to
nothing and stays an operand. -/
theorem listText_reads (n : Nat) (filters : List (Filter β))
    (hne : filters ≠ []) (hfilled : AllFilled filters) {t : String}
    (h : listText nestedText filters = .ok t) :
    ∃ tokens, Tokenized nestedText n (leavesOfAll filters) t tokens ∧
      (∀ truth, Reads truth (.joined .or) tokens
        (combined (operands truth n filters))) ∧
      (filters.length = 1 →
        ∀ truth, Reads truth .operand tokens
          (combined (operands truth n filters))) := by
  match filters, hne with
  | first :: rest, _ =>
    rw [AllFilled] at hfilled
    rw [listText] at h
    obtain ⟨head, hhead, htail⟩ := bind_eq_ok.mp h
    obtain ⟨tail, htail, ht⟩ := bind_eq_ok.mp htail
    obtain ⟨x, hx, hxreads⟩ := text_reads n first hfilled.1 hhead
    obtain ⟨y, hy, hyreads⟩ :=
      tailText_reads (n + (leaves first).length) rest hfilled.2 htail
    cases ht
    refine ⟨x ++ y, ?_, fun truth => ?_, fun hone truth => ?_⟩
    · rw [leavesOfAll]
      exact hx.append hy
    · obtain ⟨items, hitems, hvalues, hreads⟩ := hyreads truth
      have hall : ∀ item ∈ (first.chain, x, value truth n first) :: items,
          Reads truth .operand item.2.1 item.2.2 :=
        List.forall_mem_cons.mpr ⟨hxreads truth, hreads⟩
      have hcombined := reads_combined (by simp) hall
      rw [operands]
      simpa [phrase, hitems, hvalues] using hcombined
    · have hrest : rest = [] := by simpa using hone
      obtain ⟨items, hitems, hvalues, -⟩ := hyreads truth
      rw [hrest, operands, List.map_eq_nil_iff] at hvalues
      have hnone : y = [] := by simpa [hvalues] using hitems.symm
      rw [hrest, hnone, operands, operands, combined_singleton,
        List.append_nil]
      exact hxreads truth

/-- The filters that follow another one are read as operands behind their
chain operators. -/
theorem tailText_reads (n : Nat) (filters : List (Filter β))
    (hfilled : AllFilled filters) {t : String}
    (h : tailText nestedText filters = .ok t) :
    ∃ tokens, Tokenized nestedText n (leavesOfAll filters) t tokens ∧
      ∀ truth, ReadsTail truth n filters tokens := by
  match filters with
  | [] =>
    cases h
    exact ⟨[], tokenized_chars fun _ => by simp [chars], fun truth =>
      ⟨[], rfl, rfl, by simp⟩⟩
  | filter :: rest =>
    rw [AllFilled] at hfilled
    rw [tailText] at h
    obtain ⟨head, hhead, htail⟩ := bind_eq_ok.mp h
    obtain ⟨tail, htail, ht⟩ := bind_eq_ok.mp htail
    obtain ⟨x, hx, hxreads⟩ := text_reads n filter hfilled.1 hhead
    obtain ⟨y, hy, hyreads⟩ :=
      tailText_reads (n + (leaves filter).length) rest hfilled.2 htail
    cases ht
    refine ⟨.chain filter.chain :: (x ++ y), ?_, fun truth => ?_⟩
    · have hboth := (hx.prepend (cutInto_chain filter.chain)).append hy
      rw [leavesOfAll]
      simpa using hboth
    · obtain ⟨items, hitems, hvalues, hreads⟩ := hyreads truth
      refine ⟨(filter.chain, x, value truth n filter) :: items, ?_, ?_,
        List.forall_mem_cons.mpr ⟨hxreads truth, hreads⟩⟩
      · simp [hitems]
      · rw [operands]
        simp [hvalues]

end

/-! ### Which filters have a text -/

/-- Doing something with an answer makes no difference to whether there is
one. -/
theorem exists_map_eq_ok {ε α γ : Type} {x : Except ε α} {g : α → γ} :
    (∃ b, (x >>= fun a => .ok (g a)) = .ok b) ↔ ∃ a, x = .ok a := by
  cases x <;> simp [bind, Except.bind]

/-- Two answers are put together if there are both. -/
theorem exists_pair_eq_ok {ε α γ δ : Type} {x : Except ε α} {y : Except ε γ}
    {g : α → γ → δ} :
    (∃ b, (x >>= fun a => y >>= fun c => .ok (g a c)) = .ok b) ↔
      (∃ a, x = .ok a) ∧ ∃ c, y = .ok c := by
  cases x <;> cases y <;> simp [bind, Except.bind]

/-- What holds of all leaves of filters holds of those of the first and of
the later ones. -/
theorem forall_mem_leavesOfAll_cons {P : Filter β → Prop} {filter : Filter β}
    {rest : List (Filter β)} :
    (∀ leaf ∈ leavesOfAll (filter :: rest), P leaf) ↔
      (∀ leaf ∈ leaves filter, P leaf) ∧
      ∀ leaf ∈ leavesOfAll rest, P leaf := by
  rw [leavesOfAll, List.forall_mem_append]

mutual

/-- **A filter is written exactly if its leaves are.** -/
theorem text_isOk_iff (filter : Filter β) :
    (∃ t, text nestedText filter = .ok t) ↔
      ∀ leaf ∈ leaves filter, ∃ t, text nestedText leaf = .ok t := by
  cases filter with
  | compare | compareProperties | isNull | raw | «exists» | count | misplaced =>
    simp only [leaves, List.forall_mem_singleton]
  | group filters negate chain =>
    rw [text, leaves, ← listText_isOk_iff filters]
    exact exists_map_eq_ok

/-- A list of filters has a text exactly if all leaves have one. -/
theorem listText_isOk_iff (filters : List (Filter β)) :
    (∃ t, listText nestedText filters = .ok t) ↔
      ∀ leaf ∈ leavesOfAll filters, ∃ t, text nestedText leaf = .ok t := by
  match filters with
  | [] => simp [listText, leavesOfAll]
  | first :: rest =>
    rw [listText, forall_mem_leavesOfAll_cons, ← text_isOk_iff first,
      ← tailText_isOk_iff rest]
    exact exists_pair_eq_ok

/-- The later filters of a list are written exactly if their leaves are. -/
theorem tailText_isOk_iff (filters : List (Filter β)) :
    (∃ t, tailText nestedText filters = .ok t) ↔
      ∀ leaf ∈ leavesOfAll filters, ∃ t, text nestedText leaf = .ok t := by
  match filters with
  | [] => simp [tailText, leavesOfAll]
  | filter :: rest =>
    rw [tailText, forall_mem_leavesOfAll_cons, ← text_isOk_iff filter,
      ← tailText_isOk_iff rest]
    exact exists_pair_eq_ok

end

/-- **The text of a list of filters keeps its meaning.**  Marked at the
leaves, which stand in it in their order and each with its own text, it is
read to have one value, that of the list, whatever the values of the leaves;
and there is such a text as soon as all leaves have one. -/
theorem listText_keeps_meaning {filters : List (Filter β)}
    (hne : filters ≠ []) (hfilled : AllFilled filters) :
    (∀ t, listText nestedText filters = .ok t →
      ∃ symbols texts, spelled symbols = t ∧
      LeafTexts nestedText (leavesOfAll filters) texts ∧
        symbols.filterMap Symbol.leaf? = texts.zipIdx ∧
        ∀ truth v, TextReads truth symbols v ↔ v = listValue truth filters) ∧
    ((∃ t, listText nestedText filters = .ok t) ↔
      ∀ leaf ∈ leavesOfAll filters, ∃ t, text nestedText leaf = .ok t) := by
  refine ⟨fun t h => ?_, listText_isOk_iff filters⟩
  obtain ⟨tokens, ⟨symbols, texts, hspelled, hcut, htexts, hmarks⟩,
      hreads, -⟩ :=
    listText_reads 0 filters hne hfilled h
  have htokens : tokens? symbols = some tokens := hcut.tokens?_eq
  refine ⟨symbols, texts, hspelled, htexts, hmarks, fun truth v => ⟨?_, ?_⟩⟩
  · rintro ⟨tokens', htokens', hv⟩
    rw [htokens, Option.some_inj] at htokens'
    subst htokens'
    exact hv.unique (hreads truth)
  · rintro rfl
    exact ⟨tokens, htokens, hreads truth⟩

/-- A negated group and a group of one filter, joined by all three
operators. -/
theorem listText_keeps_meaning_of_groups :
    ∃ symbols, spelled symbols = "(a) OR (b) XOR NOT ((c) OR (d)) AND (e)" ∧
      symbols.filterMap Symbol.leaf? = ["(a)", "(b)", "(c)", "(d)",
        "(e)"].zipIdx ∧
      ∀ truth v, TextReads truth symbols v ↔
        v = (truth 0 || (truth 1 ^^ (!(truth 2 || truth 3) && truth 4))) := by
  let filters : List (Filter Unit) :=
    [.raw "a" .and, .raw "b" .or,
      .group [.raw "c" .and, .raw "d" .or] true .xor,
      .group [.raw "e" .or] false .and]
  let nestedText : Unit → Except Fault String := fun _ => .ok ""
  have hfilled : AllFilled filters := by simp [filters, AllFilled, Filled]
  obtain ⟨hmeaning, -⟩ :=
    @listText_keeps_meaning _ nestedText filters (by simp [filters]) hfilled
  obtain ⟨symbols, texts, hspelled, htexts, hmarks, hreads⟩ := hmeaning _ rfl
  have hleaves : LeafTexts (fun _ => .ok "") (leavesOfAll filters)
      ["(a)", "(b)", "(c)", "(d)", "(e)"] :=
    .cons rfl (.cons rfl (.cons rfl (.cons rfl (.cons rfl .nil))))
  have htexts' : texts = ["(a)", "(b)", "(c)", "(d)", "(e)"] :=
    htexts.unique hleaves
  have hvalue : ∀ a b c d e, combined [(.and, a), (.or, b),
      (.xor, true ^^ combined [(.and, c), (.or, d)]),
      (.and, false ^^ combined [(.or, e)])] =
        (a || (b ^^ (!(c || d) && e))) := by decide
  refine ⟨symbols, hspelled, htexts' ▸ hmarks, fun truth v =>
    (hreads truth v).trans ?_⟩
  rw [← hvalue]
  rfl

end

end Filter

end GraphQuery
