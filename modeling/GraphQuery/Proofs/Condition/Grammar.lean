import GraphQuery.Filter.Operator
import Mathlib.Data.List.SplitBy

/-!
# Reading a condition

How the text of a condition is read: with parentheses, and with NOT before
AND, AND before XOR, XOR before OR.  The operands are leaves.  A leaf is a
stretch of the text nobody looks into; it only has a number, under which it
is given a truth value.

* `tokens?` cuts a text with marked leaves into tokens;
* `Reads` is the grammar, with the value of every phrase;
* `Reads.unique`: the grammar gives a text one value at most;
* `reads_combined`: operands joined by chain operators are read as
  `combined` evaluates them.
-/

namespace GraphQuery

namespace Chain

/-- What a chain operator makes of two values. -/
def apply : Chain → Bool → Bool → Bool
  | and, u, v => u && v
  | or, u, v => u || v
  | xor, u, v => u ^^ v

/-- The value that changes nothing in front of an operator. -/
def neutral : Chain → Bool
  | and => true
  | or => false
  | xor => false

/-- The neutral value of an operator is neutral on the left. -/
@[simp]
theorem apply_neutral (c : Chain) (v : Bool) : c.apply c.neutral v = v := by
  cases c <;> simp [apply, neutral]

/-- The values between which an operator stands, from left to right. -/
def fold (c : Chain) (values : List Bool) :
    Bool := values.foldl c.apply c.neutral

/-- One value is folded to itself. -/
@[simp]
theorem fold_singleton (c : Chain) (v : Bool) : c.fold [v] = v := by
  simp [fold]

/-- Folding ends with the last value. -/
theorem fold_concat (c : Chain) (values : List Bool) (v : Bool) :
    c.fold (values ++ [v]) = c.apply (c.fold values) v := by
  simp [fold]

/-- The neutral value of an operator is neutral on the right. -/
theorem apply_neutral_right (c : Chain) (v : Bool) :
    c.apply v c.neutral = v := by
  cases c <;> simp [apply, neutral]

/-- Every chain operator is associative. -/
theorem apply_assoc (c : Chain) (u v w : Bool) :
    c.apply (c.apply u v) w = c.apply u (c.apply v w) := by
  cases c <;> simp [apply, Bool.and_assoc, Bool.or_assoc]

/-- Values are folded in two goes. -/
theorem fold_append (c : Chain) (us vs : List Bool) :
    c.fold (us ++ vs) = c.apply (c.fold us) (c.fold vs) := by
  induction vs using List.reverseRecOn with
  | nil =>
    rw [List.append_nil]
    exact (apply_neutral_right c (c.fold us)).symm
  | append_singleton vs v ih => rw [← List.append_assoc, fold_concat,
      fold_concat, ih, apply_assoc]

/-- What an operator makes of some values; none if there are none. -/
def joined (c : Chain) (values : List Bool) : Option Bool :=
  if values.isEmpty then none else some (c.fold values)

/-- No values join to none. -/
@[simp]
theorem joined_nil (c : Chain) : c.joined [] = none := rfl

/-- One value joins to itself. -/
@[simp]
theorem joined_singleton (c : Chain) (v : Bool) : c.joined [v] = some v := by
  simp [joined]

/-- Values are joined in two goes. -/
theorem joined_append (c : Chain) (us vs : List Bool) :
    c.joined (us ++ vs) = (c.joined us).merge c.apply (c.joined vs) := by
  cases us with
  | nil => simp
  | cons u us =>
    cases vs with
    | nil => simp
    | cons v vs =>
      rw [joined, joined, joined, fold_append]
      rfl

end Chain

namespace Condition

/-- A piece of the text of a condition: a character, or a leaf with its
number and its text. -/
inductive Symbol where
  | char (c : Char)
  | leaf (i : Nat) (text : String)
  deriving DecidableEq, Repr

namespace Symbol

/-- The text a piece stands for. -/
def text : Symbol → String
  | char c => String.singleton c
  | leaf _ text => text

/-- The text and the number of a leaf. -/
def leaf? : Symbol → Option (String × Nat)
  | char _ => none
  | leaf i text => some (text, i)

end Symbol

/-- The text that is marked by a list of pieces. -/
def spelled (symbols : List Symbol) :
    String := String.join (symbols.map Symbol.text)

/-- A text without leaves. -/
def chars (s : String) : List Symbol := s.toList.map Symbol.char

/-- Symbols are spelled one behind the other. -/
@[simp]
theorem spelled_append (a b : List Symbol) :
    spelled (a ++ b) = spelled a ++ spelled b := by
  simp [spelled]

/-- The symbols of a text spell it. -/
@[simp]
theorem spelled_chars (s : String) : spelled (chars s) = s := by
  have h : ∀ cs : List Char,
      spelled (cs.map Symbol.char) = String.ofList cs := by
    intro cs
    induction cs with
    | nil => rfl
    | cons c rest ih =>
      have hc : spelled [.char c] = String.ofList [c] := by
        rw [← String.singleton_eq_ofList]
        rfl
      rw [List.map_cons, ← List.singleton_append, spelled_append, ih, hc,
        ← String.ofList_append]
      rfl
  rw [chars, h, String.ofList_toList]

@[simp]
theorem filterMap_leaf?_chars (s : String) :
    (chars s).filterMap Symbol.leaf? = [] := by
  simp [chars, Symbol.leaf?, List.filterMap_map, Function.comp_def]

/-- A word or sign of a condition. -/
inductive Token where
  | leaf (i : Nat)
  | not
  | chain (c : Chain)
  | opening
  | closing
  deriving DecidableEq, Repr

/-- The token of a keyword; none for no word at all. -/
def word? (word : List Char) : Option (List Token) :=
  if word.isEmpty then some []
  else if word = "NOT".toList then some [.not]
  else (Chain.ofKeyword? (String.ofList word)).map fun c => [.chain c]

/-- The tokens of a text, given the word read so far. -/
def tokensFrom? (word : List Char) : List Symbol → Option (List Token)
  | [] => word? word
  | .leaf i _ :: rest => do
    return (← word? word) ++ .leaf i :: (← tokensFrom? [] rest)
  | .char c :: rest =>
    if c = '(' then do
      return (← word? word) ++ .opening :: (← tokensFrom? [] rest)
    else if c = ')' then do
      return (← word? word) ++ .closing :: (← tokensFrom? [] rest)
    else if Text.isBlank c then do
      return (← word? word) ++ (← tokensFrom? [] rest)
    else tokensFrom? (word ++ [c]) rest

/-- The tokens of a text; none if it holds a word that is no keyword. -/
def tokens? (symbols : List Symbol) : Option (List Token) :=
  tokensFrom? [] symbols

/-- The kinds of phrases: an operand, and what an operator and all tighter
ones join. -/
inductive Level where
  | operand
  | joined (c : Chain)
  deriving DecidableEq, Repr

/-- What a chain operator stands between. -/
def tighter : Chain → Level
  | .and => .operand
  | .xor => .joined .and
  | .or => .joined .xor

/-- **The grammar of conditions**, with the value of every phrase.  `truth`
gives the leaves their values. -/
inductive Reads (truth : Nat → Bool) : Level → List Token → Bool → Prop
  | leaf (i : Nat) : Reads truth .operand [.leaf i] (truth i)
  | not {tokens : List Token} {v : Bool} (h : Reads truth .operand tokens v) :
      Reads truth .operand (.not :: tokens) (!v)
  | parentheses {tokens : List Token} {v : Bool}
      (h : Reads truth (.joined .or) tokens v) :
      Reads truth .operand (.opening :: (tokens ++ [.closing])) v
  | single (c : Chain) {tokens : List Token} {v : Bool}
      (h : Reads truth (tighter c) tokens v) :
      Reads truth (.joined c) tokens v
  | join (c : Chain) {left right : List Token} {u v : Bool}
      (hleft : Reads truth (.joined c) left u)
      (hright : Reads truth (tighter c) right v) :
      Reads truth (.joined c) (left ++ .chain c :: right) (c.apply u v)

/-- The values a text with marked leaves is read to have. -/
def TextReads (truth : Nat → Bool) (symbols : List Symbol) (v : Bool) :
    Prop :=
  ∃ tokens, tokens? symbols = some tokens ∧ Reads truth (.joined .or) tokens v

/-! ### One value at most

An evaluator that goes through the tokens once computes the value of every
phrase that is read.  As it computes one value only, the grammar is
unambiguous. -/

/-- What is known of a disjunction read so far: the value before the last
OR, between the last OR and the last XOR, after the last XOR, and whether an
odd number of NOTs stands before the next operand. -/
structure Frame where
  disjunction : Bool := false
  exclusive : Bool := false
  conjunction : Bool := true
  negated : Bool := false
  deriving DecidableEq, Repr

namespace Frame

/-- Read an operand. -/
def take (f : Frame) (v : Bool) : Frame :=
  { f with conjunction := f.conjunction &&
    (v ^^ f.negated), negated := false }

/-- The value of what is read so far. -/
def value (f : Frame) :
    Bool := f.disjunction || (f.exclusive ^^ f.conjunction)

end Frame

/-- Read a token: the frame at hand, and the frames of the parentheses
around it. -/
def advance (truth : Nat → Bool) : Frame × List Frame → Token →
    Frame × List Frame
  | (f, outer), .leaf i => (f.take (truth i), outer)
  | (f, outer), .not => ({ f with negated := !f.negated }, outer)
  | (f, outer), .chain .and => (f, outer)
  | (f, outer), .chain .xor =>
    ({ f with exclusive := f.exclusive ^^ f.conjunction, conjunction :=
      true }, outer)
  | (f, outer), .chain .or => ({ disjunction := f.value }, outer)
  | (f, outer), .opening => ({}, f :: outer)
  | (f, g :: outer), .closing => (g.take f.value, outer)
  | (f, []), .closing => (f, [])

/-- The value of a list of tokens. -/
def evaluate (truth : Nat → Bool) (tokens : List Token) : Bool :=
  (tokens.foldl (advance truth) ({}, [])).1.value

/-- What reading a phrase of a level makes of a frame: an operand may follow
a NOT, a phrase of a chain operator starts where no tighter operator is
pending. -/
def Level.Advances (before after : Frame) (v : Bool) : Level → Prop
  | .operand => after = before.take v
  | .joined .and =>
    before.negated = false →
    after = { before with conjunction := before.conjunction && v }
  | .joined .xor =>
    before.negated = false → before.conjunction = true →
      after.negated = false ∧ after.disjunction = before.disjunction ∧
        (after.exclusive ^^ after.conjunction) = (before.exclusive ^^ v)
  | .joined .or =>
    before.negated = false → before.conjunction = true →
    before.exclusive = false →
      after.negated = false ∧ after.value = (before.disjunction || v)

/-- **A phrase advances the evaluator by its value**, and leaves the frames
around it alone.  What the left phrase leaves pending is closed by the
operator before the right one is read. -/
theorem Reads.advances {truth : Nat → Bool}
    {level : Level} {tokens : List Token} {v : Bool}
    (h : Reads truth level tokens v) (f : Frame) (outer : List Frame) :
    ∃ after, tokens.foldl (advance truth) (f, outer) = (after, outer) ∧
      level.Advances f after v := by
  induction h generalizing f outer with
  | leaf i => exact ⟨f.take (truth i), rfl, rfl⟩
  | @not tokens v _ ih =>
    obtain ⟨after, hrun, hafter⟩ := ih { f with negated := !f.negated } outer
    refine ⟨after, by simpa [advance] using hrun, ?_⟩
    have htake : after = Frame.take { f with negated := !f.negated } v :=
      hafter
    show after = f.take (!v)
    simp [htake, Frame.take]
  | @parentheses tokens v _ ih =>
    obtain ⟨inner, hrun, hinner⟩ := ih {} (f :: outer)
    obtain ⟨-, hvalue⟩ := hinner rfl rfl rfl
    refine ⟨f.take inner.value, ?_, by simp [Level.Advances, hvalue]⟩
    simp [List.foldl_append, advance, hrun]
  | @single c tokens v _ ih =>
    obtain ⟨after, hrun, hafter⟩ := ih f outer
    refine ⟨after, hrun, ?_⟩
    cases c with
    | and =>
      intro hneg
      have htake : after = f.take v := hafter
      simp [htake, Frame.take, hneg]
    | xor =>
      intro hneg hconj
      have hjoined := hafter hneg
      simp [hjoined, hneg, hconj]
    | or =>
      intro hneg hconj hexcl
      obtain ⟨hneg', hdisj, hparity⟩ := hafter hneg hconj
      refine ⟨hneg', ?_⟩
      simp [Frame.value, hdisj, hparity, hexcl]
  | @join c left right u v _ _ ihleft ihright =>
    obtain ⟨middle, hrunl, hmiddle⟩ := ihleft f outer
    obtain ⟨after, hrunr, hafter⟩ :=
      ihright (advance truth (middle, outer) (.chain c)).1 outer
    refine ⟨after, ?_, ?_⟩
    · cases c <;> simpa [List.foldl_append, hrunl, advance] using hrunr
    · cases c with
      | and =>
        intro hneg
        have hm := hmiddle hneg
        have ha : after = middle.take v := hafter
        simp [ha, hm, Frame.take, hneg, Chain.apply, Bool.and_assoc]
      | xor =>
        intro hneg hconj
        obtain ⟨hneg', hdisj, hparity⟩ := hmiddle hneg hconj
        have ha := hafter hneg'
        simp [ha, advance, hneg', hdisj, hparity, Chain.apply]
      | or =>
        intro hneg hconj hexcl
        obtain ⟨hneg', hvalue⟩ := hmiddle hneg hconj hexcl
        obtain ⟨hneg'', hdisj, hparity⟩ := hafter rfl rfl
        refine ⟨hneg'', ?_⟩
        have hdisj' : after.disjunction = middle.value := hdisj
        have hparity' : (after.exclusive ^^ after.conjunction) = v := by
          simpa [advance] using hparity
        rw [Frame.value, hparity', hdisj', hvalue, Bool.or_assoc]
        rfl

/-- **A phrase is evaluated to its value.** -/
theorem Reads.evaluate_eq {truth : Nat → Bool} {tokens : List Token}
    {v : Bool} (h : Reads truth (.joined .or) tokens v) :
    evaluate truth tokens = v := by
  obtain ⟨after, hrun, hafter⟩ := h.advances {} []
  obtain ⟨-, hvalue⟩ := hafter rfl rfl rfl
  simp [evaluate, hrun, hvalue]

/-- **The grammar is unambiguous.**  A condition is read to have one value
at most. -/
theorem Reads.unique {truth : Nat → Bool} {tokens : List Token} {u v : Bool}
    (hu : Reads truth (.joined .or) tokens u)
    (hv : Reads truth (.joined .or) tokens v) : u = v :=
  hu.evaluate_eq.symm.trans hv.evaluate_eq

/-! ### Operands joined by chain operators -/

/-- A list cut in front of every element with the chain operator `c`; that
of the first element does not count. -/
def runs {α : Type} (c : Chain) (xs : List (Chain × α)) :
    List (List (Chain × α)) :=
  xs.splitBy fun _ x => x.1 != c

/-- **The value of operands joined by chain operators**: a disjunction of
exclusive disjunctions of conjunctions.  The operator of the first operand
does not count. -/
def combined (operands : List (Chain × Bool)) : Bool :=
  Chain.or.fold <| (runs .or operands).map fun alternative =>
    Chain.xor.fold <| (runs .xor alternative).map fun conjuncts =>
      Chain.and.fold (conjuncts.map Prod.snd)

/-- One operand has its own value. -/
@[simp]
theorem combined_singleton (c : Chain) (v : Bool) :
    combined [(c, v)] = v := by
  have hrun : ∀ c', runs c' [(c, v)] = [[(c, v)]] := fun c' =>
    List.splitBy_of_isChain (by simp) (List.isChain_singleton _)
  simp [combined, hrun]

/-- What holds of all members behind the first one holds from member to
member. -/
theorem isChain_of_forall_tail {α : Type} {P : α → Prop} {x : α} {xs : List α}
    (h : ∀ y ∈ xs, P y) : (x :: xs).IsChain fun _ y => P y := by
  induction xs generalizing x with
  | nil => exact List.isChain_singleton x
  | cons y ys ih =>
    exact .cons_cons (h y List.mem_cons_self) (ih fun z hz =>
      h z (List.mem_cons_of_mem y hz))

/-- Operands that no operator parts are one run. -/
theorem runs_of_tail_ne {α : Type} {c : Chain} {x : Chain × α}
    {xs : List (Chain × α)} (h : ∀ y ∈ xs, y.1 ≠ c) :
    runs c (x :: xs) = [x :: xs] :=
  List.splitBy_of_isChain (List.cons_ne_nil x xs)
    (isChain_of_forall_tail fun y hy => bne_iff_ne.mpr (h y hy))

/-- Operands that are all parted are runs of their own. -/
theorem runs_of_tail_eq {α : Type} {c : Chain} {x : Chain × α}
    {xs : List (Chain × α)} (h : ∀ y ∈ xs, y.1 = c) :
    runs c (x :: xs) = (x :: xs).map fun y => [y] := by
  rw [runs, List.splitBy_eq_iff]
  refine ⟨?_, ?_, ?_, ?_⟩
  · rw [← List.flatMap_def, List.flatMap_singleton']
  · simp
  · intro run hrun
    obtain ⟨y, -, rfl⟩ := List.mem_map.mp hrun
    exact List.isChain_singleton y
  · refine (List.isChain_map _).mpr
      ((isChain_of_forall_tail h).imp fun y z hz => ?_)
    exact ⟨by simp, by simp, by simpa using hz⟩

/-- **Operands that are all joined by one operator** have the value it makes
of theirs. -/
theorem combined_of_tail_eq {c : Chain} {x : Chain × Bool}
    {xs : List (Chain × Bool)} (h : ∀ y ∈ xs, y.1 = c) :
    combined (x :: xs) = c.fold ((x :: xs).map Prod.snd) := by
  have hruns : ∀ c', c' ≠ c → runs c' (x :: xs) = [x :: xs] := fun c' hne =>
    runs_of_tail_ne fun y hy => by rw [h y hy]; exact hne.symm
  have hsingle : ∀ (c' : Chain) (y : Chain × Bool), runs c' [y] = [[y]] :=
    fun c' y =>
    runs_of_tail_ne fun _ hz => nomatch hz
  cases c with
  | and => simp [combined, hruns .or (by decide), hruns .xor (by decide)]
  | xor => simp [combined, hruns .or (by decide), runs_of_tail_eq h,
      Function.comp_def]
  | or => simp [combined, runs_of_tail_eq h, hsingle, Function.comp_def]

/-- Operands with their tokens and their values, each with the operator in
front of it. -/
abbrev Operands := List (Chain × List Token × Bool)

/-- The tokens of operands joined by their operators. -/
def phrase : Operands → List Token
  | [] => []
  | first :: rest => first.2.1 ++ rest.flatMap fun x => .chain x.1 :: x.2.1

/-- Two rows of operands are joined by the operator of the first one in the
second row. -/
theorem phrase_append_cons {xs : Operands} (hne : xs ≠ [])
    (y : Chain × List Token × Bool) (ys : Operands) :
    phrase (xs ++ y :: ys) = phrase xs ++ .chain y.1 :: phrase (y :: ys) := by
  cases xs with
  | nil => exact absurd rfl hne
  | cons x xs => simp [phrase]

/-- Cutting a list commutes with changing what stands behind the operators. -/
theorem runs_map {α β : Type} (c : Chain) (f : α → β)
    (xs : List (Chain × α)) :
    runs c (xs.map (Prod.map id f)) =
      (runs c xs).map (List.map (Prod.map id f)) := by
  rw [runs, List.splitBy_eq_iff]
  refine ⟨?_, ?_, ?_, ?_⟩
  · rw [← List.map_flatten, runs, List.flatten_splitBy]
  · simp [runs]
  · intro ys hys
    obtain ⟨zs, hzs, rfl⟩ := List.mem_map.mp hys
    exact (List.isChain_map _).mpr (List.isChain_of_mem_splitBy hzs)
  · refine (List.isChain_map _).mpr
      ((List.isChain_getLast_head_splitBy _ xs).imp ?_)
    rintro as bs ⟨ha, hb, h⟩
    exact ⟨by simpa using ha, by simpa using hb, by simpa using h⟩

section

variable {truth : Nat → Bool}

/-- Phrases joined by one operator are read from left to right.  The
induction is from the end of the blocks, since an operator joins all that
has been read to the next phrase. -/
theorem reads_flatten {c : Chain} {value : Operands → Bool}
    {blocks : List Operands} (hne : blocks ≠ []) (hblocks : [] ∉ blocks)
    (hheads : blocks.IsChain fun _ b => ∃ h : b ≠ [], (b.head h).1 = c)
    (hreads : ∀ b ∈ blocks, Reads truth (tighter c) (phrase b) (value b)) :
    Reads truth (.joined c) (phrase blocks.flatten)
    (c.fold (blocks.map value)) := by
  induction blocks using List.reverseRecOn with
  | nil => exact absurd rfl hne
  | append_singleton init last ih =>
    by_cases hinit : init = []
    · subst hinit
      simpa using Reads.single c (hreads last (by simp))
    · have hleft : Reads truth (.joined c) (phrase init.flatten)
          (c.fold (init.map value)) :=
        ih hinit (fun h => hblocks (by simp [h])) hheads.left_of_append
          (fun b hb => hreads b (by simp [hb]))
      obtain ⟨prior, hprior⟩ :=
        List.getLast?_isSome.mpr hinit |> Option.isSome_iff_exists.mp
      obtain ⟨hlast, hchain⟩ :=
        (List.isChain_append.mp hheads).2.2 prior (by simp [hprior]) last
          (by simp)
      have hflat : init.flatten ≠ [] := by
        obtain ⟨b, hb⟩ := List.exists_mem_of_ne_nil _ hinit
        intro h
        have := List.flatten_eq_nil_iff.mp h b hb
        exact hblocks (by simp [← this, hb])
      obtain ⟨y, ys, rfl⟩ := List.exists_cons_of_ne_nil hlast
      have hy : y.1 = c := hchain
      have hright := hreads (y :: ys) (by simp)
      simp only [List.flatten_append, List.flatten_cons, List.flatten_nil,
        List.append_nil,
        List.map_append, List.map_cons, List.map_nil, Chain.fold_concat]
      rw [phrase_append_cons hflat, hy]
      exact Reads.join c hleft hright

/-- Runs joined by an operator are read to the values they fold to. -/
theorem reads_runs {c : Chain} {value : Operands → Bool} {xs : Operands}
    (hne : xs ≠ [])
    (hreads : ∀ b ∈ runs c xs, Reads truth (tighter c) (phrase b) (value b)) :
    Reads truth (.joined c) (phrase xs) (c.fold ((runs c xs).map value)) := by
  have hheads : (runs c xs).IsChain fun _ b =>
      ∃ h : b ≠ [], (b.head h).1 = c := by
    refine (List.isChain_getLast_head_splitBy _ xs).imp ?_
    rintro a b ⟨-, hb, h⟩
    exact ⟨hb, by simpa using h⟩
  have h := reads_flatten (List.splitBy_ne_nil.mpr hne)
    (List.nil_notMem_splitBy _ xs) hheads hreads
  rwa [List.flatten_splitBy] at h

/-- Operands joined by AND alone. -/
theorem reads_conjuncts {xs : Operands} (hne : xs ≠ [])
    (hand : xs.IsChain fun _ x => x.1 = .and)
    (hreads : ∀ x ∈ xs, Reads truth .operand x.2.1 x.2.2) :
    Reads truth (.joined .and) (phrase xs)
    (Chain.and.fold (xs.map fun x => x.2.2)) := by
  let value : Operands → Bool := fun b =>
    (b.head?.map fun x => x.2.2).getD false
  have h : Reads truth (.joined .and) (phrase (xs.map fun x => [x]).flatten)
      (Chain.and.fold ((xs.map fun x => [x]).map value)) := by
    refine reads_flatten (by simpa using hne) (by simp) ?_ ?_
    · refine (List.isChain_map _).mpr (hand.imp ?_)
      intro _ x hx
      exact ⟨by simp, hx⟩
    · intro b hb
      obtain ⟨x, hx, rfl⟩ := List.mem_map.mp hb
      have hx' : Reads truth (tighter .and) x.2.1 x.2.2 := hreads x hx
      simpa [phrase, value] using hx'
  simpa [value, ← List.flatMap_def, Function.comp_def] using h

/-- **Operands joined by chain operators are read to have their combined
value.** -/
theorem reads_combined {xs : Operands} (hne : xs ≠ [])
    (hreads : ∀ x ∈ xs, Reads truth .operand x.2.1 x.2.2) :
    Reads truth (.joined .or) (phrase xs)
    (combined (xs.map (Prod.map id Prod.snd))) := by
  have hcombined : combined (xs.map (Prod.map id Prod.snd)) =
      Chain.or.fold ((runs .or xs).map fun alternative =>
        Chain.xor.fold ((runs .xor alternative).map fun conjuncts =>
          Chain.and.fold (conjuncts.map fun x => x.2.2))) := by
    simp [combined, runs_map, Function.comp_def]
  rw [hcombined]
  refine reads_runs hne fun alternative halt => ?_
  refine reads_runs (List.ne_nil_of_mem_splitBy halt) fun conjuncts hcon => ?_
  have hpart : conjuncts <:+: alternative := by
    have := List.infix_of_mem_flatten hcon
    rwa [runs, List.flatten_splitBy] at this
  have hxor : conjuncts.IsChain fun _ x => (x.1 != .xor) = true :=
    List.isChain_of_mem_splitBy hcon
  have hor : conjuncts.IsChain fun _ x => (x.1 != .or) = true :=
     List.IsChain.infix (List.isChain_of_mem_splitBy halt) hpart
  have hand : conjuncts.IsChain fun _ x => x.1 = .and := by
    refine List.isChain_iff_forall_rel_of_append_cons_cons.mpr ?_
    intro _ x _ _ heq
    have hx := List.isChain_iff_forall_rel_of_append_cons_cons.mp hxor heq
    have hx' := List.isChain_iff_forall_rel_of_append_cons_cons.mp hor heq
    cases hchain : x.1 <;> simp [hchain] at hx hx' ⊢
  refine reads_conjuncts (List.ne_nil_of_mem_splitBy hcon) hand fun x hx =>
    hreads x ?_
  have halt' : alternative <:+: xs := by
    have := List.infix_of_mem_flatten halt
    rwa [runs, List.flatten_splitBy] at this
  exact halt'.subset (hpart.subset hx)

end

end Condition

end GraphQuery
