import GraphQuery.Text.Quoted
import Mathlib.Data.List.Basic
import Mathlib.Logic.Function.Basic

/-!
# Legible texts

A way of writing is legible if what is written can be told from whatever
stands behind it, as long as that does not begin with a character that might
still belong to it (`Legible`).  Names and strings are legible once they are
quoted (`legible_quoteIdentifier`, `legible_quoteString`), and legible parts
make legible wholes: one part behind the other, lists of parts that are set
apart, parts that may be missing.
-/

namespace GraphQuery.Text

/-- What stands behind a text does not begin with a character to avoid. -/
def Follows (avoid : Char → Bool) (r : List Char) :
    Prop := ∀ c ∈ r.head?, avoid c = false

/-- The end follows everything. -/
theorem follows_nil (avoid : Char → Bool) : Follows avoid [] := nofun

/-- Where nothing is avoided anything follows. -/
theorem follows_anything (r : List Char) : Follows (fun _ => false) r :=
  fun _ _ => rfl

/-- A character that is not avoided follows. -/
theorem follows_cons {avoid : Char → Bool} {c : Char} (h : avoid c = false)
    (r : List Char) :
    Follows avoid (c :: r) := by
  intro d hd
  obtain rfl : c = d := Option.some.inj hd
  exact h

/-- What follows begins with no avoided character. -/
theorem Follows.head {avoid : Char → Bool} {c : Char} {r : List Char}
    (h : Follows avoid (c :: r)) :
    avoid c = false :=
  h c rfl

/-- What follows does not begin with a given one of the avoided characters. -/
theorem Follows.ne_cons {avoid : Char → Bool} {c : Char} {r s : List Char}
    (h : Follows avoid r) (hc : avoid c = true) : r ≠ c :: s := by
  rintro rfl
  rw [h.head] at hc
  cases hc

/-- One more character to avoid. -/
def also (avoid : Char → Bool) (c : Char) : Char → Bool := fun d =>
    avoid d || d == c

/-- A character that is avoided also is avoided. -/
theorem also_self (avoid : Char → Bool) (c : Char) :
    also avoid c c = true := by
  rw [also, beq_self_eq_true, Bool.or_true]

/-- What follows where more is avoided follows where less is. -/
theorem Follows.of_also {avoid : Char → Bool} {c : Char} {r : List Char}
    (h : Follows (also avoid c) r) : Follows avoid r :=
  fun d hd => (Bool.or_eq_false_iff.mp (h d hd)).1

/-- Parts, each behind a separator. -/
def listed {α : Type} (separator : Char) (write : α → List Char)
    (items : List α) : List Char :=
  items.flatMap fun a => separator :: write a

/-- Parts with separators between them, behind a character that is there
unless there are none. -/
def joinedBehind {α : Type} (front separator : Char)
    (write : α → List Char) : List α → List Char
  | [] => []
  | a :: rest => front :: write a ++ listed separator write rest

/-- What may stand behind a list may stand behind each of its parts, and so
may the separator. -/
theorem follows_listed {α : Type} {avoid : Char → Bool} {separator : Char}
    (hseparator : avoid separator = false) (write : α → List Char)
    (items : List α) {r : List Char} (h : Follows (also avoid separator) r) :
    Follows avoid (listed separator write items ++ r) := by
  cases items with
  | nil => exact h.of_also
  | cons a rest => exact follows_cons hseparator _

/-- Items behind a front follow what avoids neither the front nor the
separator. -/
theorem follows_joinedBehind {α : Type} {avoid : Char → Bool}
    {front separator : Char} (hfront : avoid front = false)
    (write : α → List Char) (items : List α) {r : List Char}
    (h : Follows (also (also avoid separator) front) r) :
    Follows avoid (joinedBehind front separator write items ++ r) := by
  cases items with
  | nil => exact h.of_also.of_also
  | cons a rest => exact follows_cons hfront _

/-- A way of writing that can be read back from the front of a text, unless
what stands behind begins with a character to avoid. -/
def Legible {α : Type} (write : α → List Char) (avoid : Char → Bool) : Prop :=
  ∀ a b r s, Follows avoid r → Follows avoid s →
  write a ++ r = write b ++ s → a = b ∧ r = s

namespace Legible

variable {α β : Type} {write : α → List Char} {other : β → List Char}
    {avoid further : Char → Bool}

/-- What can be read back is told by its text. -/
theorem injective (h : Legible write avoid) : Function.Injective write := by
  intro a b hab
  refine (h a b [] [] (follows_nil avoid) (follows_nil avoid) ?_).1
  rw [hab]

/-- What can be told by something that can be read back can be read back. -/
theorem comp {f : β → α} (h : Legible write avoid)
    (hf : Function.Injective f) :
    Legible (fun b => write (f b)) avoid := by
  intro a b r s hr hs heq
  obtain ⟨hab, hrest⟩ := h (f a) (f b) r s hr hs heq
  exact ⟨hf hab, hrest⟩

/-- More characters may be avoided than need be. -/
theorem mono (h : Legible write avoid)
    (hle : ∀ c, avoid c = true → further c = true) :
    Legible write further := by
  have hfollows : ∀ {r}, Follows further r → Follows avoid r := by
    intro r hr c hc
    have hfurther := hr c hc
    by_contra havoid
    rw [hle c (eq_true_of_ne_false havoid)] at hfurther
    cases hfurther
  exact fun a b r s hr hs heq => h a b r s (hfollows hr) (hfollows hs) heq

/-- Something fixed stands in front. -/
theorem prepend (h : Legible write avoid) (front : List Char) :
    Legible (fun a => front ++ write a) avoid := by
  intro a b r s hr hs heq
  rw [List.append_assoc, List.append_assoc] at heq
  exact h a b r s hr hs (List.append_cancel_left heq)

/-- Something fixed stands behind, which tells the end of what is written. -/
theorem close (h : Legible write avoid) {c : Char} (hc : avoid c = false)
    (back : List Char) :
    Legible (fun a => write a ++ c :: back) fun _ => false := by
  intro a b r s _ _ heq
  rw [List.append_assoc, List.append_assoc] at heq
  obtain ⟨hab, hrest⟩ := h a b _ _ (follows_cons hc _) (follows_cons hc _) heq
  exact ⟨hab, List.append_cancel_left (List.cons.inj hrest).2⟩

/-- Two parts stand one behind the other. -/
theorem append (h : Legible write avoid) (hother : Legible other further)
    (hfollows : ∀ b r, Follows further r → Follows avoid (other b ++ r)) :
    Legible (fun p : α × β => write p.1 ++ other p.2) further := by
  rintro ⟨a, a'⟩ ⟨b, b'⟩ r s hr hs heq
  dsimp only at heq
  rw [List.append_assoc, List.append_assoc] at heq
  obtain ⟨rfl, hrest⟩ := h a b _ _ (hfollows a' r hr) (hfollows b' s hs) heq
  obtain ⟨rfl, rfl⟩ := hother a' b' r s hr hs hrest
  exact ⟨rfl, rfl⟩

/-- A list of parts, each behind a separator. -/
theorem list (h : Legible write avoid) {separator : Char}
    (hseparator : avoid separator = false) :
    Legible (listed separator write) (also avoid separator) := by
  intro items others r s hr hs heq
  induction items generalizing others with
  | nil =>
    cases others with
    | nil => exact ⟨rfl, heq⟩
    | cons b later =>
      exact absurd heq (hr.ne_cons (also_self avoid separator))
  | cons a rest ih =>
    cases others with
    | nil => exact absurd heq.symm (hs.ne_cons (also_self avoid separator))
    | cons b later =>
      simp only [listed, List.flatMap_cons, List.cons_append,
        List.append_assoc] at heq
      obtain ⟨rfl, hrest⟩ :=
        h a b _ _ (follows_listed hseparator write rest hr)
        (follows_listed hseparator write later hs) (List.cons.inj heq).2
      obtain ⟨rfl, rfl⟩ := ih later hrest
      exact ⟨rfl, rfl⟩

/-- A list of parts with separators between them, behind a character that is
there unless the list is empty. -/
theorem joined (h : Legible write avoid) (front : Char) {separator : Char}
    (hseparator : avoid separator = false) :
    Legible (joinedBehind front separator write)
    (also (also avoid separator) front) := by
  intro items others r s hr hs heq
  cases items with
  | nil =>
    cases others with
    | nil => exact ⟨rfl, heq⟩
    | cons b later => exact absurd heq (hr.ne_cons (also_self _ front))
  | cons a rest =>
    cases others with
    | nil => exact absurd heq.symm (hs.ne_cons (also_self _ front))
    | cons b later =>
      have hparts := (h.append (h.list hseparator) fun items t ht =>
        follows_listed hseparator write items ht).prepend [front]
      obtain ⟨hsame, hrest⟩ :=
        hparts (a, rest) (b, later) r s hr.of_also hs.of_also heq
      obtain ⟨rfl, rfl⟩ := Prod.mk.inj hsame
      exact ⟨rfl, hrest⟩

/-- A part that is left out for one value. -/
theorem optional [DecidableEq α] (h : Legible write avoid) (missing : α)
    (hthere : ∀ a r, ¬Follows avoid (write a ++ r)) :
    Legible (fun a => if a = missing then [] else write a) avoid := by
  intro a b r s hr hs heq
  dsimp only at heq
  by_cases ha : a = missing
  · by_cases hb : b = missing
    · rw [if_pos ha, if_pos hb] at heq
      exact ⟨ha.trans hb.symm, heq⟩
    · rw [if_pos ha, if_neg hb, List.nil_append] at heq
      exact absurd (heq ▸ hr) (hthere b s)
  · by_cases hb : b = missing
    · rw [if_neg ha, if_pos hb, List.nil_append] at heq
      exact absurd (heq ▸ hs) (hthere a r)
    · rw [if_neg ha, if_neg hb] at heq
      exact h a b r s hr hs heq

/-- Characters that are written by a code each, up to a mark.  One code
comes after the other, and where one text ends the mark stands against a
code. -/
theorem coded {code : Char → List Char} {mark : Char}
    (hcode : ∀ c d r s, code c ++ r = code d ++ s → c = d ∧ r = s)
    (hmark : ∀ c r s, Follows avoid s → code c ++ r ≠ mark :: s) :
    Legible (fun text : List Char => text.flatMap code ++ [mark]) avoid := by
  intro text other r s hr hs heq
  simp only [List.append_assoc, List.singleton_append] at heq
  induction text generalizing other with
  | nil =>
    cases other with
    | nil => exact ⟨rfl, (List.cons.inj heq).2⟩
    | cons d rest =>
      rw [List.flatMap_cons, List.append_assoc] at heq
      exact absurd heq.symm (hmark d _ r hr)
  | cons c rest ih =>
    cases other with
    | nil =>
      rw [List.flatMap_cons, List.append_assoc] at heq
      exact absurd heq (hmark c _ s hs)
    | cons d later =>
      rw [List.flatMap_cons, List.flatMap_cons, List.append_assoc,
        List.append_assoc] at heq
      obtain ⟨rfl, hrest⟩ := hcode c d _ _ heq
      obtain ⟨rfl, rfl⟩ := ih later hrest
      exact ⟨rfl, rfl⟩

end Legible

/-! ### Quoted names and strings -/

/-- A line break. -/
def newline : Char := Char.ofNat 10

/-- What may belong to a name that is written: a character of a plain word,
the line break behind one, or a backtick. -/
def isNamePart (c : Char) :
    Bool := isWordPart c || c == newline || c == backtick

/-- A text with its marks doubled can be read back up to a mark. -/
theorem legible_doubled (mark : Char) :
    Legible (fun s => doubled mark s ++ [mark]) fun c => c == mark := by
  apply Legible.coded
  · intro c d r s heq
    split at heq <;> split at heq
    · next hc hd => exact ⟨hc.trans hd.symm, List.append_cancel_left heq⟩
    · next hd => exact absurd (List.cons.inj heq).1.symm hd
    · next hc _ => exact absurd (List.cons.inj heq).1 hc
    · exact List.cons.inj heq
  · intro c r s hs heq
    split at heq
    · obtain rfl : mark :: r = s := (List.cons.inj heq).2
      exact hs.ne_cons (beq_self_eq_true mark) rfl
    · next hc => exact hc (List.cons.inj heq).1

/-- A string can be read back whatever stands behind it. -/
theorem legible_quoteString : Legible quoteString fun _ => false := by
  refine Legible.prepend (Legible.coded ?_ ?_) [singleQuote]
  · intro c d r s heq
    split at heq <;> split at heq
    · have hrest := (List.cons.inj heq).2
      exact List.cons.inj hrest
    · next hd =>
      obtain rfl : backslash = d := (List.cons.inj heq).1
      exact absurd rfl hd
    · next hc hd =>
      obtain rfl : c = backslash := (List.cons.inj heq).1
      exact absurd rfl hc
    · exact List.cons.inj heq
  · intro c r s _ heq
    split at heq
    · exact absurd (List.cons.inj heq).1 (by decide)
    · next hc =>
      obtain rfl : c = singleQuote := (List.cons.inj heq).1
      exact absurd rfl hc

/-- A final line feed is dropped if there is one. -/
theorem dropFinalNewline_cases (s : List Char) :
    dropFinalNewline s = s ∨ s = dropFinalNewline s ++ [newline] := by
  unfold dropFinalNewline
  cases hs : s.reverse with
  | nil => exact .inl rfl
  | cons c rest =>
    dsimp only
    split
    · next hc =>
      right
      rw [← List.reverse_reverse s, hs, List.reverse_cons, hc]
      rfl
    · exact .inl rfl

/-- A word begins with a character that may begin one, and has those only
that may be part of one. -/
theorem eq_cons_of_isWord {s : List Char} (h : isWord s = true) :
    ∃ c rest, s = c :: rest ∧ isWordStart c = true ∧
    ∀ d ∈ s, isWordPart d = true := by
  cases s with
  | nil => cases h
  | cons c rest =>
    obtain ⟨hc, hrest⟩ := Bool.and_eq_true_iff.mp h
    refine ⟨c, rest, rfl, hc,
      List.forall_mem_cons.mpr ⟨?_, List.all_eq_true.mp hrest⟩⟩
    rw [isWordPart, hc, Bool.true_or]

/-- A name that stands bare begins with a letter or an underscore and goes
on as plain words do, but for the line break it may end in. -/
theorem eq_cons_of_isPlainIdentifier {s : List Char}
    (h : isPlainIdentifier s = true) :
    ∃ c rest, s = c :: rest ∧ isWordStart c = true ∧
      ∀ d ∈ s, (isWordPart d || d == newline) = true := by
  obtain ⟨c, rest, hword, hc, hparts⟩ := eq_cons_of_isWord h
  rcases dropFinalNewline_cases s with hsame | hline
  · rw [hsame] at hword hparts
    exact ⟨c, rest, hword, hc, fun d hd =>
      Bool.or_eq_true_iff.mpr (.inl (hparts d hd))⟩
  · refine ⟨c, rest ++ [newline], ?_, hc, fun d hd =>
      Bool.or_eq_true_iff.mpr ?_⟩
    · rw [hline, hword, List.cons_append]
    · rw [hline] at hd
      rcases List.mem_append.mp hd with hd | hd
      · exact .inl (hparts d hd)
      · exact .inr (beq_iff_eq.mpr (List.mem_singleton.mp hd))

/-- Where a bare name ends can be seen. -/
theorem takeWhile_of_isPlainIdentifier {s r : List Char}
    (h : isPlainIdentifier s = true) (hr : Follows isNamePart r) :
    (s ++ r).takeWhile (fun c => isWordPart c || c == newline) = s := by
  obtain ⟨-, -, -, -, hparts⟩ := eq_cons_of_isPlainIdentifier h
  rw [List.takeWhile_append_of_pos hparts]
  cases r with
  | nil => exact List.append_nil s
  | cons c rest =>
    have hc : (isWordPart c || c == newline) = false :=
      (Bool.or_eq_false_iff.mp hr.head).1
    rw [List.takeWhile_cons_of_neg (by rw [hc]; exact Bool.false_ne_true),
      List.append_nil]

/-- What a name begins with, as it is written: a letter or an underscore if
it stands bare, else a backtick. -/
theorem quoteIdentifier_eq_cons (s : List Char) :
    ∃ c rest, quoteIdentifier s = c :: rest ∧
    (isPlainIdentifier s = true ∧ isWordStart c = true ∨
      isPlainIdentifier s = false ∧ c = backtick) := by
  unfold quoteIdentifier
  cases h : isPlainIdentifier s with
  | true =>
    obtain ⟨c, rest, hs, hc, -⟩ := eq_cons_of_isPlainIdentifier h
    exact ⟨c, rest, hs, .inl ⟨rfl, hc⟩⟩
  | false => exact ⟨backtick, _, rfl, .inr ⟨rfl, rfl⟩⟩

/-- A name can be read back unless what stands behind might belong to it.  A
plain name and a quoted one differ in their first character. -/
theorem legible_quoteIdentifier : Legible quoteIdentifier isNamePart := by
  have hbacktick : isWordStart backtick = false := by decide
  have hdiffer : ∀ {a b : List Char} {r s : List Char},
      isPlainIdentifier a = true →
      isPlainIdentifier b = false →
      quoteIdentifier a ++ r ≠ quoteIdentifier b ++ s := by
    intro a b r s ha hb heq
    obtain ⟨c, rest, hwritten, ⟨-, hc⟩ | ⟨hplain, -⟩⟩ :=
      quoteIdentifier_eq_cons a
    · obtain ⟨d, later, hwritten', ⟨hplain', -⟩ | ⟨-, rfl⟩⟩ :=
        quoteIdentifier_eq_cons b
      · rw [hb] at hplain'
        cases hplain'
      · rw [hwritten, hwritten'] at heq
        obtain rfl : c = backtick := (List.cons.inj heq).1
        rw [hbacktick] at hc
        cases hc
    · rw [ha] at hplain
      cases hplain
  intro a b r s hr hs heq
  cases ha : isPlainIdentifier a with
  | true =>
    cases hb : isPlainIdentifier b with
    | true =>
      rw [quoteIdentifier, quoteIdentifier, if_pos ha, if_pos hb] at heq
      have hab : a = b := by
        rw [← takeWhile_of_isPlainIdentifier ha hr, heq,
          takeWhile_of_isPlainIdentifier hb hs]
      subst hab
      exact ⟨rfl, List.append_cancel_left heq⟩
    | false => exact absurd heq (hdiffer ha hb)
  | false =>
    cases hb : isPlainIdentifier b with
    | true => exact absurd heq.symm (hdiffer hb ha)
    | false =>
      have hquoted : ∀ {s}, isPlainIdentifier s = false →
          quoteIdentifier s = [backtick] ++
            (doubled backtick s ++ [backtick]) := by
        intro s hs
        rw [quoteIdentifier, hs]
        rfl
      rw [hquoted ha, hquoted hb] at heq
      refine ((legible_doubled backtick).prepend [backtick]).mono ?_ a b r s
        hr hs heq
      exact fun c hc => Bool.or_eq_true_iff.mpr (.inr hc)

/-- A name that is written is not taken for what stands behind one. -/
theorem not_follows_quoteIdentifier (s r : List Char) :
    ¬Follows isNamePart (quoteIdentifier s ++ r) := by
  obtain ⟨c, rest, hwritten, hc⟩ := quoteIdentifier_eq_cons s
  rw [hwritten]
  intro hfollows
  have hpart : isNamePart c = false := Follows.head hfollows
  rcases hc with ⟨-, hc⟩ | ⟨-, rfl⟩
  · rw [isNamePart, isWordPart, hc] at hpart
    cases hpart
  · cases hpart

end GraphQuery.Text
