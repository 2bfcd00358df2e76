import GraphQuery.Pattern.Naming
import Mathlib.Data.List.DropRight

/-!
# Names that stand for themselves

The name and the labels read off an end of a relationship are read off again
when the end is registered.  That changes nothing, `decode_again`: they are
plain texts, without a colon and without blanks at their ends, and a name
made of a label is plain as well, since no letter has a colon or a blank for
its lower case.
-/

namespace GraphQuery

namespace Text

/-- A text with no blank at either end. -/
structure Tidy (s : List Char) : Prop where
  head : ∀ c ∈ s.head?, isBlank c = false
  last : ∀ c ∈ s.getLast?, isBlank c = false

/-- Nothing is trimmed from a tidy text. -/
theorem Tidy.trim_eq {s : List Char} (h : Tidy s) : trim s = s := by
  have hleft : trimLeft s = s := by
    cases s with
    | nil => rfl
    | cons c rest =>
      have hc := h.head c rfl
      exact List.dropWhile_cons_of_neg (by simp [hc])
  have hright : s.rdropWhile isBlank = s := by
    rw [List.rdropWhile_eq_self_iff]
    intro hne hblank
    have hc := h.last (s.getLast hne) (List.getLast?_eq_getLast_of_ne_nil hne)
    rw [hc] at hblank
    cases hblank
  rw [trim, hleft]
  exact hright

/-- A text trimmed at both ends begins one trimmed in front. -/
theorem trim_isPrefix_trimLeft (s : List Char) : trim s <+: trimLeft s :=
  List.rdropWhile_prefix isBlank (trimLeft s)

/-- Trimming adds no characters. -/
theorem mem_of_mem_trim {c : Char} {s : List Char} (h : c ∈ trim s) : c ∈ s :=
  (List.dropWhile_suffix isBlank).subset ((trim_isPrefix_trimLeft s).subset h)

/-- A trimmed text is tidy. -/
theorem tidy_trim (s : List Char) : Tidy (trim s) := by
  constructor
  · intro c hc
    obtain ⟨rest, hrest⟩ := trim_isPrefix_trimLeft s
    have hhead : c ∈ (trimLeft s).head? := by
      rw [← hrest, List.head?_append, Option.mem_def.mp hc]
      rfl
    have hnot := List.head?_dropWhile_not isBlank s
    rw [trimLeft] at hhead
    rw [Option.mem_def.mp hhead] at hnot
    exact hnot
  · intro c hc
    have hne : trim s ≠ [] := by
      intro hnil
      rw [hnil] at hc
      cases hc
    have hnot : ¬isBlank ((trim s).getLast hne) = true :=
      List.rdropWhile_last_not isBlank (trimLeft s) hne
    rw [List.getLast?_eq_getLast_of_ne_nil hne] at hc
    cases hc
    simpa using hnot

/-- Only blanks are trimmed away. -/
theorem isBlank_of_trim_eq_nil {s : List Char} (h : trim s = []) :
    ∀ c ∈ s, isBlank c = true := by
  have hleft : trimLeft s = [] := by
    by_contra hne
    have hblank := List.rdropWhile_eq_nil_iff.mp h _ (List.head_mem hne)
    have hnot : isBlank ((trimLeft s).head hne) = false :=
      List.head_dropWhile_not isBlank hne
    rw [hnot] at hblank
    cases hblank
  exact List.dropWhile_eq_nil_iff.mp hleft

/-- No piece has the separator in it: a character that is none goes to the
front of the first piece of the rest. -/
theorem not_mem_of_mem_pieces {sep : Char} {s piece : List Char}
    (h : piece ∈ pieces sep s) :
    sep ∉ piece := by
  induction s generalizing piece with
  | nil =>
    rw [List.mem_singleton.mp h]
    exact List.not_mem_nil
  | cons c rest ih =>
    rw [pieces] at h
    by_cases hc : c = sep
    · rw [if_pos hc] at h
      rcases List.mem_cons.mp h with rfl | hrest
      · exact List.not_mem_nil
      · exact ih hrest
    · rw [if_neg hc] at h
      split at h
      · rw [List.mem_singleton.mp h, List.mem_singleton]
        exact Ne.symm hc
      · next first others hpieces =>
        rw [hpieces] at ih
        rcases List.mem_cons.mp h with rfl | hothers
        · rw [List.mem_cons, not_or]
          exact ⟨Ne.symm hc, ih List.mem_cons_self⟩
        · exact ih (List.mem_cons_of_mem _ hothers)

/-- Whether a character is neither blank nor a colon. -/
def isPlain (c : Char) : Bool := !isBlank c && c != ':'

/-- Whether no code point from the first to the last one given is blank or
the colon. -/
def isClear (first last : Int) : Bool :=
  (blankRanges.all fun range => last < range.1 || range.2 < first) &&
    (last < 0x3A || 0x3A < first)

/-- The characters of a range are plain if its ends say so. -/
theorem isPlain_ofNat {first last : Int} {n : Nat}
    (h : isClear first last = true) (hfirst : first ≤ n)
    (hlast : (n : Int) ≤ last) : isPlain (Char.ofNat n) = true := by
  by_cases hvalid : n.isValidChar
  · have hn : (Char.ofNat n).toNat = n := by
      rw [Char.ofNat, dif_pos hvalid]
      rfl
    rw [isClear, Bool.and_eq_true, Bool.or_eq_true, decide_eq_true_iff,
      decide_eq_true_iff] at h
    obtain ⟨hblank, hcolon⟩ := h
    have hne : Char.ofNat n ≠ ':' := by
      intro heq
      rw [heq] at hn
      have hcode : n = 0x3A := hn.symm
      omega
    have hapart : isBlank (Char.ofNat n) = false := by
      rw [isBlank, List.any_eq_false]
      intro range hrange
      have hout := List.all_eq_true.mp hblank range hrange
      rw [Bool.or_eq_true, decide_eq_true_iff, decide_eq_true_iff] at hout
      rw [hn, Bool.and_eq_true, decide_eq_true_iff, decide_eq_true_iff]
      omega
    simp [isPlain, hapart, hne]
  · rw [Char.ofNat, dif_neg hvalid]
    decide

/-- No letter beyond ASCII has a blank or a colon for its lower case. -/
theorem lowerRanges_clear :
    (lowerRanges.all fun range => 0 ≤ range.1 + range.2.2.2 &&
    isClear (range.1 + range.2.2.2) (range.2.1 + range.2.2.2)) = true := by
  decide +kernel

/-- Plain characters of ASCII are plain in lower case. -/
theorem isPlain_toLower : ∀ n < 128,
    isPlain (Char.ofNat n) = true → isPlain (Char.ofNat n).toLower =
      true := by
  decide +kernel

/-- A plain character that one other character stands for in lower case
makes a plain one. -/
theorem isPlain_lowerChar {c : Char} (h : isPlain c = true) :
    isPlain (lowerChar c) = true := by
  unfold lowerChar
  by_cases hascii : c.toNat < 0x80
  · rw [if_pos hascii]
    have hlower := isPlain_toLower c.toNat hascii
    rw [Char.ofNat_toNat] at hlower
    exact hlower h
  · rw [if_neg hascii]
    split
    · next first last step offset hfind =>
      have hmem := List.mem_of_find?_eq_some hfind
      have hin := List.find?_some hfind
      simp only [Bool.and_eq_true, decide_eq_true_eq] at hin
      obtain ⟨⟨hfirst, hlast⟩, -⟩ := hin
      have hclear := List.all_eq_true.mp lowerRanges_clear _ hmem
      rw [Bool.and_eq_true, decide_eq_true_iff] at hclear
      dsimp only at hclear
      exact isPlain_ofNat hclear.2 (by omega) (by omega)
    · exact h

/-- **A plain character is plain in lower case.** -/
theorem isPlain_lower {c d : Char} (h : isPlain c = true) (hd : d ∈ lower c) :
    isPlain d = true := by
  unfold lower at hd
  split at hd
  · rcases List.mem_cons.mp hd with rfl | hd
    · rfl
    · rw [List.mem_singleton.mp hd]
      decide +kernel
  · rw [List.mem_singleton.mp hd]
    exact isPlain_lowerChar h

/-- Every character has something in lower case. -/
theorem lower_ne_nil (c : Char) : lower c ≠ [] := by
  unfold lower
  split <;> exact List.cons_ne_nil _ _

/-- A character that is not blank is not so in lower case. -/
theorem isBlank_lower {c d : Char} (h : isBlank c = false)
    (hd : d ∈ lower c) :
    isBlank d = false := by
  by_cases hcolon : c = ':'
  · subst hcolon
    rw [List.mem_singleton.mp hd]
    rfl
  · have hc : isPlain c = true := by simp [isPlain, h, hcolon]
    have hplain := isPlain_lower hc hd
    simp only [isPlain, Bool.and_eq_true, Bool.not_eq_true'] at hplain
    exact hplain.1

/-- No character of a word is blank. -/
theorem isBlank_word : ∀ n < 128, let c := Char.ofNat n
    (c.isUpper || c.isDigit || c == '_') = true →
      [c, c.toLower, c.toLower.toUpper, c.toLower.toLower].all
        (fun d => !isBlank d) = true := by
  decide +kernel

/-- No character of a word in capitals is blank in any letter case. -/
theorem isBlank_of_word {c d : Char}
    (h : (c.isUpper || c.isDigit || c == '_') = true)
    (hd : d ∈ [c, c.toLower, c.toLower.toUpper, c.toLower.toLower]) :
    isBlank d = false := by
  have hascii : c.toNat < 128 := by
    rw [Bool.or_eq_true, Bool.or_eq_true] at h
    rcases h with (h | h) | h
    · exact Nat.lt_of_le_of_lt
        (UInt32.le_iff_toNat_le.mp (of_decide_eq_true h).2) (by decide)
    · simp only [Char.isDigit, Bool.and_eq_true, decide_eq_true_eq,
        UInt32.le_iff_toNat_le] at h
      exact Nat.lt_of_le_of_lt h.2 (by decide)
    · rw [eq_of_beq h]
      decide
  have hword := isBlank_word c.toNat hascii
  rw [Char.ofNat_toNat] at hword
  simpa using List.all_eq_true.mp (hword h) d hd

/-- The pieces of a text have no other characters. -/
theorem mem_of_mem_pieces {sep c : Char} {s piece : List Char}
    (h : piece ∈ pieces sep s) (hc : c ∈ piece) : c ∈ s := by
  induction s generalizing piece with
  | nil =>
    rw [List.mem_singleton.mp h] at hc
    cases hc
  | cons d rest ih =>
    rw [pieces] at h
    by_cases hd : d = sep
    · rw [if_pos hd] at h
      rcases List.mem_cons.mp h with rfl | hrest
      · cases hc
      · exact List.mem_cons_of_mem d (ih hrest hc)
    · rw [if_neg hd] at h
      split at h
      · rw [List.mem_singleton.mp h] at hc
        rw [List.mem_singleton.mp hc]
        exact List.mem_cons_self
      · next first others hpieces =>
        rw [hpieces] at ih
        rcases List.mem_cons.mp h with rfl | hothers
        · rcases List.mem_cons.mp hc with rfl | hc
          · exact List.mem_cons_self
          · exact List.mem_cons_of_mem d (ih List.mem_cons_self hc)
        · exact List.mem_cons_of_mem d
            (ih (List.mem_cons_of_mem first hothers) hc)

/-- A tidy text ends with no line feed. -/
theorem dropFinalNewline_eq {s : List Char} (h : Tidy s) :
    dropFinalNewline s = s := by
  unfold dropFinalNewline
  split
  · next c rest hs =>
    have hlast : s.getLast? = some c := by rw [← List.head?_reverse, hs]; rfl
    have hc := h.last c hlast
    rw [if_neg]
    rintro rfl
    cases hc
  · rfl

end Text

namespace Pattern

open Text

/-- A text with something in it and no blank at either end. -/
structure Proper (s : String) : Prop where
  ne_nil : s.toList ≠ []
  tidy : Tidy s.toList

namespace Proper

variable {s : String}

/-- Nothing is trimmed from a proper text. -/
theorem trimmed_eq (h : Proper s) : trimmed s = s := by
  rw [trimmed, h.tidy.trim_eq, String.ofList_toList]

/-- A proper text is not empty. -/
theorem isEmpty_eq (h : Proper s) : s.isEmpty = false := by
  have hne := h.ne_nil
  simpa [String.isEmpty_iff, String.toList_eq_nil_iff] using hne

/-- A proper text is not blank. -/
theorem isBlankText_eq (h : Proper s) : isBlankText s = false := by
  obtain ⟨c, rest, hs⟩ := List.exists_cons_of_ne_nil h.ne_nil
  have hc := h.tidy.head c (by rw [hs]; rfl)
  rw [isBlankText, hs, List.all_cons, hc, Bool.false_and]

/-- What is left of a text that is not blank after trimming. -/
theorem of_trim {chars : List Char} (hne : trim chars ≠ []) :
    Proper (String.ofList (trim chars)) := by
  constructor
  · rw [String.toList_ofList]
    exact hne
  · rw [String.toList_ofList]
    exact tidy_trim chars

/-- A text without any blank. -/
theorem of_forall {chars : List Char} (hne : chars ≠ [])
    (h : ∀ c ∈ chars, isBlank c = false) : Proper (String.ofList chars) := by
  constructor
  · rw [String.toList_ofList]
    exact hne
  · rw [String.toList_ofList]
    exact ⟨fun c hc => h c (List.mem_of_mem_head? hc), fun c hc =>
      h c (List.mem_of_mem_getLast? hc)⟩

/-- What is left of a text that is not blank is proper. -/
theorem of_trimmed (h : (trimmed s).isEmpty = false) :
    Proper (trimmed s) := by
  apply of_trim
  intro hnil
  rw [trimmed, hnil] at h
  cases h

/-- A letter in lower case in front. -/
theorem lowerFirst (h : Proper s) :
    Proper (String.ofList (lowerFirst s.toList)) := by
  obtain ⟨c, rest, hs⟩ := List.exists_cons_of_ne_nil h.ne_nil
  have hname : Text.lowerFirst s.toList = lower c ++ rest := by rw [hs]; rfl
  have hc : isBlank c = false := h.tidy.head c (by rw [hs]; rfl)
  rw [hname]
  constructor
  · rw [String.toList_ofList]
    exact List.append_ne_nil_of_left_ne_nil (lower_ne_nil c) rest
  · rw [String.toList_ofList]
    constructor
    · intro d hd
      rw [List.head?_append_of_ne_nil _ (lower_ne_nil c)] at hd
      exact isBlank_lower hc (List.mem_of_mem_head? hd)
    · intro d hd
      rw [List.getLast?_append] at hd
      cases hrest : rest.getLast? with
      | none =>
        rw [hrest] at hd
        exact isBlank_lower hc (List.mem_of_mem_getLast? hd)
      | some last =>
        rw [hrest] at hd
        have hlast : d = last := (Option.some.inj hd).symm
        apply h.tidy.last d
        rw [hs, List.getLast?_cons, hrest, hlast]
        rfl

/-- A number behind. -/
theorem append_number (h : Proper s) (n : Nat) :
    Proper (s ++ toString n) := by
  have hdigits : (s ++ toString n).toList = s.toList ++
      Nat.toDigits 10 n := by
    rw [String.toList_append, Nat.toString_eq_ofList_toDigits,
      String.toList_ofList]
  constructor
  · rw [hdigits]
    exact List.append_ne_nil_of_left_ne_nil h.ne_nil _
  · rw [hdigits]
    constructor
    · intro c hc
      rw [List.head?_append_of_ne_nil _ h.ne_nil] at hc
      exact h.tidy.head c hc
    · intro c hc
      rw [List.getLast?_append_of_ne_nil _ Nat.toDigits_ne_nil] at hc
      have hdigit := Nat.isDigit_of_mem_toDigits (by decide) (by decide)
        (List.mem_of_mem_getLast? hc)
      exact isBlank_of_word (by rw [hdigit, Bool.or_true, Bool.true_or])
        List.mem_cons_self

/-- The words of a type in capitals, joined. -/
theorem camelCased {type : List Char} {words : List (List Char)}
    (hne : words ≠ [])
    (hwords : ∀ word ∈ words, word ≠ [] ∧ ∀ d ∈ word, ∃ c ∈ type,
      d = c.toLower)
    (htype : ∀ c ∈ type, (c.isUpper || c.isDigit || c == '_') = true) :
    Proper (String.ofList (camelCased words)) := by
  obtain ⟨first, others, rfl⟩ := List.exists_cons_of_ne_nil hne
  obtain ⟨hfirst, hsmall⟩ := hwords first List.mem_cons_self
  apply of_forall (List.append_ne_nil_of_left_ne_nil hfirst _)
  intro d hd
  rcases List.mem_append.mp hd with hd | hd
  · obtain ⟨c, hc, rfl⟩ := hsmall d hd
    exact isBlank_of_word (htype c hc) (by simp)
  · obtain ⟨word, hword, hd⟩ := List.mem_flatMap.mp hd
    have hletters := (hwords word (List.mem_cons_of_mem first hword)).2
    cases word with
    | nil => cases hd
    | cons letter rest =>
      rcases List.mem_cons.mp hd with rfl | hd
      · obtain ⟨c, hc, rfl⟩ := hletters letter List.mem_cons_self
        exact isBlank_of_word (htype c hc) (by simp)
      · obtain ⟨small, hmem, rfl⟩ := List.mem_map.mp hd
        obtain ⟨c, hc, rfl⟩ :=
          hletters small (List.mem_cons_of_mem letter hmem)
        exact isBlank_of_word (htype c hc) (by simp)

/-- A proper type makes a proper name. -/
theorem defaultRelationshipName (h : Proper s) :
    Proper (defaultRelationshipName s) := by
  rw [Pattern.defaultRelationshipName]
  by_cases hscreaming : isScreaming s.toList = true
  · rw [if_pos hscreaming]
    rw [isScreaming, dropFinalNewline_eq h.tidy,
      Bool.and_eq_true] at hscreaming
    have htype := List.all_eq_true.mp hscreaming.2
    have hsmall : ∀ d ∈ s.toList.map Char.toLower, ∃ c ∈ s.toList,
        d = c.toLower := by
      intro d hd
      obtain ⟨c, hc, rfl⟩ := List.mem_map.mp hd
      exact ⟨c, hc, rfl⟩
    dsimp only
    split
    · apply of_forall
      · rw [Ne, List.map_eq_nil_iff]
        exact h.ne_nil
      · intro d hd
        obtain ⟨c, hc, rfl⟩ := hsmall d hd
        exact isBlank_of_word (htype c hc) (by simp)
    · next hne =>
      refine camelCased hne ?_ htype
      intro word hword
      obtain ⟨hpiece, hempty⟩ := List.mem_filter.mp hword
      refine ⟨by simpa using hempty, fun d hd =>
        hsmall d (mem_of_mem_pieces hpiece hd)⟩
  · rw [if_neg hscreaming]
    exact h.lowerFirst

/-- An element named after a label. -/
theorem defaultName (h : Proper s) (sort : ElementSort) :
    Proper (sort.defaultName s) := by
  cases sort with
  | node => exact h.lowerFirst
  | relationship => exact h.defaultRelationshipName

end Proper

/-- A text that stands for itself as a name or a label. -/
structure Plain (s : String) : Prop extends Proper s where
  noColon : ':' ∉ s.toList

namespace Plain

variable {s : String}

/-- A plain text embeds nothing. -/
theorem embedded_eq (h : Plain s) : embedded s = none := by
  rw [embedded, cutAtFirst_eq_none_iff.mpr h.noColon]
  rfl

/-- Trimming a part of a text leaves a plain text, if the part has no colon
and is not blank. -/
theorem of_trim {chars : List Char} (hcolon : ':' ∉ chars)
    (hne : trim chars ≠ []) :
    Plain (String.ofList (trim chars)) := by
  refine ⟨Proper.of_trim hne, ?_⟩
  rw [String.toList_ofList]
  exact fun hmem => hcolon (mem_of_mem_trim hmem)

/-- A plain text with a number behind it is plain. -/
theorem append_number (h : Plain s) (n : Nat) : Plain (s ++ toString n) := by
  refine ⟨h.toProper.append_number n, ?_⟩
  rw [String.toList_append, Nat.toString_eq_ofList_toDigits,
    String.toList_ofList, List.mem_append,
    not_or]
  refine ⟨h.noColon, fun hcolon => ?_⟩
  have hdigit := Nat.isDigit_of_mem_toDigits (by decide) (by decide) hcolon
  cases hdigit

/-- A plain text begins with a plain character. -/
theorem isPlain_head (h : Plain s) :
    ∀ c ∈ s.toList.head?, isPlain c = true := by
  intro c hc
  have hblank := h.tidy.head c hc
  have hcolon : c ≠ ':' := by
    rintro rfl
    exact h.noColon (List.mem_of_mem_head? hc)
  simp [isPlain, hblank, hcolon]

/-- A node named after a plain label has a plain name. -/
theorem defaultNodeName (h : Plain s) : Plain (defaultNodeName s) := by
  refine ⟨h.lowerFirst, ?_⟩
  obtain ⟨c, rest, hs⟩ := List.exists_cons_of_ne_nil h.ne_nil
  have hc : isPlain c = true := h.isPlain_head c (by rw [hs]; rfl)
  rw [Pattern.defaultNodeName, String.toList_ofList, hs]
  intro hmem
  rcases List.mem_append.mp hmem with hlow | hrest
  · have hplain := isPlain_lower hc hlow
    simp [isPlain] at hplain
  · exact h.noColon (by rw [hs]; exact List.mem_cons_of_mem c hrest)

end Plain

/-- A token that embeds no name has no colon. -/
theorem noColon_of_embedded {token : String} (h : embedded token = none) :
    ':' ∉ token.toList :=
  cutAtFirst_eq_none_iff.mp (Option.map_eq_none_iff.mp h)

/-- One that embeds a name has one. -/
theorem colon_of_embedded {token : String} {found : String × List String}
    (h : embedded token = some found) : ':' ∈ token.toList := by
  by_contra hnone
  rw [embedded, cutAtFirst_eq_none_iff.mpr hnone] at h
  cases h

/-- The labels a token carries are plain, and so is the name unless it is
missing. -/
theorem plain_of_embedded {token name : String} {labels : List String}
    (h : embedded token = some (name, labels)) :
    (name.isEmpty = true ∨ Plain name) ∧ ∀ label ∈ labels, Plain label := by
  obtain ⟨⟨front, back⟩, hcut, heq⟩ := Option.map_eq_some_iff.mp h
  obtain ⟨hname, hlabels⟩ := Prod.mk.inj heq
  constructor
  · obtain ⟨-, hcolon⟩ := cutAtFirst_eq_some_iff.mp hcut
    rw [← hname]
    by_cases hne : trim front = []
    · left
      rw [hne]
      rfl
    · exact .inr (Plain.of_trim hcolon hne)
  · intro label hlabel
    rw [← hlabels] at hlabel
    obtain ⟨chars, hchars, hsome⟩ := List.mem_filterMap.mp hlabel
    obtain ⟨piece, hpiece, rfl⟩ := List.mem_map.mp hchars
    by_cases hempty : (trim piece).isEmpty = true
    · rw [if_pos hempty] at hsome
      cases hsome
    · rw [if_neg hempty] at hsome
      rw [← Option.some.inj hsome]
      refine Plain.of_trim (not_mem_of_mem_pieces hpiece) fun hnil =>
        hempty ?_
      rw [hnil]
      rfl

/-- What a token carries is proper, also in front of labels that are. -/
theorem proper_of_embedded {token name : String}
    {carried others : List String}
    (h : embedded token = some (name, carried))
    (hothers : ∀ label ∈ others, Proper label) :
    (name.isEmpty = true ∨ Proper name) ∧
    ∀ label ∈ carried ++ others, Proper label := by
  obtain ⟨hname, hcarried⟩ := plain_of_embedded h
  refine ⟨hname.imp_right Plain.toProper, fun label hlabel => ?_⟩
  rcases List.mem_append.mp hlabel with hlabel | hlabel
  · exact (hcarried label hlabel).toProper
  · exact hothers label hlabel

/-- Labels that are given are proper. -/
theorem proper_of_mem_labels {given : LabelArgument} {label : String}
    (h : label ∈ given.labels) :
    Proper label := by
  obtain ⟨token, htoken, rfl⟩ := List.mem_map.mp h
  have hblank := (List.mem_filter.mp htoken).2
  rw [trimmed]
  apply Proper.of_trim
  intro hnil
  rw [isBlankText,
    List.all_eq_true.mpr (isBlank_of_trim_eq_nil hnil)] at hblank
  cases hblank

/-! ### What an element is told -/

/-- The name and the labels that are read off the name an element is given
and its tokens: those of the name if there is one, and of the first token if
there is none. -/
inductive Explicit (given : String) : List String → String × List String →
    Prop
  | nothing (hblank : given.isEmpty = true) : Explicit given [] ("", [])
  | label {first : String} {others : List String}
      (hblank : given.isEmpty = true)
      (hplain : embedded first = none) : Explicit given (first :: others)
      ("", first :: others)
  | token {first own : String} {carried others : List String}
      (hblank : given.isEmpty = true)
      (hembedded : embedded first = some (own, carried)) :
      Explicit given (first :: others) (own, carried ++ others)
  | name {tokens : List String} (hgiven : given.isEmpty = false)
      (hplain : embedded given = none) :
      Explicit given tokens (given, tokens)
  | labelled {own : String} {carried tokens : List String}
      (hgiven : given.isEmpty = false)
      (hembedded : embedded given = some (own, carried)) :
      Explicit given tokens (own, carried ++ tokens)

/-- The name told is the one that is read. -/
theorem Explicit.eq {tokens : List String} {name : Option String}
    {told : String × List String}
    (h : Explicit (trimmed (name.getD "")) tokens told) :
    explicitName tokens name = told := by
  unfold explicitName
  dsimp only
  cases h with
  | nothing hblank => exact if_pos hblank
  | label hblank hplain =>
    rw [if_pos hblank]
    dsimp only
    rw [hplain]
  | token hblank hembedded =>
    rw [if_pos hblank]
    dsimp only
    rw [hembedded]
  | name hgiven hplain => rw [hgiven, if_neg Bool.false_ne_true, hplain]
  | labelled hgiven hembedded => rw [hgiven, if_neg Bool.false_ne_true,
      hembedded]

/-- Some name is told, be it empty. -/
theorem Explicit.exists (given : String) (tokens : List String) :
    ∃ told, Explicit given tokens told := by
  cases hgiven : given.isEmpty with
  | true =>
    cases tokens with
    | nil => exact ⟨_, .nothing hgiven⟩
    | cons first others =>
      cases hembedded : embedded first with
      | none => exact ⟨_, .label hgiven hembedded⟩
      | some found => exact ⟨_, .token hgiven hembedded⟩
  | false =>
    cases hembedded : embedded given with
    | none => exact ⟨_, .name hgiven hembedded⟩
    | some found => exact ⟨_, .labelled hgiven hembedded⟩

/-- The name that is read is told. -/
theorem explicit_explicitName (tokens : List String) (name : Option String) :
    Explicit (trimmed (name.getD "")) tokens (explicitName tokens name) := by
  obtain ⟨told, htold⟩ := Explicit.exists (trimmed (name.getD "")) tokens
  rwa [htold.eq]

/-- What is read are a proper name, if there is one, and proper labels. -/
theorem proper_of_explicitName {labels : List String}
    (hlabels : ∀ label ∈ labels, Proper label) (name : Option String) :
    ((explicitName labels name).1.isEmpty = true ∨
      Proper (explicitName labels name).1) ∧
      ∀ label ∈ (explicitName labels name).2, Proper label := by
  have htold := explicit_explicitName labels name
  generalize explicitName labels name = told at htold ⊢
  cases htold with
  | nothing => exact ⟨.inl rfl, hlabels⟩
  | label => exact ⟨.inl rfl, hlabels⟩
  | @token first _ _ others _ hembedded =>
    exact proper_of_embedded hembedded fun label hlabel =>
      hlabels label (List.mem_cons_of_mem first hlabel)
  | name hgiven => exact ⟨.inr (Proper.of_trimmed hgiven), hlabels⟩
  | labelled _ hembedded => exact proper_of_embedded hembedded hlabels

/-! ### What an element is named -/

/-- An element is told a name, or else a label, or neither. -/
theorem explicitName_cases (given : LabelArgument) (name : Option String) :
    (explicitName given.labels name).1 ≠ "" ∨
      (∃ first others,
        explicitName given.labels name = ("", first :: others)) ∨
        explicitName given.labels name = ("", []) := by
  rcases explicitName given.labels name with ⟨own, labels⟩
  by_cases hown : own = ""
  · subst hown
    cases labels with
    | nil => exact .inr (.inr rfl)
    | cons first others => exact .inr (.inl ⟨first, others, rfl⟩)
  · exact .inl hown

section

variable {given : LabelArgument} {name : Option String}

/-- A name that is told is taken. -/
theorem decode_of_told (h : (explicitName given.labels name).1 ≠ "")
    (sort : ElementSort) (names : NameSequence) :
    decode sort given name names = (explicitName given.labels name,
      names) := by
  have hnamed : (!(explicitName given.labels name).1.isEmpty) = true := by
    simpa using h
  rw [decode]
  dsimp only
  rw [if_pos hnamed]

/-- Without one the name is made of the first label. -/
theorem decode_of_label {first : String} {others : List String}
    (h : explicitName given.labels name = ("", first :: others))
    (sort : ElementSort) (names : NameSequence) :
    decode sort given name names =
      ((sort.defaultName first, first :: others), names) := by
  rw [decode, h]
  rfl

/-- Without any label it is the next anonymous one. -/
theorem decode_of_nothing (h : explicitName given.labels name = ("", []))
    (sort : ElementSort) (names : NameSequence) :
    decode sort given name names = ((names.draw.1, []), names.draw.2) := by
  rw [decode, h]
  rfl

end

/-- **Every name an element is given is proper**, if the anonymous ones are. -/
theorem proper_decode (sort : ElementSort) (given : LabelArgument)
    (name : Option String) {names : NameSequence}
    (hstem : Proper names.stem) :
    Proper (decode sort given name names).1.1 := by
  have hlabels : ∀ label ∈ given.labels, Proper label := fun label =>
    proper_of_mem_labels
  obtain ⟨hname, hall⟩ := proper_of_explicitName hlabels name
  rcases explicitName_cases given name with htold | ⟨first, others, hlabel⟩ |
      hnothing
  · rw [decode_of_told htold]
    exact hname.resolve_left fun hempty =>
      htold (String.isEmpty_iff.mp hempty)
  · rw [decode_of_label hlabel]
    rw [hlabel] at hall
    exact (hall first List.mem_cons_self).defaultName sort
  · rw [decode_of_nothing hnothing]
    exact hstem.append_number names.drawn

/-- Proper labels are given as they are. -/
theorem labels_of_proper {labels : List String}
    (h : ∀ label ∈ labels, Proper label) :
    (LabelArgument.many labels).labels = labels := by
  have hfilter : labels.filter (fun label => !isBlankText label) =
      labels := by
    rw [List.filter_eq_self]
    intro label hlabel
    rw [(h label hlabel).isBlankText_eq]
    rfl
  have hmap : labels.map trimmed = labels.map id :=
    List.map_congr_left fun label hlabel => (h label hlabel).trimmed_eq
  rw [LabelArgument.labels, LabelArgument.tokens, hfilter, hmap, List.map_id]

/-- Labels that have been given before are given as they are. -/
theorem labels_many_labels (given : LabelArgument) :
    (LabelArgument.many given.labels).labels = given.labels :=
  labels_of_proper fun _ => proper_of_mem_labels

/-- A plain name is taken as it is. -/
theorem decode_some_of_plain {name : String} (h : Plain name)
    (sort : ElementSort) (given : LabelArgument) (names : NameSequence) :
    decode sort given (some name) names = ((name, given.labels), names) := by
  have hexplicit : explicitName given.labels (some name) =
      (name, given.labels) := by
    apply Explicit.eq
    rw [Option.getD_some, h.trimmed_eq]
    exact .name h.isEmpty_eq h.embedded_eq
  simp only [decode, hexplicit, h.isEmpty_eq]
  rfl

/-- A plain name and plain labels are taken as they are. -/
theorem decode_of_plain {name : String} {labels : List String}
    (hname : Plain name) (hlabels : ∀ label ∈ labels, Plain label)
    (sort : ElementSort) (names : NameSequence) :
    decode sort (.many labels)
    (some name) names = ((name, labels), names) := by
  rw [decode_some_of_plain hname, labels_of_proper fun label hlabel =>
    (hlabels label hlabel).toProper]

/-- Only a token with a colon brings labels along. -/
theorem embedded_of_explicitName {text name : String} {labels : List String}
    (h : explicitName [] (some text) = (name, labels))
    (hlabels : labels ≠ []) :
    embedded (trimmed text) = some (name, labels) := by
  have htold := explicit_explicitName [] (some text)
  rw [h] at htold
  cases htold with
  | nothing => exact absurd rfl hlabels
  | name => exact absurd rfl hlabels
  | labelled _ hembedded =>
    rw [List.append_nil]
    exact hembedded

/-- The name and the labels that are read off a text alone are plain, unless
there is no name. -/
theorem plain_of_explicitName (text : String) :
    ((explicitName [] (some text)).1.isEmpty = true ∨
      Plain (explicitName [] (some text)).1) ∧
      ∀ label ∈ (explicitName [] (some text)).2, Plain label := by
  have htold := explicit_explicitName [] (some text)
  generalize explicitName [] (some text) = told at htold ⊢
  cases htold with
  | nothing => exact ⟨.inl rfl, List.forall_mem_nil _⟩
  | name hgiven hplain =>
    have hname := Proper.of_trimmed hgiven
    exact ⟨.inr ⟨hname, noColon_of_embedded hplain⟩, List.forall_mem_nil _⟩
  | labelled _ hembedded =>
    rw [List.append_nil]
    exact plain_of_embedded hembedded

/-- A node goes by a plain name if that is read off a text alone. -/
theorem plain_decode (text : String) {names : NameSequence}
    (hstem : Plain names.stem) :
    Plain (decode .node .none (some text) names).1.1 := by
  obtain ⟨hname, hall⟩ := plain_of_explicitName text
  rcases explicitName_cases .none (some text) with
      htold | ⟨first, others, hlabel⟩ | hnothing
  · rw [decode_of_told htold]
    exact hname.resolve_left fun hempty =>
      htold (String.isEmpty_iff.mp hempty)
  · rw [decode_of_label hlabel]
    have hmem :
        first ∈ (explicitName LabelArgument.none.labels (some text)).2 := by
      rw [hlabel]
      exact List.mem_cons_self
    exact (hall first hmem).defaultNodeName
  · rw [decode_of_nothing hnothing]
    exact hstem.append_number names.drawn

/-- **What is read off an end of a relationship with labels is read off
again from its name and labels.** -/
theorem decode_again {text name : String} {labels : List String}
    {names names' : NameSequence}
    (h : decode .node .none (some text) names = ((name, labels), names'))
    (hlabels : labels ≠ []) :
    names' = names ∧ decode .node (.many labels)
    (some name) names = ((name, labels), names) := by
  have hplain : names' = names ∧ Plain name ∧
      ∀ label ∈ labels, Plain label := by
    rcases explicitName_cases .none (some text) with
        htold | ⟨first, others, hlabel⟩ | hnothing
    · rw [decode_of_told htold] at h
      obtain ⟨hexplicit, rfl⟩ := Prod.mk.inj h
      rw [hexplicit] at htold
      obtain ⟨hname, hall⟩ :=
        plain_of_embedded (embedded_of_explicitName hexplicit hlabels)
      exact ⟨rfl, hname.resolve_left fun hempty =>
        htold (String.isEmpty_iff.mp hempty), hall⟩
    · rw [decode_of_label hlabel] at h
      cases h
      obtain ⟨-, hall⟩ :=
        plain_of_embedded (embedded_of_explicitName hlabel hlabels)
      exact ⟨rfl, (hall first List.mem_cons_self).defaultNodeName, hall⟩
    · rw [decode_of_nothing hnothing] at h
      cases h
      exact absurd rfl hlabels
  obtain ⟨hnames, hname, hall⟩ := hplain
  exact ⟨hnames, decode_of_plain hname hall .node names⟩

end Pattern

end GraphQuery
