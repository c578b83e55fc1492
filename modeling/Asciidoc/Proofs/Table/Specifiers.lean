import Asciidoc.Table.Cells
import Mathlib.Computability.Language
import Mathlib.Data.List.TakeWhile

/-!
# The specifiers of cells

A specifier says how many columns and rows a cell spans or how often it is repeated, how it is
aligned, and its style, each part if it is there, in this order. `specifiers` is the language of
these texts, written part by part. What takes the parts off a text from the left decides it, a line
feed at the end aside (`isSpec_iff`): no two parts begin alike, so it never has to go back.

A specifier has no blanks in it. So the end of a piece is cut at its last blank or nowhere, and the
cut is exact both ways: what is cut off is a specifier that stands behind a blank, or at the start
of the line (`Piece.ofText_sound`), and one that stands so is cut off (`Piece.ofText_append`).
-/

namespace Asciidoc

open Text

/-- No digit is a blank. -/
theorem Text.Digit.isBlank_eq_false {c : Char} (h : isDigit c = true) : isBlank c = false := by
  -- The runs of digits lie between the runs of blanks.
  have hapart : ∀ first ∈ zeros, ∀ blanks ∈ [(0x09, 0x0D), (0x1C, 0x20), (0x85, 0x85),
      (0xA0, 0xA0), (0x1680, 0x1680), (0x2000, 0x200A), (0x2028, 0x2029), (0x202F, 0x202F),
      (0x205F, 0x205F), (0x3000, 0x3000)], first + 10 ≤ blanks.1 ∨ blanks.2 < first := by decide
  have hrun : ∃ first ∈ zeros, first ≤ c.toNat ∧ c.toNat < first + 10 := by
    unfold isDigit value? at h
    dsimp only at h
    split at h
    · split at h
      next hascii =>
        rw [Bool.and_eq_true, decide_eq_true_eq, decide_eq_true_eq] at hascii
        exact ⟨0x30, by decide, hascii.1, by omega⟩
      next => cases h
    · rw [Option.isSome_map, List.find?_isSome] at h
      obtain ⟨first, hfirst, hbounds⟩ := h
      rw [Bool.and_eq_true, decide_eq_true_eq, decide_eq_true_eq] at hbounds
      exact ⟨first, hfirst, hbounds⟩
  obtain ⟨first, hfirst, hlow, hhigh⟩ := hrun
  have hapart := hapart first hfirst
  simp only [List.forall_mem_cons, List.not_mem_nil, false_imp_iff, implies_true, and_true]
    at hapart
  rw [Bool.eq_false_iff, isBlank]
  simp only [ne_eq, Bool.or_eq_true, Bool.and_eq_true, decide_eq_true_eq, beq_iff_eq]
  omega

namespace Table

variable {t rest start before span alignment style spec feed digits : Text} {c : Char}

/-! ## The grammar -/

/-- The texts of one code point of a kind. -/
def oneOf (kind : Char → Bool) : Language Char := {t | ∃ c, kind c = true ∧ t = [c]}

/-- The runs of digits that are not empty. -/
def numerals : Language Char := {t | t ≠ [] ∧ t.all Digit.isDigit = true}

/-- How many columns and rows a cell spans, or how often it is repeated. -/
def spans : Language Char :=
  numerals * (1 + oneOf (· == '.') * numerals) * oneOf (fun c => c == '*' || c == '+') +
    oneOf (· == '.') * numerals * oneOf (· == '+')

/-- How a cell is aligned in its row, and perhaps in its column. -/
def alignments : Language Char := oneOf isAlignment * (1 + oneOf (· == '.') * oneOf isAlignment)

/-- The specifiers of cells. -/
def specifiers : Language Char := (1 + spans) * (1 + alignments) * (1 + oneOf isStyle)

/-- What may stand behind a specifier at the end of a text. -/
def feeds : Language Char := 1 + oneOf (· == '\n')

theorem mem_oneOf {kind : Char → Bool} : t ∈ oneOf kind ↔ ∃ c, kind c = true ∧ t = [c] := Iff.rfl

/-- The forms of a span. -/
theorem mem_spans : t ∈ spans ↔
    (∃ columns ∈ numerals, ∃ mark, (mark = '*' ∨ mark = '+') ∧ t = columns ++ [mark]) ∨
    (∃ columns ∈ numerals, ∃ rows ∈ numerals, ∃ mark, (mark = '*' ∨ mark = '+') ∧
      t = columns ++ '.' :: (rows ++ [mark])) ∨
    ∃ rows ∈ numerals, t = '.' :: (rows ++ ['+']) := by
  simp only [spans, Language.mem_add, Language.mem_mul, Language.mem_one, mem_oneOf, beq_iff_eq,
    Bool.or_eq_true]
  constructor
  · rintro (⟨_, ⟨columns, hcolumns, _, (rfl | ⟨_, ⟨_, rfl, rfl⟩, rows, hrows, rfl⟩), rfl⟩, _,
      ⟨mark, hmark, rfl⟩, rfl⟩ | ⟨_, ⟨_, ⟨_, rfl, rfl⟩, rows, hrows, rfl⟩, _, ⟨_, rfl, rfl⟩, rfl⟩)
    · exact .inl ⟨columns, hcolumns, mark, hmark, by simp⟩
    · exact .inr (.inl ⟨columns, hcolumns, rows, hrows, mark, hmark, by simp⟩)
    · exact .inr (.inr ⟨rows, hrows, by simp⟩)
  · rintro (⟨columns, hcolumns, mark, hmark, rfl⟩ | ⟨columns, hcolumns, rows, hrows, mark, hmark,
      rfl⟩ | ⟨rows, hrows, rfl⟩)
    · exact .inl ⟨columns, ⟨columns, hcolumns, [], .inl rfl, by simp⟩, _, ⟨mark, hmark, rfl⟩, rfl⟩
    · exact .inl ⟨columns ++ '.' :: rows, ⟨columns, hcolumns, _, .inr ⟨_, ⟨_, rfl, rfl⟩, rows,
        hrows, rfl⟩, rfl⟩, _, ⟨mark, hmark, rfl⟩, by simp⟩
    · exact .inr ⟨_, ⟨_, ⟨_, rfl, rfl⟩, rows, hrows, rfl⟩, _, ⟨_, rfl, rfl⟩, rfl⟩

/-- The forms of an alignment. -/
theorem mem_alignments : t ∈ alignments ↔
    (∃ c, isAlignment c = true ∧ t = [c]) ∨
    ∃ c d, isAlignment c = true ∧ isAlignment d = true ∧ t = [c, '.', d] := by
  simp only [alignments, Language.mem_add, Language.mem_mul, Language.mem_one, mem_oneOf,
    beq_iff_eq]
  constructor
  · rintro ⟨_, ⟨c, hc, rfl⟩, _, (rfl | ⟨_, ⟨_, rfl, rfl⟩, _, ⟨d, hd, rfl⟩, rfl⟩), rfl⟩
    · exact .inl ⟨c, hc, rfl⟩
    · exact .inr ⟨c, d, hc, hd, rfl⟩
  · rintro (⟨c, hc, rfl⟩ | ⟨c, d, hc, hd, rfl⟩)
    · exact ⟨_, ⟨c, hc, rfl⟩, [], .inl rfl, rfl⟩
    · exact ⟨_, ⟨c, hc, rfl⟩, _, .inr ⟨_, ⟨_, rfl, rfl⟩, _, ⟨d, hd, rfl⟩, rfl⟩, rfl⟩

theorem mem_feeds : t ∈ feeds ↔ t = [] ∨ t = ['\n'] := by
  simp [feeds, Language.mem_add, Language.mem_one, mem_oneOf]

/-! ## Taking the parts off -/

theorem takeWhile_digits (hdigits : digits ∈ numerals) (hc : Digit.isDigit c = false) :
    (digits ++ c :: rest).takeWhile Digit.isDigit = digits := by
  rw [List.takeWhile_append_of_pos (List.all_eq_true.mp hdigits.2),
    List.takeWhile_cons_of_neg (Bool.eq_false_iff.mp hc), List.append_nil]

theorem dropWhile_digits (hdigits : digits ∈ numerals) (hc : Digit.isDigit c = false) :
    (digits ++ c :: rest).dropWhile Digit.isDigit = c :: rest := by
  rw [List.dropWhile_append_of_pos (List.all_eq_true.mp hdigits.2),
    List.dropWhile_cons_of_neg (Bool.eq_false_iff.mp hc)]

/-- The digits a text begins with are a numeral, if there are some. -/
theorem digits_append (h : t.takeWhile Digit.isDigit = c :: digits)
    (hrest : t.dropWhile Digit.isDigit = rest) :
    c :: digits ∈ numerals ∧ t = c :: digits ++ rest := by
  refine ⟨⟨List.cons_ne_nil _ _, h ▸ List.all_takeWhile⟩, ?_⟩
  rw [← h, ← hrest, List.takeWhile_append_dropWhile]

/-- A span is taken off whole, whatever stands behind it. -/
theorem dropSpan_append (h : span ∈ spans) (rest : Text) : dropSpan (span ++ rest) = rest := by
  have hmark {mark : Char} (h : mark = '*' ∨ mark = '+') : Digit.isDigit mark = false := by
    rcases h with rfl | rfl <;> decide
  rcases mem_spans.mp h with ⟨columns, hcolumns, mark, hmarks, rfl⟩ |
    ⟨columns, hcolumns, rows, hrows, mark, hmarks, rfl⟩ | ⟨rows, hrows, rfl⟩
  · rw [List.append_assoc, List.singleton_append, dropSpan,
      takeWhile_digits hcolumns (hmark hmarks), dropWhile_digits hcolumns (hmark hmarks)]
    obtain ⟨d, more, rfl⟩ := List.exists_cons_of_ne_nil hcolumns.1
    rcases hmarks with rfl | rfl <;> rfl
  · have hwhole : columns ++ '.' :: (rows ++ [mark]) ++ rest
        = columns ++ '.' :: (rows ++ mark :: rest) := by simp
    rw [hwhole, dropSpan, takeWhile_digits hcolumns (by decide),
      dropWhile_digits hcolumns (by decide)]
    obtain ⟨d, more, rfl⟩ := List.exists_cons_of_ne_nil hcolumns.1
    simp only [takeWhile_digits hrows (hmark hmarks), dropWhile_digits hrows (hmark hmarks)]
    obtain ⟨e, others, rfl⟩ := List.exists_cons_of_ne_nil hrows.1
    rcases hmarks with rfl | rfl <;> rfl
  · have hwhole : '.' :: (rows ++ ['+']) ++ rest = '.' :: (rows ++ '+' :: rest) := by simp
    rw [hwhole, dropSpan, List.takeWhile_cons_of_neg (by decide),
      List.dropWhile_cons_of_neg (by decide)]
    simp only [takeWhile_digits hrows (c := '+') (by decide),
      dropWhile_digits hrows (c := '+') (by decide)]
    obtain ⟨e, others, rfl⟩ := List.exists_cons_of_ne_nil hrows.1
    rfl

/-- What begins with neither a digit nor a point has no span. -/
theorem dropSpan_of_head (h : ∀ c ∈ rest.head?, Digit.isDigit c = false ∧ c ≠ '.') :
    dropSpan rest = rest := by
  cases rest with
  | nil => rfl
  | cons c more =>
    obtain ⟨hdigit, hpoint⟩ := h c rfl
    simp [dropSpan, hdigit, hpoint]

/-- What is taken off is a span, or nothing. -/
theorem dropSpan_eq (t : Text) : ∃ span ∈ 1 + spans, span ++ dropSpan t = t := by
  have hnone : ∃ span ∈ 1 + spans, span ++ t = t := ⟨[], .inl rfl, rfl⟩
  fun_cases dropSpan t
  case case1 rest hpoint hnodigit d ds more hmark hdigits =>
    obtain ⟨hrows, rfl⟩ := digits_append hdigits hmark
    have hsplit := List.takeWhile_append_dropWhile (p := Digit.isDigit) (l := t)
    rw [hnodigit, hpoint, List.nil_append] at hsplit
    exact ⟨_, .inr (mem_spans.mpr (.inr (.inr ⟨_, hrows, rfl⟩))), by simp [← hsplit]⟩
  case case4 d ds rest hpoint hdigits e es more hmark hothers =>
    obtain ⟨hcolumns, rfl⟩ := digits_append hdigits hpoint
    obtain ⟨hrows, rfl⟩ := digits_append hothers hmark
    exact ⟨_, .inr (mem_spans.mpr (.inr (.inl ⟨_, hcolumns, _, hrows, _, .inl rfl, rfl⟩))), by simp⟩
  case case5 d ds rest hpoint hdigits e es more hmark hothers =>
    obtain ⟨hcolumns, rfl⟩ := digits_append hdigits hpoint
    obtain ⟨hrows, rfl⟩ := digits_append hothers hmark
    exact ⟨_, .inr (mem_spans.mpr (.inr (.inl ⟨_, hcolumns, _, hrows, _, .inr rfl, rfl⟩))), by simp⟩
  case case7 d ds more hmark hdigits =>
    obtain ⟨hcolumns, rfl⟩ := digits_append hdigits hmark
    exact ⟨_, .inr (mem_spans.mpr (.inl ⟨_, hcolumns, _, .inl rfl, rfl⟩)), by simp⟩
  case case8 d ds more hmark hdigits =>
    obtain ⟨hcolumns, rfl⟩ := digits_append hdigits hmark
    exact ⟨_, .inr (mem_spans.mpr (.inl ⟨_, hcolumns, _, .inr rfl, rfl⟩)), by simp⟩
  -- In all other cases the text is left as it is.
  all_goals exact hnone

/-- What begins with no mark of alignment has none. -/
theorem dropAlignment_of_head (h : ∀ c ∈ rest.head?, isAlignment c = false) :
    dropAlignment rest = rest := by
  fun_cases dropAlignment rest <;> simp_all

/-- Without a point behind it, only one mark is taken off. -/
theorem dropAlignment_cons (hc : isAlignment c = true) (h : rest.head? ≠ some '.') :
    dropAlignment (c :: rest) = rest := by
  cases rest with
  | nil => simp [dropAlignment, hc]
  | cons d more =>
    have hpoint : d ≠ '.' := fun hd => h (congrArg some hd)
    simp [dropAlignment, hc, hpoint]

/-- An alignment is taken off whole, if what stands behind it does not make it longer. -/
theorem dropAlignment_append (h : alignment ∈ 1 + alignments)
    (hrest : ∀ c ∈ rest.head?, isAlignment c = false ∧ c ≠ '.') :
    dropAlignment (alignment ++ rest) = rest := by
  rcases h with rfl | h
  · exact dropAlignment_of_head fun c hc => (hrest c hc).1
  · rcases mem_alignments.mp h with ⟨c, hc, rfl⟩ | ⟨c, d, hc, hd, rfl⟩
    · exact dropAlignment_cons hc fun hhead => (hrest '.' hhead).2 rfl
    · simp [dropAlignment, hc, hd]

/-- What is taken off is an alignment, or nothing. -/
theorem dropAlignment_eq (t : Text) :
    ∃ alignment ∈ 1 + alignments, alignment ++ dropAlignment t = t := by
  fun_cases dropAlignment t
  case case1 c d rest hc hd =>
    exact ⟨_, .inr (mem_alignments.mpr (.inr ⟨c, d, hc, hd, rfl⟩)), rfl⟩
  case case2 c d rest hc hd =>
    exact ⟨_, .inr (mem_alignments.mpr (.inl ⟨c, hc, rfl⟩)), rfl⟩
  case case4 c rest _ hc => exact ⟨_, .inr (mem_alignments.mpr (.inl ⟨c, hc, rfl⟩)), rfl⟩
  case case3 | case5 | case6 => exact ⟨[], .inl rfl, rfl⟩

/-- A style is taken off, if what stands behind it is none. -/
theorem dropStyle_append (h : style ∈ 1 + oneOf isStyle)
    (hrest : ∀ c ∈ rest.head?, isStyle c = false) : dropStyle (style ++ rest) = rest := by
  rcases h with rfl | ⟨c, hc, rfl⟩
  · cases rest with
    | nil => rfl
    | cons c more => simp [dropStyle, hrest c rfl]
  · simp [dropStyle, hc]

/-- What is taken off is a style, or nothing. -/
theorem dropStyle_eq (t : Text) : ∃ style ∈ 1 + oneOf isStyle, style ++ dropStyle t = t := by
  fun_cases dropStyle t
  case case1 c rest hc => exact ⟨[c], .inr ⟨c, hc, rfl⟩, rfl⟩
  case case2 | case3 => exact ⟨[], .inl rfl, rfl⟩

/-! ## What is a specifier -/

/-- A text that may begin with a kind of code point, and another behind it, begin with that kind or
as the other does. -/
theorem head?_append_of_kind {kind : Char → Bool} (h : ∀ c ∈ start.head?, kind c = true) :
    ∀ c ∈ (start ++ rest).head?, kind c = true ∨ c ∈ rest.head? := by
  cases start with
  | nil => exact fun c hc => .inr hc
  | cons d more => exact fun c hc => .inl (h c hc)

theorem head?_style (h : style ∈ 1 + oneOf isStyle) : ∀ c ∈ style.head?, isStyle c = true := by
  rcases h with rfl | ⟨c, hc, rfl⟩
  · exact nofun
  · rintro _ ⟨⟩
    exact hc

theorem head?_alignment (h : alignment ∈ 1 + alignments) :
    ∀ c ∈ alignment.head?, isAlignment c = true := by
  rcases h with rfl | h
  · exact nofun
  · rcases mem_alignments.mp h with ⟨c, hc, rfl⟩ | ⟨c, d, hc, -, rfl⟩ <;>
      · rintro _ ⟨⟩
        exact hc

/-- A letter of a style begins no other part. -/
theorem isStyle_apart (h : isStyle c = true) :
    isAlignment c = false ∧ Digit.isDigit c = false ∧ c ≠ '.' ∧ isBlank c = false := by
  have hmem : c ∈ ['a', 'd', 'e', 'h', 'l', 'm', 's', 'v'] := List.contains_iff_mem.mp h
  simp only [List.mem_cons, List.not_mem_nil, or_false] at hmem
  rcases hmem with rfl | rfl | rfl | rfl | rfl | rfl | rfl | rfl <;> decide

/-- A mark of alignment begins no other part. -/
theorem isAlignment_apart (h : isAlignment c = true) :
    Digit.isDigit c = false ∧ c ≠ '.' ∧ isBlank c = false := by
  simp only [isAlignment, Bool.or_eq_true, beq_iff_eq] at h
  rcases h with (rfl | rfl) | rfl <;> decide

/-- A specifier passes, also with a line feed behind it. -/
theorem isSpec_append (hspec : spec ∈ specifiers) (hfeed : feed ∈ feeds) :
    isSpec (spec ++ feed) = true := by
  obtain ⟨_, ⟨span, hspan, alignment, halignment, rfl⟩, style, hstyle, rfl⟩ := hspec
  -- What is left begins, after each part, as no part before it could go on.
  have hfeeds : ∀ c ∈ feed.head?, c = '\n' := by
    rcases mem_feeds.mp hfeed with rfl | rfl
    · exact nofun
    · rintro _ ⟨⟩
      rfl
  have hstyles : ∀ c ∈ (style ++ feed).head?, isStyle c = true ∨ c = '\n' := fun c hc =>
    (head?_append_of_kind (head?_style hstyle) c hc).imp id (hfeeds c)
  have haligned : ∀ c ∈ (alignment ++ (style ++ feed)).head?,
      isAlignment c = true ∨ isStyle c = true ∨ c = '\n' := fun c hc =>
    (head?_append_of_kind (head?_alignment halignment) c hc).imp id (hstyles c)
  have hspanned : dropSpan (span ++ (alignment ++ (style ++ feed)))
      = alignment ++ (style ++ feed) := by
    rcases hspan with rfl | hspan
    · refine dropSpan_of_head fun c hc => ?_
      rcases haligned c hc with hc | hc | rfl
      · exact ⟨(isAlignment_apart hc).1, (isAlignment_apart hc).2.1⟩
      · exact ⟨(isStyle_apart hc).2.1, (isStyle_apart hc).2.2.1⟩
      · decide
    · exact dropSpan_append hspan _
  have hrest : dropAlignment (alignment ++ (style ++ feed)) = style ++ feed := by
    refine dropAlignment_append halignment fun c hc => ?_
    rcases hstyles c hc with hc | rfl
    · exact ⟨(isStyle_apart hc).1, (isStyle_apart hc).2.2.1⟩
    · decide
  have hleft : dropStyle (style ++ feed) = feed := by
    refine dropStyle_append hstyle fun c hc => ?_
    rw [hfeeds c hc]
    decide
  dsimp only
  rw [isSpec, List.append_assoc, List.append_assoc, hspanned, hrest, hleft]
  rcases mem_feeds.mp hfeed with rfl | rfl <;> rfl

/-- Taking the parts off decides which texts are specifiers, but for a line feed at the end. -/
theorem isSpec_iff : isSpec t = true ↔ t ∈ specifiers * feeds := by
  constructor
  · intro h
    obtain ⟨span, hspan, hsplit⟩ := dropSpan_eq t
    obtain ⟨alignment, halignment, haligned⟩ := dropAlignment_eq (dropSpan t)
    obtain ⟨style, hstyle, hstyled⟩ := dropStyle_eq (dropAlignment (dropSpan t))
    have hfeed : dropStyle (dropAlignment (dropSpan t)) ∈ feeds := by
      rw [isSpec] at h
      rw [mem_feeds]
      split at h
      · exact .inl ‹_›
      · exact .inr ‹_›
      · cases h
    refine Language.mem_mul.mpr ⟨span ++ alignment ++ style,
      ⟨_, ⟨_, hspan, _, halignment, rfl⟩, _, hstyle, rfl⟩, _, hfeed, ?_⟩
    rw [List.append_assoc, hstyled, List.append_assoc, haligned, hsplit]
  · rintro ⟨spec, hspec, feed, hfeed, rfl⟩
    exact isSpec_append hspec hfeed

/-! ## No blanks -/

/-- A language of texts without blanks. -/
def Blankless (l : Language Char) : Prop := ∀ t ∈ l, ∀ c ∈ t, isBlank c = false

theorem Blankless.one : Blankless 1 := by
  rintro _ rfl
  exact nofun

theorem Blankless.add {l m : Language Char} (hl : Blankless l) (hm : Blankless m) :
    Blankless (l + m) :=
  fun t ht => ht.elim (hl t) (hm t)

theorem Blankless.mul {l m : Language Char} (hl : Blankless l) (hm : Blankless m) :
    Blankless (l * m) := by
  rintro _ ⟨first, hfirst, second, hsecond, rfl⟩
  exact List.forall_mem_append.mpr ⟨hl first hfirst, hm second hsecond⟩

theorem blankless_oneOf {kind : Char → Bool} (h : ∀ c, kind c = true → isBlank c = false) :
    Blankless (oneOf kind) := by
  rintro _ ⟨c, hc, rfl⟩
  exact List.forall_mem_singleton.mpr (h c hc)

/-- There are no blanks in a specifier. -/
theorem blankless_specifiers : Blankless specifiers := by
  have hpoint : Blankless (oneOf (· == '.')) := blankless_oneOf (by simp; decide)
  have hplus : Blankless (oneOf (· == '+')) := blankless_oneOf (by simp; decide)
  have hmark : Blankless (oneOf fun c => c == '*' || c == '+') := blankless_oneOf (by simp; decide)
  have hnumerals : Blankless numerals := fun t ht c hc =>
    Digit.isBlank_eq_false (List.all_eq_true.mp ht.2 c hc)
  have haligned : Blankless (oneOf isAlignment) := blankless_oneOf fun c hc =>
    (isAlignment_apart hc).2.2
  have hstyle : Blankless (oneOf isStyle) := blankless_oneOf fun c hc => (isStyle_apart hc).2.2.2
  have hspans : Blankless spans :=
    ((hnumerals.mul (Blankless.one.add (hpoint.mul hnumerals))).mul hmark).add
      ((hpoint.mul hnumerals).mul hplus)
  have halignments : Blankless alignments :=
    haligned.mul (Blankless.one.add (hpoint.mul haligned))
  exact ((Blankless.one.add hspans).mul (Blankless.one.add halignments)).mul
    (Blankless.one.add hstyle)

/-- A line feed behind a specifier is no part of it. -/
theorem specOf_append (hspec : spec ∈ specifiers) (hfeed : feed ∈ feeds) :
    specOf (spec ++ feed) = spec := by
  rcases mem_feeds.mp hfeed with rfl | rfl
  · have hlast : spec.getLast? ≠ some '\n' := fun hlast =>
      absurd (blankless_specifiers spec hspec _ (List.mem_of_getLast? hlast)) (by decide)
    rw [List.append_nil, specOf, if_neg hlast]
  · rw [specOf, if_pos List.getLast?_concat, List.dropLast_concat]

/-- What passes for a specifier is one, and perhaps a line feed. -/
theorem specOf_mem (h : isSpec t = true) :
    specOf t ∈ specifiers ∧ ∃ feed ∈ feeds, specOf t ++ feed = t := by
  obtain ⟨spec, hspec, feed, hfeed, rfl⟩ := Language.mem_mul.mp (isSpec_iff.mp h)
  rw [specOf_append hspec hfeed]
  exact ⟨hspec, feed, hfeed, rfl⟩

/-- Nothing stands behind a blank in what passes for a specifier. -/
theorem eq_nil_of_isSpec (h : isSpec (start ++ c :: rest) = true) (hc : isBlank c = true) :
    rest = [] := by
  obtain ⟨spec, hspec, feed, hfeed, hsplit⟩ := Language.mem_mul.mp (isSpec_iff.mp h)
  have hnot : c ∉ spec := fun hmem => by
    rw [blankless_specifiers spec hspec c hmem] at hc
    cases hc
  rcases mem_feeds.mp hfeed with rfl | rfl
  · refine absurd ?_ hnot
    rw [← List.append_nil spec, hsplit]
    simp
  · by_contra hne
    refine absurd ?_ hnot
    have hspec : (start ++ c :: rest).dropLast = spec := by rw [← hsplit, List.dropLast_concat]
    rw [← hspec, List.dropLast_append_of_ne_nil (List.cons_ne_nil c rest),
      List.dropLast_cons_of_ne_nil hne]
    simp

/-! ## The end of a piece -/

/-- A text ends in a blank. -/
def EndsBlank (t : Text) : Prop := ∃ c, t.getLast? = some c ∧ isBlank c = true

theorem EndsBlank.exists_concat (h : EndsBlank t) :
    ∃ start c, t = start ++ [c] ∧ isBlank c = true := by
  obtain ⟨c, hlast, hc⟩ := h
  obtain ⟨start, rfl⟩ := List.getLast?_eq_some_iff.mp hlast
  exact ⟨start, c, rfl, hc⟩

/-- A specifier may stand behind a text that ends in a blank, and at the start of a line. -/
def Admits (first : Bool) (before : Text) : Prop :=
  EndsBlank before ∨ first = true ∧ before = []

/-- What is found at the end of a piece is a specifier behind a blank. -/
theorem endSpec?_sound (h : endSpec? t = some (before, spec)) :
    spec ∈ specifiers ∧ EndsBlank before ∧ ∃ feed ∈ feeds, before ++ spec ++ feed = t := by
  induction t generalizing before with
  | nil => cases h
  | cons c rest ih =>
    rw [endSpec?] at h
    split at h
    next hfound =>
      obtain ⟨hc, hrest⟩ := Bool.and_eq_true_iff.mp hfound
      obtain ⟨rfl, rfl⟩ := Prod.mk.inj (Option.some.inj h)
      obtain ⟨hspec, feed, hfeed, hsplit⟩ := specOf_mem hrest
      exact ⟨hspec, ⟨c, rfl, hc⟩, feed, hfeed, congrArg (c :: ·) hsplit⟩
    next =>
      obtain ⟨⟨more, found⟩, hfound, hpair⟩ := Option.map_eq_some_iff.mp h
      obtain ⟨rfl, rfl⟩ := Prod.mk.inj hpair
      obtain ⟨hspec, ⟨d, hlast, hd⟩, feed, hfeed, hsplit⟩ := ih hfound
      refine ⟨hspec, ⟨d, ?_, hd⟩, feed, hfeed, congrArg (c :: ·) hsplit⟩
      rw [List.getLast?_cons, hlast]
      rfl

/-- A specifier behind a blank is found at the end of a piece. -/
theorem endSpec?_append (hbefore : EndsBlank before) (hspec : spec ∈ specifiers) (hne : spec ≠ [])
    (hfeed : feed ∈ feeds) : endSpec? (before ++ (spec ++ feed)) = some (before, spec) := by
  obtain ⟨start, blank, rfl, hblank⟩ := hbefore.exists_concat
  have hend := isSpec_append hspec hfeed
  clear hbefore
  rw [List.append_assoc, List.singleton_append]
  induction start with
  | nil => simp [endSpec?, hblank, hend, specOf_append hspec hfeed]
  | cons c more ih =>
    -- What stands behind an earlier blank has the last blank in it.
    have hnot : isSpec (more ++ blank :: (spec ++ feed)) = false := Bool.eq_false_iff.mpr fun h =>
      hne (List.append_eq_nil_iff.mp (eq_nil_of_isSpec h hblank)).1
    rw [List.cons_append, endSpec?, hnot, Bool.and_false, if_neg Bool.false_ne_true, ih]
    rfl

/-- A piece is a text, a specifier or nothing, and perhaps a line feed; the specifier stands where
one may. -/
theorem Piece.ofText_sound (first : Bool) (t : Text) :
    ((Piece.ofText first t).spec ≠ [] → (Piece.ofText first t).spec ∈ specifiers ∧
      Admits first (Piece.ofText first t).text) ∧
    ∃ feed ∈ feeds, (Piece.ofText first t).text ++ (Piece.ofText first t).spec ++ feed = t := by
  rw [Piece.ofText]
  split
  next text c spec hfound =>
    split at hfound
    next hstart =>
      obtain ⟨hfirst, hspec⟩ := Bool.and_eq_true_iff.mp hstart
      obtain ⟨rfl, hcons⟩ := Prod.mk.inj (Option.some.inj hfound)
      obtain ⟨hmem, feed, hfeed, hsplit⟩ := specOf_mem hspec
      rw [← hcons]
      refine ⟨fun _ => ⟨hmem, ?_⟩, feed, hfeed, ?_⟩
      · rcases List.eq_nil_or_concat (t.takeWhile isBlank) with hnil | ⟨start, d, hconcat⟩
        · exact .inr ⟨hfirst, hnil⟩
        · have hd : d ∈ t.takeWhile isBlank := by simp [hconcat]
          exact .inl ⟨d, by simp [hconcat], List.mem_takeWhile_imp hd⟩
      · rw [List.append_assoc, hsplit, trimLeft, List.takeWhile_append_dropWhile]
    next =>
      obtain ⟨hspec, hblank, hsplit⟩ := endSpec?_sound hfound
      exact ⟨fun _ => ⟨hspec, .inl hblank⟩, hsplit⟩
  next => exact ⟨fun hne => absurd rfl hne, [], mem_feeds.mpr (.inl rfl), by simp⟩

/-- A specifier that stands where one may is cut off. -/
theorem Piece.ofText_append {first : Bool} (hbefore : Admits first before)
    (hspec : spec ∈ specifiers) (hne : spec ≠ []) (hfeed : feed ∈ feeds) :
    Piece.ofText first (before ++ (spec ++ feed)) = ⟨before, spec⟩ := by
  have hstop : (spec ++ feed).takeWhile isBlank = [] ∧
      (spec ++ feed).dropWhile isBlank = spec ++ feed := by
    obtain ⟨c, more, rfl⟩ := List.exists_cons_of_ne_nil hne
    have hc := Bool.eq_false_iff.mp (blankless_specifiers _ hspec c List.mem_cons_self)
    exact ⟨List.takeWhile_cons_of_neg hc, List.dropWhile_cons_of_neg hc⟩
  unfold Piece.ofText
  dsimp only
  by_cases hstart : (first && isSpec (trimLeft (before ++ (spec ++ feed)))) = true
  · -- A blank behind something else could not be passed over.
    have hall : ∀ c ∈ before, isBlank c = true := by
      rcases hbefore with hends | ⟨-, rfl⟩
      · obtain ⟨start, blank, rfl, hblank⟩ := hends.exists_concat
        refine List.forall_mem_append.mpr ⟨?_, List.forall_mem_singleton.mpr hblank⟩
        rw [← List.dropWhile_eq_nil_iff]
        by_contra hnot
        have hspec := (Bool.and_eq_true_iff.mp hstart).2
        rw [List.append_assoc, List.singleton_append, trimLeft, List.dropWhile_append,
          if_neg (by simpa using hnot)] at hspec
        exact hne (List.append_eq_nil_iff.mp (eq_nil_of_isSpec hspec hblank)).1
      · exact nofun
    rw [if_pos hstart, trimLeft, List.takeWhile_append_of_pos hall,
      List.dropWhile_append_of_pos hall, hstop.1, hstop.2, List.append_nil,
      specOf_append hspec hfeed]
    obtain ⟨c, more, rfl⟩ := List.exists_cons_of_ne_nil hne
    rfl
  · have hends : EndsBlank before := by
      refine hbefore.resolve_right ?_
      rintro ⟨rfl, rfl⟩
      rw [List.nil_append, trimLeft, hstop.2, isSpec_append hspec hfeed] at hstart
      exact hstart rfl
    rw [if_neg hstart, endSpec?_append hends hspec hne hfeed]
    obtain ⟨c, more, rfl⟩ := List.exists_cons_of_ne_nil hne
    rfl

end Table

end Asciidoc
