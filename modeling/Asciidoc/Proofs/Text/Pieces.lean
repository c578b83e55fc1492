import Asciidoc.Text.Basic
import Mathlib.Data.List.Basic

/-!
# Pieces of lines

A piece of a line is found in it, and the piece between its outer blanks is found behind its
indent: nothing that starts with a code point that is no blank can occur earlier
(`find?_indent`). Lines put together with line feeds come apart into the same lines
(`lines_unlines`), so that what was taken from several lines can be searched line by line.

Carriage returns at the end of a line are blanks. A text without carriage returns is at the start
of a line exactly when it is at the start of the line without those at its end.
-/

namespace Asciidoc.Text

/-! ## Lines put together -/

theorem split_of_not_mem {separator : Char} {piece : Text} (h : separator ∉ piece) :
    split separator piece = [piece] := by
  induction piece with
  | nil => rfl
  | cons c rest ih =>
    obtain ⟨hc, hrest⟩ : separator ≠ c ∧ separator ∉ rest := by simpa using h
    rw [split, if_neg (Ne.symm hc), ih hrest]

theorem split_append {separator : Char} {piece : Text} (h : separator ∉ piece) (rest : Text) :
    split separator (piece ++ separator :: rest) = piece :: split separator rest := by
  induction piece with
  | nil => rw [List.nil_append, split, if_pos rfl]
  | cons c more ih =>
    obtain ⟨hc, hmore⟩ : separator ≠ c ∧ separator ∉ more := by simpa using h
    rw [List.cons_append, split, if_neg (Ne.symm hc), ih hmore]

theorem unlines_cons_cons (first second : Text) (others : List Text) :
    unlines (first :: second :: others) = first ++ '\n' :: unlines (second :: others) := by
  simp [unlines, join, List.intercalate, List.intersperse]

@[simp] theorem unlines_singleton (line : Text) : unlines [line] = line := by
  simp [unlines, join, List.intercalate]

/-- Lines put together come apart again. -/
theorem lines_unlines {pieces : List Text} (hne : pieces ≠ [])
    (h : ∀ piece ∈ pieces, '\n' ∉ piece) : lines (unlines pieces) = pieces := by
  induction pieces with
  | nil => exact absurd rfl hne
  | cons first rest ih =>
    have hfirst : '\n' ∉ first := h first List.mem_cons_self
    cases rest with
    | nil => rw [unlines_singleton, lines, split_of_not_mem hfirst]
    | cons second others =>
      have hrest : lines (unlines (second :: others)) = second :: others :=
        ih (by simp) fun piece hpiece => h piece (List.mem_cons_of_mem _ hpiece)
      rw [unlines_cons_cons, lines, split_append hfirst, ← lines, hrest]

/-- Lines the first of which is not empty are not empty together. -/
theorem unlines_ne_nil {first : Text} (h : first ≠ []) (others : List Text) :
    unlines (first :: others) ≠ [] := by
  cases others with
  | nil => rwa [unlines_singleton]
  | cons second others => simp [unlines_cons_cons]

/-! ## Texts taken apart -/

/-- What is put together is in the whole. -/
theorem infix_join {separator piece : Text} {pieces : List Text} (h : piece ∈ pieces) :
    piece <:+: join separator pieces := by
  induction pieces with
  | nil => cases h
  | cons first rest ih =>
    cases rest with
    | nil =>
      obtain rfl := List.mem_singleton.mp h
      simp [join, List.intercalate]
    | cons second others =>
      have hjoin : join separator (first :: second :: others)
          = first ++ (separator ++ join separator (second :: others)) := by
        simp [join, List.intercalate, List.intersperse]
      rw [hjoin]
      rcases List.mem_cons.mp h with rfl | h
      · exact (List.prefix_append _ _).isInfix
      · exact (ih h).trans ((List.suffix_append _ _).trans (List.suffix_append _ _)).isInfix

theorem infix_of_mem_split {separator : Char} {piece t : Text} (h : piece ∈ split separator t) :
    piece <:+: t :=
  join_split separator t ▸ infix_join h

/-- A text is cut at the separator. -/
theorem cut?_eq_some {separator : Char} {t before after : Text}
    (h : cut? separator t = some (before, after)) : t = before ++ separator :: after := by
  induction t generalizing before with
  | nil => cases h
  | cons c rest ih =>
    rw [cut?] at h
    split at h
    · rename_i hc
      obtain ⟨rfl, rfl⟩ := Prod.mk.inj (Option.some.inj h)
      rw [hc, List.nil_append]
    · obtain ⟨⟨found, left⟩, hfound, hpair⟩ := Option.map_eq_some_iff.mp h
      obtain ⟨rfl, rfl⟩ := Prod.mk.inj hpair
      rw [ih hfound, List.cons_append]

/-- A text is cut exactly if the separator is in it. -/
theorem cut?_eq_none_iff {separator : Char} {t : Text} :
    cut? separator t = none ↔ separator ∉ t := by
  induction t with
  | nil => simp [cut?]
  | cons c rest ih =>
    rw [cut?]
    split
    · rename_i h
      simp [h]
    · rename_i h
      simp [ih, Ne.symm h]

theorem strip_isInfix (unwanted : List Char) (t : Text) : strip unwanted t <:+: t := by
  have hbegins : strip unwanted t <+: t.dropWhile unwanted.contains := by
    rw [strip, ← List.reverse_suffix, List.reverse_reverse]
    exact List.dropWhile_suffix _
  exact hbegins.isInfix.trans (List.dropWhile_suffix _).isInfix

/-! ## Where pieces are found -/

/-- A piece of a text occurs in it. -/
theorem occurrence?_isSome {needle haystack : Text} (h : needle <:+: haystack) :
    (occurrence? needle haystack).isSome := by
  induction haystack with
  | nil => simp [occurrence?, List.infix_nil.mp h]
  | cons c rest ih =>
    rw [occurrence?]
    split
    next => rfl
    next hbegins =>
      rcases List.infix_cons_iff.mp h with h | h
      · exact absurd (List.isPrefixOf_iff_prefix.mpr h) hbegins
      · rw [Option.isSome_map]
        exact ih h

theorem find?_zero (needle haystack : Text) :
    find? needle haystack 0 = occurrence? needle haystack := by
  simp [find?, column]

/-- A piece of a text is found in it. -/
theorem exists_find?_eq_some {needle haystack : Text} (h : needle <:+: haystack) :
    ∃ column, find? needle haystack 0 = some column := by
  rw [find?_zero]
  exact Option.isSome_iff_exists.mp (occurrence?_isSome h)

/-- What a text begins with is found at its start. -/
theorem find?_atStart {needle haystack : Text} (h : needle <+: haystack) :
    find? needle haystack 0 = some 0 := by
  rw [find?_zero]
  cases haystack with
  | nil => rw [occurrence?, if_pos (List.prefix_nil.mp h)]
  | cons c rest => rw [occurrence?, if_pos (List.isPrefixOf_iff_prefix.mpr h)]

/-- What is found in a text is a piece of it. -/
theorem infix_of_find?_eq_some {needle haystack : Text} {start : Int} {column : Nat}
    (h : find? needle haystack start = some column) : needle <:+: haystack := by
  obtain ⟨-, -, hbegins⟩ := find?_eq_some h
  exact hbegins.isInfix.trans (List.drop_suffix _ _).isInfix

/-- What a text begins with behind its indent is found there and not before. -/
theorem find?_indent {needle line : Text} (hne : needle ≠ []) (h : needle <+: trimLeft line) :
    find? needle line 0 = some (indent line) := by
  rw [find?_zero]
  induction line with
  | nil => exact absurd (List.prefix_nil.mp h) hne
  | cons c rest ih =>
    by_cases hc : isBlank c = true
    · have hrest : needle <+: trimLeft rest := by
        rwa [trimLeft, List.dropWhile_cons_of_pos hc] at h
      -- The text does not begin with a blank, so it does not begin here.
      have hnot : ¬ needle.isPrefixOf (c :: rest) = true := by
        intro hbegins
        obtain ⟨d, more, rfl⟩ := List.exists_cons_of_ne_nil hne
        obtain ⟨rfl, -⟩ := List.cons_prefix_cons.mp (List.isPrefixOf_iff_prefix.mp hbegins)
        obtain ⟨after, hafter⟩ := hrest
        have hd := List.head?_dropWhile_not isBlank rest
        rw [show rest.dropWhile isBlank = d :: (more ++ after) from hafter.symm] at hd
        simp [hc] at hd
      rw [occurrence?, if_neg hnot, ih hrest, indent, indent, List.takeWhile_cons_of_pos hc]
      rfl
    · rw [trimLeft, List.dropWhile_cons_of_neg hc] at h
      rw [occurrence?, if_pos (List.isPrefixOf_iff_prefix.mpr h), indent,
        List.takeWhile_cons_of_neg hc]
      rfl

/-- A trimmed line is found behind the indent of the line. -/
theorem find?_trim {line : Text} (h : trim line ≠ []) :
    find? (trim line) line 0 = some (indent line) :=
  find?_indent h (trimRight_isPrefix _)

/-- Nothing is left of a text between its outer blanks exactly when it is all blank. -/
theorem trim_eq_nil_iff (t : Text) : trim t = [] ↔ allBlank t = true := by
  rw [trim, trimRight_eq_nil_iff, trimLeft, allBlank, allBlank]
  induction t with
  | nil => simp
  | cons c rest ih =>
    by_cases hc : isBlank c = true
    · rw [List.dropWhile_cons_of_pos hc, ih, List.all_cons, hc, Bool.true_and]
    · rw [List.dropWhile_cons_of_neg hc]

/-! ## Carriage returns at the end of a line -/

/-- A line is what is left without the carriage returns at its end, and those. -/
theorem dropReturns_append (line : Text) :
    ∃ returns, line = dropReturns line ++ returns ∧ ∀ c ∈ returns, c = '\r' := by
  refine ⟨(line.reverse.takeWhile (· == '\r')).reverse, ?_, fun c hc => ?_⟩
  · rw [dropReturns, ← List.reverse_append, List.takeWhile_append_dropWhile, List.reverse_reverse]
  · have hall := List.all_eq_true.mp List.all_takeWhile c (List.mem_reverse.mp hc)
    simpa using hall

theorem dropReturns_isPrefix (line : Text) : dropReturns line <+: line := by
  obtain ⟨returns, h, -⟩ := dropReturns_append line
  exact ⟨returns, h.symm⟩

theorem trimRight_append {blanks : Text} (h : allBlank blanks = true) (t : Text) :
    trimRight (t ++ blanks) = trimRight t := by
  induction t with
  | nil => exact (trimRight_eq_nil_iff blanks).mpr h
  | cons c rest ih => rw [List.cons_append, trimRight, trimRight, ih]

theorem trim_append {blanks : Text} (h : allBlank blanks = true) (t : Text) :
    trim (t ++ blanks) = trim t := by
  by_cases ht : allBlank t = true
  · have hboth : allBlank (t ++ blanks) = true := by
      rw [allBlank, List.all_append, ← allBlank, ← allBlank, ht, h, Bool.and_self]
    rw [(trim_eq_nil_iff _).mpr hboth, (trim_eq_nil_iff _).mpr ht]
  · have hleft : trimLeft (t ++ blanks) = trimLeft t ++ blanks := by
      rw [trimLeft, List.dropWhile_append, if_neg]
      · rfl
      · rw [List.isEmpty_iff, ← trimLeft]
        exact fun hnil => ht ((trim_eq_nil_iff t).mp (by rw [trim, hnil]; rfl))
    rw [trim, hleft, trimRight_append h, ← trim]

theorem allBlank_of_forall_return {t : Text} (h : ∀ c ∈ t, c = '\r') : allBlank t = true := by
  rw [allBlank, List.all_eq_true]
  intro c hc
  rw [h c hc]
  decide

/-- Carriage returns at the end make no difference between the outer blanks of a line. -/
theorem trim_dropReturns (line : Text) : trim (dropReturns line) = trim line := by
  obtain ⟨returns, hline, hreturns⟩ := dropReturns_append line
  conv_rhs => rw [hline]
  rw [trim_append (allBlank_of_forall_return hreturns)]

/-- A text without carriage returns is at the start of a line or not, with or without those at
the end of the line. -/
theorem isPrefixOf_dropReturns {marker : Text} (h : '\r' ∉ marker) (line : Text) :
    marker.isPrefixOf (dropReturns line) = marker.isPrefixOf line := by
  rw [Bool.eq_iff_iff, List.isPrefixOf_iff_prefix, List.isPrefixOf_iff_prefix]
  constructor
  · exact fun hbegins => hbegins.trans (dropReturns_isPrefix line)
  · intro hbegins
    obtain ⟨returns, hline, hreturns⟩ := dropReturns_append line
    rw [hline] at hbegins
    rcases List.prefix_or_prefix_of_prefix hbegins (List.prefix_append _ returns) with
      hshort | ⟨more, hmore⟩
    · exact hshort
    · -- What stands behind the line without its returns is returns, so nothing does.
      rw [← hmore, List.prefix_append_right_inj] at hbegins
      cases more with
      | nil =>
        have hwhole : dropReturns line = marker := by rw [← hmore, List.append_nil]
        exact hwhole ▸ List.prefix_refl marker
      | cons c more =>
        have hc : c = '\r' := hreturns c (hbegins.subset List.mem_cons_self)
        exact absurd (by rw [← hmore, hc]; simp) h

/-- What is no blank stands between the outer blanks. -/
theorem mem_trim {c : Char} {t : Text} (hc : c ∈ t) (hblank : isBlank c = false) :
    c ∈ trim t := by
  have hnot {blanks : Text} (hblanks : allBlank blanks = true) : c ∉ blanks := by
    intro hmem
    rw [List.all_eq_true.mp hblanks c hmem] at hblank
    cases hblank
  have hleft : c ∈ trimLeft t := by
    rw [← List.takeWhile_append_dropWhile (p := isBlank) (l := t)] at hc
    exact (List.mem_append.mp hc).resolve_left (hnot List.all_takeWhile)
  obtain ⟨blanks, heq, hblanks⟩ := trimRight_append_blanks (trimLeft t)
  rw [heq] at hleft
  exact (List.mem_append.mp hleft).resolve_right (hnot hblanks)

/-- A piece between two offsets that are counted from the start. -/
theorem slice_natCast (t : Text) (start stop : Nat) :
    slice t start stop = (t.take stop).drop start := by
  have hcolumn (offset : Nat) : column t.length (offset : Int) = offset := by
    rw [column, if_neg (by omega), Int.toNat_natCast]
  have hshort : (t.take stop).length ≤ t.length := List.length_take_le' _ _
  rw [slice, hcolumn, hcolumn, ← List.take_take, List.take_length]
  rcases Nat.le_total start t.length with h | h
  · rw [Nat.min_eq_left h]
  · rw [Nat.min_eq_right h, List.drop_of_length_le hshort,
      List.drop_of_length_le (Nat.le_trans hshort h)]

theorem slice_natCast_of_le (t : Text) {start stop : Nat} (h : stop ≤ start) :
    slice t start stop = [] := by
  rw [slice_natCast]
  exact List.drop_of_length_le (Nat.le_trans (List.length_take_le _ _) h)

end Asciidoc.Text
