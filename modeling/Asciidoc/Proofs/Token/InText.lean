import Asciidoc.Proofs.Span.Taken
import Asciidoc.Proofs.Token.Captures

/-!
# The classified lines of a text

What is still to be read of a text is always an end of its classified lines, so that the number of
the next line is known from how many there are (`Source.lineAt`), and a line is where its number
says.

A run of lines of which some are comments and the others are neither blank nor delimit comments is
the same run for the search: the lines that the reader keeps are those that the search does not
step over (`took_of_run`). This is the one place where the two are compared.
-/

namespace Asciidoc

open Text

/-- A numbered line, classified. -/
def Token.ofEntry (marker : Text) (entry : Int × Text) : Token :=
  Token.ofLine marker entry.1 entry.2

@[simp] theorem Token.line_ofEntry (marker : Text) (entry : Int × Text) :
    (Token.ofEntry marker entry).line = entry.1 := rfl

theorem Token.kind_ofEntry (marker : Text) (entry : Int × Text) :
    (Token.ofEntry marker entry).kind = (classify marker (dropReturns entry.2)).1 := rfl

/-- A line that the reader takes as something to be said, told from its kind alone. -/
structure Token.IsKept (t : Token) : Prop where
  not_blank : t.kind ≠ .blank
  not_comment : t.kind ≠ .comment
  not_delimiter : t.kind ≠ .blockDelimiter .comment

namespace Source

variable {s : Source} {marker : Text}

/-- The classified lines of a text. -/
def tokens (s : Source) (marker : Text) : List Token := s.numbered.map (Token.ofEntry marker)

/-- The classified lines of a text from a line on. -/
def tokensFrom (s : Source) (marker : Text) (line : Int) : List Token :=
  (s.tokens marker).drop (line - 1).toNat

/-- The number of the next line, given the lines still to be read. -/
def lineAt (s : Source) (unread : List Token) : Int := s.count + 1 - unread.length

theorem length_numbered (s : Source) : s.numbered.length = s.count := by
  simp [numbered, count]

theorem length_tokens (s : Source) (marker : Text) : (s.tokens marker).length = s.count := by
  rw [tokens, List.length_map, length_numbered]

/-- The lines still to be read are those from the next on. -/
theorem eq_map_drop {unread : List Token} (h : unread <:+ s.tokens marker) :
    unread = (s.numbered.drop (s.lineAt unread - 1).toNat).map (Token.ofEntry marker) := by
  have hlength := h.length_le
  have hdrop : (s.tokens marker).length - unread.length = (s.lineAt unread - 1).toNat := by
    rw [length_tokens] at hlength ⊢
    rw [lineAt]
    omega
  rw [List.map_drop, ← tokens, ← hdrop]
  exact List.suffix_iff_eq_drop.mp h

/-- A line from a number on has that number. -/
theorem numbered_drop {index : Nat} {entry : Int × Text} {more : List (Int × Text)}
    (h : s.numbered.drop index = entry :: more) :
    entry.1 = index + 1 ∧ s.lines[index]? = some entry.2 := by
  have hentry : s.numbered[index]? = some entry := by
    rw [← List.head?_drop, h]
    rfl
  exact line_of_getElem?_numbered hentry

/-- The next line has the number of the next line, and is the line of the text with that
number. -/
theorem line_of_suffix {t : Token} {rest : List Token} (h : t :: rest <:+ s.tokens marker) :
    t.line = s.lineAt (t :: rest) ∧ s.lineAt rest = t.line + 1 ∧
      ∃ line ∈ s.lines, s.line? t.line = some line ∧ t = Token.ofLine marker t.line line := by
  have hlines := eq_map_drop h
  obtain ⟨entry, more, hdrop, ht, -⟩ := List.map_eq_cons_iff.mp hlines.symm
  obtain ⟨hnumber, hline⟩ := numbered_drop hdrop
  have hlength := h.length_le
  rw [length_tokens] at hlength
  have hentry : t.line = entry.1 := by rw [← ht, Token.line_ofEntry]
  have hat : s.lineAt (t :: rest) = t.line := by
    rw [hentry, hnumber]
    simp only [lineAt, List.length_cons] at *
    omega
  refine ⟨hat.symm, ?_, entry.2, List.mem_of_getElem? hline, ?_, ?_⟩
  · rw [← hat, lineAt, lineAt, List.length_cons]
    omega
  · rw [line?, fromEitherEnd?, hentry, hnumber, if_pos (by omega), ← hline]
    congr 1
    omega
  · rw [← ht]
    rfl

/-- The lines from the next line on are those still to be read. -/
theorem tokensFrom_of_suffix {t : Token} {rest : List Token} (h : t :: rest <:+ s.tokens marker) :
    s.tokensFrom marker t.line = t :: rest := by
  obtain ⟨hline, -⟩ := line_of_suffix h
  rw [tokensFrom, tokens, ← List.map_drop, hline]
  exact (eq_map_drop h).symm

theorem numbered_of_suffix {t : Token} {rest : List Token} (h : t :: rest <:+ s.tokens marker) :
    1 ≤ t.line ∧ t :: rest = (s.numbered.drop (t.line - 1).toNat).map (Token.ofEntry marker) := by
  obtain ⟨hline, -⟩ := line_of_suffix h
  have hlength := h.length_le
  rw [length_tokens, List.length_cons] at hlength
  refine ⟨?_, hline ▸ eq_map_drop h⟩
  rw [hline, lineAt, List.length_cons]
  omega

theorem lineAt_le_of_suffix {unread last : List Token} (h : last <:+ unread) :
    s.lineAt unread ≤ s.lineAt last := by
  have := h.length_le
  rw [lineAt, lineAt]
  omega

/-- The lines of a run are numbered up to the line after it. -/
theorem line_bounds (run : List Token) {after : List Token} (h : run ++ after <:+ s.tokens marker)
    {t : Token} (ht : t ∈ run) : s.lineAt (run ++ after) ≤ t.line ∧ t.line < s.lineAt after := by
  induction run with
  | nil => cases ht
  | cons first rest ih =>
    rw [List.cons_append] at h ⊢
    obtain ⟨hfirst, hnext, -⟩ := line_of_suffix h
    rcases List.mem_cons.mp ht with rfl | ht
    · have := lineAt_le_of_suffix (s := s) (List.suffix_append rest after)
      exact ⟨Int.le_of_eq hfirst.symm, by omega⟩
    · obtain ⟨hlow, hhigh⟩ := ih ((List.suffix_cons _ _).trans h) ht
      rw [← hfirst]
      omega

/-! ## Lines the reader takes -/

/-- Classified lines that stand in the text as the lines from the first of them on that are no
comments, all of them before a line. -/
structure Took (s : Source) (marker : Text) (first : Token) (others : List Token) (past : Int) :
    Prop where
  /-- They are the lines that pieces are taken from. -/
  taken : (s.taken marker first.line (others.length + 1)).map (Token.ofEntry marker)
    = first :: others
  /-- None of them is blank. -/
  notBlank : ∀ entry ∈ s.taken marker first.line (others.length + 1), trim entry.2 ≠ []
  /-- The last of them is before the line. -/
  before : (others.getLastD first).line < past

/-- A line that is kept is one the search does not step over. -/
theorem isKept_of_isKept (hreturn : '\r' ∉ marker) {entry : Int × Text}
    (h : (Token.ofEntry marker entry).IsKept) : isKept marker entry = true := by
  rw [isKept, ← isPrefixOf_dropReturns hreturn,
    Token.not_isPrefixOf h.not_blank h.not_comment h.not_delimiter]
  rfl

/-- A comment is a line the search steps over. -/
theorem isKept_of_comment (hreturn : '\r' ∉ marker) {entry : Int × Text}
    (h : (Token.ofEntry marker entry).kind = .comment) : isKept marker entry = false := by
  rw [isKept, ← isPrefixOf_dropReturns hreturn, Token.isPrefixOf_of_comment h]
  rfl

/-- A line that is kept is not blank. -/
theorem trim_ne_nil_of_isKept {entry : Int × Text} (h : (Token.ofEntry marker entry).IsKept) :
    trim entry.2 ≠ [] := by
  intro hnil
  refine h.not_blank ?_
  rw [← trim_dropReturns, trim_eq_nil_iff] at hnil
  rw [Token.kind_ofEntry, Token.classify, if_pos hnil]

/-- A run of lines without its comments is taken from the text. -/
theorem took_of_run (hreturn : '\r' ∉ marker) {first : Token} {run after : List Token}
    (h : first :: (run ++ after) <:+ s.tokens marker) (hfirst : first.IsKept)
    (hrun : ∀ t ∈ run, t.kind = .comment ∨ t.IsKept) :
    s.Took marker first (run.filter (·.kind ≠ .comment)) (s.lineAt after) := by
  obtain ⟨hline, -⟩ := line_of_suffix h
  have hlines := eq_map_drop h
  rw [← hline] at hlines
  have hmem : (run.filter (·.kind ≠ .comment)).getLastD first ∈ first :: run := by
    rw [List.getLastD_eq_getLast?]
    cases hlast : (run.filter (·.kind ≠ .comment)).getLast? with
    | none => exact List.mem_cons_self
    | some t => exact List.mem_cons_of_mem _ (List.mem_of_mem_filter (List.mem_of_getLast? hlast))
  have hbefore := (line_bounds (first :: run) h hmem).2
  obtain ⟨entry, more, hdrop, rfl, hmore⟩ := List.map_eq_cons_iff.mp hlines.symm
  obtain ⟨entries, behind, rfl, rfl, -⟩ := List.map_eq_append_iff.mp hmore
  -- Entry by entry, the reader and the search agree on what a comment is.
  have hkept : (entries.map (Token.ofEntry marker)).filter (·.kind ≠ .comment)
      = (entries.filter (isKept marker)).map (Token.ofEntry marker) := by
    rw [List.filter_map]
    congr 1
    refine List.filter_congr fun e he => ?_
    rcases hrun _ (List.mem_map_of_mem he) with hcomment | hother
    · simp [hcomment, isKept_of_comment hreturn hcomment]
    · simp [hother.not_comment, isKept_of_isKept hreturn hother]
  have htaken : s.taken marker entry.1 ((entries.filter (isKept marker)).length + 1)
      = entry :: entries.filter (isKept marker) := by
    rw [Source.taken, show entry.1 = (Token.ofEntry marker entry).line from rfl, hdrop,
      List.filter_cons_of_pos (isKept_of_isKept hreturn hfirst), List.take_succ_cons,
      List.filter_append, List.take_left]
  refine ⟨?_, ?_, hbefore⟩
  · rw [hkept, List.length_map, Token.line_ofEntry, htaken, List.map_cons]
  · rw [hkept, List.length_map, Token.line_ofEntry, htaken]
    refine List.forall_mem_cons.mpr ⟨trim_ne_nil_of_isKept hfirst, fun e he => ?_⟩
    obtain ⟨he, hnot⟩ := List.mem_filter.mp he
    refine trim_ne_nil_of_isKept ((hrun _ (List.mem_map_of_mem he)).resolve_left fun hcomment => ?_)
    rw [isKept_of_comment hreturn hcomment] at hnot
    cases hnot

/-- A single line is taken from the text. -/
theorem took_single (hreturn : '\r' ∉ marker) {first : Token} {after : List Token}
    (h : first :: after <:+ s.tokens marker) (hfirst : first.IsKept) :
    s.Took marker first [] (s.lineAt after) :=
  @took_of_run s marker hreturn first [] after h hfirst (by simp)

variable {first : Token} {others : List Token} {past : Int}

/-- Pieces of lines that were taken are taken from them. -/
theorem Took.takes (h : s.Took marker first others past) {pieces : List Text}
    (hpieces : List.Forall₂ (fun piece t => piece <:+: t.text) pieces (first :: others)) :
    s.Takes marker first.line pieces (others.getLastD first).line := by
  have hlength : pieces.length = others.length + 1 := hpieces.length_eq
  have htaken := h.taken
  constructor
  · rw [hlength]
    have hhead := congrArg List.head? htaken
    rw [List.head?_map, List.head?_cons] at hhead
    obtain ⟨entry, hentry, rfl⟩ := Option.map_eq_some_iff.mp hhead
    rw [hentry]
    rfl
  · rw [hlength]
    rw [← htaken, List.forall₂_map_right_iff] at hpieces
    exact hpieces.imp fun piece entry hpiece => hpiece.trans (dropReturns_isPrefix _).isInfix
  · rw [hlength]
    have hlast := congrArg List.getLast? htaken
    rw [List.getLast?_map, List.getLast?_cons] at hlast
    obtain ⟨entry, hentry, hline⟩ := Option.map_eq_some_iff.mp hlast
    rw [hentry, List.getLastD_eq_getLast?, ← hline]
    rfl

/-- What is left of lines that were taken without their outer blanks. -/
theorem Took.trimmed (h : s.Took marker first others past) :
    (first :: others).map (trim ·.text)
      = (s.taken marker first.line (others.length + 1)).map fun entry => trim entry.2 := by
  rw [← h.taken, List.map_map]
  exact List.map_congr_left fun entry _ => trim_dropReturns entry.2

end Source

/-! ## Single lines of a text -/

namespace Token

variable {s : Source} {marker : Text} {t : Token} {rest : List Token}

/-- What a line of a text captures. -/
theorem captures_of_suffix (h : t :: rest <:+ s.tokens marker) :
    Captures t.text t.kind t.content := by
  obtain ⟨-, -, line, -, -, ht⟩ := Source.line_of_suffix h
  rw [ht]
  exact classify_captures marker (dropReturns line)

end Token

end Asciidoc
