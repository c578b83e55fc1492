import Asciidoc.Element.OfTokens
import Asciidoc.Proofs.Element.Spelled
import Asciidoc.Proofs.Span.Covered
import Asciidoc.Proofs.Table.Pieces
import Asciidoc.Proofs.Token.Captures
import Mathlib.Data.List.DropRight

/-!
# What classified lines and cells are spelled with

Everything that a classified line says is a piece of the line (`Token.classify_isInfix`), and
everything that a cell of a table says is made of pieces of the lines of the table
(`Table.cells_spelled`). A cell starts on a line with a bar in it, and in the lines of a cell there
are no bars but those of such lines.
-/

namespace Asciidoc

open Text

/-! ## Lines -/

namespace Shape

variable {t line : Text}

theorem anchor?_isInfix {name : Text} (h : anchor? t = some name) : name <:+: t := by
  unfold anchor? at h
  split at h
  · dsimp only at h
    split at h
    · cases h
    · split at h
      · obtain rfl := Option.some.inj h
        exact (List.takeWhile_prefix _).isInfix.trans ⟨['[', '['], [], by simp⟩
      · cases h
  · cases h

theorem attribute?_isInfix {name value : Text} {unset : Bool}
    (h : attribute? line = some (name, value, unset)) : name <:+: line := by
  unfold attribute? at h
  split at h
  · rename_i rest
    split at h
    rename_i before more hparts
    have hmore : more <:+ rest := by
      split at hparts
      · obtain ⟨-, rfl⟩ := Prod.mk.inj hparts
        exact List.suffix_cons _ _
      · obtain ⟨-, rfl⟩ := Prod.mk.inj hparts
        exact List.suffix_refl _
    have hname : more.takeWhile (fun c => isWord c || c == '-') <:+: ':' :: rest :=
      (List.takeWhile_prefix _).isInfix.trans (hmore.isInfix.trans (List.suffix_cons _ _).isInfix)
    split at h
    · cases h
    · split at h
      · split at h
        · obtain ⟨_, -, heq⟩ := Option.map_eq_some_iff.mp h
          obtain ⟨rfl, -⟩ := Prod.mk.inj heq
          exact hname
        · obtain ⟨_, -, heq⟩ := Option.map_eq_some_iff.mp h
          obtain ⟨rfl, -⟩ := Prod.mk.inj heq
          exact hname
        · cases h
      · cases h
  · cases h

theorem image?_isInfix {target : Text} (h : image? t = some target) : target <:+: t := by
  unfold image? at h
  split at h
  · split at h
    · cases h
    · rename_i c more hdrop
      split at h
      · cases h
      · rename_i found rest hshortest
        split at h
        · cases h
        · obtain rfl := Option.some.inj h
          have hfound : found <+: more := ⟨rest, (shortest_append hshortest).1⟩
          have hsuffix : c :: more <:+ t := hdrop ▸ List.drop_suffix 7 t
          exact (List.cons_prefix_cons.mpr ⟨rfl, hfound⟩).isInfix.trans hsuffix.isInfix
  · cases h

theorem blockTitle?_isInfix {title : Text} (h : blockTitle? t = some title) : title <:+: t := by
  unfold blockTitle? at h
  split at h
  · split at h
    · cases h
    · obtain rfl := Option.some.inj h
      exact (List.suffix_cons _ _).isInfix
  · cases h

end Shape

namespace Token

variable {line marker : Text} {p : Kind × Text}

theorem delimiterShape?_content {stripped : Text} (h : delimiterShape? stripped = some p) :
    p.2 = stripped := by
  unfold delimiterShape? at h
  repeat' split at h
  all_goals first
    | (obtain rfl := Option.some.inj h; rfl)
    | cases h

theorem flushShape?_isInfix (h : flushShape? line (trim line) = some p) : p.2 <:+: line := by
  unfold flushShape? at h
  split at h
  · rename_i level title htitle
    obtain rfl := Option.some.inj h
    exact (Shape.heading?_isInfix htitle).2
  · split at h
    · rename_i name hname
      obtain rfl := Option.some.inj h
      exact (Shape.anchor?_isInfix hname).trans (trim_isInfix line)
    · split at h
      · rename_i inside hinside
        obtain rfl := Option.some.inj h
        exact (Shape.blockAttribute?_isInfix hinside).trans (trim_isInfix line)
      · split at h
        · rename_i name value unset hentry
          obtain rfl := Option.some.inj h
          exact Shape.attribute?_isInfix hentry
        · obtain ⟨target, htarget, rfl⟩ := Option.map_eq_some_iff.mp h
          exact (Shape.image?_isInfix htarget).trans (trim_isInfix line)

theorem listShape?_isInfix (h : listShape? (trim line) = some p) : p.2 <:+: line := by
  unfold listShape? at h
  split at h
  · obtain rfl := Option.some.inj h
    exact trim_isInfix line
  · split at h
    · rename_i marker text hitem
      have htext := (Shape.unorderedItem?_suffix hitem).2
      split at h
      · rename_i checked body hchecked
        obtain rfl := Option.some.inj h
        exact ((Shape.checkbox?_suffix hchecked).2.trans htext).isInfix.trans (trim_isInfix line)
      · obtain rfl := Option.some.inj h
        exact htext.isInfix.trans (trim_isInfix line)
    · obtain ⟨⟨marker, text⟩, hitem, rfl⟩ := Option.map_eq_some_iff.mp h
      exact (Shape.orderedItem?_suffix hitem).2.isInfix.trans (trim_isInfix line)

theorem shape_isInfix (line : Text) : (shape line).2 <:+: line := by
  apply shape_cases (Q := fun p => p.2 <:+: line)
  case delimiter => exact fun p hp => delimiterShape?_content hp ▸ trim_isInfix line
  case flush => exact fun p hp => flushShape?_isInfix hp
  case list => exact fun p hp => listShape?_isInfix hp
  case title => exact fun _ hname => (Shape.blockTitle?_isInfix hname).trans (trim_isInfix line)
  case term =>
    exact fun _ _ _ hparts =>
      (Shape.term?_captures hparts).2.1.isInfix.trans (trim_isInfix line)
  case text => exact trim_isInfix line

/-- The content of a line is a piece of it. -/
theorem classify_isInfix (marker line : Text) : (classify marker line).2 <:+: line := by
  rw [classify]
  split
  · exact List.nil_infix
  · split
    · exact trim_isInfix line
    · split
      · exact (trim_isInfix _).trans (List.drop_suffix _ _).isInfix
      · exact shape_isInfix line

/-- A line with a bar in it delimits no block of comments, so it begins with the comment marker only
if it is one. -/
theorem not_isPrefixOf_of_bar (hbar : '|' ∈ line) (hblank : (classify marker line).1 ≠ .blank)
    (hcomment : (classify marker line).1 ≠ .comment) : marker.isPrefixOf line = false := by
  rw [classify] at hblank hcomment
  split at hblank
  · exact absurd rfl hblank
  · rw [if_neg ‹_›] at hcomment
    split at hcomment
    · rename_i hdelimiter
      have hslashes := (Bool.and_eq_true_iff.mp hdelimiter).2
      exact absurd (List.all_eq_true.mp hslashes '|' (mem_trim hbar (by decide))) (by decide)
    · split at hcomment
      · exact absurd rfl hcomment
      · exact Bool.eq_false_iff.mpr ‹_›

variable {P : Char → Prop} {B : Int → Prop}

/-- A classified line says texts of some code points, and if it may start a cell it is one of some
lines. -/
structure SpelledIn (P : Char → Prop) (B : Int → Prop) (t : Token) : Prop where
  text : ∀ c ∈ t.text, P c
  content : ∀ c ∈ t.content, P c
  description : ∀ delimiter description, t.kind = .term delimiter description →
    ∀ c ∈ description, P c
  bar : t.kind ≠ .comment → t.kind ≠ .blank → '|' ∈ t.text → B t.line

/-- What a line says is made of pieces of the line. -/
theorem ofLine_spelled {number : Int} (hline : ∀ c ∈ line, P c)
    (hbar : (ofLine marker number line).kind ≠ .comment → (ofLine marker number line).kind ≠ .blank →
      '|' ∈ (ofLine marker number line).text → B number) :
    (ofLine marker number line).SpelledIn P B := by
  have htext : ∀ c ∈ dropReturns line, P c := fun c hc =>
    hline c ((dropReturns_isPrefix line).subset hc)
  refine ⟨htext, fun c hc => ?_, fun delimiter description hkind c hc => ?_, hbar⟩
  · exact htext c ((classify_isInfix marker (dropReturns line)).subset hc)
  · have hcaptures := classify_captures marker (dropReturns line)
    rw [show (classify marker (dropReturns line)).1 = .term delimiter description from hkind]
      at hcaptures
    exact htext c (hcaptures.2.2.subset hc)

end Token

/-! ## Cells -/

namespace Table

variable {P : Char → Prop} {B : Int → Prop} {line : Text}

/-- The line of a cell, and what stands on it and the lines after it. -/
structure PendingCell.SpelledIn (P : Char → Prop) (B : Int → Prop) (p : PendingCell) : Prop where
  line : B p.line
  text : ∀ entry ∈ p.lines, ∀ c ∈ entry.2, P c
  head : ∀ entry ∈ p.lines, ∀ c, entry.2.head? = some c → isBlank c = false
  bar : ∀ entry ∈ p.lines, '|' ∈ entry.2 → B entry.1

theorem bars_of_not_mem (h : '|' ∉ line) : bars line = [line] := by
  have hfrom (escaped : Bool) (line : Text) (h : '|' ∉ line) :
      barsFrom escaped line = [line] := by
    induction line generalizing escaped with
    | nil => rfl
    | cons c rest ih =>
      obtain ⟨hc, hrest⟩ : '|' ≠ c ∧ '|' ∉ rest := by simpa using h
      rw [barsFrom, if_neg (by simp [Ne.symm hc]), ih _ hrest]
  exact hfrom false line h

/-- A line that starts cells has a bar in it. -/
theorem bar_mem_of_specs (h : (Line.ofText line).specs ≠ []) : '|' ∈ line := by
  apply by_contra
  intro hbar
  apply h
  rw [Line.ofText, bars_of_not_mem hbar]
  rfl

theorem addToLast_spelled {entry : Int × Text} (htext : ∀ c ∈ entry.2, P c)
    (hhead : ∀ c, entry.2.head? = some c → isBlank c = false) (hbar : '|' ∈ entry.2 → B entry.1)
    {cells : List PendingCell} (h : ∀ p ∈ cells, p.SpelledIn P B) :
    ∀ p ∈ addToLast entry cells, p.SpelledIn P B := by
  induction cells with
  | nil => exact nofun
  | cons p rest ih =>
    obtain ⟨hp, hrest⟩ := List.forall_mem_cons.mp h
    cases rest with
    | nil =>
      refine List.forall_mem_singleton.mpr ⟨hp.line, ?_, ?_, ?_⟩
      · exact List.forall_mem_append.mpr ⟨hp.text, List.forall_mem_singleton.mpr htext⟩
      · exact List.forall_mem_append.mpr ⟨hp.head, List.forall_mem_singleton.mpr hhead⟩
      · exact List.forall_mem_append.mpr ⟨hp.bar, List.forall_mem_singleton.mpr hbar⟩
    | cons second others => exact List.forall_mem_cons.mpr ⟨hp, ih hrest⟩

/-- No trimmed text begins with a blank. -/
theorem isBlank_head_trim (t : Text) (c : Char) (h : (trim t).head? = some c) :
    isBlank c = false := by
  have hleft := List.head?_dropWhile_not isBlank t
  obtain ⟨behind, hbehind⟩ := trimRight_isPrefix (trimLeft t)
  have hhead : (trimLeft t).head? = some c := by
    rw [← hbehind, List.head?_append, ← trim, h]
    rfl
  rw [trimLeft] at hhead
  rwa [hhead] at hleft

theorem startCells_spelled {number : Int} {specs texts : List Text} (hline : specs ≠ [] → B number)
    (htexts : ∀ x ∈ texts, ∀ c ∈ x, P c) :
    ∀ p ∈ startCells number specs texts, p.SpelledIn P B := by
  intro p hp
  obtain ⟨⟨spec, text⟩, hpair, rfl⟩ := List.mem_map.mp hp
  obtain ⟨hspec, htext⟩ := List.of_mem_zip hpair
  have hnumber := hline (List.ne_nil_of_mem hspec)
  refine ⟨hnumber, List.forall_mem_singleton.mpr fun c hc => ?_,
    List.forall_mem_singleton.mpr (isBlank_head_trim text), fun entry hentry _ => ?_⟩
  · exact htexts text htext c ((trim_isInfix text).subset hc)
  · rw [List.mem_singleton.mp hentry]
    exact hnumber

theorem addLine_spelled {t : Token} (ht : t.SpelledIn P B) {cells : List PendingCell}
    (h : ∀ p ∈ cells, p.SpelledIn P B) : ∀ p ∈ addLine cells t, p.SpelledIn P B := by
  unfold addLine
  split
  · exact h
  · split
    · exact addToLast_spelled (fun _ hc => absurd hc List.not_mem_nil) (fun _ hc => by cases hc)
        (fun hc => absurd hc List.not_mem_nil) h
    · exact h
  · rename_i hcomment hblank
    obtain ⟨htexts, -⟩ := Line.ofText_isInfix t.text
    have hbar := ht.bar hcomment hblank
    refine List.forall_mem_append.mpr ⟨?_, startCells_spelled (fun h => hbar (bar_mem_of_specs h))
      fun x hx c hc => ?_⟩
    · have hleading : trim ((Line.ofText t.text).texts.headD []) <:+: t.text := by
        refine (trim_isInfix _).trans ?_
        cases hhead : (Line.ofText t.text).texts with
        | nil => exact List.nil_infix
        | cons text rest => exact htexts text (hhead ▸ List.mem_cons_self)
      split
      · exact h
      · exact addToLast_spelled (fun c hc => ht.text c (hleading.subset hc))
          (isBlank_head_trim _) (fun h => hbar (hleading.subset h)) h
    · exact ht.text c ((htexts x (List.mem_of_mem_drop hx)).subset hc)

/-- Every cell of a table says what its lines say. -/
theorem cells_spelled {body : List Token} (h : ∀ t ∈ body, t.SpelledIn P B) :
    ∀ p ∈ cells body, p.SpelledIn P B := by
  have hfold (body : List Token) (before : List PendingCell)
      (hbefore : ∀ p ∈ before, p.SpelledIn P B) (h : ∀ t ∈ body, t.SpelledIn P B) :
      ∀ p ∈ body.foldl addLine before, p.SpelledIn P B := by
    induction body generalizing before with
    | nil => exact hbefore
    | cons t rest ih =>
      obtain ⟨ht, hrest⟩ := List.forall_mem_cons.mp h
      exact ih _ (addLine_spelled ht hbefore) hrest
  exact hfold body [] nofun h

namespace PendingCell.SpelledIn

variable {p : PendingCell} (h : p.SpelledIn P B)

include h

/-- The lines of the document in a cell. -/
theorem unread (marker : Text) (attributes : List (Text × Text)) :
    ∀ t ∈ (Cursor.ofCell marker attributes p).unread, t.SpelledIn P B := by
  intro t ht
  obtain ⟨entry, hentry, rfl⟩ := List.mem_map.mp ht
  have hmem := p.content_subset hentry
  refine Token.ofLine_spelled (h.text entry hmem) fun _ _ hbar => ?_
  exact h.bar entry hmem ((dropReturns_isPrefix entry.2).subset hbar)

theorem cellText (hnewline : P '\n') : ∀ c ∈ p.text, P c := by
  intro c hc
  rcases mem_unlines hc with rfl | ⟨line, hline, hc⟩
  · exact hnewline
  · obtain ⟨entry, hentry, rfl⟩ := List.mem_map.mp hline
    exact h.text entry (p.content_subset hentry) c hc

/-- The text of a cell begins with the first line that is not empty. -/
theorem head?_cellText : p.text.head? ≠ some '\n' := by
  have hcontent : p.content <+: p.lines.dropWhile (·.2.isEmpty) := List.rdropWhile_prefix _ _
  intro htext
  cases hlines : p.content with
  | nil =>
    rw [Table.PendingCell.text, hlines] at htext
    cases htext
  | cons entry rest =>
    obtain ⟨behind, hbehind⟩ := hcontent
    have hentry := List.head?_dropWhile_not (fun entry : Int × Text => entry.2.isEmpty) p.lines
    rw [← hbehind, hlines] at hentry
    have hne : entry.2.isEmpty = false := hentry
    obtain ⟨more, hmore⟩ := exists_unlines_cons entry.2 (rest.map (·.2))
    rw [Table.PendingCell.text, hlines, List.map_cons, hmore] at htext
    cases hfirst : entry.2 with
    | nil =>
      rw [hfirst] at hne
      cases hne
    | cons c others =>
      rw [hfirst] at htext
      obtain rfl : c = '\n' := Option.some.inj htext
      have hblank := h.head entry (p.content_subset (hlines ▸ List.mem_cons_self)) '\n'
        (by rw [hfirst]; rfl)
      cases hblank

end PendingCell.SpelledIn

end Table

end Asciidoc
