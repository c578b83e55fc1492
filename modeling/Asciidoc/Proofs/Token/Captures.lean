import Asciidoc.Proofs.Text.Pieces
import Asciidoc.Token.OfLine

/-!
# What a shape captures is in the line

The content of a heading, an item, a term or a text line is a piece of the line, and so is the
description behind a term and the text behind a label. `Token.Captures` says which piece, and
`Token.classify_captures` that classifying a line captures such a piece. Together with the finding
of pieces this is why what the reader reports can be found again.

Which lines are comments is told from the comment marker alone, but for blank lines and for the
delimiters of comment blocks, which may begin with the marker and are neither.
-/

namespace Asciidoc

open Text

namespace Shape

variable {t line body title label marker term delimiter description value : Text}

theorem afterBlanks?_suffix (h : afterBlanks? t = some body) : body ≠ [] ∧ body <:+ t := by
  unfold afterBlanks? at h
  split at h
  · cases h
  · split at h
    · split at h
      · cases h
      · rename_i hne
        split at h
        · cases h
        · obtain rfl := Option.some.inj h
          exact ⟨hne, trimLeft_isSuffix _⟩
    · cases h

/-- The same of what is given together with something else, seen from a longer text. -/
theorem afterBlanks?_map_suffix {α : Type} {a b : α} {rest : Text}
    (h : (afterBlanks? rest).map (a, ·) = some (b, body)) (hrest : rest <:+ t) :
    body ≠ [] ∧ body <:+ t := by
  obtain ⟨found, hfound, hpair⟩ := Option.map_eq_some_iff.mp h
  obtain ⟨-, rfl⟩ := Prod.mk.inj hpair
  obtain ⟨hne, hsuffix⟩ := afterBlanks?_suffix hfound
  exact ⟨hne, hsuffix.trans hrest⟩

theorem unorderedItem?_suffix (h : unorderedItem? t = some (marker, body)) :
    body ≠ [] ∧ body <:+ t := by
  unfold unorderedItem? at h
  split at h
  · exact afterBlanks?_map_suffix h (List.suffix_cons _ _)
  · dsimp only at h
    split at h
    · exact afterBlanks?_map_suffix h (List.dropWhile_suffix _)
    · cases h
  · cases h

theorem checkbox?_suffix {checked : Bool} (h : checkbox? t = some (checked, body)) :
    body ≠ [] ∧ body <:+ t := by
  unfold checkbox? at h
  split at h
  · rename_i state rest
    split at h
    · exact afterBlanks?_map_suffix h ⟨['[', state, ']'], rfl⟩
    · cases h
  · cases h

theorem orderedItem?_suffix (h : orderedItem? t = some (marker, body)) :
    body ≠ [] ∧ body <:+ t := by
  unfold orderedItem? at h
  split at h
  · dsimp only at h
    split at h
    · exact afterBlanks?_map_suffix h (List.dropWhile_suffix _)
    · cases h
  · rename_i c rest _
    split at h
    · split at h
      · rename_i more hdigits
        have hsuffix : '.' :: more <:+ c :: rest := hdigits ▸ List.dropWhile_suffix _
        exact afterBlanks?_map_suffix h ((List.suffix_cons _ _).trans hsuffix)
      · cases h
    · split at h
      · split at h
        · exact afterBlanks?_map_suffix h ((List.suffix_cons _ _).trans (List.suffix_cons _ _))
        · cases h
      · cases h
  · cases h

theorem label?_suffix (h : label? t = some (label, body)) : body ≠ [] ∧ body <:+ t := by
  unfold label? at h
  split at h
  · cases h
  · split at h
    · rename_i rest hcapitals
      have hsuffix : ':' :: rest <:+ t := hcapitals ▸ List.dropWhile_suffix _
      exact afterBlanks?_map_suffix h ((List.suffix_cons _ _).trans hsuffix)
    · cases h

theorem entryValue?_isInfix (h : entryValue? t = some value) : value <:+: t := by
  unfold entryValue? at h
  split at h
  · obtain rfl := Option.some.inj h
    exact List.nil_infix
  · split at h
    · dsimp only at h
      split at h
      · cases h
      · obtain rfl := Option.some.inj h
        exact trim_isInfix _
    · cases h

theorem delimiter?_isInfix (h : delimiter? t = some (delimiter, description)) :
    description <:+: t := by
  have hbehind {rest d : Text} (hvalue : (Shape.description? rest).map (d, ·)
      = some (delimiter, description)) (hrest : rest <:+ t) : description <:+: t := by
    obtain ⟨found, hfound, hpair⟩ := Option.map_eq_some_iff.mp hvalue
    obtain ⟨-, rfl⟩ := Prod.mk.inj hpair
    exact (entryValue?_isInfix hfound).trans hrest.isInfix
  unfold delimiter? at h
  split at h
  · exact hbehind h ⟨[';', ';'], rfl⟩
  · dsimp only at h
    split at h
    · exact hbehind h (List.dropWhile_suffix _)
    · cases h
  · cases h

/-- A term starts its line, and the description is behind it. -/
theorem term?_captures (h : term? t = some (term, delimiter, description)) :
    term ≠ [] ∧ term <+: t ∧ description <:+: t := by
  fun_induction term? t generalizing term with
  | case1 => cases h
  | case2 c rest d found hfound =>
    obtain ⟨rfl, rfl, rfl⟩ : [c] = term ∧ d = delimiter ∧ found = description := by
      simpa using h
    split at hfound
    · cases hfound
    · have hrest := delimiter?_isInfix hfound
      exact ⟨by simp, ⟨rest, rfl⟩, hrest.trans (List.suffix_cons _ _).isInfix⟩
  | case3 => cases h
  | case4 c rest _ _ ih =>
    obtain ⟨⟨shorter, parts⟩, hshorter, hpair⟩ := Option.map_eq_some_iff.mp h
    obtain ⟨rfl, rfl⟩ := Prod.mk.inj hpair
    obtain ⟨-, hterm, hdescription⟩ := ih hshorter
    exact ⟨by simp, List.cons_prefix_cons.mpr ⟨rfl, hterm⟩,
      hdescription.trans (List.suffix_cons _ _).isInfix⟩

theorem heading?_isInfix {level : Nat} (h : heading? line = some (level, title)) :
    title ≠ [] ∧ title <:+: line := by
  unfold heading? at h
  split at h
  · cases h
  · rename_i mark rest
    split at h
    · dsimp only at h
      split at h
      · split at h
        · cases h
        · rename_i c more hbehind
          obtain ⟨⟨found, left⟩, hfound, hpair⟩ := Option.map_eq_some_iff.mp h
          obtain ⟨-, rfl⟩ := Prod.mk.inj hpair
          obtain ⟨hmore, -⟩ := shortest_append hfound
          have hbegins : c :: found <+: c :: more := ⟨left, by rw [← hmore, List.cons_append]⟩
          have hsuffix : c :: more <:+ mark :: rest :=
            hbehind ▸ (trimLeft_isSuffix _).trans (List.dropWhile_suffix _)
          exact ⟨by simp, hbegins.isInfix.trans hsuffix.isInfix⟩
      · cases h
    · cases h

/-- What stands between brackets is between them. -/
theorem blockAttribute?_isInfix {inside : Text} (h : blockAttribute? t = some inside) :
    inside <:+: t := by
  unfold blockAttribute? at h
  split at h
  · rename_i rest
    dsimp only at h
    split at h
    · obtain rfl := Option.some.inj h
      exact (List.takeWhile_prefix _).isInfix.trans (List.suffix_cons _ _).isInfix
    · cases h
  · cases h

end Shape

namespace Token

/-- Where in its line the content of a line of a kind stands, and the description of a term. -/
def Captures (line : Text) : Kind → Text → Prop
  | .heading _, content | .unorderedItem _ _, content | .orderedItem _, content =>
    content ≠ [] ∧ content <:+: line
  | .term _ description, content =>
    content ≠ [] ∧ content <+: trimLeft line ∧ description <:+: line
  | .text, content => content ≠ [] ∧ content = trim line
  | .blockAttribute, content => content <:+: line
  | _, _ => True

variable {line marker : Text} {p : Kind × Text}

theorem captures_of_delimiterShape? {stripped : Text} (h : delimiterShape? stripped = some p) :
    Captures line p.1 p.2 ∧ p.1 ≠ .blank ∧ p.1 ≠ .comment := by
  unfold delimiterShape? at h
  repeat' split at h
  all_goals first
    | (obtain rfl := Option.some.inj h; exact ⟨trivial, nofun, nofun⟩)
    | cases h

theorem captures_of_flushShape? (h : flushShape? line (trim line) = some p) :
    Captures line p.1 p.2 ∧ p.1 ≠ .blank ∧ p.1 ≠ .comment := by
  unfold flushShape? at h
  split at h
  · rename_i level title htitle
    obtain rfl := Option.some.inj h
    exact ⟨Shape.heading?_isInfix htitle, nofun, nofun⟩
  · split at h
    · obtain rfl := Option.some.inj h
      exact ⟨trivial, nofun, nofun⟩
    · split at h
      · rename_i inside hinside
        obtain rfl := Option.some.inj h
        exact ⟨(Shape.blockAttribute?_isInfix hinside).trans (trim_isInfix line), nofun, nofun⟩
      · split at h
        · obtain rfl := Option.some.inj h
          exact ⟨trivial, nofun, nofun⟩
        · obtain ⟨_, -, rfl⟩ := Option.map_eq_some_iff.mp h
          exact ⟨trivial, nofun, nofun⟩

theorem captures_of_listShape? (h : listShape? (trim line) = some p) :
    Captures line p.1 p.2 ∧ p.1 ≠ .blank ∧ p.1 ≠ .comment := by
  have hpiece {body : Text} (hbody : body ≠ [] ∧ body <:+ trim line) :
      body ≠ [] ∧ body <:+: line :=
    ⟨hbody.1, hbody.2.isInfix.trans (trim_isInfix line)⟩
  unfold listShape? at h
  split at h
  · obtain rfl := Option.some.inj h
    exact ⟨trivial, nofun, nofun⟩
  · split at h
    · rename_i marker text hitem
      have htext := Shape.unorderedItem?_suffix hitem
      split at h
      · rename_i checked body hchecked
        obtain rfl := Option.some.inj h
        obtain ⟨hne, hbody⟩ := Shape.checkbox?_suffix hchecked
        exact ⟨hpiece ⟨hne, hbody.trans htext.2⟩, nofun, nofun⟩
      · obtain rfl := Option.some.inj h
        exact ⟨hpiece htext, nofun, nofun⟩
    · obtain ⟨⟨marker, text⟩, hitem, rfl⟩ := Option.map_eq_some_iff.mp h
      exact ⟨hpiece (Shape.orderedItem?_suffix hitem), nofun, nofun⟩

/-- The shapes that a line can have. -/
theorem shape_cases {Q : Kind × Text → Prop}
    (delimiter : ∀ p, delimiterShape? (trim line) = some p → Q p)
    (flush : ∀ p, flushShape? line (trim line) = some p → Q p)
    (list : ∀ p, listShape? (trim line) = some p → Q p)
    (title : ∀ title, Shape.blockTitle? (trim line) = some title → Q (.blockTitle, title))
    (term : ∀ term delimiter description,
      Shape.term? (trim line) = some (term, delimiter, description) →
        Q (.term delimiter description, term))
    (text : Q (.text, trim line)) : Q (shape line) := by
  rw [shape]
  simp only [Option.orElse_eq_or]
  cases hdelimiter : delimiterShape? (trim line) with
  | some p => exact delimiter p hdelimiter
  | none =>
    generalize hfound : Option.or _ _ = found
    cases found with
    | none => exact text
    | some p =>
      rcases Option.or_eq_some_iff.mp hfound with hflush | ⟨-, hfound⟩
      · split at hflush
        · exact flush p hflush
        · cases hflush
      rcases Option.or_eq_some_iff.mp hfound with hlist | ⟨-, hfound⟩
      · exact list p hlist
      rcases Option.or_eq_some_iff.mp hfound with htitle | ⟨-, hterm⟩
      · obtain ⟨name, hname, rfl⟩ := Option.map_eq_some_iff.mp htitle
        split at hname
        · exact title name hname
        · cases hname
      · obtain ⟨⟨name, mark, description⟩, hparts, rfl⟩ := Option.map_eq_some_iff.mp hterm
        exact term name mark description hparts

/-- What a line that is neither blank nor a comment captures. -/
theorem shape_captures (h : allBlank line = false) :
    Captures line (shape line).1 (shape line).2 ∧ (shape line).1 ≠ .blank ∧
      (shape line).1 ≠ .comment := by
  have htext : trim line ≠ [] := fun hnil => by
    rw [(trim_eq_nil_iff line).mp hnil] at h
    cases h
  apply shape_cases (Q := fun p => Captures line p.1 p.2 ∧ p.1 ≠ .blank ∧ p.1 ≠ .comment)
  case delimiter => exact fun p hp => captures_of_delimiterShape? hp
  case flush => exact fun p hp => captures_of_flushShape? hp
  case list => exact fun p hp => captures_of_listShape? hp
  case title => exact fun _ _ => ⟨trivial, nofun, nofun⟩
  case term =>
    intro term delimiter description hparts
    obtain ⟨hne, hbegins, hdescription⟩ := Shape.term?_captures hparts
    exact ⟨⟨hne, hbegins.trans (trimRight_isPrefix _), hdescription.trans (trim_isInfix line)⟩,
      nofun, nofun⟩
  case text => exact ⟨⟨htext, rfl⟩, nofun, nofun⟩

/-- The delimiter of a table begins with a bar. -/
theorem head?_of_tableDelimiter (h : (classify marker line).1 = .tableDelimiter) :
    (trim line).head? = some '|' := by
  have hshape : (shape line).1 = .tableDelimiter → (trim line).head? = some '|' := by
    apply shape_cases (Q := fun p => p.1 = .tableDelimiter → (trim line).head? = some '|')
    case delimiter =>
      intro p hp hkind
      unfold delimiterShape? at hp
      split at hp
      next rest htrim => rw [htrim, List.head?_cons]
      next =>
        repeat' split at hp
        all_goals first
          | (obtain rfl := Option.some.inj hp; cases hkind)
          | cases hp
    case flush =>
      intro p hp hkind
      unfold flushShape? at hp
      repeat' split at hp
      all_goals first
        | (obtain rfl := Option.some.inj hp; cases hkind)
        | (obtain ⟨_, -, rfl⟩ := Option.map_eq_some_iff.mp hp; cases hkind)
    case list =>
      intro p hp hkind
      unfold listShape? at hp
      repeat' split at hp
      all_goals first
        | (obtain rfl := Option.some.inj hp; cases hkind)
        | (obtain ⟨_, -, rfl⟩ := Option.map_eq_some_iff.mp hp; cases hkind)
    case title => exact fun _ _ => nofun
    case term => exact fun _ _ _ _ => nofun
    case text => exact nofun
  rw [classify] at h
  repeat' split at h
  all_goals first
    | exact hshape h
    | cases h

/-- What a line captures. -/
theorem classify_captures (marker line : Text) :
    Captures line (classify marker line).1 (classify marker line).2 := by
  rw [classify]
  split
  · trivial
  · split
    · trivial
    · split
      · trivial
      · exact (shape_captures (by simpa using ‹¬allBlank line = true›)).1

/-- A line that is classified as blank has only blanks. -/
theorem allBlank_of_blank (h : (classify marker line).1 = .blank) : allBlank line = true := by
  rw [classify] at h
  split at h
  · assumption
  · split at h
    · cases h
    · split at h
      · cases h
      · exact absurd h (shape_captures (by simpa using ‹¬allBlank line = true›)).2.1

/-- A comment line begins with the comment marker. -/
theorem isPrefixOf_of_comment (h : (classify marker line).1 = .comment) :
    marker.isPrefixOf line = true := by
  rw [classify] at h
  split at h
  · cases h
  · split at h
    · cases h
    · split at h
      · assumption
      · exact absurd h (shape_captures (by simpa using ‹¬allBlank line = true›)).2.2

/-- A line that is no comment does not begin with the comment marker, unless it is blank or the
delimiter of a comment block. -/
theorem not_isPrefixOf (hblank : (classify marker line).1 ≠ .blank)
    (hcomment : (classify marker line).1 ≠ .comment)
    (hdelimiter : (classify marker line).1 ≠ .blockDelimiter .comment) :
    marker.isPrefixOf line = false := by
  rw [classify] at hblank hcomment hdelimiter
  split at hblank
  · exact absurd rfl hblank
  · rw [if_neg ‹_›] at hcomment hdelimiter
    split at hdelimiter
    · exact absurd rfl hdelimiter
    · rw [if_neg ‹_›] at hcomment
      split at hcomment
      · exact absurd rfl hcomment
      · exact Bool.eq_false_iff.mpr ‹¬marker.isPrefixOf line = true›

end Token

end Asciidoc
