import Asciidoc.Proofs.Token.Leads
import Asciidoc.Proofs.Token.Spelled

/-!
# Captures have no outer blanks

The content of a title, an item, a term, a block title or a line of text is not empty and has no
blanks at its ends, and it is a piece of its line; so is a description, which stands behind its term
and the delimiter (`Token.content_ofLine_trimmed`). So a search for what was captured looks for
something, and what it finds begins and ends where the text does.

That a title has no blanks at its end is owed to its being the shortest that lets the rest of the
line close it (`shortest_least`); everything else ends where the trimmed line ends, or is trimmed
itself.
-/

namespace Asciidoc

open Text

/-! ## Trimmed texts -/

namespace Text

variable {t body : Text}

/-- A text that is not empty and has no blanks at its ends. -/
structure Trimmed (t : Text) : Prop where
  /-- It is not empty. -/
  ne_nil : t ≠ []
  /-- It begins with no blank. -/
  head : ∀ c, t.head? = some c → isBlank c = false
  /-- It ends in no blank. -/
  last : ∀ c, t.getLast? = some c → isBlank c = false

theorem isBlank_last_trimRight (t : Text) (c : Char) (h : (trimRight t).getLast? = some c) :
    isBlank c = false := by
  induction t with
  | nil => cases h
  | cons d rest ih =>
    rw [trimRight] at h
    split at h
    · split at h
      · cases h
      · obtain rfl : d = c := Option.some.inj h
        exact Bool.eq_false_iff.mpr ‹_›
    · next hkept =>
      rw [List.getLast?_cons_of_ne_nil hkept] at h
      exact ih h

/-- What trimming leaves is trimmed, if it leaves something. -/
theorem trimmed_trim (h : trim t ≠ []) : Trimmed (trim t) :=
  ⟨h, Table.isBlank_head_trim t, isBlank_last_trimRight (trimLeft t)⟩

/-- An end of a trimmed text is trimmed if it begins with no blank. -/
theorem Trimmed.of_suffix (ht : Trimmed t) (hbody : body <:+ t) (hne : body ≠ [])
    (hhead : ∀ c, body.head? = some c → isBlank c = false) : Trimmed body := by
  refine ⟨hne, hhead, fun c hc => ht.last c ?_⟩
  obtain ⟨before, rfl⟩ := hbody
  rw [List.getLast?_append, hc, Option.some_or]

/-- A start of a trimmed text is trimmed if it ends in no blank. -/
theorem Trimmed.of_prefix (ht : Trimmed t) (hbody : body <+: t) (hne : body ≠ [])
    (hlast : ∀ c, body.getLast? = some c → isBlank c = false) : Trimmed body := by
  refine ⟨hne, fun c hc => ht.head c ?_, hlast⟩
  obtain ⟨after, rfl⟩ := hbody
  rw [List.head?_append, hc, Option.some_or]

/-- What `shortest` takes is the shortest: none of its proper starts would have been enough. -/
theorem shortest_least {accepts : Text → Bool} {taken left : Text}
    (h : shortest accepts t = some (taken, left)) {start rest : Text}
    (htaken : taken = start ++ rest) (hrest : rest ≠ []) : accepts (rest ++ left) = false := by
  induction t generalizing taken start with
  | nil =>
    rw [shortest] at h
    split at h
    · obtain ⟨rfl, -⟩ := Prod.mk.inj (Option.some.inj h)
      exact absurd (List.append_eq_nil_iff.mp htaken.symm).2 hrest
    · cases h
  | cons c more ih =>
    have happend := (shortest_append h).1
    rw [shortest] at h
    split at h
    · obtain ⟨rfl, -⟩ := Prod.mk.inj (Option.some.inj h)
      exact absurd (List.append_eq_nil_iff.mp htaken.symm).2 hrest
    · next hnot =>
      split at h
      · cases h
      · obtain ⟨⟨taken', left'⟩, hmore, hpair⟩ := Option.map_eq_some_iff.mp h
        obtain ⟨rfl, rfl⟩ := Prod.mk.inj hpair
        cases start with
        | nil =>
          rw [List.nil_append] at htaken
          rw [← htaken, happend]
          exact Bool.eq_false_iff.mpr hnot
        | cons d start =>
          exact ih hmore (List.cons.inj htaken).2

end Text

/-! ## Shapes -/

namespace Shape

variable {t line body title marker term delimiter description : Text}

theorem isBlank_head_afterBlanks? (h : afterBlanks? t = some body) (c : Char)
    (hc : body.head? = some c) : isBlank c = false := by
  unfold afterBlanks? at h
  split at h
  · cases h
  next d rest =>
    split at h
    · split at h
      · cases h
      · split at h
        · cases h
        · obtain rfl := Option.some.inj h
          exact head?_trimLeft hc
    · cases h

/-- What follows blanks in a trimmed text is trimmed, also if it is given together with something
else. -/
theorem afterBlanks?_map_trimmed {α : Type} {a b : α} {rest : Text}
    (h : (afterBlanks? rest).map (a, ·) = some (b, body)) (hrest : rest <:+ t) (ht : Trimmed t) :
    Trimmed body := by
  obtain ⟨hne, hsuffix⟩ := afterBlanks?_map_suffix h hrest
  obtain ⟨found, hfound, hpair⟩ := Option.map_eq_some_iff.mp h
  obtain ⟨-, rfl⟩ := Prod.mk.inj hpair
  exact ht.of_suffix hsuffix hne (isBlank_head_afterBlanks? hfound)

theorem unorderedItem?_trimmed (h : unorderedItem? t = some (marker, body)) (ht : Trimmed t) :
    Trimmed body := by
  unfold unorderedItem? at h
  split at h
  · exact afterBlanks?_map_trimmed h (List.suffix_cons _ _) ht
  · dsimp only at h
    split at h
    · exact afterBlanks?_map_trimmed h (List.dropWhile_suffix _) ht
    · cases h
  · cases h

theorem checkbox?_trimmed {checked : Bool} (h : checkbox? t = some (checked, body))
    (ht : Trimmed t) : Trimmed body := by
  unfold checkbox? at h
  split at h
  next state rest =>
    split at h
    · exact afterBlanks?_map_trimmed h ⟨['[', state, ']'], rfl⟩ ht
    · cases h
  next => cases h

theorem orderedItem?_trimmed (h : orderedItem? t = some (marker, body)) (ht : Trimmed t) :
    Trimmed body := by
  unfold orderedItem? at h
  split at h
  · dsimp only at h
    split at h
    · exact afterBlanks?_map_trimmed h (List.dropWhile_suffix _) ht
    · cases h
  next c rest _ =>
    split at h
    · split at h
      next more hdigits =>
        have hsuffix : '.' :: more <:+ c :: rest := hdigits ▸ List.dropWhile_suffix _
        exact afterBlanks?_map_trimmed h ((List.suffix_cons _ _).trans hsuffix) ht
      next => cases h
    · split at h
      · split at h
        · exact afterBlanks?_map_trimmed h ((List.suffix_cons _ _).trans (List.suffix_cons _ _)) ht
        · cases h
      · cases h
  · cases h

/-- A title line that is closed is closed with one more blank before its end. -/
theorem closesTitle_cons {c : Char} {marks left : Text} (hc : isBlank c = true)
    (h : closesTitle marks left = true) : closesTitle marks (c :: left) = true := by
  have htrim : trimLeft (c :: left) = trimLeft left := List.dropWhile_cons_of_pos hc
  unfold closesTitle at h ⊢
  rw [allBlank_cons, hc, Bool.true_and, htrim]
  cases hleft : allBlank left with
  | true => rfl
  | false =>
    rw [hleft] at h
    simp only [Bool.false_or] at h ⊢
    split at h
    · cases hleft
    · rw [Bool.and_assoc] at h ⊢
      rw [hc, Bool.true_and]
      exact (Bool.and_eq_true_iff.mp h).2

theorem heading?_trimmed {level : Nat} (h : heading? line = some (level, title)) :
    Trimmed title := by
  unfold heading? at h
  split at h
  · cases h
  next mark rest =>
    split at h
    next =>
      dsimp only at h
      split at h
      next =>
        split at h
        · cases h
        next c more hbehind =>
          obtain ⟨⟨found, left⟩, hfound, hpair⟩ := Option.map_eq_some_iff.mp h
          obtain ⟨-, rfl⟩ := Prod.mk.inj hpair
          have hc : isBlank c = false := head?_trimLeft (by rw [hbehind, List.head?_cons])
          have hcloses := (shortest_append hfound).2
          refine ⟨List.cons_ne_nil _ _, fun d hd => Option.some.inj hd ▸ hc, fun d hd => ?_⟩
          -- A blank at the end could have been left to what closes the line.
          cases hsplit : found.getLast? with
          | none =>
            rw [List.getLast?_cons, hsplit] at hd
            exact Option.some.inj hd ▸ hc
          | some last =>
            rw [List.getLast?_cons, hsplit] at hd
            obtain rfl : last = d := Option.some.inj hd
            obtain ⟨start, rfl⟩ := List.getLast?_eq_some_iff.mp hsplit
            have hleast := shortest_least hfound rfl (List.cons_ne_nil last [])
            cases hlast : isBlank last with
            | false => rfl
            | true =>
              rw [List.singleton_append, closesTitle_cons hlast hcloses] at hleast
              cases hleast
      next => cases h
    next => cases h

theorem blockTitle?_trimmed (h : blockTitle? t = some title) (ht : Trimmed t) : Trimmed title := by
  unfold blockTitle? at h
  split at h
  next c rest =>
    split at h
    · cases h
    next hnot =>
      obtain rfl := Option.some.inj h
      refine ht.of_suffix (List.suffix_cons _ _) (List.cons_ne_nil _ _) fun d hd => ?_
      obtain rfl : c = d := Option.some.inj hd
      simp only [Bool.or_eq_true, not_or] at hnot
      exact Bool.eq_false_iff.mpr hnot.1.2
  · cases h

/-- A description stands behind blanks. -/
theorem description?_eq {behind : Text} (h : Shape.description? behind = some description)
    (hne : description ≠ []) :
    Trimmed description ∧ ∃ blanks after, behind = blanks ++ (description ++ after) ∧
      blanks ≠ [] ∧ allBlank blanks = true := by
  unfold Shape.description? entryValue? at h
  split at h
  · exact absurd (Option.some.inj h).symm hne
  next c rest =>
    split at h
    next hc =>
      dsimp only at h
      split at h
      · cases h
      · obtain rfl := Option.some.inj h
        obtain ⟨blanks, after, hbehind, hblanks⟩ := exists_trim (c :: rest)
        refine ⟨trimmed_trim hne, blanks, after, hbehind, ?_, hblanks⟩
        rintro rfl
        have hhead := (trimmed_trim hne).head c
        rw [List.nil_append] at hbehind
        have hfirst := congrArg List.head? hbehind
        rw [List.head?_append_of_ne_nil _ hne, List.head?_cons] at hfirst
        rw [hhead hfirst.symm] at hc
        cases hc
    next => cases h

theorem delimiter?_eq (h : delimiter? t = some (delimiter, description)) :
    ∃ behind, t = delimiter ++ behind ∧ Shape.description? behind = some description := by
  unfold delimiter? at h
  split at h
  next rest =>
    obtain ⟨found, hfound, hpair⟩ := Option.map_eq_some_iff.mp h
    obtain ⟨rfl, rfl⟩ := Prod.mk.inj hpair
    exact ⟨rest, rfl, hfound⟩
  · dsimp only at h
    split at h
    · obtain ⟨found, hfound, hpair⟩ := Option.map_eq_some_iff.mp h
      obtain ⟨rfl, rfl⟩ := Prod.mk.inj hpair
      exact ⟨_, List.takeWhile_append_dropWhile.symm, hfound⟩
    · cases h
  · cases h

/-- A term ends in no blank, and its delimiter and description are behind it. -/
theorem term?_eq (h : term? t = some (term, delimiter, description)) :
    (∀ c, term.getLast? = some c → isBlank c = false) ∧
      ∃ behind, t = term ++ (delimiter ++ behind) ∧
        Shape.description? behind = some description := by
  fun_induction term? t generalizing term with
  | case1 => cases h
  | case2 c rest d found hfound =>
    obtain ⟨rfl, rfl, rfl⟩ : [c] = term ∧ d = delimiter ∧ found = description := by
      simpa using h
    split at hfound
    · cases hfound
    next hc =>
      obtain ⟨behind, rfl, hbehind⟩ := delimiter?_eq hfound
      exact ⟨fun b hb => Option.some.inj hb ▸ Bool.eq_false_iff.mpr hc, behind, rfl, hbehind⟩
  | case3 => cases h
  | case4 c rest _ _ ih =>
    obtain ⟨⟨shorter, parts⟩, hshorter, hpair⟩ := Option.map_eq_some_iff.mp h
    obtain ⟨rfl, rfl⟩ := Prod.mk.inj hpair
    obtain ⟨hlast, behind, rfl, hbehind⟩ := ih hshorter
    refine ⟨fun b hb => hlast b ?_, behind, rfl, hbehind⟩
    rwa [List.getLast?_cons_of_ne_nil (term?_captures hshorter).1] at hb

end Shape

/-! ## Lines -/

namespace Token

/-- Whether the content of a line of a kind is a text of the document. -/
def Kind.hasText : Kind → Bool
  | .heading _ | .unorderedItem .. | .orderedItem _ | .term .. | .blockTitle | .text => true
  | _ => false

/-- A description that stands in a line behind a term, its delimiter and blanks. -/
def DescribedIn (line term delimiter description : Text) : Prop :=
  Trimmed description ∧ ∃ before blanks after,
    line = before ++ (term ++ (delimiter ++ (blanks ++ (description ++ after)))) ∧
      blanks ≠ [] ∧ allBlank blanks = true

/-- The texts that a line captures are trimmed, and a description is behind its term. -/
structure TrimmedIn (line : Text) (p : Kind × Text) : Prop where
  /-- The content. -/
  content : p.1.hasText = true → Trimmed p.2
  /-- The description. -/
  description : ∀ delimiter description, p.1 = .term delimiter description → description ≠ [] →
    DescribedIn line p.2 delimiter description

variable {line marker : Text} {p : Kind × Text}

/-- A content that is no text has nothing to show. -/
theorem trimmedIn_of_not_hasText (h : p.1.hasText = false) : TrimmedIn line p := by
  constructor
  · intro htext
    rw [h] at htext
    cases htext
  · intro delimiter description hterm
    rw [hterm] at h
    cases h

/-- Nor has a trimmed content of a line that is no term. -/
theorem trimmedIn_of_trimmed (hcontent : Trimmed p.2)
    (hterm : ∀ delimiter description, p.1 ≠ .term delimiter description) : TrimmedIn line p :=
  ⟨fun _ => hcontent, fun _ _ h => absurd h (hterm _ _)⟩

theorem trimmedIn_of_delimiterShape? {stripped : Text} (h : delimiterShape? stripped = some p) :
    TrimmedIn line p := by
  unfold delimiterShape? at h
  repeat' split at h
  all_goals first
    | (obtain rfl := Option.some.inj h; exact trimmedIn_of_not_hasText rfl)
    | cases h

theorem trimmedIn_of_flushShape? {stripped : Text} (h : flushShape? line stripped = some p) :
    TrimmedIn line p := by
  unfold flushShape? at h
  split at h
  next level title htitle =>
    obtain rfl := Option.some.inj h
    exact trimmedIn_of_trimmed (Shape.heading?_trimmed htitle) nofun
  next =>
    repeat' split at h
    all_goals first
      | (obtain rfl := Option.some.inj h; exact trimmedIn_of_not_hasText rfl)
      | (obtain ⟨_, -, rfl⟩ := Option.map_eq_some_iff.mp h; exact trimmedIn_of_not_hasText rfl)

theorem trimmedIn_of_listShape? {stripped : Text} (hstripped : Trimmed stripped)
    (h : listShape? stripped = some p) : TrimmedIn line p := by
  unfold listShape? at h
  split at h
  · obtain rfl := Option.some.inj h
    exact trimmedIn_of_not_hasText rfl
  · split at h
    next marker text hitem =>
      have htext := Shape.unorderedItem?_trimmed hitem hstripped
      split at h
      next checked body hchecked =>
        obtain rfl := Option.some.inj h
        exact trimmedIn_of_trimmed (Shape.checkbox?_trimmed hchecked htext) nofun
      next =>
        obtain rfl := Option.some.inj h
        exact trimmedIn_of_trimmed htext nofun
    next =>
      obtain ⟨⟨marker, text⟩, hitem, rfl⟩ := Option.map_eq_some_iff.mp h
      exact trimmedIn_of_trimmed (Shape.orderedItem?_trimmed hitem hstripped) nofun

theorem shape_trimmedIn (h : trim line ≠ []) : TrimmedIn line (shape line) := by
  have hline := trimmed_trim h
  apply shape_cases (Q := TrimmedIn line)
  case delimiter => exact fun p hp => trimmedIn_of_delimiterShape? hp
  case flush => exact fun p hp => trimmedIn_of_flushShape? hp
  case list => exact fun p hp => trimmedIn_of_listShape? hline hp
  case title =>
    exact fun title htitle => trimmedIn_of_trimmed (Shape.blockTitle?_trimmed htitle hline) nofun
  case term =>
    intro term delimiter description hparts
    obtain ⟨hne, hprefix, -⟩ := Shape.term?_captures hparts
    obtain ⟨hlast, behind, htrim, hbehind⟩ := Shape.term?_eq hparts
    refine ⟨fun _ => hline.of_prefix hprefix hne hlast, fun d found hterm hfound => ?_⟩
    obtain ⟨rfl, rfl⟩ := Kind.term.inj hterm
    obtain ⟨hdescription, blanks, after, rfl, hblanks⟩ := Shape.description?_eq hbehind hfound
    obtain ⟨indent, more, hwritten, -⟩ := exists_trim line
    refine ⟨hdescription, indent, blanks, after ++ more, ?_, hblanks⟩
    rw [htrim] at hwritten
    simpa using hwritten
  case text => exact trimmedIn_of_trimmed hline nofun

theorem classify_trimmedIn (marker line : Text) : TrimmedIn line (classify marker line) := by
  rw [classify]
  split
  · exact trimmedIn_of_not_hasText rfl
  next hblank =>
    split
    · exact trimmedIn_of_not_hasText rfl
    split
    · exact trimmedIn_of_not_hasText rfl
    · exact shape_trimmedIn fun hnil => hblank ((trim_eq_nil_iff line).mp hnil)

/-- The content of a title, an item, a term, a block title or a line of text is trimmed and a piece
of its line, and a description that is not empty stands, trimmed too, behind its term and the
delimiter. -/
theorem content_ofLine_trimmed (marker : Text) (number : Int) (line : Text) :
    ((ofLine marker number line).kind.hasText = true →
      Trimmed (ofLine marker number line).content ∧
        (ofLine marker number line).content <:+: line) ∧
    ∀ delimiter description, (ofLine marker number line).kind = .term delimiter description →
      description ≠ [] →
        DescribedIn line (ofLine marker number line).content delimiter description := by
  obtain ⟨hcontent, hdescription⟩ := classify_trimmedIn marker (dropReturns line)
  constructor
  · intro htext
    have hpiece := classify_isInfix marker (dropReturns line)
    exact ⟨hcontent htext, hpiece.trans (dropReturns_isPrefix line).isInfix⟩
  · intro delimiter description hterm hne
    obtain ⟨htrimmed, before, blanks, after, hline, hblanks⟩ := hdescription _ _ hterm hne
    obtain ⟨returns, hreturns, -⟩ := dropReturns_append line
    refine ⟨htrimmed, before, blanks, after ++ returns, ?_, hblanks⟩
    calc line = dropReturns line ++ returns := hreturns
      _ = _ := by rw [hline]; simp [ofLine]

/-- A term of two words with its description, on an indented line with blanks at its end. -/
theorem content_ofLine_trimmed_term :
    (Trimmed "a b".toList ∧ "a b".toList <:+: " a b::  c d \r".toList) ∧
      DescribedIn " a b::  c d \r".toList "a b".toList "::".toList "c d".toList := by
  have hline : ofLine Marker.slashes 1 " a b::  c d \r".toList
      = ⟨.term "::".toList "c d".toList, "a b".toList, 1, " a b::  c d ".toList, 1⟩ := by
    decide
  obtain ⟨hcontent, hdescription⟩ :=
    content_ofLine_trimmed Marker.slashes 1 " a b::  c d \r".toList
  rw [hline] at hcontent hdescription
  exact ⟨hcontent rfl, hdescription _ _ rfl (by decide)⟩

end Token

end Asciidoc
