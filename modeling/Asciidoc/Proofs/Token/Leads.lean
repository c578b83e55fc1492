import Asciidoc.Proofs.Token.InText

/-!
# What stands before a capture

The classified line keeps what it captures of a title or of a list item, but not where in the line
that stood. `Token.Leads` says what stands before it: the marks of a title, or the marker of an item
behind its indent, perhaps with a checkbox, and blanks. What a line captures stands behind such a
text (`Token.exists_leads`), at the column that its title or its item text has.
-/

namespace Asciidoc

open Text

/-! ## Blanks before a text -/

namespace Text

variable {t : Text}

/-- A text without its first blanks begins with none. -/
theorem head?_trimLeft {c : Char} (h : (trimLeft t).head? = some c) : isBlank c = false := by
  have hhead := List.head?_dropWhile_not isBlank t
  rw [trimLeft] at h
  rw [h] at hhead
  simpa using hhead

/-- The blanks before a text, and the text. -/
theorem exists_trimLeft (t : Text) :
    ∃ blanks, t = blanks ++ trimLeft t ∧ allBlank blanks = true :=
  ⟨t.takeWhile isBlank, List.takeWhile_append_dropWhile.symm, List.all_takeWhile⟩

/-- A text between its outer blanks. -/
theorem exists_trim (t : Text) :
    ∃ indent blanks, t = indent ++ (trim t ++ blanks) ∧ allBlank indent = true := by
  obtain ⟨indent, ht, hindent⟩ := exists_trimLeft t
  obtain ⟨blanks, hright, -⟩ := trimRight_append_blanks (trimLeft t)
  refine ⟨indent, blanks, ?_, hindent⟩
  rw [trim, ← hright]
  exact ht

/-- The first code points that are all the same are a number of them. -/
theorem takeWhile_eq_replicate (mark : Char) (t : Text) :
    t.takeWhile (· == mark) = List.replicate (t.takeWhile (· == mark)).length mark := by
  rw [List.eq_replicate_iff]
  exact ⟨rfl, fun c hc => by simpa using List.mem_takeWhile_imp hc⟩

end Text

/-! ## The parts of a line -/

namespace Shape

/-- The mark of an ordered item as it is written, for the marker it has. -/
inductive IsNumeral : Text → Text → Prop where
  | points {n : Nat} : IsNumeral (List.replicate n '.') (List.replicate n '.')
  | number {digits : Text} (h : digits.all Digit.isDigit = true) :
    IsNumeral ['1', '.'] (digits ++ ['.'])
  | letter {c : Char} (h : isLetter c = true) :
    IsNumeral (if isCapital c then ['A', '.'] else ['a', '.']) [c, '.']

variable {t line body title marker : Text}

/-- What follows blanks follows at least one. -/
theorem afterBlanks?_eq (h : afterBlanks? t = some body) :
    ∃ blanks, t = blanks ++ body ∧ blanks ≠ [] ∧ allBlank blanks = true := by
  unfold afterBlanks? at h
  split at h
  · cases h
  next c rest =>
    split at h
    next hblank =>
      obtain ⟨blanks, ht, hblanks⟩ := exists_trimLeft (c :: rest)
      have hbody : trimLeft (c :: rest) = body := by
        split at h
        · cases h
        · split at h
          · cases h
          · exact Option.some.inj h
      rw [hbody] at ht
      refine ⟨blanks, ht, ?_, hblanks⟩
      rintro rfl
      have := head?_trimLeft (t := c :: rest) (c := c) (by rw [hbody, ← List.nil_append body, ← ht]; rfl)
      rw [hblank] at this
      cases this
    next => cases h

theorem afterBlanks?_map_eq {α : Type} {a b : α} {rest : Text}
    (h : (afterBlanks? rest).map (a, ·) = some (b, body)) :
    a = b ∧ ∃ blanks, rest = blanks ++ body ∧ blanks ≠ [] ∧ allBlank blanks = true := by
  obtain ⟨found, hfound, hpair⟩ := Option.map_eq_some_iff.mp h
  obtain ⟨rfl, rfl⟩ := Prod.mk.inj hpair
  exact ⟨rfl, afterBlanks?_eq hfound⟩

theorem unorderedItem?_eq (h : unorderedItem? t = some (marker, body)) :
    ∃ blanks, t = marker ++ (blanks ++ body) ∧ blanks ≠ [] ∧ allBlank blanks = true := by
  unfold unorderedItem? at h
  split at h
  · obtain ⟨rfl, blanks, rfl, hblanks⟩ := afterBlanks?_map_eq h
    exact ⟨blanks, rfl, hblanks⟩
  · dsimp only at h
    split at h
    · obtain ⟨rfl, blanks, hrest, hblanks⟩ := afterBlanks?_map_eq h
      exact ⟨blanks, by rw [← hrest, List.takeWhile_append_dropWhile], hblanks⟩
    · cases h
  · cases h

theorem checkbox?_eq {checked : Bool} (h : checkbox? t = some (checked, body)) :
    ∃ state blanks, t = ['[', state, ']'] ++ (blanks ++ body) ∧ blanks ≠ [] ∧
      allBlank blanks = true := by
  unfold checkbox? at h
  split at h
  next state rest =>
    split at h
    · obtain ⟨-, blanks, rfl, hblanks⟩ := afterBlanks?_map_eq h
      exact ⟨state, blanks, rfl, hblanks⟩
    · cases h
  · cases h

theorem orderedItem?_eq (h : orderedItem? t = some (marker, body)) :
    ∃ numeral blanks, t = numeral ++ (blanks ++ body) ∧ IsNumeral marker numeral ∧ blanks ≠ [] ∧
      allBlank blanks = true := by
  unfold orderedItem? at h
  split at h
  · dsimp only at h
    split at h
    · obtain ⟨rfl, blanks, hrest, hblanks⟩ := afterBlanks?_map_eq h
      refine ⟨_, blanks, by rw [← hrest, List.takeWhile_append_dropWhile], ?_, hblanks⟩
      rw [takeWhile_eq_replicate]
      exact .points
    · cases h
  next c rest _ =>
    split at h
    · split at h
      next more hdigits =>
        obtain ⟨rfl, blanks, rfl, hblanks⟩ := afterBlanks?_map_eq h
        refine ⟨(c :: rest).takeWhile Digit.isDigit ++ ['.'], blanks, ?_,
          .number List.all_takeWhile, hblanks⟩
        rw [List.append_assoc, List.singleton_append, ← hdigits, List.takeWhile_append_dropWhile]
      · cases h
    · split at h
      next hletter =>
        split at h
        next more =>
          obtain ⟨rfl, blanks, rfl, hblanks⟩ := afterBlanks?_map_eq h
          exact ⟨[c, '.'], blanks, rfl, .letter hletter, hblanks⟩
        · cases h
      · cases h
  · cases h

theorem heading?_eq {level : Nat} (h : heading? line = some (level, title)) :
    ∃ mark blanks after, line = List.replicate (level + 1) mark ++ blanks ++ (title ++ after) ∧
      (mark = '=' ∨ mark = '#') ∧ blanks ≠ [] ∧ allBlank blanks = true := by
  unfold heading? at h
  split at h
  · cases h
  next mark rest =>
    split at h
    next hmark =>
      dsimp only at h
      split at h
      next hmarks =>
        split at h
        · cases h
        next c more hbehind =>
          obtain ⟨⟨found, left⟩, hfound, hpair⟩ := Option.map_eq_some_iff.mp h
          obtain ⟨hlevel, rfl⟩ := Prod.mk.inj hpair
          obtain ⟨rfl, -⟩ := shortest_append hfound
          obtain ⟨blanks, hrest, hblanks⟩ := exists_trimLeft ((mark :: rest).dropWhile (· == mark))
          rw [hbehind] at hrest
          have hpos : 0 < ((mark :: rest).takeWhile (· == mark)).length := by
            rw [List.takeWhile_cons_of_pos (by simp)]
            exact Nat.succ_pos _
          have hlength : level + 1 = ((mark :: rest).takeWhile (· == mark)).length := by omega
          refine ⟨mark, blanks, left, ?_, by simpa using hmark, ?_, hblanks⟩
          · rw [hlength, ← takeWhile_eq_replicate, List.append_assoc]
            conv => lhs; rw [← List.takeWhile_append_dropWhile (p := (· == mark)) (l := mark :: rest)]
            rw [hrest]
            simp
          · rintro rfl
            rw [Bool.and_eq_true, hrest, List.nil_append, List.head?_cons] at hmarks
            have := head?_trimLeft (t := (mark :: rest).dropWhile (· == mark)) (c := c)
              (by rw [hbehind]; rfl)
            simp [this] at hmarks
      next => cases h
    next => cases h

end Shape

/-! ## The place of a capture -/

namespace Token

/-- What stands before the title or the text of an item on a line of a kind. -/
inductive Leads : Kind → Text → Prop where
  /-- Equals signs or hashes, and blanks. -/
  | heading {level : Nat} {mark : Char} {blanks : Text} (hmark : mark = '=' ∨ mark = '#')
      (hne : blanks ≠ []) (hblanks : allBlank blanks = true) :
    Leads (.heading level) (List.replicate (level + 1) mark ++ blanks)
  /-- The marker of an item, and blanks. -/
  | bullet {indent marker blanks : Text} (hindent : allBlank indent = true) (hne : blanks ≠ [])
      (hblanks : allBlank blanks = true) :
    Leads (.unorderedItem marker none) (indent ++ (marker ++ blanks))
  /-- The marker of an item and a checkbox, with blanks behind both. -/
  | checkbox {indent marker blanks more : Text} {state : Char} {checked : Bool}
      (hindent : allBlank indent = true) (hne : blanks ≠ []) (hblanks : allBlank blanks = true)
      (hmore : more ≠ []) (hmoreBlanks : allBlank more = true) :
    Leads (.unorderedItem marker (some checked))
      (indent ++ (marker ++ blanks ++ (['[', state, ']'] ++ more)))
  /-- The numeral of an item, and blanks. -/
  | numeral {indent marker numeral blanks : Text} (hindent : allBlank indent = true)
      (hnumeral : Shape.IsNumeral marker numeral) (hne : blanks ≠ [])
      (hblanks : allBlank blanks = true) :
    Leads (.orderedItem marker) (indent ++ (numeral ++ blanks))

/-- Whether a line of a kind captures a title or the text of an item. -/
def Kind.isLed : Kind → Bool
  | .heading _ | .unorderedItem .. | .orderedItem _ => true
  | _ => false

/-- What a line captures as a title or as the text of an item stands in the line behind its marks. -/
def Led (line : Text) (p : Kind × Text) : Prop :=
  p.1.isLed = true → ∃ before after, line = before ++ (p.2 ++ after) ∧ Leads p.1 before

variable {line marker : Text} {p : Kind × Text}

/-- A line that captures neither has nothing to show. -/
theorem led_of_not_isLed (h : p.1.isLed = false) : Led line p := by
  intro hled
  rw [h] at hled
  cases hled

theorem led_of_delimiterShape? {stripped : Text} (h : delimiterShape? stripped = some p) :
    Led line p := by
  unfold delimiterShape? at h
  repeat' split at h
  all_goals first
    | (obtain rfl := Option.some.inj h; exact led_of_not_isLed rfl)
    | cases h

theorem led_of_flushShape? {stripped : Text} (h : flushShape? line stripped = some p) :
    Led line p := by
  unfold flushShape? at h
  split at h
  next level title htitle =>
    obtain rfl := Option.some.inj h
    obtain ⟨mark, blanks, after, hline, hmark, hne, hblanks⟩ := Shape.heading?_eq htitle
    exact fun _ => ⟨_, after, hline, .heading hmark hne hblanks⟩
  next =>
    repeat' split at h
    all_goals first
      | (obtain rfl := Option.some.inj h; exact led_of_not_isLed rfl)
      | (obtain ⟨_, -, rfl⟩ := Option.map_eq_some_iff.mp h; exact led_of_not_isLed rfl)

theorem led_of_listShape? (h : listShape? (trim line) = some p) : Led line p := by
  obtain ⟨indent, after, hline, hindent⟩ := exists_trim line
  unfold listShape? at h
  split at h
  · obtain rfl := Option.some.inj h
    exact led_of_not_isLed rfl
  · split at h
    next marker text hitem =>
      obtain ⟨blanks, htrim, hne, hblanks⟩ := Shape.unorderedItem?_eq hitem
      split at h
      next checked body hchecked =>
        obtain rfl := Option.some.inj h
        obtain ⟨state, more, rfl, hmore, hmoreBlanks⟩ := Shape.checkbox?_eq hchecked
        refine fun _ => ⟨indent ++ (marker ++ blanks ++ (['[', state, ']'] ++ more)), after, ?_,
          .checkbox hindent hne hblanks hmore hmoreBlanks⟩
        rw [htrim] at hline
        simpa using hline
      next =>
        obtain rfl := Option.some.inj h
        refine fun _ => ⟨_, after, ?_, .bullet hindent hne hblanks⟩
        rw [htrim] at hline
        simpa using hline
    next =>
      obtain ⟨⟨marker, text⟩, hitem, rfl⟩ := Option.map_eq_some_iff.mp h
      obtain ⟨numeral, blanks, htrim, hnumeral, hne, hblanks⟩ := Shape.orderedItem?_eq hitem
      refine fun _ => ⟨_, after, ?_, .numeral hindent hnumeral hne hblanks⟩
      rw [htrim] at hline
      simpa using hline

theorem shape_led (line : Text) : Led line (shape line) := by
  apply shape_cases (Q := Led line)
  case delimiter => exact fun p hp => led_of_delimiterShape? hp
  case flush => exact fun p hp => led_of_flushShape? hp
  case list => exact fun p hp => led_of_listShape? hp
  case title => exact fun _ _ => led_of_not_isLed rfl
  case term => exact fun _ _ _ _ => led_of_not_isLed rfl
  case text => exact led_of_not_isLed rfl

/-- Where a line captures a title or the text of an item. -/
theorem classify_led (marker line : Text) : Led line (classify marker line) := by
  rw [classify]
  split
  · exact led_of_not_isLed rfl
  split
  · exact led_of_not_isLed rfl
  split
  · exact led_of_not_isLed rfl
  · exact shape_led line

/-- A line of the text that captures a title or the text of an item has it behind its marks. -/
theorem exists_leads {s : Source} {t : Token} {rest : List Token}
    (h : t :: rest <:+ s.tokens marker) (ht : t.kind.isLed = true) :
    ∃ line before after, s.line? t.line = some line ∧ line = before ++ (t.content ++ after) ∧
      Leads t.kind before := by
  obtain ⟨-, -, line, -, hline, htoken⟩ := Source.line_of_suffix h
  have hled : Led (dropReturns line) (t.kind, t.content) := by
    rw [htoken]
    exact classify_led marker (dropReturns line)
  obtain ⟨before, after, hwritten, hleads⟩ := hled ht
  obtain ⟨returns, hreturns, -⟩ := dropReturns_append line
  refine ⟨line, before, after ++ returns, hline, ?_, hleads⟩
  rw [hreturns, hwritten]
  simp

end Token

end Asciidoc
