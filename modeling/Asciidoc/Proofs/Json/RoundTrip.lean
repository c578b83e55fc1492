import Asciidoc.Json.Reading
import Asciidoc.Json.Written

/-!
# What is written is read back

Reading inverts writing, in every layout, on the values that the format has a text for and that
can be read: those without floating-point numbers, whose whole numbers have no more digits than
are read and whose tables give no key twice (`read_written`).

Reading comes to texts of code points, and writing starts from texts of characters, so what is read
back is the value with its characters among the code points (`Json.wide`).

A value is read off the front of a text, so the law for a value is about its written form with
something behind it. The only thing asked of what comes behind is that it does not go on with a
number (`Stops`); blanks, commas and closing brackets do not. The bound on the steps is covered
by the length of the written form, since each step down the value passes over one code point.
-/

namespace Asciidoc.Json

open Text

/-! ## Characters of quoted texts -/

theorem hexValue?_hexDigit {n : Nat} (h : n < 16) : hexValue? (Quoted.hexDigit n) = some n := by
  have hall : ∀ n : Fin 16, hexValue? (Quoted.hexDigit n) = some n.val := by decide
  exact hall ⟨n, h⟩

/-- The four digits of a unit are read as that unit. -/
theorem hex_eq_unit? {n : Nat} (h : n < 0x10000) :
    ∃ a b c d, Quoted.hex 4 n = [a, b, c, d] ∧ unit? a b c d = some n := by
  refine ⟨_, _, _, _, rfl, ?_⟩
  rw [unit?, hexValue?_hexDigit (Nat.mod_lt _ (by omega)), hexValue?_hexDigit (Nat.mod_lt _ (by omega)),
    hexValue?_hexDigit (Nat.mod_lt _ (by omega)), hexValue?_hexDigit (Nat.mod_lt _ (by omega))]
  simp only [Option.bind_eq_bind, Option.bind_some, Option.pure_def, Option.some.injEq]
  omega

/-- What is read of a quoted text with one more code point in front. -/
def pushed (p : CodePoint) (read : Except ReadFault (List CodePoint × Text)) :
    Except ReadFault (List CodePoint × Text) :=
  read.map fun (t, left) => (p :: t, left)

theorem quoted_letter {c e : Char} (h : escaped? c = some e) (hc : c ≠ 'u') (rest : Text) :
    quoted ('\\' :: c :: rest) = pushed (.char e) (quoted rest) := by
  rw [quoted.eq_4 _ _ fun _ _ _ _ _ hu => absurd hu hc, h]
  cases quoted rest <;> rfl

theorem quoted_plain {c : Char} (hquote : c ≠ '"') (hslash : c ≠ '\\') (hc : 0x20 ≤ c.toNat)
    (rest : Text) : quoted (c :: rest) = pushed (.char c) (quoted rest) := by
  rw [quoted.eq_5 _ _ hquote (fun _ _ _ _ _ hs => absurd hs hslash) fun _ _ hs => absurd hs hslash,
    if_neg (by simp [hslash]; omega)]
  cases quoted rest <;> rfl

theorem quoted_unit {n : Nat} (h : n < 0x10000) (rest : Text) :
    quoted (unit n ++ rest) = pushed (unitPoint n rest).1 (quoted (unitPoint n rest).2) := by
  obtain ⟨a, b, c, d, hhex, hunit⟩ := hex_eq_unit? h
  rw [unit, hhex, List.cons_append, List.cons_append, List.cons_append, List.cons_append,
    List.cons_append, List.cons_append, List.nil_append, quoted.eq_def]
  simp only [hunit]
  cases quoted (unitPoint n rest).2 <;> rfl

theorem lowSurrogate?_unit {n : Nat} (hlow : 0xDC00 ≤ n) (hhigh : n ≤ 0xDFFF) (rest : Text) :
    lowSurrogate? (unit n ++ rest) = some (n, rest) := by
  obtain ⟨a, b, c, d, hhex, hunit⟩ := hex_eq_unit? (show n < 0x10000 by omega)
  rw [unit, hhex]
  simp [lowSurrogate?, hunit, hlow, hhigh]

/-- The numbers of code points leave out the surrogates. -/
theorem toNat_bounds (c : Char) : c.toNat < 0xD800 ∨ 0xDFFF < c.toNat ∧ c.toNat < 0x110000 :=
  c.valid

/-- A character is the code point of its number. -/
theorem ofNat_toNat (c : Char) : CodePoint.ofNat c.toNat = .char c := by
  have hvalid := toNat_bounds c
  rw [CodePoint.ofNat, if_neg (by simp; omega), Char.ofNat_toNat]

/-- A character of the basic plane is no surrogate. -/
theorem unitPoint_toNat {c : Char} (h : c.toNat < 0x10000) (rest : Text) :
    unitPoint c.toNat rest = (.char c, rest) := by
  have hvalid := toNat_bounds c
  rw [unitPoint, if_neg (by simp; omega), ofNat_toNat]

/-- A character beyond the basic plane is put together from its surrogates. -/
theorem unitPoint_surrogates {c : Char} (h : 0x10000 ≤ c.toNat) (rest : Text) :
    unitPoint (0xD800 + (c.toNat - 0x10000) / 0x400)
      (unit (0xDC00 + (c.toNat - 0x10000) % 0x400) ++ rest) = (.char c, rest) := by
  have hvalid := toNat_bounds c
  rw [unitPoint, if_pos (by simp; omega), lowSurrogate?_unit (by omega) (by omega)]
  dsimp only
  have hsum : 0x10000 + (0xD800 + (c.toNat - 0x10000) / 0x400 - 0xD800) * 0x400
      + (0xDC00 + (c.toNat - 0x10000) % 0x400 - 0xDC00) = c.toNat := by omega
  rw [hsum, ofNat_toNat]

/-- A written character is read back, whatever is behind it. -/
theorem quoted_writtenChar (ascii : Bool) (c : Char) (rest : Text) :
    quoted (writtenChar ascii c ++ rest) = pushed (.char c) (quoted rest) := by
  have hchar {n : Nat} (h : c.toNat = n) : c = Char.ofNat n := by rw [← h, Char.ofNat_toNat]
  unfold writtenChar
  dsimp only
  split
  next h => subst h; exact quoted_letter (c := '"') rfl (by decide) rest
  split
  next h => subst h; exact quoted_letter (c := '\\') rfl (by decide) rest
  split
  next h => subst h; exact quoted_letter rfl (by decide) rest
  split
  next h => subst h; exact quoted_letter rfl (by decide) rest
  split
  next h => subst h; exact quoted_letter rfl (by decide) rest
  split
  next h => exact hchar h ▸ quoted_letter rfl (by decide) rest
  split
  next h => exact hchar h ▸ quoted_letter rfl (by decide) rest
  split
  next h => rw [quoted_unit (by omega), unitPoint_toNat (by omega)]
  split
  next hquote hslash _ _ _ _ _ hcontrol _ =>
    exact quoted_plain hquote hslash (by omega) rest
  split
  next h => rw [quoted_unit h, unitPoint_toNat h]
  next h =>
    have hvalid := toNat_bounds c
    rw [List.append_assoc, quoted_unit (by omega), unitPoint_surrogates (by omega)]

/-- A written text is read back up to its closing quote. -/
theorem quoted_flatMap (ascii : Bool) (t rest : Text) :
    quoted (t.flatMap (writtenChar ascii) ++ '"' :: rest) = .ok (t.map .char, rest) := by
  induction t with
  | nil =>
    rw [List.flatMap_nil, List.nil_append, quoted.eq_2]
    rfl
  | cons c t ih =>
    rw [List.flatMap_cons, List.append_assoc, quoted_writtenChar, ih]
    rfl

/-! ## Numerals -/

/-- A text that does not go on with a number. -/
def Stops (t : Text) : Prop := ∀ c ∈ t.head?, isDigit c = false ∧ c ≠ '.' ∧ c ≠ 'e' ∧ c ≠ 'E'

theorem stops_nil : Stops [] := by
  intro c hc
  cases hc

theorem stops_cons {c : Char} (hdigit : isDigit c = false) (hpoint : c ≠ '.') (hlower : c ≠ 'e')
    (hupper : c ≠ 'E') (t : Text) : Stops (c :: t) := by
  intro d hd
  obtain rfl := Option.some.inj hd
  exact ⟨hdigit, hpoint, hlower, hupper⟩

theorem isDigit_digit {n : Nat} (h : n < 10) : isDigit (Decimal.digit n) = true := by
  have hall : ∀ n : Fin 10, isDigit (Decimal.digit n) = true := by decide
  exact hall ⟨n, h⟩

theorem isDigit_of_mem_ofNat (n : Nat) : ∀ c ∈ Decimal.ofNat n, isDigit c = true := by
  induction n using Decimal.ofNat.induct with
  | case1 n h =>
    rw [Decimal.ofNat, dif_pos h]
    intro c hc
    exact List.mem_singleton.mp hc ▸ isDigit_digit h
  | case2 n h ih =>
    rw [Decimal.ofNat, dif_neg h]
    intro c hc
    rcases List.mem_append.mp hc with hc | hc
    · exact ih c hc
    · exact List.mem_singleton.mp hc ▸ isDigit_digit (Nat.mod_lt n (by decide))

/-- A number above zero is written without leading zeros. -/
theorem head?_ofNat_ne {n : Nat} (hpos : 0 < n) : (Decimal.ofNat n).head? ≠ some '0' := by
  induction n using Decimal.ofNat.induct with
  | case1 n h =>
    have hall : ∀ n : Fin 10, 0 < n.val → Decimal.digit n ≠ '0' := by decide
    rw [Decimal.ofNat, dif_pos h]
    exact fun heq => hall ⟨n, h⟩ hpos (Option.some.inj heq)
  | case2 n h ih =>
    rw [Decimal.ofNat, dif_neg h, List.head?_append]
    cases hleading : Decimal.ofNat (n / 10) with
    | nil => exact absurd hleading (Decimal.ofNat_ne_nil _)
    | cons d digits =>
      rw [hleading] at ih
      exact ih (by omega)

/-- The digits of a number are read up to where the number stops. -/
theorem wholeDigits?_ofNat (n : Nat) {rest : Text} (hrest : Stops rest) :
    wholeDigits? (Decimal.ofNat n ++ rest) = some (Decimal.ofNat n, rest) := by
  obtain rfl | hpos := Nat.eq_zero_or_pos n
  · have hzero : Decimal.ofNat 0 = ['0'] := by
      rw [Decimal.ofNat]
      rfl
    rw [hzero]
    rfl
  · have htake : (Decimal.ofNat n ++ rest).takeWhile isDigit = Decimal.ofNat n := by
      rw [List.takeWhile_append_of_pos (isDigit_of_mem_ofNat n)]
      cases rest with
      | nil => simp
      | cons c t => simp [(hrest c rfl).1]
    have hdrop : (Decimal.ofNat n ++ rest).dropWhile isDigit = rest := by
      rw [List.dropWhile_append_of_pos (isDigit_of_mem_ofNat n)]
      cases rest with
      | nil => rfl
      | cons c t => simp [(hrest c rfl).1]
    cases hdigits : Decimal.ofNat n with
    | nil => exact absurd hdigits (Decimal.ofNat_ne_nil n)
    | cons d digits =>
      have hzero : d ≠ '0' := fun hd => head?_ofNat_ne hpos (by rw [hdigits, hd]; rfl)
      rw [hdigits] at htake hdrop
      rw [List.cons_append] at htake hdrop ⊢
      unfold wholeDigits?
      split
      next h => exact absurd (List.cons.inj h).1 hzero
      next => rw [htake, hdrop]

/-- A number without its sign is read back. -/
theorem magnitude_ofNat (negative : Bool) {n : Nat}
    (hlength : (Decimal.ofNat n).length ≤ Digit.longest) {rest : Text} (hrest : Stops rest) :
    magnitude negative (Decimal.ofNat n ++ rest)
      = .ok (.int (if negative then -(n : Int) else n), rest) := by
  have hfraction : fraction? rest = none := by
    cases rest with
    | nil => rfl
    | cons c t =>
      unfold fraction?
      split
      next h => exact absurd (List.cons.inj h).1 (hrest c rfl).2.1
      next => rfl
  have hexponent : exponent? rest = none := by
    cases rest with
    | nil => rfl
    | cons c t =>
      unfold exponent?
      exact if_neg (by simp [(hrest c rfl).2.2])
  unfold magnitude
  rw [wholeDigits?_ofNat n hrest]
  simp only [hfraction, hexponent, Option.elim_none]
  rw [if_neg (by omega), Decimal.number_ofNat]

/-- What starts like a whole number is none of the named values. -/
theorem find?_constants {d : Char} (hd : isDigit d = true) (t : Text) :
    (constants.find? fun (name, _) => name.isPrefixOf (d :: t)) = none ∧
      (constants.find? fun (name, _) => name.isPrefixOf ('-' :: d :: t)) = none := by
  have hne (c : Char) (hc : isDigit c = false) : (c == d) = false := by
    rw [beq_eq_false_iff_ne]
    rintro rfl
    exact Bool.false_ne_true (hc.symm.trans hd)
  constructor <;>
    simp [constants, List.isPrefixOf, hne 'n' rfl, hne 't' rfl, hne 'f' rfl, hne 'N' rfl, hne 'I' rfl,
      hne '-' rfl]

/-- A whole number is read back. -/
theorem simple_ofInt {n : Int} (hlength : (Decimal.ofNat n.natAbs).length ≤ Digit.longest)
    {rest : Text} (hrest : Stops rest) :
    simple (Decimal.ofInt n ++ rest) = .ok (.int n, rest) := by
  obtain ⟨d, digits, hdigits, hd⟩ : ∃ d digits, Decimal.ofNat n.natAbs = d :: digits ∧
      isDigit d = true := by
    cases h : Decimal.ofNat n.natAbs with
    | nil => exact absurd h (Decimal.ofNat_ne_nil _)
    | cons d digits => exact ⟨d, digits, rfl, isDigit_of_mem_ofNat _ d (h ▸ List.mem_cons_self)⟩
  obtain ⟨hplain, hminus⟩ := find?_constants hd (digits ++ rest)
  cases n with
  | ofNat n =>
    have hmagnitude := magnitude_ofNat false hlength hrest
    rw [hdigits, List.cons_append] at hmagnitude
    change simple (Decimal.ofNat (Int.ofNat n).natAbs ++ rest) = _
    rw [hdigits, List.cons_append, simple, hplain]
    · exact hmagnitude
    · intro _ h
      exact absurd ((List.cons.inj h).1 ▸ hd) (by decide)
  | negSucc n =>
    have hmagnitude := magnitude_ofNat true hlength hrest
    rw [hdigits, List.cons_append] at hmagnitude
    change simple ('-' :: (Decimal.ofNat (Int.negSucc n).natAbs ++ rest)) = _
    rw [hdigits, List.cons_append, simple, hminus]
    exact hmagnitude

/-! ## Values -/

-- A predicate of values, of items and of entries, as the written form goes through them.
mutual

/-- A value that has a text and can be read: no floating-point numbers, no numeral that is too
long, no key twice in a table. -/
def Legible : Json → Prop
  | .int n => (Decimal.ofNat n.natAbs).length ≤ Digit.longest
  | .float _ => False
  | .list items => LegibleAll items
  | .table entries => (entries.map Prod.fst).Nodup ∧ LegibleEntries entries
  | _ => True

/-- Items that have a text and can be read. -/
def LegibleAll : List Json → Prop
  | [] => True
  | item :: rest => item.Legible ∧ LegibleAll rest

/-- Entries whose values have a text and can be read. -/
def LegibleEntries : List (Text × Json) → Prop
  | [] => True
  | (_, value) :: rest => value.Legible ∧ LegibleEntries rest

end

/-! ## Blanks -/

/-- A text that begins with neither a blank nor a closing bracket. -/
def Begins (t : Text) : Prop := ∃ c ∈ t.head?, isSpace c = false ∧ c ≠ ']' ∧ c ≠ '\x7d'

theorem begins_cons {c : Char} (hspace : isSpace c = false) (hlist : c ≠ ']')
    (htable : c ≠ '\x7d') (t : Text) : Begins (c :: t) := ⟨c, rfl, hspace, hlist, htable⟩

theorem Begins.append {t : Text} (h : Begins t) (rest : Text) : Begins (t ++ rest) := by
  obtain ⟨c, hc, h⟩ := h
  exact ⟨c, by rw [List.head?_append, hc]; rfl, h⟩

/-- Blanks are passed over up to where a text begins. -/
theorem Begins.skipSpace_append {t : Text} (h : Begins t) (blanks : Text)
    (hblanks : ∀ c ∈ blanks, isSpace c = true) : skipSpace (blanks ++ t) = t := by
  obtain ⟨c, hc, hspace, -⟩ := h
  cases t with
  | nil => cases hc
  | cons d t =>
    obtain rfl := Option.some.inj hc
    rw [skipSpace, List.dropWhile_append_of_pos hblanks, List.dropWhile_cons_of_neg]
    exact ne_true_of_eq_false hspace

section Layout

variable (layout : Layout) (depth : Nat)

theorem isSpace_of_mem_newline : ∀ c ∈ layout.newline depth, isSpace c = true := by
  unfold Layout.newline
  split
  · simp
  · intro c hc
    rcases List.mem_cons.mp hc with rfl | hc
    · rfl
    · rw [List.eq_of_mem_replicate hc]
      rfl

/-- Items are separated by a comma and blanks. -/
theorem comma_eq : ∃ blanks, layout.comma depth = ',' :: blanks ∧
    ∀ c ∈ blanks, isSpace c = true := by
  unfold Layout.comma
  split
  · exact ⟨[' '], rfl, List.forall_mem_singleton.mpr rfl⟩
  · exact ⟨_, rfl, isSpace_of_mem_newline layout depth⟩

/-- The blanks before a closing bracket are passed over. -/
theorem skipSpace_newline {c : Char} (hc : isSpace c = false) (t : Text) :
    skipSpace (layout.newline depth ++ c :: t) = c :: t := by
  rw [skipSpace, List.dropWhile_append_of_pos (isSpace_of_mem_newline layout depth),
    List.dropWhile_cons_of_neg]
  exact ne_true_of_eq_false hc

/-- The end of a line does not go on with a number. -/
theorem stops_newline {t : Text} (ht : Stops t) : Stops (layout.newline depth ++ t) := by
  unfold Layout.newline
  split
  · exact ht
  · exact stops_cons rfl (by decide) (by decide) (by decide) _

theorem stops_items (items : List Json) {t : Text} (ht : Stops t) :
    Stops (writtenItems layout depth items ++ t) := by
  cases items with
  | nil => exact ht
  | cons item rest =>
    obtain ⟨blanks, hcomma, -⟩ := comma_eq layout depth
    rw [writtenItems, hcomma]
    exact stops_cons rfl (by decide) (by decide) (by decide) _

theorem stops_entries (entries : List (Text × Json)) {t : Text} (ht : Stops t) :
    Stops (writtenEntries layout depth entries ++ t) := by
  cases entries with
  | nil => exact ht
  | cons entry rest =>
    obtain ⟨blanks, hcomma, -⟩ := comma_eq layout depth
    rw [writtenEntries, hcomma]
    exact stops_cons rfl (by decide) (by decide) (by decide) _

theorem begins_writtenText (ascii : Bool) (t : Text) : Begins (writtenText ascii t) :=
  begins_cons rfl (by decide) (by decide) _

/-- A whole number is written from a digit or a minus sign on. -/
theorem exists_ofInt_eq (n : Int) : ∃ c t, Decimal.ofInt n = c :: t ∧
    (isDigit c = true ∨ c = '-') := by
  cases n with
  | negSucc n => exact ⟨_, _, rfl, .inr rfl⟩
  | ofNat n =>
    cases hdigits : Decimal.ofNat n with
    | nil => exact absurd hdigits (Decimal.ofNat_ne_nil n)
    | cons d digits =>
      exact ⟨d, digits, hdigits, .inl (isDigit_of_mem_ofNat n d (hdigits ▸ List.mem_cons_self))⟩

theorem begins_writtenAt {v : Json} (hv : v.Legible) : Begins (v.writtenAt layout depth) := by
  cases v with
  | null => exact begins_cons rfl (by decide) (by decide) _
  | bool b => cases b <;> exact begins_cons rfl (by decide) (by decide) _
  | int n =>
    obtain ⟨c, t, hwritten, hc⟩ := exists_ofInt_eq n
    have hne {d : Char} (hd : isDigit d = false) (hminus : d ≠ '-') : c ≠ d := by
      rintro rfl
      rcases hc with hc | hc
      · exact Bool.false_ne_true (hd.symm.trans hc)
      · exact hminus hc
    rw [writtenAt, hwritten]
    refine begins_cons ?_ (hne rfl (by decide)) (hne rfl (by decide)) t
    simp [isSpace, hne (d := ' ') rfl (by decide), hne (d := '\t') rfl (by decide),
      hne (d := '\n') rfl (by decide), hne (d := '\r') rfl (by decide)]
  | float x => exact hv.elim
  | string t => exact begins_writtenText _ t
  | list items => cases items <;> exact begins_cons rfl (by decide) (by decide) _
  | table entries => cases entries <;> exact begins_cons rfl (by decide) (by decide) _

end Layout

/-! ## Values -/

/-- What is neither quoted nor bracketed is read as a number or a named value. -/
theorem value_simple {bound : Nat} {t : Text} {read : Json CodePoint × Text} (h : simple t = .ok read)
    (hquote : t.head? ≠ some '"') (hlist : t.head? ≠ some '[') (htable : t.head? ≠ some '\x7b') :
    value (bound + 1) t = .ok read := by
  unfold value
  split
  · exact absurd rfl hquote
  · exact absurd rfl hlist
  · exact absurd rfl htable
  · exact h

/-- A list with something in it is read item by item. -/
theorem value_list {bound depth : Nat} {layout : Layout} {t : Text} (ht : Begins t)
    {is : List (Json CodePoint)} {left : Text} (h : items bound t = .ok (is, left)) :
    value (bound + 1) ('[' :: (layout.newline depth ++ t)) = .ok (.list is, left) := by
  rw [value, ht.skipSpace_append _ (isSpace_of_mem_newline layout depth)]
  split
  next =>
    obtain ⟨c, hc, -, hlist, -⟩ := ht
    exact absurd (Option.some.inj hc).symm hlist
  next => rw [h]; rfl

/-- A table with something in it is read entry by entry. -/
theorem value_table {bound depth : Nat} {layout : Layout} {t : Text} (ht : Begins t)
    {es : List (List CodePoint × Json CodePoint)} {left : Text} (h : entries bound [] t = .ok (es, left)) :
    value (bound + 1) ('\x7b' :: (layout.newline depth ++ t)) = .ok (.table es, left) := by
  rw [value, ht.skipSpace_append _ (isSpace_of_mem_newline layout depth)]
  split
  next =>
    obtain ⟨c, hc, -, -, htable⟩ := ht
    exact absurd (Option.some.inj hc).symm htable
  next => rw [h]; rfl

section Steps

variable {bound : Nat} {t left more after : Text} {first : Json CodePoint}

theorem items_last (hfirst : value bound t = .ok (first, left))
    (hleft : skipSpace left = ']' :: after) : items (bound + 1) t = .ok ([first], after) := by
  rw [items, hfirst]
  simp only [bind, Except.bind, hleft]
  rfl

theorem items_next (hfirst : value bound t = .ok (first, left))
    (hleft : skipSpace left = ',' :: more) {others : List (Json CodePoint)}
    (hothers : items bound (skipSpace more) = .ok (others, after)) :
    items (bound + 1) t = .ok (first :: others, after) := by
  rw [items, hfirst]
  simp only [bind, Except.bind, hleft, hothers]
  rfl

variable {before : List (List CodePoint × Json CodePoint)} {ascii : Bool} {key : Text}

theorem entries_last (hfirst : value bound (skipSpace t) = .ok (first, left))
    (hleft : skipSpace left = '\x7d' :: after) :
    entries (bound + 1) before (writtenText ascii key ++ ':' :: t)
      = .ok (Entries.put (key.map .char) first before, after) := by
  rw [writtenText, List.append_assoc, List.cons_append, entries, List.singleton_append,
    quoted_flatMap]
  simp only [bind, Except.bind, show skipSpace (':' :: t) = ':' :: t from rfl, hfirst, hleft]
  rfl

theorem entries_next (hfirst : value bound (skipSpace t) = .ok (first, left))
    (hleft : skipSpace left = ',' :: more) {known : List (List CodePoint × Json CodePoint)}
    (hothers : entries bound (Entries.put (key.map .char) first before) (skipSpace more)
      = .ok (known, after)) :
    entries (bound + 1) before (writtenText ascii key ++ ':' :: t) = .ok (known, after) := by
  rw [writtenText, List.append_assoc, List.cons_append, entries, List.singleton_append,
    quoted_flatMap]
  simp only [bind, Except.bind, show skipSpace (':' :: t) = ':' :: t from rfl, hfirst, hleft,
    hothers]

end Steps

/-- A value of characters among those that may have surrogates. -/
def wide : Json → Json CodePoint := mapTexts (List.map .char)

/-- Values of characters among those that may have surrogates. -/
abbrev wideItems : List Json → List (Json CodePoint) := mapItems (List.map .char)

/-- Entries of characters among those that may have surrogates. -/
abbrev wideEntries : List (Text × Json) → List (List CodePoint × Json CodePoint) :=
  mapEntries (List.map .char)

theorem put_of_not_mem {key : Text} (v : Json) {before : List (Text × Json)}
    (h : key ∉ before.map Prod.fst) :
    Entries.put (key.map .char) v.wide (wideEntries before)
      = wideEntries (before ++ [(key, v)]) := by
  induction before with
  | nil => rfl
  | cons e before ih =>
    obtain ⟨other, value⟩ := e
    rw [List.map_cons, List.mem_cons, not_or] at h
    have hne : other.map CodePoint.char ≠ key.map .char := fun heq =>
      h.1 ((List.map_inj_right fun _ _ => CodePoint.char.inj).mp heq).symm
    rw [wideEntries, mapEntries, Entries.put, if_neg hne, ih h.2]
    rfl

-- One law for each of the three ways a written form goes on; the bound on the steps covers what
-- is still to be read at each of them.
mutual

/-- A written value is read back off the front of a text. -/
theorem value_writtenAt (layout : Layout) (depth : Nat) (v : Json) (hv : v.Legible) (bound : Nat)
    (hbound : (v.writtenAt layout depth).length < bound) {rest : Text} (hrest : Stops rest) :
    value bound (v.writtenAt layout depth ++ rest) = .ok (v.wide, rest) := by
  obtain ⟨bound, rfl⟩ := Nat.exists_eq_succ_of_ne_zero (Nat.ne_zero_of_lt hbound)
  match v with
  | .null | .bool true | .bool false =>
    exact value_simple rfl (by simp [writtenAt]) (by simp [writtenAt]) (by simp [writtenAt])
  | .int n =>
    obtain ⟨c, t, hwritten, hc⟩ := exists_ofInt_eq n
    have hread := simple_ofInt hv hrest
    rw [hwritten] at hread
    rw [writtenAt, hwritten]
    refine value_simple hread ?_ ?_ ?_ <;>
    · intro h
      obtain rfl := Option.some.inj h
      simp [isDigit] at hc
  | .float x => exact hv.elim
  | .string t =>
    rw [writtenAt, writtenText, List.append_assoc, List.cons_append, value, List.singleton_append,
      quoted_flatMap]
    rfl
  | .list [] => rfl
  | .list (item :: items) =>
    obtain ⟨hitem, hitems⟩ := hv
    rw [writtenAt] at hbound ⊢
    simp only [List.length_cons, List.length_append] at hbound
    simp only [List.cons_append, List.append_assoc, List.nil_append]
    refine value_list ((begins_writtenAt layout _ hitem).append _) ?_
    exact items_writtenItems layout (depth + 1) items hitems item bound
      (fun bound hbound _ hafter =>
        value_writtenAt layout (depth + 1) item hitem bound hbound hafter)
      (by omega) depth rest
  | .table [] => rfl
  | .table ((key, first) :: entries) =>
    obtain ⟨hkeys, hfirst, hentries⟩ := hv
    rw [writtenAt] at hbound ⊢
    simp only [List.length_cons, List.length_append] at hbound
    simp only [List.cons_append, List.append_assoc, List.nil_append]
    refine value_table ((begins_writtenText layout.ascii key).append _) ?_
    exact entries_writtenEntries layout (depth + 1) entries hentries [] key first bound
      hkeys hfirst
      (fun bound hbound _ hafter =>
        value_writtenAt layout (depth + 1) first hfirst bound hbound hafter)
      (by omega) depth rest

/-- The items of a list are read back up to its end. -/
theorem items_writtenItems (layout : Layout) (depth : Nat) (rest : List Json)
    (hrest : LegibleAll rest) (first : Json) (bound : Nat)
    (hfirst : ∀ bound : Nat, (first.writtenAt layout depth).length < bound →
      ∀ {after : Text}, Stops after →
        value bound (first.writtenAt layout depth ++ after) = .ok (first.wide, after))
    (hbound : (first.writtenAt layout depth).length + (writtenItems layout depth rest).length + 2
      ≤ bound) (outer : Nat) (after : Text) :
    items bound (first.writtenAt layout depth ++ (writtenItems layout depth rest
      ++ (layout.newline outer ++ ']' :: after))) = .ok (wideItems (first :: rest), after) := by
  obtain ⟨bound, rfl⟩ := Nat.exists_eq_succ_of_ne_zero (show bound ≠ 0 by omega)
  have hend : Stops (layout.newline outer ++ ']' :: after) :=
    stops_newline layout outer (stops_cons rfl (by decide) (by decide) (by decide) _)
  have hvalue := hfirst bound (by omega) (stops_items layout depth rest hend)
  match rest with
  | [] => exact items_last hvalue (skipSpace_newline layout outer rfl _)
  | next :: more =>
    obtain ⟨hnext, hmore⟩ := hrest
    obtain ⟨blanks, hcomma, hblanks⟩ := comma_eq layout depth
    have hothers := items_writtenItems layout depth more hmore next bound
      (fun bound hbound _ hafter => value_writtenAt layout depth next hnext bound hbound hafter)
      (by simp [writtenItems, hcomma] at hbound; omega) outer after
    rw [← ((begins_writtenAt layout depth hnext).append _).skipSpace_append _ hblanks] at hothers
    rw [writtenItems, hcomma] at hvalue ⊢
    simp only [List.cons_append, List.append_assoc] at hvalue ⊢
    exact items_next hvalue rfl hothers

/-- The entries of a table are read back up to its end. -/
theorem entries_writtenEntries (layout : Layout) (depth : Nat) (rest : List (Text × Json))
    (hrest : LegibleEntries rest) (before : List (Text × Json)) (key : Text) (first : Json)
    (bound : Nat) (hkeys : ((before ++ (key, first) :: rest).map Prod.fst).Nodup)
    (hlegible : first.Legible)
    (hfirst : ∀ bound : Nat, (first.writtenAt layout depth).length < bound →
      ∀ {after : Text}, Stops after →
        value bound (first.writtenAt layout depth ++ after) = .ok (first.wide, after))
    (hbound : (first.writtenAt layout depth).length + (writtenEntries layout depth rest).length + 2
      ≤ bound) (outer : Nat) (after : Text) :
    entries bound (wideEntries before) (writtenText layout.ascii key ++ (':' :: ' ' ::
      (first.writtenAt layout depth ++ (writtenEntries layout depth rest
        ++ (layout.newline outer ++ '\x7d' :: after)))))
          = .ok (wideEntries (before ++ (key, first) :: rest), after) := by
  obtain ⟨bound, rfl⟩ := Nat.exists_eq_succ_of_ne_zero (show bound ≠ 0 by omega)
  have hend : Stops (layout.newline outer ++ '\x7d' :: after) :=
    stops_newline layout outer (stops_cons rfl (by decide) (by decide) (by decide) _)
  have hput : Entries.put (key.map .char) first.wide (wideEntries before)
      = wideEntries (before ++ [(key, first)]) := by
    refine put_of_not_mem first fun hmem => ?_
    rw [List.map_append, List.nodup_append] at hkeys
    exact hkeys.2.2 key hmem key (by simp) rfl
  have hvalue := hfirst bound (by omega) (stops_entries layout depth rest hend)
  have hskip (t : Text) : skipSpace (' ' :: (first.writtenAt layout depth ++ t))
      = first.writtenAt layout depth ++ t :=
    ((begins_writtenAt layout depth hlegible).append t).skipSpace_append [' ']
      (List.forall_mem_singleton.mpr rfl)
  rw [← hskip] at hvalue
  match rest with
  | [] => exact hput ▸ entries_last hvalue (skipSpace_newline layout outer rfl _)
  | (other, next) :: more =>
    obtain ⟨hnext, hmore⟩ := hrest
    obtain ⟨blanks, hcomma, hblanks⟩ := comma_eq layout depth
    have hothers := entries_writtenEntries layout depth more hmore (before ++ [(key, first)]) other
      next bound (by simpa using hkeys) hnext
      (fun bound hbound _ hafter => value_writtenAt layout depth next hnext bound hbound hafter)
      (by simp [writtenEntries, hcomma] at hbound; omega) outer after
    rw [← hput, ← ((begins_writtenText layout.ascii other).append _).skipSpace_append _ hblanks]
      at hothers
    rw [writtenEntries, hcomma] at hvalue ⊢
    simp only [List.cons_append, List.append_assoc] at hvalue hothers ⊢
    exact entries_next hvalue rfl hothers

end

/-- What is written of a value is read as that value, in every layout. -/
theorem read_written (layout : Layout) {v : Json} (hv : v.Legible) :
    read (written layout v) = .ok v.wide := by
  have hskip : skipSpace (written layout v) = written layout v :=
    (begins_writtenAt layout 0 hv).skipSpace_append [] (by simp)
  have hvalue : value ((written layout v).length + 1) (written layout v) = .ok (v.wide, []) := by
    simpa [written] using value_writtenAt layout 0 v hv _ (Nat.lt_succ_self _) stops_nil
  rw [read, hskip, hvalue]
  rfl

end Asciidoc.Json
