import Asciidoc.Proofs.Reading.Below

/-!
# Verbatim lines

Between two delimiters of lines nothing is read. Whatever the lines look like, the block holds
them as they are written, and what stands behind the closing delimiter is read as if the text
began there: the lines before it say nothing to its elements, to the attribute entries it sees or
to the fault it meets, and only put its hints further down (`Element.ofLines_verbatim`).
-/

namespace Asciidoc

open Text

/-- The delimiters of lines that are not indented, with what the block at the start of a text makes
of the lines up to the next delimiter. -/
inductive OpensLines : Text → (List Text → Option Element) → Prop where
  | fence : OpensLines ['\x60', '\x60', '\x60'] fun lines => some (.listing (some 1) lines none)
  | listing {n : Nat} (h : 4 ≤ n) :
    OpensLines (List.replicate n '-') fun lines => some (.listing (some 1) lines none)
  | literal {n : Nat} (h : 4 ≤ n) :
    OpensLines (List.replicate n '.') fun lines => some (.literal (some 1) lines)
  | pass {n : Nat} (h : 4 ≤ n) :
    OpensLines (List.replicate n '+') fun _ => some (.unsupported (some 1) "pass".toList)
  | comment {n : Nat} (h : 4 ≤ n) : OpensLines (List.replicate n '/') fun _ => none

/-- A document with an element before its blocks, which stand further down. -/
def Element.behind (first : Option Element) (k : Int) (source : Text) : Element → Element
  | .document line top blocks attributes _ =>
    .document line top (first.toList ++ blocks.map (down k)) attributes source
  | e => e

variable {delimiter : Text} {make : List Text → Option Element}

/-! ## Lines of one code point -/

namespace Text

variable {mark : Char} {t : Text}

theorem trimRight_eq_self (h : ∀ c ∈ t, isBlank c = false) : trimRight t = t := by
  induction t with
  | nil => rfl
  | cons c rest ih =>
    obtain ⟨hc, hrest⟩ := List.forall_mem_cons.mp h
    rw [trimRight, ih hrest]
    cases rest with
    | nil => simp [hc]
    | cons d more => rfl

theorem trimLeft_replicate (h : isBlank mark = false) (n : Nat) :
    trimLeft (List.replicate n mark) = List.replicate n mark := by
  cases n with
  | zero => rfl
  | succ n => rw [trimLeft, List.replicate_succ, List.dropWhile_cons_of_neg (by simp [h])]

theorem trim_replicate (h : isBlank mark = false) (n : Nat) :
    trim (List.replicate n mark) = List.replicate n mark := by
  rw [trim, trimLeft_replicate h]
  apply trimRight_eq_self
  intro c hc
  rw [List.eq_of_mem_replicate hc, h]

theorem dropReturns_eq_self (h : t.getLast? ≠ some '\r') : dropReturns t = t := by
  rw [dropReturns]
  cases hlast : t.reverse with
  | nil => simpa using hlast.symm
  | cons c rest =>
    have hc : c ≠ '\r' := by
      intro hc
      apply h
      rw [← List.head?_reverse, hlast, hc]
      rfl
    rw [List.dropWhile_cons_of_neg (by simpa using hc), ← hlast, List.reverse_reverse]

theorem dropReturns_replicate (h : mark ≠ '\r') (n : Nat) :
    dropReturns (List.replicate n mark) = List.replicate n mark := by
  apply dropReturns_eq_self
  intro hlast
  exact h (List.eq_of_mem_replicate (List.mem_of_getLast? hlast)).symm

end Text

/-- Four or more of the mark of a frame are its delimiter. -/
theorem Token.classify_replicate {mark : Char} {frame : Frame} {n : Nat} (hn : 4 ≤ n)
    (hframe : Frame.ofChar? mark = some frame) (hblank : isBlank mark = false)
    (hbar : mark ≠ '|') (hslash : mark = '/' → frame = .comment) :
    classify Marker.slashes (List.replicate n mark)
      = (.blockDelimiter frame, List.replicate n mark) := by
  obtain ⟨m, rfl⟩ := Nat.exists_eq_add_of_le' hn
  have hall : allBlank (List.replicate (m + 4) mark) = false := by
    simp [allBlank, List.replicate_succ, hblank]
  have hrun : Shape.isRun 4 mark (List.replicate (m + 4) mark) = true := by
    simp [Shape.isRun]
  rw [classify, hall, if_neg Bool.false_ne_true, isCommentDelimiter, trim_replicate hblank]
  by_cases hmark : mark = '/'
  · subst hmark
    rw [if_pos (by simp [List.replicate_succ]), hslash rfl]
  · have hfirst : frame? (List.replicate (m + 4) mark) = some frame := by
      rw [List.replicate_succ, frame?, ← List.replicate_succ, hrun, if_pos rfl, hframe]
    have hshape : delimiterShape? (List.replicate (m + 4) mark)
        = some (.blockDelimiter frame, List.replicate (m + 4) mark) := by
      unfold delimiterShape?
      split
      next rest heq => exact absurd (List.cons.inj heq).1 hbar
      next => rw [hfirst]
    rw [if_neg (by simp [List.replicate_succ, Ne.symm hmark]),
      if_neg (by simp [Marker.slashes, List.replicate_succ, Ne.symm hmark]), shape,
      trim_replicate hblank, hshape, Option.getD_some]

theorem Token.ofLine_replicate {mark : Char} {frame : Frame} {n : Nat} (hn : 4 ≤ n)
    (hframe : Frame.ofChar? mark = some frame) (hblank : isBlank mark = false)
    (hbar : mark ≠ '|') (hslash : mark = '/' → frame = .comment) (number : Int) :
    ofLine Marker.slashes number (List.replicate n mark)
      = ⟨.blockDelimiter frame, List.replicate n mark, number, List.replicate n mark, 0⟩ := by
  have hreturn : mark ≠ '\r' := by
    rintro rfl
    cases hblank
  have hindent : Text.indent (List.replicate n mark) = 0 := by
    rw [Text.indent, List.length_eq_zero_iff]
    cases n with
    | zero => rfl
    | succ n => rw [List.replicate_succ, List.takeWhile_cons_of_neg (by simp [hblank])]
  rw [ofLine, dropReturns_replicate hreturn, classify_replicate hn hframe hblank hbar hslash, hindent]

/-! ## Blocks of lines -/

/-- Up to the line that closes them all lines are content. -/
theorem verbatimSpan_append {content : List Token} (hcontent : ∀ t ∈ content, trim t.text ≠ delimiter)
    {last : Token} (hlast : trim last.text = delimiter) (after : List Token) :
    verbatimSpan delimiter (content ++ last :: after) = (content.map (·.text), after, true) := by
  induction content with
  | nil => rw [List.nil_append, verbatimSpan, if_pos hlast, List.map_nil]
  | cons t rest ih =>
    obtain ⟨ht, hrest⟩ := List.forall_mem_cons.mp hcontent
    rw [List.cons_append, verbatimSpan, if_neg ht, ih hrest, List.map_cons]

theorem Cursor.verbatim_append (c : Cursor) {content : List Token}
    (hcontent : ∀ t ∈ content, trim t.text ≠ delimiter) {last : Token}
    (hlast : trim last.text = delimiter) {after : List Token}
    (hunread : c.unread = content ++ last :: after) :
    (c.verbatim delimiter).out = (content.map (·.text), c.moveTo after) := by
  have hspan := verbatimSpan_append hcontent hlast after
  rw [verbatim, Reached.out]
  dsimp only
  rw [hunread, hspan, if_pos rfl]

namespace OpensLines

/-- The line of a delimiter is trimmed. -/
theorem trim_eq (h : OpensLines delimiter make) : trim delimiter = delimiter := by
  cases h with
  | fence => decide
  | listing hn | literal hn | pass hn | comment hn => exact trim_replicate (by decide) _

theorem newline_not_mem (h : OpensLines delimiter make) : '\n' ∉ delimiter := by
  cases h with
  | fence => decide
  | listing hn | literal hn | pass hn | comment hn =>
    intro hmem
    exact absurd (List.eq_of_mem_replicate hmem) (by decide)

/-- The line of a delimiter closes the block that the delimiter opens. -/
theorem closes (h : OpensLines delimiter make) (number : Int) :
    trim (Token.ofLine Marker.slashes number delimiter).text = delimiter :=
  (trim_dropReturns delimiter).trans h.trim_eq

/-- A delimiter of lines is neither passed over nor a heading. -/
theorem starts (h : OpensLines delimiter make) (level number : Int) :
    (Token.ofLine Marker.slashes number delimiter).isSkipped = false ∧
      (Token.ofLine Marker.slashes number delimiter).endsSection level = false := by
  cases h with
  | fence => exact ⟨rfl, rfl⟩
  | listing hn | literal hn | pass hn | comment hn =>
    rw [Token.ofLine_replicate hn rfl rfl (by decide) (by decide)]
    exact ⟨rfl, rfl⟩

/-- The block that a delimiter of lines opens on the first line. -/
theorem block_out (h : OpensLines delimiter make) (env : Reading) (inList inDelimited : Bool)
    (c : Cursor) (hpending : c.pending = {}) :
    (env.block inList inDelimited (Token.ofLine Marker.slashes 1 delimiter) c).out
      = (make (c.verbatim delimiter).value, (c.verbatim delimiter).cursor) := by
  obtain ⟨⟨unread, attributes, pending⟩, remarks⟩ := c
  dsimp only at hpending
  subst hpending
  rw [Reading.block.eq_def]
  cases h with
  | fence => rfl
  | listing hn | literal hn | pass hn | comment hn =>
    rw [Token.ofLine_replicate hn rfl rfl (by decide) (by decide)]
    dsimp only
    rw [Reading.framed.eq_def, Cursor.framedLines?_eq]
    rfl

/-- A run of blocks that begins with lines between delimiters. -/
theorem blocks_out (h : OpensLines delimiter make) (env : Reading) (inList : Bool) (level : Int)
    (c : Cursor) (hpending : c.pending = {}) {content after : List Token} {last : Token}
    (hcontent : ∀ t ∈ content, trim t.text ≠ delimiter) (hlast : trim last.text = delimiter)
    (hunread : c.unread
      = Token.ofLine Marker.slashes 1 delimiter :: (content ++ last :: after)) :
    (env.blocks inList level none c).out
      = ((make (content.map (·.text))).toList ++ (env.blocks inList level none (c.moveTo after)).value,
        (env.blocks inList level none (c.moveTo after)).cursor) := by
  obtain ⟨hskipped, hheading⟩ := h.starts level 1
  have hskip : c.skipBlank = c := by
    rw [Cursor.skipBlank, hunread, List.dropWhile_cons_of_neg (by simp [hskipped]), ← hunread]
    rfl
  have hblock := h.block_out env inList false (c.moveTo (content ++ last :: after)) hpending
  have hlines := (c.moveTo (content ++ last :: after)).verbatim_append hcontent hlast rfl
  have hread : (env.block inList false (Token.ofLine Marker.slashes 1 delimiter)
      (c.moveTo (content ++ last :: after))).out
        = (make (content.map (·.text)), c.moveTo after) := by
    rw [hblock, (Prod.mk.inj hlines).1, (Prod.mk.inj hlines).2]
    rfl
  obtain ⟨hvalue, hcursor⟩ := Prod.mk.inj hread
  rw [Reading.blocks_out, hskip, hunread]
  dsimp only
  rw [if_neg (by simp), if_neg (by simp [hheading]), Option.isSome_none, hvalue, hcursor]

end OpensLines

/-! ## Texts -/

/-- The first line of a text is numbered one. -/
theorem Tokens.head?_numbered (t : Text) :
    (numbered t).head? = t.lines.head?.map fun line => (1, line) := by
  rw [numbered_eq, List.head?_map, List.head?_zipIdx, Option.map_map]
  rfl

/-- The lines of a text below lines between delimiters. -/
theorem Tokens.numbered_framed {lines : List Text} (hdelimiter : '\n' ∉ delimiter)
    (hlines : ∀ line ∈ lines, '\n' ∉ line) (rest : Text) :
    ∃ (content : List (Int × Text)) (last : Int), content.map Prod.snd = lines ∧
      numbered (rest.below (delimiter :: lines ++ [delimiter])) = (1, delimiter) ::
        (content ++ (last, delimiter) ::
          (numbered rest).map fun entry => (entry.1 + ((lines.length + 2 : Nat) : Int), entry.2)) := by
  have hbefore : ∀ line ∈ delimiter :: lines ++ [delimiter], '\n' ∉ line := by
    intro line hline
    rcases List.mem_append.mp hline with hline | hline
    · rcases List.mem_cons.mp hline with rfl | hline
      · exact hdelimiter
      · exact hlines line hline
    · rwa [List.mem_singleton.mp hline]
  have hhead := head?_numbered (rest.below (delimiter :: lines ++ [delimiter]))
  obtain ⟨first, hfirst, hnumbered⟩ := numbered_below hbefore rest
  rw [Text.lines_below hbefore, hnumbered] at hhead
  obtain ⟨opening, more, rfl, hopening, hmore⟩ := List.map_eq_cons_iff.mp hfirst
  obtain ⟨content, closing, rfl, hcontent, hclosing⟩ := List.map_eq_append_iff.mp hmore
  obtain ⟨last, others, rfl, hlast, hothers⟩ := List.map_eq_cons_iff.mp hclosing
  rw [List.map_eq_nil_iff] at hothers
  subst hothers
  refine ⟨content, last.1, hcontent, ?_⟩
  have hone : opening = (1, delimiter) := Option.some.inj hhead
  have hcount : (delimiter :: lines ++ [delimiter]).length = lines.length + 2 := by simp
  rw [hnumbered, hcount, hone, ← hlast, List.cons_append, List.append_assoc, List.singleton_append]

namespace Element

/-- A text that begins with lines between delimiters is read as the block of those lines and what
the text behind them is read as, further down. -/
theorem ofLines_verbatim (rules : Rules.Reading) (attributes : List (Text × Text))
    (hopens : OpensLines delimiter make) {lines : List Text}
    (hlines : ∀ line ∈ lines,
      '\n' ∉ line ∧ line.getLast? ≠ some '\r' ∧ trim line ≠ delimiter) (rest : Text) :
    let text := rest.below (delimiter :: lines ++ [delimiter])
    let read (t : Text) : Loaded :=
      ofLines rules (.text Marker.slashes) attributes false t (Tokens.numbered t)
    read text = ⟨(read rest).document.map (behind (make lines) (lines.length + 2) text),
      (read rest).notices.map (Notice.down (lines.length + 2))⟩ := by
  intro text read
  obtain ⟨content, last, hcontent, hnumbered⟩ := Tokens.numbered_framed hopens.newline_not_mem
    (fun line hline => (hlines line hline).1) rest
  let env : Reading := ⟨rules, Marker.slashes⟩
  let token : Int × Text → Token := fun entry => Token.ofLine Marker.slashes entry.1 entry.2
  let behind : Cursor := { unread := (Tokens.numbered rest).map token, attributes := attributes }
  let start : Cursor :=
    { unread := (Tokens.numbered text).map token, attributes := attributes }
  have hunread : start.unread = token (1, delimiter) :: (content.map token ++
      token (last, delimiter) :: (behind.down (lines.length + 2)).unread) := by
    show (Tokens.numbered (rest.below (delimiter :: lines ++ [delimiter]))).map token = _
    rw [hnumbered, List.map_cons, List.map_append, List.map_cons, List.map_map,
      Cursor.unread_down, List.map_map]
    rfl
  have htext : ∀ entry ∈ content, (token entry).text = entry.2 := by
    intro entry hentry
    exact dropReturns_eq_self (hlines entry.2 (hcontent ▸ List.mem_map_of_mem hentry)).2.1
  have htexts : (content.map token).map (·.text) = lines := by
    rw [List.map_map, ← hcontent]
    exact List.map_congr_left htext
  have hinside : ∀ t ∈ content.map token, trim t.text ≠ delimiter := by
    intro t ht
    exact (hlines t.text (htexts ▸ List.mem_map_of_mem ht)).2.2
  have hblocks := hopens.blocks_out env false (-1) start rfl hinside (hopens.closes last) hunread
  rw [htexts] at hblocks
  -- Behind the closing delimiter the place is the one at the start of the rest, further down.
  have hdown := env.blocks_down (k := lines.length + 2) false (-1) none behind
  obtain ⟨hvalue, hcursor⟩ := Prod.mk.inj hblocks
  have hvalue' : (env.blocks false (-1) none start).value = (make lines).toList
      ++ (env.blocks false (-1) none behind).value.map (down (lines.length + 2)) :=
    hvalue.trans (congrArg _ hdown.value)
  have hcursor' : (env.blocks false (-1) none start).cursor
      = (env.blocks false (-1) none behind).cursor.down (lines.length + 2) :=
    hcursor.trans hdown.cursor
  have hdocument : start.readDocument env false text
      = ((behind.readDocument env false rest).1.behind (make lines) (lines.length + 2) text,
        (behind.readDocument env false rest).2.down (lines.length + 2)) := by
    show (Element.document _ _ _ _ _, _) = (Element.document _ _ _ _ _, _)
    rw [hvalue', hcursor']
    rfl
  have hread (t : Text) (c : Cursor)
      (hc : c = { unread := (Tokens.numbered t).map token, attributes := attributes }) :
      read t = ⟨(c.readDocument env false t).2.fault?.elim (.ok (c.readDocument env false t).1)
        fun met => .error met.1, (c.readDocument env false t).2.notices⟩ := by
    subst hc
    have htokens : Tokens.ofLines? (.text Marker.slashes) (Tokens.numbered t)
        = some (Tokens.ofLines Marker.slashes (Tokens.numbered t)) := rfl
    have hlist : (Tokens.ofLines Marker.slashes (Tokens.numbered t)).list
        = (Tokens.numbered t).map token := rfl
    show ofLines rules (.text Marker.slashes) attributes false t (Tokens.numbered t) = _
    rw [ofLines, htokens]
    dsimp only
    rw [hlist, show (⟨rules, (Marker.text Marker.slashes).textD⟩ : Reading) = env from rfl]
    cases (Cursor.readDocument _ env false t).2.fault? with
    | none => rfl
    | some met => rfl
  rw [hread text start rfl, hread rest behind rfl, hdocument, Cursor.fault?_down,
    Cursor.notices_down]
  cases (behind.readDocument env false rest).2.fault? with
  | none => rfl
  | some met => rfl

/-- A title and a table in a listing, above a paragraph. -/
theorem ofLines_verbatim_listing :
    (∀ line ∈ ["= a".toList, "|===".toList, []],
      '\n' ∉ line ∧ line.getLast? ≠ some '\r' ∧ trim line ≠ List.replicate 4 '-') ∧
    (ofLines {} (.text Marker.slashes) [] false "----\n= a\n|===\n\n----\nb".toList
      (Tokens.numbered "----\n= a\n|===\n\n----\nb".toList)).document
        = .ok (.document (some 1) none
          [.listing (some 1) ["= a".toList, "|===".toList, []] none,
            .paragraph (some 6) ["b".toList]] [] "----\n= a\n|===\n\n----\nb".toList) := by
  have hlines : ∀ line ∈ ["= a".toList, "|===".toList, []],
      '\n' ∉ line ∧ line.getLast? ≠ some '\r' ∧ trim line ≠ List.replicate 4 '-' := by
    with_unfolding_all decide
  have hrest : (ofLines {} (.text Marker.slashes) [] false "b".toList
      (Tokens.numbered "b".toList)).document
        = .ok (.document (some 1) none [.paragraph (some 1) ["b".toList]] [] "b".toList) := by
    with_unfolding_all rfl
  have hread := congrArg Loaded.document
    (ofLines_verbatim {} [] (.listing (Nat.le_refl 4)) hlines "b".toList)
  refine ⟨hlines, hread.trans ?_⟩
  rw [hrest]
  rfl

end Element

end Asciidoc
