import Asciidoc.Proofs.Reading.Equations
import Asciidoc.Proofs.Reading.Hints
import Asciidoc.Proofs.Reading.OnLines
import Asciidoc.Proofs.Reading.Below

/-!
# Lines that say nothing

Blank lines, single-line comments and comment blocks say nothing: a document that has only such
lines has neither a title nor blocks. A comment block is opened by a line of slashes, and that line
is told before any line is held against the comment marker, like a blank one. So these are the only
lines that are read under a marker that is no text, and what is read under one is an empty document
(`Element.ofText_unusable`).
-/

namespace Asciidoc

open Text

/-- A blank line, a single-line comment, or a line that opens a comment block. -/
def Token.isSilent (t : Token) : Bool := t.isSkipped || t.kind = .blockDelimiter .comment

variable {c : Cursor}

/-- The first line that is not passed by, if all are silent, opens a comment block. -/
theorem Cursor.kind_of_silent (h : ∀ t ∈ c.unread, t.isSilent = true) {t : Token}
    {rest : List Token} (hnext : c.skipBlank.unread = t :: rest) :
    t.kind = .blockDelimiter .comment := by
  have hskipped : t.isSkipped = false := by
    have hhead := List.head?_dropWhile_not Token.isSkipped c.unread
    rw [show c.unread.dropWhile Token.isSkipped = t :: rest from hnext] at hhead
    simpa using hhead
  have hmem : t ∈ c.unread :=
    c.skipBlank_suffix.subset (hnext ▸ List.mem_cons_self)
  have ht := h t hmem
  rw [Token.isSilent, hskipped, Bool.false_or] at ht
  exact of_decide_eq_true ht

/-- A line that does not have to be held against the comment marker is blank or opens a comment
block. -/
theorem Token.isSilent_ofLine (marker : Text) (number : Int) {line : Text}
    (h : Token.needsMarker line = false) : (Token.ofLine marker number line).isSilent = true := by
  rw [Token.needsMarker] at h
  rw [Token.isSilent, Token.isSkipped, Token.ofLine]
  dsimp only
  unfold Token.classify
  split
  · rfl
  · split
    · rfl
    · simp_all

namespace Reading

/-- A comment block makes no element. -/
theorem block_comment (env : Reading) (inList inDelimited : Bool) {t : Token} (c : Cursor)
    (ht : t.kind = .blockDelimiter .comment) :
    (env.block inList inDelimited t c).value = none ∧
      (env.block inList inDelimited t c).cursor.unread <:+ c.unread := by
  have hlines : ∃ r, c.framedLines? (some .comment) t = some r ∧ r.value = none := by
    rw [Cursor.framedLines?_eq]
    exact ⟨_, rfl, rfl⟩
  obtain ⟨r, hlines, hvalue⟩ := hlines
  rw [block.eq_def, ht]
  dsimp only
  rw [framed.eq_def, hlines]
  exact ⟨hvalue, Cursor.framedLines?_suffix hlines⟩

/-- Silent lines make no blocks. -/
theorem blocks_silent (env : Reading) (inList : Bool) (level : Int) (c : Cursor)
    (h : ∀ t ∈ c.unread, t.isSilent = true) :
    (env.blocks inList level none c).value = [] := by
  have hout := congrArg Prod.fst (env.blocks_out inList level none c)
  rw [show (env.blocks inList level none c).out.1 = (env.blocks inList level none c).value from rfl]
    at hout
  rw [hout]
  split
  next => rfl
  next t rest hnext =>
    have ht := Cursor.kind_of_silent h hnext
    have hrest := Cursor.length_lt_of_skipBlank hnext
    obtain ⟨hvalue, hsuffix⟩ := env.block_comment inList false (c.skipBlank.moveTo rest) ht
    have hwithin := hsuffix.length_le
    have hbehind : ∀ u ∈ (env.block inList false t (c.skipBlank.moveTo rest)).cursor.unread,
        u.isSilent = true :=
      fun u hu => h u ((Cursor.suffix_of_skipBlank hnext).subset (hsuffix.subset hu))
    have hmore := blocks_silent env inList level _ hbehind
    rw [if_neg (by simp), if_neg (by simp [Token.endsSection, ht])]
    show (env.block inList false t (c.skipBlank.moveTo rest)).value.toList
      ++ (env.blocks inList level none
        (env.block inList false t (c.skipBlank.moveTo rest)).cursor).value = []
    rw [hvalue, hmore]
    rfl
termination_by c.size
decreasing_by exact Nat.lt_of_le_of_lt hwithin hrest

end Reading

/-- Silent lines have no title line among them. -/
theorem Cursor.header_silent (h : ∀ t ∈ c.unread, t.isSilent = true) : c.header.1 = none := by
  cases htitle : c.header.1 with
  | none => rfl
  | some title =>
    obtain ⟨t, rest, hline, ht, -⟩ := Cursor.header_title htitle
    have hsilent := h t (hline.subset List.mem_cons_self)
    simp [Token.isSilent, Token.isSkipped, ht] at hsilent

/-- A document of silent lines is empty. -/
theorem Cursor.readDocument_silent (env : Reading) (source : Text)
    (h : ∀ t ∈ c.unread, t.isSilent = true) :
    ∃ attributes, (c.readDocument env true source).1
      = .document (some 1) none [] attributes source := by
  have hblocks := env.blocks_silent false (-1) c.header.2 fun t ht =>
    h t (c.header_keeps.1.subset ht)
  refine ⟨(env.blocks false (-1) none c.header.2).cursor.attributes, ?_⟩
  rw [readDocument, if_pos rfl]
  dsimp only
  rw [hblocks, c.header_silent h]

/-- In a text that is read under a marker that is no text, no line is held against it. -/
theorem Element.needsMarker_of_ofText {rules : Rules.Reading} {t : Text} {root : Element}
    (h : (Element.ofText rules .unusable t).document = .ok root) :
    ∀ entry ∈ Tokens.numbered t, Token.needsMarker entry.2 = false := by
  rw [ofText, ofLines, Tokens.ofLines?_eq] at h
  by_cases hneeds : (Tokens.numbered t).any (fun entry => Token.needsMarker entry.2) = true
  · rw [if_pos ⟨rfl, hneeds⟩] at h
    cases h
  · simpa using hneeds

/-- What is read under a marker that is no text is an empty document. -/
theorem Element.ofText_unusable {rules : Rules.Reading} {t : Text} {root : Element}
    (h : (Element.ofText rules .unusable t).document = .ok root) :
    ∃ attributes, root = .document (some 1) none [] attributes t := by
  have hsilent : ∀ u ∈ ((Source.ofText t).start Marker.slashes).unread, u.isSilent = true := by
    intro u hu
    obtain ⟨entry, hentry, rfl⟩ := List.mem_map.mp hu
    exact Token.isSilent_ofLine Marker.slashes entry.1 (needsMarker_of_ofText h entry hentry)
  obtain ⟨attributes, hdocument⟩ := Cursor.readDocument_silent ⟨rules, Marker.slashes⟩ t hsilent
  exact ⟨attributes, (ofText_eq_ok h).symm.trans hdocument⟩

end Asciidoc
