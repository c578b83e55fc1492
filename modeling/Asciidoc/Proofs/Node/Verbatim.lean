import Asciidoc.Proofs.Element.Apart
import Asciidoc.Proofs.Node.Outermost
import Asciidoc.Proofs.Span.Begins
import Asciidoc.Proofs.Span.Early

/-!
# Where blocks of lines are found

A listing, and a literal block between delimiters, is to stand on the lines that it was read from,
from the first column of the first to the end of the last. The search for it does not know about
delimiters and styles. It starts on the line that the block is reported on, which is the delimiter
if there is one, and passes by what looks like a comment in a literal block, but not in a listing.

So a block is found in place exactly if neither gets in the way (`Verbatim.IsSafe`): between
delimiters its lines must not be in the lines before their own already, from the delimiter on, and
none of the lines of a literal block may begin with the comment marker; the lines of a paragraph
that is a listing by its style must not have comments between them.
-/

namespace Asciidoc

open Text

/-- A block of lines that is searched as it was read. -/
structure Verbatim where
  /-- The line it is reported on. -/
  line : Int
  /-- Its lines. -/
  lines : List Text
  /-- The kind of node that they are to become. -/
  kind : Node.Kind Text
  /-- Whether the search for them passes comments by. -/
  skips : Bool

/-- The block of lines that a listing or a literal block between delimiters is. -/
def Element.verbatim? (s : Source) (marker : Text) : Element → Option Verbatim
  | .listing (some line) lines language =>
    some ⟨line, lines, .codeBlock language (unlines lines), false⟩
  | .literal (some line) lines =>
    if s.opensLiteral marker line then some ⟨line, lines, .paragraph, true⟩ else none
  | _ => none

/-- From the first column of the first of some lines to the end of the last. -/
def Location.ofLines? (lines : List Token) : Option Location :=
  match lines.head?, lines.getLast? with
  | some first, some last => some ⟨⟨first.line, 0⟩, ⟨last.line, last.text.length⟩⟩
  | _, _ => none

namespace Verbatim

/-- The lines of a text that a block was read from. -/
def content (v : Verbatim) (s : Source) (marker : Text) : List Token :=
  (s.verbatimLines marker v.line).take v.lines.length

/-- Nodes are a single one, on the lines that a block was read from. -/
def StandsAs (v : Verbatim) (s : Source) (marker : Text) (nodes : List (Node Text)) : Prop :=
  ∃ n, nodes = [n] ∧ n.kind = v.kind ∧ Location.ofLines? (v.content s marker) = some n.loc

/-- Between delimiters the lines of a block are not found from the delimiter on already, and none is
taken for a comment by a search that passes these by; without delimiters there is no comment among
as many lines as the block has. -/
def IsSafe (v : Verbatim) (s : Source) (marker : Text) : Prop :=
  if s.opensBlock marker v.line then
    ¬s.HoldsFrom v.line v.lines ∧
      (v.skips = true → ∀ text ∈ v.lines, marker.isPrefixOf text = false)
  else ∀ t ∈ (s.tokensFrom marker v.line).take v.lines.length, t.kind ≠ .comment

/-- What is said of a block of lines and the nodes that it becomes: its lines are those of the text
that it comes from, and it stands on these exactly if neither the line that it is reported on nor
comments get in the way. A listing between delimiters is found in any case. -/
structure Located (v : Verbatim) (s : Source) (marker : Text) (nodes : List (Node Text)) : Prop where
  /-- The lines. -/
  lines_eq : v.lines = (v.content s marker).map (·.text)
  /-- Where they are found. -/
  standsAs_iff : v.StandsAs s marker nodes ↔ v.IsSafe s marker
  /-- That they are found. -/
  exists_node : s.opensBlock marker v.line = true → v.skips = false →
    ∃ n, nodes = [n] ∧ n.kind = v.kind

end Verbatim

/-! ## Lines behind a line -/

namespace Source

variable {s : Source} {marker : Text} {t : Token} {rest : List Token} {line : Int}

/-- Behind a delimiter come the lines behind it. -/
theorem verbatimLines_of_opens (h : t :: rest <:+ s.tokens marker) (ht : t.opensBlock = true) :
    s.verbatimLines marker t.line
      = (s.numbered.drop (t.line + 1 - 1).toNat).map (Token.ofEntry marker) := by
  obtain ⟨hpos, hlines⟩ := numbered_of_suffix h
  have hdrop : (t.line + 1 - 1).toNat = (t.line - 1).toNat + 1 := by omega
  rw [verbatimLines, tokensFrom_of_suffix h]
  dsimp only
  rw [if_pos ht, hdrop, List.drop_add_one_eq_tail_drop, List.map_tail, ← hlines, List.tail_cons]

/-- Without a delimiter the lines are those that are no comments. -/
theorem verbatimLines_of_not_opens (h : t :: rest <:+ s.tokens marker)
    (ht : t.opensBlock = false) :
    s.verbatimLines marker t.line = ((s.numbered.drop (t.line - 1).toNat).filter
      fun entry => (Token.ofEntry marker entry).kind ≠ .comment).map (Token.ofEntry marker) := by
  obtain ⟨-, hlines⟩ := numbered_of_suffix h
  rw [verbatimLines, tokensFrom_of_suffix h]
  dsimp only
  rw [ht, if_neg Bool.false_ne_true, hlines, List.filter_map]
  rfl

end Source

theorem Location.ofLines?_entries {marker : Text} {entries : List (Int × Text)}
    {first last : Int × Text} (hfirst : entries.head? = some first)
    (hlast : entries.getLast? = some last) :
    Location.ofLines? (entries.map (Token.ofEntry marker))
      = some ⟨⟨first.1, 0⟩, ⟨last.1, (dropReturns last.2).length⟩⟩ := by
  rw [ofLines?, List.head?_map, hfirst, List.getLast?_map, hlast]
  rfl

/-! ## What the search answers -/

/-- As many items come first without those that are left out exactly if none of them is left out. -/
theorem take_filter_eq_iff {α : Type} {p : α → Bool} {xs : List α} {count : Nat} :
    (xs.filter p).take count = xs.take count ↔ ∀ x ∈ xs.take count, p x = true := by
  constructor
  · intro hsame x hx
    rw [← hsame] at hx
    exact (List.mem_filter.mp (List.mem_of_mem_take hx)).2
  · intro hall
    induction xs generalizing count with
    | nil => rfl
    | cons x rest ih =>
      cases count with
      | zero => rfl
      | succ count =>
        rw [List.take_succ_cons] at hall ⊢
        obtain ⟨hx, hrest⟩ := List.forall_mem_cons.mp hall
        rw [List.filter_cons_of_pos hx, List.take_succ_cons, ih hrest]

namespace Source

variable {s : Source} {marker : Text} {w : Window} {lines : List Text}

/-- Lines that are found where they stand are found from their first column to their end. -/
theorem ofLines?_of_found {entries : List (Int × Text)} {l : Location} (hne : entries ≠ [])
    (hlines : entries.map (fun entry => dropReturns entry.2) = lines)
    (hstart : StartsIn marker lines entries l.start) (hstop : EndsIn lines entries l.stop) :
    Location.ofLines? (entries.map (Token.ofEntry marker)) = some l := by
  have hfirst := List.head?_eq_some_head hne
  have hlast := List.getLast?_eq_some_getLast hne
  subst hlines
  rw [Location.ofLines?_entries hfirst hlast, eq_of_wholes hfirst hlast hstart hstop]

/-- The first and the last of lines that stand behind a line, and what is between. -/
theorem Stands.ends {line : Int} (h : s.Stands (line + 1) lines) (hline : 1 ≤ line)
    (hne : lines ≠ []) :
    ∃ first last, ((s.numbered.drop (line + 1 - 1).toNat).take lines.length).head? = some first ∧
      ((s.numbered.drop (line + 1 - 1).toNat).take lines.length).getLast? = some last ∧
      first.1 = line + 1 ∧ last.1 = line + lines.length ∧
      ∀ entry ∈ (s.numbered.drop (line + 1 - 1).toNat).take lines.length,
        entry ∈ s.numbered ∧ first.1 ≤ entry.1 ∧ entry.1 ≤ last.1 := by
  have hlength := congrArg List.length h
  rw [List.length_map] at hlength
  have hpos := List.length_pos_iff.mpr hne
  have hnumber (index : Nat) (entry : Int × Text)
      (hentry : ((s.numbered.drop (line + 1 - 1).toNat).take lines.length)[index]? = some entry) :
      entry.1 = line + 1 + index := by
    rw [List.getElem?_take] at hentry
    split at hentry
    · exact consecutive_numbered_drop s (by omega) index entry hentry
    · cases hentry
  have hmem (entry : Int × Text)
      (hentry : entry ∈ (s.numbered.drop (line + 1 - 1).toNat).take lines.length) :
      entry ∈ s.numbered := List.mem_of_mem_drop (List.mem_of_mem_take hentry)
  generalize (s.numbered.drop (line + 1 - 1).toNat).take lines.length = entries
    at hlength hnumber hmem
  have hfirst : entries[0]? = some entries[0] := List.getElem?_eq_getElem (by omega)
  have hlast : entries[entries.length - 1]? = some entries[entries.length - 1] :=
    List.getElem?_eq_getElem (by omega)
  have hfirstNumber := hnumber _ _ hfirst
  have hlastNumber := hnumber _ _ hlast
  refine ⟨_, _, List.head?_eq_getElem?.trans hfirst, List.getLast?_eq_getElem?.trans hlast,
    by omega, by omega, fun entry hentry => ⟨hmem entry hentry, ?_⟩⟩
  obtain ⟨index, hindex⟩ := List.mem_iff_getElem?.mp hentry
  have := hnumber index entry hindex
  have := (List.getElem?_eq_some_iff.mp hindex).1
  omega

/-- A line that pieces are taken from is no comment. -/
theorem kind_ne_comment_of_takes (hreturn : '\r' ∉ marker) {t : Token} {rest : List Token}
    (ht : t :: rest <:+ s.tokens marker) {pieces : List Text} {last : Int}
    (htakes : s.Takes marker t.line pieces last) : t.kind ≠ .comment := by
  intro hcomment
  obtain ⟨entry, hentry, hnumber⟩ := Option.map_eq_some_iff.mp htakes.first
  obtain ⟨hmem, hkept, -⟩ :=
    mem_numbered_of_mem_taken (numbered_of_suffix ht).1 (List.mem_of_head? hentry)
  obtain ⟨own, hown, rfl⟩ := List.mem_map.mp (ht.subset List.mem_cons_self)
  have hsame := s.numbers_numbered.line?_eq hown
  rw [Token.line_ofEntry] at hnumber
  rw [← hnumber, s.numbers_numbered.line?_eq hmem] at hsame
  obtain rfl : entry = own := Prod.ext hnumber (Option.some.inj hsame)
  rw [isKept_of_comment hreturn hcomment] at hkept
  cases hkept

/-- Lines behind a delimiter are found in place exactly if they are not found before and if none of
them is passed by. -/
theorem find?_behind (hreturn : '\r' ∉ marker) (hcolumn : w.startColumn = 0)
    (hline : 1 ≤ w.minLine) (hne : lines ≠ []) (hstands : s.Stands (w.minLine + 1) lines)
    (hopens : w.skipComments = true → s.opensLiteral marker w.minLine = true)
    (hmax : w.minLine + lines.length ≤ w.maxLine) :
    Location.ofLines? (((s.numbered.drop (w.minLine + 1 - 1).toNat).take lines.length).map
        (Token.ofEntry marker)) = s.find? marker lines w ↔
      ¬s.HoldsFrom w.minLine lines ∧
        (w.skipComments = true → ∀ text ∈ lines, marker.isPrefixOf text = false) := by
  have hholds : s.HoldsFrom (w.minLine + (1 : Nat)) lines := hstands.inLines
  have hentries : (s.numbered.drop (w.minLine + 1 - 1).toNat).take lines.length ≠ [] := by
    intro hnil
    rw [Stands, hnil] at hstands
    exact hne hstands.symm
  have hkept (hplain : w.skipComments = true → ∀ text ∈ lines, marker.isPrefixOf text = false)
      (index : Nat) (hindex : index ≤ 1) (hskip : w.skipComments = true) : ∀ entry ∈
        (s.numbered.drop (w.minLine - 1).toNat).take (index + lines.length),
          isKept marker entry = true := by
    intro entry hentry
    refine hstands.isKept hreturn hline (hopens hskip) (hplain hskip) entry ?_
    exact (List.take_sublist_take_left (by omega)).subset hentry
  constructor
  · intro hfound
    obtain ⟨first, last, hfirst, hlast, hlow, hhigh, hwithin⟩ := hstands.ends hline hne
    rw [Location.ofLines?_entries hfirst hlast] at hfound
    have hplain : w.skipComments = true → ∀ text ∈ lines, marker.isPrefixOf text = false := by
      intro hskip text htext
      rw [← hstands] at htext
      obtain ⟨entry, hentry, rfl⟩ := List.mem_map.mp htext
      obtain ⟨hmem, hfrom, hto⟩ := hwithin entry hentry
      have hentryKept := isKept_of_find? (by omega) hskip hfound.symm (by dsimp only; omega) hmem
        (by dsimp only; omega) (by dsimp only; omega)
      rw [isPrefixOf_dropReturns hreturn]
      simpa [isKept] using hentryKept
    refine ⟨fun hearly => ?_, hplain⟩
    have hkeptFirst := hkept hplain 0 (by omega)
    rw [Nat.zero_add] at hkeptFirst
    obtain ⟨l, hl, hstart, -⟩ :=
      find?_holds_first hcolumn hline hne hkeptFirst hearly (by omega)
    obtain rfl := Option.some.inj (hfound.trans hl)
    obtain ⟨_, entry, _, -, hentry, -, hstart⟩ := hstart
    have := congrArg Position.line hstart
    rw [List.head?_take, if_neg (by simpa using hne), List.head?_eq_getElem?] at hentry
    have := consecutive_numbered_drop s hline 0 entry hentry
    dsimp only at *
    omega
  · rintro ⟨hearly, hplain⟩
    have hbefore : ∀ i < 1, ¬s.HoldsFrom (w.minLine + (i : Nat)) lines := by
      intro i hi
      obtain rfl : i = 0 := by omega
      rwa [Int.natCast_zero, Int.add_zero]
    obtain ⟨l, hl, hstart, hstop⟩ := find?_holds hcolumn hline hne 1
      (hkept hplain 1 (Nat.le_refl _)) hholds hbefore (by omega)
    rw [hl]
    exact ofLines?_of_found hentries hstands hstart hstop

/-- The lines of a paragraph that are no comments are found in place exactly if there is no comment
between them, when comments are part of what is searched. -/
theorem find?_styled (hcolumn : w.startColumn = 0) (hskip : w.skipComments = false)
    (hline : 1 ≤ w.minLine) (hne : lines ≠ []) {p : Int × Text → Bool}
    (hlines : lines = (((s.numbered.drop (w.minLine - 1).toNat).filter p).take lines.length).map
      fun entry => dropReturns entry.2)
    (hfirst : (((s.numbered.drop (w.minLine - 1).toNat).filter p).take lines.length).head?.map
      Prod.fst = some w.minLine)
    (hmax : w.minLine + lines.length ≤ w.maxLine + 1) :
    Location.ofLines? ((((s.numbered.drop (w.minLine - 1).toNat).filter p).take
        lines.length).map (Token.ofEntry marker)) = s.find? marker lines w ↔
      ∀ entry ∈ (s.numbered.drop (w.minLine - 1).toNat).take lines.length, p entry = true := by
  have hlength := congrArg List.length hlines
  rw [List.length_map] at hlength
  have hentries : ((s.numbered.drop (w.minLine - 1).toNat).filter p).take lines.length ≠ [] := by
    intro hnil
    rw [hnil] at hfirst
    cases hfirst
  rw [← take_filter_eq_iff]
  constructor
  · intro hfound
    have hhead := List.head?_eq_some_head hentries
    have hlast := List.getLast?_eq_some_getLast hentries
    rw [Location.ofLines?_entries hhead hlast] at hfound
    rw [hhead] at hfirst
    have hrows := find?_rows (by omega) hskip hfound.symm
    have hnumbers := s.numbers_numbered.sublist (List.drop_sublist (w.minLine - 1).toNat _)
    refine (consecutive_numbered_drop s hline).take_filter hnumbers.growing hlength.symm
      fun entry hentry => ?_
    obtain rfl := Option.some.inj (hentry.symm.trans hlast)
    have := Option.some.inj hfirst
    dsimp only at hrows
    omega
  · intro hsame
    have hholds : s.HoldsFrom w.minLine lines := by
      rw [HoldsFrom, ← hsame]
      conv => arg 2; rw [hlines]
      rw [List.forall₂_map_left_iff]
      exact List.forall₂_same.mpr fun entry _ => (dropReturns_isPrefix entry.2).isInfix
    obtain ⟨l, hl, hstart, hstop⟩ := find?_holds_first hcolumn hline hne
      (fun h => by rw [hskip] at h; cases h) hholds (by omega)
    rw [← hsame] at hstart hstop
    rw [hl]
    exact ofLines?_of_found hentries hlines.symm hstart hstop

end Source

/-! ## What an element becomes -/

namespace Locating

variable {env : Locating} {marker : Text} {w : Window} {e : Element} {v : Verbatim}

/-- A block of lines becomes a node where it is found, and nothing if it is not. -/
theorem own_verbatim (hmarker : env.marker = .text marker)
    (hv : e.verbatim? env.source marker = some v) (hline : e.line = some w.minLine)
    (hnewline : ∀ text ∈ v.lines, '\n' ∉ text) (hne : v.lines ≠ []) (hw : w.IsWide) :
    v.line = w.minLine ∧
      match env.source.find? marker v.lines { w with skipComments := v.skips } with
      | none => env.own w e = []
      | some l => ∃ n, env.own w e = [n] ∧ n.kind = v.kind ∧ n.loc = l := by
  unfold Element.verbatim? at hv
  split at hv
  next line lines language =>
    obtain rfl := Option.some.inj hv
    refine ⟨Option.some.inj hline, ?_⟩
    have hown := find_eq hmarker "listing".toList (some line) lines { w with skipComments := false }
    rw [own, listing, hown]
    dsimp only
    cases hfound : env.source.find? marker lines { w with skipComments := false } with
    | none => rfl
    | some l =>
      obtain ⟨r, hr, -⟩ := (Source.find?_hasLocation hfound).range
      simp only [node?, hr, Option.map_some, Option.toList_some]
      exact ⟨_, rfl, rfl, rfl⟩
  next line lines =>
    split at hv
    next hopens =>
      obtain rfl := Option.some.inj hv
      refine ⟨Option.some.inj hline, ?_⟩
      have hown := find_eq hmarker "literal".toList (some line) lines w
      have hwhole : { w with skipComments := true } = w := by
        rw [← hw.skips]
      rw [own, convert, if_neg (by simpa using hne), paragraph, lines_unlines hne hnewline]
      dsimp only
      rw [hwhole]
      cases hfound : env.source.find? marker lines w with
      | none =>
        rw [hfound] at hown
        rw [textNode, hown]
      | some l =>
        rw [hfound] at hown
        obtain ⟨n, -, hnodes, hkind, hloc, -⟩ := exists_textNode_eq hown .paragraph (unlines lines)
        exact ⟨n, hnodes, hkind, hloc⟩
    next => cases hv
  next => cases hv

/-- A block of lines stands on some lines if it is found there. -/
theorem standsAs_iff {l? : Option Location}
    (hcontent : v.content env.source marker ≠ []) {nodes : List (Node Text)}
    (h : match l? with
      | none => nodes = []
      | some l => ∃ n, nodes = [n] ∧ n.kind = v.kind ∧ n.loc = l) :
    v.StandsAs env.source marker nodes ↔
      Location.ofLines? (v.content env.source marker) = l? := by
  cases l? with
  | none =>
    obtain rfl : nodes = [] := h
    refine iff_of_false (fun ⟨n, hn, _⟩ => by cases hn) fun hnone => ?_
    rw [Location.ofLines?, List.head?_eq_some_head hcontent,
      List.getLast?_eq_some_getLast hcontent] at hnone
    cases hnone
  | some l =>
    obtain ⟨n, rfl, hkind, rfl⟩ := h
    constructor
    · rintro ⟨m, hm, -, hloc⟩
      obtain rfl := List.singleton_inj.mp hm
      exact hloc
    · exact fun hloc => ⟨n, rfl, hkind, hloc⟩

/-- Lines between delimiters. -/
theorem located_behind (hmarker : env.marker = .text marker) (hreturn : '\r' ∉ marker) {t : Token}
    {rest : List Token} (ht : t :: rest <:+ env.source.tokens marker)
    (hv : e.verbatim? env.source marker = some v) (hline : e.line = some t.line)
    (hmin : t.line = w.minLine) (hw : w.IsWide) (hne : v.lines ≠ [])
    (hopens : env.source.opensBlock marker t.line = true)
    (hliteral : v.skips = true → env.source.opensLiteral marker t.line = true)
    (hstands : env.source.Stands (t.line + 1) v.lines)
    (hmax : t.line + v.lines.length ≤ w.maxLine) :
    v.Located env.source marker (env.own w e) := by
  obtain ⟨hpos, -⟩ := Source.numbered_of_suffix ht
  obtain ⟨hsame, hfound⟩ := own_verbatim hmarker hv (hline.trans (congrArg some hmin))
    hstands.not_mem hne hw
  rw [← hmin] at hsame
  have hopening : t.opensBlock = true :=
    (Source.opensBlock_of_mem (ht.subset List.mem_cons_self)).symm.trans hopens
  have hcontent : v.content env.source marker
      = ((env.source.numbered.drop (t.line + 1 - 1).toNat).take v.lines.length).map
          (Token.ofEntry marker) := by
    rw [Verbatim.content, hsame, Source.verbatimLines_of_opens ht hopening, List.map_take]
  have hlines : v.lines = (v.content env.source marker).map (·.text) := by
    conv => lhs; rw [← hstands]
    rw [hcontent, List.map_map]
    rfl
  have hsome : v.content env.source marker ≠ [] := by
    intro hnil
    rw [hnil] at hlines
    exact hne hlines
  have hbehind := Source.find?_behind (s := env.source) (w := { w with skipComments := v.skips })
    hreturn hw.whole (hmin ▸ hpos) hne (hmin ▸ hstands) (fun h => hmin ▸ hliteral h) (hmin ▸ hmax)
  dsimp only at hbehind
  rw [← hmin] at hbehind hfound
  refine ⟨hlines, ?_, fun _ hskip => ?_⟩
  · rw [standsAs_iff hsome hfound, hcontent, hbehind, Verbatim.IsSafe, hsame, if_pos hopens]
  · -- A listing is found on the delimiter or behind it.
    by_cases hsafe : env.source.HoldsFrom t.line v.lines
    · obtain ⟨l, hl, -⟩ := Source.find?_holds_first (w := { w with skipComments := v.skips })
        hw.whole (hmin ▸ hpos) hne (fun h => by rw [hskip] at h; cases h) (hmin ▸ hsafe)
        (by dsimp only; omega)
      rw [← hmin] at hl
      rw [hl] at hfound
      obtain ⟨n, hn, hkind, -⟩ := hfound
      exact ⟨n, hn, hkind⟩
    · have hsafe' := hbehind.mpr ⟨hsafe, fun h => by rw [hskip] at h; cases h⟩
      rw [← hcontent] at hsafe'
      obtain ⟨n, hn, hkind, -⟩ := (standsAs_iff hsome hfound).mpr hsafe'
      exact ⟨n, hn, hkind⟩

/-- The lines of a paragraph that is a listing by its style. -/
theorem located_styled (hmarker : env.marker = .text marker) (hreturn : '\r' ∉ marker) {t : Token}
    {rest : List Token} (ht : t :: rest <:+ env.source.tokens marker)
    (hv : e.verbatim? env.source marker = some v) (hline : e.line = some t.line)
    (hmin : t.line = w.minLine) (hw : w.IsWide) (hskip : v.skips = false)
    (hopens : env.source.opensBlock marker t.line = false)
    (hverbatim : env.source.IsVerbatim marker t.line v.lines) {last : Int}
    (htakes : env.source.Takes marker t.line v.lines last) (hmax : last ≤ w.maxLine) :
    v.Located env.source marker (env.own w e) := by
  obtain ⟨hpos, htokens⟩ := Source.numbered_of_suffix ht
  have hne := htakes.pieces_ne_nil
  obtain ⟨hsame, hfound⟩ := own_verbatim hmarker hv (hline.trans (congrArg some hmin))
    htakes.not_mem hne hw
  rw [← hmin] at hsame
  have hopening : t.opensBlock = false :=
    (Source.opensBlock_of_mem (ht.subset List.mem_cons_self)).symm.trans hopens
  have hcontent : v.content env.source marker
      = (((env.source.numbered.drop (t.line - 1).toNat).filter
          fun entry => (Token.ofEntry marker entry).kind ≠ .comment).take v.lines.length).map
            (Token.ofEntry marker) := by
    rw [Verbatim.content, hsame, Source.verbatimLines_of_not_opens ht hopening, List.map_take]
  have hlines : v.lines = (v.content env.source marker).map (·.text) := by
    rw [Verbatim.content, hsame]
    exact hverbatim
  have hsome : v.content env.source marker ≠ [] := by
    intro hnil
    rw [hnil] at hlines
    exact hne hlines
  have hfirst : (((env.source.numbered.drop (t.line - 1).toNat).filter
      fun entry => (Token.ofEntry marker entry).kind ≠ .comment).take v.lines.length).head?.map
        Prod.fst = some t.line := by
    obtain ⟨entry, more, hdrop, htoken, -⟩ := List.map_eq_cons_iff.mp htokens.symm
    have hnumber : entry.1 = t.line := by rw [← htoken, Token.line_ofEntry]
    have hkind := Source.kind_ne_comment_of_takes hreturn ht htakes
    rw [← htoken] at hkind
    rw [hdrop, List.filter_cons_of_pos (by simpa using hkind), List.head?_take,
      if_neg (by simpa using hne), List.head?_cons, Option.map_some, hnumber]
  have htexts : v.lines = (((env.source.numbered.drop (t.line - 1).toNat).filter
      fun entry => (Token.ofEntry marker entry).kind ≠ .comment).take v.lines.length).map
        fun entry => dropReturns entry.2 := by
    conv => lhs; rw [hlines, hcontent, List.map_map]
    rfl
  have hbounds := htakes.bounds
  rw [hmin] at htexts hfirst
  have hstyled := @Source.find?_styled env.source marker { w with skipComments := v.skips } v.lines
    hw.whole hskip (hmin ▸ hpos) hne _ htexts hfirst (by dsimp only; omega)
  dsimp only at hstyled
  rw [← hmin] at hstyled hfound
  refine ⟨hlines, ?_, fun h => by rw [hsame, hopens] at h; cases h⟩
  rw [standsAs_iff hsome hfound, hcontent, hstyled, Verbatim.IsSafe, hsame, hopens,
    if_neg Bool.false_ne_true, Source.tokensFrom, Source.tokens, ← List.map_drop, ← List.map_take,
    List.forall_mem_map]
  simp only [decide_eq_true_eq]

/-- A block of lines is located among what it becomes. -/
theorem Becomes.located {nodes : List (Node Text)} (hmarker : env.marker = .text marker)
    (hreturn : '\r' ∉ marker) (hbecomes : env.Becomes marker e nodes)
    (horigin : e.OriginIn env.source marker) (hv : e.verbatim? env.source marker = some v)
    (hne : v.lines ≠ []) : v.Located env.source marker nodes := by
  cases hbecomes with
  | document => cases hv
  | title => cases hv
  | @block _ w low high hw hline hspans hmax =>
    have hverbatim := hv
    unfold Element.verbatim? at hv
    split at hv
    next line lines language =>
      obtain rfl := Option.some.inj hv
      obtain ⟨t, hsame, htoken, hlines⟩ := horigin
      obtain rfl := Option.some.inj hsame
      obtain ⟨rest, ht⟩ := Source.suffix_of_token? htoken
      have hmin : t.line = w.minLine := Option.some.inj hline
      cases hspans with
      | listing hlow hhigh hopens hstands =>
        exact located_behind hmarker hreturn ht hverbatim rfl hmin hw hne hopens nofun hstands
          (by dsimp only; omega)
      | styledListing hlow hhigh hopens htakes =>
        exact located_styled hmarker hreturn ht hverbatim rfl hmin hw rfl hopens hlines htakes
          (by omega)
    next line lines =>
      split at hv
      next hliteral =>
        obtain rfl := Option.some.inj hv
        obtain ⟨t, hsame, htoken, -⟩ := horigin
        obtain rfl := Option.some.inj hsame
        obtain ⟨rest, ht⟩ := Source.suffix_of_token? htoken
        have hmin : t.line = w.minLine := Option.some.inj hline
        have hopens : env.source.opensBlock marker t.line = true := by
          rw [Source.opensLiteral_eq ht, decide_eq_true_eq] at hliteral
          rw [Source.opensBlock_of_mem (ht.subset List.mem_cons_self), Token.opensBlock, hliteral]
        cases hspans with
        | literal hlow hhigh hnot htakes =>
          rw [hopens] at hnot
          cases hnot
        | delimited hlow hhigh _ hstands =>
          exact located_behind hmarker hreturn ht hverbatim rfl hmin hw hne hopens
            (fun _ => hliteral) hstands (by dsimp only; omega)
      next => cases hv
    next => cases hv

end Locating

/-- Blocks of lines stand where they were read from, unless their delimiter or a comment gets in the
way. Whenever a text is read without a fault, under any rules that step over comments and any comment
marker without a carriage return, it is converted, and the outermost nodes of the tree fall into
those of each element outside cells: for a listing, and for a literal block between delimiters, they
are one node, from the first column of the first line that was read to the end of the last, exactly
if the block is safe. -/
theorem convert_verbatim_iff {rules : Rules} {marker t : Text} (hskip : rules.skipComments = true)
    (hmarker : rules.marker = .text marker) (hreturn : '\r' ∉ marker) {root : Element}
    (hread : (Element.ofText rules.reading rules.marker t).document = .ok root) :
    ∃ (tree : Node Text) (found : List (List (Node Text))),
      (Conversion.ofText rules t).result = .ok tree ∧ found.flatten.Perm tree.outermost ∧
        List.Forall₂ (fun e nodes => ∀ v, e.verbatim? (Source.ofText t) marker = some v →
          v.lines ≠ [] → v.Located (Source.ofText t) marker nodes) root.outside found := by
  obtain ⟨tree, found, hresult, hfound, hbecomes, horigin⟩ :=
    Conversion.accounts_ofText hskip hmarker hreturn hread
  refine ⟨tree, found, hresult, hfound, ?_⟩
  have hboth := (List.forall₂_and_left root.outside found).mpr ⟨horigin, hbecomes⟩
  refine hboth.imp fun e nodes h v hv hne => ?_
  exact h.2.located hmarker hreturn h.1 hv hne

/-- A listing of a short rule is found in its delimiter. -/
theorem convert_verbatim_on_delimiter :
    let t := "----\n--\n----".toList
    ∃ (tree n : Node Text), (Conversion.ofText {} t).result = .ok tree ∧ n ∈ tree.outermost ∧
      n.kind = .codeBlock none "--".toList ∧ n.loc ≠ ⟨⟨2, 0⟩, ⟨2, 2⟩⟩ := by
  intro t
  have hread : (Element.ofText (Rules.reading {}) (Rules.marker {}) t).document
      = .ok (.document (some 1) none [.listing (some 1) ["--".toList] none] [] t) := by
    with_unfolding_all rfl
  obtain ⟨tree, found, hresult, hfound, hlocated⟩ :=
    convert_verbatim_iff rfl rfl (by decide) hread
  have houtside :
      (Element.document (some 1) none [.listing (some 1) ["--".toList] none] [] t).outside
        = [.document (some 1) none [.listing (some 1) ["--".toList] none] [] t,
            .listing (some 1) ["--".toList] none] := by
    rw [Element.outside_of_not_isTable rfl, Element.parts, List.flatMap_singleton,
      Element.outside_of_not_isTable rfl]
    rfl
  rw [houtside] at hlocated
  obtain ⟨_, _, -, hrest, rfl⟩ := List.forall₂_cons_left_iff.mp hlocated
  obtain ⟨nodes, _, hlisting, -, rfl⟩ := List.forall₂_cons_left_iff.mp hrest
  have hlisting := hlisting _ rfl (List.cons_ne_nil _ _)
  obtain ⟨n, hn, hkind⟩ := hlisting.exists_node (by with_unfolding_all rfl) rfl
  have hmem : n ∈ tree.outermost := by
    refine hfound.subset ?_
    simp [hn]
  refine ⟨tree, n, hresult, hmem, hkind, fun hloc => ?_⟩
  have hsafe := hlisting.standsAs_iff.mp ⟨n, hn, hkind, by rw [hloc]; with_unfolding_all rfl⟩
  rw [Verbatim.IsSafe, if_pos (by with_unfolding_all rfl)] at hsafe
  exact hsafe.1 (by with_unfolding_all decide)

end Asciidoc
