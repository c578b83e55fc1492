import Asciidoc.Proofs.Command.Isolated
import Asciidoc.Proofs.Node.InOrder
import Asciidoc.Proofs.Text.LineEnds

/-!
# Spans in files

The command reads its files as lines, and what it prints of a file are spans of what is read: the
source text of a node is read of the piece of the file between the offsets that its range has there
(`Command.run_spans_in_file`). These are the numbers of the range exactly if no carriage return with
a line feed behind it begins before its end, and then the file has the source text there exactly if
no carriage return stands in it.
-/

namespace Asciidoc

open Text

/-- The source text of a node stands in the text between two offsets. -/
theorem Conversion.raw_of_ofText {rules : Rules} {t raw : Text} {root n : Node Text}
    (h : (Conversion.ofText rules t).result = .ok root) (hn : n ∈ root.preorder)
    (hraw : n.raw = some raw) :
    ∃ start stop : Nat, n.range = ⟨start, stop⟩ ∧ raw = slice t start stop := by
  rcases placed_of_ofText h hn with rfl | hplaced
  · obtain rfl : [] = raw := Option.some.inj hraw
    exact ⟨0, 0, rfl, (slice_natCast_of_le t (Nat.le_refl 0)).symm⟩
  · obtain ⟨hstart, -, hstop, -⟩ := hplaced.range_bounds
    obtain ⟨start, hstart⟩ := Int.eq_ofNat_of_zero_le hstart
    obtain ⟨stop, hstop⟩ := Int.eq_ofNat_of_zero_le hstop
    have hslice := hplaced.raw_eq
    rw [hraw] at hslice
    split at hslice
    · cases hslice
    · refine ⟨start, stop, ?_, ?_⟩
      · rw [← hstart, ← hstop]
      · rw [Option.some.inj hslice, Source.slice, hstart, hstop]
        rfl

namespace Command

/-- What a run in the interchange format prints of a file is a tree, whose spans are those of what
is read of the file as lines. For each node with a source text, this text is read of the piece of
the file between the offsets that the range has there; these are the numbers of the range exactly if
no carriage return with a line feed behind it begins before its end. The file has the source text
between the numbers of the range only if no carriage return stands there, and does so if they are
the offsets. -/
theorem run_spans_in_file {around : Surroundings} {words : List Text} {a : Arguments}
    {r : Reporting} {s : Settings} {session : Session} (hwords : Arguments.parse words = .ok a)
    (h : Starts around a r s session) (hformat : a.format = .interchange) {code : Nat}
    (hending : (run around words).ending = .code code) {x : Input}
    (hx : x ∈ met s.rules r session a.inputs) (hpath : x.path ≠ standardInput)
    {bytes : ByteArray} {content : Text}
    (hentry : x.session.files.entry (Path.ofText x.path) = .file bytes)
    (hcontent : Utf8.decode? bytes = some content) :
    ∃ documents root, (run around words).session.out = printed a.indent documents ∧
      (x.path, root) ∈ documents ∧
      (Conversion.ofText s.rules (Utf8.lineFeeds content)).result = .ok root ∧
      ∀ n ∈ root.preorder, ∀ raw, n.raw = some raw →
        ∃ start stop : Nat, n.range = ⟨start, stop⟩ ∧
          raw = Utf8.lineFeeds
            (slice content (Utf8.fileOffset content start) (Utf8.fileOffset content stop)) ∧
          ((Utf8.fileOffset content start = start ∧ Utf8.fileOffset content stop = stop) ↔
            Utf8.KeepsOffset content (max start stop)) ∧
          (raw = slice content start stop → '\r' ∉ slice content start stop) ∧
          (Utf8.KeepsOffset content (max start stop) → '\r' ∉ slice content start stop →
            raw = slice content start stop) := by
  rw [run_of_parse hwords] at hending ⊢
  have hseen := h.converts_of_run hformat hending
  obtain ⟨-, hout⟩ := h.run_interchange hformat (fun x hx => (hseen x hx).1)
    fun x hx => (hseen x hx).2
  have htext : x.text = .ok (Utf8.lineFeeds content) := by
    rw [Input.text_eq_textAt hpath]
    exact textAt_of_entry hentry (by rw [Utf8.lines?, hcontent, Option.map_some])
  obtain ⟨root, hroot⟩ := (hseen x hx).2 _ htext
  obtain ⟨-, hdocument⟩ := Input.document?_of_ok htext hroot
  rw [shownInput, if_neg hpath] at hdocument
  refine ⟨_, root, hout, List.mem_filterMap.mpr ⟨x, hx, hdocument⟩, hroot, fun n hn raw hraw => ?_⟩
  obtain ⟨start, stop, hrange, rfl⟩ := Conversion.raw_of_ofText hroot hn hraw
  refine ⟨start, stop, hrange, Utf8.slice_lineFeeds content start stop,
    Utf8.fileOffset_eq_self_both_iff content start stop, fun hsame => ?_,
    fun hkeeps hreturn => Utf8.slice_lineFeeds_eq_slice hkeeps hreturn⟩
  rw [← hsame]
  exact Utf8.return_notMem_slice_lineFeeds content start stop

/-- A directory with one file, whose first line end is a carriage return with a line feed. -/
def returnedFile : Surroundings where
  formats := .plain
  files := ⟨['/'], ["w".toList], [(["w".toList, "g".toList], .file "\r\na".toUTF8)]⟩
  home := ⟨['/'], ["h".toList]⟩
  configuration := none
  input := []
  time := []

/-- The span of the second line is one too early in the file. -/
theorem run_spans_in_file_second :
    ∃ documents root,
      (run returnedFile ["g".toList, "--no-config".toList]).session.out = printed 2 documents ∧
        ("g".toList, root) ∈ documents ∧ root.range = ⟨1, 2⟩ ∧ root.raw = some ['a'] ∧
        slice "\r\na".toList 1 2 = ['\n'] ∧
        ['a'] = Utf8.lineFeeds (slice "\r\na".toList (Utf8.fileOffset "\r\na".toList 1)
          (Utf8.fileOffset "\r\na".toList 2)) := by
  have hwords : Arguments.parse ["g".toList, "--no-config".toList]
      = .ok { inputs := ["g".toList], noConfig := true } := by decide +kernel
  have hstarts : Starts returnedFile { inputs := ["g".toList], noConfig := true }
      ⟨.warning, none, none⟩ {} ⟨returnedFile.files, [], [], []⟩ := ⟨rfl, rfl⟩
  have hending : (run returnedFile ["g".toList, "--no-config".toList]).ending
      = .code exitSuccess := by with_unfolding_all rfl
  have hentry : returnedFile.files.entry (Path.ofText "g".toList) = .file "\r\na".toUTF8 := rfl
  have hcontent : Utf8.decode? "\r\na".toUTF8 = some "\r\na".toList := by rfl
  have hconverted : (Conversion.ofText {} "\na".toList).result
      = .ok (.mk .document ⟨⟨2, 0⟩, ⟨2, 1⟩⟩ ⟨1, 2⟩ (some ['a']) [
          .mk .paragraph ⟨⟨2, 0⟩, ⟨2, 1⟩⟩ ⟨1, 2⟩ (some ['a']) [
            .mk (.str ['a']) ⟨⟨2, 0⟩, ⟨2, 1⟩⟩ ⟨1, 2⟩ (some ['a']) []]]) := by
    with_unfolding_all rfl
  obtain ⟨documents, root, hout, hmem, hroot, hspans⟩ :=
    run_spans_in_file hwords hstarts rfl hending
      (x := ⟨"g".toList, ⟨returnedFile.files, [], [], []⟩⟩) List.mem_cons_self (by decide) hentry hcontent
  obtain rfl := Except.ok.inj (hconverted.symm.trans hroot)
  obtain ⟨start, stop, hrange, hread, -⟩ := hspans _ (Node.mem_preorder_self _) ['a'] rfl
  obtain ⟨hstart, hstop⟩ : (1 : Int) = start ∧ (2 : Int) = stop := Range.mk.inj hrange
  obtain ⟨rfl, rfl⟩ : 1 = start ∧ 2 = stop := ⟨by omega, by omega⟩
  exact ⟨documents, _, hout, hmem, rfl, rfl, rfl, hread⟩

end Command

end Asciidoc
