import Asciidoc.Proofs.Node.Shown
import Asciidoc.Proofs.Reading.FromText

/-!
# When a text is refused

Under a comment marker that is a text, a conversion comes to a document or is refused for what is
in the text, and which of the two depends on two kinds of lines alone (`convert_document_iff`).
There is such content: positional values behind an entry that has put a text in their place, and
numbers of columns with more digits than are read.
-/

namespace Asciidoc

open Text

/-! ## Documents -/

/-- Reading a document from a place on takes clean steps alone. -/
def Cursor.ReadsCleanly (c : Cursor) (env : Reading) : Prop :=
  env.Reads Token.IsClean (.blocks false (-1) none) c.header.2
    (env.blocks false (-1) none c.header.2).value (env.blocks false (-1) none c.header.2).cursor

/-- A document that is read from a place without faults has one exactly if a step of reading it
is not clean, and it is one that content can have. -/
theorem Cursor.readDocument_fault? {c : Cursor} (hc : c.faults = []) (env : Reading)
    (source : Text) :
    ((c.readDocument env true source).2.fault? = none ↔ c.ReadsCleanly env) ∧
      ∀ fault place, (c.readDocument env true source).2.fault? = some (fault, place) →
        fault = .positionalText ∨ fault = .numeralTooLong := by
  have hheader : c.header.2.faults = [] := (congrArg faultsIn c.header_keeps.2.2).trans hc
  obtain ⟨more, hmore, hmarker, -, hclean⟩ : Adds _ _ False (c.ReadsCleanly env) :=
    (env.blocks_reads false (-1) none c.header.2).adds False.elim
  have hlast : (c.readDocument env true source).2.faults = more := by
    rw [hheader, List.nil_append] at hmore
    exact hmore
  have hfirst := (c.readDocument env true source).2.fault?_eq
  rw [hlast] at hfirst
  refine ⟨⟨fun hnone => hclean ?_, fun hreads => ?_⟩, fun fault place hfault => ?_⟩
  · rw [hnone] at hfirst
    exact List.head?_eq_none_iff.mp hfirst.symm
  · obtain ⟨others, hothers, -, hnone, -⟩ : Adds _ _ True _ :=
      Reading.Reads.adds hreads fun _ _ _ => id
    rw [hnone trivial, List.append_nil, hheader] at hothers
    obtain rfl : more = [] := hlast.symm.trans hothers
    exact Option.map_eq_none_iff.mp hfirst
  · rw [hfault] at hfirst
    have hmem : fault ∈ more := List.mem_of_head? hfirst.symm
    cases fault with
    | markerNotText => exact absurd hmem hmarker
    | positionalText => exact .inl rfl
    | numeralTooLong => exact .inr rfl

/-! ## Trees -/

/-- What becomes of an element that is converted as a document is a document. -/
theorem Locating.kind_document (env : Locating) (skipComments : Bool) (e : Element) :
    (env.document skipComments e).1.kind = .document := by
  rw [document]
  dsimp only
  split
  · split
    · rename_i n _ _ h
      cases hkind : n.kind <;> simp [hkind, Node.Kind.isDocument] at h ⊢
    · rfl
  · rfl

/-- A text with a fault is refused on account of it. -/
theorem Conversion.result_ofText_error {rules : Rules} {t : Text} {fault : Fault}
    (hread : (Element.ofText rules.reading rules.marker t).document = .error fault) :
    (Conversion.ofText rules t).result = .error (.fault fault) := by
  rw [Conversion.ofText, hread]

/-- A text is converted to a document exactly if reading it takes clean steps alone: no line
gives positional values to a block for which, on that line or before, an entry has put a text in
their place, and no number of columns has more digits than are read. Otherwise it is refused for
one of the two. So no text is refused that has neither the key of the positional values in it nor
a run of digits of that length. -/
theorem convert_document_iff (rules : Rules) (marker t : Text)
    (hmarker : rules.marker = .text marker) :
    ((∃ tree, (Conversion.ofText rules t).result = .ok tree ∧ tree.kind = .document) ↔
      ((Source.ofText t).start marker).ReadsCleanly ⟨rules.reading, marker⟩) ∧
    (∀ refusal, (Conversion.ofText rules t).result = .error refusal →
      refusal = .fault .positionalText ∨ refusal = .fault .numeralTooLong) ∧
    (t.IsHarmless → ∃ tree, (Conversion.ofText rules t).result = .ok tree ∧
      tree.kind = .document) := by
  have hstart : ((Source.ofText t).start marker).faults = [] := rfl
  obtain ⟨hclean, hcontent⟩ := Cursor.readDocument_fault? hstart ⟨rules.reading, marker⟩ t
  have hread := Element.document_ofText rules.reading marker t
  rw [← hmarker] at hread
  dsimp only at hread
  have hharmless (ht : t.IsHarmless) :
      ((Source.ofText t).start marker).ReadsCleanly ⟨rules.reading, marker⟩ :=
    Reading.Reads.isClean (Reading.blocks_reads _ _ _ _ _) ht nofun
      (Source.start_isFrom marker t).header
  cases hfault : (((Source.ofText t).start marker).readDocument ⟨rules.reading, marker⟩
      true t).2.fault? with
  | none =>
    rw [hfault] at hread
    have hresult := Conversion.result_ofText hmarker hread
    have htree : ∃ tree, (Conversion.ofText rules t).result = .ok tree ∧ tree.kind = .document :=
      ⟨_, hresult, Locating.kind_document _ _ _⟩
    refine ⟨iff_of_true htree (hclean.mp hfault), fun refusal hrefusal => ?_, fun _ => htree⟩
    rw [hresult] at hrefusal
    cases hrefusal
  | some met =>
    obtain ⟨fault, place⟩ := met
    rw [hfault] at hread hclean
    have hresult := Conversion.result_ofText_error hread
    have hunclean : ¬((Source.ofText t).start marker).ReadsCleanly ⟨rules.reading, marker⟩ :=
      fun h => nomatch hclean.mpr h
    refine ⟨iff_of_false ?_ hunclean, fun refusal hrefusal => ?_, fun ht => ?_⟩
    · rintro ⟨tree, htree, -⟩
      rw [hresult] at htree
      cases htree
    · rw [hresult] at hrefusal
      obtain rfl := Except.error.inj hrefusal
      exact (hcontent fault place hfault).imp (congrArg _) (congrArg _)
    · exact absurd (hharmless ht) hunclean

/-- Both on one line: the entry and a value behind it. -/
theorem convert_refuses_positional :
    (Conversion.ofText {} "[positional=x,b]\ntext".toList).result
        = .error (.fault .positionalText) ∧
      ¬((Source.ofText "[positional=x,b]\ntext".toList).start Marker.slashes).ReadsCleanly
        ⟨{}, Marker.slashes⟩ := by
  have hresult : (Conversion.ofText {} "[positional=x,b]\ntext".toList).result
      = .error (.fault .positionalText) := by
    with_unfolding_all rfl
  refine ⟨hresult, fun h => ?_⟩
  obtain ⟨tree, htree, -⟩ := (convert_document_iff {} Marker.slashes _ rfl).1.mpr h
  rw [hresult] at htree
  cases htree

end Asciidoc
