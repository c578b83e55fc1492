import Asciidoc.Proofs.Reading.Every

/-!
# Sections that are read have a level

The level of a section that is read is the number of signs that begin its title line, less one,
so the depth of its title is at least one. This holds of all sections inside an element at any
depth, those in table cells too.
-/

namespace Asciidoc

/-- Whether all sections in an element have titles with a depth. -/
def Element.HasLevels (e : Element) : Prop := e.Every (Element.TitledBy fun depth => 1 ≤ depth)

/-- All sections of a document that is read have a level. -/
theorem Cursor.readDocument_hasLevels (c : Cursor) (env : Reading) (allowHeader : Bool)
    (source : Text) : (c.readDocument env allowHeader source).1.HasLevels :=
  c.readDocument_every env allowHeader source (fun _ _ h => h) fun _ _ => by
    obtain ⟨headerRows, bodyRows, left, htable, -⟩ := Cursor.tableAt_eq _ env _ _
    rw [htable]
    trivial

end Asciidoc
