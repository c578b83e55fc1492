import Asciidoc.Conversion

/-!
# The processor of a linting host

A host hands over the text of a file and later its messages about it. The text becomes a tree,
and the messages get the path of the file. A file without a path goes by a placeholder.
-/

namespace Asciidoc.Processor

/-- The file name extensions the processor is for. -/
def extensions : List String := [".adoc", ".asciidoc", ".asc", ".asciidoctor"]

/-- The path of a file that has none. -/
def placeholder : Text := "<asciidoc>".toList

/-- A path, or the placeholder for none. -/
def shownPath : Option Text → Text
  | some (c :: path) => c :: path
  | _ => placeholder

/-- Converts the text of a file. -/
def before (s : Settings) (t : Text) (path : Option Text) : Conversion (Node Text) :=
  let converted := Conversion.ofText s.rules t
  { converted with
    log := ⟨.debug, .processor, "Converting ".toList ++ shownPath path⟩ :: converted.log }

/-- The host's messages with the path of the file. -/
def after (messages : Json) (path : Option Text) : Json :=
  .table [("messages".toList, messages), ("filePath".toList, .string (shownPath path))]

end Asciidoc.Processor
