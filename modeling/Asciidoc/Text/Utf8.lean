import Asciidoc.Text.Basic

/-!
# Text in files

The bytes of a file are UTF-8. In a file that is read as lines, a carriage return with the line
feed behind it, or one that stands alone, counts as a line feed.
-/

namespace Asciidoc.Text.Utf8

/-- The text that bytes encode, if they do. -/
def decode? (bytes : ByteArray) : Option Text := bytes.utf8Decode?.map Array.toList

/-- The number of bytes that encode a text. -/
def size : Text → Nat
  | [] => 0
  | c :: rest => c.utf8Size + size rest

/-- A text with line feeds for its other line ends. -/
def lineFeeds : Text → Text
  | [] => []
  | ['\r'] => ['\n']
  | '\r' :: c :: rest =>
    if c = '\n' then '\n' :: lineFeeds rest else '\n' :: lineFeeds (c :: rest)
  | c :: rest => c :: lineFeeds rest

/-- The text that bytes encode, with line feeds for its other line ends. -/
def lines? (bytes : ByteArray) : Option Text := (decode? bytes).map lineFeeds

/-- A text without carriage returns has no other line ends. -/
theorem lineFeeds_eq_self {t : Text} (h : '\r' ∉ t) : lineFeeds t = t := by
  induction t with
  | nil => rfl
  | cons c rest ih =>
    have hc : c ≠ '\r' := fun hc => h (hc ▸ List.mem_cons_self ..)
    have hrest : '\r' ∉ rest := fun hr => h (List.mem_cons_of_mem _ hr)
    unfold lineFeeds
    split <;> simp_all

end Asciidoc.Text.Utf8
