import Asciidoc.Text.Basic

/-!
# Paths

A path is what it hangs on, which is nothing for a relative path, and the names on the way. Empty
names and single dots are no names. Two dots are kept, since where they lead is up to the files.
-/

namespace Asciidoc

open Text

/-- A path of files. -/
structure Path where
  /-- What an absolute path starts with; empty for a relative path. -/
  anchor : Text
  /-- The names on the way. -/
  parts : List Text
deriving DecidableEq, Repr

namespace Path

/-- The names of a path that is written out. -/
def partsOf (t : Text) : List Text :=
  (split '/' t).filter fun part => !part.isEmpty && part ≠ ['.']

/-- A path that is written out. Two slashes at the start are kept apart from one and from more
than two. -/
def ofText (t : Text) : Path :=
  let slashes := (t.takeWhile (· == '/')).length
  ⟨if slashes = 0 then [] else if slashes = 2 then ['/', '/'] else ['/'], partsOf t⟩

/-- A path written out. -/
def shown (p : Path) : Text :=
  if p.anchor.isEmpty && p.parts.isEmpty then ['.'] else p.anchor ++ join ['/'] p.parts

/-- The last name of a path. -/
def name (p : Path) : Text := p.parts.getLast?.getD []

/-- The part of a name from its last dot on, if there is something on both sides of the dot. -/
def suffix (p : Path) : Text :=
  let ending := (p.name.reverse.takeWhile (· ≠ '.')).reverse
  if ending.isEmpty || p.name.length ≤ ending.length + 1 then [] else '.' :: ending

/-- The path of a name in a directory. -/
def child (p : Path) (name : Text) : Path := { p with parts := p.parts ++ [name] }

/-- A directory and those above it, the nearest first. -/
def upToRoot (p : Path) : List Path :=
  (List.range (p.parts.length + 1)).map fun up =>
    { p with parts := p.parts.take (p.parts.length - up) }

end Path

end Asciidoc
