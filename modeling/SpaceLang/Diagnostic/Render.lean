import SpaceLang.Diagnostic.Basic
import SpaceLang.Source.Line
import SpaceLang.Unicode.WhiteSpace

/-!
# Drawing a diagnostic

A diagnostic is drawn in five lines: the message with its tip, the name of the file, a bar, the line
at fault with its number, and a bar with an arrow that ends under the column at fault. The bars
stand one below the other. The line at fault is shown without the spaces that it begins with and the
white space that it ends with, and the arrow is shorter by the spaces left out, but at least its
tip.

```text
Error: SyntaxError (Expected class name, found `{` at line 2, column 9)
-> main.sp
  |
2 | class { }
  | ------^
```
-/

namespace SpaceLang.Diagnostic

/-- The file name of a source that comes from none. -/
def defaultFile : String := "shell"

/-- The number of spaces that a line begins with. Other white space is not counted. -/
def indent (line : List Char) : Nat :=
  (line.takeWhile (· = ' ')).length

/-- A line without the white space at its end. -/
def trimEnd (line : List Char) : List Char :=
  (line.reverse.dropWhile Unicode.isWhiteSpace).reverse

/-- The first line: kind, message, place and tip. -/
def headline (d : Diagnostic) : String :=
  let tip := match d.cause.tip? with
    | some tip => "; " ++ tip
    | none => ""
  "Error: " ++ d.cause.kind.name ++ " (" ++ d.display ++ tip ++ ")"

/-- The bar, to the right of `width - 1` spaces. -/
def bar (width : Nat) : String :=
  String.ofList (List.replicate (width - 1) ' ') ++ "|"

/-- The arrow, of `length` characters, at least one. -/
def arrow (length : Nat) : String :=
  String.ofList (List.replicate (length - 1) '-') ++ "^"

/-- A diagnostic on `source` as drawn for a reader. -/
def render (d : Diagnostic) (source : String) (file : Option String) : String :=
  let line := Line.ofPosition source d.position
  let number := toString line.number
  let width := number.length + 2
  let text := line.text.toList
  let removed := indent text
  "\n".intercalate
    [ headline d,
      "-> " ++ file.getD defaultFile,
      bar width,
      number ++ " | " ++ String.ofList (trimEnd (text.drop removed)),
      bar width ++ " " ++ arrow (line.column - removed) ]

end SpaceLang.Diagnostic
