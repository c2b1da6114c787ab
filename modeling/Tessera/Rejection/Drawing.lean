/-
**Drawings of rejections.**

A drawing shows the lines of the content that the range of a rejection touches, with the range
underlined and what was expected written beside it.  A range within one line is underlined; a range
over several lines is followed along the left side.

```text
error: content does not match #3        error: content does not match #0
  |                                       |
1 | <a>12x</a>                          1 |   <a>
  |      ^^^^^ expected /[0-9]+/          |  ____^
                                        2 | | </a>
                                          | |____^ expected /[0-9]+/
```

The lines are cut where the underlined range begins and ends, so there is a drawing only when these
offsets lie between characters.

Main definitions:

* `Tessera.SourceLine` — the lines of a content;
* `Tessera.Rejection.markedSpan` — the range that is underlined;
* `Tessera.Rejection.IsDrawable` — that range can be cut out;
* `Tessera.Rejection.draw` — the drawing.
-/

import Tessera.Rejection
import Tessera.Rejection.Canvas
import Tessera.Text.Parts
import Tessera.Unicode.Property

set_option autoImplicit false

namespace Tessera

/-! ### Lines of a content -/

/-- A line of a content: its number, its text without the line break, and the offsets where it
begins and where the line after it begins. -/
structure SourceLine where
  number : Nat
  text : Text
  start : Nat
  stop : Nat

/-- A text without the carriage return at its end. -/
def dropReturn (text : Text) : Text :=
  if text.getLast? = some '\r' then text.dropLast else text

/-- The lines of a content.  `line` was read of the current one, latest character first. -/
def sourceLines (number start : Nat) (line : Text) : Text → List SourceLine
  | [] => if line.isEmpty then [] else [⟨number, line.reverse, start, start + byteLength line⟩]
  | '\n' :: rest =>
      let stop := start + byteLength line + 1
      ⟨number, dropReturn line.reverse, start, stop⟩ :: sourceLines (number + 1) stop [] rest
  | c :: rest => sourceLines number start (c :: line) rest

/-- The lines of a content; the empty content is one empty line. -/
def linesOf (content : Text) : List SourceLine :=
  match sourceLines 1 0 [] content with
  | [] => [⟨1, [], 0, 0⟩]
  | lines => lines

/-- The line that an offset lies on; offsets past the end lie on the last line. -/
def lineAt (lines : List SourceLine) (offset : Nat) : SourceLine :=
  ((lines.find? fun l => decide (l.start ≤ offset) && decide (offset < l.stop)).or
    lines.getLast?).getD ⟨1, [], 0, 0⟩

/-! ### Characters as they are shown -/

/-- The characters that are shown for a character: a tabulator is four blanks, controls other than
the line feed have pictures, joiners vanish, and marks of writing direction are replaced. -/
def shownChar (c : Char) : Text :=
  let n := c.toNat
  if c = '\n' then ['\n']
  else if c = '\t' then [' ', ' ', ' ', ' ']
  else if n < 0x20 then [Char.ofNat (0x2400 + n)]
  else if n = 0x7F then [Char.ofNat 0x2421]
  else if n = 0x200D then []
  else if (0x202A ≤ n && n ≤ 0x202E) || (0x2066 ≤ n && n ≤ 0x2069) then [Char.ofNat 0xFFFD]
  else [c]

/-- The columns that a character of the source takes. -/
def shownWidth (c : Char) : Nat := ((shownChar c).map columnWidth).foldl (· + ·) 0

/-- The column of an offset on its line. -/
def columnOf (line : SourceLine) (offset : Nat) : Nat :=
  ((takeBytes (offset - line.start) line.text).map shownWidth).foldl (· + ·) 0

/-! ### Rows -/

/-- Where the parts of a row stand. -/
structure Layout where
  /-- The columns that line numbers take. -/
  numberWidth : Nat
  /-- Whether a line runs along the left side of the source text. -/
  sideLine : Bool

namespace Layout

/-- The column of the bar beside the source text. -/
def bar (l : Layout) : Nat := l.numberWidth + 1

/-- The column of the line along the left side. -/
def side (l : Layout) : Nat := l.numberWidth + 3

/-- The column where the source text begins. -/
def code (l : Layout) : Nat := if l.sideLine then l.side + 2 else l.side

/-- A row with the bar alone. -/
def empty (l : Layout) : Row := Row.place [] l.bar .frame ['|']

/-- A row with a line of the source, its number, and a mark at its left side. -/
def source (l : Layout) (line : SourceLine) (mark : Option Char) : Row :=
  let row := Row.place [] 0 .frame (Nat.toDigits 10 line.number)
  let row := row.place l.bar .frame ['|']
  let row := match mark with
    | some c => row.place l.side .fault [c]
    | none => row
  let shown := line.text.flatMap shownChar
  if shown.isEmpty then row else row.place l.code .plain shown

/-- A row that stands for lines that are left out. -/
def elided (l : Layout) : Row :=
  (Row.place [] 0 .frame ['.', '.', '.']).place l.side .fault ['|']

/-- A text beside an underline that ends before the column `stop` of the source text. -/
def labelled (l : Layout) (row : Row) (stop : Nat) (label : Text) : Row :=
  row.place (l.code + (if stop = 0 then 2 else stop + 1)) .fault label

/-- The row below a line with a range that lies on it. -/
def underline (l : Layout) (start stop : Nat) (label : Text) : Row :=
  let row := l.empty.place (l.code + start) .fault (List.replicate (stop - start) '^')
  l.labelled row stop label

/-- The row below the first line of a range over several lines. -/
def opening (l : Layout) (start : Nat) : Row :=
  let row := l.empty.place (l.side + 1) .fault (List.replicate (l.code + start - (l.side + 1)) '_')
  row.place (l.code + start) .fault ['^']

/-- The row below the last line of a range over several lines. -/
def closing (l : Layout) (stop : Nat) (label : Text) : Row :=
  let last := stop - 1
  let row := l.empty.place l.side .fault ['|']
  let row := row.place (l.side + 1) .fault (List.replicate (l.code + last - (l.side + 1)) '_')
  l.labelled (row.place (l.code + last) .fault ['^']) stop label

end Layout

/-! ### Ranges over several lines -/

/-- Whether a line is worth showing in the middle of a range: it is not blank, not a lone bracket
and not a comment. -/
def isTelling (line : SourceLine) : Bool :=
  let text := ((line.text.dropWhile isWhiteSpace).reverse.dropWhile isWhiteSpace).reverse
  match text with
  | [] => false
  | '/' :: '/' :: c :: _ => c == '/' || c == '!'
  | ['/', '/'] => false
  | [c] => !(['\x7b', '\x7d', '(', ')', '[', ']'].contains c)
  | _ => true

/-- The line of a given number. -/
def numbered? (lines : List SourceLine) (number : Nat) : Option SourceLine :=
  lines.find? fun l => l.number == number

/-- The numbers of the lines between the first and the last line of a range that are marked as part
of it: up to three lines after the first, and the one before the last. -/
def middleNumbers (lines : List SourceLine) (first last : Nat) : List Nat :=
  let telling (n : Nat) : Bool := (numbered? lines n).any isTelling
  let middle := min (first + 4) last
  let stop := (((List.range' first (middle - first)).reverse.find? telling).map (· + 1)).getD first
  let near := List.range' (first + 1) (stop - (first + 1))
  if middle < last - 1 && telling (last - 1) then near ++ [last - 1] else near

/-- The rows of lines inside a range, given by number, after the line `previous`.  One line that is
not marked is shown all the same; more are left out. -/
def insideRows (l : Layout) (lines : List SourceLine) (previous : Nat) : List Nat → List Row
  | [] => []
  | n :: ns =>
      let gap :=
        if previous + 2 < n then [l.elided]
        else if previous + 2 = n then
          (numbered? lines (previous + 1)).toList.map fun line => l.source line (some '|')
        else []
      let row := (numbered? lines n).toList.map fun line => l.source line (some '|')
      gap ++ row ++ insideRows l lines n ns

namespace Rejection

/-! ### The drawing -/

/-- The range that is underlined: that of the rejection, cut at the end of the content.  An empty
range is extended by one byte unless it lies at the end. -/
def markedSpan (r : Rejection) : Nat × Nat :=
  let limit := byteLength r.content
  let start := min r.start limit
  let stop := min r.stop limit
  if start = stop then (start, min (start + 1) limit) else (start, stop)

/-- What is written beside the underline. -/
def label (r : Rejection) : Text :=
  let text := match r.regex with
    | some regex => "expected /".toList ++ truncate regex regexLimit ++ ['/']
    | none => "nothing applies here".toList
  text.flatMap shownChar

/-- The first row: the level and what is wrong.  Line feeds in it begin further rows, below the
text. -/
def titleRows (r : Rejection) : List Row :=
  let level := Row.place [] 0 .fault "error".toList
  match cutAt (· == '\n') (r.headline.toList.flatMap shownChar) with
  | [] => [level]
  | first :: rest =>
      let text : Text := ':' :: ' ' :: first
      level.place level.length .title text ::
        rest.map fun line => Row.place [] (level.length + 2) .title line

/-- The rows of a range on one line. -/
def singleRows (l : Layout) (line : SourceLine) (start stop : Nat) (label : Text) : List Row :=
  let first := columnOf line start
  let last := columnOf line stop
  [l.source line none, l.underline first (if first = last then first + 1 else last) label]

/-- The rows of a range over several lines. -/
def severalRows (l : Layout) (lines : List SourceLine) (first last : SourceLine) (start stop : Nat)
    (label : Text) : List Row :=
  let column := columnOf first start
  let opening :=
    if (first.text.take column).all isWhiteSpace then [l.source first (some '/')]
    else [l.source first none, l.opening column]
  let middle := middleNumbers lines first.number last.number
  let isPastText := decide (last.start + byteLength last.text < stop)
  let closing := columnOf last stop + (if isPastText then 1 else 0)
  opening ++ insideRows l lines first.number (middle ++ [last.number]) ++ [l.closing closing label]

/-- The rows of a drawing. -/
def rows (r : Rejection) : List Row :=
  let lines := linesOf r.content
  let (start, stop) := r.markedSpan
  let first := lineAt lines start
  let last := if start = stop then first else lineAt lines stop
  let l : Layout := ⟨(Nat.toDigits 10 last.number).length, decide (first.number < last.number)⟩
  r.titleRows ++ l.empty ::
    if first.number = last.number then singleRows l first start stop r.label
    else severalRows l lines first last start stop r.label

/-- Both ends of the marked span lie between characters.  The lines of the content are cut there. -/
def IsDrawable (r : Rejection) : Prop :=
  IsBoundary r.content r.markedSpan.1 ∧ IsBoundary r.content r.markedSpan.2

instance (r : Rejection) : Decidable r.IsDrawable := inferInstanceAs (Decidable (_ ∧ _))

/-- The drawing of a rejection, with or without terminal codes.  There is none when the marked span ends
inside of a character. -/
def draw (r : Rejection) (colored : Bool) : Option String :=
  if r.IsDrawable then
    some (String.intercalate "\n"
      (r.rows.map (if colored then Row.styledText else Row.plainText)))
  else none

end Rejection

end Tessera
