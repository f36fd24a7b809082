/-!
# Lines

A text as lines. A line ends at a line feed or at the end of the text; one carriage return right
before the line feed belongs to the line's end, any other stays in the line. A line feed at the
very end of the text opens no further line.
-/

namespace TreeWatch.Text

/-- The line without the carriage return it may end in. -/
def dropReturn (line : List Char) : List Char :=
  if line.getLast? = some '\r' then line.dropLast else line

/-- The lines of a text, given the characters already read of the first one, last one first. -/
def linesFrom (read : List Char) : List Char → List (List Char)
  | [] => if read = [] then [] else [read.reverse]
  | c :: rest =>
    if c = '\n' then dropReturn read.reverse :: linesFrom [] rest
    else linesFrom (c :: read) rest

/-- The lines of a text, without their ends. -/
def lines (s : List Char) : List (List Char) :=
  linesFrom [] s

/-- Lines written one after another, each ended by a line feed. -/
def unlines (lines : List (List Char)) : List Char :=
  lines.flatMap (· ++ ['\n'])

end TreeWatch.Text
