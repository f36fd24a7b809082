import TreeWatch.Counter.File
import TreeWatch.Path.Basic

/-!
# Names of counter files

Each root holds its counter in a file named `gpt.ini`, in any ASCII case. The file is rewritten
through a sibling with the suffix `.tmp`. Changes of either come from the engine itself and say
nothing about the tree.
-/

namespace TreeWatch

/-- The name of the counter file. -/
def counterFileName : String :=
  "gpt.ini"

/-- What is added to its name while it is rewritten. -/
def temporarySuffix : String :=
  ".tmp"

/-- The text without the suffix it may end in. -/
def dropSuffix (ending s : List Char) : List Char :=
  if ending.isSuffixOf s then s.take (s.length - ending.length) else s

/-- Whether a name is that of a counter file. -/
def isCounterName (name : String) : Bool :=
  sameIgnoringCase name.toList counterFileName.toList

/-- Whether a path names a counter file or its temporary sibling. -/
def isCounterArtifact (path : Path) : Bool :=
  match path.fileName? with
  | none => false
  | some name =>
    let lower := name.toList.map Char.toLower
    dropSuffix temporarySuffix.toList lower == counterFileName.toList

/-- The temporary sibling of a counter file. -/
def temporaryPath (path : Path) : Path :=
  path.withFileName (path.fileName?.getD counterFileName ++ temporarySuffix)

end TreeWatch
