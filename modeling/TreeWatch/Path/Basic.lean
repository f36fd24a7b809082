import TreeWatch.Path.Pieces
import TreeWatch.Text.Quoted

/-!
# Paths

A path keeps the spelling it was given, and it is compared by its *components*: repeated slashes, a
slash at the end and `.` pieces (other than a leading one of a relative path) make no difference.
`..` is kept, since what it names depends on links.

* `components` — the view that comparison, order and the prefix relation are defined by;
* `SameAs`, `key`, `startsWith` — the three of them;
* `join`, `parent?`, `fileName?`, `withFileName` — paths built from paths.
-/

namespace TreeWatch

/-- A path as spelled. -/
structure Path where
  spelling : String
  deriving DecidableEq, Repr

/-- One step of a path: the root directory, a leading `.`, a `..`, or a name. -/
inductive Component where
  | root
  | here
  | up
  | name (s : String)
  deriving DecidableEq, Repr

namespace Path

instance : Inhabited Path :=
  ⟨⟨""⟩⟩

/-! ## Components -/

/-- The component a piece stands for, unless it is empty or a `.` that says nothing. -/
def component? (piece : List Char) : Option Component :=
  if piece = [] ∨ piece = ['.'] then none
  else if piece = ['.', '.'] then some .up
  else some (.name (String.ofList piece))

/-- The components of a spelling. A `.` counts only where it is all that keeps the path from being
empty at its start. -/
def componentsOf (s : List Char) : List Component :=
  match Pieces.split '/' s with
  | [] => []
  | first :: rest =>
    if first = [] then
      if rest = [] then [] else .root :: rest.filterMap component?
    else if first = ['.'] then .here :: rest.filterMap component?
    else (first :: rest).filterMap component?

/-- The components of a path, in order. -/
def components (p : Path) : List Component :=
  componentsOf p.spelling.toList

/-- Whether a path starts at the root directory. -/
def isAbsolute (p : Path) : Bool :=
  p.spelling.toList.head? == some '/'

/-! ## Comparison -/

/-- Two paths have the same components, whatever their spelling. -/
def SameAs (p q : Path) : Prop :=
  p.components = q.components

instance (p q : Path) : Decidable (p.SameAs q) :=
  inferInstanceAs (Decidable (p.components = q.components))

/-- One path is the other or lies below it, component by component. -/
def startsWith (p q : Path) : Bool :=
  q.components.isPrefixOf p.components

end Path

/-- The sort key of a component: its rank, and after it the characters of a name. The root comes
first, then `.`, then `..`, then the names by code point, which is the order of their bytes. -/
def Component.key : Component → List Nat
  | .root => [0]
  | .here => [1]
  | .up => [2]
  | .name s => 3 :: s.toList.map Char.toNat

namespace Path

/-- The sort key of a path: the keys of its components. Keys are compared as in a dictionary, so
all that lies below a directory follows it without a gap. -/
def key (p : Path) : List (List Nat) :=
  p.components.map Component.key

/-- Whether a path comes before another in the order of components. -/
def before (p q : Path) : Bool :=
  decide (p.key < q.key)

/-! ## Paths from paths -/

/-- The name a path ends in, if its last component is one. -/
def fileName? (p : Path) : Option String :=
  match p.components.getLast? with
  | some (.name s) => some s
  | _ => none

/-- A path below another: joined with a slash, unless there is one already or nothing to join to. An
absolute path stands for itself. -/
def join (p q : Path) : Path :=
  if q.isAbsolute then q
  else if p.spelling.toList = [] ∨ p.spelling.toList.getLast? = some '/' then
    ⟨p.spelling ++ q.spelling⟩
  else ⟨p.spelling ++ "/" ++ q.spelling⟩

/-- The pieces without those at the end that stand for no component. -/
def trimPieces (pieces : List (List Char)) : List (List Char) :=
  (pieces.reverse.dropWhile fun piece => (component? piece).isNone).reverse

/-- The spelling without its last component and what separated it, if it has one to give up: the
root directory has none. -/
def parentOf? (s : List Char) : Option (List Char) :=
  match Pieces.split '/' s with
  | [] => none
  | first :: rest =>
    if first = [] then
      match trimPieces rest with
      | [] => none
      | kept => some ('/' :: Pieces.join '/' (trimPieces kept.dropLast))
    else
      match trimPieces rest with
      | [] => some []
      | kept => some (Pieces.join '/' (first :: trimPieces kept.dropLast))

/-- The path without its last component. -/
def parent? (p : Path) : Option Path :=
  (parentOf? p.spelling.toList).map fun s => ⟨String.ofList s⟩

/-- The path with its last name replaced; a path that does not end in a name gets one more. -/
def withFileName (p : Path) (name : String) : Path :=
  match p.fileName? with
  | some _ => (p.parent?.getD ⟨""⟩).join ⟨name⟩
  | none => p.join ⟨name⟩

/-- A path between quotes. -/
def quoted (p : Path) : String :=
  Quoted.text p.spelling

/-- A list of paths as it is shown in messages. -/
def quotedList (paths : List Path) : String :=
  Quoted.list (paths.map quoted)

end Path

end TreeWatch
