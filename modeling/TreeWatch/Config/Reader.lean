import TreeWatch.Config.Basic
import TreeWatch.Json.Skip

/-!
# Reading a configuration

`Config.read` takes a configuration from a JSON text. Members that are missing leave their
default, members nobody knows are passed over, a known member may not come twice. Either of the
two structures may also be written as a list of its fields in order, of which the last may be
missing.

The first thing wrong decides the fault; what a value should have been is known before it is read.
-/

namespace TreeWatch

namespace Json

/-- The fault of a value that is not of the wanted kind. A scalar is read first, and may be at fault
itself; a list or object is reported where it opens. -/
def refuse (wanted : String) (s : List Char) : Fault :=
  let scalar {α : Type} (found : α → Found) (read : Except Fault (Scanned α)) : Fault :=
    match read with
    | .ok (x, rest) => .at (.wrongType (found x) wanted) rest
    | .error fault => fault
  match s with
  | 'n' :: rest => scalar (fun _ => .null) ((word ['u', 'l', 'l'] rest).map ((), ·))
  | 't' :: rest => scalar (fun _ => .bool true) ((word ['r', 'u', 'e'] rest).map ((), ·))
  | 'f' :: rest => scalar (fun _ => .bool false) ((word ['a', 'l', 's', 'e'] rest).map ((), ·))
  | '-' :: rest => scalar Number.found (readNumber true rest)
  | '\x22' :: rest => scalar (fun cs => .string (String.ofList cs)) (readString rest)
  | '[' :: _ => .at (.wrongType .list wanted) s
  | '\x7b' :: _ => .at (.wrongType .object wanted) s
  | [] => .at .expectedValue s
  | c :: _ =>
    if c.isDigit then scalar Number.found (readNumber false s) else .past .expectedValue s

/-- A whole number up to a limit. -/
def readNatural (limit : Nat) (wanted : String) (s : List Char) : Except Fault (Scanned Nat) := do
  let (number, rest) ←
    match skipBlanks s with
    | [] => .error (.at .endInValue [])
    | '-' :: rest => readNumber true rest
    | c :: rest =>
      if c.isDigit then readNumber false (c :: rest) else .error (refuse wanted (c :: rest))
  match number with
  | .natural n =>
    if n ≤ limit then .ok (n, rest) else .error (.at (.wrongValue (.natural n) wanted) rest)
  | .negative n => .error (.at (.wrongValue (.negative n) wanted) rest)
  | .floating bits => .error (.at (.wrongType (.floating bits) wanted) rest)

/-- The items of a list whose bracket is open, up to and with the closing one. -/
def readItems {α : Type} (item : Reader α) : Nat → Bool → Reader (List α)
  | 0, _, s => .error (.at .endInList s)
  | fuel + 1, first, s => do
    match ← nextItem first s with
    | none => return ([], ← endList s)
    | some start =>
      let (x, rest) ← item start
      let (xs, rest) ← readItems item fuel false rest
      return (x :: xs, rest)

/-- A list of items of one kind. -/
def readList {α : Type} (item : Reader α) (s : List Char) :
    Except Fault (Scanned (List α)) :=
  match skipBlanks s with
  | [] => .error (.at .endInValue [])
  | '[' :: rest => readItems item (rest.length + 1) true rest
  | other => .error (refuse "a sequence" other)

/-- The text behind the closing brace, if one comes next. -/
def behindBrace (s : List Char) : List Char :=
  match skipBlanks s with
  | '\x7d' :: rest => rest
  | rest => rest

/-- The members of an object whose brace is open, up to and with the closing one. Each is given, by
its key, to `member`, which reads the colon and the value and adds them to what is known. -/
def readMembers {α : Type} (member : String → α → Reader α) : Nat → Bool → α → Reader α
  | 0, _, _, s => .error (.at .endInObject s)
  | fuel + 1, first, known, s => do
    match ← nextKey first s with
    | none => return (known, behindBrace s)
    | some start =>
      let (key, rest) ← readString start
      let (known, rest) ← member (String.ofList key) known rest
      readMembers member fuel false known rest

/-- The value of a member nobody knows. -/
def skipMember {α : Type} (known : α) (s : List Char) : Except Fault (Scanned α) := do
  let rest ← skipValue (← colon s)
  return (known, rest)

/-- The value of a known member, which must not have come before. -/
def readOnce {α : Type} (key : String) (before : Option α) (read : Reader α) (s : List Char) :
    Except Fault (Scanned (Option α)) := do
  if before.isSome then .error (.at (.duplicateField key) (behindBrace s))
  let (x, rest) ← read (← colon s)
  return (some x, rest)

/-- A structure, written as an object or as the list of its fields. -/
def readStructure {α : Type} (wanted : String) (object list : Reader α) (s : List Char) :
    Except Fault (Scanned α) :=
  match skipBlanks s with
  | [] => .error (.at .endInValue [])
  | '\x7b' :: rest => object rest
  | '[' :: rest => list rest
  | other => .error (refuse wanted other)

/-- A structure of two fields written as a list: either may be missing from the end on. -/
def readPair {α β : Type} (one : Reader α) (two : Reader β) (s : List Char) :
    Except Fault (Scanned (Option α × Option β)) := do
  match ← nextItem true s with
  | none => return ((none, none), ← endList s)
  | some start =>
    let (x, rest) ← one start
    match ← nextItem false rest with
    | none => return ((some x, none), ← endList rest)
    | some start =>
      let (y, rest) ← two start
      return ((some x, some y), ← endList rest)

end Json

open Json

/-! ## The watch section -/

/-- The directory names of the list, each a string. -/
def Path.readJson (s : List Char) : Except Json.Fault (Scanned Path) :=
  match skipBlanks s with
  | [] => .error (.at .endInValue [])
  | '\x22' :: rest => do
    let (name, rest) ← readString rest
    return (⟨String.ofList name⟩, rest)
  | other => .error (refuse "a UTF-8 path string" other)

namespace WatchConfig

/-- The grace period. -/
def readGrace (s : List Char) : Except Json.Fault (Scanned UInt64) := do
  let (n, rest) ← readNatural (UInt64.size - 1) "u64" s
  return (UInt64.ofNat n, rest)

/-- What is known of the section while it is read. -/
structure Known where
  dirs? : Option (List Path) := none
  grace? : Option UInt64 := none

/-- The section with defaults for what is not known. -/
def Known.filled (k : Known) : WatchConfig :=
  ⟨k.dirs?.getD [], k.grace?.getD defaultGracePeriodMs⟩

/-- A member of the section. -/
def member (key : String) (known : Known) (s : List Char) : Except Json.Fault (Scanned Known) :=
  if key = "dirs" then do
    let (dirs?, rest) ← readOnce key known.dirs? (readList Path.readJson) s
    return (⟨dirs?, known.grace?⟩, rest)
  else if key = "grace_period_ms" then do
    let (grace?, rest) ← readOnce key known.grace? readGrace s
    return (⟨known.dirs?, grace?⟩, rest)
  else skipMember known s

/-- The section written as an object. -/
def readObject (s : List Char) : Except Json.Fault (Scanned WatchConfig) := do
  let (known, rest) ← readMembers member (s.length + 1) true {} s
  return (known.filled, rest)

/-- The section written as a list. -/
def readFields (s : List Char) : Except Json.Fault (Scanned WatchConfig) := do
  let ((dirs?, grace?), rest) ← readPair (readList Path.readJson) readGrace s
  return (Known.filled ⟨dirs?, grace?⟩, rest)

/-- The section. -/
def readJson (s : List Char) : Except Json.Fault (Scanned WatchConfig) :=
  readStructure "struct WatchConfig" readObject readFields s

end WatchConfig

/-! ## The whole configuration -/

namespace Config

/-- How much is logged. -/
def readVerbose (s : List Char) : Except Json.Fault (Scanned UInt8) := do
  let (n, rest) ← readNatural (UInt8.size - 1) "u8" s
  return (UInt8.ofNat n, rest)

/-- What is known of the configuration while it is read. -/
structure Known where
  watch? : Option WatchConfig := none
  verbose? : Option UInt8 := none

/-- The configuration with defaults for what is not known. -/
def Known.filled (k : Known) : Config :=
  ⟨k.watch?.getD {}, k.verbose?.getD 0⟩

/-- A member of the configuration. -/
def member (key : String) (known : Known) (s : List Char) : Except Json.Fault (Scanned Known) :=
  if key = "watch" then do
    let (watch?, rest) ← readOnce key known.watch? WatchConfig.readJson s
    return (⟨watch?, known.verbose?⟩, rest)
  else if key = "verbose" then do
    let (verbose?, rest) ← readOnce key known.verbose? readVerbose s
    return (⟨known.watch?, verbose?⟩, rest)
  else skipMember known s

/-- The configuration written as an object. -/
def readObject (s : List Char) : Except Json.Fault (Scanned Config) := do
  let (known, rest) ← readMembers member (s.length + 1) true {} s
  return (known.filled, rest)

/-- The configuration written as a list. -/
def readFields (s : List Char) : Except Json.Fault (Scanned Config) := do
  let ((watch?, verbose?), rest) ← readPair WatchConfig.readJson readVerbose s
  return (Known.filled ⟨watch?, verbose?⟩, rest)

/-- The configuration, with nothing but blanks behind it. -/
def readAll (s : List Char) : Except Json.Fault Config := do
  let (config, rest) ← readStructure "struct Config" readObject readFields s
  match skipBlanks rest with
  | [] => return config
  | more => .error (.past .trailingCharacters more)

/-- The configuration a JSON text describes, or why it describes none. -/
def read (text : String) : Except Json.Refusal Config :=
  (readAll text.toList).mapError (·.locate text.toList)

end Config

end TreeWatch
