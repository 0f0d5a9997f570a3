import Loot.Catalog.Load
import Loot.Json.Read

/-!
# Catalog files

A catalog lives in a directory as four files, one JSON array of records per registry, written over
several lines in UTF-8. Loading reads the files in order, each registry before the next file. A
missing file, a text that is not JSON and JSON that is not an array are load failures naming the
file's path; line ends are read as text files are.
-/

namespace Loot

open Loot.Json

/-- The file that holds a registry. -/
def Kind.fileName (k : Kind) : String := k.name ++ ".json"

/-- Text with every carriage return, alone or before a line feed, turned into a line feed. -/
def normalizeLineEnds (s : String) : String :=
  String.ofList (go s.toList)
where
  /-- Turns the line ends of a character list. -/
  go : List Char → List Char
    | '\r' :: '\n' :: rest => '\n' :: go rest
    | '\r' :: rest => '\n' :: go rest
    | c :: rest => c :: go rest
    | [] => []

/-- The records of a file, given its path and its text (none for a missing file), with arrays and
objects nested at most `maxDepth` deep. -/
def readRecords (maxDepth : Nat) (path : String) : Option String → Except Fault (List Value)
  | none =>
    .error (.load (.unreadable path ("[Errno 2] No such file or directory: " ++ quoteLiteral path)))
  | some text =>
    let text := normalizeLineEnds text
    match Value.read maxDepth text with
    | .error (.invalid reason pos) =>
      .error (.load (.unreadable path (renderInvalid reason pos text.toList)))
    | .error (.tooManyDigits n) => .error (Fault.tooManyDigits n)
    | .error (.tooDeep o) => .error (Fault.tooDeep o)
    | .ok (.arr items) => .ok items
    | .ok _ => .error (.load (.notArray path))

namespace Catalog

/-- The text of a registry's file, with arrays and objects nested at most `maxDepth` deep; a lone
surrogate in a record cannot be written. -/
def fileText (maxDepth : Nat) (c : Catalog) (k : Kind) : Except Fault String :=
  match (c.dump k).pretty maxDepth with
  | .ok text => .ok (text ++ "\n")
  | .error (.unencodable run) => .error (.unencodable run)
  | .error .tooDeep => .error Fault.nestedTooDeep
  | .error .tooLong => .error Fault.textTooLong

/-- Writes texts to named files as UTF-8, in order, and gives the text of each registry's file; a
text with a lone surrogate cannot be written, and the first such text fails. -/
def writeFiles (files : List (Text.Chars × Text.Chars)) : Except Fault (Kind → Option String) := do
  let written ← files.mapM fun (name, text) => match text.encode with
    | .ok t => pure (name, t)
    | .error run => throw (Fault.unencodable run)
  pure fun k => (written.find? (·.1 == Text.Chars.ofString k.fileName)).map (·.2)

/-- The calls left where the records of a file are loaded, when the file is read with arrays and
objects nested at most `maxDepth` deep: the first array of the file opens eight calls below the
loading of the directory, and the records are loaded two calls below it. -/
def recordRoom (maxDepth : Nat) : Nat := maxDepth + 6

/-- Loads a catalog from the files of a directory, one registry after the other, reading arrays
and objects nested at most `maxDepth` deep. -/
def ofFiles (maxDepth : Nat) (dir : String) (files : Kind → Option String) :
    Except Fault Catalog :=
  kinds.foldlM (fun c k => do
    let path := dir ++ "/" ++ k.fileName
    c.loadKind (recordRoom maxDepth) k (← readRecords maxDepth path (files k))) empty

/-- The deepest nesting that loading a catalog from its directory reads. Reading shares a budget of
a thousand nested calls with the program that loads, which holds eleven of them when the first
array opens. -/
def loadDepth : Nat := 989

end Catalog

end Loot
