import Loot.Json.Literal

/-!
# Faults

Every failure of the library is a `Fault`, and an answer shows it as a class name and a message.
Failures of plain operations on values (a missing key, a value of the wrong kind, a number out of
range) carry the class of the operation and their message; the catalog's own failures carry their
cause, and `Fault.message` words them.
-/

namespace Loot

open Loot.Text

/-- The four registries of a catalog. -/
inductive Kind where
  /-- Affix definitions. -/
  | affix
  /-- Affix pools. -/
  | affixPool
  /-- Item definitions. -/
  | item
  /-- Loot pools. -/
  | lootPool
  deriving DecidableEq, Repr, Inhabited

/-- The name of a registry, as files, answers and messages give it. -/
def Kind.name : Kind → String
  | .affix => "affix"
  | .affixPool => "affix_pool"
  | .item => "item"
  | .lootPool => "loot_pool"

/-- The name of a registry in running text. -/
def Kind.words : Kind → String
  | .affix => "affix"
  | .affixPool => "affix pool"
  | .item => "item"
  | .lootPool => "loot pool"

/-- The classes of failures of plain operations on values. -/
inductive Builtin where
  /-- A value of the right kind but a wrong content. -/
  | value
  /-- A value of the wrong kind. -/
  | type
  /-- A missing key. -/
  | key
  /-- A value without the member an operation needs. -/
  | attribute
  /-- A number out of range. -/
  | overflow
  /-- A division by zero. -/
  | zeroDivision
  /-- An index past the end of a list. -/
  | index
  /-- Calls nested deeper than the budget allows. -/
  | recursion
  deriving DecidableEq, Repr

/-- The class name of a plain failure. -/
def Builtin.name : Builtin → String
  | .value => "ValueError"
  | .type => "TypeError"
  | .key => "KeyError"
  | .attribute => "AttributeError"
  | .overflow => "OverflowError"
  | .zeroDivision => "ZeroDivisionError"
  | .index => "IndexError"
  | .recursion => "RecursionError"

/-- Why records could not be loaded into a registry. -/
inductive LoadFault where
  /-- A file could not be read as JSON. -/
  | unreadable (path reason : String)
  /-- A file holds JSON that is not an array. -/
  | notArray (path : String)
  /-- A record is malformed: its registry, its id as text, and the plain failure inside. -/
  | malformed (kind : Kind) (id : Chars) (cause : Builtin) (detail : Chars)
  /-- A record refers to an id that its target registry does not hold. -/
  | unknownReference (owner : Kind) (ownerId : Int) (target : Kind) (targetId : Int)
  /-- Two records of a registry have the same id. -/
  | duplicate (kind : Kind) (id : Int)

/-- The message of a load failure. -/
def LoadFault.message : LoadFault → Chars
  | .unreadable path reason => "Cannot read " ++ path ++ ": " ++ reason
  | .notArray path => path ++ ": expected a JSON array"
  | .malformed kind id _ detail =>
    Chars.ofString ("Malformed " ++ kind.words ++ " definition ") ++ id ++ Chars.ofString ": " ++
      detail
  | .unknownReference .item ownerId target targetId =>
    "Item " ++ toString ownerId ++ " references unknown " ++ target.name ++ " definition " ++
      toString targetId ++ " not found"
  | .unknownReference .lootPool ownerId _ targetId =>
    "Loot pool " ++ toString ownerId ++ " references unknown item " ++ toString targetId
  | .unknownReference _ ownerId _ targetId =>
    "Affix pool " ++ toString ownerId ++ " references unknown affix " ++ toString targetId
  | .duplicate kind id => "Duplicate " ++ kind.name ++ " definition id: " ++ toString id

/-- The message of a stretch of lone surrogates that UTF-8 cannot encode: one surrogate is named
by its code, a longer stretch by its first and last position. -/
def Text.SurrogateRun.message (r : SurrogateRun) : String :=
  if r.stop = r.start + 1 then
    "'utf-8' codec can't encode character '\\u" ++ String.ofList (Json.hexDigits 4 r.first) ++
      "' in position " ++ toString r.start ++ ": surrogates not allowed"
  else
    "'utf-8' codec can't encode characters in position " ++ toString r.start ++ "-" ++
      toString (r.stop - 1) ++ ": surrogates not allowed"

/-- A failure of the library. -/
inductive Fault where
  /-- A plain operation on a value failed. -/
  | builtin (cls : Builtin) (message : Chars)
  /-- Records could not be loaded. -/
  | load (cause : LoadFault)
  /-- An id that must be registered is not: its registry and the id as text. -/
  | notFound (kind : Kind) (id : Chars)
  /-- A registry was built on a dependency of the wrong kind: the registry's class, the class it
  needs, and the class it got. -/
  | dependency (owner expected actual : String)
  /-- A scripted random source was asked for bits but holds a non-integer next. -/
  | scriptNotInteger
  /-- A scripted random source ran out after giving this many values. -/
  | scriptExhausted (used : Nat)
  /-- Text to be written as UTF-8 holds lone surrogates. -/
  | unencodable (run : SurrogateRun)

namespace Fault

/-- The class name an answer gives for a failure. -/
def className : Fault → String
  | .builtin cls _ => cls.name
  | .load _ => "DefinitionLoadError"
  | .notFound _ _ => "DefinitionNotFoundError"
  | .dependency _ _ _ => "DependencyOrderError"
  | .scriptNotInteger => "DriverError"
  | .scriptExhausted _ => "RngExhausted"
  | .unencodable _ => "UnicodeEncodeError"

/-- The message of a failure. -/
def message : Fault → Chars
  | .builtin _ m => m
  | .load f => f.message
  | .notFound kind id =>
    Chars.ofString (kind.name ++ " definition ") ++ id ++ Chars.ofString " not found"
  | .dependency owner expected actual =>
    owner ++ " requires a loaded " ++ expected ++ ", got " ++ actual
  | .scriptNotInteger => "getrandbits needs an integer script value"
  | .scriptExhausted n => "rng script exhausted after " ++ toString n ++ " values"
  | .unencodable r => r.message

/-- A plain failure of a class, with a message that holds no lone surrogate. -/
def plain (cls : Builtin) (m : String) : Fault := .builtin cls (Chars.ofString m)

/-- A value failure. -/
def value (m : String) : Fault := plain .value m

/-- A kind failure. -/
def type (m : String) : Fault := plain .type m

/-- A missing key; the message quotes the key. -/
def missingKey (key : String) : Fault := plain .key (Json.quoteLiteral key)

/-- A missing member on a value of the given kind. -/
def noAttribute (kindName member : String) : Fault :=
  plain .attribute ("'" ++ kindName ++ "' object has no attribute '" ++ member ++ "'")

/-- A number too large for a double. -/
def intTooLarge : Fault := plain .overflow "int too large to convert to float"

/-- A numeral with more digits than an integer may be read from: the digits it has. -/
def tooManyDigits (digits : Nat) : Fault :=
  value ("Exceeds the limit (4300 digits) for integer string conversion: value has " ++
    toString digits ++ " digits; use sys.set_int_max_str_digits() to increase the limit")

/-- Containers nested deeper than a reader allows; the message names the kind of the container
that opens too deep. -/
def tooDeep (object : Bool) : Fault :=
  plain .recursion ("maximum recursion depth exceeded while decoding a JSON " ++
    (if object then "object" else "array") ++ " from a unicode string")

/-- Containers nested deeper than a file writer allows. -/
def nestedTooDeep : Fault := plain .recursion "maximum recursion depth exceeded"

/-- A value nested deeper than the calls left allow, met while quoting it for a message. -/
def reprTooDeep : Fault :=
  plain .recursion "maximum recursion depth exceeded while getting the repr of an object"

/-- Containers nested deeper than an answer may be written with. -/
def answerTooDeep : Fault :=
  plain .recursion "maximum recursion depth exceeded while encoding a JSON object"

/-- An integer with more digits than its decimal text may have. -/
def textTooLong : Fault :=
  value ("Exceeds the limit (4300 digits) for integer string conversion; " ++
    "use sys.set_int_max_str_digits() to increase the limit")

end Fault

end Loot
