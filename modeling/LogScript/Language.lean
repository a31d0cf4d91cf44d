/-!
The languages and locales the tools know. Two of the editor modes stand for a log language
with formatting and completion; plain text and JSON are only highlighted.

What can go wrong outside highlighting and completion, which never fail: data from a host that
does not parse, a language nobody knows, and positions outside a document.
-/

namespace LogScript

/-- `wpl` describes how fields are captured from log lines, `oml` how records are mapped. -/
inductive Language where
  | wpl
  | oml
  deriving DecidableEq, Repr

inductive Mode where
  | plain
  | wpl
  | oml
  | json
  deriving DecidableEq, Repr

inductive Locale where
  | zhCN
  | enUS
  deriving DecidableEq, Repr

/-- ASCII letters in lower case, everything else as it is. -/
def asciiLower (name : List Char) : List Char :=
  name.map Char.toLower

namespace Language

def name : Language → String
  | .wpl => "wpl"
  | .oml => "oml"

/-- The language with this name; ASCII case is ignored. -/
def ofName? (name : List Char) : Option Language :=
  if asciiLower name = "wpl".toList then some .wpl
  else if asciiLower name = "oml".toList then some .oml
  else none

def mode : Language → Mode
  | .wpl => .wpl
  | .oml => .oml

end Language

namespace Mode

def name : Mode → String
  | .plain => "plain"
  | .wpl => "wpl"
  | .oml => "oml"
  | .json => "json"

/-- The mode with this name, where `text` also means plain; ASCII case is ignored. -/
def ofName? (name : List Char) : Option Mode :=
  if asciiLower name = "plain".toList ∨ asciiLower name = "text".toList then some .plain
  else if asciiLower name = "wpl".toList then some .wpl
  else if asciiLower name = "oml".toList then some .oml
  else if asciiLower name = "json".toList then some .json
  else none

/-- The log language of a mode. -/
def language? : Mode → Option Language
  | .wpl => some .wpl
  | .oml => some .oml
  | .plain | .json => none

end Mode

namespace Locale

def tag : Locale → String
  | .zhCN => "zh-CN"
  | .enUS => "en-US"

/-- Every tag resolves: all but `en-US` stand for the default locale. -/
def resolve (tag : List Char) : Locale :=
  if tag = "en-US".toList then .enUS else .zhCN

end Locale

inductive ToolError where
  | unknownLanguage (name : List Char)
  | unreadableVocabulary (language : Language)
  | unreadableCatalog (language : Language) (locale : Locale)
  | unreadableRequest
  | offsetOutOfBounds (offset length : Nat)
  deriving DecidableEq, Repr

namespace ToolError

/-- The text shown to a user; the cause of a parse failure is left to the host. -/
def message : ToolError → String
  | .unknownLanguage name => "unknown language: " ++ String.ofList name
  | .unreadableVocabulary language =>
    "failed to parse " ++ language.name ++ " language definition"
  | .unreadableCatalog language locale =>
    "failed to parse " ++ language.name ++ " completion table for " ++ locale.tag
  | .unreadableRequest => "failed to parse request"
  | .offsetOutOfBounds offset length =>
    "offset " ++ toString offset ++ " is outside the document (length " ++ toString length ++ ")"

end ToolError

def requireLanguage (name : List Char) : Except ToolError Language :=
  (Language.ofName? name).elim (.error (.unknownLanguage name)) .ok

def requireMode (name : List Char) : Except ToolError Mode :=
  (Mode.ofName? name).elim (.error (.unknownLanguage name)) .ok

end LogScript
