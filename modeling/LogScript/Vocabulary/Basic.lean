import LogScript.Highlight.Token

/-!
Vocabularies of the log languages. A vocabulary is data: lists of words, and of beginnings of
words. From the word, its position in a statement and whether a call follows, `roleOf` decides
what the word is; the first rule that applies wins.
-/

namespace LogScript

structure Vocabulary where
  keywords : List (List Char) := []
  types : List (List Char) := []
  /-- Types only between a colon and an equals sign. -/
  declaredTypes : List (List Char) := []
  /-- Types of the privacy section. -/
  privacyTypes : List (List Char) := []
  functions : List (List Char) := []
  constants : List (List Char) := []
  /-- Beginnings that make a word a type. -/
  typePrefixes : List (List Char) := []
  /-- Beginnings that make a word a function. -/
  functionPrefixes : List (List Char) := []
  deriving DecidableEq, Repr

/-- Where in a statement a word stands. -/
structure Position where
  afterColon : Bool := false
  afterEqual : Bool := false
  inPrivacy : Bool := false
  deriving DecidableEq, Repr

inductive WordRole where
  | privacyType
  | declaredType
  | constant
  | keyword
  | typeName
  | function
  | variableName
  deriving DecidableEq, Repr

namespace WordRole

def category : WordRole → Category
  | .privacyType | .declaredType | .typeName => .typeName
  | .constant => .atom
  | .keyword => .keyword
  | .function => .function
  | .variableName => .variableName

/-- A type that a pending colon announced. -/
def isDeclaration : WordRole → Bool
  | .privacyType | .declaredType => true
  | _ => false

def name : WordRole → String
  | .privacyType => "PrivacyType"
  | .declaredType => "DeclaredType"
  | .constant => "Constant"
  | .keyword => "Keyword"
  | .typeName => "Type"
  | .function => "Function"
  | .variableName => "Variable"

end WordRole

/-- The word without the colons at its end. -/
def stripColons : List Char → List Char
  | [] => []
  | c :: rest =>
    match stripColons rest with
    | [] => if c == ':' then [] else [c]
    | kept => c :: kept

/-- The word is listed as it stands or without the colons at its end. -/
def listed (words : List (List Char)) (word : List Char) : Bool :=
  words.contains word || words.contains (stripColons word)

def startsWithAny (starts : List (List Char)) (word : List Char) : Bool :=
  starts.any (·.isPrefixOf word)

/-- Two colons stand side by side. -/
def hasPathSeparator : List Char → Bool
  | [] => false
  | c :: rest => (c == ':' && rest.head? == some ':') || hasPathSeparator rest

namespace Vocabulary

def empty : Vocabulary := {}

def isKeyword (v : Vocabulary) (word : List Char) : Bool :=
  listed v.keywords word

def isConstant (v : Vocabulary) (word : List Char) : Bool :=
  listed v.constants word

def isType (v : Vocabulary) (word : List Char) : Bool :=
  listed v.types word || startsWithAny v.typePrefixes word

/-- The word is exactly one of the functions; a vocabulary whose only function has the empty name
names none. -/
def namesFunction (v : Vocabulary) (word : List Char) : Bool :=
  v.functions != [[]] && v.functions.contains word

def isFunction (v : Vocabulary) (word : List Char) : Bool :=
  listed v.functions word || v.namesFunction (stripColons word) || hasPathSeparator word ||
    startsWithAny v.functionPrefixes word

def roleOf (v : Vocabulary) (word : List Char) (pos : Position) (call : Bool) : WordRole :=
  if pos.inPrivacy && pos.afterColon && listed v.privacyTypes word then .privacyType
  else if pos.afterColon && !pos.afterEqual && (listed v.declaredTypes word || listed v.types word)
  then .declaredType
  else if v.isConstant word then .constant
  else if v.isKeyword word then .keyword
  else if v.isType word then .typeName
  else if call || v.isFunction word then .function
  else if listed v.privacyTypes word then .typeName
  else .variableName

end Vocabulary

end LogScript
