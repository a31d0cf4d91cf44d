import LogScript.Highlight.Classifier
import LogScript.Language
import LogScript.Text.Run
import LogScript.Vocabulary.Basic
import LogScript.Vocabulary.Reader

/-!
The classifiers of the languages, and the tokens for every editor mode.

In WPL and JSON no token depends on an earlier one, so there is no state to carry. An OML document has
a header, a body and a privacy section, divided by `---`; a word is a declared type only between a
colon and an equals sign. The state carries both along. Plain text is one unstyled token, or none when
it is empty.
-/

namespace LogScript.Highlight

/-- The characters that both log languages treat as operators. -/
def punctuation : List Char :=
  ['\x7b', '\x7d', '(', ')', '[', ']', ',', '|', ';', '=', '!', ':']

/-- A comment runs to the end of its line. -/
def startsComment (text : List Char) : Bool :=
  text.head? == some '#' || ['/', '/'].isPrefixOf text

def isWplWordChar (c : Char) : Bool :=
  Run.isWordChar c || c == '/'

def classifyWpl (v : Vocabulary) (text : List Char) : Step Unit :=
  match text with
  | [] => ⟨0, .unstyled, ()⟩
  | c :: _ =>
    if isBlank c then .take (Run.blanks text) .unstyled ()
    else if startsComment text then .take (firstLine text) .comment ()
    else if c == '"' || c.toNat == 0x27 then .take (Run.quoted c text) .string ()
    else match Run.number 1 text with
    | some digits => .take digits .number ()
    | none =>
      if punctuation.contains c then .take [c] .operator ()
      else match text.takeWhile isWplWordChar with
      | [] => .take [c] .unstyled ()
      | word =>
        let role := v.roleOf word {} (Run.opensCall (text.drop word.length))
        .take word role.category ()

def wpl (v : Vocabulary) : Classifier Unit :=
  ⟨(), fun text _ => classifyWpl v text⟩

structure OmlState where
  /-- Past the first separator. -/
  inHeader : Bool := false
  /-- Past the second separator. -/
  inPrivacy : Bool := false
  afterColon : Bool := false
  afterEqual : Bool := false
  deriving DecidableEq, Repr

namespace OmlState

def position (s : OmlState) : Position :=
  ⟨s.afterColon, s.afterEqual, s.inPrivacy⟩

/-- The first separator ends the header, the second the body; further ones change nothing. -/
def pastSeparator (s : OmlState) : OmlState :=
  if s.inHeader then { s with inPrivacy := true } else { s with inHeader := true }

def pastOperator (s : OmlState) (op : Char) : OmlState :=
  if op == ':' then { s with afterColon := true }
  else if op == '=' then { s with afterEqual := true }
  else if op == ';' then { s with afterColon := false, afterEqual := false }
  else s

/-- A declared type uses up the colon before it. -/
def pastWord (s : OmlState) (role : WordRole) : OmlState :=
  if role.isDeclaration then { s with afterColon := false } else s

end OmlState

def isOmlPathChar (c : Char) : Bool :=
  Run.isWordChar c || c == '/' || c == '[' || c == ']'

def isOmlWordChar (c : Char) : Bool :=
  Run.isWordChar c || c == ':'

/-- A path literal: a slash and at least one path character. -/
def pathRun (text : List Char) : Option (List Char) :=
  match text with
  | '/' :: rest =>
    match rest.takeWhile isOmlPathChar with
    | [] => none
    | path => some ('/' :: path)
  | _ => none

/-- The punctuation and words of OML, which move the state. -/
def classifyOmlWord (v : Vocabulary) (text : List Char) (s : OmlState) : Step OmlState :=
  match text with
  | [] => ⟨0, .unstyled, s⟩
  | c :: _ =>
    if punctuation.contains c then .take [c] .operator (s.pastOperator c)
    else match text.takeWhile isOmlWordChar with
    | [] => .take [c] .unstyled s
    | word =>
      let role := v.roleOf word s.position (Run.opensCall (text.drop word.length))
      .take word role.category (s.pastWord role)

def classifyOml (v : Vocabulary) (text : List Char) (s : OmlState) : Step OmlState :=
  match text with
  | [] => ⟨0, .unstyled, s⟩
  | c :: rest =>
    if isBlank c then .take (Run.blanks text) .unstyled s
    else if startsComment text then .take (firstLine text) .comment s
    else if ['-', '-', '-'].isPrefixOf text then .take ['-', '-', '-'] .keyword s.pastSeparator
    else if c == '"' then .take (Run.quoted c text) .string s
    else match Run.number 3 text with
    | some digits => .take digits .number s
    | none =>
      if c == '@' then
        match rest.takeWhile Run.isWordChar with
        | [] => .take [c] .operator s
        | name => .take (c :: name) .variableName s
      else match pathRun text with
      | some path => .take path .string s
      | none => classifyOmlWord v text s

def oml (v : Vocabulary) : Classifier OmlState :=
  ⟨{}, classifyOml v⟩

/-- The exponent of a number; a mark without digits behind it is none. -/
def exponentRun (text : List Char) : List Char :=
  match text with
  | [] => []
  | mark :: rest =>
    if mark == 'e' || mark == 'E' then
      let sign := (rest.take 1).filter (fun c => c == '+' || c == '-')
      match Run.digits (rest.drop sign.length) with
      | [] => []
      | ds => mark :: sign ++ ds
    else []

def jsonNumber (text : List Char) : Option (List Char) :=
  (Run.number 1 text).map (fun n => n ++ exponentRun (text.drop n.length))

def isJsonOperator (c : Char) : Bool :=
  ['\x7b', '\x7d', '[', ']', ',', ':'].contains c

def isJsonLiteral (word : List Char) : Bool :=
  ["true".toList, "false".toList, "null".toList].contains word

def classifyJson (text : List Char) : Step Unit :=
  match text with
  | [] => ⟨0, .unstyled, ()⟩
  | c :: _ =>
    if isBlank c then .take (Run.blanks text) .unstyled ()
    else if c == '"' then .take (Run.quoted c text) .string ()
    else match jsonNumber text with
    | some number => .take number .number ()
    | none =>
      if isJsonOperator c then .take [c] .operator ()
      else match text.takeWhile Run.isWordChar with
      | [] => .take [c] .unstyled ()
      | word => .take word (if isJsonLiteral word then .atom else .unstyled) ()

def json : Classifier Unit :=
  ⟨(), fun text _ => classifyJson text⟩

/-- The tokens of a text in a log language. -/
def tokenizeLanguage (language : Language) (v : Vocabulary) (text : List Char) : List Token :=
  match language with
  | .wpl => (wpl v).tokenize text
  | .oml => (oml v).tokenize text

def tokenize (mode : Mode) (text : List Char) : List Token :=
  match mode with
  | .plain => if text.isEmpty then [] else [⟨0, byteLength text, .unstyled⟩]
  | .wpl => tokenizeLanguage .wpl (.builtin .wpl) text
  | .oml => tokenizeLanguage .oml (.builtin .oml) text
  | .json => json.tokenize text

end LogScript.Highlight
