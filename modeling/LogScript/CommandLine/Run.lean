import LogScript.CommandLine.Command
import LogScript.Completion.Session
import LogScript.Highlight.Languages
import LogScript.Json.Printer
import LogScript.Layout.Document
import LogScript.Text.Quoted

/-!
Running a request. A run needs at most the contents of one file; from them it gives the exit
code, the text for standard output, and a message when it fails.
-/

namespace LogScript.CommandLine

structure Result where
  exitCode : Nat
  output : List Char := []
  message : Option (List Char) := none
  deriving DecidableEq, Repr

def Result.success (output : List Char) : Result :=
  { exitCode := 0, output }

def Result.failure (message : List Char) : Result :=
  { exitCode := 1, message := some message }

def decimal (n : Nat) : List Char :=
  Nat.toDigits 10 n

/-- A token on a line: its byte positions, its category and its text. -/
def tokenLine (text : List Char) (t : Token) : List Char :=
  decimal t.start ++ ['.', '.'] ++ decimal t.stop ++ ['\t'] ++ t.category.name.toList ++ ['\t'] ++
    quoteText (t.textIn text) ++ ['\n']

def tokenDocument (text : List Char) (t : Token) : Json.Document :=
  .record [("start", .number t.start), ("end", .number t.stop),
    ("category", .text t.category.name.toList), ("text", .text (t.textIn text))]

def itemDocument (i : Item) : Json.Document :=
  let optional (name : String) (value : Option (List Char)) : List (String × Json.Document) :=
    (value.map (fun v => (name, .text v))).toList
  .record ([("label", .text i.label), ("kind", .text i.kind.name.toList),
    ("insertText", .text i.insertText)] ++ optional "detail" i.detail ++ optional "info" i.info ++
    optional "example" i.usage)

def offerDocument (o : Offer) : Json.Document :=
  .record [("anchor", .number o.anchor), ("candidates", .list (o.candidates.map itemDocument)),
    ("validWhile", .text o.language.validPattern.toList)]

def runTokenize (mode : Mode) (json all : Bool) (text : List Char) : Result :=
  let tokens := (Highlight.tokenize mode text).filter (fun t => all || t.isStyled)
  if json then .success (Json.Document.pretty (.list (tokens.map (tokenDocument text))) ++ ['\n'])
  else .success (tokens.flatMap (tokenLine text))

def runComplete (file : List Char) (position : Nat) (explicit : Bool) (language : Language)
    (locale : Locale) (text : List Char) : Result :=
  if position > text.length then
    .failure ("offset ".toList ++ decimal position ++ " is past the end of ".toList ++ file)
  else
    let offer := (Catalog.builtin language locale).complete (text.take position) explicit
    .success (Json.Document.pretty (offer.elim .null offerDocument) ++ ['\n'])

/-- The file a command reads. -/
def Command.file? : Command → Option (List Char)
  | .tokenize file _ _ _ | .complete file _ _ _ _ | .format file _ => some file
  | .catalog _ _ => none

/-- A command on the contents of its file. -/
def Command.runOn (c : Command) (text : List Char) : Result :=
  match c with
  | .tokenize _ mode json all => runTokenize mode json all text
  | .complete file position explicit language locale =>
    runComplete file position explicit language locale text
  | .format _ language => .success (LogScript.format language text)
  | .catalog language locale =>
    .success (Json.Document.pretty
      (.list ((Catalog.builtin language locale).items.map itemDocument)) ++ ['\n'])

/-- The file a request reads. -/
def Request.file? : Request → Option (List Char)
  | .run c => c.file?
  | _ => none

/-- Performs a request on the contents of its file, which are missing when it could not be read. -/
def Request.perform (r : Request) (contents : Option (List Char)) : Result :=
  match r with
  | .help topic => .success topic.text.toList
  | .version => .success versionText.toList
  | .invalid => { exitCode := 2 }
  | .run c =>
    match c.file?, contents with
    | some file, none => .failure ("failed to read ".toList ++ file)
    | _, contents => c.runOn (contents.getD [])

end LogScript.CommandLine
