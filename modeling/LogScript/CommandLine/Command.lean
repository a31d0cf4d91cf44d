import LogScript.CommandLine.Argument
import LogScript.CommandLine.Help
import LogScript.Language

/-!
The commands of the command line, and what a list of arguments asks for.
-/

namespace LogScript.CommandLine

inductive Command where
  | tokenize (file : List Char) (mode : Mode) (json all : Bool)
  | complete (file : List Char) (position : Nat) (explicit : Bool) (language : Language)
      (locale : Locale)
  | format (file : List Char) (language : Language)
  | catalog (language : Language) (locale : Locale)
  deriving DecidableEq, Repr

inductive Request where
  | run (command : Command)
  | help (topic : Topic)
  | version
  | invalid
  deriving DecidableEq, Repr

/-- A position is a number of 64 bits in decimal digits, perhaps behind a plus sign. -/
def positionOf? (text : List Char) : Option Nat :=
  let digits := if text.head? == some '+' then text.drop 1 else text
  if digits.isEmpty || !digits.all Char.isDigit then none
  else
    let value := digits.foldl (fun n c => n * 10 + (c.toNat - 0x30)) 0
    if value < UInt64.size then some value else none

def languageRule : OptionRule :=
  { name := "language", short := some 'l', accepts := some fun v => (Language.ofName? v).isSome }

def localeRule : OptionRule :=
  { name := "locale", accepts := some fun _ => true }

def programGrammar : Grammar where
  options := [{ name := "no-color" }, { name := "log-level", accepts := some fun _ => true }]
  commands := true
  version := true

def tokenizeGrammar : Grammar where
  options :=
    [{ languageRule with accepts := some fun v => (Mode.ofName? v).isSome }, { name := "json" },
      { name := "all" }]
  operands := 1

def completeGrammar : Grammar where
  options :=
    [{ name := "offset", accepts := some fun v => (positionOf? v).isSome }, { name := "explicit" },
      languageRule, localeRule]
  operands := 1

def formatGrammar : Grammar where
  options := [languageRule]
  operands := 1

def catalogGrammar : Grammar where
  options := [languageRule, localeRule]

namespace Arguments

def language (a : Arguments) : Language :=
  ((a.options.lookup "language").bind Language.ofName?).getD .wpl

def mode (a : Arguments) : Mode :=
  ((a.options.lookup "language").bind Mode.ofName?).getD .wpl

def locale (a : Arguments) : Locale :=
  ((a.options.lookup "locale").map Locale.resolve).getD .zhCN

end Arguments

/-- What a grammar and its reading make of the arguments of a command. -/
def requestOf (g : Grammar) (topic : Topic) (build : Arguments → Option Command)
    (arguments : List (List Char)) : Request :=
  match g.read {} arguments with
  | .error .help => .help topic
  | .error .version => .version
  | .error .invalid => .invalid
  | .ok a => (build a).elim .invalid .run

def tokenizeRequest : List (List Char) → Request :=
  requestOf tokenizeGrammar .tokenize fun a => do
    return .tokenize (← a.operands.head?) a.mode (a.has "json") (a.has "all")

def completeRequest : List (List Char) → Request :=
  requestOf completeGrammar .complete fun a => do
    let position ← (a.options.lookup "offset").bind positionOf?
    return .complete (← a.operands.head?) position (a.has "explicit") a.language a.locale

def formatRequest : List (List Char) → Request :=
  requestOf formatGrammar .format fun a => do
    return .format (← a.operands.head?) a.language

def catalogRequest : List (List Char) → Request :=
  requestOf catalogGrammar .catalog fun a => some (.catalog a.language a.locale)

/-- The topics that can be named, with their names. -/
def topics : List (List Char × Topic) :=
  [("tokenize".toList, .tokenize), ("complete".toList, .complete), ("format".toList, .format),
    ("catalog".toList, .catalog), ("help".toList, .help)]

/-- Help for the program or for the one command named. -/
def helpRequest : List (List Char) → Request
  | [] => .help .program
  | [name] => (topics.lookup name).elim .invalid .help
  | _ => .invalid

/-- What follows the options of the program: a command and its arguments. -/
def commandRequest : List (List Char) → Request
  | [] => .invalid
  | name :: arguments =>
    match topics.lookup name with
    | some .tokenize => tokenizeRequest arguments
    | some .complete => completeRequest arguments
    | some .format => formatRequest arguments
    | some .catalog => catalogRequest arguments
    | some .help => helpRequest arguments
    | _ => .invalid

/-- What the arguments of the program ask for. -/
def Request.ofArguments (arguments : List (List Char)) : Request :=
  match programGrammar.read {} arguments with
  | .error .help => .help .program
  | .error .version => .version
  | .error .invalid => .invalid
  | .ok a => commandRequest a.rest

end LogScript.CommandLine
