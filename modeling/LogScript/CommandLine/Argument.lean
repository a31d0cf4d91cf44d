/-!
Reading command-line arguments. A grammar lists the options that a command knows. Arguments are
read from left to right and every value is checked when it is met, so the first argument that is
wrong, or that asks for help or the version, decides.
-/

namespace LogScript.CommandLine

structure OptionRule where
  name : String
  short : Option Char := none
  /-- The test for a value; an option without a value has none. -/
  accepts : Option (List Char → Bool) := none

structure Grammar where
  options : List OptionRule
  /-- How many operands there may be. -/
  operands : Nat := 0
  /-- Reading stops at the first operand, which names a command. -/
  commands : Bool := false
  /-- The version can be asked for. -/
  version : Bool := false

/-- Why reading stops before the end. -/
inductive Stop where
  | help
  | version
  | invalid
  deriving DecidableEq, Repr

/-- The arguments read: options by name, an option without value having an empty one. -/
structure Arguments where
  options : List (String × List Char) := []
  operands : List (List Char) := []
  /-- What follows the point where reading stopped. -/
  rest : List (List Char) := []
  deriving DecidableEq, Repr

/-- Something that begins with a hyphen and is more than one. -/
def looksLikeOption (argument : List Char) : Bool :=
  argument.head? == some '-' && argument.length > 1

namespace Arguments

def has (a : Arguments) (name : String) : Bool :=
  (a.options.lookup name).isSome

/-- Adds an option; none may come twice. -/
def withOption (a : Arguments) (name : String) (value : List Char) : Except Stop Arguments :=
  if a.has name then .error .invalid else .ok { a with options := a.options ++ [(name, value)] }

/-- Adds an option with a value that passes its test. -/
def withValue (a : Arguments) (rule : OptionRule) (value : List Char) : Except Stop Arguments :=
  match rule.accepts with
  | some accepts => if accepts value then a.withOption rule.name value else .error .invalid
  | none => .error .invalid

/-- Adds an operand; it may not be empty. -/
def withOperand (a : Arguments) (limit : Nat) (operand : List Char) : Except Stop Arguments :=
  if operand.isEmpty || a.operands.length ≥ limit then .error .invalid
  else .ok { a with operands := a.operands ++ [operand] }

end Arguments

/-- What an argument is by its looks: an option, perhaps with a value attached, the mark behind
which there are only operands, or an operand. -/
inductive Shape where
  | long (name : List Char) (value : Option (List Char))
  | short (name : Char) (attached : List Char)
  | divider
  | operand
  deriving DecidableEq, Repr

def shapeOf (argument : List Char) : Shape :=
  match argument with
  | ['-', '-'] => .divider
  | '-' :: '-' :: text =>
    let name := text.takeWhile (· != '=')
    .long name (if name.length = text.length then none else some (text.drop (name.length + 1)))
  | '-' :: c :: attached => .short c attached
  | _ => .operand

namespace Grammar

def long? (g : Grammar) (name : List Char) : Option OptionRule :=
  g.options.find? (fun r => r.name.toList == name)

def short? (g : Grammar) (name : Char) : Option OptionRule :=
  g.options.find? (fun r => r.short == some name)

/-- The value attached to a short option; an equals sign in front of it is left out. -/
def attachedValue? (attached : List Char) : Option (List Char) :=
  match attached with
  | [] => none
  | '=' :: value => some value
  | value => some value

/-- Reads an option without a value. -/
def readPlain (g : Grammar) (a : Arguments) (name : List Char) : Except Stop Arguments :=
  if name = "help".toList then .error .help
  else if g.version && name = "version".toList then .error .version
  else match g.long? name with
    | some rule => if rule.accepts.isNone then a.withOption rule.name [] else .error .invalid
    | none => .error .invalid

/-- The option with its value in the next argument, if the argument is one. -/
def awaiting? (g : Grammar) (argument : List Char) : Option OptionRule :=
  let rule? := match shapeOf argument with
    | .long name none => g.long? name
    | .short c [] => g.short? c
    | _ => none
  rule?.filter (·.accepts.isSome)

/-- Reads an argument that stands for itself. -/
def readSingle (g : Grammar) (a : Arguments) (argument : List Char) : Except Stop Arguments :=
  match shapeOf argument with
  | .long name none => g.readPlain a name
  | .long name (some value) =>
    match g.long? name with
    | some rule => a.withValue rule value
    | none => .error .invalid
  | .short c attached =>
    if c == 'h' then .error .help
    else if g.version && c == 'V' then .error .version
    else match g.short? c, attachedValue? attached with
      | some rule, some value => a.withValue rule value
      | _, _ => .error .invalid
  | .divider => .ok a
  | .operand => a.withOperand g.operands argument

/-- Behind the divider everything is an operand. -/
def readOperands (g : Grammar) (a : Arguments) : List (List Char) → Except Stop Arguments
  | [] => .ok a
  | argument :: rest => do g.readOperands (← a.withOperand g.operands argument) rest

def read (g : Grammar) (a : Arguments) : List (List Char) → Except Stop Arguments
  | [] => .ok a
  | argument :: rest =>
    match g.awaiting? argument with
    | some rule =>
      match rest with
      | [] => .error .invalid
      | value :: rest =>
        if looksLikeOption value then .error .invalid
        else do g.read (← a.withValue rule value) rest
    | none =>
      if shapeOf argument = .divider then g.readOperands a rest
      else if g.commands && shapeOf argument = .operand then
        .ok { a with rest := argument :: rest }
      else do g.read (← g.readSingle a argument) rest

end Grammar

end LogScript.CommandLine
