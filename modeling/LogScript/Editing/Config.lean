import LogScript.Highlight.Token
import LogScript.Json.Reader
import LogScript.Language

/-!
The configuration of an editor, as its host writes it; every field may be missing. A theme fixes the
colours; the host may choose the text colour itself. Every styled category has a CSS class and a colour.
-/

namespace LogScript

inductive Theme where
  | vscodeDark
  | oneDark
  deriving DecidableEq, Repr

namespace Theme

def name : Theme → String
  | .vscodeDark => "vscodeDark"
  | .oneDark => "oneDark"

/-- The empty name stands for the default theme, an unknown one for the other. -/
def ofName (name : List Char) : Theme :=
  if name.isEmpty ∨ name = "vscodeDark".toList then .vscodeDark else .oneDark

end Theme

structure Style where
  cssClass : String
  color : List Char
  deriving DecidableEq, Repr

structure Palette where
  theme : Theme
  background : String
  foreground : List Char
  comment : String
  variableName : List Char
  deriving DecidableEq, Repr

namespace Palette

def of (theme : Theme) (textColor : Option (List Char)) : Palette :=
  let (background, foreground, comment) := match theme with
    | .vscodeDark => ("#1e1e1e", "#d4d4d4", "#6a9955")
    | .oneDark => ("#282c34", "#abb2bf", "#7d8799")
  ⟨theme, background, textColor.getD foreground.toList, comment,
    textColor.getD "#e2e8f0".toList⟩

def color? (p : Palette) : Category → Option (List Char)
  | .comment => some p.comment.toList
  | .string => some "#86efac".toList
  | .number => some "#fde047".toList
  | .keyword => some "#80F4FF".toList
  | .typeName => some "#FFF2b3".toList
  | .function => some "#68BEA6".toList
  | .atom => some "#a5b4fcff".toList
  | .variableName => some p.variableName
  | .operator => some "#cbd5f5".toList
  | .unstyled => none

def style? (p : Palette) (c : Category) : Option Style :=
  (p.color? c).map (fun color => ⟨"cm-highlight-" ++ c.name, color⟩)

end Palette

structure Config where
  mode : Mode := .plain
  theme : Theme := .vscodeDark
  textColor : Option (List Char) := none
  deriving DecidableEq, Repr

namespace Config

def palette (c : Config) : Palette :=
  .of c.theme c.textColor

/-- The exact name of a mode, alone or as the only key of an object with the value null. -/
def modeOfJson? : Json → Option Mode
  | .string (some name) =>
    [Mode.plain, .wpl, .oml, .json].find? (fun m => m.name.toList == name)
  | .object [(some name, .null)] =>
    [Mode.plain, .wpl, .oml, .json].find? (fun m => m.name.toList == name)
  | _ => none

def ofJson? (value : Json) : Option Config := do
  let fields ← value.fields? (["language", "theme", "textColor"].map String.toList)
  return {
    mode := ← Json.field? fields "language" modeOfJson? .plain
    theme := ← Json.field? fields "theme" (fun v => v.text?.map Theme.ofName) .vscodeDark
    textColor := ← Json.field? fields "textColor" Json.optionalText? none }

def read (text : List Char) : Except ToolError Config :=
  match (Json.read? text).bind ofJson? with
  | some c => .ok c
  | none => .error .unreadableRequest

end Config

end LogScript
