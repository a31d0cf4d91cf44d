import LogScript.Completion.Template
import LogScript.Language

/-!
Completion items with the fixed texts of each locale, and the table entries they are made from. A row
of the tables that come with the tools holds the descriptions for all locales; the rest of an entry is
the same everywhere.
-/

namespace LogScript

structure Labels where
  description : String
  /-- The label of an example of use. -/
  usage : String
  /-- Between a label and its value. -/
  separator : String
  packageDetail : String
  packageInfo : String
  ruleDetail : String
  ruleInfo : String

namespace Labels

def of : Locale → Labels
  | .zhCN =>
    { description := "说明", usage := "示例", separator := "："
      packageDetail := "包定义", packageInfo := "定义 WPL 包路径与作用域。"
      ruleDetail := "规则定义", ruleInfo := "定义规则名称与规则体。" }
  | .enUS =>
    { description := "Description", usage := "Example", separator := ": "
      packageDetail := "Package", packageInfo := "Define WPL package path and scope."
      ruleDetail := "Rule", ruleInfo := "Define rule name and body." }

/-- A labelled line for a value that is there and not empty. -/
def line? (l : Labels) (label : String) (value : Option (List Char)) : Option (List Char) :=
  (value.filter (fun v => !v.isEmpty)).map (fun v => label.toList ++ l.separator.toList ++ v)

/-- The description and the example, a line each; nothing when both are missing or empty. -/
def info? (l : Labels) (description usage : Option (List Char)) : Option (List Char) :=
  match [l.line? l.description description, l.line? l.usage usage].filterMap id with
  | [] => none
  | ls => some (['\n'].intercalate ls)

end Labels

inductive ItemKind where
  | keyword
  | typeName
  | function
  | variableName
  | constant
  | text
  deriving DecidableEq, Repr

namespace ItemKind

/-- The kind a table tag stands for; unknown tags mean text. -/
def ofTag (tag : List Char) : ItemKind :=
  if tag = "keyword".toList then .keyword
  else if tag = "type".toList ∨ tag = "typeName".toList then .typeName
  else if tag = "function".toList then .function
  else if tag = "variable".toList ∨ tag = "variableName".toList then .variableName
  else if tag = "constant".toList ∨ tag = "atom".toList then .constant
  else .text

/-- The kind of entries without a tag. -/
def ofLanguage : Language → ItemKind
  | .oml => .function
  | .wpl => .text

def name : ItemKind → String
  | .keyword => "keyword"
  | .typeName => "type"
  | .function => "function"
  | .variableName => "variable"
  | .constant => "constant"
  | .text => "text"

/-- The number of the kind in the language-server protocol. -/
def number : ItemKind → Nat
  | .keyword => 14
  | .typeName => 25
  | .function => 3
  | .variableName => 6
  | .constant => 21
  | .text => 1

end ItemKind

/-- A record of a completion table. -/
structure Entry where
  label : List Char
  description : Option (List Char)
  /-- An example of use. -/
  usage : Option (List Char)
  insertText : List Char
  /-- The tag of the item kind. -/
  tag : Option (List Char)
  deriving DecidableEq, Repr

structure Item where
  label : List Char
  kind : ItemKind
  /-- The template that is inserted. -/
  insertText : List Char
  detail : Option (List Char)
  info : Option (List Char)
  usage : Option (List Char)
  deriving DecidableEq, Repr

namespace Item

def segments (i : Item) : List Template.Segment :=
  Template.parse i.insertText

def ofEntry (language : Language) (labels : Labels) (e : Entry) : Item where
  label := e.label
  kind := (e.tag.map ItemKind.ofTag).getD (.ofLanguage language)
  insertText := e.insertText
  detail := e.description.filter (fun d => !d.isEmpty)
  info := labels.info? e.description e.usage
  usage := e.usage

/-- An item for a language construct. -/
def construct (label template detail info : String) : Item where
  label := label.toList
  kind := .keyword
  insertText := template.toList
  detail := some detail.toList
  info := some info.toList
  usage := none

/-- The text of a position in a list, with at least four digits. -/
def sortText (index : Nat) : List Char :=
  let digits := Template.decimal index
  List.replicate (4 - digits.length) '0' ++ digits

/-- The text a language server sends for insertion, and whether it is a snippet. -/
def serverText (i : Item) : List Char × Bool :=
  if Template.hasSlots i.segments then (Template.renderSnippet i.segments, true)
  else (i.insertText, false)

end Item

/-- What a language server sends of an item. -/
structure ServerItem where
  label : List Char
  kind : ItemKind
  detail : Option (List Char)
  insertText : List Char
  isSnippet : Bool
  documentation : Option (List Char)
  /-- Clients sort the items by this text. -/
  sortText : List Char
  deriving DecidableEq, Repr

/-- An item for a client that is to show it at this position. -/
def Item.forServer (i : Item) (position : Nat) : ServerItem where
  label := i.label
  kind := i.kind
  detail := i.detail
  insertText := i.serverText.1
  isSnippet := i.serverText.2
  documentation := i.info
  sortText := sortText position

end LogScript

namespace LogScript.Completion

structure Row where
  label : String
  tag : Option String
  insertText : String
  usage : String
  english : String
  chinese : String

def Row.description (r : Row) : Locale → String
  | .enUS => r.english
  | .zhCN => r.chinese

def Row.entry (r : Row) (locale : Locale) : Entry where
  label := r.label.toList
  description := some (r.description locale).toList
  usage := some r.usage.toList
  insertText := r.insertText.toList
  tag := r.tag.map String.toList

end LogScript.Completion
