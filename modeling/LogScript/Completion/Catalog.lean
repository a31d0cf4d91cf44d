import LogScript.Completion.Table.Oml
import LogScript.Completion.Table.Wpl
import LogScript.Json.Reader
import LogScript.Language

/-!
Catalogs: all completion items of a language in a locale, in the order of their table. A WPL
catalog starts with two items of its own, for packages and rules.
-/

namespace LogScript

structure Catalog where
  language : Language
  locale : Locale
  items : List Item
  deriving DecidableEq, Repr

namespace Catalog

/-- The items that come before those of the table. -/
def constructs (labels : Labels) : Language → List Item
  | .wpl =>
    [.construct "package" "package /$\x7bpath\x7d/ \x7b\n  $\x7brules\x7d\n\x7d"
        labels.packageDetail labels.packageInfo,
      .construct "rule" "rule $\x7bname\x7d \x7b(\n  $\x7bfields\x7d\n)\x7d"
        labels.ruleDetail labels.ruleInfo]
  | .oml => []

def ofEntries (language : Language) (locale : Locale) (entries : List Entry) : Catalog where
  language
  locale
  items := constructs (.of locale) language ++ entries.map (.ofEntry language (.of locale))

def rows : Language → List Completion.Row
  | .wpl => Completion.wplRows
  | .oml => Completion.omlRows

/-- The catalog that comes with the tools. -/
def builtin (language : Language) (locale : Locale) : Catalog :=
  ofEntries language locale ((rows language).map (·.entry locale))

/-- The items as a language server sends them, to be shown in the order of the catalog. -/
def serverItems (c : Catalog) : List ServerItem :=
  c.items.mapIdx fun position i => i.forServer position

/-- The first item with this label. -/
def get? (c : Catalog) (label : List Char) : Option Item :=
  c.items.find? (·.label == label)

def entryFields : List (List Char) :=
  ["label", "description", "example", "insertText", "kind"].map String.toList

def entryOfJson? (value : Json) : Option Entry := do
  let fields ← value.fields? entryFields
  return {
    label := ← Json.required? fields "label" Json.text?
    description := ← Json.field? fields "description" Json.optionalText? none
    usage := ← Json.field? fields "example" Json.optionalText? none
    insertText := ← Json.required? fields "insertText" Json.text?
    tag := ← Json.field? fields "kind" Json.optionalText? none }

def entriesOfJson? : Json → Option (List Entry)
  | .array values => values.mapM entryOfJson?
  | _ => none

/-- A catalog from the table of a host. -/
def read (language : Language) (locale : Locale) (text : List Char) : Except ToolError Catalog :=
  match (Json.read? text).bind entriesOfJson? with
  | some entries => .ok (ofEntries language locale entries)
  | none => .error (.unreadableCatalog language locale)

end Catalog

end LogScript
