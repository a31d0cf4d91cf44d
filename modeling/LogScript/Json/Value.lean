/-!
JSON values as a host sends them, and how records are taken out of them. Numbers keep no value,
since no record of the tools has a numeric field.

A string whose escapes leave half of a surrogate pair has no text. It may stand where nobody
reads it, so the reader keeps it as a value of its own and only the record decoders refuse it.
-/

namespace LogScript

inductive Json where
  | null
  | bool (value : Bool)
  | number
  | string (text : Option (List Char))
  | array (items : List Json)
  | object (members : List (Option (List Char) × Json))

namespace Json

def text? : Json → Option (List Char)
  | .string text => text
  | _ => none

def bool? : Json → Option Bool
  | .bool value => some value
  | _ => none

def texts? : Json → Option (List (List Char))
  | .array items => items.mapM text?
  | _ => none

/-- A text, or `null` for none. -/
def optionalText? : Json → Option (Option (List Char))
  | .null => some none
  | value => value.text?.map some

/-- The fields of a record with these names, in declared order. An object may have members the
record does not know, but no known one twice. An array lists the fields by position and may
stop early. -/
def fields? (names : List (List Char)) : Json → Option (List (List Char × Json))
  | .object members =>
    match members.mapM (fun m => m.1.map (fun key => (key, m.2))) with
    | none => none
    | some members =>
      let known := members.filter (fun m => names.contains m.1)
      if (known.map Prod.fst).Nodup then some known else none
  | .array items =>
    if items.length ≤ names.length then some (names.zip items) else none
  | _ => none

/-- A field that may be missing; when present it has to decode. -/
def field? {α : Type} (fields : List (List Char × Json)) (name : String)
    (decode : Json → Option α) (missing : α) : Option α :=
  match fields.lookup name.toList with
  | none => some missing
  | some value => decode value

/-- A field that has to be there. -/
def required? {α : Type} (fields : List (List Char × Json)) (name : String)
    (decode : Json → Option α) : Option α :=
  (fields.lookup name.toList).bind decode

end Json

end LogScript
