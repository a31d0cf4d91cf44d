import LogScript.Json.Token
import LogScript.Json.Value

/-!
The grammatical half of reading JSON. A reader goes through the tokens once; it keeps the
containers that are still open and what may come next. A text is read when one value is
complete and nothing follows it.
-/

namespace LogScript.Json

/-- A container that is still open, with its contents so far in reverse. -/
inductive Frame where
  | array (items : List Json)
  | object (members : List (Option (List Char) × Json))
  | member (members : List (Option (List Char) × Json)) (key : Option (List Char))

/-- What the next token may be. -/
inductive Expect where
  | value
  | valueOrClose
  | key
  | keyOrClose
  | colon
  | commaOrClose
  | nothing
  deriving DecidableEq

structure Reader where
  frames : List Frame
  expect : Expect
  /-- The value that is complete once no container is open. -/
  result : Option Json

namespace Reader

def start : Reader :=
  ⟨[], .value, none⟩

/-- A value is complete: it is the result, or an entry of the innermost container. -/
def put (value : Json) : List Frame → Option Reader
  | [] => some ⟨[], .nothing, some value⟩
  | .array items :: rest => some ⟨.array (value :: items) :: rest, .commaOrClose, none⟩
  | .member members key :: rest =>
    some ⟨.object ((key, value) :: members) :: rest, .commaOrClose, none⟩
  | .object _ :: _ => none

/-- A token where a value may start. -/
def startValue (frames : List Frame) : Token → Option Reader
  | .openObject => some ⟨.object [] :: frames, .keyOrClose, none⟩
  | .openArray => some ⟨.array [] :: frames, .valueOrClose, none⟩
  | .null => put .null frames
  | .bool value => put (.bool value) frames
  | .number => put .number frames
  | .string text => put (.string text) frames
  | _ => none

/-- A token where a key may start. -/
def startKey (frames : List Frame) (token : Token) : Option Reader :=
  match frames, token with
  | .object members :: rest, .string key => some ⟨.member members key :: rest, .colon, none⟩
  | _, _ => none

def close (frames : List Frame) (token : Token) : Option Reader :=
  match frames, token with
  | .array items :: rest, .closeArray => put (.array items.reverse) rest
  | .object members :: rest, .closeObject => put (.object members.reverse) rest
  | _, _ => none

def next (frames : List Frame) : Option Reader :=
  match frames with
  | .array items :: rest => some ⟨.array items :: rest, .value, none⟩
  | .object members :: rest => some ⟨.object members :: rest, .key, none⟩
  | _ => none

def step (r : Reader) (token : Token) : Option Reader :=
  match r.expect with
  | .value => startValue r.frames token
  | .valueOrClose =>
    if token = .closeArray then close r.frames token else startValue r.frames token
  | .key => startKey r.frames token
  | .keyOrClose =>
    if token = .closeObject then close r.frames token else startKey r.frames token
  | .colon => if token = .colon then some ⟨r.frames, .value, none⟩ else none
  | .commaOrClose => if token = .comma then next r.frames else close r.frames token
  | .nothing => none

end Reader

/-- The value a text denotes, if it is a JSON document. -/
def read? (text : List Char) : Option Json := do
  let tokens ← tokens? text
  let reader ← tokens.foldlM Reader.step Reader.start
  reader.result

end LogScript.Json
