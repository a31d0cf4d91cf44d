import LogScript.Text.Blank

/-!
String literals and bracketed text. A literal goes from one double quote to the next that no backslash
escapes; a line break does not end it. Brackets inside string literals do not count.
-/

namespace LogScript.Layout

/-- Where the next character stands. -/
inductive Quoting where
  | outside
  | inside
  | escaped
  deriving DecidableEq, Repr

namespace Quoting

def next : Quoting → Char → Quoting
  | .outside, c => if c == '"' then .inside else .outside
  | .inside, c => if c == '\\' then .escaped else if c == '"' then .outside else .inside
  | .escaped, _ => .inside

/-- The character belongs to a literal, quotes included. -/
def covers (q : Quoting) (c : Char) : Bool :=
  q != .outside || c == '"'

theorem eq_outside_of_not_covers {q : Quoting} {c : Char} (h : q.covers c = false) :
    q = .outside := by
  cases q <;> simp_all [covers]

theorem next_of_not_covers {q : Quoting} {c : Char} (h : q.covers c = false) :
    q.next c = .outside := by
  cases q <;> simp_all [covers, next]

end Quoting

/-- The rest of the literal that is open, through its closing quote, or everything. -/
def literalRest (q : Quoting) : List Char → List Char
  | [] => []
  | c :: rest => if q.next c = .outside then [c] else c :: literalRest (q.next c) rest

theorem prefix_of_literalRest (q : Quoting) (text : List Char) : literalRest q text <+: text := by
  induction text generalizing q with
  | nil => exact List.prefix_rfl
  | cons c rest ih =>
    rw [literalRest]
    split
    · exact List.cons_prefix_cons.2 ⟨rfl, List.nil_prefix⟩
    · exact List.cons_prefix_cons.2 ⟨rfl, ih (q.next c)⟩

/-- Splits the text behind an opening bracket at the bracket that closes it; `depth` more
brackets of the kind are open inside. -/
def splitClosing (opening closing : Char) (q : Quoting) (depth : Nat) :
    List Char → Option (List Char × List Char)
  | [] => none
  | c :: rest =>
    let found (depth : Nat) :=
      (splitClosing opening closing (q.next c) depth rest).map (fun r => (c :: r.1, r.2))
    if q.covers c then found depth
    else if c == opening then found (depth + 1)
    else if c == closing then
      if depth = 0 then some ([], rest) else found (depth - 1)
    else found depth

theorem eq_of_splitClosing {opening closing : Char} {q : Quoting} {depth : Nat}
    {text inner after : List Char}
    (h : splitClosing opening closing q depth text = some (inner, after)) :
    text = inner ++ closing :: after := by
  induction text generalizing q depth inner with
  | nil => simp [splitClosing] at h
  | cons c rest ih =>
    have step : ∀ {d}, (splitClosing opening closing (q.next c) d rest).map
        (fun r => (c :: r.1, r.2)) = some (inner, after) → c :: rest = inner ++ closing :: after := by
      intro d hd
      obtain ⟨⟨i, a⟩, hr, he⟩ := Option.map_eq_some_iff.1 hd
      cases he
      rw [ih hr, List.cons_append]
    rw [splitClosing] at h
    split at h
    · exact step h
    · split at h
      · exact step h
      · split at h
        · rename_i hc
          split at h
          · cases h
            simp [eq_of_beq hc]
          · exact step h
        · exact step h

/-- The depth of nesting behind a character, counting all four kinds of bracket alike. -/
def nesting (depth : Nat) (c : Char) : Nat :=
  if c == '(' || c == '[' || c == '\x7b' || c == '<' then depth + 1
  else if c == ')' || c == ']' || c == '\x7d' || c == '>' then depth - 1
  else depth

/-- The pieces between the commas that stand outside brackets and literals. -/
def commaPieces (q : Quoting) (depth : Nat) : List Char → List (List Char)
  | [] => [[]]
  | c :: rest =>
    if q.covers c then consHead c (commaPieces (q.next c) depth rest)
    else if c == ',' && depth == 0 then [] :: commaPieces .outside depth rest
    else consHead c (commaPieces .outside (nesting depth c) rest)

/-- A count of parentheses: how many are open, negative when more were closed than opened, and
whether the text so far ends inside a literal. -/
structure Balance where
  quoting : Quoting := .outside
  depth : Int := 0
  deriving DecidableEq, Repr

namespace Balance

def past (b : Balance) (c : Char) : Balance :=
  let change : Int :=
    if b.quoting.covers c then 0 else if c == '(' then 1 else if c == ')' then -1 else 0
  ⟨b.quoting.next c, b.depth + change⟩

def pastText (b : Balance) (text : List Char) : Balance :=
  text.foldl past b

end Balance

/-- The items of a bracketed list, trimmed, and whether a comma follows the last. -/
structure Arguments where
  items : List (List Char)
  trailingComma : Bool

def Arguments.ofText (body : List Char) : Arguments :=
  let pieces := (commaPieces .outside 0 body).map trim
  let tail := pieces.getLast?.getD []
  ⟨if tail.isEmpty then pieces.dropLast else pieces, tail.isEmpty && pieces.length != 1⟩

/-- One line per item; commas between the items, and behind the last if the list had one. -/
def argumentLines (indent : List Char) (trailingComma : Bool) : List (List Char) → List Char
  | [] => []
  | [item] => indent ++ item ++ (if trailingComma then [','] else []) ++ ['\n']
  | item :: items => indent ++ item ++ [',', '\n'] ++ argumentLines indent trailingComma items

end LogScript.Layout
