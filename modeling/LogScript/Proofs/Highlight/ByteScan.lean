import LogScript.Highlight.Languages

/-!
The classifiers as readers of bytes. A scanner that keeps byte positions can go wrong in two ways:
it can read past the end of the text, or cut the text inside a character. Here the scanners and the
driving loop are written over positions in the UTF-8 bytes, and either of the two gives no result at
all. The loops come to an end because a cut that succeeds leaves a character to go on behind. That
there always is a result, and that it is the one that the runs of characters give, is shown in the
modules that build on this one.
-/

namespace LogScript.ByteScan

def bytes (text : List Char) : List UInt8 :=
  text.flatMap String.utf8EncodeChar

theorem length_bytes (text : List Char) : (bytes text).length = byteLength text := by
  induction text with
  | nil => rfl
  | cons c rest ih =>
    have hbytes : bytes (c :: rest) = String.utf8EncodeChar c ++ bytes rest := rfl
    rw [hbytes, List.length_append, ih, String.length_utf8EncodeChar, byteLength_cons]

/-- The text behind the first `n` bytes; none past the end or inside a character. -/
def dropBytes? : Nat → List Char → Option (List Char)
  | 0, text => some text
  | _ + 1, [] => none
  | n + 1, c :: rest => if c.utf8Size ≤ n + 1 then dropBytes? (n + 1 - c.utf8Size) rest else none

/-- A cut that succeeds falls between two characters. -/
theorem eq_append_of_dropBytes? {n : Nat} {text rest : List Char}
    (h : dropBytes? n text = some rest) : ∃ a, text = a ++ rest ∧ byteLength a = n := by
  induction text generalizing n with
  | nil =>
    cases n with
    | zero => exact ⟨[], by simpa [dropBytes?] using h, rfl⟩
    | succ n => simp [dropBytes?] at h
  | cons c tail ih =>
    cases n with
    | zero => exact ⟨[], by simpa [dropBytes?] using h, rfl⟩
    | succ n =>
      rw [dropBytes?] at h
      split at h
      · rename_i hle
        obtain ⟨a, rfl, ha⟩ := ih h
        exact ⟨c :: a, rfl, by rw [byteLength_cons, ha]; omega⟩
      · cases h

/-- The first `n` bytes of a text; none past the end or inside a character. -/
def takeBytes? : Nat → List Char → Option (List Char)
  | 0, _ => some []
  | _ + 1, [] => none
  | n + 1, c :: rest =>
    if c.utf8Size ≤ n + 1 then (takeBytes? (n + 1 - c.utf8Size) rest).map (c :: ·) else none

/-- The only byte of an ASCII character. -/
def ascii (c : Char) : UInt8 :=
  c.val.toUInt8

/-- A byte is in the class when it is a whole character and that character is. -/
def asciiClass (accept : Char → Bool) (b : UInt8) : Bool :=
  b.toNat < 0x80 && accept (Char.ofNat b.toNat)

/-- The length of the first character; 0 when there is none. -/
def charLength (text : List Char) : Nat :=
  text.head?.elim 0 Char.utf8Size

theorem charLength_pos {text rest : List Char} {n : Nat} (h : dropBytes? n text = some rest)
    (hn : n < byteLength text) : 0 < charLength rest := by
  obtain ⟨a, rfl, rfl⟩ := eq_append_of_dropBytes? h
  cases rest with
  | nil =>
    rw [List.append_nil] at hn
    omega
  | cons c rest => exact c.utf8Size_pos

/-- The number of leading bytes in a class. -/
def byteRun (accept : Char → Bool) (text : List Char) : Nat :=
  ((bytes text).takeWhile (asciiClass accept)).length

def blanks (text : List Char) : Nat :=
  byteLength (text.takeWhile isBlank)

/-- The position of the first line feed, or the end. -/
def lineEnd (text : List Char) : Nat :=
  byteLength (text.takeWhile (· != '\n'))

/-- Goes on through a quoted literal at position `i` of a line that ends at `stop`. -/
def quotedFrom (quote : UInt8) (text : List Char) (stop i : Nat) : Option Nat :=
  if i < stop then
    match _ : ((bytes text).take stop)[i]? with
    | none => none
    | some b =>
      if b = ascii '\\' then
        if i + 1 < stop then do
          let escaped ← dropBytes? (i + 1) text
          quotedFrom quote text stop (i + 1 + charLength escaped)
        else quotedFrom quote text stop (i + 1)
      else if b = quote then some (i + 1)
      else
        match _ : dropBytes? i text with
        | none => none
        | some rest => quotedFrom quote text stop (i + charLength rest)
  else some stop
termination_by stop - i
decreasing_by
  · omega
  · omega
  · rename_i hbyte _ _ hrest
    obtain ⟨hlength, -⟩ := List.getElem?_eq_some_iff.1 hbyte
    rw [List.length_take, length_bytes] at hlength
    have hpos := charLength_pos hrest (by omega)
    omega

def quoted (quote : UInt8) (text : List Char) : Option Nat :=
  quotedFrom quote text (lineEnd text) 1

/-- Goes on behind `length` bytes of a number through at most `limit` groups. -/
def groupsFrom (text : List Char) : Nat → Nat → Option Nat
  | 0, length => some length
  | limit + 1, length =>
    if (bytes text)[length]? = some (ascii '.') then do
      let digits := byteRun Char.isDigit (← dropBytes? (length + 1) text)
      if digits = 0 then some length else groupsFrom text limit (length + 1 + digits)
    else some length

/-- The length of a number; the inner answer tells whether there is one. -/
def number (limit : Nat) (text : List Char) : Option (Option Nat) := do
  let sign := if (bytes text)[0]? = some (ascii '-') then 1 else 0
  let int := byteRun Char.isDigit (← dropBytes? sign text)
  if int = 0 then return none
  return some (← groupsFrom text limit (sign + int))

def opensCall (text : List Char) : Bool :=
  (bytes text)[byteRun (fun c => c == ' ' || c == '\t') text]? == some (ascii '(')

/-- The word of the first `length` bytes, and whether a call follows it. -/
def wordAt (text : List Char) (length : Nat) : Option (List Char × Bool) := do
  let word ← takeBytes? length text
  let behind ← dropBytes? length text
  return (word, opensCall behind)

def classifyWpl (v : Vocabulary) (text : List Char) (_ : Unit) : Option (Step Unit) := do
  if 0 < blanks text then return ⟨blanks text, .unstyled, ()⟩
  let first ← (bytes text)[0]?
  if first = ascii '#' ∨ ['/', '/'].isPrefixOf text then
    return ⟨lineEnd text, .comment, ()⟩
  if first = ascii '"' ∨ first = ascii '\x27' then
    return ⟨← quoted first text, .string, ()⟩
  if let some length ← number 1 text then return ⟨length, .number, ()⟩
  if asciiClass Highlight.punctuation.contains first then return ⟨1, .operator, ()⟩
  let length := byteRun Highlight.isWplWordChar text
  if 0 < length then
    let (word, call) ← wordAt text length
    return ⟨length, (v.roleOf word {} call).category, ()⟩
  return ⟨charLength text, .unstyled, ()⟩

/-- The punctuation and words of OML, where `first` is the first byte. -/
def classifyOmlWord (v : Vocabulary) (text : List Char) (s : Highlight.OmlState) (first : UInt8) :
    Option (Step Highlight.OmlState) := do
  if asciiClass Highlight.punctuation.contains first then
    return ⟨1, .operator, s.pastOperator (Char.ofNat first.toNat)⟩
  let length := byteRun Highlight.isOmlWordChar text
  if 0 < length then
    let (word, call) ← wordAt text length
    let role := v.roleOf word s.position call
    return ⟨length, role.category, s.pastWord role⟩
  return ⟨charLength text, .unstyled, s⟩

def classifyOml (v : Vocabulary) (text : List Char) (s : Highlight.OmlState) :
    Option (Step Highlight.OmlState) := do
  if 0 < blanks text then return ⟨blanks text, .unstyled, s⟩
  let first ← (bytes text)[0]?
  if first = ascii '#' ∨ ['/', '/'].isPrefixOf text then
    return ⟨lineEnd text, .comment, s⟩
  if ['-', '-', '-'].isPrefixOf text then return ⟨3, .keyword, s.pastSeparator⟩
  if first = ascii '"' then return ⟨← quoted first text, .string, s⟩
  if let some length ← number 3 text then return ⟨length, .number, s⟩
  if first = ascii '@' then
    let name := byteRun Run.isWordChar (← dropBytes? 1 text)
    return ⟨1 + name, if 0 < name then .variableName else .operator, s⟩
  if first = ascii '/' then
    let path := byteRun Highlight.isOmlPathChar (← dropBytes? 1 text)
    if 0 < path then return ⟨1 + path, .string, s⟩ else classifyOmlWord v text s first
  else classifyOmlWord v text s first

/-- A number of JSON: one group, and perhaps an exponent with digits. -/
def jsonNumber (text : List Char) : Option (Option Nat) := do
  let some length ← number 1 text | return none
  let mark := (bytes text)[length]?
  if mark = some (ascii 'e') ∨ mark = some (ascii 'E') then
    let signed := (bytes text)[length + 1]?
    let sign := if signed = some (ascii '+') ∨ signed = some (ascii '-') then 1 else 0
    let digits := byteRun Char.isDigit (← dropBytes? (length + 1 + sign) text)
    if 0 < digits then return some (length + (1 + sign + digits))
  return some length

def classifyJson (text : List Char) (_ : Unit) : Option (Step Unit) := do
  if 0 < blanks text then return ⟨blanks text, .unstyled, ()⟩
  let first ← (bytes text)[0]?
  if first = ascii '"' then return ⟨← quoted first text, .string, ()⟩
  if let some length ← jsonNumber text then return ⟨length, .number, ()⟩
  if asciiClass Highlight.isJsonOperator first then return ⟨1, .operator, ()⟩
  let length := byteRun Run.isWordChar text
  if 0 < length then
    let word ← takeBytes? length text
    return ⟨length, if Highlight.isJsonLiteral word then .atom else .unstyled, ()⟩
  return ⟨charLength text, .unstyled, ()⟩

/-- The tokens of a text from position `start` on, and the state behind them. A length of 0 is
taken as the length of the next character, a length past the end as all that is left. -/
def drive {σ : Type} (classify : List Char → σ → Option (Step σ)) (text : List Char)
    (start : Nat) (state : σ) : Option (List Token × σ) :=
  if start < byteLength text then
    match _ : dropBytes? start text with
    | none => none
    | some rest => do
      let step ← classify rest state
      let length :=
        if step.length = 0 then charLength rest else min step.length (byteLength text - start)
      let later ← drive classify text (start + length) step.state
      return (⟨start, start + length, step.category⟩ :: later.1, later.2)
  else some ([], state)
termination_by byteLength text - start
decreasing_by
  have hpos := charLength_pos ‹dropBytes? start text = some rest› ‹start < byteLength text›
  split <;> omega

end LogScript.ByteScan
