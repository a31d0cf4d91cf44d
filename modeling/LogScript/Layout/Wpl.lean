import LogScript.Layout.Bracket
import LogScript.Text.Alphanumeric
import LogScript.Text.Lines

/-!
The layout of WPL. Three passes, each moving blank characters only:

* an attribute in square brackets that spans lines is folded onto one line;
* the calls `json(…)`, `csv(…)` and `kv(…)` get a line per argument;
* a tuple that opens a line gets a line per field.
-/

namespace LogScript.Layout

/-- One level of indentation. -/
def indentStep : List Char :=
  List.replicate 4 ' '

/-- An attribute at the front of a text, folded onto one line with what else stands on its last
line, and the text behind that line. -/
def foldAttribute? (text : List Char) : Option (List Char × List Char) :=
  match text with
  | '#' :: '[' :: body =>
    (splitClosing '[' ']' .outside 0 body).map fun (inner, after) =>
      let tail := trim (firstLine after)
      let gap := if tail.isEmpty then [] else [' ']
      (['#', '['] ++ [' '].intercalate (words inner) ++ [']'] ++ gap ++ tail, afterFirstLine after)
  | _ => none

theorem length_lt_of_foldAttribute? {text folded rest : List Char}
    (h : foldAttribute? text = some (folded, rest)) : rest.length < text.length := by
  unfold foldAttribute? at h
  split at h
  · obtain ⟨⟨inner, after⟩, hs, he⟩ := Option.map_eq_some_iff.1 h
    cases he
    rw [eq_of_splitClosing hs]
    simp only [afterFirstLine, List.length_drop, List.length_cons, List.length_append]
    omega
  · cases h

/-- Folds every attribute that opens a line. Every line of the result ends with a line feed. -/
def foldAttributes (text : List Char) : List Char :=
  match text with
  | [] => []
  | c :: more =>
    let line := firstLine (c :: more)
    let indent := indentOf line
    match _ : foldAttribute? ((c :: more).drop indent.length) with
    | some (folded, rest) => indent ++ folded ++ '\n' :: foldAttributes rest
    | none => line ++ '\n' :: foldAttributes (afterFirstLine (c :: more))
termination_by text.length
decreasing_by
  · have := length_lt_of_foldAttribute? ‹_›
    simp only [List.length_drop] at this
    omega
  · simp only [afterFirstLine, List.length_drop, List.length_cons]
    omega

theorem foldAttributes_of_fold {c : Char} {more folded rest : List Char}
    (h : foldAttribute? ((c :: more).drop (indentOf (firstLine (c :: more))).length) =
      some (folded, rest)) :
    foldAttributes (c :: more) =
      indentOf (firstLine (c :: more)) ++ folded ++ '\n' :: foldAttributes rest := by
  rw [foldAttributes.eq_def]
  dsimp only
  split
  · rename_i hfold
    cases h.symm.trans hfold
    rfl
  · rename_i hnone
    cases h.symm.trans hnone

theorem foldAttributes_of_none {c : Char} {more : List Char}
    (h : foldAttribute? ((c :: more).drop (indentOf (firstLine (c :: more))).length) = none) :
    foldAttributes (c :: more) =
      firstLine (c :: more) ++ '\n' :: foldAttributes (afterFirstLine (c :: more)) := by
  rw [foldAttributes.eq_def]
  dsimp only
  split
  · rename_i hfold
    cases h.symm.trans hfold
  · rfl

/-- The calls that are split, each with its opening parenthesis. -/
def splitCallNames : List (List Char) :=
  ["json(".toList, "csv(".toList, "kv(".toList]

def callAt? (text : List Char) : Option (List Char) :=
  splitCallNames.find? (·.isPrefixOf text)

def isNameChar (c : Char) : Bool :=
  isAlphanumeric c || c == '_'

/-- The first call whose name is not the end of a longer name: the text before it, the call with
its opening parenthesis, and the text behind that. `bounded` tells that no name runs up to the
front of the text. -/
def findCall? (bounded : Bool) : List Char → Option (List Char × List Char × List Char)
  | [] => none
  | c :: rest =>
    match if bounded then callAt? (c :: rest) else none with
    | some call => some ([], call, (c :: rest).drop call.length)
    | none => (findCall? (!isNameChar c) rest).map (fun r => (c :: r.1, r.2))

theorem eq_of_findCall? {bounded : Bool} {text before call inner : List Char}
    (h : findCall? bounded text = some (before, call, inner)) :
    text = before ++ call ++ inner := by
  induction text generalizing bounded before with
  | nil => simp [findCall?] at h
  | cons c rest ih =>
    rw [findCall?] at h
    split at h
    · rename_i hc
      cases h
      split at hc
      · have hp := List.find?_some hc
        have := List.prefix_iff_eq_append.1 (List.isPrefixOf_iff_prefix.1 hp)
        simpa using this.symm
      · cases hc
    · obtain ⟨⟨b, k, i⟩, hr, he⟩ := Option.map_eq_some_iff.1 h
      cases he
      rw [ih hr]
      rfl

/-- Splits a text behind its last line feed. -/
def splitLastLine (text : List Char) : List Char × List Char :=
  let reversed := text.reverse
  ((reversed.dropWhile (· != '\n')).reverse, (reversed.takeWhile (· != '\n')).reverse)

/-- A call on lines of its own. Code in front of it keeps its line, and the call moves one level
in; code behind it gets a line too. -/
def layoutCall (lead call : List Char) (args : Arguments) (suffix : List Char) : List Char :=
  let indent := indentOf lead
  let inner := if allBlank lead then indent else indent ++ indentStep
  (if allBlank lead then [] else lead ++ ['\n']) ++
    inner ++ call ++ ['\n'] ++
    argumentLines (inner ++ indentStep) args.trailingComma args.items ++
    inner ++ [')'] ++
    (if (trim suffix).isEmpty then [] else '\n' :: indent ++ trim suffix) ++ ['\n']

/-- Splits every call that is closed; a call without arguments keeps its line as it is. -/
def splitCalls (text : List Char) : List Char :=
  match _ : findCall? true text with
  | none => text
  | some (before, call, inner) =>
    match _ : splitClosing '(' ')' .outside 0 inner with
    | none => text
    | some (body, after) =>
      let args := Arguments.ofText body
      let (done, lead) := splitLastLine before
      let here :=
        if args.items.isEmpty then
          before ++ call ++ body ++ ')' :: after.take ((firstLine after).length + 1)
        else done ++ layoutCall lead call args (firstLine after)
      here ++ splitCalls (afterFirstLine after)
termination_by text.length
decreasing_by
  rw [eq_of_findCall? ‹findCall? true text = _›,
    eq_of_splitClosing ‹splitClosing _ _ _ _ inner = _›]
  simp only [afterFirstLine, List.length_drop, List.length_cons, List.length_append]
  omega

theorem splitCalls_of_none {text : List Char} (h : findCall? true text = none) :
    splitCalls text = text := by
  rw [splitCalls.eq_def]
  split
  · rfl
  · rename_i hfind
    cases h.symm.trans hfind

theorem splitCalls_of_open {text before call inner : List Char}
    (hfind : findCall? true text = some (before, call, inner))
    (hopen : splitClosing '(' ')' .outside 0 inner = none) : splitCalls text = text := by
  rw [splitCalls.eq_def]
  split
  · rfl
  · rename_i hfind'
    cases hfind.symm.trans hfind'
    split
    · rfl
    · rename_i hclose
      cases hopen.symm.trans hclose

theorem splitCalls_of_closed {text before call inner body after : List Char}
    (hfind : findCall? true text = some (before, call, inner))
    (hclose : splitClosing '(' ')' .outside 0 inner = some (body, after)) :
    splitCalls text =
      (if (Arguments.ofText body).items.isEmpty then
        before ++ call ++ body ++ ')' :: after.take ((firstLine after).length + 1)
      else (splitLastLine before).1 ++
        layoutCall (splitLastLine before).2 call (Arguments.ofText body) (firstLine after)) ++
        splitCalls (afterFirstLine after) := by
  rw [splitCalls.eq_def]
  split
  · rename_i hnone
    cases hfind.symm.trans hnone
  · rename_i hfind'
    cases hfind.symm.trans hfind'
    split
    · rename_i hopen
      cases hclose.symm.trans hopen
    · rename_i hclose'
      cases hclose.symm.trans hclose'
      rfl

/-- A line that opens with a parenthesis which no split call follows. -/
def opensTuple (line : List Char) : Bool :=
  match trimStart line with
  | '(' :: rest => (callAt? rest).isNone
  | _ => false

/-- Takes further lines until the parentheses are balanced or no line is left. -/
def gatherLines (b : Balance) : List (List Char) → List (List Char) × List (List Char)
  | [] => ([], [])
  | line :: rest =>
    if b.depth ≤ 0 then ([], line :: rest)
    else
      let later := gatherLines ((b.past '\n').pastText line) rest
      (line :: later.1, later.2)

theorem gatherLines_append (b : Balance) (ls : List (List Char)) :
    (gatherLines b ls).1 ++ (gatherLines b ls).2 = ls := by
  induction ls generalizing b with
  | nil => rfl
  | cons line rest ih =>
    rw [gatherLines]
    split
    · rfl
    · simp [ih]

theorem length_gatherLines (b : Balance) (ls : List (List Char)) :
    (gatherLines b ls).2.length ≤ ls.length := by
  have := congrArg List.length (gatherLines_append b ls)
  rw [List.length_append] at this
  omega

/-- A tuple with a line per field; a block that is not closed, or has no field, stays as it is. -/
def layoutTuple (block : List Char) : List Char :=
  let indent := indentOf block
  match splitClosing '(' ')' .outside 0 (block.drop (indent.length + 1)) with
  | none => block ++ ['\n']
  | some (body, after) =>
    let args := Arguments.ofText body
    if args.items.isEmpty then block ++ ['\n']
    else
      indent ++ ['(', '\n'] ++ argumentLines (indent ++ indentStep) args.trailingComma args.items ++
        indent ++ [')'] ++ trim after ++ ['\n']

def splitTuples (ls : List (List Char)) : List Char :=
  match ls with
  | [] => []
  | line :: rest =>
    if opensTuple line then
      let gathered := gatherLines (Balance.pastText {} line) rest
      layoutTuple (joinLines (line :: gathered.1)) ++ splitTuples gathered.2
    else line ++ '\n' :: splitTuples rest
termination_by ls.length
decreasing_by
  · have := length_gatherLines (Balance.pastText {} line) rest
    simp only [List.length_cons]
    omega
  · simp

def formatWpl (text : List Char) : List Char :=
  splitTuples (lines (splitCalls (foldAttributes (normalizeNewlines text))))

end LogScript.Layout
