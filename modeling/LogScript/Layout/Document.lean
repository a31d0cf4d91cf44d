import LogScript.Language
import LogScript.Layout.OmlBody
import LogScript.Layout.Wpl

/-!
The layout of whole documents. Only blank characters move: the visible characters of the result are
those of the text, in the same order.

An OML document is a header, a body and a privacy section, divided by lines `---`; without a divider
everything is body. Header and privacy section are laid out line by line, the body statement by
statement.
-/

namespace LogScript.Layout

def separator : List Char :=
  ['-', '-', '-']

/-- Joins lines to an attribute until its brackets are balanced or no line is left. -/
def gatherAttribute (text : List Char) : List (List Char) → List Char × List (List Char)
  | [] => (text, [])
  | line :: rest =>
    if (splitClosing '[' ']' .outside 0 (text.drop 2)).isSome then (text, line :: rest)
    else gatherAttribute (text ++ ' ' :: trim line) rest

theorem length_gatherAttribute (text : List Char) (rest : List (List Char)) :
    (gatherAttribute text rest).2.length ≤ rest.length := by
  induction rest generalizing text with
  | nil => simp [gatherAttribute]
  | cons line rest ih =>
    rw [gatherAttribute]
    split
    · simp
    · have := ih (text ++ ' ' :: trim line)
      simp only [List.length_cons]
      omega

/-- The lines of a header or privacy section. Lines without a colon under a line that ends with
one are its values, and go one level in. -/
def sectionLines (underKey : Bool) (ls : List (List Char)) : List Line :=
  match ls with
  | [] => []
  | line :: rest =>
    let content := trim line
    if content.isEmpty then .blank :: sectionLines underKey rest
    else if opensComment content then .text 0 content :: sectionLines underKey rest
    else if ['#', '['].isPrefixOf content then
      .text 0 (normalizeAttribute (gatherAttribute content rest).1) ::
        sectionLines false (gatherAttribute content rest).2
    else if content.getLast? = some ':' then
      .text 0 (trimEnd content.dropLast ++ [' ', ':', ' ']) :: sectionLines true rest
    else if underKey && !content.contains ':' then .text 1 content :: sectionLines underKey rest
    else .text 0 content :: sectionLines false rest
termination_by ls.length
decreasing_by
  all_goals simp only [List.length_cons]
  all_goals first
    | omega
    | have := length_gatherAttribute (trim line) rest
      omega

/-- Splits the lines around the first separator. -/
def splitSeparator? : List (List Char) → Option (List (List Char) × List (List Char))
  | [] => none
  | line :: rest =>
    if trim line = separator then some ([], rest)
    else (splitSeparator? rest).map (fun r => (line :: r.1, r.2))

theorem splitSeparator?_eq_none {ls : List (List Char)} :
    splitSeparator? ls = none ↔ ∀ line ∈ ls, trim line ≠ separator := by
  induction ls with
  | nil => simp [splitSeparator?]
  | cons line rest ih =>
    rw [splitSeparator?, List.forall_mem_cons]
    split
    · rename_i h
      simp [h]
    · rename_i h
      rw [Option.map_eq_none_iff, ih]
      exact (and_iff_right h).symm

theorem splitSeparator?_eq_some {ls before after : List (List Char)} :
    splitSeparator? ls = some (before, after) ↔
      ∃ line, ls = before ++ line :: after ∧ trim line = separator ∧
        ∀ l ∈ before, trim l ≠ separator := by
  induction ls generalizing before with
  | nil => simp [splitSeparator?]
  | cons line rest ih =>
    rw [splitSeparator?]
    split
    · rename_i h
      constructor
      · rintro ⟨rfl, rfl⟩
        exact ⟨line, rfl, h, by simp⟩
      · rintro ⟨line', hls, -, hbefore⟩
        cases before with
        | nil =>
          cases hls
          rfl
        | cons l before =>
          cases hls
          exact absurd h (hbefore line List.mem_cons_self)
    · rename_i h
      rw [Option.map_eq_some_iff]
      constructor
      · rintro ⟨⟨front, back⟩, hsplit, hpair⟩
        cases hpair
        obtain ⟨line', rfl, hline', hfront⟩ := ih.1 hsplit
        exact ⟨line', rfl, hline', List.forall_mem_cons.2 ⟨h, hfront⟩⟩
      · rintro ⟨line', hls, hline', hbefore⟩
        cases before with
        | nil =>
          cases hls
          exact absurd hline' h
        | cons l before =>
          cases hls
          obtain ⟨-, hfront⟩ := List.forall_mem_cons.1 hbefore
          exact ⟨_, ih.2 ⟨line', rfl, hline', hfront⟩, rfl⟩

def separatorLines : List Line :=
  [.text 0 separator, .blank]

/-- The lines behind the header. -/
def mainLines (ls : List (List Char)) : List Line :=
  match splitSeparator? ls with
  | none => bodyLines (joinLines ls)
  | some (body, privacy) =>
    bodyLines (joinLines body) ++ separatorLines ++ sectionLines false privacy

/-- Every tab becomes a level of indentation. -/
def expandTabs (text : List Char) : List Char :=
  text.flatMap (fun c => if c == '\t' then List.replicate 4 ' ' else [c])

def documentLines (text : List Char) : List Line :=
  match splitSeparator? (lines text) with
  | none => bodyLines text
  | some (header, rest) => sectionLines false header ++ separatorLines ++ mainLines rest

def formatOml (text : List Char) : List Char :=
  Line.render (documentLines (expandTabs (normalizeNewlines text)))

end LogScript.Layout

namespace LogScript

def format (language : Language) (text : List Char) : List Char :=
  match language with
  | .wpl => Layout.formatWpl text
  | .oml => Layout.formatOml text

end LogScript
