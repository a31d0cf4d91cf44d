import LogScript.Highlight.Languages
import LogScript.Language
import LogScript.Proofs.Layout.Trimmed
import LogScript.Proofs.Layout.Visible

/-!
Reading a text character by character. Both log languages have literals, which end with their line
at the latest, comments, which end with it, and runs of characters that no comment cuts: the words
of WPL and the paths of OML, both with slashes in them. A reading tells where the next character
stands, and the marks of a text tell for its visible characters whether they are code, part of a
literal or part of a comment.

Every line is read on its own. A text is therefore read as its lines are, and blank characters
outside literals and comments count for nothing except that they end a run.
-/

namespace LogScript.Highlight

inductive Quote where
  | double
  | single
  deriving DecidableEq, Repr

def Quote.char : Quote → Char
  | .double => '"'
  | .single => Char.ofNat 0x27

/-- Where the next character stands. -/
inductive Reading where
  | plain
  | run
  | literal (quote : Quote)
  | escaped (quote : Quote)
  | comment
  deriving DecidableEq, Repr

/-- What a visible character is. -/
inductive Mark where
  | code
  | comment
  | opening (quote : Quote)
  | inside (quote : Quote)
  | closing (quote : Quote)
  deriving DecidableEq, Repr

def quote? (l : Language) (c : Char) : Option Quote :=
  if c == '"' then some .double
  else if l == .wpl && c.toNat == 0x27 then some .single
  else none

def isRunChar : Language → Char → Bool
  | .wpl, c => isWplWordChar c
  | .oml, c => isOmlPathChar c

/-- A word of WPL does not start with a digit; a path of OML is a slash and more. -/
def opensRun (l : Language) (c : Char) (ahead : Option Char) : Bool :=
  match l with
  | .wpl => isWplWordChar c && !c.isDigit
  | .oml => c == '/' && ahead.any isOmlPathChar

namespace Mark

def isOpen : Mark → Bool
  | .code | .closing _ => true
  | .comment | .opening _ | .inside _ => false

def isQuoted : Mark → Bool
  | .opening _ | .inside _ => true
  | .code | .comment | .closing _ => false

end Mark

namespace Reading

/-- A character outside literals, comments and runs; `ahead` is the one behind it. -/
def opening (l : Language) (c : Char) (ahead : Option Char) : Reading :=
  if c == '#' || c == '/' && ahead == some '/' then .comment
  else match quote? l c with
  | some q => .literal q
  | none => if opensRun l c ahead then .run else .plain

def next (l : Language) (r : Reading) (c : Char) (ahead : Option Char) : Reading :=
  match r with
  | .plain => opening l c ahead
  | .run => if isRunChar l c then .run else opening l c ahead
  | .literal q =>
    if c == '\n' then .plain
    else if c == '\\' then .escaped q
    else if c == q.char then .plain
    else .literal q
  | .escaped q => if c == '\n' then .plain else .literal q
  | .comment => if c == '\n' then .plain else .comment

/-- Neither in a literal nor in a comment. -/
def isOpen : Reading → Bool
  | .plain | .run => true
  | .literal _ | .escaped _ | .comment => false

/-- In a literal, or behind a backslash there. -/
def isQuoted : Reading → Bool
  | .literal _ | .escaped _ => true
  | .plain | .run | .comment => false

/-- The mark of a visible character between two readings. -/
def mark (r r' : Reading) : Mark :=
  match r, r' with
  | .literal q, .plain => .closing q
  | .literal q, _ => .inside q
  | .escaped q, _ => .inside q
  | _, .literal q => .opening q
  | _, .comment => .comment
  | _, _ => .code

/-- The reading behind a text; `ahead` is the character that follows the text. -/
def after (l : Language) (ahead : Option Char) (r : Reading) : List Char → Reading
  | [] => r
  | c :: rest => after l ahead (r.next l c (rest.head?.or ahead)) rest

/-- The visible characters of a text with their marks. -/
def marks (l : Language) (ahead : Option Char) (r : Reading) : List Char → List (Char × Mark)
  | [] => []
  | c :: rest =>
    let r' := r.next l c (rest.head?.or ahead)
    (if isBlank c then [] else [(c, r.mark r')]) ++ marks l ahead r' rest

variable {l : Language} {ahead : Option Char} {r : Reading}

theorem after_cons (c : Char) (rest : List Char) :
    after l ahead r (c :: rest) = after l ahead (r.next l c (rest.head?.or ahead)) rest := rfl

theorem marks_cons_of_blank {c : Char} (hc : isBlank c) (rest : List Char) :
    marks l ahead r (c :: rest) = marks l ahead (r.next l c (rest.head?.or ahead)) rest := by
  rw [marks, if_pos hc, List.nil_append]

theorem marks_cons_of_not_blank {c : Char} (hc : isBlank c = false) (rest : List Char) :
    marks l ahead r (c :: rest) = (c, r.mark (r.next l c (rest.head?.or ahead))) ::
      marks l ahead (r.next l c (rest.head?.or ahead)) rest := by
  rw [marks, if_neg (by rw [hc]; exact Bool.false_ne_true), List.singleton_append]

theorem head?_append_or (a b : List Char) :
    (a ++ b).head?.or ahead = a.head?.or (b.head?.or ahead) := by
  rw [List.head?_append, Option.or_assoc]

theorem after_append (a b : List Char) :
    after l ahead r (a ++ b) = after l ahead (after l (b.head?.or ahead) r a) b := by
  induction a generalizing r with
  | nil => rfl
  | cons c a ih => rw [List.cons_append, after_cons, after_cons, ih, head?_append_or]

theorem marks_append (a b : List Char) :
    marks l ahead r (a ++ b) =
      marks l (b.head?.or ahead) r a ++ marks l ahead (after l (b.head?.or ahead) r a) b := by
  induction a generalizing r with
  | nil => rfl
  | cons c a ih =>
    simp only [List.cons_append, marks, after, ih, head?_append_or, List.append_assoc]

theorem map_fst_marks (text : List Char) : (marks l ahead r text).map (·.1) = visible text := by
  induction text generalizing r with
  | nil => rfl
  | cons c rest ih =>
    rw [marks, List.map_append, ih, visible_cons]
    cases hc : isBlank c <;> simp [visible, hc]

theorem not_blank_of_isWordChar {c : Char} (h : Run.isWordChar c) : isBlank c = false := by
  have hcases : (decide (65 ≤ c.toNat ∧ c.toNat ≤ 90) ||
      (decide (97 ≤ c.toNat) && decide (c.toNat ≤ 122)) ||
      (decide (48 ≤ c.toNat) && decide (c.toNat ≤ 57)) || c == '_') = true := h
  simp only [Bool.or_eq_true, Bool.and_eq_true, decide_eq_true_eq, beq_iff_eq] at hcases
  rcases hcases with hbounds | rfl
  · cases hc : isBlank c with
    | false => rfl
    | true =>
      simp only [isBlank, Bool.or_eq_true, Bool.and_eq_true, decide_eq_true_eq, beq_iff_eq] at hc
      omega
  · decide

theorem not_blank_of_isRunChar {c : Char} (h : isRunChar l c) : isBlank c = false := by
  have hone : ∀ d : Char, isBlank d = false → (c == d) = true → isBlank c = false :=
    fun d hd hc => by rw [eq_of_beq hc, hd]
  cases l with
  | wpl =>
    rw [isRunChar, isWplWordChar, Bool.or_eq_true] at h
    rcases h with h | h
    · exact not_blank_of_isWordChar h
    · exact hone '/' (by decide) h
  | oml =>
    rw [isRunChar, isOmlPathChar, Bool.or_eq_true, Bool.or_eq_true, Bool.or_eq_true] at h
    rcases h with ((h | h) | h) | h
    · exact not_blank_of_isWordChar h
    · exact hone '/' (by decide) h
    · exact hone '[' (by decide) h
    · exact hone ']' (by decide) h

theorem isRunChar_of_blank {c : Char} (h : isBlank c) : isRunChar l c = false := by
  cases hc : isRunChar l c with
  | false => rfl
  | true => rw [not_blank_of_isRunChar hc] at h; cases h

theorem isRunChar_of_opensRun {c : Char} (h : opensRun l c ahead) : isRunChar l c := by
  cases l with
  | wpl =>
    rw [opensRun, Bool.and_eq_true] at h
    exact h.1
  | oml =>
    rw [opensRun, Bool.and_eq_true] at h
    rw [isRunChar, isOmlPathChar, h.1]
    simp

theorem quote?_eq_some {c : Char} {q : Quote} (h : quote? l c = some q) : c = q.char := by
  rw [quote?] at h
  split at h
  · cases h
    exact eq_of_beq ‹_›
  · split at h
    · rename_i hc
      rw [Bool.and_eq_true, beq_iff_eq, beq_iff_eq] at hc
      cases h
      rw [← Char.ofNat_toNat c, hc.2]
      rfl
    · cases h

theorem not_blank_quote (q : Quote) : isBlank q.char = false := by
  cases q <;> decide

theorem next_of_blank {c : Char} (hr : r.isOpen) (hc : isBlank c) : r.next l c ahead = .plain := by
  have hopening : opening l c ahead = .plain := by
    have hhash : (c == '#') = false := beq_false_of_ne (ne_of_accepts hc (by decide))
    have hslash : (c == '/') = false := beq_false_of_ne (ne_of_accepts hc (by decide))
    have hquote : quote? l c = none := by
      cases hq : quote? l c with
      | none => rfl
      | some q => exact absurd (quote?_eq_some hq) (ne_of_accepts hc (not_blank_quote q))
    have hrun : opensRun l c ahead = false := by
      cases ho : opensRun l c ahead with
      | false => rfl
      | true => rw [← isRunChar_of_blank (l := l) hc, isRunChar_of_opensRun ho]
    rw [opening, hhash, hslash, hquote, hrun]
    rfl
  cases r with
  | plain => exact hopening
  | run => rw [next, if_neg (by rw [isRunChar_of_blank hc]; exact Bool.false_ne_true), hopening]
  | literal q => cases hr
  | escaped q => cases hr
  | comment => cases hr

@[simp] theorem next_lineFeed : r.next l '\n' ahead = .plain := by
  cases r with
  | plain => exact next_of_blank rfl (by decide)
  | run => exact next_of_blank rfl (by decide)
  | literal q => rfl
  | escaped q => rfl
  | comment => rfl

theorem marks_lineFeed (rest : List Char) :
    marks l ahead r ('\n' :: rest) = marks l ahead .plain rest := by
  rw [marks_cons_of_blank (by decide), next_lineFeed]

/-- What follows a text is no part of a run. -/
def Parted (l : Language) (ahead : Option Char) : Prop :=
  ∀ c ∈ ahead, isRunChar l c = false

theorem parted_of_blank {text : List Char} (h : ∀ c ∈ text.head?, isBlank c) :
    Parted l text.head? :=
  fun c hc => isRunChar_of_blank (h c hc)

theorem next_of_parted (h : Parted l ahead) (c : Char) : r.next l c ahead = r.next l c none := by
  have hslash : (ahead == some '/') = false := by
    apply beq_false_of_ne
    rintro rfl
    have hrun := h '/' rfl
    cases l <;> exact absurd hrun (by decide)
  have hopens : opensRun l c ahead = opensRun l c none := by
    cases l with
    | wpl => rfl
    | oml =>
      have hany : ahead.any isOmlPathChar = false := by
        cases ahead with
        | none => rfl
        | some d => exact h d rfl
      rw [opensRun, hany]
      rfl
  have hopening : opening l c ahead = opening l c none := by
    rw [opening, opening, hslash, hopens]
    rfl
  cases r with
  | plain => exact hopening
  | run => rw [next, next, hopening]
  | literal q => rfl
  | escaped q => rfl
  | comment => rfl

/-- What follows a text makes no difference to it if it makes none to any character. -/
theorem after_of_next (h : ∀ (r : Reading) c, r.next l c ahead = r.next l c none)
    (text : List Char) : after l ahead r text = after l none r text := by
  induction text generalizing r with
  | nil => rfl
  | cons c rest ih =>
    rw [after_cons, after_cons, ih]
    cases rest with
    | nil => exact congrArg (after l none · []) (h r c)
    | cons d rest => rfl

theorem marks_of_next (h : ∀ (r : Reading) c, r.next l c ahead = r.next l c none)
    (text : List Char) : marks l ahead r text = marks l none r text := by
  induction text generalizing r with
  | nil => rfl
  | cons c rest ih =>
    rw [marks, marks, ih]
    cases rest with
    | nil => simp only [List.head?_nil, Option.none_or, h r c]
    | cons d rest => rfl

theorem after_of_parted (h : Parted l ahead) (text : List Char) :
    after l ahead r text = after l none r text :=
  after_of_next (fun _ c => next_of_parted h c) text

theorem marks_of_parted (h : Parted l ahead) (text : List Char) :
    marks l ahead r text = marks l none r text :=
  marks_of_next (fun _ c => next_of_parted h c) text

/-- Only a second slash makes a difference to a character of WPL. -/
theorem next_wpl_of_ne (h : ahead ≠ some '/') (r : Reading) (c : Char) :
    r.next .wpl c ahead = r.next .wpl c none := by
  have hopening : opening .wpl c ahead = opening .wpl c none := by
    rw [opening, opening, beq_false_of_ne h]
    rfl
  cases r with
  | plain => exact hopening
  | run => rw [next, next, hopening]
  | literal q => rfl
  | escaped q => rfl
  | comment => rfl

/-- A text in front of a character that is no part of a run is read by itself. -/
theorem marks_append_of_parted {b : List Char} (h : Parted l (b.head?.or ahead))
    (a : List Char) :
    marks l ahead r (a ++ b) = marks l none r a ++ marks l ahead (after l none r a) b := by
  rw [marks_append, marks_of_parted h, after_of_parted h]

/-- Every line is read on its own. -/
theorem marks_append_lineFeed (a b : List Char) :
    marks l ahead r (a ++ '\n' :: b) = marks l none r a ++ marks l ahead .plain b := by
  rw [marks_append_of_parted (fun c hc => by cases hc; exact isRunChar_of_blank (by decide)),
    marks_lineFeed]

theorem marks_of_blanks {blanks : List Char} (h : ∀ c ∈ blanks, isBlank c) :
    marks l ahead r blanks = [] := by
  induction blanks generalizing r with
  | nil => rfl
  | cons c blanks ih =>
    rw [marks_cons_of_blank (h c List.mem_cons_self)]
    exact ih fun d hd => h d (List.mem_cons_of_mem c hd)

theorem after_of_blanks {blanks : List Char} (h : ∀ c ∈ blanks, isBlank c) (hne : blanks ≠ [])
    (hr : r.isOpen) : after l ahead r blanks = .plain := by
  induction blanks generalizing r with
  | nil => exact absurd rfl hne
  | cons c blanks ih =>
    rw [after_cons, next_of_blank hr (h c List.mem_cons_self)]
    by_cases hblanks : blanks = []
    · rw [hblanks]
      rfl
    · exact ih (fun d hd => h d (List.mem_cons_of_mem c hd)) hblanks rfl

/-- Blank characters outside literals and comments end a run, and no more. -/
theorem marks_blanks_append {blanks : List Char} (h : ∀ c ∈ blanks, isBlank c) (hne : blanks ≠ [])
    (hr : r.isOpen) (text : List Char) :
    marks l ahead r (blanks ++ text) = marks l ahead .plain text := by
  rw [marks_append, marks_of_blanks h, after_of_blanks h hne hr, List.nil_append]

theorem marks_plain_blanks_append {blanks : List Char} (h : ∀ c ∈ blanks, isBlank c)
    (text : List Char) : marks l ahead .plain (blanks ++ text) = marks l ahead .plain text := by
  by_cases hne : blanks = []
  · rw [hne, List.nil_append]
  · exact marks_blanks_append h hne rfl text

theorem marks_append_blanks {blanks : List Char} (h : ∀ c ∈ blanks, isBlank c) (text : List Char) :
    marks l none r (text ++ blanks) = marks l none r text := by
  rw [marks_append_of_parted, marks_of_blanks h, List.append_nil]
  rw [Option.or_none]
  exact parted_of_blank fun c hc => h c (List.mem_of_mem_head? hc)

theorem exists_blanks_trimStart (text : List Char) :
    ∃ blanks, text = blanks ++ trimStart text ∧ ∀ c ∈ blanks, isBlank c :=
  ⟨text.takeWhile isBlank, List.takeWhile_append_dropWhile.symm,
    fun _ hc => List.all_eq_true.1 List.all_takeWhile _ hc⟩

theorem marks_trimEnd (text : List Char) :
    marks l none r (trimEnd text) = marks l none r text := by
  obtain ⟨blanks, htext, hblanks⟩ := exists_trimEnd_append text
  conv => rhs; rw [htext]
  rw [marks_append_blanks hblanks]

theorem marks_trim (text : List Char) :
    marks l none .plain (trim text) = marks l none .plain text := by
  obtain ⟨blanks, htext, hblanks⟩ := exists_blanks_trimStart text
  conv => rhs; rw [htext]
  rw [marks_plain_blanks_append hblanks, trim, marks_trimEnd]

end Reading

/-- The visible characters of a text with their marks. -/
def marks (l : Language) (text : List Char) : List (Char × Mark) :=
  Reading.marks l none .plain text

variable {l : Language}

theorem marks_blanks_append {blanks : List Char} (h : ∀ c ∈ blanks, isBlank c)
    (text : List Char) : marks l (blanks ++ text) = marks l text :=
  Reading.marks_plain_blanks_append h text

theorem marks_append_blanks {blanks : List Char} (h : ∀ c ∈ blanks, isBlank c)
    (text : List Char) : marks l (text ++ blanks) = marks l text :=
  Reading.marks_append_blanks h text

theorem marks_trimEnd (text : List Char) : marks l (trimEnd text) = marks l text :=
  Reading.marks_trimEnd text

theorem marks_trim (text : List Char) : marks l (trim text) = marks l text :=
  Reading.marks_trim text

theorem marks_append_lineFeed (a b : List Char) :
    marks l (a ++ '\n' :: b) = marks l a ++ marks l b :=
  Reading.marks_append_lineFeed a b

/-- What follows a line is read by itself. -/
theorem marks_append_line {rest : List Char} (h : rest = [] ∨ rest.head? = some '\n')
    (line : List Char) : marks l (line ++ rest) = marks l line ++ marks l rest := by
  rcases h with rfl | h
  · rw [List.append_nil, marks, marks, Reading.marks, List.append_nil]
  · obtain ⟨behind, rfl⟩ := List.head?_eq_some_iff.1 h
    rw [marks_append_lineFeed]
    congr 1
    exact (Reading.marks_lineFeed behind).symm

/-- Every line of a text is read on its own. -/
theorem marks_lines : ∀ text : List Char, marks l text = (lines text).flatMap (marks l)
  | [] => rfl
  | c :: rest => by
    obtain ⟨behind, htext, hline, hbehind⟩ := exists_firstLine_append (c :: rest)
    rcases hbehind with rfl | hbehind
    · rw [List.append_nil] at htext
      rw [← htext] at hline
      rw [lines_of_one (List.cons_ne_nil c rest) hline, List.flatMap_singleton]
    · obtain ⟨text, rfl⟩ := List.head?_eq_some_iff.1 hbehind
      have hlt : text.length < (c :: rest).length := by
        rw [htext, List.length_append, List.length_cons]
        omega
      rw [htext, marks_append_lineFeed, lines_of_not_mem hline, List.flatMap_cons,
        ← marks_lines text]
termination_by text => text.length
decreasing_by exact hlt

theorem marks_joinLines (ls : List (List Char)) :
    marks l (joinLines ls) = ls.flatMap (marks l) := by
  induction ls with
  | nil => rfl
  | cons line ls ih =>
    by_cases hls : ls = []
    · rw [hls, joinLines, List.intercalate_singleton]
      simp
    · rw [joinLines_cons hls, marks_append_lineFeed, ih, List.flatMap_cons]

theorem marks_flatMap_lineFeed (ls : List (List Char)) :
    marks l (ls.flatMap (· ++ ['\n'])) = ls.flatMap (marks l) := by
  induction ls with
  | nil => rfl
  | cons line ls ih =>
    rw [List.flatMap_cons, List.append_assoc, List.singleton_append, marks_append_lineFeed, ih,
      List.flatMap_cons]

end LogScript.Highlight
