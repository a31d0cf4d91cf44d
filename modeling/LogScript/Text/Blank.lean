/-!
Blank characters and trimming. A character is blank when it has the Unicode property
White_Space; trimming and splitting into words look at nothing else.
-/

namespace LogScript

def isBlank (c : Char) : Bool :=
  let n := c.toNat
  (0x9 ≤ n && n ≤ 0xD) || n == 0x20 || n == 0x85 || n == 0xA0 || n == 0x1680 ||
    (0x2000 ≤ n && n ≤ 0x200A) || n == 0x2028 || n == 0x2029 || n == 0x202F ||
    n == 0x205F || n == 0x3000

/-- The characters a reader sees, in order. -/
def visible (text : List Char) : List Char :=
  text.filter (fun c => !isBlank c)

def trimStart (text : List Char) : List Char :=
  text.dropWhile isBlank

def trimEnd : List Char → List Char
  | [] => []
  | c :: rest =>
    match trimEnd rest with
    | [] => if isBlank c then [] else [c]
    | kept => c :: kept

def trim (text : List Char) : List Char :=
  trimEnd (trimStart text)

/-- The blank characters a line starts with. -/
def indentOf (line : List Char) : List Char :=
  line.takeWhile isBlank

def allBlank (text : List Char) : Bool :=
  text.all isBlank

/-- Adds a character to the first of the pieces, opening a piece if there is none. -/
def consHead (c : Char) : List (List Char) → List (List Char)
  | [] => [[c]]
  | piece :: pieces => (c :: piece) :: pieces

/-- The maximal runs of characters that are not blank. -/
def words : List Char → List (List Char)
  | [] => []
  | c :: rest =>
    if isBlank c then words rest
    else if rest.head?.all isBlank then [c] :: words rest
    else consHead c (words rest)

/-- A character that a rule accepts is none that the rule refuses. -/
theorem ne_of_accepts {accept : Char → Bool} {c d : Char} (hc : accept c = true)
    (hd : accept d = false) : c ≠ d := by
  rintro rfl
  rw [hd] at hc
  cases hc

/-- A leading run and what is left when as many characters are dropped. -/
theorem takeWhile_append_drop (p : Char → Bool) (text : List Char) :
    text.takeWhile p ++ text.drop (text.takeWhile p).length = text := by
  induction text with
  | nil => rfl
  | cons c rest ih =>
    rw [List.takeWhile_cons]
    cases p c with
    | false => rfl
    | true => simpa using ih

theorem head?_drop_takeWhile (p : Char → Bool) (text : List Char) :
    ∀ c ∈ (text.drop (text.takeWhile p).length).head?, p c = false := by
  induction text with
  | nil => intro c hc; cases hc
  | cons d rest ih =>
    rw [List.takeWhile_cons]
    cases hd : p d with
    | true => exact ih
    | false =>
      intro c hc
      cases hc
      exact hd

/-- Every text starts with a run, which may be empty, that the character behind does not go on. -/
theorem exists_run (p : Char → Bool) (text : List Char) :
    ∃ run rest, text = run ++ rest ∧ (∀ c ∈ run, p c) ∧ ∀ c ∈ rest.head?, p c = false :=
  ⟨text.takeWhile p, text.drop (text.takeWhile p).length, (takeWhile_append_drop p text).symm,
    List.all_eq_true.1 List.all_takeWhile, head?_drop_takeWhile p text⟩

/-- A leading run ends where a character stands that does not belong to it. -/
theorem takeWhile_append_of_head? {p : Char → Bool} {run rest : List Char}
    (hrun : ∀ c ∈ run, p c = true) (hrest : ∀ c ∈ rest.head?, p c = false) :
    (run ++ rest).takeWhile p = run := by
  have hstop : rest.takeWhile p = [] := by
    cases rest with
    | nil => rfl
    | cons c rest => exact List.takeWhile_cons_of_neg (by simp [hrest c rfl])
  rw [List.takeWhile_append_of_pos hrun, hstop, List.append_nil]

/-- A leading run ends in front of the first character that does not belong to it. -/
theorem takeWhile_append_cons (text rest : List Char) {p : Char → Bool} {c : Char}
    (hc : p c = false) : (text ++ c :: rest).takeWhile p = text.takeWhile p := by
  induction text with
  | nil => exact List.takeWhile_cons_of_neg (by simp [hc])
  | cons d text ih => rw [List.cons_append, List.takeWhile_cons, List.takeWhile_cons, ih]

theorem visible_append (a b : List Char) : visible (a ++ b) = visible a ++ visible b := by
  simp [visible]

theorem visible_trimStart (text : List Char) : visible (trimStart text) = visible text := by
  induction text with
  | nil => rfl
  | cons c rest ih =>
    by_cases h : isBlank c
    · simpa [trimStart, visible, h] using ih
    · simp [trimStart, h]

theorem visible_trimEnd (text : List Char) : visible (trimEnd text) = visible text := by
  induction text with
  | nil => rfl
  | cons c rest ih =>
    rw [trimEnd]
    split
    · rename_i h
      rw [h] at ih
      by_cases hc : isBlank c
      · simpa [visible, hc] using ih
      · simpa [visible, hc] using ih
    · rename_i h
      have := congrArg (fun t => visible [c] ++ t) ih
      simpa [visible, ← List.filter_append] using this

theorem visible_trim (text : List Char) : visible (trim text) = visible text := by
  rw [trim, visible_trimEnd, visible_trimStart]

end LogScript
