import LogScript.Proofs.Layout.Trimmed
import LogScript.Proofs.Layout.WplVisible

/-!
Scans of a text, character by character. A scan is at rest where nothing is open, and the parts of a
text, such as its literals, lie between the places where it is. What stands outside of the parts makes
no difference: two texts have the same parts if they have the same characters in parts. A text that is
put together from others therefore has their parts, and blank characters may come and go around them.
-/

namespace LogScript.Layout

structure Scan (σ : Type) where
  next : σ → Char → σ
  /-- Nothing is open. -/
  rest : σ
  /-- Blank characters open nothing and close nothing. -/
  blank : ∀ s c, isBlank c = true → (next s c = rest ↔ s = rest)

namespace Scan

variable {σ : Type}

/-- The state behind a text. -/
def past (scan : Scan σ) (s : σ) (text : List Char) : σ :=
  text.foldl scan.next s

/-- What is left of a part that is open, through its last character. -/
inductive Closes (scan : Scan σ) : σ → List Char → Prop where
  | last {s : σ} {c : Char} (closes : scan.next s c = scan.rest) : Closes scan s [c]
  | cons {s : σ} {c : Char} {text : List Char} (stays : scan.next s c ≠ scan.rest)
      (later : Closes scan (scan.next s c) text) : Closes scan s (c :: text)

section Past

variable (scan : Scan σ) {s : σ} {body text blanks : List Char}

@[simp] theorem past_nil (s : σ) : scan.past s [] = s := rfl

@[simp] theorem past_cons (s : σ) (c : Char) (text : List Char) :
    scan.past s (c :: text) = scan.past (scan.next s c) text := rfl

theorem past_append (s : σ) (a b : List Char) :
    scan.past s (a ++ b) = scan.past (scan.past s a) b :=
  List.foldl_append

/-- What closes a part is visible. -/
theorem not_blank_of_closes {c : Char} (hs : s ≠ scan.rest) (hnext : scan.next s c = scan.rest) :
    isBlank c = false :=
  Bool.eq_false_iff.2 fun hc => hs ((scan.blank s c hc).1 hnext)

/-- What opens a part is visible. -/
theorem not_blank_of_opens {c : Char} (hnext : scan.next scan.rest c ≠ scan.rest) :
    isBlank c = false :=
  Bool.eq_false_iff.2 fun hc => hnext ((scan.blank _ c hc).2 rfl)

theorem past_blanks_iff (hblanks : ∀ c ∈ blanks, isBlank c) :
    scan.past s blanks = scan.rest ↔ s = scan.rest := by
  induction blanks generalizing s with
  | nil => rfl
  | cons c blanks ih =>
    rw [List.forall_mem_cons] at hblanks
    rw [past_cons, ih hblanks.2, scan.blank s c hblanks.1]

variable {scan}

theorem Closes.past (h : scan.Closes s body) : scan.past s body = scan.rest := by
  induction h with
  | last closes => exact closes
  | cons _ _ ih => exact ih

theorem exists_closes (hs : s ≠ scan.rest) (h : scan.past s text = scan.rest) :
    ∃ body behind, text = body ++ behind ∧ scan.Closes s body ∧
      scan.past scan.rest behind = scan.rest := by
  induction text generalizing s with
  | nil => exact absurd h hs
  | cons c text ih =>
    by_cases hnext : scan.next s c = scan.rest
    · rw [past_cons, hnext] at h
      exact ⟨[c], text, rfl, .last hnext, h⟩
    · obtain ⟨body, behind, rfl, hbody, hbehind⟩ := ih hnext h
      exact ⟨c :: body, behind, rfl, .cons hnext hbody, hbehind⟩

/-- Induction over a text whose parts are all closed: a character outside of them, or a part, stands
in front of further such text. -/
theorem closed_induction [DecidableEq σ]
    {motive : (text : List Char) → scan.past scan.rest text = scan.rest → Prop}
    (nil : motive [] rfl)
    (idle : ∀ c text (h : scan.past scan.rest (c :: text) = scan.rest)
      (htext : scan.past scan.rest text = scan.rest), scan.next scan.rest c = scan.rest →
      motive text htext → motive (c :: text) h)
    (part : ∀ c body text (h : scan.past scan.rest (c :: (body ++ text)) = scan.rest)
      (htext : scan.past scan.rest text = scan.rest), scan.next scan.rest c ≠ scan.rest →
      scan.Closes (scan.next scan.rest c) body → motive text htext → motive (c :: (body ++ text)) h)
    (text : List Char) (h : scan.past scan.rest text = scan.rest) : motive text h := by
  match text with
  | [] => exact nil
  | c :: text =>
    by_cases hc : scan.next scan.rest c = scan.rest
    · have htext : scan.past scan.rest text = scan.rest := by rwa [past_cons, hc] at h
      exact idle c text h htext hc (closed_induction nil idle part text htext)
    · obtain ⟨body, behind, htext, hbody, hbehind⟩ := exists_closes hc h
      have hlength : behind.length ≤ text.length := by
        rw [htext, List.length_append]
        omega
      have hmotive := closed_induction nil idle part behind hbehind
      subst htext
      exact part c body behind h hbehind hc hbody hmotive
termination_by text.length
decreasing_by
  all_goals
    simp only [List.length_cons]
    omega

end Past

variable [DecidableEq σ]

/-- The character belongs to a part: something is open in front of it or behind it. -/
def holds (scan : Scan σ) (s : σ) (c : Char) : Bool :=
  s != scan.rest || scan.next s c != scan.rest

/-- The parts of a text. When a part is open in front of the text, what is left of it comes first. -/
def partsFrom (scan : Scan σ) (s : σ) : List Char → List (List Char)
  | [] => []
  | c :: text =>
    if scan.holds s c then
      if scan.next s c = scan.rest then [c] :: scan.partsFrom scan.rest text
      else consHead c (scan.partsFrom (scan.next s c) text)
    else scan.partsFrom scan.rest text

def parts (scan : Scan σ) (text : List Char) : List (List Char) :=
  scan.partsFrom scan.rest text

/-- The characters of a text that belong to parts. -/
def held (scan : Scan σ) (s : σ) : List Char → List Char
  | [] => []
  | c :: text =>
    if scan.holds s c then c :: scan.held (scan.next s c) text else scan.held (scan.next s c) text

section Parts

variable (scan : Scan σ) {s : σ} {c : Char} {a b body : List Char}

theorem holds_of_ne (h : s ≠ scan.rest) (c : Char) : scan.holds s c = true := by
  rw [holds, bne_iff_ne.2 h, Bool.true_or]

theorem holds_of_opens (h : scan.next s c ≠ scan.rest) : scan.holds s c = true := by
  rw [holds, bne_iff_ne.2 h, Bool.or_true]

theorem holds_eq_false : scan.holds s c = false ↔ s = scan.rest ∧ scan.next s c = scan.rest := by
  rw [holds, Bool.or_eq_false_iff, bne_eq_false_iff_eq, bne_eq_false_iff_eq]

theorem holds_of_idle (h : scan.next scan.rest c = scan.rest) : scan.holds scan.rest c = false :=
  scan.holds_eq_false.2 ⟨rfl, h⟩

theorem held_append (s : σ) (a b : List Char) :
    scan.held s (a ++ b) = scan.held s a ++ scan.held (scan.past s a) b := by
  induction a generalizing s with
  | nil => rfl
  | cons c a ih =>
    rw [List.cons_append, held, held, past_cons, ih]
    split <;> rfl

theorem flatten_partsFrom (s : σ) (text : List Char) :
    (scan.partsFrom s text).flatten = scan.held s text := by
  induction text generalizing s with
  | nil => rfl
  | cons c text ih =>
    rw [partsFrom, held]
    split
    · split
      · rename_i hnext
        rw [List.flatten_cons, ih, hnext]
        rfl
      · rw [flatten_consHead, ih]
    · rename_i hholds
      rw [ih, (scan.holds_eq_false.1 (by simpa using hholds)).2]

/-- The parts are told by their characters alone. -/
theorem partsFrom_held (s : σ) (text : List Char) :
    scan.partsFrom s (scan.held s text) = scan.partsFrom s text := by
  induction text generalizing s with
  | nil => rfl
  | cons c text ih =>
    rw [held, partsFrom.eq_2 scan s c text]
    split
    · rename_i hholds
      rw [partsFrom, if_pos hholds, ih]
      split
      · rename_i hnext
        rw [hnext, ih]
      · rfl
    · rename_i hholds
      obtain ⟨hs, hnext⟩ := scan.holds_eq_false.1 (by simpa using hholds)
      rw [hnext, hs, ih]

theorem partsFrom_eq_iff :
    scan.partsFrom s a = scan.partsFrom s b ↔ scan.held s a = scan.held s b := by
  constructor
  · intro h
    rw [← flatten_partsFrom, h, flatten_partsFrom]
  · intro h
    rw [← partsFrom_held, h, partsFrom_held]

variable {scan}

theorem partsFrom_of_closes (hs : s ≠ scan.rest) (h : scan.next s c = scan.rest) (text : List Char) :
    scan.partsFrom s (c :: text) = [c] :: scan.parts text := by
  rw [partsFrom, if_pos (scan.holds_of_ne hs c), if_pos h]
  rfl

theorem partsFrom_of_opens (h : scan.next s c ≠ scan.rest) (text : List Char) :
    scan.partsFrom s (c :: text) = consHead c (scan.partsFrom (scan.next s c) text) := by
  rw [partsFrom, if_pos (scan.holds_of_opens h), if_neg h]

theorem partsFrom_ne_nil (h : s ≠ scan.rest) (c : Char) (text : List Char) :
    scan.partsFrom s (c :: text) ≠ [] := by
  by_cases hnext : scan.next s c = scan.rest
  · rw [partsFrom_of_closes h hnext]
    exact List.cons_ne_nil _ _
  · rw [partsFrom_of_opens hnext]
    exact consHead_ne_nil c _

theorem consHead_append {pieces : List (List Char)} (h : pieces ≠ []) (c : Char)
    (more : List (List Char)) : consHead c (pieces ++ more) = consHead c pieces ++ more := by
  cases pieces with
  | nil => exact absurd rfl h
  | cons piece pieces => rfl

/-- Behind a text that leaves nothing open, parts are read by themselves. -/
theorem partsFrom_append (h : scan.past s a = scan.rest) (b : List Char) :
    scan.partsFrom s (a ++ b) = scan.partsFrom s a ++ scan.parts b := by
  induction a generalizing s with
  | nil =>
    obtain rfl : s = scan.rest := h
    rfl
  | cons c a ih =>
    rw [List.cons_append, partsFrom, partsFrom]
    split
    · split
      · rename_i hnext
        rw [past_cons, hnext] at h
        rw [ih h]
        rfl
      · rename_i hnext
        have hne : scan.partsFrom (scan.next s c) a ≠ [] := by
          cases a with
          | nil => exact absurd h hnext
          | cons d a => exact partsFrom_ne_nil hnext d a
        rw [ih h, consHead_append hne]
    · rename_i hholds
      rw [past_cons, (scan.holds_eq_false.1 (by simpa using hholds)).2] at h
      exact ih h

/-- A part that closes is the first one. -/
theorem Closes.partsFrom (h : scan.Closes s body) (hs : s ≠ scan.rest) (text : List Char) :
    scan.partsFrom s (body ++ text) = body :: scan.parts text := by
  induction h with
  | last closes => exact partsFrom_of_closes hs closes text
  | cons stays _ ih =>
    rw [List.cons_append, partsFrom_of_opens stays, ih stays]
    rfl

theorem Closes.held (h : scan.Closes s body) (hs : s ≠ scan.rest) (text : List Char) :
    scan.held s (body ++ text) = body ++ scan.held scan.rest text := by
  induction h with
  | last closes =>
    rw [List.singleton_append, Scan.held, if_pos (scan.holds_of_ne hs _), closes]
    rfl
  | cons stays _ ih =>
    rw [List.cons_append, Scan.held, if_pos (scan.holds_of_ne hs _), ih stays]
    rfl

theorem parts_of_idle (hc : scan.next scan.rest c = scan.rest) (text : List Char) :
    scan.parts (c :: text) = scan.parts text := by
  rw [parts, partsFrom, scan.holds_of_idle hc]
  rfl

theorem parts_of_closes (hc : scan.next scan.rest c ≠ scan.rest)
    (h : scan.Closes (scan.next scan.rest c) body) (text : List Char) :
    scan.parts (c :: (body ++ text)) = (c :: body) :: scan.parts text := by
  rw [parts, partsFrom_of_opens hc, h.partsFrom hc]
  rfl

end Parts

/-- Two texts that start alike have the same parts, and end alike. -/
structure Same (scan : Scan σ) (s : σ) (a b : List Char) : Prop where
  held : scan.held s a = scan.held s b
  past : scan.past s a = scan.past s b

namespace Same

variable {scan : Scan σ} {s : σ} {a a' b b' c : List Char}

theorem refl (s : σ) (a : List Char) : scan.Same s a a :=
  ⟨rfl, rfl⟩

theorem symm (h : scan.Same s a b) : scan.Same s b a :=
  ⟨h.held.symm, h.past.symm⟩

theorem trans (h : scan.Same s a b) (h' : scan.Same s b c) : scan.Same s a c :=
  ⟨h.held.trans h'.held, h.past.trans h'.past⟩

theorem append (h : scan.Same s a a') (h' : scan.Same (scan.past s a) b b') :
    scan.Same s (a ++ b) (a' ++ b') where
  held := by rw [held_append, held_append, h.held, ← h.past, h'.held]
  past := by rw [past_append, past_append, ← h.past, h'.past]

theorem append_left (a : List Char) (h : scan.Same (scan.past s a) b b') :
    scan.Same s (a ++ b) (a ++ b') :=
  (refl s a).append h

theorem append_right (h : scan.Same s a a') (b : List Char) : scan.Same s (a ++ b) (a' ++ b) :=
  h.append (refl _ b)

theorem append_closed (h : scan.Same s a a') (ha : scan.past s a = scan.rest)
    (h' : scan.Same scan.rest b b') : scan.Same s (a ++ b) (a' ++ b') :=
  h.append (ha.symm ▸ h')

theorem partsFrom (h : scan.Same s a b) : scan.partsFrom s a = scan.partsFrom s b :=
  scan.partsFrom_eq_iff.2 h.held

theorem parts (h : scan.Same scan.rest a b) : scan.parts a = scan.parts b :=
  h.partsFrom

end Same

section Blanks

variable {scan : Scan σ} {text blanks : List Char}

/-- What opens nothing holds no part. -/
theorem same_idle (h : ∀ c ∈ text, scan.next scan.rest c = scan.rest) :
    scan.Same scan.rest text [] := by
  induction text with
  | nil => exact .refl _ _
  | cons c text ih =>
    rw [List.forall_mem_cons] at h
    obtain ⟨hheld, hpast⟩ := ih h.2
    refine ⟨?_, by rw [past_cons, h.1, hpast]⟩
    rw [held.eq_2, scan.holds_of_idle h.1, h.1, hheld]
    rfl

theorem same_blanks (h : ∀ c ∈ blanks, isBlank c) : scan.Same scan.rest blanks [] :=
  same_idle fun c hc => (scan.blank _ c (h c hc)).2 rfl

theorem past_blanks (h : ∀ c ∈ blanks, isBlank c) : scan.past scan.rest blanks = scan.rest :=
  (same_blanks h).past

theorem same_blanks_append (h : ∀ c ∈ blanks, isBlank c) (text : List Char) :
    scan.Same scan.rest (blanks ++ text) text :=
  (same_blanks h).append_right text

theorem same_append_blanks {s : σ} (htext : scan.past s text = scan.rest)
    (h : ∀ c ∈ blanks, isBlank c) : scan.Same s (text ++ blanks) text := by
  have hadded := Same.append_left text (htext.symm ▸ same_blanks h)
  rwa [List.append_nil] at hadded

/-- Trimming takes nothing off a part, if the text leaves nothing open or ends with a visible
character. -/
theorem same_trim
    (h : scan.past scan.rest text = scan.rest ∨ ∀ c ∈ text.getLast?, isBlank c = false) :
    scan.Same scan.rest text (trim text) := by
  obtain ⟨blanks, htext, hblanks⟩ := exists_trim_append text
  have hindent := blank_of_mem_indentOf text
  have hend : scan.Same scan.rest (trim text ++ blanks) (trim text) := by
    rcases h with hpast | hlast
    · rw [htext, past_append, (same_blanks hindent).past, past_nil, past_append,
        past_blanks_iff scan hblanks] at hpast
      exact same_append_blanks hpast hblanks
    · obtain rfl : blanks = [] := by
        rcases List.eq_nil_or_concat blanks with hnil | ⟨front, c, rfl⟩
        · exact hnil
        · rw [List.concat_eq_append] at htext hblanks
          have hc : isBlank c = false := by
            refine hlast c ?_
            rw [htext, ← List.append_assoc, ← List.append_assoc, List.getLast?_concat]
            rfl
          rw [hblanks c (by simp)] at hc
          cases hc
      rw [List.append_nil]
      exact .refl _ _
  have hwhole : scan.Same scan.rest (indentOf text ++ (trim text ++ blanks)) (trim text) :=
    (same_blanks_append hindent _).trans hend
  rwa [← htext] at hwhole

end Blanks

end Scan

end LogScript.Layout
