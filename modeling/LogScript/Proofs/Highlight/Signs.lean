import LogScript.Proofs.Highlight.Reading

/-!
Characters that are read by themselves, and what a reading tells of the character behind them. A sign
that is code parts a text: what stands on one side of it is read as if the other were not there. The
mark of a visible character tells whether the text goes on as code, in a literal or in a comment.
-/

namespace LogScript.Highlight

namespace Reading

variable {l : Language} {ahead : Option Char} {r : Reading}

/-- A character that neither opens nor ends anything. -/
structure Steady (l : Language) (c : Char) : Prop where
  hash : c ≠ '#'
  slash : c ≠ '/'
  quote : quote? l c = none
  word : l = .wpl → isWplWordChar c → c.isDigit

theorem Steady.next_eq {c : Char} (h : Steady l c) (ahead : Option Char) :
    next l .plain c ahead = .plain := by
  have hhash : (c == '#') = false := beq_false_of_ne h.hash
  have hslash : (c == '/') = false := beq_false_of_ne h.slash
  have hruns : opensRun l c ahead = false := by
    cases l with
    | wpl =>
      rw [opensRun, Bool.and_eq_false_iff]
      cases hc : isWplWordChar c with
      | false => exact .inl rfl
      | true => exact .inr (by rw [h.word rfl hc]; rfl)
    | oml => rw [opensRun, hslash, Bool.false_and]
  rw [next, opening, hhash, hslash, h.quote, hruns]
  rfl

theorem quote?_eq_none {c : Char} (h : ∀ q : Quote, c ≠ q.char) :
    quote? l c = none := by
  cases hq : quote? l c with
  | none => rfl
  | some q => exact absurd (quote?_eq_some hq) (h q)

theorem steady_of_digit (l : Language) {c : Char} (h : c.isDigit) : Steady l c where
  hash := ne_of_accepts h (by decide)
  slash := ne_of_accepts h (by decide)
  quote := quote?_eq_none fun q => ne_of_accepts h (by cases q <;> decide)
  word := fun _ _ => h

theorem steady_of_mem {c : Char} (h : c ∈ '-' :: '.' :: punctuation) :
    Steady l c := by
  simp only [punctuation, List.mem_cons, List.not_mem_nil, or_false] at h
  rcases h with rfl | rfl | rfl | rfl | rfl | rfl | rfl | rfl | rfl | rfl | rfl | rfl | rfl | rfl
  all_goals exact ⟨by decide, by decide, by cases l <;> rfl, fun _ hc => by revert hc; decide⟩

/-- A visible character that is no part of a run either. -/
structure Sign (l : Language) (c : Char) : Prop extends Steady l c where
  run : isRunChar l c = false
  blank : isBlank c = false

theorem next_run_of_not {c : Char} (h : isRunChar l c = false) :
    next l .run c ahead = next l .plain c ahead :=
  if_neg (by rw [h]; exact Bool.false_ne_true)

theorem Sign.next_eq {c : Char} (h : Sign l c) (hr : r.isOpen) : r.next l c ahead = .plain := by
  cases r with
  | plain => exact h.toSteady.next_eq ahead
  | run => rw [next_run_of_not h.run, h.toSteady.next_eq ahead]
  | literal q => cases hr
  | escaped q => cases hr
  | comment => cases hr

theorem Sign.parted {c : Char} (h : Sign l c) (rest : List Char) :
    Parted l ((c :: rest).head?.or ahead) :=
  fun d hd => by
    cases hd
    exact h.run

/-- A sign that is code is read by itself. -/
theorem marks_sign {c : Char} (h : Sign l c) {front : List Char}
    (hfront : (after l none r front).isOpen) (rest : List Char) :
    marks l ahead r (front ++ c :: rest) =
      marks l none r front ++ (c, .code) :: marks l ahead .plain rest := by
  have hmark : ∀ r : Reading, r.isOpen → r.mark .plain = .code := fun r hr => by
    cases r <;> first | rfl | cases hr
  rw [marks_append_of_parted (h.parted rest), marks_cons_of_not_blank h.blank, h.next_eq hfront,
    hmark _ hfront]

theorem after_sign {c : Char} (h : Sign l c) {front : List Char}
    (hfront : (after l none r front).isOpen) (rest : List Char) :
    after l ahead r (front ++ c :: rest) = after l ahead .plain rest := by
  rw [after_append, after_of_parted (h.parted rest), after_cons, h.next_eq hfront]

theorem isOpen_append_blanks {front blanks : List Char} (hfront : (after l none r front).isOpen)
    (h : ∀ c ∈ blanks, isBlank c) : (after l none r (front ++ blanks)).isOpen := by
  by_cases hne : blanks = []
  · rw [hne, List.append_nil]
    exact hfront
  · rw [after_append, Option.or_none, after_of_parted (parted_of_blank fun c hc =>
      h c (List.mem_of_mem_head? hc)), after_of_blanks h hne hfront]
    rfl

/-- In a run, a character goes on with it; all else is read as in plain text. -/
theorem next_of_isOpen (hr : r.isOpen) (l : Language) (c : Char) :
    (∀ ahead, r.next l c ahead = .run) ∨ ∀ ahead, r.next l c ahead = opening l c ahead := by
  cases r with
  | plain => exact .inr fun _ => rfl
  | run =>
    cases hc : isRunChar l c with
    | true => exact .inl fun _ => if_pos hc
    | false => exact .inr fun _ => next_run_of_not hc
  | literal q => cases hr
  | escaped q => cases hr
  | comment => cases hr

/-- Without a second slash in sight, what is open stays open. -/
theorem isOpen_next_none {c : Char} (h : (r.next l c ahead).isOpen) :
    (r.next l c none).isOpen := by
  have hopening : (opening l c ahead).isOpen → (opening l c none).isOpen := by
    intro hopen
    unfold opening at hopen ⊢
    split at hopen
    · cases hopen
    · rename_i hcomment
      rw [Bool.or_eq_true, not_or] at hcomment
      rw [if_neg (by simpa using hcomment.1)]
      split at hopen
      · cases hopen
      · split <;> rfl
  cases hr : r.isOpen with
  | true =>
    rcases next_of_isOpen hr l c with hnext | hnext
    · rw [hnext]
      rfl
    · rw [hnext] at h ⊢
      exact hopening h
  | false =>
    cases r with
    | plain => cases hr
    | run => cases hr
    | literal q => exact h
    | escaped q => exact h
    | comment => exact h

theorem isOpen_after_none {text : List Char} (h : (after l ahead r text).isOpen) :
    (after l none r text).isOpen := by
  induction text generalizing r with
  | nil => exact h
  | cons c rest ih =>
    rw [after_cons] at h ⊢
    cases rest with
    | nil => exact isOpen_next_none h
    | cons d rest => exact ih h

/-- A space neither ends a literal nor a comment. -/
theorem isOpen_of_space (h : (r.next l ' ' ahead).isOpen) : r.isOpen := by
  cases r with
  | plain => rfl
  | run => rfl
  | literal q => cases q <;> cases h
  | escaped q => cases h
  | comment => cases h

/-- Where a second slash makes no comment, it makes no difference. -/
theorem marks_of_after_plain {text : List Char} (h : after l (some '/') r text = .plain) :
    marks l (some '/') r text = marks l none r text := by
  have hlast : ∀ {r : Reading} {c : Char}, r.next l c (some '/') = .plain →
      r.next l c none = .plain := by
    intro r c hnext
    by_cases hc : c = '/'
    · subst hc
      cases r with
      | plain => cases hnext
      | run => cases l <;> cases hnext
      | literal q => cases q <;> cases hnext
      | escaped q => cases hnext
      | comment => cases hnext
    · have hslash : (c == '/') = false := beq_false_of_ne hc
      have hopens : opensRun l c (some '/') = opensRun l c none := by
        cases l with
        | wpl => rfl
        | oml => rw [opensRun, opensRun, hslash, Bool.false_and, Bool.false_and]
      have hopening : opening l c (some '/') = opening l c none := by
        rw [opening, opening, hslash, hopens]
        rfl
      cases r with
      | plain =>
        rw [next, hopening] at hnext
        exact hnext
      | run =>
        rw [next, hopening] at hnext
        exact hnext
      | literal q => exact hnext
      | escaped q => exact hnext
      | comment => exact hnext
  induction text generalizing r with
  | nil => rfl
  | cons c rest ih =>
    rw [after_cons] at h
    rw [marks, marks, ih h]
    cases rest with
    | nil =>
      simp only [List.head?_nil, Option.none_or] at h ⊢
      rw [show r.next l c (some '/') = .plain from h, hlast h]
    | cons d rest => rfl

/-- The mark of a visible character tells whether the text behind it is open or in a literal. -/
theorem mark_next {c : Char} (hc : isBlank c = false) :
    (r.mark (r.next l c ahead)).isOpen = (r.next l c ahead).isOpen ∧
      (r.mark (r.next l c ahead)).isQuoted = (r.next l c ahead).isQuoted := by
  have hline : (c == '\n') = false := by
    apply beq_false_of_ne
    rintro rfl
    exact absurd hc (by decide)
  have hopening : ∀ r : Reading, r.isOpen → (r.mark (opening l c ahead)).isOpen =
      (opening l c ahead).isOpen ∧
        (r.mark (opening l c ahead)).isQuoted = (opening l c ahead).isQuoted := by
    intro r hr
    cases r with
    | literal q => cases hr
    | escaped q => cases hr
    | comment => cases hr
    | plain | run =>
      unfold opening
      split
      · exact ⟨rfl, rfl⟩
      · split
        · exact ⟨rfl, rfl⟩
        · split <;> exact ⟨rfl, rfl⟩
  cases r with
  | plain => exact hopening .plain rfl
  | run =>
    rcases next_of_isOpen (r := .run) rfl l c with hnext | hnext
    · rw [hnext]
      exact ⟨rfl, rfl⟩
    · rw [hnext]
      exact hopening .run rfl
  | literal q =>
    rw [next, hline]
    cases c == '\\' with
    | true => exact ⟨rfl, rfl⟩
    | false => cases c == q.char <;> exact ⟨rfl, rfl⟩
  | escaped q =>
    rw [next, hline]
    exact ⟨rfl, rfl⟩
  | comment =>
    rw [next, hline]
    exact ⟨rfl, rfl⟩

/-- Plain text does not start inside a literal. -/
theorem marks_plain_head (text : List Char) : ∀ m ∈ (marks l ahead .plain text).head?,
    ∀ q, m.2 ≠ .inside q ∧ m.2 ≠ .closing q := by
  induction text with
  | nil => intro m hm; cases hm
  | cons c rest ih =>
    cases hc : isBlank c with
    | true =>
      rw [marks_cons_of_blank hc, next_of_blank rfl hc]
      exact ih
    | false =>
      rw [marks_cons_of_not_blank hc]
      intro m hm q
      cases hm
      dsimp only
      cases next l .plain c (rest.head?.or ahead) <;> simp [mark]

end Reading

end LogScript.Highlight
