import LogScript.Proofs.Highlight.CodeCharacters
import LogScript.Proofs.Layout.BodyReads

/-!
Texts that the layout of a body reads as the language does. The layout looks for comments outside
brackets only, also inside path literals, and a line end cuts a literal off only for the language. Where
a text has no comment inside brackets, no comment sign inside a path and no literal that a line end cuts
off, both tell the same literals and comments from code.
-/

namespace LogScript.Layout

open Highlight (Quote)
open Highlight.Reading hiding marks

def pastBracket (depth : Nat) (c : Char) : Nat :=
  if c == '(' || c == '[' then depth + 1
  else if c == ')' || c == ']' then depth - 1
  else depth

/-- Between two readings, in front of a text: no comment opens inside `depth` brackets, no path
goes over the sign of a comment outside them, and no line ends inside a literal. -/
def separableAt (r r' : Highlight.Reading) (depth : Nat) (text : List Char) : Bool :=
  (r' != .comment || depth == 0) && (r' != .run || depth != 0 || !opensComment text) &&
    (!r.isQuoted || text.head? != some '\n')

/-- A text in which the layout of a body tells comments and literals from code as they are read. -/
def separable (r : Highlight.Reading) (depth : Nat) (text : List Char) : Bool :=
  match text with
  | [] => true
  | c :: rest =>
    let r' := r.next .oml c rest.head?
    separableAt r r' depth (c :: rest) &&
      separable r' (if r.isOpen && r'.isOpen then pastBracket depth c else depth) rest

section Separable

variable {r : Highlight.Reading} {depth : Nat} {c : Char} {rest text : List Char}

theorem separable_cons (h : separable r depth (c :: rest)) :
    separableAt r (r.next .oml c rest.head?) depth (c :: rest) ∧
      separable (r.next .oml c rest.head?)
        (if r.isOpen && (r.next .oml c rest.head?).isOpen then pastBracket depth c else depth)
        rest := by
  rw [separable, Bool.and_eq_true] at h
  exact h

theorem pastBracket_of_blank (hc : isBlank c) : pastBracket depth c = depth := by
  have hne : ∀ d : Char, isBlank d = false → (c == d) = false :=
    fun d hd => beq_false_of_ne (ne_of_accepts hc hd)
  rw [pastBracket, hne '(' (by decide), hne '[' (by decide), hne ')' (by decide),
    hne ']' (by decide)]
  rfl

theorem separable_blanks {blanks : List Char} (hblanks : ∀ c ∈ blanks, isBlank c)
    (hne : blanks ≠ []) (hr : r.isOpen) (h : separable r depth (blanks ++ text)) :
    separable .plain depth text := by
  induction blanks generalizing r with
  | nil => exact absurd rfl hne
  | cons c blanks ih =>
    have hc := hblanks c List.mem_cons_self
    have hrest := (separable_cons h).2
    rw [next_of_blank hr hc, hr] at hrest
    change separable .plain (pastBracket depth c) (blanks ++ text) at hrest
    rw [pastBracket_of_blank hc] at hrest
    by_cases hmore : blanks = []
    · rw [hmore] at hrest
      exact hrest
    · exact ih (fun d hd => hblanks d (List.mem_cons_of_mem c hd)) hmore rfl hrest

theorem separable_plain_blanks {blanks : List Char} (hblanks : ∀ c ∈ blanks, isBlank c)
    (h : separable .plain depth (blanks ++ text)) : separable .plain depth text := by
  by_cases hne : blanks = []
  · rw [hne] at h
    exact h
  · exact separable_blanks hblanks hne rfl h

theorem separable_sign (hc : Sign .oml c) (hbracket : pastBracket depth c = depth)
    (hr : r.isOpen) (h : separable r depth (c :: rest)) : separable .plain depth rest := by
  have hrest := (separable_cons h).2
  rw [hc.next_eq hr, hr, hbracket] at hrest
  exact hrest

/-- Behind a comment the text is plain again. -/
theorem separable_comment {tail : List Char} (htail : '\n' ∉ tail)
    (htext : text = [] ∨ text.head? = some '\n')
    (h : separable .comment depth (tail ++ text)) : separable .plain depth text := by
  induction tail with
  | nil =>
    rcases htext with rfl | htext
    · rfl
    · obtain ⟨rest, rfl⟩ := List.head?_eq_some_iff.1 htext
      have hrest := (separable_cons h).2
      rw [next_lineFeed] at hrest
      rw [List.nil_append] at h
      rw [separable, next_lineFeed, pastBracket_of_blank (by decide), ite_self, Bool.and_eq_true]
      exact ⟨rfl, hrest⟩
  | cons c tail ih =>
    rw [List.mem_cons, not_or] at htail
    have hnext : ∀ ahead, next .oml .comment c ahead = .comment := fun _ =>
      if_neg (by simpa using fun heq => htail.1 heq.symm)
    have hrest := (separable_cons h).2
    rw [hnext] at hrest
    exact ih htail.2 hrest

/-- Both ways to follow a literal stand at the same place in it. -/
def SameQuoting (q : Quoting) (r : Highlight.Reading) : Prop :=
  q = .inside ∧ r = .literal .double ∨ q = .escaped ∧ r = .escaped .double

theorem SameQuoting.next {q : Quoting} (hq : SameQuoting q r) (hopen : q.next c ≠ .outside)
    (hline : (c == '\n') = false) (ahead : Option Char) :
    SameQuoting (q.next c) (r.next .oml c ahead) := by
  rcases hq with ⟨rfl, rfl⟩ | ⟨rfl, rfl⟩
  · have hquote : (c == '"') = false := by
      apply beq_false_of_ne
      rintro rfl
      exact hopen rfl
    have hchar : (c == Quote.char .double) = false := hquote
    rw [Quoting.next, Highlight.Reading.next, hline, hquote, hchar]
    cases c == '\\' with
    | true => exact .inr ⟨rfl, rfl⟩
    | false => exact .inl ⟨rfl, rfl⟩
  · rw [Quoting.next, Highlight.Reading.next, hline]
    exact .inl ⟨rfl, rfl⟩

theorem SameQuoting.isQuoted {q : Quoting} (hq : SameQuoting q r) :
    r.isQuoted = true ∧ r.isOpen = false := by
  rcases hq with ⟨-, rfl⟩ | ⟨-, rfl⟩ <;> exact ⟨rfl, rfl⟩

/-- A literal that the layout closes is read to its end. -/
theorem separable_literal {q : Quoting} {body : List Char} (hq : SameQuoting q r)
    (hbody : ∀ more, literalRest q (body ++ '"' :: more) = body ++ ['"'])
    (h : separable r depth (body ++ '"' :: text)) :
    after .oml text.head? r (body ++ ['"']) = .plain ∧ separable .plain depth text := by
  induction body generalizing q r with
  | nil =>
    rcases hq with ⟨rfl, rfl⟩ | ⟨rfl, rfl⟩
    · exact ⟨rfl, (separable_cons h).2⟩
    · exact absurd (hbody ['a']) (by decide)
  | cons c body ih =>
    obtain ⟨hat, hrest⟩ := separable_cons h
    obtain ⟨hquoted, hclosed⟩ := hq.isQuoted
    have hopen : q.next c ≠ .outside := by
      intro hclose
      have hshort := hbody []
      rw [List.cons_append, literalRest, if_pos hclose] at hshort
      simp at hshort
    have hmore : ∀ more, literalRest (q.next c) (body ++ '"' :: more) = body ++ ['"'] := by
      intro more
      have hlong := hbody more
      rw [List.cons_append, literalRest, if_neg hopen] at hlong
      exact (List.cons.inj hlong).2
    have hline : (c == '\n') = false := by
      rw [separableAt, hquoted, Bool.and_eq_true] at hat
      simpa using hat.2
    rw [hclosed] at hrest
    obtain ⟨hafter, hplain⟩ := ih (hq.next hopen hline _) hmore hrest
    refine ⟨?_, hplain⟩
    have hhead : (body ++ ['"']).head?.or text.head? = (body ++ '"' :: text).head? := by
      cases body <;> rfl
    rw [List.cons_append, after_cons, hhead]
    exact hafter

end Separable

end LogScript.Layout
