import LogScript.Proofs.Completion.SnippetReading

/-!
Writing segments down as a template. Texts are written as they are and slots between braces. A text
must not have a dollar sign in it, which could open a slot; apart from that, segments read back from
what is written exactly if they are as reading leaves them: texts are not empty and stand apart,
names do not close their slot, numbers have 32 bits, and the name of a slot without a number does not
read as a number itself.
-/

namespace LogScript.Template

/-- What is written between the braces of a slot. -/
def writeBody : Option Nat → List Char → List Char
  | none, name => name
  | some n, [] => decimal n
  | some n, name => decimal n ++ ':' :: name

def writeSegment : Segment → List Char
  | .text content => content
  | .slot number name => '$' :: '\x7b' :: (writeBody number name ++ ['\x7d'])

def write (segments : List Segment) : List Char :=
  segments.flatMap writeSegment

/-- Digits that denote a number of 32 bits stand alone, or a colon follows them. -/
def ReadsNumber (name : List Char) : Prop :=
  ∃ digits rest, name = digits ++ rest ∧ digits ≠ [] ∧ (∀ c ∈ digits, c.isDigit) ∧
    Nat.ofDigitChars 10 digits 0 ≤ largestNumber ∧ ∀ c ∈ rest.head?, c = ':'

/-- No text is empty. No name closes its slot, nor is a number where the slot has none, and the
numbers have 32 bits. -/
def Segment.Sound : Segment → Prop
  | .text content => content ≠ []
  | .slot none name => '\x7d' ∉ name ∧ ¬ReadsNumber name
  | .slot (some n) name => '\x7d' ∉ name ∧ n ≤ largestNumber

/-- Segments as reading leaves them. -/
structure Normal (segments : List Segment) : Prop where
  sound : ∀ s ∈ segments, s.Sound
  apart : segments.IsChain fun s t => isSlot s = false → isSlot t = true

theorem numberOf?_eq_some_iff {digits : List Char} {n : Nat} :
    numberOf? digits = some n ↔
      digits ≠ [] ∧ n ≤ largestNumber ∧ Nat.ofDigitChars 10 digits 0 = n := by
  have hvalue : digits.foldl (fun n c => n * 10 + (c.toNat - 0x30)) 0 =
      Nat.ofDigitChars 10 digits 0 := by
    rw [Nat.ofDigitChars_eq_foldl]
    congr
    funext m c
    rw [Nat.mul_comm]
    rfl
  simp only [numberOf?, hvalue, Bool.or_eq_true, List.isEmpty_iff, decide_eq_true_eq]
  split
  · rename_i hno
    constructor
    · intro h
      cases h
    · rintro ⟨hne, hle, rfl⟩
      rcases hno with hempty | hlarge
      · exact absurd hempty hne
      · omega
  · rename_i hyes
    rw [not_or] at hyes
    constructor
    · intro h
      cases h
      exact ⟨hyes.1, by omega, rfl⟩
    · rintro ⟨-, -, rfl⟩
      rfl

theorem slotOfBody_number {n : Nat} (h : n ≤ largestNumber) (name : List Char) :
    slotOfBody (writeBody (some n) name) = .slot (some n) name := by
  have hnumber : numberOf? (decimal n) = some n :=
    numberOf?_eq_some_iff.2 ⟨decimal_ne_nil n, h, Nat.ofDigitChars_ten_toDigits⟩
  have hdigits : ∀ c ∈ decimal n, c.isDigit := fun c => isDigit_of_mem_decimal
  cases name with
  | nil =>
    have hrun : (decimal n ++ []).takeWhile Char.isDigit = decimal n :=
      takeWhile_append_of_head? hdigits (by simp)
    rw [List.append_nil] at hrun
    simp only [writeBody, slotOfBody, hrun, hnumber, List.drop_length]
  | cons c name =>
    have hrun : (decimal n ++ ':' :: c :: name).takeWhile Char.isDigit = decimal n :=
      takeWhile_append_of_head? hdigits (by simp)
    simp only [writeBody, slotOfBody, hrun, hnumber, List.drop_left]

/-- The digits in front of a colon, or of the end, are all digits at the front. -/
theorem readsNumber_append_iff {digits rest : List Char} (hdigits : ∀ c ∈ digits, c.isDigit)
    (hrest : ∀ c ∈ rest.head?, c.isDigit = false) :
    ReadsNumber (digits ++ rest) ↔
      (∃ n, numberOf? digits = some n) ∧ ∀ c ∈ rest.head?, c = ':' := by
  constructor
  · rintro ⟨ds, more, heq, hne, hds, hle, hmore⟩
    have hnot : ∀ c ∈ more.head?, c.isDigit = false := by
      intro c hc
      rw [hmore c hc]
      decide
    have hsame : ds = digits := by
      rw [← takeWhile_append_of_head? hds hnot, ← heq, takeWhile_append_of_head? hdigits hrest]
    subst hsame
    rw [List.append_cancel_left heq]
    exact ⟨⟨_, numberOf?_eq_some_iff.2 ⟨hne, hle, rfl⟩⟩, hmore⟩
  · rintro ⟨⟨n, hnumber⟩, hcolon⟩
    obtain ⟨hne, hle, rfl⟩ := numberOf?_eq_some_iff.1 hnumber
    exact ⟨digits, rest, rfl, hne, hdigits, hle, hcolon⟩

/-- A text that does not read as a number is a name; any other is a number, perhaps with a name. -/
theorem slotOfBody_cases (body : List Char) :
    slotOfBody body = .slot none body ∧ ¬ReadsNumber body ∨
      ReadsNumber body ∧ ∃ n name, slotOfBody body = .slot (some n) name ∧ n ≤ largestNumber := by
  obtain ⟨digits, rest, rfl, hdigits, hrest⟩ := exists_run Char.isDigit body
  have hrun := takeWhile_append_of_head? hdigits hrest
  have hreads := readsNumber_append_iff hdigits hrest
  cases hnumber : numberOf? digits with
  | none =>
    left
    constructor
    · simp only [slotOfBody, hrun, hnumber]
    · intro h
      obtain ⟨⟨n, hsome⟩, -⟩ := hreads.1 h
      rw [hnumber] at hsome
      cases hsome
  | some n =>
    have hle : n ≤ largestNumber := (numberOf?_eq_some_iff.1 hnumber).2.1
    cases rest with
    | nil =>
      right
      refine ⟨hreads.2 ⟨⟨n, hnumber⟩, by simp⟩, n, [], ?_, hle⟩
      simp only [slotOfBody, hrun, hnumber, List.drop_left]
    | cons c rest =>
      by_cases hc : c = ':'
      · subst hc
        right
        refine ⟨hreads.2 ⟨⟨n, hnumber⟩, by simp⟩, n, rest, ?_, hle⟩
        simp only [slotOfBody, hrun, hnumber, List.drop_left]
      · left
        constructor
        · simp only [slotOfBody, hrun, hnumber, List.drop_left]
          split
          · rename_i heq
            cases heq
          · rename_i heq
            exact absurd (List.cons.inj heq).1 hc
          · rfl
        · intro h
          exact hc ((hreads.1 h).2 c rfl)

theorem readsNumber_iff (body : List Char) :
    ReadsNumber body ↔ slotOfBody body ≠ .slot none body := by
  rcases slotOfBody_cases body with ⟨hplain, hreads⟩ | ⟨hreads, n, name, hnumber, -⟩
  · simp [hplain, hreads]
  · simp [hnumber, hreads]

instance (body : List Char) : Decidable (ReadsNumber body) :=
  decidable_of_iff _ (readsNumber_iff body).symm

instance : DecidablePred Segment.Sound
  | .text content => inferInstanceAs (Decidable (content ≠ []))
  | .slot none name => inferInstanceAs (Decidable ('\x7d' ∉ name ∧ ¬ReadsNumber name))
  | .slot (some n) name => inferInstanceAs (Decidable ('\x7d' ∉ name ∧ n ≤ largestNumber))

theorem parse_text {content : List Char} (h : '$' ∉ content) (rest : List Char) :
    parse (content ++ rest) = content.foldr consText (parse rest) := by
  induction content with
  | nil => rfl
  | cons c content ih =>
    rw [List.mem_cons, not_or] at h
    rw [List.cons_append, parse, if_neg (by simpa using Ne.symm h.1), ih h.2]
    rfl

theorem foldr_consText {content : List Char} (hne : content ≠ []) {segments : List Segment}
    (h : ∀ s ∈ segments.head?, isSlot s = true) :
    content.foldr consText segments = .text content :: segments := by
  induction content with
  | nil => exact absurd rfl hne
  | cons c content ih =>
    cases content with
    | nil =>
      cases segments with
      | nil => rfl
      | cons s segments =>
        cases s with
        | text content => cases h _ rfl
        | slot number name => rfl
    | cons d content =>
      rw [List.foldr_cons, ih (List.cons_ne_nil d content)]
      rfl

theorem parse_slot {body : List Char} (h : '\x7d' ∉ body) (rest : List Char) :
    parse ('$' :: '\x7b' :: (body ++ '\x7d' :: rest)) = slotOfBody body :: parse rest := by
  have hbody : (body ++ '\x7d' :: rest).takeWhile (· != '\x7d') = body := by
    apply takeWhile_append_of_head?
    · intro c hc
      simpa using ne_of_mem_of_not_mem hc h
    · simp
  have hopening : openingOf ('\x7b' :: (body ++ '\x7d' :: rest)) =
      .slot (slotOfBody body) (body.length + 2) := by
    simp [openingOf, hbody]
  rw [parse, if_pos (by decide), hopening]
  simp

/-- A slot of a read template was opened by a dollar sign. -/
theorem exists_openingOf_of_mem_parse {template : List Char} {number : Option Nat}
    {name : List Char} (h : .slot number name ∈ parse template) :
    ∃ text taken, openingOf text = .slot (.slot number name) taken := by
  have hbehind {c : Char} {segments : List Segment}
      (h : .slot number name ∈ consText c segments) : .slot number name ∈ segments := by
    cases segments with
    | nil => simp [consText] at h
    | cons s segments => cases s <;> simpa [consText] using h
  induction template using parse.induct with
  | case1 =>
    rw [parse] at h
    cases h
  | case2 c rest hc s taken hopening ih =>
    rw [parse, if_pos hc, hopening] at h
    rcases List.mem_cons.1 h with rfl | h
    · exact ⟨rest, taken, hopening⟩
    · exact ih h
  | case3 c rest hc hopening =>
    rw [parse, if_pos hc, hopening] at h
    simp at h
  | case4 c rest hc hopening ih =>
    rw [parse, if_pos hc, hopening] at h
    exact ih (hbehind h)
  | case5 c rest hc ih =>
    rw [parse, if_neg hc] at h
    exact ih (hbehind h)

/-- What a dollar sign opens is what stands between braces, or a number alone. -/
theorem openingOf_cases {text : List Char} {s : Segment} {taken : Nat}
    (h : openingOf text = .slot s taken) :
    (∃ body, s = slotOfBody body) ∨ ∃ n, s = .slot (some n) [] ∧ n ≤ largestNumber := by
  unfold openingOf at h
  split at h
  · dsimp only at h
    split at h
    · cases h
    · cases h
      exact .inl ⟨_, rfl⟩
  · dsimp only at h
    split at h
    · rename_i n hnumber
      cases h
      exact .inr ⟨n, rfl, (numberOf?_eq_some_iff.1 hnumber).2.1⟩
    · cases h

theorem sound_of_mem_parse {template : List Char} {s : Segment} (h : s ∈ parse template) :
    s.Sound := by
  have hproper := proper_parse template
  have houtline : s.outline ∈ (parse template).map Segment.outline := List.mem_map_of_mem h
  cases s with
  | text content => exact hproper.texts content houtline
  | slot number name =>
    have hbrace : '\x7d' ∉ name := hproper.names 0 name houtline
    obtain ⟨text, taken, hopening⟩ := exists_openingOf_of_mem_parse h
    rcases openingOf_cases hopening with ⟨body, hslot⟩ | ⟨n, hslot, hle⟩
    · rcases slotOfBody_cases body with ⟨hplain, hreads⟩ | ⟨-, n, other, hnumber, hle⟩
      · cases hslot.trans hplain
        exact ⟨hbrace, hreads⟩
      · cases hslot.trans hnumber
        exact ⟨hbrace, hle⟩
    · cases hslot
      exact ⟨hbrace, hle⟩

theorem normal_parse (template : List Char) : Normal (parse template) where
  sound _ := sound_of_mem_parse
  apart := by
    apply ((List.isChain_map Segment.outline).1 (proper_parse template).apart).imp
    intro s t h hs
    cases s with
    | text content =>
      cases t with
      | text content => cases h rfl
      | slot number name => rfl
    | slot number name => cases hs

theorem Segment.Sound.brace_not_mem {number : Option Nat} {name : List Char}
    (h : (Segment.slot number name).Sound) : '\x7d' ∉ name := by
  cases number with
  | none => exact h.1
  | some n => exact h.1

theorem brace_not_mem_writeBody {number : Option Nat} {name : List Char} (h : '\x7d' ∉ name) :
    '\x7d' ∉ writeBody number name := by
  cases number with
  | none => exact h
  | some n =>
    have hdecimal : '\x7d' ∉ decimal n := by
      intro hmem
      exact absurd (isDigit_of_mem_decimal hmem) (by decide)
    cases name with
    | nil => exact hdecimal
    | cons c name => simpa [writeBody, hdecimal] using h

theorem Segment.Sound.slotOfBody_writeBody {number : Option Nat} {name : List Char}
    (h : (Segment.slot number name).Sound) :
    slotOfBody (writeBody number name) = .slot number name := by
  cases number with
  | none =>
    rcases slotOfBody_cases name with ⟨hplain, -⟩ | ⟨hreads, -⟩
    · exact hplain
    · exact absurd hreads h.2
  | some n => exact slotOfBody_number h.2 name

theorem parse_write {segments : List Segment}
    (hdollar : ∀ content, .text content ∈ segments → '$' ∉ content) (h : Normal segments) :
    parse (write segments) = segments := by
  induction segments with
  | nil =>
    rw [write, List.flatMap_nil, parse]
  | cons s segments ih =>
    have hsound := List.forall_mem_cons.1 h.sound
    have hrest : parse (write segments) = segments :=
      ih (fun content hc => hdollar content (List.mem_cons_of_mem s hc)) ⟨hsound.2, h.apart.tail⟩
    cases s with
    | text content =>
      have hslot : ∀ s ∈ segments.head?, isSlot s = true := by
        intro s hs
        exact (List.isChain_cons.1 h.apart).1 s hs rfl
      calc
        parse (content ++ write segments) = content.foldr consText (parse (write segments)) :=
          parse_text (hdollar content List.mem_cons_self) (write segments)
        _ = content.foldr consText segments := by rw [hrest]
        _ = .text content :: segments := foldr_consText hsound.1 hslot
    | slot number name =>
      have hbrace : '\x7d' ∉ writeBody number name :=
        brace_not_mem_writeBody hsound.1.brace_not_mem
      have hwritten : write (.slot number name :: segments) =
          '$' :: '\x7b' :: (writeBody number name ++ '\x7d' :: write segments) := by
        simp [write, writeSegment]
      rw [hwritten, parse_slot hbrace, hsound.1.slotOfBody_writeBody, hrest]

/-- Segments whose texts have no dollar sign in them read back from what is written exactly if they
are as reading leaves segments. -/
theorem parse_write_iff {segments : List Segment}
    (hdollar : ∀ content, .text content ∈ segments → '$' ∉ content) :
    parse (write segments) = segments ↔ Normal segments := by
  constructor
  · intro h
    rw [← h]
    exact normal_parse (write segments)
  · exact parse_write hdollar

/-- A colon and braces in names, the largest number and one behind it, a name that starts with digits
and one that is empty. -/
def intricate : List Segment :=
  [.text "f\x7d(".toList, .slot none "a$\x7b:".toList, .slot (some 4294967295) [],
    .slot (some 0) "7:b".toList, .text ", ".toList, .slot none "4294967296:c".toList,
    .slot none "01d".toList, .slot none []]

theorem parse_write_intricate :
    (∀ content, .text content ∈ intricate → '$' ∉ content) ∧ Normal intricate ∧
      parse (write intricate) = intricate := by
  have hdollar : ∀ content, .text content ∈ intricate → '$' ∉ content := by
    simp [intricate]
  have hnormal : Normal intricate := ⟨by decide +kernel, by simp [intricate, isSlot]⟩
  exact ⟨hdollar, hnormal, (parse_write_iff hdollar).2 hnormal⟩

end LogScript.Template
