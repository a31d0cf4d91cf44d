import LogScript.Proofs.Highlight.ByteClassifiers

/-!
Tokens cover their text. The tokens of a text lie side by side from its first byte to its last,
none of them is empty, and no boundary falls inside a character. This holds for the three
classifiers from every start state, and for every classifier whose lengths are 0, past the end, or
the end of some leading characters. In each case the loop over byte positions comes to an end and
never reads or cuts the text at a wrong place.
-/

namespace LogScript

/-- The position is an end of the text or falls between two of its characters. -/
def IsBoundary (text : List Char) (position : Nat) : Prop :=
  ∃ a, a <+: text ∧ byteLength a = position

namespace Token

/-- Tokens that are not empty and lie side by side from `start` to `stop`. -/
def Tile (start stop : Nat) : List Token → Prop
  | [] => start = stop
  | t :: ts => t.start = start ∧ t.start < t.stop ∧ Tile t.stop stop ts

structure Cover (text : List Char) (ts : List Token) : Prop where
  tile : Tile 0 (byteLength text) ts
  boundaries : ∀ t ∈ ts, IsBoundary text t.start ∧ IsBoundary text t.stop

/-- The induction is on the lexemes: `a` has been placed, `ls` are still to come. -/
theorem tile_place (ls : List Lexeme) (h : ∀ l ∈ ls, l.text ≠ []) (start : Nat) :
    Tile start (start + byteLength (ls.map Lexeme.text).flatten) (place start ls) := by
  induction ls generalizing start with
  | nil => rfl
  | cons l ls ih =>
    have hpos := byteLength_pos (h l (by simp))
    have hrest := ih (fun l hl => h l (by simp [hl])) (start + byteLength l.text)
    refine ⟨rfl, by simp only; omega, ?_⟩
    simpa [Nat.add_assoc] using hrest

theorem boundaries_place (a : List Char) (ls : List Lexeme) :
    ∀ t ∈ place (byteLength a) ls,
      IsBoundary (a ++ (ls.map Lexeme.text).flatten) t.start ∧
        IsBoundary (a ++ (ls.map Lexeme.text).flatten) t.stop := by
  induction ls generalizing a with
  | nil => simp [place]
  | cons l ls ih =>
    intro t ht
    have hstop : byteLength a + byteLength l.text = byteLength (a ++ l.text) := by simp
    rw [place, List.mem_cons] at ht
    rw [List.map_cons, List.flatten_cons, ← List.append_assoc]
    obtain rfl | ht := ht
    · refine ⟨⟨a, ?_, rfl⟩, a ++ l.text, List.prefix_append _ _, hstop.symm⟩
      exact (List.prefix_append a l.text).trans (List.prefix_append _ _)
    · rw [hstop] at ht
      exact ih (a ++ l.text) t ht

theorem cover_place {text : List Char} {ls : List Lexeme} (h : ∀ l ∈ ls, l.text ≠ [])
    (htext : (ls.map Lexeme.text).flatten = text) : Cover text (place 0 ls) := by
  subst htext
  constructor
  · simpa using tile_place ls h 0
  · simpa using boundaries_place [] ls

end Token

namespace Classifier

variable {σ : Type}

/-- Each step is as long as nothing, as more than the text, or as some leading characters. -/
def EndsOnBoundaries (k : Classifier σ) : Prop :=
  ∀ (text : List Char) (state : σ), text ≠ [] →
    (k.classify text state).length = 0 ∨ byteLength text < (k.classify text state).length ∨
      IsBoundary text (k.classify text state).length

theorem text_ne_nil_of_mem_lexFrom (k : Classifier σ) :
    ∀ (text : List Char) (state : σ), ∀ l ∈ (k.lexFrom text state).1, l.text ≠ []
  | [], _ => by simp
  | c :: rest, state => by
    intro l hl
    rw [lexFrom, List.mem_cons] at hl
    obtain rfl | hl := hl
    · have : 1 ≤ stride (k.classify (c :: rest) state).length (c :: rest) := Nat.le_max_left _ _
      intro hnil
      rw [List.take_eq_nil_iff] at hnil
      simp at hnil
      omega
    · exact text_ne_nil_of_mem_lexFrom k _ _ l hl
termination_by text => text.length
decreasing_by
  simp only [List.length_drop, List.length_cons, stride]
  omega

theorem cover_tokenizeFrom (k : Classifier σ) (text : List Char) (state : σ) :
    Token.Cover text (k.tokenizeFrom text state).1 :=
  Token.cover_place (k.text_ne_nil_of_mem_lexFrom text state) (k.lexFrom_texts text state)

/-- The byte length of the piece that a step takes off is the one the loop goes on by. -/
theorem byteLength_take_stride {text : List Char} (htext : text ≠ []) {length : Nat}
    (h : length = 0 ∨ byteLength text < length ∨ IsBoundary text length) :
    byteLength (text.take (stride length text)) =
      if length = 0 then ByteScan.charLength text else min length (byteLength text) := by
  have hpos := byteLength_pos htext
  obtain rfl | h | ⟨a, ⟨b, rfl⟩, rfl⟩ := h
  · rw [if_pos rfl, stride, charsWithin_zero]
    cases text with
    | nil => exact absurd rfl htext
    | cons c rest => simp [ByteScan.charLength]
  · have hall : charsWithin length text = text.length := charsWithin_of_le (Nat.le_of_lt h)
    rw [if_neg (by omega), Nat.min_eq_right (Nat.le_of_lt h), stride, hall,
      List.take_of_length_le (Nat.le_max_right _ _)]
  · cases a with
    | nil =>
      rw [byteLength_nil, if_pos rfl, stride, charsWithin_zero]
      cases b with
      | nil => exact absurd rfl htext
      | cons c rest => simp [ByteScan.charLength]
    | cons c a =>
      have hlength := byteLength_pos (List.cons_ne_nil c a)
      rw [if_neg (by omega), stride, charsWithin_append, Nat.max_eq_right (by simp), List.take_left,
        byteLength_append, Nat.min_eq_left (Nat.le_add_right _ _)]

/-- A loop over byte positions whose steps never fail comes to the end of the text, and places the
lexemes. The induction is on the text behind `a`, which has been read. -/
theorem drive_eq (k : Classifier σ) (hends : k.EndsOnBoundaries)
    {classify : List Char → σ → Option (Step σ)}
    (hstep : ∀ c rest state, classify (c :: rest) state = some (k.classify (c :: rest) state)) :
    ∀ (a rest : List Char) (state : σ),
      ByteScan.drive classify (a ++ rest) (byteLength a) state =
        some (Token.place (byteLength a) (k.lexFrom rest state).1, (k.lexFrom rest state).2)
  | a, [], state => by
    rw [ByteScan.drive, List.append_nil, if_neg (Nat.lt_irrefl _), lexFrom_nil]
    rfl
  | a, c :: rest, state => by
    have hpos := byteLength_pos (List.cons_ne_nil c rest)
    have hlt : byteLength a < byteLength (a ++ c :: rest) := by
      rw [byteLength_append]
      omega
    have hleft : byteLength (a ++ c :: rest) - byteLength a = byteLength (c :: rest) := by
      rw [byteLength_append]
      omega
    have hlength := byteLength_take_stride (List.cons_ne_nil c rest)
      (hends (c :: rest) state (List.cons_ne_nil c rest))
    have hnext : a ++ c :: rest =
        a ++ (c :: rest).take (stride (k.classify (c :: rest) state).length (c :: rest)) ++
          (c :: rest).drop (stride (k.classify (c :: rest) state).length (c :: rest)) := by
      rw [List.append_assoc, List.take_append_drop]
    have hlater := drive_eq k hends hstep
      (a ++ (c :: rest).take (stride (k.classify (c :: rest) state).length (c :: rest)))
      ((c :: rest).drop (stride (k.classify (c :: rest) state).length (c :: rest)))
      (k.classify (c :: rest) state).state
    rw [← hnext, byteLength_append] at hlater
    rw [ByteScan.drive, if_pos hlt, ByteScan.dropBytes?_byteLength, lexFrom]
    simp only [Option.bind_eq_bind, Option.bind_some, hstep, hleft, ← hlength, hlater,
      Option.pure_def]
    rfl
termination_by _ rest => rest.length
decreasing_by
  simp only [List.length_drop, List.length_cons, stride]
  omega

end Classifier

namespace Highlight

/-- A step takes some leading characters off a text, at least one. -/
def Consumes {σ : Type} (step : Step σ) (text : List Char) : Prop :=
  ∃ lexeme, lexeme ≠ [] ∧ lexeme <+: text ∧ step.length = byteLength lexeme

theorem Consumes.isBoundary {σ : Type} {step : Step σ} {text : List Char}
    (h : Consumes step text) : IsBoundary text step.length := by
  obtain ⟨lexeme, _, hprefix, hlength⟩ := h
  exact ⟨lexeme, hprefix, hlength.symm⟩

theorem consumes_take {σ : Type} {text lexeme : List Char} (category : Category) (state : σ)
    (hne : lexeme ≠ []) (hstarts : lexeme <+: text) :
    Consumes (Step.take lexeme category state) text :=
  ⟨lexeme, hne, hstarts, rfl⟩

theorem quoted_ne_nil {c : Char} (hc : c ≠ '\n') (rest : List Char) :
    Run.quoted c (c :: rest) ≠ [] := by
  rw [Run.quoted, firstLine_cons hc]
  exact List.cons_ne_nil c _

theorem prefix_of_literalTail (quote : Char) : ∀ text, Run.literalTail quote text <+: text
  | [] => List.prefix_rfl
  | [c] => by
    rw [Run.literalTail]
    split
    · exact List.prefix_rfl
    · split
      · exact List.prefix_rfl
      · simp [Run.literalTail]
  | c :: escaped :: rest => by
    rw [Run.literalTail.eq_def]
    simp only
    split
    · exact List.cons_prefix_cons.2 ⟨rfl, List.cons_prefix_cons.2
        ⟨rfl, prefix_of_literalTail quote rest⟩⟩
    · split
      · exact List.cons_prefix_cons.2 ⟨rfl, List.nil_prefix⟩
      · exact List.cons_prefix_cons.2 ⟨rfl, prefix_of_literalTail quote (escaped :: rest)⟩

theorem prefix_of_quoted (quote : Char) (text : List Char) : Run.quoted quote text <+: text := by
  rw [Run.quoted]
  split
  · exact List.nil_prefix
  · rename_i opening rest hline
    refine List.IsPrefix.trans ?_ (List.takeWhile_prefix (· != '\n'))
    rw [firstLine] at hline
    rw [hline]
    exact List.cons_prefix_cons.2 ⟨rfl, prefix_of_literalTail quote rest⟩

theorem number_ne_nil {limit : Nat} {text n : List Char} (h : Run.number limit text = some n) :
    n ≠ [] := by
  rw [Run.number] at h
  split at h
  · cases h
  · rename_i ds hds
    cases h
    intro hnil
    simp only [List.append_eq_nil_iff] at hnil
    exact hds hnil.1.2

theorem firstLine_ne_nil {text : List Char} (h : startsComment text) : firstLine text ≠ [] := by
  cases text with
  | nil => cases h
  | cons c rest =>
    have hc : c ≠ '\n' := by
      rintro rfl
      cases rest <;> simp [startsComment] at h
    rw [firstLine_cons hc]
    exact List.cons_ne_nil c _

theorem prefix_head (c : Char) (rest : List Char) : [c] <+: c :: rest :=
  List.cons_prefix_cons.2 ⟨rfl, List.nil_prefix⟩

theorem consumes_blanks {σ : Type} {c : Char} (h : isBlank c) (rest : List Char) (state : σ) :
    Consumes (Step.take (Run.blanks (c :: rest)) .unstyled state) (c :: rest) :=
  consumes_take _ _ (by simp [Run.blanks, h]) (List.takeWhile_prefix isBlank)

theorem consumes_quoted {σ : Type} {c : Char} (h : c ≠ '\n') (rest : List Char) (state : σ) :
    Consumes (Step.take (Run.quoted c (c :: rest)) .string state) (c :: rest) :=
  consumes_take _ _ (quoted_ne_nil h rest) (prefix_of_quoted c _)

theorem consumes_classifyWpl (v : Vocabulary) (c : Char) (rest : List Char) :
    Consumes (classifyWpl v (c :: rest)) (c :: rest) := by
  unfold classifyWpl
  simp only
  split
  · exact consumes_blanks ‹_› rest ()
  split
  · exact consumes_take _ _ (firstLine_ne_nil ‹_›) (List.takeWhile_prefix _)
  split
  · rename_i hquote
    refine consumes_quoted ?_ rest ()
    rintro rfl
    revert hquote
    decide
  split
  · exact consumes_take _ _ (number_ne_nil ‹_›) (ByteScan.prefix_of_number ‹_›)
  split
  · exact consumes_take _ _ (List.cons_ne_nil c []) (prefix_head c rest)
  split
  · exact consumes_take _ _ (List.cons_ne_nil c []) (prefix_head c rest)
  · exact consumes_take _ _ ‹_› (List.takeWhile_prefix isWplWordChar)

theorem consumes_classifyOmlWord (v : Vocabulary) (s : OmlState) (c : Char) (rest : List Char) :
    Consumes (classifyOmlWord v (c :: rest) s) (c :: rest) := by
  unfold classifyOmlWord
  simp only
  split
  · exact consumes_take _ _ (List.cons_ne_nil c []) (prefix_head c rest)
  split
  · exact consumes_take _ _ (List.cons_ne_nil c []) (prefix_head c rest)
  · exact consumes_take _ _ ‹_› (List.takeWhile_prefix isOmlWordChar)

theorem prefix_of_pathRun {text path : List Char} (h : pathRun text = some path) :
    path ≠ [] ∧ path <+: text := by
  unfold pathRun at h
  split at h
  · rename_i rest
    split at h
    · cases h
    · cases h
      exact ⟨List.cons_ne_nil _ _,
        List.cons_prefix_cons.2 ⟨rfl, List.takeWhile_prefix isOmlPathChar⟩⟩
  · cases h

theorem consumes_classifyOml (v : Vocabulary) (s : OmlState) (c : Char) (rest : List Char) :
    Consumes (classifyOml v (c :: rest) s) (c :: rest) := by
  unfold classifyOml
  simp only
  split
  · exact consumes_blanks ‹_› rest s
  split
  · exact consumes_take _ _ (firstLine_ne_nil ‹_›) (List.takeWhile_prefix _)
  split
  · exact consumes_take _ _ (by decide) (List.isPrefixOf_iff_prefix.1 ‹_›)
  split
  · rename_i hquote
    exact consumes_quoted (by rw [eq_of_beq hquote]; decide) rest s
  split
  · exact consumes_take _ _ (number_ne_nil ‹_›) (ByteScan.prefix_of_number ‹_›)
  split
  · split
    · exact consumes_take _ _ (List.cons_ne_nil c []) (prefix_head c rest)
    · exact consumes_take _ _ (List.cons_ne_nil c _)
        (List.cons_prefix_cons.2 ⟨rfl, List.takeWhile_prefix Run.isWordChar⟩)
  split
  · rename_i path hpath
    exact consumes_take _ _ (prefix_of_pathRun hpath).1 (prefix_of_pathRun hpath).2
  · exact consumes_classifyOmlWord v s c rest

theorem prefix_of_exponentRun (text : List Char) : exponentRun text <+: text := by
  cases text with
  | nil => exact List.nil_prefix
  | cons mark rest =>
    have hrest := ByteScan.filter_take_one_append_drop (fun c => c == '+' || c == '-') rest
    unfold exponentRun
    simp only
    generalize (rest.take 1).filter (fun c => c == '+' || c == '-') = sign at hrest ⊢
    split
    · split
      · exact List.nil_prefix
      · refine List.cons_prefix_cons.2 ⟨rfl, ?_⟩
        have hdigits := (List.prefix_append_right_inj sign).2
          (List.takeWhile_prefix Char.isDigit (l := rest.drop sign.length))
        rwa [hrest] at hdigits
    · exact List.nil_prefix

theorem prefix_of_jsonNumber {text n : List Char} (h : jsonNumber text = some n) :
    n ≠ [] ∧ n <+: text := by
  obtain ⟨digits, hdigits, rfl⟩ := Option.map_eq_some_iff.1 h
  obtain ⟨behind, hbehind⟩ := ByteScan.prefix_of_number hdigits
  have hdrop : text.drop digits.length = behind := by rw [← hbehind, List.drop_left]
  refine ⟨fun hnil => number_ne_nil hdigits (List.append_eq_nil_iff.1 hnil).1, ?_⟩
  have hexponent := (List.prefix_append_right_inj digits).2 (prefix_of_exponentRun behind)
  rwa [hdrop, ← hbehind]

theorem consumes_classifyJson (c : Char) (rest : List Char) :
    Consumes (classifyJson (c :: rest)) (c :: rest) := by
  unfold classifyJson
  simp only
  split
  · exact consumes_blanks ‹_› rest ()
  split
  · rename_i hquote
    exact consumes_quoted (by rw [eq_of_beq hquote]; decide) rest ()
  split
  · rename_i n hn
    exact consumes_take _ _ (prefix_of_jsonNumber hn).1 (prefix_of_jsonNumber hn).2
  split
  · exact consumes_take _ _ (List.cons_ne_nil c []) (prefix_head c rest)
  split
  · exact consumes_take _ _ (List.cons_ne_nil c []) (prefix_head c rest)
  · exact consumes_take _ _ ‹_› (List.takeWhile_prefix Run.isWordChar)

/-- A classifier that always takes some leading characters, read as a loop over bytes. -/
theorem drive_cover {σ : Type} {k : Classifier σ} {classify : List Char → σ → Option (Step σ)}
    (hstep : ∀ c rest s, classify (c :: rest) s = some (k.classify (c :: rest) s))
    (hends : k.EndsOnBoundaries) (text : List Char) (s : σ) :
    ByteScan.drive classify text 0 s = some (k.tokenizeFrom text s) ∧
      Token.Cover text (k.tokenizeFrom text s).1 :=
  ⟨k.drive_eq hends hstep [] text s, k.cover_tokenizeFrom text s⟩

theorem endsOnBoundaries_of_consumes {σ : Type} {k : Classifier σ}
    (h : ∀ c rest s, Consumes (k.classify (c :: rest) s) (c :: rest)) : k.EndsOnBoundaries := by
  intro text s htext
  cases text with
  | nil => exact absurd rfl htext
  | cons c rest => exact Or.inr (Or.inr (h c rest s).isBoundary)

/-- From every start state the three classifiers, and every classifier whose lengths are 0, past
the end or the end of some leading characters, give tokens that cover the text. Read over byte
positions, the loop ends and no access is out of range or inside a character. -/
theorem tokenizeFrom_cover :
    (∀ (v : Vocabulary) (text : List Char),
      ByteScan.drive (ByteScan.classifyWpl v) text 0 () = some ((wpl v).tokenizeFrom text ()) ∧
        Token.Cover text ((wpl v).tokenizeFrom text ()).1) ∧
    (∀ (v : Vocabulary) (text : List Char) (s : OmlState),
      ByteScan.drive (ByteScan.classifyOml v) text 0 s = some ((oml v).tokenizeFrom text s) ∧
        Token.Cover text ((oml v).tokenizeFrom text s).1) ∧
    (∀ text : List Char,
      ByteScan.drive ByteScan.classifyJson text 0 () = some (json.tokenizeFrom text ()) ∧
        Token.Cover text (json.tokenizeFrom text ()).1) ∧
    ∀ (σ : Type) (k : Classifier σ), k.EndsOnBoundaries → ∀ (text : List Char) (s : σ),
      ByteScan.drive (fun rest s => some (k.classify rest s)) text 0 s =
          some (k.tokenizeFrom text s) ∧
        Token.Cover text (k.tokenizeFrom text s).1 := by
  refine ⟨fun v text => ?_, fun v text s => ?_, fun text => ?_, fun σ k hends text s => ?_⟩
  · have hends : (wpl v).EndsOnBoundaries :=
      endsOnBoundaries_of_consumes (fun c rest _ => consumes_classifyWpl v c rest)
    exact drive_cover (fun c rest _ => ByteScan.classifyWpl_eq v c rest) hends text ()
  · have hends : (oml v).EndsOnBoundaries :=
      endsOnBoundaries_of_consumes (fun c rest s => consumes_classifyOml v s c rest)
    exact drive_cover (fun c rest s => ByteScan.classifyOml_eq v s c rest) hends text s
  · have hends : json.EndsOnBoundaries :=
      endsOnBoundaries_of_consumes (fun c rest _ => consumes_classifyJson c rest)
    exact drive_cover (fun c rest _ => ByteScan.classifyJson_eq c rest) hends text ()
  · exact drive_cover (fun _ _ _ => rfl) hends text s

/-- Stalls at first and then asks for more than is left. -/
def stallThenOvershoot : Classifier Bool :=
  ⟨true, fun text stalls => ⟨if stalls then 0 else byteLength text + 1, .unstyled, !stalls⟩⟩

theorem stallThenOvershoot_cover :
    stallThenOvershoot.EndsOnBoundaries ∧
      ByteScan.drive (fun rest s => some (stallThenOvershoot.classify rest s))
          ['a', 'é', 'b'] 0 true =
        some (stallThenOvershoot.tokenizeFrom ['a', 'é', 'b'] true) ∧
      Token.Cover ['a', 'é', 'b'] (stallThenOvershoot.tokenizeFrom ['a', 'é', 'b'] true).1 := by
  have hends : stallThenOvershoot.EndsOnBoundaries := by
    intro text stalls _
    cases stalls with
    | true => exact Or.inl rfl
    | false => exact Or.inr (Or.inl (Nat.lt_succ_self _))
  exact ⟨hends, tokenizeFrom_cover.2.2.2 Bool stallThenOvershoot hends ['a', 'é', 'b'] true⟩

end Highlight

end LogScript
