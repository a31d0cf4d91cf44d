import LogScript.Highlight.Languages
import LogScript.Proofs.Highlight.ColonInFront
import LogScript.Proofs.Highlight.Identifiers
import LogScript.Proofs.Highlight.SemanticPlaces

/-!
Decorations against the tokens of their text. Decorated are the identifiers that no other contains,
if the vocabulary takes them for functions and they start outside comments and strings. They lie in
order and apart. In WPL none of them overlaps a comment or a string. In OML that holds for those
without a slash; at a slash a path literal begins, so a decoration that has one reaches into a
string.
-/

namespace LogScript

def Category.isLiteral (c : Category) : Bool :=
  c == .comment || c == .string

/-- The byte behind the position belongs to the token. -/
def Token.Around (t : Token) (position : Nat) : Prop :=
  t.start ≤ position ∧ position < t.stop

/-- They have bytes in common. -/
def Token.Meets (t : Token) (d : Decoration) : Prop :=
  t.start < d.stop ∧ d.start < t.stop

instance (t : Token) (position : Nat) : Decidable (t.Around position) :=
  inferInstanceAs (Decidable (_ ∧ _))

namespace Decoration

/-- The decoration marks an identifier that no other contains and that is a function wherever it
stands. -/
inductive FunctionName (v : Vocabulary) : List Char → Decoration → Prop where
  | intro {front name behind : List Char} (h : Identifier.Maximal front name behind)
    (hrole : v.roleOf name {} (Run.opensCall behind) = .function) :
    FunctionName v (front ++ (name ++ behind))
      ⟨byteLength front, byteLength front + byteLength name⟩

variable {tokens : List Token} {ids : List Identifier} {v : Vocabulary} {text : List Char}
  {d : Decoration} {position : Nat}

/-- A comment or a string is around the position. -/
def inLiteral (tokens : List Token) (position : Nat) : Bool :=
  tokens.any fun t => t.category.isLiteral && t.Around position

/-- Tokens that end before a position are not around it. -/
theorem inLiteral_dropWhile {start : Nat} (h : start ≤ position) :
    inLiteral (tokens.dropWhile (fun t => t.stop ≤ start)) position =
      inLiteral tokens position := by
  induction tokens with
  | nil => rfl
  | cons t tokens ih =>
    by_cases ht : t.stop ≤ start
    · have hnot : ¬ t.Around position := fun haround => by
        have := haround.2
        omega
      rw [List.dropWhile_cons_of_pos (by simpa using ht), ih]
      simp [inLiteral, hnot]
    · rw [List.dropWhile_cons_of_neg (by simpa using ht)]

/-- If no token ends before the position, only the first can be around it. -/
theorem startsInLiteral_eq (hapart : tokens.Pairwise fun t u => t.stop ≤ u.start)
    (hfirst : ∀ t ∈ tokens.head?, position < t.stop) :
    startsInLiteral tokens position = inLiteral tokens position := by
  cases tokens with
  | nil => rfl
  | cons t tokens =>
    have hstop : position < t.stop := hfirst t rfl
    have hlater : ∀ u ∈ tokens, ¬ u.Around position := fun u hu haround => by
      have hbehind := (List.pairwise_cons.1 hapart).1 u hu
      have := haround.1
      omega
    have hnone : inLiteral tokens position = false := by
      rw [inLiteral, List.any_eq_false]
      intro u hu
      simp [hlater u hu]
    have hfront : inLiteral (t :: tokens) position =
        (t.category.isLiteral && t.Around position || inLiteral tokens position) := List.any_cons
    rw [hfront, hnone, startsInLiteral, Category.isLiteral]
    simp [Token.Around, hstop, Bool.and_comm]

theorem position_lt_of_dropWhile :
    ∀ t ∈ (tokens.dropWhile (fun t => t.stop ≤ position)).head?, position < t.stop := by
  intro t ht
  have hfirst := List.head?_dropWhile_not (fun t : Token => decide (t.stop ≤ position)) tokens
  rw [ht] at hfirst
  simpa using hfirst

/-- Leaving tokens behind on the way, the lookup still finds the token around each identifier. -/
theorem outsideLiterals_eq (hapart : tokens.Pairwise fun t u => t.stop ≤ u.start)
    (hids : ids.Pairwise fun i j => i.start ≤ j.start) :
    outsideLiterals tokens ids = ids.filter fun i => !inLiteral tokens i.start := by
  induction ids generalizing tokens with
  | nil => rfl
  | cons i ids ih =>
    obtain ⟨hlater, hids⟩ := List.pairwise_cons.1 hids
    have hleft : (tokens.dropWhile (fun t => t.stop ≤ i.start)).Pairwise
        fun t u => t.stop ≤ u.start := hapart.sublist (List.dropWhile_sublist _)
    have hrest : (ids.filter fun j =>
        !inLiteral (tokens.dropWhile (fun t => t.stop ≤ i.start)) j.start) =
          ids.filter fun j => !inLiteral tokens j.start :=
      List.filter_congr fun j hj => by rw [inLiteral_dropWhile (hlater j hj)]
    rw [outsideLiterals]
    simp only [startsInLiteral_eq hleft position_lt_of_dropWhile,
      inLiteral_dropWhile (Nat.le_refl i.start), ih hleft hids, hrest, List.filter_cons]
    cases inLiteral tokens i.start <;> rfl

theorem inLiteral_eq_false_iff :
    inLiteral tokens position = false ↔
      ∀ t ∈ tokens, t.category.isLiteral = true → ¬ t.Around position := by
  simp [inLiteral]

/-- Decorated are the functions among the identifiers that start outside comments and strings. -/
theorem mem_ofText_iff (hapart : tokens.Pairwise fun t u => t.stop ≤ u.start) :
    d ∈ ofText v text tokens ↔
      FunctionName v text d ∧ ∀ t ∈ tokens, t.category.isLiteral = true → ¬ t.Around d.start := by
  have hids : (Identifier.scan text).Pairwise fun i j => i.start ≤ j.start :=
    (Identifier.scanFrom_ordered 0 text).2.imp fun h => Nat.le_trans (Nat.le_add_right ..) h
  rw [ofText, outsideLiterals_eq hapart hids, ← inLiteral_eq_false_iff]
  simp only [List.mem_map, List.mem_filter, Identifier.mem_scan_iff, isFunction,
    Bool.not_eq_true', beq_iff_eq]
  constructor
  · rintro ⟨i, ⟨⟨⟨front, behind, rfl, hstart, hmaximal, hcall⟩, houtside⟩, hrole⟩, rfl⟩
    rw [hcall] at hrole
    have hname : FunctionName v (front ++ (i.text ++ behind)) ⟨i.start, i.stop⟩ := by
      rw [Identifier.stop, hstart]
      exact .intro hmaximal hrole
    exact ⟨hname, houtside⟩
  · rintro ⟨hname, houtside⟩
    cases hname with
    | @intro front name behind hmaximal hrole =>
      exact ⟨⟨byteLength front, name, Run.opensCall behind⟩,
        ⟨⟨⟨front, behind, rfl, rfl, hmaximal, rfl⟩, houtside⟩, hrole⟩, rfl⟩

/-- Decorations stand in order and apart. -/
theorem ofText_apart (hapart : tokens.Pairwise fun t u => t.stop ≤ u.start) :
    (ofText v text tokens).Pairwise fun d e => d.stop ≤ e.start := by
  have hscan := (Identifier.scanFrom_ordered 0 text).2
  have hids : (Identifier.scan text).Pairwise fun i j => i.start ≤ j.start :=
    hscan.imp fun h => Nat.le_trans (Nat.le_add_right ..) h
  rw [ofText, outsideLiterals_eq hapart hids, List.pairwise_map]
  exact hscan.sublist (List.filter_sublist.trans List.filter_sublist)

theorem FunctionName.start_lt_stop (h : FunctionName v text d) : d.start < d.stop := by
  cases h with
  | intro hmaximal _ =>
    exact Nat.lt_add_of_pos_right (byteLength_pos hmaximal.isName.ne_nil)

end Decoration

namespace Classifier

variable {σ : Type}

/-- Where a token starts, some step gives its category. The induction is on the text behind `front`,
which has been read. -/
theorem exists_classify_of_mem (k : Classifier σ) {t : Token} :
    ∀ (front text : List Char) (s : σ), t ∈ Token.place (byteLength front) (k.lexFrom text s).1 →
      ∃ before c rest s', front ++ text = before ++ c :: rest ∧ t.start = byteLength before ∧
        t.category = (k.classify (c :: rest) s').category
  | _, [], s, h => by
    rw [lexFrom_nil] at h
    cases h
  | front, c :: rest, s, h => by
    rw [lexFrom, Token.place, List.mem_cons] at h
    rcases h with rfl | h
    · exact ⟨front, c, rest, s, rfl, rfl, rfl⟩
    · rw [← byteLength_append] at h
      obtain ⟨before, d, behind, s', htext, hstart, hcategory⟩ :=
        exists_classify_of_mem k _ _ _ h
      refine ⟨before, d, behind, s', ?_, hstart, hcategory⟩
      rw [← htext, List.append_assoc, List.take_append_drop]
termination_by _ text => text.length
decreasing_by
  simp only [List.length_drop, List.length_cons, stride]
  omega

end Classifier

/-- A place inside a piece of text is a place between two parts of the piece. -/
theorem exists_inside {front text behind before rest : List Char} {c : Char}
    (h : front ++ (text ++ behind) = before ++ c :: rest)
    (hstart : byteLength front ≤ byteLength before)
    (hstop : byteLength before < byteLength front + byteLength text) :
    ∃ a b, text = a ++ c :: b ∧ before = front ++ a ∧ rest = b ++ behind := by
  obtain ⟨a, rfl⟩ :=
    prefix_of_byteLength_le ⟨text ++ behind, h⟩ (List.prefix_append before _) hstart
  rw [List.append_assoc] at h
  have htext := List.append_cancel_left h
  have hprefix : a <+: text := by
    refine prefix_of_byteLength_le (List.prefix_append a (c :: rest)) ⟨behind, htext⟩ ?_
    rw [byteLength_append] at hstop
    omega
  obtain ⟨b, rfl⟩ := hprefix
  rw [List.append_assoc] at htext
  cases b with
  | nil => simp at hstop
  | cons d b =>
    obtain ⟨rfl, rfl⟩ := List.cons.inj (List.append_cancel_left htext)
    exact ⟨a, b, rfl, rfl, rfl⟩

namespace Highlight

open Identifier (Inside)

variable {c : Char} {rest tail : List Char} {v : Vocabulary} {s : OmlState}

theorem not_startsComment_of_inside (h : Inside c rest) : startsComment (c :: rest) = false := by
  cases h with
  | word _ hc =>
    have hhash : c ≠ '#' := ne_of_accepts hc (by decide)
    have hslash : c ≠ '/' := ne_of_accepts hc (by decide)
    simp [startsComment, List.isPrefixOf_cons_cons, hhash, Ne.symm hslash]
  | colon => rfl
  | @slash d _ hd =>
    have hslash : d ≠ '/' := ne_of_accepts hd (by decide)
    simp [startsComment, List.isPrefixOf_cons_cons, Ne.symm hslash]

theorem not_quote_of_inside (h : Inside c rest) : c ≠ '"' ∧ c.toNat ≠ 0x27 := by
  cases h with
  | word _ hc =>
    refine ⟨ne_of_accepts hc (by decide), fun hquote => ?_⟩
    have hapostrophe : c = Char.ofNat 0x27 := by rw [← hquote, Char.ofNat_toNat]
    exact ne_of_accepts hc (by decide) hapostrophe
  | colon => decide
  | slash => decide

theorem isLiteral_category (role : WordRole) : role.category.isLiteral = false := by
  cases role <;> rfl

/-- No comment and no string of WPL begins inside an identifier. -/
theorem not_isLiteral_classifyWpl (h : Inside c rest) :
    (classifyWpl v (c :: rest)).category.isLiteral = false := by
  obtain ⟨hdouble, hsingle⟩ := not_quote_of_inside h
  unfold classifyWpl
  simp only [not_startsComment_of_inside h]
  split
  · rfl
  simp only [hdouble, hsingle, Bool.false_eq_true, if_false, beq_iff_eq, or_self, Bool.or_eq_true]
  split
  · rfl
  split
  · rfl
  split
  · rfl
  · exact isLiteral_category _

theorem not_isLiteral_classifyOmlWord :
    (classifyOmlWord v (c :: rest) s).category.isLiteral = false := by
  unfold classifyOmlWord
  simp only
  split
  · rfl
  split
  · rfl
  · exact isLiteral_category _

theorem slash_of_pathRun {text path : List Char} (h : pathRun text = some path) :
    text.head? = some '/' := by
  unfold pathRun at h
  split at h
  · rfl
  · cases h

/-- In OML a path literal may begin there, with a slash. -/
theorem slash_of_isLiteral_classifyOml (h : Inside c rest) :
    (classifyOml v (c :: rest) s).category.isLiteral = true →
      c = '/' ∧ (classifyOml v (c :: rest) s).category = .string := by
  obtain ⟨hdouble, -⟩ := not_quote_of_inside h
  unfold classifyOml
  simp only [not_startsComment_of_inside h, beq_false_of_ne hdouble, Bool.false_eq_true, if_false]
  split
  · exact nofun
  split
  · exact nofun
  split
  · exact nofun
  split
  · split <;> exact nofun
  split
  · rename_i hpath
    exact fun _ => ⟨Option.some.inj (slash_of_pathRun hpath), rfl⟩
  · intro hliteral
    rw [not_isLiteral_classifyOmlWord] at hliteral
    cases hliteral

/-- A step to the words that reaches over a slash starts at the slash. -/
theorem eq_nil_of_word_over_slash :
    tail.length <
        Classifier.stride (classifyOmlWord v (tail ++ '/' :: rest) s).length (tail ++ '/' :: rest) →
      tail = [] := by
  obtain ⟨c, more, hcons⟩ := List.exists_cons_of_ne_nil
    (List.append_ne_nil_of_right_ne_nil tail (List.cons_ne_nil '/' rest))
  have hfirst : [c] <+: tail ++ '/' :: rest := hcons ▸ prefix_head c more
  rw [hcons]
  unfold classifyOmlWord
  simp only
  rw [← hcons]
  split
  · exact fun hcovers => (eq_of_stride_singleton hfirst hcovers).1
  split
  · exact fun hcovers => (eq_of_stride_singleton hfirst hcovers).1
  · rename_i hword
    intro hcovers
    have hslash := prefix_of_stride hword (List.takeWhile_prefix isOmlWordChar) hcovers
    exact absurd (hslash.subset (List.mem_append_right tail (List.mem_singleton_self '/')))
      (not_mem_takeWhile (by decide) _)

/-- A step that reaches over a slash where a path begins takes a comment or a literal. -/
theorem isLiteral_over_slash (hpath : pathRun ('/' :: rest) ≠ none)
    (hcovers : tail.length <
      Classifier.stride (classifyOml v (tail ++ '/' :: rest) s).length (tail ++ '/' :: rest)) :
    (classifyOml v (tail ++ '/' :: rest) s).category.isLiteral = true := by
  have hforeign : Foreign '/' := ⟨by decide, by decide, by decide⟩
  by_contra hliteral
  simp only [Category.isLiteral, Bool.or_eq_true, beq_iff_eq, not_or] at hliteral
  obtain ⟨hword, hnone⟩ := classifyOml_over hforeign hcovers hliteral.1 hliteral.2
  rw [hword] at hcovers
  obtain rfl := eq_nil_of_word_over_slash hcovers
  exact hpath hnone

/-- A slash inside an identifier begins a path. -/
theorem pathRun_ne_none (h : Inside '/' rest) : pathRun ('/' :: rest) ≠ none := by
  cases h with
  | word _ hc => exact absurd hc (by decide)
  | @slash d _ hd =>
    have hchar : isOmlPathChar d = true := by simp [isOmlPathChar, hd]
    simp [pathRun, List.takeWhile_cons_of_pos hchar]

theorem cover_tokenizeLanguage (language : Language) (v : Vocabulary) (text : List Char) :
    Token.Cover text (tokenizeLanguage language v text) := by
  cases language with
  | wpl => exact (wpl v).cover_tokenizeFrom text ()
  | oml => exact (oml v).cover_tokenizeFrom text {}

/-- The step that takes a token which starts inside an identifier. -/
theorem exists_classify_inside {σ : Type} {k : Classifier σ} {front name behind : List Char}
    {t : Token} (hname : Identifier.IsName name) (ht : t ∈ k.tokenize (front ++ (name ++ behind)))
    (hstart : byteLength front ≤ t.start) (hstop : t.start < byteLength front + byteLength name) :
    ∃ c rest s, c ∈ name ∧ Inside c rest ∧ t.category = (k.classify (c :: rest) s).category := by
  obtain ⟨before, c, rest, s, htext, hbefore, hcategory⟩ :=
    k.exists_classify_of_mem [] (front ++ (name ++ behind)) k.start ht
  rw [hbefore] at hstart hstop
  rw [List.nil_append] at htext
  obtain ⟨a, b, rfl, -, rfl⟩ := exists_inside htext hstart hstop
  exact ⟨c, b ++ behind, s, by simp, hname.inside.append behind, hcategory⟩

/-- A comment or literal that starts there is a string of OML that starts with a slash. -/
theorem slash_of_starts_inside {language : Language} {front name behind : List Char} {t : Token}
    (hname : Identifier.IsName name)
    (ht : t ∈ tokenizeLanguage language v (front ++ (name ++ behind)))
    (hliteral : t.category.isLiteral = true) (hstart : byteLength front ≤ t.start)
    (hstop : t.start < byteLength front + byteLength name) :
    language = .oml ∧ t.category = .string ∧ '/' ∈ name := by
  cases language with
  | wpl =>
    obtain ⟨c, rest, s, -, hinside, hcategory⟩ := exists_classify_inside hname ht hstart hstop
    have hnot : (classifyWpl v (c :: rest)).category.isLiteral = false :=
      not_isLiteral_classifyWpl hinside
    rw [hcategory] at hliteral
    exact absurd hliteral (by simp [wpl, hnot])
  | oml =>
    obtain ⟨c, rest, s, hmem, hinside, hcategory⟩ := exists_classify_inside hname ht hstart hstop
    rw [hcategory] at hliteral ⊢
    obtain ⟨rfl, hstring⟩ := slash_of_isLiteral_classifyOml hinside hliteral
    exact ⟨rfl, hstring, hmem⟩

/-- Over a slash of an identifier there is a comment or a literal of OML. -/
theorem exists_literal_of_slash {front name behind : List Char} (hname : Identifier.IsName name)
    (hslash : '/' ∈ name) :
    ∃ t ∈ (oml v).tokenize (front ++ (name ++ behind)), t.category.isLiteral = true ∧
      t.start < byteLength front + byteLength name ∧ byteLength front < t.stop := by
  obtain ⟨a, b, rfl⟩ := List.append_of_mem hslash
  have hpath := pathRun_ne_none (hname.inside.append behind)
  obtain ⟨t, ht, tail, s, hstart, hstop, hcovers, hcategory⟩ :=
    (oml v).exists_token_at (List.cons_ne_nil '/' (b ++ behind)) (front ++ a)
  have hliteral : t.category.isLiteral = true := by
    rw [hcategory]
    exact isLiteral_over_slash hpath hcovers
  have hpos := Char.utf8Size_pos '/'
  rw [byteLength_append] at hstart hstop
  refine ⟨t, by simpa using ht, hliteral, ?_, ?_⟩
  · rw [byteLength_append, byteLength_cons]
    omega
  · omega

/-- Decorations against the tokens of their text, for every vocabulary and text of both languages.
They stand in order and apart. Decorated are exactly the functions among the identifiers that no
other contains whose first character stands in no comment and no string. A decoration that overlaps
a comment or a string overlaps a string of OML, and it does so exactly if it has a slash. Every
function among those identifiers that overlaps no comment and no string is decorated. -/
theorem ofText_tokenizeLanguage (language : Language) (v : Vocabulary) (text : List Char) :
    let tokens := tokenizeLanguage language v text
    let decorations := Decoration.ofText v text tokens
    decorations.Pairwise (fun d e => d.stop ≤ e.start) ∧
      (∀ d ∈ decorations, d.start < d.stop) ∧
      (∀ d, d ∈ decorations ↔ Decoration.FunctionName v text d ∧
        ∀ t ∈ tokens, t.category.isLiteral = true → ¬ t.Around d.start) ∧
      (∀ d ∈ decorations, ∀ t ∈ tokens, t.category.isLiteral = true → t.Meets d →
        language = .oml ∧ t.category = .string) ∧
      (∀ d ∈ decorations, (∃ t ∈ tokens, t.category.isLiteral = true ∧ t.Meets d) ↔
        language = .oml ∧ '/' ∈ sliceBytes d.start d.stop text) ∧
      ∀ d, Decoration.FunctionName v text d →
        (∀ t ∈ tokens, t.category.isLiteral = true → ¬ t.Meets d) → d ∈ decorations := by
  intro tokens decorations
  have hapart := (cover_tokenizeLanguage language v text).orderly.apart
  have hmem : ∀ d, d ∈ decorations ↔ Decoration.FunctionName v text d ∧
      ∀ t ∈ tokens, t.category.isLiteral = true → ¬ t.Around d.start :=
    fun d => Decoration.mem_ofText_iff hapart
  have hslash : ∀ d ∈ decorations, ∀ t ∈ tokens, t.category.isLiteral = true → t.Meets d →
      language = .oml ∧ t.category = .string ∧ '/' ∈ sliceBytes d.start d.stop text := by
    rintro d hd t ht hliteral ⟨hbefore, hbehind⟩
    obtain ⟨hname, houtside⟩ := (hmem d).1 hd
    have hstart : d.start < t.start := by
      by_contra hle
      exact houtside t ht hliteral ⟨Nat.le_of_not_lt hle, hbehind⟩
    cases hname with
    | intro hmaximal _ =>
      rw [sliceBytes_append]
      exact slash_of_starts_inside hmaximal.isName ht hliteral (Nat.le_of_lt hstart) hbefore
  refine ⟨Decoration.ofText_apart hapart, fun d hd => ((hmem d).1 hd).1.start_lt_stop, hmem,
    fun d hd t ht hliteral hmeets => ?_, fun d hd => ⟨?_, ?_⟩, fun d hname hnone => ?_⟩
  · obtain ⟨homl, hstring, -⟩ := hslash d hd t ht hliteral hmeets
    exact ⟨homl, hstring⟩
  · rintro ⟨t, ht, hliteral, hmeets⟩
    obtain ⟨homl, -, hin⟩ := hslash d hd t ht hliteral hmeets
    exact ⟨homl, hin⟩
  · rintro ⟨rfl, hin⟩
    cases ((hmem d).1 hd).1 with
    | intro hmaximal _ =>
      rw [sliceBytes_append] at hin
      obtain ⟨t, ht, hliteral, hmeets⟩ := exists_literal_of_slash hmaximal.isName hin
      exact ⟨t, ht, hliteral, hmeets⟩
  · refine (hmem d).2 ⟨hname, fun t ht hliteral haround => hnone t ht hliteral ⟨?_, haround.2⟩⟩
    exact Nat.lt_of_le_of_lt haround.1 hname.start_lt_stop

/-- The decoration reaches over the path literal `/bar`. -/
example :
    let text := "foo/bar(x)".toList
    let tokens := tokenizeLanguage .oml .oml text
    tokens = [⟨0, 3, .variableName⟩, ⟨3, 7, .string⟩, ⟨7, 8, .operator⟩, ⟨8, 9, .variableName⟩,
        ⟨9, 10, .operator⟩] ∧
      Decoration.ofText .oml text tokens = [⟨0, 7⟩] := by
  decide +kernel

end Highlight

end LogScript
