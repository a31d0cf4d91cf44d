import LogScript.Proofs.Layout.OmlFragments

/-!
Levels of braces in the lines of the body machine. A scan of the lines counts braces outside round and
square brackets; it stands where the machine stands. The machine completes a line behind `;` and
behind an opening brace and starts one in front of a closing brace, so a line has these signs at its
ends only, apart from empty braces, and the level it is laid out at is the one that the scan has
counted in front of it.
-/

namespace LogScript.Layout

/-- In how many brackets a place is, and at which level of the braces outside brackets. -/
@[ext]
structure Nest where
  depth : Nat
  level : Nat
  deriving DecidableEq, Repr

namespace Nest

def next (n : Nest) (c : Char) : Nest :=
  if n.depth = 0 ∧ c = '\x7b' then ⟨0, n.level + 1⟩
  else if n.depth = 0 ∧ c = '\x7d' then ⟨0, n.level - 1⟩
  else ⟨pastBracket n.depth c, n.level⟩

def past (n : Nest) (text : List Char) : Nest :=
  text.foldl next n

/-- Where a document starts. -/
def start : Nest :=
  ⟨0, 0⟩

@[simp] theorem past_cons (n : Nest) (c : Char) (text : List Char) :
    n.past (c :: text) = (n.next c).past text := rfl

theorem past_append (n : Nest) (a b : List Char) : n.past (a ++ b) = (n.past a).past b :=
  List.foldl_append

theorem next_of_ne {n : Nest} {c : Char} (hopening : c ≠ '\x7b') (hclosing : c ≠ '\x7d') :
    n.next c = ⟨pastBracket n.depth c, n.level⟩ := by
  rw [next, if_neg fun h => hopening h.2, if_neg fun h => hclosing h.2]

theorem next_of_depth {n : Nest} (hdepth : 0 < n.depth) (c : Char) :
    n.next c = ⟨pastBracket n.depth c, n.level⟩ := by
  rw [next, if_neg fun h => by omega, if_neg fun h => by omega]

/-- Outside brackets, only opening brackets and braces make a difference. -/
theorem past_idle {n : Nest} {text : List Char} (hdepth : n.depth = 0)
    (htext : ∀ c ∈ text, pastBracket 0 c = 0 ∧ c ≠ '\x7b' ∧ c ≠ '\x7d') : n.past text = n := by
  induction text with
  | nil => rfl
  | cons c text ih =>
    rw [List.forall_mem_cons] at htext
    obtain ⟨hbracket, hopening, hclosing⟩ := htext.1
    rw [past_cons, next_of_ne hopening hclosing, hdepth, hbracket, ← hdepth]
    exact ih htext.2

theorem past_blanks {blanks : List Char} (hblanks : ∀ c ∈ blanks, isBlank c) (n : Nest) :
    n.past blanks = n := by
  induction blanks with
  | nil => rfl
  | cons c blanks ih =>
    rw [List.forall_mem_cons] at hblanks
    have hsign : ∀ d : Char, isBlank d = false → c ≠ d := fun d hd => ne_of_accepts hblanks.1 hd
    rw [past_cons, next_of_ne (hsign _ (by decide)) (hsign _ (by decide)),
      pastBracket_of_blank hblanks.1]
    exact ih hblanks.2

end Nest

/-- What may stand around a sign outside brackets: a semicolon and an opening brace end their line, a
closing brace is the first sign of its line, apart from empty braces. -/
structure Placed (front : List Char) (c : Char) (behind : List Char) : Prop where
  semicolon : c = ';' → behind = []
  opening : c = '\x7b' → behind = [] ∨ behind.head? = some '\x7d'
  closing : c = '\x7d' → front.getLast? = some '\x7b' ∨ ∀ d ∈ front, isBlank d

/-- The same in a line that goes on. -/
structure PlacedWithin (front : List Char) (c : Char) (behind : List Char) : Prop where
  semicolon : c ≠ ';'
  opening : c = '\x7b' → behind.head? = some '\x7d'
  closing : c = '\x7d' → front.getLast? = some '\x7b' ∨ ∀ d ∈ front, isBlank d

/-- A property of all signs outside brackets in a line that starts at `n`. -/
def Signs (p : List Char → Char → List Char → Prop) (n : Nest) (line : List Char) : Prop :=
  ∀ front c behind, line = front ++ c :: behind → (n.past front).depth = 0 → p front c behind

section Signs

variable {p q : List Char → Char → List Char → Prop} {n : Nest} {line text front behind : List Char}
  {c : Char}

theorem PlacedWithin.placed (h : PlacedWithin front c behind) : Placed front c behind :=
  ⟨fun hc => absurd hc h.semicolon, fun hc => .inr (h.opening hc), h.closing⟩

theorem PlacedWithin.append (h : PlacedWithin front c behind) (more : List Char) :
    PlacedWithin front c (behind ++ more) := by
  refine ⟨h.semicolon, fun hc => ?_, h.closing⟩
  rw [List.head?_append, h.opening hc, Option.some_or]

theorem placedWithin_of_ne (hsemicolon : c ≠ ';') (hopening : c ≠ '\x7b') (hclosing : c ≠ '\x7d') :
    PlacedWithin front c behind :=
  ⟨hsemicolon, fun hc => absurd hc hopening, fun hc => absurd hc hclosing⟩

theorem signs_nil : Signs p n [] := by
  intro front c behind hline
  exact absurd hline.symm (List.append_ne_nil_of_right_ne_nil front (List.cons_ne_nil c behind))

theorem Signs.imp (h : Signs p n line)
    (hpq : ∀ {front c behind}, p front c behind → q front c behind) : Signs q n line :=
  fun front c behind hline hdepth => hpq (h front c behind hline hdepth)

theorem signs_cons : Signs p n (c :: text) ↔ (n.depth = 0 → p [] c text) ∧
    Signs (fun front => p (c :: front)) (n.next c) text := by
  constructor
  · intro h
    refine ⟨h [] c text rfl, fun front d behind htext => ?_⟩
    exact h (c :: front) d behind (by rw [htext]; rfl)
  · rintro ⟨hfirst, hrest⟩ front d behind hline
    cases front with
    | nil =>
      cases hline
      exact hfirst
    | cons e front =>
      cases hline
      exact hrest front d behind rfl

/-- The signs of a text behind a line are signs of the whole. -/
theorem Signs.append (h : Signs p n line) (hline : ∀ {front c behind}, p front c behind →
      q front c (behind ++ text))
    (htext : Signs (fun front => q (line ++ front)) (n.past line) text) :
    Signs q n (line ++ text) := by
  induction line generalizing p q n with
  | nil => exact htext
  | cons c line ih =>
    rw [signs_cons] at h
    rw [List.cons_append, signs_cons]
    exact ⟨fun hdepth => hline (h.1 hdepth), ih h.2 hline htext⟩

/-- The front of a line that goes on may stand as a line. -/
theorem Signs.of_append (h : Signs PlacedWithin n (line ++ text)) : Signs Placed n line := by
  intro front c behind hline hdepth
  have hwithin := h front c (behind ++ text) (by rw [hline, List.append_assoc]; rfl) hdepth
  refine ⟨fun hc => absurd hc hwithin.semicolon, fun hc => ?_, hwithin.closing⟩
  have hnext := hwithin.opening hc
  cases behind with
  | nil => exact .inl rfl
  | cons d behind => exact .inr hnext

/-- A text without the signs of statements. -/
theorem signs_of_ne (htext : ∀ c ∈ text, c ≠ ';' ∧ c ≠ '\x7b' ∧ c ≠ '\x7d') :
    Signs (fun front => PlacedWithin (line ++ front)) n text := by
  intro front c behind hsplit _
  obtain ⟨hsemicolon, hopening, hclosing⟩ := htext c (by rw [hsplit]; simp)
  exact placedWithin_of_ne hsemicolon hopening hclosing

theorem ne_sign_of_blank (hc : isBlank c) : c ≠ ';' ∧ c ≠ '\x7b' ∧ c ≠ '\x7d' :=
  ⟨ne_of_accepts hc (by decide), ne_of_accepts hc (by decide), ne_of_accepts hc (by decide)⟩

/-- Blank characters in front of a text are none of its signs. -/
theorem signs_blanks_append {blanks : List Char} (hblanks : ∀ c ∈ blanks, isBlank c)
    (hp : ∀ {front c behind}, c ≠ ';' ∧ c ≠ '\x7b' ∧ c ≠ '\x7d' → p front c behind)
    (htext : Signs (fun front => p (blanks ++ front)) n text) : Signs p n (blanks ++ text) := by
  induction blanks generalizing p with
  | nil => exact htext
  | cons c blanks ih =>
    rw [List.forall_mem_cons] at hblanks
    have hnext : n.next c = n := Nest.past_blanks (List.forall_mem_singleton.2 hblanks.1) n
    rw [List.cons_append, signs_cons, hnext]
    exact ⟨fun _ => hp (ne_sign_of_blank hblanks.1), ih hblanks.2 hp htext⟩

end Signs

/-- A line that starts with a closing brace goes one level out. -/
def outward (content : List Char) : Nat :=
  if content.head? = some '\x7d' then 1 else 0

theorem outward_append {line text : List Char} (h : line = [] → text.head? ≠ some '\x7d') :
    outward (line ++ text) = outward line := by
  cases line with
  | nil => exact if_neg (h rfl)
  | cons c line => rfl

/-- A line as it should be laid out where the scan stands at `n`. -/
structure Laid (n : Nest) (level : Nat) (content : List Char) : Prop where
  first : ∃ c, content.head? = some c ∧ isBlank c = false
  last : trimEnd content = content
  noLineFeed : '\n' ∉ content
  level : level = n.level - outward content
  signs : Signs Placed n content

/-- Every line is laid out at the level that the scan has counted in front of it. -/
def LaidFrom (n : Nest) : List Line → Prop
  | [] => True
  | .blank :: rest => LaidFrom n rest
  | .text level content :: rest => Laid n level content ∧ LaidFrom (n.past content) rest

theorem laidFrom_append {n : Nest} {front ls : List Line} : LaidFrom n (front ++ ls) ↔
    LaidFrom n front ∧ LaidFrom (n.past (front.flatMap Line.content)) ls := by
  induction front generalizing n with
  | nil => exact (iff_of_eq (true_and _)).symm
  | cons line front ih =>
    cases line with
    | blank => exact ih
    | text level content =>
      rw [List.cons_append, LaidFrom, LaidFrom, ih, List.flatMap_cons, Nest.past_append, and_assoc]
      rfl

namespace Body

/-- Where the machine stands. -/
def nest (b : Body) : Nest :=
  ⟨b.depth, b.level⟩

/-- A scan from `n` over the line stands where the machine does, and the line may go on. -/
structure Scanned (n : Nest) (b : Body) : Prop where
  outside : n.depth = 0
  past : n.past b.line = b.nest
  level : b.level = n.level - outward b.line
  signs : Signs PlacedWithin n b.line
  noLineFeed : '\n' ∉ b.line

section Scanned

variable {n : Nest} {b b' : Body} {text : List Char}

theorem scanned_of_built (hbuilt : b.built = []) (hdepth : b.depth = 0) : Scanned b.nest b := by
  have hline : b.line = [] := line_eq_nil.2 hbuilt
  refine ⟨hdepth, ?_, ?_, ?_, ?_⟩ <;> rw [hline]
  · rfl
  · rfl
  · exact signs_nil
  · exact List.not_mem_nil

theorem laidFrom_pending (hfirst : ∀ c ∈ b.line.head?, isBlank c = false)
    (hlevel : b.level = n.level - outward b.line) (hsigns : Signs Placed n (trimEnd b.line))
    (hline : '\n' ∉ b.line) :
    LaidFrom n b.pending ∧ n.past (b.pending.flatMap Line.content) = n.past b.line := by
  by_cases hbuilt : b.built = []
  · rw [pending_of_built hbuilt, line_eq_nil.2 hbuilt]
    exact ⟨trivial, rfl⟩
  · obtain ⟨blanks, htrim, hblanks⟩ := exists_trimEnd_append b.line
    obtain ⟨c, rest, hcons⟩ := List.exists_cons_of_ne_nil fun hnil => hbuilt (line_eq_nil.1 hnil)
    have hc : isBlank c = false := hfirst c (by rw [hcons]; rfl)
    have hhead : (trimEnd b.line).head? = b.line.head? := by
      rw [hcons, trimEnd_cons_of_not_blank hc]
      rfl
    have hpast : n.past (trimEnd b.line) = n.past b.line := by
      conv => rhs; rw [htrim]
      rw [Nest.past_append, Nest.past_blanks hblanks]
    rw [pending_of_first hbuilt hfirst]
    refine ⟨⟨⟨?_, trimEnd_trimEnd _, ?_, ?_, hsigns⟩, trivial⟩, ?_⟩
    · exact ⟨c, by rw [hhead, hcons]; rfl, hc⟩
    · exact fun hmem => hline ((prefix_trimEnd b.line).subset hmem)
    · rw [outward, hhead]
      exact hlevel
    · rw [List.flatMap_singleton]
      exact hpast

theorem Scanned.pending (h : Scanned n b) (hfirst : ∀ c ∈ b.line.head?, isBlank c = false) :
    LaidFrom n b.pending ∧ n.past (b.pending.flatMap Line.content) = b.nest := by
  obtain ⟨blanks, htrim, -⟩ := exists_trimEnd_append b.line
  have hsigns : Signs PlacedWithin n (trimEnd b.line ++ blanks) := by
    rw [← htrim]
    exact h.signs
  rw [← h.past]
  exact laidFrom_pending hfirst h.level hsigns.of_append h.noLineFeed

/-- What a text starts with when it is pushed to an empty line. -/
theorem head?_gap_append (hline : b.line = []) (due : Bool) (pushed : List Char) :
    (gap { b with space := due } ++ pushed).head? = pushed.head? := by
  rw [gap_of_built (b := { b with space := due }) (line_eq_nil.1 hline)]
  rfl

theorem lineFeed_not_mem_gap (b : Body) : '\n' ∉ b.gap := by
  rcases b.gap_eq_or with ⟨hgap, -⟩ | ⟨hgap, -⟩ <;> rw [hgap] <;> decide

/-- A semicolon or an opening brace completes the line. -/
theorem Scanned.complete (h : Scanned n b) (hfirst : ∀ c ∈ b.line.head?, isBlank c = false)
    (due : Bool) {sign : Char} (hsign : sign = ';' ∨ sign = '\x7b') :
    LaidFrom n ({ b with space := due }.push [sign]).pending ∧
      n.past (({ b with space := due }.push [sign]).pending.flatMap Line.content) =
        b.nest.next sign := by
  obtain ⟨hblank, hbrace, hbreak⟩ : isBlank sign = false ∧ sign ≠ '\x7d' ∧ sign ≠ '\n' := by
    rcases hsign with rfl | rfl <;> decide
  have hline : ({ b with space := due }.push [sign]).line =
      b.line ++ (gap { b with space := due } ++ [sign]) := line_push _ _
  have hgap := blank_of_mem_gap { b with space := due }
  have hpast : n.past ({ b with space := due }.push [sign]).line = b.nest.next sign := by
    rw [hline, Nest.past_append, h.past, Nest.past_append, Nest.past_blanks hgap]
    rfl
  rw [← hpast]
  apply laidFrom_pending
  · refine first_push (b := { b with space := due }) hfirst fun c hc => ?_
    cases hc
    exact hblank
  · rw [hline, outward_append]
    · exact h.level
    · intro hnil hhead
      rw [head?_gap_append hnil] at hhead
      exact hbrace (Option.some.inj hhead)
  · rw [hline, ← List.append_assoc, trimEnd_concat hblank, List.append_assoc]
    refine h.signs.append (fun hwithin => (hwithin.append _).placed) ?_
    refine signs_blanks_append hgap ?_ ?_
    · rintro front c behind ⟨hsemicolon, hopening, hclosing⟩
      exact (placedWithin_of_ne hsemicolon hopening hclosing).placed
    · exact signs_cons.2 ⟨fun _ => ⟨fun _ => rfl, fun _ => .inl rfl, fun hc => absurd hc hbrace⟩,
        signs_nil⟩
  · rw [hline, List.mem_append, List.mem_append, List.mem_singleton]
    rintro (hmem | hmem | hmem)
    · exact h.noLineFeed hmem
    · exact lineFeed_not_mem_gap _ hmem
    · exact hbreak hmem.symm

/-- A step that goes on with the line. -/
theorem Scanned.write (h : Scanned n b) (hline : b'.line = b.line ++ text)
    (hlevel : b'.level = b.level) (hfirst : b.line = [] → text.head? ≠ some '\x7d')
    (hpast : b.nest.past text = b'.nest)
    (hsigns : Signs (fun front => PlacedWithin (b.line ++ front)) b.nest text)
    (hbreak : '\n' ∉ text) : Scanned n b' := by
  refine ⟨h.outside, ?_, ?_, ?_, ?_⟩ <;> rw [hline]
  · rw [Nest.past_append, h.past, hpast]
  · rw [hlevel, outward_append hfirst]
    exact h.level
  · exact h.signs.append (fun hwithin => hwithin.append _) (h.past.symm ▸ hsigns)
  · rw [List.mem_append, not_or]
    exact ⟨h.noLineFeed, hbreak⟩

/-- A step that pushes text behind the line. -/
theorem Scanned.push (h : Scanned n b) (due : Bool) {pushed : List Char}
    (hline : b'.line = ({ b with space := due }.push pushed).line) (hlevel : b'.level = b.level)
    (hfirst : pushed.head? ≠ some '\x7d') (hpast : b.nest.past pushed = b'.nest)
    (hsigns : ∀ line, Signs (fun front => PlacedWithin (line ++ front)) b.nest pushed)
    (hbreak : '\n' ∉ pushed) : Scanned n b' := by
  have hgap := blank_of_mem_gap { b with space := due }
  rw [line_push] at hline
  refine h.write hline hlevel (fun hnil => ?_) ?_ ?_ ?_
  · rwa [head?_gap_append hnil]
  · rw [Nest.past_append, Nest.past_blanks hgap, hpast]
  · refine signs_blanks_append hgap ?_ ?_
    · exact fun ⟨hsemicolon, hopening, hclosing⟩ => placedWithin_of_ne hsemicolon hopening hclosing
    · simpa only [List.append_assoc] using hsigns (b.line ++ gap { b with space := due })
  · rw [List.mem_append, not_or]
    exact ⟨lineFeed_not_mem_gap _, hbreak⟩

/-- A character that is no sign of a statement, opens no bracket and breaks no line. -/
structure Idle (c : Char) : Prop where
  bracket : pastBracket 0 c = 0
  semicolon : c ≠ ';'
  opening : c ≠ '\x7b'
  closing : c ≠ '\x7d'
  lineFeed : c ≠ '\n'

/-- A step outside brackets that pushes idle characters. -/
theorem Scanned.pushIdle (h : Scanned n b) (hdepth : b.depth = 0) (due : Bool) {pushed : List Char}
    (hline : b'.line = ({ b with space := due }.push pushed).line) (hlevel : b'.level = b.level)
    (hdepth' : b'.depth = b.depth) (hidle : ∀ c ∈ pushed, Idle c) : Scanned n b' := by
  refine h.push due hline hlevel (fun hhead => ?_) ?_ (fun line => signs_of_ne fun c hc => ?_) ?_
  · exact (hidle _ (List.mem_of_mem_head? hhead)).closing rfl
  · rw [Nest.past_idle hdepth fun c hc => ?_]
    · rw [nest, nest, hdepth', hlevel]
    · exact ⟨(hidle c hc).bracket, (hidle c hc).opening, (hidle c hc).closing⟩
  · exact ⟨(hidle c hc).semicolon, (hidle c hc).opening, (hidle c hc).closing⟩
  · exact fun hmem => (hidle _ hmem).lineFeed rfl

theorem signs_closeBrace : Signs PlacedWithin n ['\x7d'] :=
  signs_cons.2 ⟨fun _ => ⟨by decide, fun hc => absurd hc (by decide),
    fun _ => .inr fun _ hd => absurd hd List.not_mem_nil⟩, signs_nil⟩

/-- A closing brace on a line of its own. -/
theorem laid_closeBrace (hdepth : n.depth = 0) : Laid n (n.level - 1) ['\x7d'] ∧
    n.past ['\x7d'] = ⟨0, n.level - 1⟩ := by
  have hwithin : Signs PlacedWithin n (['\x7d'] ++ []) := signs_closeBrace
  refine ⟨⟨⟨_, rfl, by decide⟩, by decide, by decide, rfl, hwithin.of_append⟩, ?_⟩
  · rw [Nest.past_cons, Nest.next, if_neg fun h => absurd h.2 (by decide), if_pos ⟨hdepth, rfl⟩]
    rfl

theorem lineFeed_not_mem_kept (blanks : List Char) : '\n' ∉ Body.kept blanks := by
  by_cases hbreak : blanks.contains '\n'
  · rw [Body.kept, if_pos hbreak]
    decide
  · rw [Body.kept, if_neg hbreak]
    exact fun hmem => hbreak (List.contains_iff_mem.2 hmem)

/-- Every rule completes laid out lines, and hands on a line that may go on. -/
theorem Reads.laid {text' : List Char} {lines : List Line} (hreads : b.Reads text lines b' text')
    (hregular : b.Regular text) (h : Scanned n b) (hquote : '"' ∉ text) (hhash : '#' ∉ text)
    (hslashes : ¬['/', '/'] <:+: text) :
    LaidFrom n lines ∧ Scanned (n.past (lines.flatMap Line.content)) b' := by
  have hfirst := hregular.first
  have hcleared : ∀ {m : Nest} {b' : Body}, m = b'.nest → b'.built = [] → b'.depth = 0 →
      Scanned m b' := fun hm hbuilt hdepth => hm ▸ scanned_of_built hbuilt hdepth
  have hinner : 0 < b.depth → b.line ≠ [] := fun hdepth hnil =>
    (hregular.inner hdepth).1 (line_eq_nil.1 hnil)
  have hequals : ∀ c ∈ ['='], Idle c :=
    List.forall_mem_singleton.2 ⟨rfl, by decide, by decide, by decide, by decide⟩
  have harrow : ∀ c ∈ ['=', '>'], Idle c :=
    List.forall_mem_cons.2 ⟨hequals _ List.mem_cons_self,
      List.forall_mem_singleton.2 ⟨rfl, by decide, by decide, by decide, by decide⟩⟩
  have hbar : ∀ c ∈ ['|'], Idle c :=
    List.forall_mem_singleton.2 ⟨rfl, by decide, by decide, by decide, by decide⟩
  cases hreads with
  | @kept blanks _ hdepth hne hblanks htext =>
    have hkept := kept_blank hblanks
    refine ⟨trivial, h.write (line_add b _) rfl (fun hnil => absurd hnil (hinner hdepth)) ?_ ?_
      (lineFeed_not_mem_kept blanks)⟩
    · exact Nest.past_blanks hkept _
    · exact signs_of_ne fun c hc => ne_sign_of_blank (hkept c hc)
  | spaces hdepth hne hblanks htext hcount =>
    exact ⟨trivial, h.outside, h.past, h.level, h.signs, h.noLineFeed⟩
  | breaks hdepth hblanks htext hcount =>
    obtain ⟨hlaid, hpast⟩ := h.pending hfirst
    rw [laidFrom_append, List.flatMap_append, Nest.past_append, hpast]
    exact ⟨⟨hlaid, trivial⟩, hcleared rfl rfl hdepth⟩
  -- A line may hold any sign in a literal, a comment or an attribute; the text has none of them.
  | literal hbody => exact absurd List.mem_cons_self hquote
  | openLiteral hopen => exact absurd List.mem_cons_self hquote
  -- Inside brackets the scan sees no signs, so any character but a line feed may go on the line.
  | @enclosed c _ hdepth hblank hquote' =>
    have hline : (b.enclosed c).body.line = b.line ++ [c] := line_add b _
    refine ⟨trivial, h.write hline rfl (fun hnil => absurd hnil (hinner hdepth)) ?_ ?_ ?_⟩
    · exact Nest.next_of_depth hdepth c
    · exact signs_cons.2 ⟨fun hdepth' => absurd hdepth' (Nat.ne_of_gt hdepth), signs_nil⟩
    · rw [List.mem_singleton]
      rintro rfl
      cases hblank
  | comment hdepth hbuilt hcomment htail htext =>
    exact absurd hcomment (not_opensComment_of_not_mem hhash hslashes)
  | commentBehind hdepth hbuilt hcomment htail htext =>
    exact absurd hcomment (not_opensComment_of_not_mem hhash hslashes)
  | closedAttribute hdepth hbuilt hclosed => exact absurd List.mem_cons_self hhash
  | openAttribute hdepth hbuilt hopen => exact absurd List.mem_cons_self hhash
  | @bracket c _ hdepth hc =>
    have hsign : c ≠ ';' ∧ c ≠ '\x7b' ∧ c ≠ '\x7d' ∧ c ≠ '\n' := by
      rcases hc with rfl | rfl <;> decide
    obtain ⟨hsemicolon, hopening, hclosing, hbreak⟩ := hsign
    have hline : ({ b.push [c] with depth := b.depth + 1 } : Body).line =
        ({ b with space := b.space }.push [c]).line := rfl
    refine ⟨trivial, h.push b.space hline rfl ?_ ?_ ?_ ?_⟩
    · exact fun hhead => hclosing (Option.some.inj hhead)
    · rw [Nest.past_cons, Nest.next_of_ne hopening hclosing]
      rcases hc with rfl | rfl <;> rfl
    · exact fun line => signs_of_ne (List.forall_mem_singleton.2 ⟨hsemicolon, hopening, hclosing⟩)
    · exact fun hmem => hbreak (List.mem_singleton.1 hmem).symm
  | semicolon hdepth =>
    obtain ⟨hlaid, hpast⟩ := h.complete hfirst false (.inl rfl)
    exact ⟨hlaid, hcleared (hpast.trans (Nest.next_of_ne (by decide) (by decide))) rfl hdepth⟩
  | arrow hdepth => exact ⟨trivial, h.pushIdle hdepth true rfl rfl rfl harrow⟩
  | joinedEquals hdepth hnext hjoins =>
    exact ⟨trivial, h.pushIdle hdepth b.space rfl rfl rfl hequals⟩
  | equals hdepth hnext hjoins => exact ⟨trivial, h.pushIdle hdepth true rfl rfl rfl hequals⟩
  | joinedBar hdepth hjoins => exact ⟨trivial, h.pushIdle hdepth b.space rfl rfl rfl hbar⟩
  | bar hdepth hjoins => exact ⟨trivial, h.pushIdle hdepth true rfl rfl rfl hbar⟩
  | emptyBraces hdepth hblanks =>
    refine ⟨trivial, h.push true rfl rfl (by decide) ?_ (fun line => ?_) (by decide)⟩
    · rw [Nest.past_cons, Nest.next, if_pos ⟨hdepth, rfl⟩, (laid_closeBrace rfl).2]
      exact Nest.ext hdepth.symm rfl
    · refine signs_cons.2 ⟨fun _ => ?_, signs_cons.2 ⟨fun _ => ?_, signs_nil⟩⟩
      · exact ⟨by decide, fun _ => rfl, fun hc => absurd hc (by decide)⟩
      · exact ⟨by decide, fun hc => absurd hc (by decide), fun _ => .inl List.getLast?_concat⟩
  | openBrace hdepth htext =>
    obtain ⟨hlaid, hpast⟩ := h.complete hfirst true (.inr rfl)
    refine ⟨hlaid, hcleared (hpast.trans ?_) rfl hdepth⟩
    rw [Nest.next, if_pos ⟨hdepth, rfl⟩]
    exact Nest.ext hdepth.symm rfl
  | followedBrace hdepth hblanks hc =>
    obtain ⟨hlaid, hpast⟩ := h.pending hfirst
    obtain ⟨hclosing, hbehind⟩ := laid_closeBrace (n := b.nest) hdepth
    rw [hpast]
    exact ⟨hlaid, hdepth, hbehind.trans (Nest.ext hdepth.symm rfl), rfl, signs_closeBrace,
      hclosing.noLineFeed⟩
  | closeBrace hdepth htext =>
    obtain ⟨hlaid, hpast⟩ := h.pending hfirst
    obtain ⟨hclosing, hbehind⟩ := laid_closeBrace (n := b.nest) hdepth
    rw [laidFrom_append, List.flatMap_append, Nest.past_append, hpast]
    refine ⟨⟨hlaid, hclosing, trivial⟩, hcleared (hbehind.trans ?_) rfl hdepth⟩
    exact Nest.ext hdepth.symm rfl
  | @ordinary c _ hdepth hblank hquote' hordinary hcomment hattribute =>
    refine ⟨trivial, h.pushIdle hdepth b.space rfl rfl rfl (List.forall_mem_singleton.2 ?_)⟩
    refine ⟨pastBracket_of_isOrdinary hordinary, ?_, ?_, ?_, ?_⟩ <;> rintro rfl
    · cases hordinary
    · cases hordinary
    · cases hordinary
    · cases hblank

/-- The lines of a run are laid out. -/
theorem laidFrom_run (hregular : b.Regular text) (h : Scanned n b) (hquote : '"' ∉ text)
    (hhash : '#' ∉ text) (hslashes : ¬['/', '/'] <:+: text) : LaidFrom n (b.run text) := by
  -- Each rule hands on a line that the scan has read from where the lines in front of it end.
  refine hregular.induction
    (motive := fun b text => ∀ n, Scanned n b → '"' ∉ text → '#' ∉ text → ¬['/', '/'] <:+: text →
      LaidFrom n (b.run text)) ?_ ?_ n h hquote hhash hslashes
  · intro b hregular n h _ _ _
    rw [run_nil]
    exact (h.pending hregular.first).1
  · intro b b' text text' lines hregular hreads ih n h hquote hhash hslashes
    obtain ⟨hlaid, hscanned⟩ := hreads.laid hregular h hquote hhash hslashes
    have hsuffix := hreads.suffix
    rw [hreads.run_eq, laidFrom_append]
    refine ⟨hlaid, ih _ hscanned ?_ ?_ ?_⟩
    · exact fun hmem => hquote (hsuffix.subset hmem)
    · exact fun hmem => hhash (hsuffix.subset hmem)
    · exact fun hinfix => hslashes (List.IsInfix.trans hinfix hsuffix.isInfix)

end Scanned

end Body

end LogScript.Layout
