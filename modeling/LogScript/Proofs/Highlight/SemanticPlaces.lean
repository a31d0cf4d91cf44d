import Mathlib.Data.List.DropRight
import LogScript.Highlight.Semantic
import LogScript.Proofs.Highlight.Cover

/-!
Reading semantic tokens back. A reader adds up the relative positions and gets, for tokens in
document order, one entry for every piece of text that a styled token has on a line: the line and
column of the piece, its length, and the number of its category in the legend. No difference that
the encoder takes is cut off at 0, and no number is greater than the text is long.
-/

namespace LogScript

/-- A leading part that takes up no more bytes than another is a leading part of it. -/
theorem prefix_of_byteLength_le {a b text : List Char} (ha : a <+: text) (hb : b <+: text)
    (h : byteLength a ≤ byteLength b) : a <+: b := by
  obtain hab | ⟨c, rfl⟩ := List.prefix_or_prefix_of_prefix ha hb
  · exact hab
  · rw [byteLength_append] at h
    have hc : c = [] := by
      by_contra hc
      have := byteLength_pos hc
      omega
    simp [hc]

/-- Tokens between boundaries of the text, in document order and without overlaps. -/
structure Token.Orderly (text : List Char) (ts : List Token) : Prop where
  boundaries : ∀ t ∈ ts, IsBoundary text t.start ∧ IsBoundary text t.stop
  forward : ∀ t ∈ ts, t.start ≤ t.stop
  apart : ts.Pairwise fun t u => t.stop ≤ u.start

/-- The three parts that a token cuts its text into. -/
theorem Token.Orderly.exists_parts {text : List Char} {ts : List Token} (h : Token.Orderly text ts)
    {t : Token} (ht : t ∈ ts) :
    ∃ front body behind, text = front ++ (body ++ behind) ∧ t.start = byteLength front ∧
      t.stop = byteLength front + byteLength body := by
  have hforward := h.forward t ht
  obtain ⟨⟨front, hfront, hstart⟩, upto, ⟨behind, rfl⟩, hstop⟩ := h.boundaries t ht
  obtain ⟨body, rfl⟩ := prefix_of_byteLength_le hfront (List.prefix_append upto behind) (by omega)
  exact ⟨front, body, behind, List.append_assoc .., hstart.symm, by simpa using hstop.symm⟩

theorem Token.Orderly.tail {text : List Char} {t : Token} {ts : List Token}
    (h : Token.Orderly text (t :: ts)) : Token.Orderly text ts where
  boundaries u hu := h.boundaries u (List.mem_cons_of_mem t hu)
  forward u hu := h.forward u (List.mem_cons_of_mem t hu)
  apart := h.apart.tail

theorem Token.Tile.between {start stop : Nat} {ts : List Token} (h : Token.Tile start stop ts) :
    ∀ t ∈ ts, start ≤ t.start ∧ t.start ≤ t.stop := by
  induction ts generalizing start with
  | nil => simp
  | cons u ts ih =>
    obtain ⟨hstart, hforward, hrest⟩ := h
    refine List.forall_mem_cons.2 ⟨⟨Nat.le_of_eq hstart.symm, by omega⟩, fun t ht => ?_⟩
    have hbetween := ih hrest t ht
    omega

theorem Token.Tile.apart {start stop : Nat} {ts : List Token} (h : Token.Tile start stop ts) :
    ts.Pairwise fun t u => t.stop ≤ u.start := by
  induction ts generalizing start with
  | nil => exact .nil
  | cons u ts ih => exact .cons (fun t ht => (h.2.2.between t ht).1) (ih h.2.2)

/-- Tokens that cover their text are in order. -/
theorem Token.Cover.orderly {text : List Char} {ts : List Token} (h : Token.Cover text ts) :
    Token.Orderly text ts where
  boundaries := h.boundaries
  forward t ht := (h.tile.between t ht).2
  apart := h.tile.apart

namespace Semantic

/-- The name that the legend has for a category. -/
def legendName (c : Category) : String :=
  if c = .atom then "enumMember" else c.name

theorem typeNumber?_eq (c : Category) :
    typeNumber? c = if c.isStyled then some (legend.idxOf (legendName c)) else none := by
  cases c <;> decide

/-- The place behind some text: as many line feeds as stand in it, and the units behind the last. -/
def placeBehind (front : List Char) : Place :=
  ⟨front.count '\n', utf16Length (front.rtakeWhile (· != '\n'))⟩

theorem placeBehind_concat (front : List Char) (c : Char) :
    placeBehind (front ++ [c]) = (placeBehind front).past c := by
  by_cases hc : c = '\n'
  · subst hc
    simp [placeBehind, Place.past, utf16Length]
  · simp [placeBehind, Place.past, hc, utf16Length_append, utf16Length]

theorem placeBehind_append (front text : List Char) :
    placeBehind (front ++ text) = (placeBehind front).pastText text := by
  induction text generalizing front with
  | nil => simp [Place.pastText]
  | cons c text ih =>
    rw [List.append_cons, ih, placeBehind_concat, Place.pastText, Place.pastText, List.foldl_cons]

theorem Place.pastText_of_line {text : List Char} (h : '\n' ∉ text) (p : Place) :
    p.pastText text = ⟨p.line, p.column + utf16Length text⟩ := by
  induction text generalizing p with
  | nil => rfl
  | cons c text ih =>
    rw [List.mem_cons, not_or] at h
    have hpast : p.past c = ⟨p.line, p.column + utf16Size c⟩ := by
      simp [Place.past, Ne.symm h.1]
    have hrest := ih h.2 (p.past c)
    rw [pastText] at hrest ⊢
    rw [List.foldl_cons, hrest, hpast, utf16Length, Nat.add_assoc]

theorem placeBehind_append_of_line {text : List Char} (h : '\n' ∉ text) (front : List Char) :
    placeBehind (front ++ text) =
      ⟨(placeBehind front).line, (placeBehind front).column + utf16Length text⟩ := by
  rw [placeBehind_append, Place.pastText_of_line h]

/-- On a later line, or on the same line and not in front of the column. -/
instance : LE Place where
  le p q := p.line ≤ q.line ∧ (p.line = q.line → p.column ≤ q.column)

theorem Place.le_past (p : Place) (c : Char) : p ≤ p.past c := by
  rw [past]
  split
  · exact ⟨Nat.le_succ _, fun h => absurd h (by simp)⟩
  · exact ⟨Nat.le_refl _, fun _ => Nat.le_add_right ..⟩

theorem Place.le_trans {p q r : Place} (hpq : p ≤ q) (hqr : q ≤ r) : p ≤ r := by
  obtain ⟨hline, hcolumn⟩ := hpq
  obtain ⟨hline', hcolumn'⟩ := hqr
  refine ⟨Nat.le_trans hline hline', fun h => ?_⟩
  exact Nat.le_trans (hcolumn (by omega)) (hcolumn' (by omega))

theorem Place.le_pastText (p : Place) (text : List Char) : p ≤ p.pastText text := by
  induction text generalizing p with
  | nil => exact ⟨Nat.le_refl _, fun _ => Nat.le_refl _⟩
  | cons c text ih => exact Place.le_trans (p.le_past c) (ih (p.past c))

theorem placeBehind_le {a b : List Char} (h : a <+: b) : placeBehind a ≤ placeBehind b := by
  obtain ⟨c, rfl⟩ := h
  rw [placeBehind_append]
  exact Place.le_pastText _ c

theorem utf16Size_le_utf8Size (c : Char) : utf16Size c ≤ c.utf8Size := by
  have hpos := c.utf8Size_pos
  rw [utf16Size]
  split
  · omega
  · rename_i hwide
    have hone : c.utf8Size ≠ 1 := by
      rw [Ne, Char.utf8Size_eq_one_iff, UInt32.le_iff_toNat_le]
      simp only [Char.toNat] at hwide
      simp only [UInt32.reduceToNat]
      omega
    omega

theorem utf16Length_le_byteLength (text : List Char) : utf16Length text ≤ byteLength text := by
  induction text with
  | nil => exact Nat.le_refl _
  | cons c text ih => exact Nat.add_le_add (utf16Size_le_utf8Size c) ih

/-- Line and column together grow by no more than the bytes that are read. -/
theorem Place.past_add_le (p : Place) (c : Char) :
    (p.past c).line + (p.past c).column ≤ p.line + p.column + c.utf8Size := by
  have hpos := c.utf8Size_pos
  have hsize := utf16Size_le_utf8Size c
  rw [past]
  split
  · simp only
    omega
  · simp only
    omega

theorem Place.pastText_add_le (text : List Char) (p : Place) :
    (p.pastText text).line + (p.pastText text).column ≤ p.line + p.column + byteLength text := by
  induction text generalizing p with
  | nil => exact Nat.le_refl _
  | cons c text ih =>
    have hhead := p.past_add_le c
    have hrest := ih (p.past c)
    rw [pastText] at hrest ⊢
    rw [List.foldl_cons, byteLength_cons]
    omega

theorem placeBehind_add_le (front : List Char) :
    (placeBehind front).line + (placeBehind front).column ≤ byteLength front := by
  have h := Place.pastText_add_le front (placeBehind [])
  rw [← placeBehind_append, List.nil_append] at h
  simpa [placeBehind, utf16Length] using h

/-- A piece of text with what stands in front of it. -/
structure Segment where
  front : List Char
  text : List Char

/-- Pieces with a line feed behind each but the last. -/
def segmentsFrom (front : List Char) : List (List Char) → List Segment
  | [] => []
  | piece :: pieces => ⟨front, piece⟩ :: segmentsFrom (front ++ piece ++ ['\n']) pieces

/-- The pieces of a body between its line feeds, without the empty ones. -/
def segments (front body : List Char) : List Segment :=
  (segmentsFrom front (body.splitOn '\n')).filter (·.text ≠ [])

def Segment.entry (type : Nat) (s : Segment) : Entry :=
  ⟨placeBehind s.front, utf16Length s.text, type⟩

theorem utf16Length_eq_zero {text : List Char} : utf16Length text = 0 ↔ text = [] := by
  cases text with
  | nil => simp [utf16Length]
  | cons c text =>
    have hpos : 0 < utf16Size c := by
      rw [utf16Size]
      split <;> decide
    simp [utf16Length]
    omega

/-- The induction is on the text that is still to come; `line` has been read on its line. -/
theorem entriesOfText_eq (type : Nat) (rest : List Char) : ∀ (front line : List Char),
    '\n' ∉ line →
      entriesOfText type (placeBehind (front ++ line)) (utf16Length line) rest =
        (segments front (line ++ rest)).map (Segment.entry type) := by
  -- The entry of the line that has been read, when its text ends here.
  have hend (front line : List Char) (hline : '\n' ∉ line) :
      entriesOfText type (placeBehind (front ++ line)) (utf16Length line) [] =
        ([⟨front, line⟩].filter (·.text ≠ [])).map (Segment.entry type) := by
    rw [entriesOfText, placeBehind_append_of_line hline]
    by_cases hempty : line = []
    · subst hempty
      simp [utf16Length]
    · simp [hempty, utf16Length_eq_zero, Segment.entry]
  induction rest with
  | nil =>
    intro front line hline
    rw [hend front line hline, List.append_nil, segments, List.splitOn_eq_singleton hline]
    rfl
  | cons c rest ih =>
    intro front line hline
    by_cases hc : c = '\n'
    · subst hc
      have hrest := ih (front ++ line ++ ['\n']) [] List.not_mem_nil
      rw [List.append_nil, placeBehind_concat, List.nil_append, utf16Length] at hrest
      rw [entriesOfText, if_pos (beq_self_eq_true _), hend front line hline, hrest, segments,
        segments, List.splitOn_append_cons_self_of_not_mem hline, segmentsFrom, ← List.map_append,
        ← List.filter_append, List.singleton_append]
    · have hrest := ih front (line ++ [c]) (by simp [hline, Ne.symm hc])
      rw [← List.append_assoc, placeBehind_concat, utf16Length_append] at hrest
      rw [entriesOfText, if_neg (by simpa using hc), List.append_cons, ← hrest]
      rfl

def tokenSegments (text : List Char) (t : Token) : List Segment :=
  segments (sliceBytes 0 t.start text) (t.textIn text)

/-- An entry for each piece of a styled token, with the number of its category in the legend. -/
def tokenEntries (text : List Char) (t : Token) : List Entry :=
  if t.isStyled then
    (tokenSegments text t).map (Segment.entry (legend.idxOf (legendName t.category)))
  else []

theorem mem_tokenEntries {text : List Char} {t : Token} {e : Entry} (h : e ∈ tokenEntries text t) :
    ∃ s ∈ tokenSegments text t, e.place = placeBehind s.front ∧ e.length = utf16Length s.text := by
  rw [tokenEntries] at h
  split at h
  · obtain ⟨s, hs, rfl⟩ := List.mem_map.1 h
    exact ⟨s, hs, rfl, rfl⟩
  · cases h

theorem tokenSegments_of_append {t : Token} {front body behind : List Char}
    (hstart : t.start = byteLength front) (hstop : t.stop = byteLength front + byteLength body) :
    tokenSegments (front ++ (body ++ behind)) t = segments front body := by
  have hfront := sliceBytes_append [] front (body ++ behind)
  rw [byteLength_nil, Nat.zero_add, List.nil_append] at hfront
  rw [tokenSegments, Token.textIn, hstart, hstop, hfront, sliceBytes_append]

/-- A styled token with a gap in front of it: its own entries, and then those of the tokens behind
it, where its body has been read. -/
theorem entriesFrom_styled {t : Token} (hstyled : t.isStyled) {front gap body behind : List Char}
    (hstart : t.start = byteLength (front ++ gap))
    (hstop : t.stop = byteLength (front ++ gap) + byteLength body) (ts : List Token) :
    entriesFrom (placeBehind front) (byteLength front) (gap ++ (body ++ behind)) (t :: ts) =
      tokenEntries (front ++ gap ++ (body ++ behind)) t ++
        entriesFrom (placeBehind (front ++ gap ++ body)) t.stop behind ts := by
  have hgap : charsWithin (t.start - byteLength front) (gap ++ (body ++ behind)) = gap.length := by
    rw [hstart, byteLength_append, Nat.add_sub_cancel_left, charsWithin_append]
  have hbody : charsWithin (t.stop - t.start) (body ++ behind) = body.length := by
    rw [hstart, hstop, Nat.add_sub_cancel_left, charsWithin_append]
  have hpieces := entriesOfText_eq (legend.idxOf (legendName t.category)) body (front ++ gap) []
    List.not_mem_nil
  rw [List.append_nil, List.nil_append, placeBehind_append, utf16Length] at hpieces
  have hcategory : t.category.isStyled := hstyled
  rw [entriesFrom, typeNumber?_eq, if_pos hcategory, tokenEntries, if_pos hstyled,
    tokenSegments_of_append hstart hstop, placeBehind_append, placeBehind_append]
  simp only [hgap, hbody, List.take_left, List.drop_left, hpieces]

/-- The induction is on the tokens that are still to come; `front` has been read. -/
theorem entriesFrom_eq (ts : List Token) : ∀ (front rest : List Char),
    Token.Orderly (front ++ rest) ts → (∀ t ∈ ts, byteLength front ≤ t.start) →
      entriesFrom (placeBehind front) (byteLength front) rest ts =
        ts.flatMap (tokenEntries (front ++ rest)) := by
  induction ts with
  | nil => intros; rfl
  | cons t ts ih =>
    intro front rest horderly hbehind
    rw [List.flatMap_cons]
    cases hstyled : t.isStyled with
    | false =>
      have hcategory : t.category.isStyled = false := hstyled
      have hrest := ih front rest horderly.tail fun u hu => hbehind u (List.mem_cons_of_mem t hu)
      rw [entriesFrom, typeNumber?_eq, hcategory, tokenEntries, hstyled]
      exact hrest
    | true =>
      obtain ⟨upto, body, behind, htext, hstart, hstop⟩ := horderly.exists_parts List.mem_cons_self
      have hupto : front <+: upto :=
        prefix_of_byteLength_le (List.prefix_append front rest) (htext ▸ List.prefix_append upto _)
          (hstart ▸ hbehind t List.mem_cons_self)
      obtain ⟨gap, rfl⟩ := hupto
      obtain rfl : rest = gap ++ (body ++ behind) := by simpa using htext
      have hoffset : t.stop = byteLength (front ++ gap ++ body) := by
        rw [hstop, byteLength_append _ body]
      have hrest := ih (front ++ gap ++ body) behind (by simpa using horderly.tail)
        fun u hu => hoffset ▸ List.rel_of_pairwise_cons horderly.apart hu
      rw [entriesFrom_styled hstyled hstart hstop, htext, hoffset, hrest, List.append_assoc _ body]

theorem mem_segmentsFrom {front : List Char} {pieces : List (List Char)} {s : Segment}
    (h : s ∈ segmentsFrom front pieces) :
    front <+: s.front ∧ s.front ++ s.text <+: front ++ ['\n'].intercalate pieces := by
  induction pieces generalizing front with
  | nil => cases h
  | cons piece pieces ih =>
    rw [segmentsFrom, List.mem_cons] at h
    obtain rfl | h := h
    · refine ⟨List.prefix_refl _, ?_⟩
      cases pieces <;> simp [List.intercalate_cons_cons]
    · obtain ⟨hfront, hstop⟩ := ih h
      refine ⟨(by simp : front <+: front ++ piece ++ ['\n']).trans hfront, ?_⟩
      cases pieces with
      | nil => cases h
      | cons piece' pieces => simpa [List.intercalate_cons_cons] using hstop

theorem pairwise_segmentsFrom (front : List Char) (pieces : List (List Char)) :
    (segmentsFrom front pieces).Pairwise (·.front <+: ·.front) := by
  induction pieces generalizing front with
  | nil => exact .nil
  | cons piece pieces ih =>
    refine .cons (fun s hs => ?_) (ih _)
    exact (by simp : front <+: front ++ piece ++ ['\n']).trans (mem_segmentsFrom hs).1

theorem mem_segments {front body : List Char} {s : Segment} (h : s ∈ segments front body) :
    front <+: s.front ∧ s.front ++ s.text <+: front ++ body := by
  have hmem := mem_segmentsFrom (List.mem_of_mem_filter h)
  rwa [List.intercalate_splitOn] at hmem

section Document

variable {text : List Char} {ts : List Token} (h : Token.Orderly text ts)
include h

theorem mem_tokenSegments {t : Token} (ht : t ∈ ts) {s : Segment} (hs : s ∈ tokenSegments text t) :
    (∃ a, a <+: s.front ∧ a <+: text ∧ byteLength a = t.start) ∧
      ∃ b, s.front ++ s.text <+: b ∧ b <+: text ∧ byteLength b = t.stop := by
  obtain ⟨front, body, behind, rfl, hstart, hstop⟩ := h.exists_parts ht
  rw [tokenSegments_of_append hstart hstop] at hs
  obtain ⟨hfront, hbehind⟩ := mem_segments hs
  refine ⟨⟨front, hfront, List.prefix_append .., hstart.symm⟩, front ++ body, hbehind, ?_, ?_⟩
  · rw [← List.append_assoc]
    exact List.prefix_append ..
  · rw [byteLength_append, hstop]

theorem entries_eq : entries text ts = ts.flatMap (tokenEntries text) :=
  entriesFrom_eq ts [] text h fun _ _ => Nat.zero_le _

theorem pairwise_entries : ((entries text ts).map Entry.place).Pairwise (· ≤ ·) := by
  rw [entries_eq h, List.pairwise_map, List.pairwise_flatMap]
  refine ⟨fun t ht => ?_, h.apart.imp_of_mem fun {t u} ht hu hapart e he e' he' => ?_⟩
  · rw [tokenEntries]
    split
    · rw [List.pairwise_map]
      exact ((pairwise_segmentsFrom ..).filter _).imp placeBehind_le
    · exact .nil
  · obtain ⟨s, hs, hplace, -⟩ := mem_tokenEntries he
    obtain ⟨s', hs', hplace', -⟩ := mem_tokenEntries he'
    obtain ⟨-, b, hb, hbtext, hbstop⟩ := mem_tokenSegments h ht hs
    obtain ⟨⟨a, ha, hatext, hastart⟩, -⟩ := mem_tokenSegments h hu hs'
    have hba := prefix_of_byteLength_le hbtext hatext (by omega)
    rw [hplace, hplace']
    exact placeBehind_le ((List.prefix_append _ _).trans (hb.trans (hba.trans ha)))

theorem entry_add_le {e : Entry} (he : e ∈ entries text ts) :
    e.place.line + e.place.column + e.length ≤ byteLength text := by
  rw [entries_eq h, List.mem_flatMap] at he
  obtain ⟨t, ht, he⟩ := he
  obtain ⟨s, hs, hplace, hlength⟩ := mem_tokenEntries he
  obtain ⟨-, b, hb, hbtext, -⟩ := mem_tokenSegments h ht hs
  obtain ⟨behind, rfl⟩ := hb.trans hbtext
  have hfront := placeBehind_add_le s.front
  have hpiece := utf16Length_le_byteLength s.text
  rw [hplace, hlength, byteLength_append, byteLength_append]
  omega

end Document

/-- The entries that relative positions stand for, where `last` is the place of the one before. -/
def decodeFrom (last : Place) : List Delta → List Entry
  | [] => []
  | d :: ds =>
    let column := if d.line = 0 then last.column + d.start else d.start
    let place := ⟨last.line + d.line, column⟩
    ⟨place, d.length, d.type⟩ :: decodeFrom place ds

def decode (ds : List Delta) : List Entry :=
  decodeFrom ⟨0, 0⟩ ds

theorem decodeFrom_encodeFrom (es : List Entry) : ∀ last : Place,
    (last :: es.map Entry.place).IsChain (· ≤ ·) → decodeFrom last (encodeFrom last es) = es := by
  induction es with
  | nil => intros; rfl
  | cons e es ih =>
    intro last hchain
    rw [List.map_cons, List.isChain_cons_cons] at hchain
    obtain ⟨⟨hline, hcolumn⟩, hchain⟩ := hchain
    rw [encodeFrom, decodeFrom]
    by_cases hsame : e.place.line = last.line
    · have hplace :
          (⟨last.line, last.column + (e.place.column - last.column)⟩ : Place) = e.place := by
        rw [Nat.add_sub_cancel' (hcolumn hsame.symm), ← hsame]
      simp [hsame, hplace, ih _ hchain]
    · have hplace :
          (⟨last.line + (e.place.line - last.line), e.place.column⟩ : Place) = e.place := by
        rw [Nat.add_sub_cancel' hline]
      simp [Nat.sub_ne_zero_of_lt (Nat.lt_of_le_of_ne hline (Ne.symm hsame)), hplace, ih _ hchain]

/-- The numbers of a relative position are no greater than those of its entry. -/
theorem mem_encodeFrom {d : Delta} {es : List Entry} {last : Place} (h : d ∈ encodeFrom last es) :
    ∃ e ∈ es, d.line ≤ e.place.line ∧ d.start ≤ e.place.column ∧ d.length = e.length := by
  induction es generalizing last with
  | nil => cases h
  | cons e es ih =>
    rw [encodeFrom, List.mem_cons] at h
    obtain rfl | h := h
    · refine ⟨e, List.mem_cons_self, Nat.sub_le .., ?_, rfl⟩
      simp only
      split
      · exact Nat.sub_le ..
      · exact Nat.le_refl _
    · obtain ⟨e', he', hle⟩ := ih h
      exact ⟨e', List.mem_cons_of_mem e he', hle⟩

/-- Read back, the semantic tokens of orderly tokens are the entries of their pieces. No difference
of lines or columns is negative, and all numbers stay within the length of the text in bytes. -/
theorem decode_encode {text : List Char} {ts : List Token} (h : Token.Orderly text ts) :
    decode (encode text ts) = ts.flatMap (tokenEntries text) ∧
      (⟨0, 0⟩ :: (entries text ts).map Entry.place).IsChain (· ≤ ·) ∧
      (∀ e ∈ entries text ts, e.place.line + e.place.column + e.length ≤ byteLength text) ∧
      ∀ d ∈ encode text ts, d.line + d.start + d.length ≤ byteLength text := by
  have hchain : (⟨0, 0⟩ :: (entries text ts).map Entry.place).IsChain (· ≤ ·) := by
    refine (List.pairwise_cons.2 ⟨fun p _ => ?_, pairwise_entries h⟩).isChain
    exact ⟨Nat.zero_le _, fun _ => Nat.zero_le _⟩
  refine ⟨?_, hchain, fun e he => entry_add_le h he, fun d hd => ?_⟩
  · rw [decode, encode, decodeFrom_encodeFrom _ _ hchain, entries_eq h]
  · obtain ⟨e, he, hline, hstart, hlength⟩ := mem_encodeFrom hd
    have hentry := entry_add_le h he
    omega

/-- A literal over three lines, the second of them empty, with a character outside the basic plane
and a word behind it. -/
theorem decode_encode_lines :
    Token.Orderly "\"a😀\n\nb\" x".toList
        [⟨0, 10, .string⟩, ⟨10, 11, .unstyled⟩, ⟨11, 12, .variableName⟩] ∧
      decode (encode "\"a😀\n\nb\" x".toList
          [⟨0, 10, .string⟩, ⟨10, 11, .unstyled⟩, ⟨11, 12, .variableName⟩]) =
        [⟨⟨0, 0⟩, 4, 1⟩, ⟨⟨2, 0⟩, 2, 1⟩, ⟨⟨2, 3⟩, 1, 7⟩] := by
  have horderly : Token.Orderly "\"a😀\n\nb\" x".toList
      (Token.place 0 [⟨"\"a😀\n\nb\"".toList, .string⟩, ⟨[' '], .unstyled⟩,
        ⟨['x'], .variableName⟩]) :=
    (Token.cover_place (by decide) (by decide)).orderly
  refine ⟨horderly, (decode_encode horderly).1.trans ?_⟩
  decide +kernel

end Semantic

end LogScript
