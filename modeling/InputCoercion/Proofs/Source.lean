import InputCoercion.Source
import Mathlib.Data.List.DropRight
import Mathlib.Data.Prod.Lex

/-!
Positions identify offsets. The position of an offset is counted on the text before it, character by
character. Each character moves the position on, to the next line or to the next column, so that of
two offsets the later one has the later position.

An offset that a span cannot hold is cut to the greatest that it can hold. In a text that ends before
that one, it has no position, as it had none before it was cut.
-/

namespace InputCoercion.Position

/-! ### Moving on -/

/-- The position behind a character. -/
def next (p : Position) (c : Char) : Position :=
  if c = '\n' then ⟨p.line + 1, 1⟩ else ⟨p.line, p.column + 1⟩

/-- The position behind some characters. -/
def advance (p : Position) (cs : List Char) : Position :=
  cs.foldl next p

@[simp] theorem advance_nil (p : Position) : p.advance [] = p := rfl

@[simp] theorem advance_cons (p : Position) (c : Char) (cs : List Char) :
    p.advance (c :: cs) = (p.next c).advance cs := rfl

theorem advance_append (p : Position) (cs ds : List Char) :
    p.advance (cs ++ ds) = (p.advance cs).advance ds :=
  List.foldl_append

/-- Positions in the order of a reader, line by line. -/
def key (p : Position) : ℕ ×ₗ ℕ :=
  toLex (p.line, p.column)

theorem key_lt_key_next (p : Position) (c : Char) : p.key < (p.next c).key := by
  rw [next, key, key, Prod.Lex.toLex_lt_toLex]
  split
  · exact .inl (Nat.lt_succ_self p.line)
  · exact .inr ⟨rfl, Nat.lt_succ_self p.column⟩

theorem key_le_key_advance (p : Position) (cs : List Char) : p.key ≤ (p.advance cs).key := by
  induction cs generalizing p with
  | nil => exact le_rfl
  | cons c cs ih => exact (key_lt_key_next p c).le.trans (ih (p.next c))

theorem key_lt_key_advance (p : Position) {cs : List Char} (h : cs ≠ []) :
    p.key < (p.advance cs).key := by
  obtain ⟨c, cs, rfl⟩ := List.exists_cons_of_ne_nil h
  exact (key_lt_key_next p c).trans_le (key_le_key_advance (p.next c) cs)

/-! ### Walking to an offset -/

/-- One step of a walk that has not arrived. -/
theorem walk_cons (p : Position) (c : Char) (cs : List Char) {offset : ℕ} (h : 0 < offset) :
    p.walk (c :: cs) offset =
      if c.utf8Size ≤ offset then (p.next c).walk cs (offset - c.utf8Size) else none := by
  obtain ⟨offset, rfl⟩ := Nat.exists_eq_add_one.mpr h
  rw [walk]
  rfl

theorem byteSize_cons (c : Char) (cs : List Char) :
    (String.ofList (c :: cs)).utf8ByteSize = c.utf8Size + (String.ofList cs).utf8ByteSize := by
  rw [String.ofList_cons, String.utf8ByteSize_append, String.utf8ByteSize_singleton]

/-- A walk over as many bytes as some characters have ends behind them. -/
theorem walk_byteSize (p : Position) (cs ds : List Char) :
    p.walk (cs ++ ds) (String.ofList cs).utf8ByteSize = some (p.advance cs) := by
  induction cs generalizing p with
  | nil => cases ds <;> rfl
  | cons c cs ih =>
    have hpos := c.utf8Size_pos
    rw [List.cons_append, byteSize_cons, walk_cons p c _ (by omega), if_pos (by omega),
      Nat.add_sub_cancel_left, ih, advance_cons]

/-- Where a walk ends, it has gone over whole characters. -/
theorem exists_of_walk_eq_some {p q : Position} {cs : List Char} {offset : ℕ}
    (h : p.walk cs offset = some q) :
    ∃ before after, cs = before ++ after ∧ (String.ofList before).utf8ByteSize = offset ∧
      q = p.advance before := by
  induction cs generalizing p offset with
  | nil =>
    cases offset with
    | zero =>
      cases h
      exact ⟨[], [], rfl, rfl, rfl⟩
    | succ offset => cases h
  | cons c cs ih =>
    rcases Nat.eq_zero_or_pos offset with rfl | hpos
    · cases h
      exact ⟨[], c :: cs, rfl, rfl, rfl⟩
    · rw [walk_cons p c cs hpos] at h
      split at h
      · obtain ⟨before, after, rfl, hsize, rfl⟩ := ih h
        exact ⟨c :: before, after, rfl, by rw [byteSize_cons]; omega, rfl⟩
      · cases h

/-- An offset has a position if and only if it is behind a beginning of the text. The position is the
one that this beginning leads to. -/
theorem ofOffset?_eq_some_iff {source : String} {offset : ℕ} {p : Position} :
    ofOffset? source offset = some p ↔
      ∃ before after, source = before ++ after ∧ before.utf8ByteSize = offset ∧
        p = advance ⟨1, 1⟩ before.toList := by
  rw [ofOffset?]
  constructor
  · intro h
    obtain ⟨before, after, hsplit, hsize, rfl⟩ := exists_of_walk_eq_some h
    refine ⟨String.ofList before, String.ofList after, String.toList_inj.mp ?_, hsize, ?_⟩
    · rw [String.toList_append, String.toList_ofList, String.toList_ofList, hsplit]
    · rw [String.toList_ofList]
  · rintro ⟨before, after, rfl, rfl, rfl⟩
    have hwalk := walk_byteSize ⟨1, 1⟩ before.toList after.toList
    rwa [String.ofList_toList, ← String.toList_append] at hwalk

theorem exists_ofOffset?_iff {source : String} {offset : ℕ} :
    (∃ p, ofOffset? source offset = some p) ↔ String.Pos.Raw.IsValid source ⟨offset⟩ := by
  rw [String.Pos.Raw.isValid_iff_exists_append]
  constructor
  · rintro ⟨p, hp⟩
    obtain ⟨before, after, hsplit, rfl, -⟩ := ofOffset?_eq_some_iff.mp hp
    exact ⟨before, after, hsplit, rfl⟩
  · rintro ⟨before, after, hsplit, hoffset⟩
    have hsize : before.utf8ByteSize = offset := (congrArg String.Pos.Raw.byteIdx hoffset).symm
    exact ⟨_, ofOffset?_eq_some_iff.mpr ⟨before, after, hsplit, hsize, rfl⟩⟩

/-- Of two offsets that have positions the greater one has the later position. -/
theorem key_lt_key_of_lt {source : String} {offset offset' : ℕ} {p p' : Position}
    (h : ofOffset? source offset = some p) (h' : ofOffset? source offset' = some p')
    (hlt : offset < offset') : p.key < p'.key := by
  obtain ⟨before, after, hsplit, rfl, rfl⟩ := ofOffset?_eq_some_iff.mp h
  obtain ⟨before', after', hsplit', rfl, rfl⟩ := ofOffset?_eq_some_iff.mp h'
  have hprefix : before.toList <+: source.toList := ⟨after.toList, by
    rw [hsplit, String.toList_append]⟩
  have hprefix' : before'.toList <+: source.toList := ⟨after'.toList, by
    rw [hsplit', String.toList_append]⟩
  rcases List.prefix_or_prefix_of_prefix hprefix hprefix' with ⟨rest, hrest⟩ | ⟨rest, hrest⟩
  · have hne : rest ≠ [] := by
      rintro rfl
      rw [List.append_nil, String.toList_inj] at hrest
      rw [hrest] at hlt
      exact absurd hlt (Nat.lt_irrefl _)
    rw [← hrest, advance_append]
    exact key_lt_key_advance _ hne
  · have hsize : before.utf8ByteSize = before'.utf8ByteSize + (String.ofList rest).utf8ByteSize := by
      rw [← String.utf8ByteSize_append]
      congr 1
      rw [← String.toList_inj, String.toList_append, String.toList_ofList, hrest]
    omega

/-! ### Lines and columns -/

/-- Whether a position is the one behind a text: the line is counted by the line ends in the text,
and the column by the characters behind the last of them, or from the beginning if there is none. -/
structure IsBehind (p : Position) (before : String) : Prop where
  line_eq : p.line = 1 + before.toList.count '\n'
  column_eq : ∃ lines line, before = lines ++ line ∧
    (lines = "" ∨ ∃ ended, lines = ended ++ "\n") ∧ '\n' ∉ line.toList ∧
      p.column = 1 + line.length

theorem isBehind_advance (before : String) : (advance ⟨1, 1⟩ before.toList).IsBehind before := by
  suffices h : ∀ cs : List Char, (advance ⟨1, 1⟩ cs).IsBehind (String.ofList cs) by
    have hbehind := h before.toList
    rwa [String.ofList_toList] at hbehind
  intro cs
  induction cs using List.reverseRecOn with
  | nil => exact ⟨rfl, "", "", rfl, .inl rfl, by simp, rfl⟩
  | append_singleton cs c ih =>
    obtain ⟨hline, lines, line, hsplit, hends, hrest, hcolumn⟩ := ih
    rw [String.toList_ofList] at hline
    rw [advance_append, advance_cons, advance_nil, next, String.ofList_append]
    split
    · -- A line end leaves an empty line behind it.
      rename_i hc
      refine ⟨?_, String.ofList cs ++ "\n", "", ?_, .inr ⟨_, rfl⟩, by simp, rfl⟩
      · simp only [String.toList_append, String.toList_ofList, List.count_append, hline, hc,
          List.count_singleton_self]
        omega
      · rw [hc, String.append_empty]
    · rename_i hc
      refine ⟨?_, lines, line ++ String.ofList [c], ?_, hends, ?_, ?_⟩
      · simp only [String.toList_append, String.toList_ofList, List.count_append, hline]
        rw [List.count_singleton, if_neg (by simpa using hc), Nat.add_zero]
      · rw [hsplit, String.append_assoc]
      · rw [String.toList_append, String.toList_ofList, List.mem_append, List.mem_singleton]
        exact fun h => h.elim hrest fun heq => hc heq.symm
      · rw [hcolumn, ← String.length_toList, ← String.length_toList, String.toList_append,
          String.toList_ofList, List.length_append, List.length_singleton, Nat.add_assoc]

/-! ### Spans -/

/-- A start that is cut lies behind the end of a text that a span can reach, and so has no position,
cut or not. -/
theorem ofOffset?_start {source : String} (hsize : source.utf8ByteSize < Span.maxOffset)
    (start stop : ℕ) :
    ofOffset? source (Span.ofOffsets start stop).start = ofOffset? source start := by
  have hstart : (Span.ofOffsets start stop).start = min start Span.maxOffset := rfl
  have hnone {offset : ℕ} (hbeyond : source.utf8ByteSize < offset) :
      ofOffset? source offset = none := by
    refine Option.eq_none_iff_forall_ne_some.mpr fun p hp => ?_
    obtain ⟨before, after, rfl, rfl, -⟩ := ofOffset?_eq_some_iff.mp hp
    rw [String.utf8ByteSize_append] at hbeyond
    omega
  rw [hstart]
  rcases Nat.le_total start Span.maxOffset with hle | hge
  · rw [Nat.min_eq_left hle]
  · rw [Nat.min_eq_right hge, hnone hsize, hnone (by omega)]

/-- In a text that is not too long for spans, the start of a span has a position if and only if the
offset that was asked for is at the beginning of a character or at the end of the text. The position
is then the one behind the text before this offset, and the two cuts that it takes, at the offset and
behind the last line end before it, both fall between characters. The later of two offsets has the
later position, so no two offsets share one. A span never ends before its start, and its length is
what lies between the two. -/
theorem ofOffset?_start_identifies {source : String}
    (hsize : source.utf8ByteSize < Span.maxOffset) :
    (∀ start stop, (∃ p, ofOffset? source (Span.ofOffsets start stop).start = some p) ↔
      start ≤ source.utf8ByteSize ∧ String.Pos.Raw.IsValid source ⟨start⟩) ∧
    (∀ start stop p, ofOffset? source (Span.ofOffsets start stop).start = some p →
      ∃ before after, source = before ++ after ∧ before.utf8ByteSize = start ∧
        p.IsBehind before) ∧
    (∀ start stop start' stop' p p',
      ofOffset? source (Span.ofOffsets start stop).start = some p →
      ofOffset? source (Span.ofOffsets start' stop').start = some p' →
        (start < start' → p.key < p'.key) ∧ (p = p' → start = start')) ∧
    ∀ start stop, (Span.ofOffsets start stop).start ≤ (Span.ofOffsets start stop).stop ∧
      (Span.ofOffsets start stop).start + (Span.ofOffsets start stop).length =
        (Span.ofOffsets start stop).stop := by
  refine ⟨fun start stop => ?_, fun start stop p hp => ?_,
    fun start stop start' stop' p p' hp hp' => ?_, fun start stop => ?_⟩
  · rw [ofOffset?_start hsize, exists_ofOffset?_iff]
    exact ⟨fun hvalid => ⟨hvalid.le_rawEndPos, hvalid⟩, And.right⟩
  · rw [ofOffset?_start hsize] at hp
    obtain ⟨before, after, hsplit, hstart, rfl⟩ := ofOffset?_eq_some_iff.mp hp
    exact ⟨before, after, hsplit, hstart, isBehind_advance before⟩
  · rw [ofOffset?_start hsize] at hp hp'
    refine ⟨key_lt_key_of_lt hp hp', ?_⟩
    rintro rfl
    rcases Nat.lt_trichotomy start start' with hlt | heq | hlt
    · exact absurd (key_lt_key_of_lt hp hp' hlt) (lt_irrefl _)
    · exact heq
    · exact absurd (key_lt_key_of_lt hp' hp hlt) (lt_irrefl _)
  · have hle := (Span.ofOffsets start stop).start_le_stop
    rw [Span.length]
    omega

/-- The end of a text whose last character has two bytes, and the offset between these. -/
theorem ofOffset?_start_accent :
    "a\né".utf8ByteSize < Span.maxOffset ∧
      ofOffset? "a\né" (Span.ofOffsets 4 0).start = some ⟨2, 2⟩ ∧
      IsBehind ⟨2, 2⟩ "a\né" ∧ (⟨2, 1⟩ : Position).key < (⟨2, 2⟩ : Position).key ∧
      ¬ String.Pos.Raw.IsValid "a\né" ⟨3⟩ := by
  have hsize : "a\né".utf8ByteSize < Span.maxOffset := by decide
  have hstart : ofOffset? "a\né" (Span.ofOffsets 2 4).start = some ⟨2, 1⟩ := by decide
  have hend : ofOffset? "a\né" (Span.ofOffsets 4 0).start = some ⟨2, 2⟩ := by decide
  have hinside : ofOffset? "a\né" (Span.ofOffsets 3 4).start = none := by decide
  obtain ⟨hvalid, hbehind, hlater, -⟩ := ofOffset?_start_identifies hsize
  refine ⟨hsize, hend, ?_, (hlater 2 4 4 0 _ _ hstart hend).1 (by decide), fun hboundary => ?_⟩
  · obtain ⟨before, after, hsplit, hbefore, hposition⟩ := hbehind 4 0 _ hend
    have hall : after.utf8ByteSize = 0 := by
      have hsum := congrArg String.utf8ByteSize hsplit
      rw [String.utf8ByteSize_append, hbefore] at hsum
      have hfour : "a\né".utf8ByteSize = 4 := by decide
      omega
    rw [String.utf8ByteSize_eq_zero_iff.mp hall, String.append_empty] at hsplit
    rwa [hsplit]
  · obtain ⟨p, hp⟩ := (hvalid 3 4).mpr ⟨by decide, hboundary⟩
    rw [hinside] at hp
    cases hp

end InputCoercion.Position
