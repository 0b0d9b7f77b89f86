import InputCoercion.Suggestion.Distance
import Mathlib.Data.Nat.Find

/-!
The distance of two spellings is the cost of the cheapest way to turn one into the other, and it is
found whenever it does not exceed the limit.

What is compared with is an alignment: the two texts are read from left to right, and at every
place a character is kept, inserted, deleted or substituted, or two neighbours are swapped. The
matrix has the least costs of aligning the beginnings of the texts, so it is read here with the
beginnings in reverse, where a row has one character more than the row above it. A row is right if
the two rows above it are.

To stop at a row is safe because every alignment of a longer text contains one of the shorter text
that costs no more, with a beginning of the same other text. So the last entry is no less than the
least entry of any row, whatever swaps reach over that row.
-/

namespace InputCoercion.Distance

/-! ### Alignments -/

/-- Alignments of two texts with their costs. No character takes part in two edits. -/
inductive Alignment : List Char → List Char → Nat → Prop
  | nil : Alignment [] [] 0
  | keep {cs ds : List Char} {n : Nat} (c : Char) (rest : Alignment cs ds n) :
      Alignment (c :: cs) (c :: ds) n
  | insert {cs ds : List Char} {n : Nat} (d : Char) (rest : Alignment cs ds n) :
      Alignment cs (d :: ds) (n + 1)
  | delete {cs ds : List Char} {n : Nat} (c : Char) (rest : Alignment cs ds n) :
      Alignment (c :: cs) ds (n + 1)
  | substitute {cs ds : List Char} {n : Nat} (c d : Char) (rest : Alignment cs ds n) :
      Alignment (c :: cs) (d :: ds) (n + 1)
  | swap {cs ds : List Char} {n : Nat} (c d : Char) (rest : Alignment cs ds n) :
      Alignment (c :: d :: cs) (d :: c :: ds) (n + 1)

/-- What it costs to have one character in the place of another. -/
def charCost (c d : Char) : Nat :=
  if c = d then 0 else 1

theorem charCost_self (c : Char) : charCost c c = 0 := if_pos rfl

theorem charCost_le (c d : Char) : charCost c d ≤ 1 := by
  rw [charCost]
  split <;> omega

namespace Alignment

variable {bs cs ds : List Char} {n : Nat}

theorem replace (c d : Char) (h : Alignment cs ds n) :
    Alignment (c :: cs) (d :: ds) (n + charCost c d) := by
  by_cases heq : c = d
  · subst heq
    rw [charCost_self]
    exact .keep c h
  · rw [charCost, if_neg heq]
    exact .substitute c d h

/-- Two neighbours that are equal are swapped for nothing. -/
theorem swapNeighbours (c d : Char) (h : Alignment cs ds n) :
    Alignment (c :: d :: cs) (d :: c :: ds) (n + charCost c d) := by
  by_cases heq : c = d
  · subst heq
    rw [charCost_self]
    exact .keep c (.keep c h)
  · rw [charCost, if_neg heq]
    exact .swap c d h

theorem min {m : Nat} (h : Alignment cs ds n) (h' : Alignment cs ds m) :
    Alignment cs ds (min n m) := by
  rw [Nat.min_def]
  split
  · exact h
  · exact h'

theorem deleteAll : ∀ cs, Alignment cs [] cs.length
  | [] => .nil
  | c :: cs => .delete c (deleteAll cs)

theorem insertAll : ∀ ds, Alignment [] ds ds.length
  | [] => .nil
  | d :: ds => .insert d (insertAll ds)

theorem append {cs' ds' : List Char} {m : Nat} (h : Alignment cs ds n) (h' : Alignment cs' ds' m) :
    Alignment (cs ++ cs') (ds ++ ds') (n + m) := by
  induction h with
  | nil => simpa using h'
  | keep c _ ih => exact .keep c ih
  | insert d _ ih => simpa only [Nat.add_right_comm] using .insert d ih
  | delete c _ ih => simpa only [Nat.add_right_comm] using .delete c ih
  | substitute c d _ ih => simpa only [Nat.add_right_comm] using .substitute c d ih
  | swap c d _ ih => simpa only [Nat.add_right_comm] using .swap c d ih

/-- Read backwards, an alignment is one of the texts read backwards. -/
theorem reverse (h : Alignment cs ds n) : Alignment cs.reverse ds.reverse n := by
  induction h with
  | nil => exact .nil
  | keep c _ ih => simpa using ih.append (.keep c .nil)
  | insert d _ ih => simpa using ih.append (.insert d .nil)
  | delete c _ ih => simpa using ih.append (.delete c .nil)
  | substitute c d _ ih => simpa using ih.append (.substitute c d .nil)
  | swap c d _ ih => simpa using ih.append (.swap d c .nil)

/-- The lengths of two texts differ by no more than the cost of aligning them. -/
theorem length_le (h : Alignment cs ds n) :
    cs.length ≤ ds.length + n ∧ ds.length ≤ cs.length + n := by
  induction h with
  | nil => simp
  | _ => simp only [List.length_cons]; omega

/-- An alignment of a text with one character more goes on from a cheaper one of the text. -/
theorem exists_tail {c : Char} (h : Alignment (c :: cs) ds n) :
    ∃ ds' m, ds' <:+ ds ∧ m ≤ n ∧ Alignment cs ds' m := by
  generalize htext : c :: cs = text at h
  induction h with
  | nil => cases htext
  | @keep _ ds n _ rest =>
    cases htext
    exact ⟨ds, n, List.suffix_cons _ _, Nat.le_refl n, rest⟩
  | insert d _ ih =>
    obtain ⟨ds', m, hsuffix, hle, hshorter⟩ := ih htext
    exact ⟨ds', m, hsuffix.trans (List.suffix_cons _ _), by omega, hshorter⟩
  | @delete _ ds n _ rest =>
    cases htext
    exact ⟨ds, n, List.suffix_refl ds, by omega, rest⟩
  | @substitute _ ds n _ _ rest =>
    cases htext
    exact ⟨ds, n, List.suffix_cons _ _, by omega, rest⟩
  | @swap _ ds n _ d rest =>
    -- Without its neighbour, the other character of the swap is deleted.
    cases htext
    exact ⟨ds, n + 1, ⟨[_, _], rfl⟩, Nat.le_refl _, .delete d rest⟩

/-- The same for any number of characters more. -/
theorem exists_suffix (h : Alignment (bs ++ cs) ds n) :
    ∃ ds' m, ds' <:+ ds ∧ m ≤ n ∧ Alignment cs ds' m := by
  induction bs generalizing ds n with
  | nil => exact ⟨ds, n, List.suffix_refl ds, Nat.le_refl n, h⟩
  | cons b bs ih =>
    obtain ⟨ds', m, hsuffix, hle, htail⟩ := exists_tail h
    obtain ⟨ds'', m', hsuffix', hle', hrest⟩ := ih htail
    exact ⟨ds'', m', hsuffix'.trans hsuffix, Nat.le_trans hle' hle, hrest⟩

/-- The ways in which an alignment of two texts may begin. -/
theorem cases_cons_cons {c d : Char} (h : Alignment (c :: cs) (d :: ds) n) :
    (∃ m, Alignment cs (d :: ds) m ∧ m + 1 ≤ n) ∨
      (∃ m, Alignment (c :: cs) ds m ∧ m + 1 ≤ n) ∨
      (∃ m, Alignment cs ds m ∧ m + charCost c d ≤ n) ∨
      ∃ cs' ds' m, cs = d :: cs' ∧ ds = c :: ds' ∧ Alignment cs' ds' m ∧
        m + charCost c d ≤ n := by
  have hcost := charCost_le c d
  cases h with
  | keep _ rest => exact .inr (.inr (.inl ⟨n, rest, by rw [charCost_self]; exact Nat.le_refl n⟩))
  | insert _ rest => exact .inr (.inl ⟨_, rest, Nat.le_refl _⟩)
  | delete _ rest => exact .inl ⟨_, rest, Nat.le_refl _⟩
  | substitute _ _ rest => exact .inr (.inr (.inl ⟨_, rest, by omega⟩))
  | swap _ _ rest => exact .inr (.inr (.inr ⟨_, _, _, rfl, rfl, rest, by omega⟩))

end Alignment

/-! ### Least costs -/

/-- Whether this is the least cost of aligning two texts. -/
def LeastCost (cs ds : List Char) (n : Nat) : Prop :=
  Alignment cs ds n ∧ ∀ m, Alignment cs ds m → n ≤ m

namespace LeastCost

variable {cs ds : List Char} {n m : Nat}

theorem unique (h : LeastCost cs ds n) (h' : LeastCost cs ds m) : n = m :=
  Nat.le_antisymm (h.2 m h'.1) (h'.2 n h.1)

theorem reverse (h : LeastCost cs ds n) : LeastCost cs.reverse ds.reverse n :=
  ⟨h.1.reverse, fun m h' => h.2 m (by simpa using h'.reverse)⟩

theorem exists_leastCost (cs ds : List Char) : ∃ n, LeastCost cs ds n := by
  classical
  have hsome : ∃ n, Alignment cs ds n :=
    ⟨_, by simpa using (Alignment.deleteAll cs).append (Alignment.insertAll ds)⟩
  exact ⟨Nat.find hsome, Nat.find_spec hsome, fun m h => Nat.find_min' hsome h⟩

theorem nil_left (ds : List Char) : LeastCost [] ds ds.length :=
  ⟨.insertAll ds, fun m h => by simpa using h.length_le.2⟩

theorem nil_right (cs : List Char) : LeastCost cs [] cs.length :=
  ⟨.deleteAll cs, fun m h => by simpa using h.length_le.1⟩

variable {c d : Char} {above left diagonal swapped : Nat}

/-- The entries above, to the left and before both bound a cost from below, and so does the entry
that a swap reaches, where there can be one. -/
theorem of_entries (habove : LeastCost cs (d :: ds) above) (hleft : LeastCost (c :: cs) ds left)
    (hdiagonal : LeastCost cs ds diagonal)
    (hswap : ∀ cs' ds' m, cs = d :: cs' → ds = c :: ds' → Alignment cs' ds' m →
      n ≤ m + charCost c d)
    (hle : n ≤ min (min (above + 1) (left + 1)) (diagonal + charCost c d))
    (h : Alignment (c :: cs) (d :: ds) n) : LeastCost (c :: cs) (d :: ds) n := by
  refine ⟨h, fun m h' => ?_⟩
  rcases h'.cases_cons_cons with ⟨k, hk, hm⟩ | ⟨k, hk, hm⟩ | ⟨k, hk, hm⟩ |
    ⟨cs', ds', k, hcs, hds, hk, hm⟩
  · have hbound := habove.2 k hk
    omega
  · have hbound := hleft.2 k hk
    omega
  · have hbound := hdiagonal.2 k hk
    omega
  · exact Nat.le_trans (hswap cs' ds' k hcs hds hk) hm

/-- The entry of the matrix where the last two characters are not each other's. -/
theorem entry (habove : LeastCost cs (d :: ds) above) (hleft : LeastCost (c :: cs) ds left)
    (hdiagonal : LeastCost cs ds diagonal) (hnot : ¬ (cs.head? = some d ∧ ds.head? = some c)) :
    LeastCost (c :: cs) (d :: ds)
      (min (min (above + 1) (left + 1)) (diagonal + charCost c d)) := by
  refine of_entries habove hleft hdiagonal ?_ (Nat.le_refl _)
    (((habove.1.delete c).min (hleft.1.insert d)).min (hdiagonal.1.replace c d))
  rintro cs' ds' m rfl rfl
  exact absurd ⟨rfl, rfl⟩ hnot

/-- The entry where they are, so that they may be swapped. -/
theorem entry_swapped (habove : LeastCost (d :: cs) (d :: c :: ds) above)
    (hleft : LeastCost (c :: d :: cs) (c :: ds) left)
    (hdiagonal : LeastCost (d :: cs) (c :: ds) diagonal) (hswapped : LeastCost cs ds swapped) :
    LeastCost (c :: d :: cs) (d :: c :: ds)
      (min (min (min (above + 1) (left + 1)) (diagonal + charCost c d))
        (swapped + charCost c d)) := by
  refine of_entries habove hleft hdiagonal ?_ (Nat.min_le_left _ _)
    ((((habove.1.delete c).min (hleft.1.insert d)).min (hdiagonal.1.replace c d)).min
      (hswapped.1.swapNeighbours c d))
  rintro cs' ds' m ⟨rfl⟩ ⟨rfl⟩ h
  have hbound := hswapped.2 m h
  omega

end LeastCost

/-! ### Rows of the matrix -/

/-- Whether a row holds the least costs of aligning a text with the beginnings of another one, from
one beginning on through the characters behind it. The texts are in reverse, the characters not. -/
inductive IsRow (cs : List Char) : List Char → List Char → List Nat → Prop
  | last {ds : List Char} {n : Nat} (least : LeastCost cs ds n) : IsRow cs ds [] [n]
  | cons {ds rest : List Char} {d : Char} {n : Nat} {row : List Nat} (least : LeastCost cs ds n)
      (behind : IsRow cs (d :: ds) rest row) : IsRow cs ds (d :: rest) (n :: row)

namespace IsRow

variable {cs ds rest : List Char} {row : List Nat}

theorem exists_eq_cons (h : IsRow cs ds rest row) :
    ∃ n row', row = n :: row' ∧ LeastCost cs ds n := by
  cases h with
  | last least => exact ⟨_, _, rfl, least⟩
  | cons least _ => exact ⟨_, _, rfl, least⟩

theorem getLastD (h : IsRow cs ds rest row) :
    LeastCost cs (rest.reverse ++ ds) (row.getLastD 0) := by
  induction h with
  | last least => exact least
  | cons least behind ih =>
    obtain ⟨n, row', rfl, -⟩ := behind.exists_eq_cons
    simpa using ih

/-- Every beginning has its entry. -/
theorem exists_mem {read unread : List Char} (h : IsRow cs ds (read ++ unread) row) :
    ∃ n ∈ row, LeastCost cs (read.reverse ++ ds) n := by
  induction read generalizing ds row with
  | nil =>
    obtain ⟨n, row', rfl, least⟩ := h.exists_eq_cons
    exact ⟨n, List.mem_cons_self, least⟩
  | cons d read ih =>
    cases h with
    | cons least behind =>
      obtain ⟨n, hmem, hn⟩ := ih behind
      exact ⟨n, List.mem_cons_of_mem _ hmem, by simpa using hn⟩

end IsRow

/-- Whether a row is the one two above the row of a character more, from two columns before on as
far as there are such columns. -/
inductive IsUpperRow : List Char → List Char → List Char → List Nat → Prop
  | none {ds rest : List Char} : IsUpperRow [] ds rest []
  | first {c : Char} {cs rest : List Char} {upper : List Nat} (row : IsRow cs [] rest upper) :
      IsUpperRow (c :: cs) [] rest upper
  | behind {c d : Char} {cs ds rest : List Char} {upper : List Nat}
      (row : IsRow cs ds (d :: rest) upper) : IsUpperRow (c :: cs) (d :: ds) rest upper

section Step

variable {cs ds : List Char} {c : Char} {upper row : List Nat}

/-- The entries that are computed from two rows continue the row below them. -/
theorem isRow_nextEntries {rest : List Char} {left : Nat} (hupper : IsUpperRow cs ds rest upper)
    (hrow : IsRow cs ds rest row) (hleft : LeastCost (c :: cs) ds left) :
    IsRow (c :: cs) ds rest (left :: nextEntries cs.head? c ds.head? rest upper row left) := by
  induction rest generalizing ds upper row left with
  | nil =>
    rw [nextEntries]
    · exact .last hleft
    · simp
  | cons d rest ih =>
    cases hrow with
    | @cons _ _ _ diagonal _ hdiagonal hbehind =>
      obtain ⟨above, row, rfl, habove⟩ := hbehind.exists_eq_cons
      refine .cons hleft ?_
      cases hupper with
      | none =>
        rw [nextEntries]
        · exact ih .none hbehind (.entry habove hleft hdiagonal (by simp))
        · simp
      | first hfirst =>
        rw [nextEntries]
        · exact ih (.behind hfirst) hbehind (.entry habove hleft hdiagonal (by simp))
        · simp
      | @behind previous b cs ds _ _ hrow =>
        cases hrow with
        | @cons _ _ _ swapped _ hswapped hbehind' =>
          rw [List.head?_cons, List.head?_cons, nextEntries]
          refine ih (.behind hbehind') hbehind ?_
          split
          · rename_i heq
            obtain ⟨rfl, heq⟩ := heq
            cases heq
            exact .entry_swapped habove hleft hdiagonal hswapped
          · rename_i hne
            exact .entry habove hleft hdiagonal fun heq =>
              hne ⟨Option.some.inj heq.2, heq.1⟩

theorem isRow_nextRow (hupper : IsUpperRow cs [] ds upper) (hrow : IsRow cs [] ds row) :
    IsRow (c :: cs) [] ds (nextRow cs.head? c ds upper row (cs.length + 1)) :=
  isRow_nextEntries hupper hrow (.nil_right (c :: cs))

end Step

/-- The first row counts the characters of the beginnings. -/
theorem isRow_range' (ds rest : List Char) :
    IsRow [] ds rest (List.range' ds.length (rest.length + 1)) := by
  induction rest generalizing ds with
  | nil => exact .last (.nil_left ds)
  | cons d rest ih =>
    rw [List.length_cons, List.range'_succ]
    exact .cons (.nil_left ds) (ih (d :: ds))

/-! ### The end of the matrix -/

theorem rowMin_le_of_mem {row : List Nat} {n : Nat} (h : n ∈ row) : rowMin row ≤ n := by
  have hle (start : Nat) : row.foldl min start ≤ start ∧ ∀ n ∈ row, row.foldl min start ≤ n := by
    clear h
    induction row generalizing start with
    | nil => simp
    | cons m row ih =>
      obtain ⟨hstart, hrow⟩ := ih (min start m)
      rw [List.foldl_cons, List.forall_mem_cons]
      exact ⟨by omega, by omega, hrow⟩
  exact (hle _).2 n h

/-- Whatever ends in the text of a row costs no less than the least entry of the row. -/
theorem rowMin_le_of_alignment {bs cs ds : List Char} {row : List Nat} {n : Nat}
    (hrow : IsRow cs [] ds row) (h : Alignment (bs ++ cs) ds.reverse n) : rowMin row ≤ n := by
  obtain ⟨read, m, ⟨unread, hsplit⟩, hle, hread⟩ := h.exists_suffix
  obtain rfl : ds = read.reverse ++ unread.reverse := by
    rw [← List.reverse_append, hsplit, List.reverse_reverse]
  obtain ⟨k, hmem, hk⟩ := hrow.exists_mem
  have hleast : k ≤ m := hk.2 m (by simpa using hread)
  have hmin := rowMin_le_of_mem hmem
  omega

/-- The computation ends with the least cost unless that exceeds the limit. -/
theorem lastEntry?_eq {limit n : Nat} {cs ds rest : List Char} {upper row : List Nat}
    (hupper : IsUpperRow cs [] ds upper) (hrow : IsRow cs [] ds row)
    (hn : LeastCost (rest.reverse ++ cs) ds.reverse n) :
    lastEntry? limit ds cs.head? rest upper row cs.length =
      if n ≤ limit then some n else none := by
  induction rest generalizing cs upper row with
  | nil =>
    have hlast : LeastCost cs ds.reverse (row.getLastD 0) := by simpa using hrow.getLastD
    unfold lastEntry?
    rw [hlast.unique hn]
  | cons c rest ih =>
    have hnext : IsRow (c :: cs) [] ds _ := isRow_nextRow hupper hrow
    have hn : LeastCost (rest.reverse ++ c :: cs) ds.reverse n := by simpa using hn
    unfold lastEntry?
    dsimp only
    split
    · rename_i hcut
      have hmin := rowMin_le_of_alignment hnext hn.1
      rw [if_neg (by omega)]
    · exact ih (.first hrow) hnext hn

theorem alignment?_eq {limit n : Nat} {cs ds : List Char} (hn : LeastCost cs ds n) :
    alignment? limit cs ds = if n ≤ limit then some n else none := by
  have hlength := hn.1.length_le
  rw [alignment?]
  split
  · rw [if_neg (by omega)]
  · have hfirst : IsRow [] [] ds (List.range (ds.length + 1)) := by
      rw [List.range_eq_range']
      exact isRow_range' [] ds
    exact lastEntry?_eq .none hfirst (by simpa using hn.reverse)

/-! ### Spellings -/

/-- The distance of two spellings: nothing if they are the same, one if they are the same in lower
case, and otherwise the least cost of aligning them in lower case. -/
def IsDistance (a b : String) (n : Nat) : Prop :=
  if a = b then n = 0
  else if Text.lower a.toList = Text.lower b.toList then n = 1
  else LeastCost (Text.lower a.toList) (Text.lower b.toList) n

theorem exists_isDistance (a b : String) : ∃ n, IsDistance a b n := by
  simp only [IsDistance]
  split
  · exact ⟨0, rfl⟩
  · split
    · exact ⟨1, rfl⟩
    · exact LeastCost.exists_leastCost _ _

theorem within?_eq_of_isDistance {limit n : Nat} {a b : String} (h : IsDistance a b n) :
    within? limit a b = if n ≤ limit then some n else none := by
  rw [IsDistance] at h
  rw [within?]
  split at h
  · rename_i hsame
    rw [if_pos hsame, h, if_pos (Nat.zero_le limit)]
  · rename_i hother
    rw [if_neg hother]
    split at h
    · rename_i hlower
      rw [h]
      exact if_pos hlower
    · rename_i hlower
      rw [← alignment?_eq h]
      exact if_neg hlower

/-- Any two spellings have a distance, and it is found within every limit that it does not exceed,
and within no other. -/
theorem exists_isDistance_and_within?_eq (a b : String) :
    ∃ n, IsDistance a b n ∧ ∀ limit, within? limit a b = if n ≤ limit then some n else none := by
  obtain ⟨n, h⟩ := exists_isDistance a b
  exact ⟨n, h, fun limit => within?_eq_of_isDistance h⟩

/-- No character is edited twice: from `ca` to `abc` it takes three edits, although a swap and an
insertion between the swapped characters would do. -/
example : within? 3 "ca" "abc" = some 3 ∧ within? 2 "ca" "abc" = none := by
  decide +kernel

end InputCoercion.Distance
