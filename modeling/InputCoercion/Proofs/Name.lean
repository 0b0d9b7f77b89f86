import InputCoercion.Name.Json
import Mathlib.Data.Nat.Notation

/-!
Names, character by character. The check of a name walks over bytes, and no byte of a character
outside ASCII is one that it accepts. So a text passes if and only if its characters are letters,
digits and underscores of ASCII, the first of them no digit.

Within ASCII a byte is the code point of a character, so that the order of names by bytes is their
order by characters.
-/

namespace InputCoercion

/-! ### The bytes of characters -/

theorem utf8Bytes_eq_flatMap (s : String) :
    utf8Bytes s = s.toList.flatMap String.utf8EncodeChar := by
  have hencode := String.toByteArray_ofList (l := s.toList)
  rw [String.ofList_toList] at hencode
  rw [utf8Bytes, hencode, List.utf8Encode]
  simp

theorem utf8Bytes_inj {s t : String} : utf8Bytes s = utf8Bytes t ↔ s = t := by
  rw [utf8Bytes, utf8Bytes, Array.toList_inj, ← ByteArray.ext_iff, String.toByteArray_inj]

/-- Whether a character is one of ASCII, whose only byte is its code point. -/
def IsAscii (c : Char) : Prop :=
  c.toNat < 128

namespace IsAscii

variable {c d : Char}

theorem utf8EncodeChar_eq (h : IsAscii c) :
    String.utf8EncodeChar c = [UInt8.ofNat c.toNat] := by
  have hle : c.val.toNat ≤ 127 := Nat.le_of_lt_succ h
  simp only [String.utf8EncodeChar, hle, if_true]
  rfl

theorem toNat_ofNat (h : IsAscii c) : (UInt8.ofNat c.toNat).toNat = c.toNat :=
  UInt8.toNat_ofNat_of_lt' (Nat.lt_trans h (by decide))

/-- Bytes of ASCII are in the order of the characters. -/
theorem compare_ofNat (hc : IsAscii c) (hd : IsAscii d) :
    compare (UInt8.ofNat c.toNat) (UInt8.ofNat d.toNat) = compare c.toNat d.toNat := by
  have hbytes (a b : UInt8) : compare a b = compare a.toNat b.toNat := by
    simp only [compare, compareOfLessAndEq, UInt8.lt_iff_toNat_lt, ← UInt8.toNat_inj]
  rw [hbytes, hc.toNat_ofNat, hd.toNat_ofNat]

end IsAscii

/-- All bytes of the other characters are above those of ASCII. -/
theorem le_toNat_of_mem_utf8EncodeChar {c : Char} (h : ¬ IsAscii c) {b : UInt8}
    (hb : b ∈ String.utf8EncodeChar c) : 128 ≤ b.toNat := by
  have hlt : ¬ c.val.toNat ≤ 127 := fun hle => h (Nat.lt_succ_of_le hle)
  have hhigh (low lead : ℕ) (hlow : low + lead < 256) (hlead : 128 ≤ lead) :
      128 ≤ (UInt8.ofNat (low + lead)).toNat := by
    rw [UInt8.toNat_ofNat_of_lt' hlow]
    omega
  -- Whichever byte it is of two, three or four, a constant of at least 128 has been added.
  simp only [String.utf8EncodeChar, hlt, if_false] at hb
  split at hb
  · simp only [List.mem_cons, List.not_mem_nil, or_false] at hb
    rcases hb with rfl | rfl <;> exact hhigh _ _ (by omega) (by decide)
  · split at hb
    · simp only [List.mem_cons, List.not_mem_nil, or_false] at hb
      rcases hb with rfl | rfl | rfl <;> exact hhigh _ _ (by omega) (by decide)
    · simp only [List.mem_cons, List.not_mem_nil, or_false] at hb
      rcases hb with rfl | rfl | rfl | rfl <;> exact hhigh _ _ (by omega) (by decide)

theorem exists_utf8EncodeChar_eq_cons (c : Char) : ∃ b bs, String.utf8EncodeChar c = b :: bs :=
  List.exists_cons_of_ne_nil String.utf8EncodeChar_ne_nil

namespace Name

/-! ### The characters of names -/

/-- The letters and the underscore. -/
def IsStart (c : Char) : Prop :=
  c.isAlpha = true ∨ c = '_'

/-- The letters, the digits and the underscore. -/
def IsContinue (c : Char) : Prop :=
  c.isAlphanum = true ∨ c = '_'

instance : DecidablePred IsContinue := fun _ => inferInstanceAs (Decidable (_ ∨ _))

/-- The characters of a name: one that can start it, and any number of others behind that. -/
inductive Grammatical : List Char → Prop
  | mk {first : Char} {others : List Char} (start : IsStart first)
      (continues : ∀ c ∈ others, IsContinue c) : Grammatical (first :: others)

theorem isStart_iff_toNat {c : Char} :
    IsStart c ↔ (65 ≤ c.toNat ∧ c.toNat ≤ 90 ∨ 97 ≤ c.toNat ∧ c.toNat ≤ 122) ∨ c.toNat = 95 := by
  have hupper : c.isUpper = true ↔ 65 ≤ c.toNat ∧ c.toNat ≤ 90 :=
    decide_eq_true_iff (p := c.val ≥ 'A'.val ∧ c.val ≤ 'Z'.val)
  have hlower : c.isLower = true ↔ 97 ≤ c.toNat ∧ c.toNat ≤ 122 := by
    show (decide ('a'.val ≤ c.val) && decide (c.val ≤ 'z'.val)) = true ↔ _
    rw [Bool.and_eq_true, decide_eq_true_iff, decide_eq_true_iff]
    rfl
  show (c.isUpper || c.isLower) = true ∨ c = '_' ↔ _
  rw [Bool.or_eq_true, hupper, hlower, ← Char.toNat_inj]
  rfl

theorem isContinue_iff_toNat {c : Char} :
    IsContinue c ↔ IsStart c ∨ 48 ≤ c.toNat ∧ c.toNat ≤ 57 := by
  have hdigit : c.isDigit = true ↔ 48 ≤ c.toNat ∧ c.toNat ≤ 57 := Char.isDigit_iff_toNat
  rw [IsContinue, IsStart, Char.isAlphanum, Bool.or_eq_true, hdigit, or_right_comm]

theorem isStartByte_iff_toNat {b : UInt8} :
    isStartByte b = true ↔
      (65 ≤ b.toNat ∧ b.toNat ≤ 90 ∨ 97 ≤ b.toNat ∧ b.toNat ≤ 122) ∨ b.toNat = 95 := by
  simp only [isStartByte, Bool.or_eq_true, Bool.and_eq_true, decide_eq_true_eq, beq_iff_eq,
    UInt8.le_iff_toNat_le, ← UInt8.toNat_inj]
  rfl

theorem isContinueByte_iff_toNat {b : UInt8} :
    isContinueByte b = true ↔ isStartByte b = true ∨ 48 ≤ b.toNat ∧ b.toNat ≤ 57 := by
  simp only [isContinueByte, Bool.or_eq_true, Bool.and_eq_true, decide_eq_true_eq,
    UInt8.le_iff_toNat_le]
  rfl

theorem IsContinue.isAscii {c : Char} (h : IsContinue c) : IsAscii c := by
  rw [isContinue_iff_toNat, isStart_iff_toNat] at h
  rw [IsAscii]
  omega

theorem IsStart.isContinue {c : Char} (h : IsStart c) : IsContinue c :=
  isContinue_iff_toNat.mpr (.inl h)

/-- No byte of a character outside ASCII is taken for one of a name. -/
theorem not_isContinueByte_of_mem {c : Char} (h : ¬ IsAscii c) {b : UInt8}
    (hb : b ∈ String.utf8EncodeChar c) : ¬ isContinueByte b = true := by
  have hhigh := le_toNat_of_mem_utf8EncodeChar h hb
  rw [isContinueByte_iff_toNat, isStartByte_iff_toNat]
  omega

/-- The bytes of a character are those of a beginning name only if the character begins it. -/
theorem isStartByte_utf8EncodeChar (c : Char) :
    ∃ b bs, String.utf8EncodeChar c = b :: bs ∧
      ((isStartByte b && bs.all isContinueByte) = true ↔ IsStart c) := by
  by_cases hascii : IsAscii c
  · refine ⟨_, _, hascii.utf8EncodeChar_eq, ?_⟩
    rw [List.all_nil, Bool.and_true, isStartByte_iff_toNat, hascii.toNat_ofNat, isStart_iff_toNat]
  · obtain ⟨b, bs, hencode⟩ := exists_utf8EncodeChar_eq_cons c
    have hbyte := not_isContinueByte_of_mem hascii (hencode ▸ List.mem_cons_self)
    refine ⟨b, bs, hencode, iff_of_false (fun h => ?_) fun h => hascii h.isContinue.isAscii⟩
    rw [Bool.and_eq_true] at h
    exact hbyte (isContinueByte_iff_toNat.mpr (.inl h.1))

theorem all_isContinueByte_utf8EncodeChar (c : Char) :
    (String.utf8EncodeChar c).all isContinueByte = true ↔ IsContinue c := by
  by_cases hascii : IsAscii c
  · rw [hascii.utf8EncodeChar_eq, List.all_cons, List.all_nil, Bool.and_true,
      isContinueByte_iff_toNat, isStartByte_iff_toNat, hascii.toNat_ofNat, isContinue_iff_toNat,
      isStart_iff_toNat]
  · obtain ⟨b, bs, hencode⟩ := exists_utf8EncodeChar_eq_cons c
    have hbyte := not_isContinueByte_of_mem hascii (hencode ▸ List.mem_cons_self)
    refine iff_of_false (fun h => ?_) fun h => hascii h.isAscii
    rw [hencode, List.all_cons, Bool.and_eq_true] at h
    exact hbyte h.1

theorem isValid_iff_grammatical {s : String} : isValid s = true ↔ Grammatical s.toList := by
  rw [isValid, utf8Bytes_eq_flatMap]
  cases s.toList with
  | nil => exact iff_of_false Bool.false_ne_true nofun
  | cons c cs =>
    obtain ⟨b, bs, hencode, hstart⟩ := isStartByte_utf8EncodeChar c
    have hothers : (cs.flatMap String.utf8EncodeChar).all isContinueByte = true ↔
        ∀ d ∈ cs, IsContinue d := by
      simp only [List.all_flatMap, List.all_eq_true (l := cs), all_isContinueByte_utf8EncodeChar]
    rw [List.flatMap_cons, hencode, List.cons_append]
    show (isStartByte b && (bs ++ _).all isContinueByte) = true ↔ _
    rw [List.all_append, ← Bool.and_assoc, Bool.and_eq_true, hstart, hothers]
    exact ⟨fun h => .mk h.1 h.2, fun ⟨start, continues⟩ => ⟨start, continues⟩⟩

theorem grammatical_toList_text (name : Name) : Grammatical name.text.toList :=
  isValid_iff_grammatical.mp name.valid

theorem isContinue_of_mem {name : Name} {c : Char} (h : c ∈ name.text.toList) : IsContinue c := by
  have hgrammatical := name.grammatical_toList_text
  generalize name.text.toList = cs at h hgrammatical
  obtain ⟨start, continues⟩ := hgrammatical
  rcases List.mem_cons.mp h with rfl | h
  · exact start.isContinue
  · exact continues c h

/-! ### Reading -/

/-- Whether a text is read as it has to be: as the name that is written so, both by itself and in
JSON, if the grammar allows it, and as no name otherwise. -/
structure ReadsText (s : String) : Prop where
  ok : Grammatical s.toList →
    ∃ name : Name, ofString s = .ok name ∧ ofJson? (.string s) = some name ∧ name.text = s
  error : ¬ Grammatical s.toList → ofString s = .error ⟨s⟩ ∧ ofJson? (.string s) = none

theorem readsText (s : String) : ReadsText s where
  ok h := by
    have hread : ofString s = .ok ⟨s, isValid_iff_grammatical.mpr h⟩ :=
      dif_pos (isValid_iff_grammatical.mpr h)
    refine ⟨_, hread, ?_, rfl⟩
    rw [ofJson?, hread]
    rfl
  error h := by
    have hread : ofString s = .error ⟨s⟩ :=
      dif_neg fun hvalid => h (isValid_iff_grammatical.mp hvalid)
    refine ⟨hread, ?_⟩
    rw [ofJson?, hread]
    rfl

/-- A name is read from nothing in JSON but the string that it is written as. -/
theorem ofJson?_eq_some_iff {value : Json} {name : Name} :
    ofJson? value = some name ↔ value = name.toJson := by
  constructor
  · intro h
    rw [ofJson?.eq_def] at h
    split at h
    · rename_i s
      cases hread : ofString s with
      | ok read =>
        rw [hread] at h
        cases h
        rw [toJson, text_of_ofString hread]
      | error failure =>
        rw [hread] at h
        cases h
    · cases h
  · rintro rfl
    rw [toJson, ofJson?, ofString_text]
    rfl

/-! ### The order of names -/

/-- Texts in the order of their characters, which are ordered by code points. -/
def compareChars : List Char → List Char → Ordering :=
  List.compareLex fun c d => compare c.toNat d.toNat

theorem compare_flatMap_utf8EncodeChar {cs ds : List Char} (hcs : ∀ c ∈ cs, IsAscii c)
    (hds : ∀ d ∈ ds, IsAscii d) :
    compare (cs.flatMap String.utf8EncodeChar) (ds.flatMap String.utf8EncodeChar) =
      compareChars cs ds := by
  induction cs generalizing ds with
  | nil =>
    cases ds with
    | nil => rfl
    | cons d ds =>
      obtain ⟨hd, -⟩ := List.forall_mem_cons.mp hds
      rw [List.flatMap_cons, hd.utf8EncodeChar_eq]
      rfl
  | cons c cs ih =>
    obtain ⟨hc, hcs⟩ := List.forall_mem_cons.mp hcs
    cases ds with
    | nil =>
      rw [List.flatMap_cons, hc.utf8EncodeChar_eq]
      rfl
    | cons d ds =>
      obtain ⟨hd, hds⟩ := List.forall_mem_cons.mp hds
      rw [List.flatMap_cons, List.flatMap_cons, hc.utf8EncodeChar_eq, hd.utf8EncodeChar_eq,
        List.singleton_append, List.singleton_append, List.compare_cons_cons, ih hcs hds,
        hc.compare_ofNat hd, compareChars, List.compareLex_cons_cons]

theorem compare_eq_compareChars (a b : Name) :
    compare a b = compareChars a.text.toList b.text.toList := by
  show compare (utf8Bytes a.text) (utf8Bytes b.text) = _
  rw [utf8Bytes_eq_flatMap, utf8Bytes_eq_flatMap]
  exact compare_flatMap_utf8EncodeChar (fun _ hc => (isContinue_of_mem hc).isAscii)
    fun _ hd => (isContinue_of_mem hd).isAscii

instance : Std.TransOrd Name where
  eq_swap := Std.OrientedOrd.eq_swap (α := List UInt8)
  isLE_trans := Std.TransOrd.isLE_trans (α := List UInt8)

instance : Std.LawfulEqOrd Name where
  compare_self := Std.ReflOrd.compare_self (α := List UInt8)
  eq_of_compare h := ext (utf8Bytes_inj.mp (Std.LawfulEqOrd.eq_of_compare h))

/-- The bytes of a text pass the check if and only if its characters follow the grammar of names,
and these texts are the ones that names are read from. What is read is written as it was, in JSON as
a string, and is read from nothing else. The order by bytes is a total one, in which no two names
are equal, and it is that of the characters by their code points. -/
theorem isValid_iff_and_reads_and_compares :
    (∀ s, isValid s = true ↔ Grammatical s.toList) ∧
      (∀ s, ReadsText s) ∧
      (∀ value name, ofJson? value = some name ↔ value = name.toJson) ∧
      Std.TransOrd Name ∧
      ∀ a b : Name, (compare a b = .eq ↔ a = b) ∧
        compare a b = compareChars a.text.toList b.text.toList :=
  ⟨fun _ => isValid_iff_grammatical, readsText, fun _ _ => ofJson?_eq_some_iff, inferInstance,
    fun a b => ⟨Std.LawfulEqOrd.compare_eq_iff_eq, compare_eq_compareChars a b⟩⟩

-- Both bytes of the second character are beyond those of names.
example : isValid "père" = false ∧ isValid "_2" = true ∧ isValid "2_" = false := by decide

end Name

end InputCoercion
