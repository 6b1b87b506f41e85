import DrillCycles.Text.Basic
import Mathlib.Tactic.Common

/-!
# Texts in UTF-8

A position in a text may be given as a number of bytes of its encoding.  Not every such number is
between two characters, so cutting a text at a position is partial here: where the position is inside
a character, or behind the end, there is no result.

* **`Text.bytes`** is the encoding, **`Text.size`** its length.
* **`Text.cut?`** cuts a text at a position, and `cut?_eq_some_iff` says when it can.  **`Text.slice?`**,
  **`Text.upTo?`** and **`Text.onwards?`** are the three ways to take a part of a text by positions.
* **`Text.offsets`** are the positions at which a pattern stands, from the left and without overlaps.

What a byte at the start of a character says about the character is needed for ASCII alone:
`head?_bytes_eq_some_iff` for a single character, and `takeWhile_isDigitByte_bytes` for digits.
-/

namespace DrillCycles.Text

variable {t front back piece rest : Text} {c a : Char} {i j n : ℕ}

/-- The bytes of a text. -/
def bytes (t : Text) : List UInt8 :=
  t.flatMap String.utf8EncodeChar

/-- The number of bytes of a text. -/
def size (t : Text) : ℕ :=
  t.bytes.length

@[simp] lemma bytes_nil : bytes [] = [] := rfl

lemma bytes_cons (c : Char) (t : Text) : bytes (c :: t) = String.utf8EncodeChar c ++ bytes t :=
  List.flatMap_cons

lemma bytes_append (t u : Text) : bytes (t ++ u) = bytes t ++ bytes u :=
  List.flatMap_append

@[simp] lemma size_nil : size [] = 0 := rfl

@[simp] lemma size_cons (c : Char) (t : Text) : size (c :: t) = c.utf8Size + size t := by
  rw [size, bytes_cons, List.length_append, String.length_utf8EncodeChar, size]

@[simp] lemma size_append (t u : Text) : size (t ++ u) = size t + size u := by
  rw [size, bytes_append, List.length_append, size, size]

lemma size_eq_zero_iff : size t = 0 ↔ t = [] := by
  cases t with
  | nil => simp
  | cons c t => simpa using fun h => absurd h (Nat.pos_iff_ne_zero.mp c.utf8Size_pos)

/-! ### Cutting at a position -/

/-- The two parts of a text before and behind a position. -/
def cut? : Text → ℕ → Option (Text × Text)
  | t, 0 => some ([], t)
  | [], _ + 1 => none
  | c :: t, n + 1 =>
    if c.utf8Size ≤ n + 1 then
      (cut? t (n + 1 - c.utf8Size)).map fun parts => (c :: parts.1, parts.2)
    else none

/-- The part of a text before a position. -/
def upTo? (t : Text) (j : ℕ) : Option Text :=
  (t.cut? j).map Prod.fst

/-- The part of a text behind a position. -/
def onwards? (t : Text) (i : ℕ) : Option Text :=
  (t.cut? i).map Prod.snd

/-- The part of a text between two positions. -/
def slice? (t : Text) (i j : ℕ) : Option Text := do
  let before ← t.upTo? j
  before.onwards? i

/-- A text is cut exactly at the ends of its characters. -/
theorem cut?_eq_some_iff : t.cut? n = some (front, back) ↔ t = front ++ back ∧ front.size = n := by
  induction t generalizing n front with
  | nil =>
      cases n with
      | zero =>
          simp only [cut?, Option.some.injEq, Prod.mk.injEq, List.nil_eq_append_iff, size_eq_zero_iff]
          tauto
      | succ n =>
          refine iff_of_false (by simp [cut?]) ?_
          rintro ⟨hnil, hsize⟩
          simp [(List.append_eq_nil_iff.mp hnil.symm).1] at hsize
  | cons c t ih =>
      cases n with
      | zero =>
          rw [cut?, Option.some.injEq, Prod.mk.injEq, size_eq_zero_iff]
          constructor
          · rintro ⟨rfl, rfl⟩
            exact ⟨rfl, rfl⟩
          · rintro ⟨h, rfl⟩
            exact ⟨rfl, h⟩
      | succ n =>
          rw [cut?]
          constructor
          · intro h
            split at h
            · next hle =>
                obtain ⟨⟨front', back'⟩, hcut, heq⟩ := Option.map_eq_some_iff.mp h
                obtain ⟨rfl, rfl⟩ := Prod.mk.inj heq
                obtain ⟨rfl, hsize⟩ := ih.mp hcut
                exact ⟨rfl, by rw [size_cons, hsize]; omega⟩
            · cases h
          · rintro ⟨heq, hsize⟩
            cases front with
            | nil => simp at hsize
            | cons d front =>
                obtain ⟨rfl, rfl⟩ := List.cons.inj heq
                rw [size_cons] at hsize
                rw [if_pos (by omega), ih.mpr ⟨rfl, by omega⟩]
                rfl

lemma cut?_append (front back : Text) : (front ++ back).cut? front.size = some (front, back) :=
  cut?_eq_some_iff.mpr ⟨rfl, rfl⟩

@[simp] lemma upTo?_append (front back : Text) : (front ++ back).upTo? front.size = some front := by
  rw [upTo?, cut?_append]
  rfl

@[simp] lemma onwards?_append (front back : Text) :
    (front ++ back).onwards? front.size = some back := by
  rw [onwards?, cut?_append]
  rfl

/-- A slice is there exactly when its two ends are ends of characters, in this order. -/
theorem slice?_eq_some_iff : t.slice? i j = some piece ↔
    ∃ front rest, t = front ++ piece ++ rest ∧ front.size = i ∧ (front ++ piece).size = j := by
  constructor
  · intro h
    obtain ⟨before, hbefore, hpiece⟩ := Option.bind_eq_some_iff.mp h
    obtain ⟨⟨before, rest⟩, hcut, rfl⟩ := Option.map_eq_some_iff.mp hbefore
    obtain ⟨⟨front, piece⟩, hfront, rfl⟩ := Option.map_eq_some_iff.mp hpiece
    obtain ⟨rfl, rfl⟩ := cut?_eq_some_iff.mp hcut
    obtain ⟨rfl, rfl⟩ := cut?_eq_some_iff.mp hfront
    exact ⟨front, rest, rfl, rfl, rfl⟩
  · rintro ⟨front, rest, rfl, rfl, rfl⟩
    rw [slice?, upTo?_append]
    exact onwards?_append front piece

lemma slice?_append (front piece rest : Text) :
    (front ++ piece ++ rest).slice? front.size (front.size + piece.size) = some piece :=
  slice?_eq_some_iff.mpr ⟨front, rest, rfl, rfl, size_append front piece⟩

/-! ### The byte at a position -/

lemma getElem?_bytes_append (front back : Text) :
    (front ++ back).bytes[front.size]? = back.bytes.head? := by
  rw [bytes_append, size, List.getElem?_append_right (Nat.le_refl _), Nat.sub_self, List.head?_eq_getElem?]

/-- A character of ASCII is one byte; no byte of another character is one of ASCII. -/
lemma exists_firstByte (c : Char) : ∃ first others, String.utf8EncodeChar c = first :: others ∧
    ((others = [] ∧ first.toNat = c.toNat) ∨ (128 ≤ c.toNat ∧ 128 ≤ first.toNat)) := by
  unfold String.utf8EncodeChar
  simp only [Char.toNat]
  split
  · refine ⟨_, _, rfl, Or.inl ⟨rfl, ?_⟩⟩
    rw [UInt8.toNat_ofNat', Nat.mod_eq_of_lt (by omega)]
  · split
    · exact ⟨_, _, rfl, Or.inr ⟨by omega, by rw [UInt8.toNat_ofNat']; omega⟩⟩
    · split
      · exact ⟨_, _, rfl, Or.inr ⟨by omega, by rw [UInt8.toNat_ofNat']; omega⟩⟩
      · exact ⟨_, _, rfl, Or.inr ⟨by omega, by rw [UInt8.toNat_ofNat']; omega⟩⟩

lemma toNat_toUInt8 (ha : a.toNat < 128) : a.toUInt8.toNat = a.toNat := by
  have hval : a.val.toNat = a.toNat := rfl
  rw [Char.toUInt8, UInt32.toNat_toUInt8, hval, Nat.mod_eq_of_lt (by omega)]

/-- A byte of ASCII at the start of a text is the encoding of its first character. -/
lemma head?_bytes_eq_some_iff (ha : a.toNat < 128) :
    t.bytes.head? = some a.toUInt8 ↔ t.head? = some a := by
  cases t with
  | nil => simp
  | cons c t =>
      obtain ⟨first, others, hencoded, hfirst⟩ := exists_firstByte c
      rw [bytes_cons, hencoded, List.cons_append, List.head?_cons, List.head?_cons, Option.some.injEq,
        Option.some.injEq, ← UInt8.toNat_inj, toNat_toUInt8 ha, ← Char.toNat_inj]
      omega

/-- Whether a byte is one of the ten digits. -/
def isDigitByte (b : UInt8) : Bool :=
  '0'.toUInt8 ≤ b && b ≤ '9'.toUInt8

lemma isDigitByte_iff {b : UInt8} : isDigitByte b = true ↔ 48 ≤ b.toNat ∧ b.toNat ≤ 57 := by
  rw [isDigitByte, Bool.and_eq_true, decide_eq_true_iff, decide_eq_true_iff, UInt8.le_iff_toNat_le,
    UInt8.le_iff_toNat_le]
  rfl

lemma isDigit_iff : c.isDigit = true ↔ 48 ≤ c.toNat ∧ c.toNat ≤ 57 := by
  rw [Char.isDigit, Bool.and_eq_true, decide_eq_true_iff, decide_eq_true_iff, ge_iff_le,
    UInt32.le_iff_toNat_le, UInt32.le_iff_toNat_le]
  rfl

/-- A digit is one byte, and a character that is no digit does not start with the byte of one. -/
lemma exists_firstByte_digit (c : Char) : ∃ first others,
    String.utf8EncodeChar c = first :: others ∧ isDigitByte first = c.isDigit ∧
      (c.isDigit = true → others = []) := by
  obtain ⟨first, others, hencoded, hfirst⟩ := exists_firstByte c
  refine ⟨first, others, hencoded, ?_, fun hdigit => ?_⟩
  · rw [Bool.eq_iff_iff, isDigitByte_iff, isDigit_iff]
    omega
  · have := isDigit_iff.mp hdigit
    exact (hfirst.resolve_right (by omega)).1

/-- Digits may be counted in the bytes. -/
lemma takeWhile_isDigitByte_bytes (t : Text) :
    t.bytes.takeWhile isDigitByte = bytes (t.takeWhile Char.isDigit) := by
  induction t with
  | nil => rfl
  | cons c t ih =>
      obtain ⟨first, others, hencoded, hbyte, hothers⟩ := exists_firstByte_digit c
      rw [bytes_cons, hencoded, List.cons_append, List.takeWhile_cons, List.takeWhile_cons, hbyte]
      cases hdigit : c.isDigit with
      | false => rfl
      | true =>
          rw [if_pos rfl, if_pos rfl, hothers hdigit, List.nil_append, ih, bytes_cons, hencoded,
            hothers hdigit, List.singleton_append]

/-- The number of digits that a list of bytes starts with. -/
def countDigits (bytes : List UInt8) : ℕ :=
  (bytes.takeWhile isDigitByte).length

lemma countDigits_bytes (t : Text) : countDigits t.bytes = size (t.takeWhile Char.isDigit) := by
  rw [countDigits, takeWhile_isDigitByte_bytes, size]

/-- The bytes behind a position. -/
def bytesOnwards? (t : Text) (i : ℕ) : Option (List UInt8) :=
  if i ≤ t.size then some (t.bytes.drop i) else none

lemma bytesOnwards?_append (front back : Text) :
    (front ++ back).bytesOnwards? front.size = some back.bytes := by
  rw [bytesOnwards?, if_pos (by simp), bytes_append, size, List.drop_left]

/-! ### Where a pattern stands -/

/-- The positions at which a pattern stands, counted from `offset`.  A match takes up its characters:
`skip` more characters are passed over before the next test. -/
def offsetsFrom (pattern : Text) (offset skip : ℕ) : Text → List ℕ
  | [] => []
  | c :: t =>
    match skip with
    | n + 1 => offsetsFrom pattern (offset + c.utf8Size) n t
    | 0 =>
      if pattern.isPrefixOf (c :: t) then
        offset :: offsetsFrom pattern (offset + c.utf8Size) (pattern.length - 1) t
      else offsetsFrom pattern (offset + c.utf8Size) 0 t

/-- The positions at which a pattern stands in a text, from the left and without overlaps. -/
def offsets (pattern t : Text) : List ℕ :=
  offsetsFrom pattern 0 0 t

/-- The accented letter takes two bytes, so no character ends behind the first byte. -/
example : offsets "aa".toList "éaaaéaa".toList = [2, 7] ∧
    slice? "éaaaéaa".toList 2 4 = some "aa".toList ∧ slice? "éaaaéaa".toList 1 4 = none := by
  decide +kernel

end DrillCycles.Text
