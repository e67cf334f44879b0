import ServerUi.Text.Utf8

/-! # The bytes of a text are read back

The symbols of the bytes of a text are its characters, with no stray byte among them.
-/

namespace ServerUi.Text

theorem scalar?_toNat (c : Char) : scalar? c.toNat = some c := by
  unfold scalar?
  rw [if_pos (show c.toNat.isValidChar from c.valid), Char.ofNat_toNat]

theorem not_lt_byte {a b : UInt8} (h : b.toNat ≤ a.toNat) : ¬ a < b :=
  fun hlt => Nat.not_lt.mpr h (UInt8.lt_iff_toNat_lt.mp hlt)

/-! ## One sequence

How a sequence is read, by the range of its first byte. -/

theorem leading?_one {a : UInt8} (ha : a.toNat < 0x80) (rest : List UInt8) :
    leading? (a :: rest) = (scalar? a.toNat).map (·, 0) := by
  have h : a < 0x80 := UInt8.lt_iff_toNat_lt.mpr ha
  simp only [leading?, if_pos h]

theorem leading?_two {a b : UInt8} (ha : 0xC2 ≤ a.toNat) (ha' : a.toNat < 0xE0)
    (hb : isContinuation b = true) (rest : List UInt8) :
    leading? (a :: b :: rest) = (scalar? (a.toNat % 32 * 64 + b.toNat % 64)).map (·, 1) := by
  have h1 : ¬ a < 0x80 := not_lt_byte (Nat.le_trans (by decide) ha)
  have h2 : ¬ a < 0xC2 := not_lt_byte (Nat.le_trans (by decide) ha)
  have h3 : a < 0xE0 := UInt8.lt_iff_toNat_lt.mpr ha'
  simp only [leading?, if_neg h1, if_neg h2, if_pos h3, if_pos hb]

theorem leading?_three {a b c : UInt8} (ha : 0xE0 ≤ a.toNat) (ha' : a.toNat < 0xF0)
    (hb : isContinuation b = true) (hc : isContinuation c = true)
    (hn : 0x800 ≤ a.toNat % 16 * 4096 + b.toNat % 64 * 64 + c.toNat % 64) (rest : List UInt8) :
    leading? (a :: b :: c :: rest) =
      (scalar? (a.toNat % 16 * 4096 + b.toNat % 64 * 64 + c.toNat % 64)).map (·, 2) := by
  have h1 : ¬ a < 0x80 := not_lt_byte (Nat.le_trans (by decide) ha)
  have h2 : ¬ a < 0xC2 := not_lt_byte (Nat.le_trans (by decide) ha)
  have h3 : ¬ a < 0xE0 := not_lt_byte (Nat.le_trans (by decide) ha)
  have h4 : a < 0xF0 := UInt8.lt_iff_toNat_lt.mpr ha'
  simp only [leading?, if_neg h1, if_neg h2, if_neg h3, if_pos h4, hb, hc, Bool.true_and,
    decide_eq_true hn, if_true]

theorem leading?_four {a b c d : UInt8} (ha : 0xF0 ≤ a.toNat) (ha' : a.toNat < 0xF5)
    (hb : isContinuation b = true) (hc : isContinuation c = true) (hd : isContinuation d = true)
    (hn : 0x10000 ≤
      a.toNat % 8 * 262144 + b.toNat % 64 * 4096 + c.toNat % 64 * 64 + d.toNat % 64)
    (rest : List UInt8) :
    leading? (a :: b :: c :: d :: rest) =
      (scalar? (a.toNat % 8 * 262144 + b.toNat % 64 * 4096 + c.toNat % 64 * 64
        + d.toNat % 64)).map (·, 3) := by
  have h1 : ¬ a < 0x80 := not_lt_byte (Nat.le_trans (by decide) ha)
  have h2 : ¬ a < 0xC2 := not_lt_byte (Nat.le_trans (by decide) ha)
  have h3 : ¬ a < 0xE0 := not_lt_byte (Nat.le_trans (by decide) ha)
  have h4 : ¬ a < 0xF0 := not_lt_byte (Nat.le_trans (by decide) ha)
  have h5 : a < 0xF5 := UInt8.lt_iff_toNat_lt.mpr ha'
  simp only [leading?, if_neg h1, if_neg h2, if_neg h3, if_neg h4, if_pos h5, hb, hc, hd,
    Bool.true_and, decide_eq_true hn, if_true]

/-! ## The sequence of a character -/

theorem toNat_byte {n : Nat} (h : n < 256) : (UInt8.ofNat n).toNat = n := by
  rw [UInt8.toNat_ofNat']
  omega

/-- The byte behind the first that holds six bits of a character. -/
theorem tail_byte (n : Nat) :
    isContinuation (UInt8.ofNat (n % 64 + 128)) = true ∧
      (UInt8.ofNat (n % 64 + 128)).toNat % 64 = n % 64 := by
  have hn := toNat_byte (show n % 64 + 128 < 256 by omega)
  constructor
  · simp only [isContinuation, Bool.and_eq_true, decide_eq_true_eq, UInt8.le_iff_toNat_le,
      UInt8.lt_iff_toNat_lt, hn]
    constructor
    · show 128 ≤ n % 64 + 128
      omega
    · show n % 64 + 128 < 192
      omega
  · rw [hn]
    omega

/-- One to four bytes, by the size of the code point; the bits taken apart go back together. -/
theorem leading?_utf8EncodeChar (c : Char) (rest : List UInt8) :
    leading? (String.utf8EncodeChar c ++ rest) =
      some (c, (String.utf8EncodeChar c).length - 1) := by
  -- without this bound the first of four bytes could be too large
  have bound : c.toNat < 1114112 := by
    rcases c.valid with h | h
    · exact Nat.lt_trans h (by decide)
    · exact h.2
  unfold String.utf8EncodeChar
  simp only [show c.val.toNat = c.toNat from rfl]
  by_cases h1 : c.toNat ≤ 127
  · simp only [if_pos h1, List.cons_append, List.nil_append]
    have ha := toNat_byte (show c.toNat < 256 by omega)
    rw [leading?_one (by omega), ha, scalar?_toNat]
    rfl
  by_cases h2 : c.toNat ≤ 2047
  · simp only [if_neg h1, if_pos h2, List.cons_append, List.nil_append]
    have ha := toNat_byte (show c.toNat / 64 % 32 + 192 < 256 by omega)
    obtain ⟨hb, hb'⟩ := tail_byte c.toNat
    rw [leading?_two (by omega) (by omega) hb, ha, hb',
      show (c.toNat / 64 % 32 + 192) % 32 * 64 + c.toNat % 64 = c.toNat by omega, scalar?_toNat]
    rfl
  by_cases h3 : c.toNat ≤ 65535
  · simp only [if_neg h1, if_neg h2, if_pos h3, List.cons_append, List.nil_append]
    have ha := toNat_byte (show c.toNat / 4096 % 16 + 224 < 256 by omega)
    obtain ⟨hb, hb'⟩ := tail_byte (c.toNat / 64)
    obtain ⟨hc, hc'⟩ := tail_byte c.toNat
    have whole : (c.toNat / 4096 % 16 + 224) % 16 * 4096 + c.toNat / 64 % 64 * 64
        + c.toNat % 64 = c.toNat := by omega
    rw [leading?_three (by omega) (by omega) hb hc (by rw [ha, hb', hc', whole]; omega), ha, hb',
      hc', whole, scalar?_toNat]
    rfl
  · simp only [if_neg h1, if_neg h2, if_neg h3, List.cons_append, List.nil_append]
    have ha := toNat_byte (show c.toNat / 262144 % 8 + 240 < 256 by omega)
    obtain ⟨hb, hb'⟩ := tail_byte (c.toNat / 4096)
    obtain ⟨hc, hc'⟩ := tail_byte (c.toNat / 64)
    obtain ⟨hd, hd'⟩ := tail_byte c.toNat
    have whole : (c.toNat / 262144 % 8 + 240) % 8 * 262144 + c.toNat / 4096 % 64 * 4096
        + c.toNat / 64 % 64 * 64 + c.toNat % 64 = c.toNat := by omega
    rw [leading?_four (by omega) (by omega) hb hc hd (by rw [ha, hb', hc', hd', whole]; omega),
      ha, hb', hc', hd', whole, scalar?_toNat]
    rfl

/-! ## Texts -/

theorem symbolsAfter_drop (skip : Nat) (bytes : List UInt8) :
    symbolsAfter skip bytes = symbolsAfter 0 (bytes.drop skip) := by
  induction skip generalizing bytes with
  | zero => rfl
  | succ skip ih =>
    cases bytes with
    | nil => simp [symbolsAfter]
    | cons b rest => simpa [symbolsAfter] using ih rest

theorem symbols_utf8EncodeChar (c : Char) (rest : List UInt8) :
    symbols (String.utf8EncodeChar c ++ rest) = .char c :: symbols rest := by
  have read := leading?_utf8EncodeChar c rest
  cases bytes : String.utf8EncodeChar c with
  | nil => exact absurd bytes String.utf8EncodeChar_ne_nil
  | cons b more =>
    rw [bytes] at read
    rw [List.cons_append] at read ⊢
    simp only [symbols, symbolsAfter, read]
    rw [symbolsAfter_drop]
    simp

theorem symbols_flatMap_utf8EncodeChar (cs : List Char) :
    symbols (cs.flatMap String.utf8EncodeChar) = cs.map .char := by
  induction cs with
  | nil => rfl
  | cons c cs ih => rw [List.flatMap_cons, symbols_utf8EncodeChar, ih, List.map_cons]

theorem toList_loop (bytes : ByteArray) (i : Nat) (read : List UInt8) :
    ByteArray.toList.loop bytes i read = read.reverse ++ bytes.data.toList.drop i := by
  fun_induction ByteArray.toList.loop bytes i read with
  | case1 i read hlt ih =>
    have next : bytes.data.toList.drop i = bytes.get! i :: bytes.data.toList.drop (i + 1) := by
      rw [List.drop_eq_getElem_cons (by simpa using hlt)]
      congr 1
      exact (getElem!_pos bytes.data i hlt).symm
    rw [ih, next, List.reverse_cons, List.append_assoc]
    rfl
  | case2 i read hlt =>
    have len : bytes.data.toList.length ≤ i := by simpa using Nat.le_of_not_lt hlt
    rw [List.drop_eq_nil_of_le len, List.append_nil]

theorem bytesOf_eq_flatMap (s : String) : bytesOf s = s.toList.flatMap String.utf8EncodeChar := by
  show s.toByteArray.toList = _
  rw [← String.utf8Encode_toList]
  exact (toList_loop _ 0 []).trans List.toList_data_toByteArray

/-- **Bytes and back.** The bytes of a text are read as its characters. -/
theorem symbols_bytesOf (s : String) : symbols (bytesOf s) = symbolsOf s := by
  rw [bytesOf_eq_flatMap, symbols_flatMap_utf8EncodeChar]
  rfl

end ServerUi.Text
