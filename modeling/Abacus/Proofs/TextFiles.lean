import Mathlib.Data.List.TakeWhile
import Abacus.Text.Utf8

/-!
# Texts in files

A text that is written to a file is read back. `Utf8.decode` inverts the encoding of every string, one
character at a time: the first byte of a character says how many go on with it, and each of these has six
bits of it. A text without carriage returns is left alone by the reading of line ends.
-/

namespace Abacus

/-! ## Bytes -/

theorem toList_loop (bytes : ByteArray) (i : Nat) (done : List UInt8) :
    ByteArray.toList.loop bytes i done = done.reverse ++ bytes.data.toList.drop i := by
  fun_induction ByteArray.toList.loop bytes i done with
  | case1 i done lt ih =>
    have inside : i < bytes.data.toList.length := lt
    have here : bytes.get! i = bytes.data.toList[i] := getElem!_pos bytes.data i lt
    rw [ih, List.drop_eq_getElem_cons inside, here]
    simp
  | case2 i done ge =>
    have outside : bytes.data.toList.length ≤ i := Nat.not_lt.1 ge
    rw [List.drop_eq_nil_of_le outside, List.append_nil]

theorem toList_toUTF8 (s : String) : s.toUTF8.toList = s.toList.flatMap String.utf8EncodeChar := by
  have bytes : s.toUTF8 = s.toList.utf8Encode := String.utf8Encode_toList.symm
  rw [bytes, ByteArray.toList, toList_loop]
  exact List.toList_data_toByteArray

namespace Utf8

theorem toNat_byte {n : Nat} (h : n < 0x100) : (UInt8.ofNat n).toNat = n := by
  rw [UInt8.toNat_ofNat', Nat.mod_eq_of_lt h]

theorem isContinuation_iff {b : UInt8} :
    isContinuation b = true ↔ 0x80 ≤ b.toNat ∧ b.toNat ≤ 0xBF := by
  simp [isContinuation, UInt8.le_iff_toNat_le]

/-- A byte with six bits of a character goes on with it. -/
theorem isContinuation_byte (v : Nat) : isContinuation (UInt8.ofNat (v % 0x40 + 0x80)) = true := by
  rw [isContinuation_iff, toNat_byte (by omega)]
  omega

/-- The second byte has a range of its own after four of the first bytes. -/
theorem isSecond_of {a b : UInt8} (goesOn : isContinuation b = true)
    (overlong : a.toNat = 0xE0 → 0xA0 ≤ b.toNat) (surrogate : a.toNat = 0xED → b.toNat < 0xA0)
    (longer : a.toNat = 0xF0 → 0x90 ≤ b.toNat) (above : a.toNat = 0xF4 → b.toNat < 0x90) :
    isSecond a b = true := by
  simp only [isSecond, goesOn, Bool.true_and, ← UInt8.toNat_inj, UInt8.le_iff_toNat_le,
    UInt8.lt_iff_toNat_lt]
  split
  · simpa using overlong ‹_›
  · split
    · simpa using surrogate ‹_›
    · split
      · simpa using longer ‹_›
      · split
        · simpa using above ‹_›
        · rfl

theorem length?_eq (b : UInt8) :
    length? b
      = if b.toNat < 0x80 then some 1
        else if 0xC2 ≤ b.toNat ∧ b.toNat ≤ 0xDF then some 2
        else if 0xE0 ≤ b.toNat ∧ b.toNat ≤ 0xEF then some 3
        else if 0xF0 ≤ b.toNat ∧ b.toNat ≤ 0xF4 then some 4
        else none := by
  simp [length?, UInt8.lt_iff_toNat_lt, UInt8.le_iff_toNat_le]

/-- The bytes of one character are read together. -/
theorem decodeFrom_append (position : Nat) (done : List Char) {first : UInt8} {tail : List UInt8}
    (rest : List UInt8) {c : Char} (size : length? first = some (tail.length + 1))
    (good : countGood first tail.length (tail ++ rest) = tail.length) (char : charOf first tail = c) :
    decodeFrom position done (first :: tail ++ rest)
      = decodeFrom (position + (first :: tail).length) (c :: done) rest := by
  rw [List.cons_append, decodeFrom, size]
  simp [good, char]

theorem countGood_append {first second : UInt8} {tail : List UInt8}
    (goes : isSecond first second = true) (goesOn : ∀ b ∈ tail, isContinuation b = true)
    (rest : List UInt8) :
    countGood first (second :: tail).length (second :: tail ++ rest) = (second :: tail).length := by
  rw [List.cons_append, List.length_cons, countGood, if_pos goes, List.take_left,
    List.takeWhile_eq_self_iff.2 goesOn, Nat.add_comm]

/-- The bytes of a character are decoded as that character. The four cases are the lengths that it can
have. -/
theorem decodeFrom_char (position : Nat) (done : List Char) (c : Char) (rest : List UInt8) :
    decodeFrom position done (String.utf8EncodeChar c ++ rest)
      = decodeFrom (position + (String.utf8EncodeChar c).length) (c :: done) rest := by
  have valid : c.val.toNat < 0xD800 ∨ 0xDFFF < c.val.toNat ∧ c.val.toNat < 0x110000 := c.valid
  have char {n : Nat} (h : n = c.toNat) : Char.ofNat n = c := by rw [h, Char.ofNat_toNat]
  have six (v : Nat) : (UInt8.ofNat (v % 0x40 + 0x80)).toNat = v % 0x40 + 0x80 := toNat_byte (by omega)
  fun_cases String.utf8EncodeChar c with
  | case1 v le =>
    have lead : (UInt8.ofNat v).toNat = v := toNat_byte (by omega)
    refine decodeFrom_append position done rest ?_ rfl (char lead)
    rw [length?_eq, lead, if_pos (by omega)]
    rfl
  | case2 v gt le =>
    have lead : (UInt8.ofNat (v / 64 % 0x20 + 0xc0)).toNat = v / 64 % 0x20 + 0xc0 := toNat_byte (by omega)
    refine decodeFrom_append position done rest ?_ (countGood_append ?_ ?_ rest) (char ?_)
    · rw [length?_eq, lead, if_neg (by omega), if_pos (by omega)]
      rfl
    · apply isSecond_of (isContinuation_byte v) <;> omega
    · exact List.forall_mem_nil _
    · simp only [List.length_cons, List.length_nil, List.foldl_cons, List.foldl_nil, lead, six]
      show _ = v
      omega
  | case3 v _ gt le =>
    have lead : (UInt8.ofNat (v / 4096 % 0x10 + 0xe0)).toNat = v / 4096 % 0x10 + 0xe0 :=
      toNat_byte (by omega)
    have second := six (v / 64)
    refine decodeFrom_append position done rest ?_ (countGood_append ?_ ?_ rest) (char ?_)
    · rw [length?_eq, lead, if_neg (by omega), if_neg (by omega), if_pos (by omega)]
      rfl
    · apply isSecond_of (isContinuation_byte (v / 64)) <;> omega
    · exact List.forall_mem_singleton.2 (isContinuation_byte v)
    · simp only [List.length_cons, List.length_nil, List.foldl_cons, List.foldl_nil, lead, six]
      show _ = v
      omega
  | case4 v _ _ gt =>
    have lead : (UInt8.ofNat (v / 262144 % 0x08 + 0xf0)).toNat = v / 262144 % 0x08 + 0xf0 :=
      toNat_byte (by omega)
    have second := six (v / 4096)
    refine decodeFrom_append position done rest ?_ (countGood_append ?_ ?_ rest) (char ?_)
    · rw [length?_eq, lead, if_neg (by omega), if_neg (by omega), if_neg (by omega), if_pos (by omega)]
      rfl
    · apply isSecond_of (isContinuation_byte (v / 4096)) <;> omega
    · exact List.forall_mem_cons.2
        ⟨isContinuation_byte (v / 64), List.forall_mem_singleton.2 (isContinuation_byte v)⟩
    · simp only [List.length_cons, List.length_nil, List.foldl_cons, List.foldl_nil, lead, six]
      show _ = v
      omega

theorem decodeFrom_flatMap (position : Nat) (done text : List Char) :
    decodeFrom position done (text.flatMap String.utf8EncodeChar) = .ok (done.reverse ++ text) := by
  induction text generalizing position done with
  | nil => rw [List.flatMap_nil, decodeFrom, List.append_nil]
  | cons c text ih =>
    rw [List.flatMap_cons, decodeFrom_char, ih, List.reverse_cons, List.append_assoc]
    rfl

theorem decode_toUTF8 (s : String) : decode s.toUTF8 = .ok s.toList := by
  rw [decode, toList_toUTF8, decodeFrom_flatMap]
  rfl

end Utf8

/-! ## Lines -/

theorem unifyLineEnds_of_not_mem {text : List Char} (h : '\r' ∉ text) : unifyLineEnds text = text := by
  fun_induction unifyLineEnds text with
  | case1 => exact absurd List.mem_cons_self h
  | case2 => exact absurd List.mem_cons_self h
  | case3 c rest _ _ ih => rw [ih fun mem => h (List.mem_cons_of_mem c mem)]
  | case4 => rfl

/-- A text without carriage returns is read from a file as it was written. -/
theorem readText_toUTF8 {s : String} (h : '\r' ∉ s.toList) : readText s.toUTF8 = .ok s.toList := by
  rw [readText, Utf8.decode_toUTF8]
  show Except.ok (unifyLineEnds s.toList) = _
  rw [unifyLineEnds_of_not_mem h]

end Abacus
