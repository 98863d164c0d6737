import Mathlib.Algebra.Group.Nat.Defs

/-!
# The bytes of a text

Texts are in order as lists of characters. In UTF-8 that is the order of their bytes too: a code
point is written as a lead byte, which is greater for more bytes, and its digits in base 64, so the
first byte in which two different code points differ is lower for the lower one. A character of
ASCII is its only byte, and no other character begins with a byte of ASCII.
-/

namespace Criteria.Text

/-- The bytes of a text in UTF-8. -/
def bytes (s : String) : List UInt8 := s.toUTF8.data.toList

/-- How many bytes a code point is written with behind the first. -/
def extraBytes (v : Nat) : Nat :=
  if v ≤ 127 then 0 else if v ≤ 2047 then 1 else if v ≤ 65535 then 2 else 3

/-- The first byte of a code point. -/
def leadByte (v : Nat) : Nat :=
  v / 64 ^ extraBytes v +
    if v ≤ 127 then 0 else if v ≤ 2047 then 192 else if v ≤ 65535 then 224 else 240

/-- The last `k` bytes of a code point. -/
def digitBytes : Nat → Nat → List UInt8
  | 0, _ => []
  | k + 1, v => UInt8.ofNat (v / 64 ^ k % 64 + 128) :: digitBytes k v

theorem leadByte_cases (v : Nat) :
    (v ≤ 127 ∧ extraBytes v = 0 ∧ leadByte v = v) ∨
      (127 < v ∧ v ≤ 2047 ∧ extraBytes v = 1 ∧ leadByte v = v / 64 + 192) ∨
      (2047 < v ∧ v ≤ 65535 ∧ extraBytes v = 2 ∧ leadByte v = v / 4096 + 224) ∨
      (65535 < v ∧ extraBytes v = 3 ∧ leadByte v = v / 262144 + 240) := by
  unfold leadByte extraBytes
  by_cases h₁ : v ≤ 127
  · simp [h₁]
  by_cases h₂ : v ≤ 2047
  · simp [h₁, h₂]
    omega
  by_cases h₃ : v ≤ 65535
  · simp [h₁, h₂, h₃]
    omega
  · simp [h₁, h₂, h₃]
    omega

theorem toNat_val_lt (c : Char) : c.val.toNat < 0x110000 := by
  have hvalid := c.valid
  simp only [UInt32.isValidChar, Nat.isValidChar] at hvalid
  omega

theorem utf8EncodeChar_eq (c : Char) :
    String.utf8EncodeChar c =
      UInt8.ofNat (leadByte c.val.toNat) :: digitBytes (extraBytes c.val.toNat) c.val.toNat := by
  have hmax := toNat_val_lt c
  unfold String.utf8EncodeChar
  generalize c.val.toNat = v at hmax
  dsimp only
  rcases leadByte_cases v with ⟨h, hextra, hlead⟩ | ⟨h, h', hextra, hlead⟩ |
    ⟨h, h', hextra, hlead⟩ | ⟨h, hextra, hlead⟩
  · rw [hextra, hlead, if_pos h]
    rfl
  · rw [hextra, hlead, if_neg (by omega), if_pos h', show v / 64 % 32 = v / 64 by omega]
    simp [digitBytes]
  · rw [hextra, hlead, if_neg (by omega), if_neg (by omega), if_pos h',
      show v / 4096 % 16 = v / 4096 by omega]
    simp [digitBytes]
  · rw [hextra, hlead, if_neg (by omega), if_neg (by omega), if_neg (by omega),
      show v / 262144 % 8 = v / 262144 by omega]
    simp [digitBytes]

theorem cons_lt_cons {m n : Nat} {x y : List UInt8} (hn : n < 256) (h : m < n ∨ m = n ∧ x < y) :
    UInt8.ofNat m :: x < UInt8.ofNat n :: y := by
  rw [List.cons_lt_cons_iff]
  rcases h with hlt | ⟨rfl, hrest⟩
  · left
    rw [UInt8.lt_iff_toNat_lt, UInt8.toNat_ofNat', UInt8.toNat_ofNat']
    omega
  · exact Or.inr ⟨rfl, hrest⟩

/-- Of two numbers that begin alike the lower one has the lower digits. -/
theorem digitBytes_lt {k v w : Nat} (hlt : v < w) (hbegin : v / 64 ^ k = w / 64 ^ k)
    (x y : List UInt8) : digitBytes k v ++ x < digitBytes k w ++ y := by
  induction k with
  | zero => simp at hbegin; omega
  | succ k ih =>
    rw [pow_succ, ← Nat.div_div_eq_div_mul, ← Nat.div_div_eq_div_mul] at hbegin
    have hle : v / 64 ^ k ≤ w / 64 ^ k := Nat.div_le_div_right (Nat.le_of_lt hlt)
    refine cons_lt_cons (by omega) ?_
    by_cases heq : v / 64 ^ k = w / 64 ^ k
    · exact Or.inr ⟨by rw [heq], ih heq⟩
    · exact Or.inl (by omega)

theorem leadByte_lt {v w : Nat} (hlt : v < w) (hmax : w < 0x110000) :
    leadByte v < leadByte w ∨
      leadByte v = leadByte w ∧ extraBytes v = extraBytes w ∧
        v / 64 ^ extraBytes v = w / 64 ^ extraBytes v := by
  rcases leadByte_cases v with ⟨h, hextra, hlead⟩ | ⟨h, h', hextra, hlead⟩ |
      ⟨h, h', hextra, hlead⟩ | ⟨h, hextra, hlead⟩ <;>
    rcases leadByte_cases w with ⟨k, kextra, klead⟩ | ⟨k, k', kextra, klead⟩ |
      ⟨k, k', kextra, klead⟩ | ⟨k, kextra, klead⟩ <;>
    rw [hextra, hlead, kextra, klead] <;> omega

theorem leadByte_lt_size (c : Char) : leadByte c.val.toNat < 256 := by
  have hmax := toNat_val_lt c
  rcases leadByte_cases c.val.toNat with h | h | h | h <;> omega

theorem utf8EncodeChar_lt {c d : Char} (h : c < d) (x y : List UInt8) :
    String.utf8EncodeChar c ++ x < String.utf8EncodeChar d ++ y := by
  have hlt : c.val.toNat < d.val.toNat := h
  have hmax := toNat_val_lt d
  rw [utf8EncodeChar_eq, utf8EncodeChar_eq, List.cons_append, List.cons_append]
  refine cons_lt_cons (leadByte_lt_size d) ?_
  rcases leadByte_lt hlt hmax with hlead | ⟨hlead, hextra, hbegin⟩
  · exact Or.inl hlead
  · rw [← hextra]
    exact Or.inr ⟨hlead, digitBytes_lt hlt hbegin x y⟩

theorem bytes_eq (s : String) : bytes s = s.toList.flatMap String.utf8EncodeChar := by
  rw [bytes, String.toUTF8, ← String.utf8Encode_toList, List.utf8Encode, List.data_toByteArray]

/-- Texts in order have their bytes in order. -/
theorem bytes_lt {s t : String} (h : s < t) : bytes s < bytes t := by
  have hchars : s.toList < t.toList := h
  rw [bytes_eq, bytes_eq]
  generalize s.toList = cs at hchars
  generalize t.toList = ds at hchars
  induction cs generalizing ds with
  | nil =>
    cases ds with
    | nil => exact absurd hchars (List.not_lt_nil _)
    | cons d ds =>
      rw [List.flatMap_nil, List.flatMap_cons, utf8EncodeChar_eq, List.cons_append]
      exact List.nil_lt_cons _ _
  | cons c cs ih =>
    cases ds with
    | nil => exact absurd hchars (List.not_lt_nil _)
    | cons d ds =>
      rw [List.flatMap_cons, List.flatMap_cons]
      rcases List.cons_lt_cons_iff.mp hchars with hlt | ⟨rfl, hrest⟩
      · exact utf8EncodeChar_lt hlt _ _
      · exact List.append_left_lt (ih ds hrest)

/-! ## Characters of ASCII -/

theorem bytes_append (front back : String) : bytes (front ++ back) = bytes front ++ bytes back := by
  rw [bytes_eq, bytes_eq, bytes_eq, String.toList_append, List.flatMap_append]

theorem utf8EncodeChar_ascii {c : Char} (h : c.val.toNat ≤ 127) :
    String.utf8EncodeChar c = [UInt8.ofNat c.val.toNat] := by
  rw [utf8EncodeChar_eq]
  rcases leadByte_cases c.val.toNat with ⟨-, hextra, hlead⟩ | h' | h' | h'
  · rw [hextra, hlead]
    rfl
  · omega
  · omega
  · omega

/-- A fact about all characters of ASCII is a fact about their numbers. -/
theorem forall_ascii {p : Char → Prop} (h : ∀ n < 128, p (Char.ofNat n)) {c : Char}
    (hc : c.toNat < 128) : p c := by
  have hp := h c.toNat hc
  rwa [Char.ofNat_toNat] at hp

/-- The first byte of a character outside of ASCII is outside of ASCII. -/
theorem le_leadByte {v : Nat} (h : 127 < v) : 192 ≤ leadByte v := by
  rcases leadByte_cases v with h' | h' | h' | h'
  · omega
  · omega
  · omega
  · omega

/-- A text begins with a byte of ASCII only if it begins with that character. -/
theorem head?_bytes_eq_iff {s : String} {c : Char} (hc : c.val.toNat ≤ 127) :
    (bytes s).head? = some (UInt8.ofNat c.val.toNat) ↔ s.toList.head? = some c := by
  rw [bytes_eq]
  cases s.toList with
  | nil => simp
  | cons d ds =>
    rw [List.flatMap_cons, utf8EncodeChar_eq, List.cons_append, List.head?_cons, List.head?_cons,
      Option.some.injEq, Option.some.injEq, ← UInt8.toNat_inj, UInt8.toNat_ofNat',
      UInt8.toNat_ofNat', ← Char.val_inj, ← UInt32.toNat_inj]
    have hbyte := leadByte_lt_size d
    rcases leadByte_cases d.val.toNat with h | h | h | h
    · omega
    · omega
    · omega
    · omega

/-! ## Cutting at a byte -/

/-- The two parts of a text around a byte of its UTF-8, if the byte is not inside a character or
beyond the end. -/
def cutAt? (s : String) (byte : Nat) : Option (String × String) :=
  if h : (String.Pos.Raw.mk byte).IsValid s then
    some ((s.sliceTo (s.pos ⟨byte⟩ h)).copy, (s.sliceFrom (s.pos ⟨byte⟩ h)).copy)
  else none

theorem cutAt?_append (front back : String) :
    cutAt? (front ++ back) front.utf8ByteSize = some (front, back) := by
  have hvalid : (String.Pos.Raw.mk front.utf8ByteSize).IsValid (front ++ back) :=
    String.Pos.Raw.isValid_iff_exists_append.mpr ⟨front, back, rfl, rfl⟩
  have hsplits : ((front ++ back).pos ⟨front.utf8ByteSize⟩ hvalid).Splits front back := ⟨rfl, rfl⟩
  simp only [cutAt?, hvalid, ↓reduceDIte]
  rw [hsplits.copy_sliceTo_eq, hsplits.copy_sliceFrom_eq]

example : cutAt? "naïve" 4 = some ("naï", "ve") := by decide +kernel

example : cutAt? "naïve" 3 = none := by decide +kernel

end Criteria.Text
