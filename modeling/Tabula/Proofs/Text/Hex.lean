import Tabula.Text.Hex

/-!
# Reading what was written as hexadecimal text

Every list of bytes is read back from its text in upper case, which holds two characters a byte,
each of one byte itself.
-/

namespace Tabula.Hex

theorem digitValue?_upperDigit {n : Nat} (h : n < 16) : digitValue? (upperDigit n) = some n := by
  revert n
  decide

theorem upperDigit_ne_plus {n : Nat} (h : n < 16) : upperDigit n ≠ '+' := by
  revert n
  decide

theorem utf8Size_upperDigit {n : Nat} (h : n < 16) : (upperDigit n).utf8Size = 1 := by
  revert n
  decide

theorem pair?_upperDigit (b : UInt8) :
    pair? (upperDigit (b.toNat / 16)) (upperDigit (b.toNat % 16)) = some b := by
  have hb := b.toNat_lt
  have hhigh : b.toNat / 16 < 16 := by omega
  have hlow : b.toNat % 16 < 16 := by omega
  have hsum : 16 * (b.toNat / 16) + b.toNat % 16 = b.toNat := by omega
  rw [pair?, if_neg (upperDigit_ne_plus hhigh), digitValue?_upperDigit hhigh,
    digitValue?_upperDigit hlow]
  change some (UInt8.ofNat (16 * (b.toNat / 16) + b.toNat % 16)) = some b
  rw [hsum, UInt8.ofNat_toNat]

theorem bytes?_upper (bytes : List UInt8) : bytes? (upper bytes).toList = some bytes := by
  rw [upper, String.toList_ofList]
  induction bytes with
  | nil => rfl
  | cons b bytes ih =>
    rw [List.flatMap_cons]
    simp only [List.cons_append, List.nil_append, bytes?, pair?_upperDigit, ih]
    rfl

theorem utf8ByteSize_upper (bytes : List UInt8) :
    (upper bytes).utf8ByteSize = 2 * bytes.length := by
  unfold upper
  induction bytes with
  | nil => rfl
  | cons b bytes ih =>
    have hb := b.toNat_lt
    have hhigh : b.toNat / 16 < 16 := by omega
    have hlow : b.toNat % 16 < 16 := by omega
    rw [List.flatMap_cons, String.ofList_append, String.utf8ByteSize_append, ih, String.ofList_cons,
      String.ofList_cons]
    simp only [String.utf8ByteSize_append, String.utf8ByteSize_singleton,
      utf8Size_upperDigit hhigh, utf8Size_upperDigit hlow, List.length_cons]
    have hempty : (String.ofList []).utf8ByteSize = 0 := rfl
    omega

end Tabula.Hex
