import Tabula.Calendar.Instant
import Tabula.Proofs.Except
import Mathlib.Algebra.Group.Nat.Defs

/-!
# Digits

A number is written with a fixed number of digits at least. Reading that many digits gives it back,
whatever comes after them, and nothing is read where there is no digit.
-/

namespace Tabula.Instant

/-- The bytes of characters. -/
def bytes (cs : List Char) : List UInt8 :=
  cs.flatMap String.utf8EncodeChar

theorem bytes_append (cs ds : List Char) : bytes (cs ++ ds) = bytes cs ++ bytes ds :=
  List.flatMap_append

theorem bytes_cons (c : Char) (cs : List Char) :
    bytes (c :: cs) = String.utf8EncodeChar c ++ bytes cs :=
  rfl

/-! ## Digits as bytes -/

theorem utf8EncodeChar_of_isDigit {c : Char} (h : c.isDigit) :
    String.utf8EncodeChar c = [UInt8.ofNat c.toNat] := by
  obtain ⟨-, hle⟩ := Char.isDigit_iff_toNat.1 h
  have hascii : c.val.toNat ≤ 127 := Nat.le_trans hle (by decide)
  rw [String.utf8EncodeChar]
  exact if_pos hascii

theorem bytes_of_isDigit {cs : List Char} (h : ∀ c ∈ cs, c.isDigit) :
    bytes cs = cs.map fun c => UInt8.ofNat c.toNat := by
  rw [bytes, List.flatMap_congr fun c hc => utf8EncodeChar_of_isDigit (h c hc)]
  exact List.map_eq_flatMap.symm

theorem toNat_of_isDigit {c : Char} (h : c.isDigit) : (UInt8.ofNat c.toNat).toNat = c.toNat := by
  obtain ⟨-, hle⟩ := Char.isDigit_iff_toNat.1 h
  have hnine : '9'.toNat = 57 := rfl
  rw [UInt8.toNat_ofNat']
  omega

theorem isDigit_ofNat {c : Char} (h : c.isDigit) : isDigit (UInt8.ofNat c.toNat) = true := by
  simp only [isDigit, Bool.and_eq_true, decide_eq_true_eq, UInt8.le_iff_toNat_le,
    toNat_of_isDigit h]
  exact Char.isDigit_iff_toNat.1 h

theorem digitValue_ofNat {c : Char} (h : c.isDigit) :
    digitValue (UInt8.ofNat c.toNat) = c.toNat - '0'.toNat := by
  rw [digitValue, toNat_of_isDigit h]
  rfl

theorem isDigit_of_mem_bytes {cs : List Char} (h : ∀ c ∈ cs, c.isDigit) :
    ∀ b ∈ bytes cs, isDigit b = true := by
  rw [bytes_of_isDigit h, List.forall_mem_map]
  exact fun c hc => isDigit_ofNat (h c hc)

theorem length_bytes {cs : List Char} (h : ∀ c ∈ cs, c.isDigit) :
    (bytes cs).length = cs.length := by
  rw [bytes_of_isDigit h, List.length_map]

theorem foldl_bytes {cs : List Char} (h : ∀ c ∈ cs, c.isDigit) (v : Nat) :
    (bytes cs).foldl (fun v d => 10 * v + digitValue d) v = Nat.ofDigitChars 10 cs v := by
  rw [bytes_of_isDigit h, List.foldl_map]
  induction cs generalizing v with
  | nil => rfl
  | cons c cs ih =>
    obtain ⟨hc, hcs⟩ := List.forall_mem_cons.1 h
    rw [List.foldl_cons, digitValue_ofNat hc, Nat.ofDigitChars_cons, ih hcs]

/-! ## Padded numbers -/

section Padded

variable {width n : Nat}

theorem isDigit_of_mem_padded (width n : Nat) : ∀ c ∈ padded width n, c.isDigit := by
  intro c hc
  rcases List.mem_append.1 hc with hc | hc
  · rw [List.eq_of_mem_replicate hc]
    decide
  · exact Nat.isDigit_of_mem_toDigits (by omega) (by omega) hc

theorem ofDigitChars_padded (width n : Nat) : Nat.ofDigitChars 10 (padded width n) 0 = n := by
  rw [padded, Nat.ofDigitChars_append, Nat.ofDigitChars_replicate_zero, Nat.mul_zero,
    Nat.ofDigitChars_ten_toDigits]

theorem le_length_padded (width n : Nat) : width ≤ (bytes (padded width n)).length := by
  rw [length_bytes (isDigit_of_mem_padded width n), padded, List.length_append,
    List.length_replicate]
  omega

theorem length_padded (hpos : 0 < width) (h : n < 10 ^ width) :
    (bytes (padded width n)).length = width := by
  have hle := (Nat.length_toDigits_le_iff (by omega) hpos).2 h
  rw [length_bytes (isDigit_of_mem_padded width n), padded, List.length_append,
    List.length_replicate]
  omega

theorem foldl_padded (width n : Nat) :
    (bytes (padded width n)).foldl (fun v d => 10 * v + digitValue d) 0 = n := by
  rw [foldl_bytes (isDigit_of_mem_padded width n), ofDigitChars_padded]

/-- A number is read back from its digits. -/
theorem digits_padded (hpos : 0 < width) (h : n < 10 ^ width) (rest : List UInt8) :
    digits width (bytes (padded width n) ++ rest) = .ok (n, rest) := by
  have hlength := length_padded hpos h
  have hall := List.all_eq_true.2 (isDigit_of_mem_bytes (isDigit_of_mem_padded width n))
  dsimp only [digits]
  rw [List.take_left' hlength, List.drop_left' hlength, if_pos ⟨hlength, hall⟩, foldl_padded]

/-- The milliseconds are read back from three digits behind a point. -/
theorem fraction_padded (h : n < 1000) (rest : List UInt8) :
    fraction (46 :: (bytes (padded 3 n) ++ 90 :: rest)) = .ok (n, 90 :: rest) := by
  have hlength : (bytes (padded 3 n)).length = 3 := length_padded (by omega) h
  have hall := isDigit_of_mem_bytes (isDigit_of_mem_padded 3 n)
  have hvalue := foldl_padded 3 n
  have hend : ¬isDigit 90 = true := by decide
  cases hbytes : bytes (padded 3 n) with
  | nil =>
    rw [hbytes] at hlength
    cases hlength
  | cons b bs =>
    rw [hbytes] at hlength hall hvalue
    rw [List.cons_append, fraction, if_pos (hall b List.mem_cons_self), ← List.cons_append,
      List.takeWhile_append_of_pos hall, List.dropWhile_append_of_pos hall,
      List.takeWhile_cons_of_neg hend, List.dropWhile_cons_of_neg hend, List.append_nil,
      List.take_of_length_le (Nat.le_of_eq hlength)]
    dsimp only
    rw [hvalue, hlength, Nat.sub_self, Nat.pow_eq, Nat.pow_zero, Nat.mul_one]

end Padded

/-! ## What digits say -/

theorem digits_of_not_isDigit {n : Nat} (hpos : 0 < n) {b : UInt8} (h : isDigit b = false)
    (rest : List UInt8) : digits n (b :: rest) = .error .invalid := by
  obtain ⟨n, rfl⟩ := Nat.exists_eq_succ_of_ne_zero (Nat.ne_of_gt hpos)
  dsimp only [digits]
  rw [if_neg]
  rintro ⟨-, hall⟩
  rw [List.take_succ_cons, List.all_cons, h] at hall
  cases hall

theorem digitValue_lt {b : UInt8} (h : isDigit b = true) : digitValue b < 10 := by
  simp only [isDigit, Bool.and_eq_true, decide_eq_true_eq, UInt8.le_iff_toNat_le] at h
  have hnine : (57 : UInt8).toNat = 57 := rfl
  unfold digitValue
  omega

theorem foldl_lt {ds : List UInt8} (h : ∀ d ∈ ds, isDigit d = true) (v : Nat) :
    ds.foldl (fun v d => 10 * v + digitValue d) v < (v + 1) * 10 ^ ds.length := by
  induction ds generalizing v with
  | nil => simp
  | cons d ds ih =>
    obtain ⟨hd, hds⟩ := List.forall_mem_cons.1 h
    have hvalue := digitValue_lt hd
    calc (d :: ds).foldl (fun v d => 10 * v + digitValue d) v
        = ds.foldl (fun v d => 10 * v + digitValue d) (10 * v + digitValue d) := rfl
      _ < (10 * v + digitValue d + 1) * 10 ^ ds.length := ih hds _
      _ ≤ (v + 1) * 10 * 10 ^ ds.length := Nat.mul_le_mul_right _ (by omega)
      _ = (v + 1) * 10 ^ (ds.length + 1) := by rw [Nat.mul_assoc, Nat.pow_succ']

theorem lt_of_digits {n v : Nat} {bs rest : List UInt8} (h : digits n bs = .ok (v, rest)) :
    v < 10 ^ n := by
  dsimp only [digits] at h
  split at h
  · rename_i hds
    obtain ⟨hlength, hall⟩ := hds
    cases h
    have hlt := foldl_lt (List.all_eq_true.1 hall) 0
    rwa [hlength, Nat.zero_add, Nat.one_mul] at hlt
  · cases h

theorem lt_of_fraction {bs rest : List UInt8} {millis : Nat}
    (h : fraction bs = .ok (millis, rest)) : millis < 1000 := by
  unfold fraction at h
  split at h
  · split at h
    · cases h
    · rename_i b bs
      dsimp only at h
      split at h
      · cases h
        generalize hds : ((b :: bs).takeWhile isDigit).take 3 = ds
        have hle : ds.length ≤ 3 := hds ▸ List.length_take_le _ _
        have hall : ∀ d ∈ ds, isDigit d = true := by
          rw [← hds]
          exact fun d hd => List.all_eq_true.1 List.all_takeWhile d (List.mem_of_mem_take hd)
        have hlt := foldl_lt hall 0
        rw [Nat.zero_add, Nat.one_mul] at hlt
        calc ds.foldl (fun v d => 10 * v + digitValue d) 0 * 10 ^ (3 - ds.length)
            < 10 ^ ds.length * 10 ^ (3 - ds.length) :=
              Nat.mul_lt_mul_of_pos_right hlt (Nat.pow_pos (by omega))
          _ = 1000 := by rw [← Nat.pow_add, Nat.add_sub_cancel' hle]
      · cases h
  · cases h
    omega

end Tabula.Instant
