import Tabula.Proofs.Double.Whole
import Tabula.Value.Literal

/-!
# Numerals

A number in SQL: a sign if it is negative, digits, and a point with more digits behind it if there
is a fraction. The store takes a numeral without a point for an integer as long as 64 bits hold it,
and any other one for the nearest double. The text of a double is the numeral of its shortest
decimal.
-/

namespace Tabula

open Double (Decimal)

/-- A number as its text has it. -/
structure Numeral where
  negative : Bool
  whole : List Char
  /-- The digits behind the point, if there is one. -/
  fraction : Option (List Char)
deriving DecidableEq

namespace Numeral

/-! ## Texts -/

def text (n : Numeral) : List Char :=
  (if n.negative then ['-'] else []) ++ n.whole ++
    (match n.fraction with | some digits => '.' :: digits | none => [])

/-- There are digits before the point, and nothing but digits on both sides of it. -/
structure Proper (n : Numeral) : Prop where
  nonempty : n.whole ≠ []
  whole : ∀ c ∈ n.whole, c.isDigit
  fraction : ∀ digits, n.fraction = some digits → ∀ c ∈ digits, c.isDigit

/-- Reads what stands behind the sign. -/
def readUnsigned? (negative : Bool) (cs : List Char) : Option Numeral :=
  let whole := cs.takeWhile Char.isDigit
  if whole = [] then none
  else match cs.dropWhile Char.isDigit with
    | [] => some ⟨negative, whole, none⟩
    | c :: digits =>
      if c = '.' ∧ digits.all Char.isDigit then some ⟨negative, whole, some digits⟩ else none

/-- The numeral of a text. -/
def read? : List Char → Option Numeral
  | [] => none
  | c :: cs => if c = '-' then readUnsigned? true cs else readUnsigned? false (c :: cs)

variable {n : Numeral} {d : Decimal} {negative : Bool}

theorem readUnsigned?_eq (h : n.Proper) : readUnsigned? n.negative
    (n.whole ++ match n.fraction with | some digits => '.' :: digits | none => []) = some n := by
  obtain ⟨negative, whole, fraction⟩ := n
  obtain ⟨hnonempty, hwhole, hfraction⟩ := h
  cases fraction with
  | none =>
    have htake : (whole ++ []).takeWhile Char.isDigit = whole := by
      rw [List.takeWhile_append_of_pos hwhole, List.takeWhile_nil, List.append_nil]
    have hdrop : (whole ++ []).dropWhile Char.isDigit = [] := by
      rw [List.dropWhile_append_of_pos hwhole, List.dropWhile_nil]
    simp only [readUnsigned?, htake, hdrop, if_neg hnonempty]
  | some digits =>
    have htake : (whole ++ '.' :: digits).takeWhile Char.isDigit = whole := by
      rw [List.takeWhile_append_of_pos hwhole, List.takeWhile_cons_of_neg (by decide),
        List.append_nil]
    have hdrop : (whole ++ '.' :: digits).dropWhile Char.isDigit = '.' :: digits := by
      rw [List.dropWhile_append_of_pos hwhole, List.dropWhile_cons_of_neg (by decide)]
    have hdigits : digits.all Char.isDigit := List.all_eq_true.2 (hfraction digits rfl)
    simp only [readUnsigned?, htake, hdrop, if_neg hnonempty]
    rw [hdigits, if_pos ⟨trivial, rfl⟩]

theorem read?_text (h : n.Proper) : read? n.text = some n := by
  have hunsigned := readUnsigned?_eq h
  rw [text]
  cases hnegative : n.negative with
  | true =>
    rw [hnegative] at hunsigned
    exact hunsigned
  | false =>
    rw [hnegative] at hunsigned
    obtain ⟨c, cs, hcs⟩ := List.exists_cons_of_ne_nil h.nonempty
    have hc : c ≠ '-' := by
      rintro rfl
      exact absurd (h.whole '-' (hcs ▸ List.mem_cons_self)) (by decide)
    rw [if_neg Bool.false_ne_true, List.nil_append]
    rw [hcs] at hunsigned ⊢
    exact (if_neg hc).trans hunsigned

theorem text_inj {m : Numeral} (hn : n.Proper) (hm : m.Proper) : n.text = m.text ↔ n = m := by
  constructor
  · intro h
    have hread := congrArg read? h
    rw [read?_text hn, read?_text hm] at hread
    exact Option.some_inj.1 hread
  · rintro rfl
    rfl

/-- A numeral begins with its sign or with a digit. -/
theorem head_text (h : n.Proper) : ∃ c cs, n.text = c :: cs ∧ (c = '-' ∨ c.isDigit) := by
  rw [text]
  cases n.negative with
  | true => exact ⟨'-', _, rfl, .inl rfl⟩
  | false =>
    obtain ⟨c, cs, hcs⟩ := List.exists_cons_of_ne_nil h.nonempty
    refine ⟨c, _, by rw [hcs]; rfl, .inr (h.whole c ?_)⟩
    rw [hcs]
    exact List.mem_cons_self

/-! ## Meaning -/

/-- The number without sign and point. -/
def digits (n : Numeral) : Nat :=
  Nat.ofDigitChars 10 (n.whole ++ n.fraction.getD []) 0

/-- The number without sign. -/
def decimal (n : Numeral) : Decimal where
  digits := n.digits
  exponent := -((n.fraction.getD []).length : Int)

/-- The double that is read. -/
def double (n : Numeral) : Double :=
  Double.ofDecimal n.negative n.decimal.digits n.decimal.exponent

/-- The integer without a point. -/
def int (n : Numeral) : Int :=
  if n.negative then -(n.digits : Int) else n.digits

/-- What the store takes the numeral for. -/
def value (n : Numeral) : Value :=
  if n.fraction = none ∧ -2 ^ 63 ≤ n.int ∧ n.int < 2 ^ 63 then .integer (Int64.ofInt n.int)
  else .real n.double

/-! ## Integers -/

/-- The numeral of an integer. -/
def ofInt (i : Int) : Numeral where
  negative := decide (i < 0)
  whole := Nat.toDigits 10 i.natAbs
  fraction := none

theorem isDigit_toDigits {m : Nat} : ∀ c ∈ Nat.toDigits 10 m, c.isDigit :=
  fun _ => Nat.isDigit_of_mem_toDigits (by decide) (by decide)

theorem isDigit_replicate {k : Nat} : ∀ c ∈ List.replicate k '0', c.isDigit := by
  intro c hc
  rw [List.eq_of_mem_replicate hc]
  decide

theorem proper_ofInt (i : Int) : (ofInt i).Proper where
  nonempty := Nat.toDigits_ne_nil
  whole := isDigit_toDigits
  fraction := nofun

theorem text_ofInt (i : Int) : (toString i).toList = (ofInt i).text := by
  cases i with
  | ofNat m =>
    have hsign : ¬(Int.ofNat m < 0) := Int.not_lt.2 (Int.natCast_nonneg m)
    rw [text, ofInt, decide_eq_false hsign, if_neg Bool.false_ne_true, List.nil_append,
      List.append_nil]
    exact Nat.toList_repr
  | negSucc m =>
    have hsign : Int.negSucc m < 0 := Int.negSucc_lt_zero m
    rw [text, ofInt, decide_eq_true hsign, if_pos rfl, List.append_nil]
    change ("-" ++ Nat.repr (m + 1)).toList = _
    rw [String.toList_append, Nat.toList_repr]
    rfl

theorem digits_ofInt (i : Int) : (ofInt i).digits = i.natAbs := by
  rw [digits, ofInt, Option.getD_none, List.append_nil]
  exact Nat.ofDigitChars_ten_toDigits

theorem int_ofInt (i : Int) : (ofInt i).int = i := by
  rw [int, digits_ofInt]
  have hnegative : (ofInt i).negative = decide (i < 0) := rfl
  rw [hnegative]
  split_ifs with hsign <;> simp only [decide_eq_true_eq] at hsign <;> omega

theorem value_ofInt (i : Int64) : (ofInt i.toInt).value = .integer i := by
  have hrange : -2 ^ 63 ≤ i.toInt ∧ i.toInt < 2 ^ 63 := ⟨i.le_toInt, i.toInt_lt⟩
  rw [value, int_ofInt, if_pos ⟨rfl, hrange⟩, Int64.ofInt_toInt]

/-! ## Decimals -/

/-- Zeros behind the digits multiply by a power of ten. -/
theorem toDigits_mul_pow {m : Nat} (hm : 0 < m) (k : Nat) :
    Nat.toDigits 10 (m * 10 ^ k) = Nat.toDigits 10 m ++ List.replicate k '0' := by
  induction k with
  | zero => rw [Nat.pow_zero, Nat.mul_one, List.replicate_zero, List.append_nil]
  | succ k ih =>
    have hpos : 0 < m * 10 ^ k := Nat.mul_pos hm (Nat.pow_pos (by decide))
    have hlast := Nat.toDigits_append_toDigits (b := 10) (d := 0) (by decide) hpos (by decide)
    have hzero : Nat.toDigits 10 0 = ['0'] := rfl
    rw [Nat.add_zero, ih, hzero, List.append_assoc, ← List.replicate_succ'] at hlast
    rw [hlast, Nat.pow_succ, ← Nat.mul_assoc, Nat.mul_comm 10]

/-- The numeral of a decimal. -/
def ofDecimal (negative : Bool) (d : Decimal) : Numeral :=
  let digits := Nat.toDigits 10 d.digits
  let places := d.exponent + digits.length
  if places ≤ 0 then ⟨negative, ['0'], some (List.replicate (-places).toNat '0' ++ digits)⟩
  else if digits.length ≤ places.toNat then
    ⟨negative, digits ++ List.replicate (places.toNat - digits.length) '0', none⟩
  else ⟨negative, digits.take places.toNat, some (digits.drop places.toNat)⟩

theorem negative_ofDecimal : (ofDecimal negative d).negative = negative := by
  dsimp only [ofDecimal]
  split_ifs <;> rfl

theorem proper_ofDecimal : (ofDecimal negative d).Proper := by
  have hdigits := isDigit_toDigits (m := d.digits)
  dsimp only [ofDecimal]
  split_ifs with hsmall hwhole
  · refine ⟨nofun, by simp, ?_⟩
    rintro _ ⟨rfl⟩ c hc
    exact (List.mem_append.1 hc).elim (isDigit_replicate c) (hdigits c)
  · refine ⟨by simp, ?_, nofun⟩
    intro c hc
    exact (List.mem_append.1 hc).elim (hdigits c) (isDigit_replicate c)
  · refine ⟨?_, fun c hc => hdigits c (List.mem_of_mem_take hc), ?_⟩
    · simp only [ne_eq, List.take_eq_nil_iff, not_or]
      exact ⟨by omega, Nat.toDigits_ne_nil⟩
    · rintro _ ⟨rfl⟩ c hc
      exact hdigits c (List.mem_of_mem_drop hc)

theorem text_ofDecimal : (ofDecimal negative d).text = (if negative then ['-'] else []) ++
    Double.positional false (Nat.toDigits 10 d.digits)
      (d.exponent + (Nat.toDigits 10 d.digits).length) := by
  simp only [ofDecimal, Double.positional, Bool.false_eq_true, ↓reduceIte, List.append_nil]
  split_ifs <;> simp [text, *]

/-- A numeral has a point if the decimal has a fraction. -/
theorem fraction_ofDecimal : (ofDecimal negative d).fraction = none ↔ 0 ≤ d.exponent := by
  have hlength : 0 < (Nat.toDigits 10 d.digits).length := Nat.length_toDigits_pos
  dsimp only [ofDecimal]
  split_ifs with hsmall hwhole
  · exact iff_of_false nofun (by omega)
  · exact iff_of_true rfl (by omega)
  · exact iff_of_false nofun (by omega)

/-- A numeral stands for its decimal. -/
theorem decimal_ofDecimal :
    (ofDecimal negative d).decimal = if 0 ≤ d.exponent then ⟨d.whole, 0⟩ else d := by
  have hread : Nat.ofDigitChars 10 (Nat.toDigits 10 d.digits) 0 = d.digits :=
    Nat.ofDigitChars_ten_toDigits
  have hlength : 0 < (Nat.toDigits 10 d.digits).length := Nat.length_toDigits_pos
  dsimp only [ofDecimal]
  split_ifs with hsmall hexponent hwhole hexponent hexponent
  · omega
  · rw [decimal, digits, Option.getD_some, List.singleton_append, ← List.cons_append,
      ← List.replicate_succ, Nat.ofDigitChars_append, Nat.ofDigitChars_replicate_zero,
      Nat.mul_zero, hread, List.length_append, List.length_replicate]
    congr 1
    omega
  · rw [decimal, digits, Option.getD_none, List.append_nil, Nat.ofDigitChars_append,
      Nat.ofDigitChars_replicate_zero, hread, Decimal.whole, Nat.mul_comm]
    congr 3
    omega
  · omega
  · omega
  · rw [decimal, digits, Option.getD_some, List.take_append_drop, hread, List.length_drop]
    congr 1
    omega

theorem value_decimal_ofDecimal : (ofDecimal negative d).decimal.value = d.value := by
  rw [decimal_ofDecimal]
  split_ifs with hexponent
  · rw [← Decimal.cast_whole hexponent, Decimal.value, zpow_zero, mul_one]
  · rfl

end Numeral

/-! ## Doubles -/

namespace Double.Finite

variable {x : Finite}

/-- The numeral that a double is written as. -/
def numeral (x : Finite) : Numeral :=
  .ofDecimal x.negative (x.shortest .up)

theorem proper_numeral (x : Finite) : x.numeral.Proper :=
  Numeral.proper_ofDecimal

theorem text_numeral (x : Finite) : (finite x).plain.toList = x.numeral.text := by
  have hlayout : Layout.plain.scientific = fun _ => false := rfl
  rw [plain, render, String.toList_ofList, numeral, Numeral.text_ofDecimal, hlayout]
  dsimp only
  rw [if_neg Bool.false_ne_true, Int.sub_add_cancel]
  cases x.negative <;> rfl

/-- Read as a double, the text of a double is the double. -/
theorem double_numeral (x : Finite) : x.numeral.double = finite x := by
  rw [Numeral.double, numeral, Numeral.negative_ofDecimal]
  exact ofDecimal_of_value_eq Numeral.value_decimal_ofDecimal

theorem fraction_numeral : x.numeral.fraction = none ↔ x.Whole :=
  Numeral.fraction_ofDecimal.trans shortest_exponent_nonneg_iff

/-- A whole number is written as the integer that its shortest decimal is. -/
theorem whole_numeral (h : x.Whole) :
    x.numeral.whole = Nat.toDigits 10 (x.shortest .up).whole := by
  have hexponent : 0 ≤ (x.shortest .up).exponent := shortest_exponent_nonneg_iff.2 h
  by_cases hx : x.significand = 0
  · rw [numeral, shortest_of_significand hx]
    rfl
  · have htakes : x.Takes (x.shortest .up).value := takes_shortest hx
    have hdigits := Decimal.digits_ne_zero htakes.pos
    have hlength : 0 < (Nat.toDigits 10 (x.shortest .up).digits).length :=
      Nat.length_toDigits_pos
    rw [Decimal.whole, Numeral.toDigits_mul_pow (Nat.pos_of_ne_zero hdigits)]
    dsimp only [numeral, Numeral.ofDecimal]
    rw [if_neg (by omega), if_pos (by omega)]
    dsimp only
    congr 2
    omega

theorem digits_numeral (h : x.Whole) : x.numeral.digits = (x.shortest .up).whole := by
  have hdecimal : x.numeral.decimal = ⟨(x.shortest .up).whole, 0⟩ :=
    Numeral.decimal_ofDecimal.trans (if_pos (shortest_exponent_nonneg_iff.2 h))
  exact congrArg Decimal.digits hdecimal

/-- The integers that are written as a double is: those with its sign and the digits of its shortest
decimal. -/
theorem ofInt_eq_numeral_iff {i : Int} : Numeral.ofInt i = x.numeral ↔
    x.Whole ∧ x.negative = decide (i < 0) ∧ (x.shortest .up).whole = i.natAbs := by
  have hnegative : x.numeral.negative = x.negative := Numeral.negative_ofDecimal
  constructor
  · intro h
    have hwhole : x.Whole := fraction_numeral.1 (congrArg Numeral.fraction h).symm
    have hsign := congrArg Numeral.negative h
    have hdigits := congrArg Numeral.digits h
    rw [hnegative] at hsign
    rw [digits_numeral hwhole, Numeral.digits_ofInt] at hdigits
    exact ⟨hwhole, hsign.symm, hdigits.symm⟩
  · rintro ⟨hwhole, hsign, hdigits⟩
    have htext := whole_numeral hwhole
    have hfraction := fraction_numeral.2 hwhole
    rw [hdigits] at htext
    rw [hsign] at hnegative
    rw [Numeral.ofInt, ← htext, ← hfraction, ← hnegative]

end Double.Finite

end Tabula
