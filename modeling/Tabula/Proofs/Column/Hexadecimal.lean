import Tabula.Proofs.Column.Embedded

/-!
# Hexadecimal texts as bytes

Included rows carry blobs as hexadecimal text. A text is taken for bytes if it consists of pairs of
digits, but a pair may also be a plus sign and one digit, which then counts as if a zero stood in
the place of the sign. Texts of digits alone are read as what they are written for.
-/

namespace Tabula

namespace Hex

/-! ## Texts of pairs -/

/-- A hexadecimal digit of either case. -/
def IsDigit (c : Char) : Prop :=
  ('0' ≤ c ∧ c ≤ '9') ∨ ('a' ≤ c ∧ c ≤ 'f') ∨ ('A' ≤ c ∧ c ≤ 'F')

instance (c : Char) : Decidable (IsDigit c) :=
  inferInstanceAs (Decidable (_ ∨ _))

/-- Hexadecimal text proper: two digits a byte. -/
structure Digits (s : String) : Prop where
  even : s.utf8ByteSize % 2 = 0
  digits : ∀ c ∈ s.toList, IsDigit c

/-- What is read: pairs, each of two digits or of a plus sign and a digit. -/
inductive Pairs : List Char → Prop
  | nil : Pairs []
  | cons {high low : Char} {rest : List Char} (hhigh : high = '+' ∨ IsDigit high)
    (hlow : IsDigit low) (hrest : Pairs rest) : Pairs (high :: low :: rest)

/-- A character in upper case, and a zero for a plus sign. -/
def canonicalChar (c : Char) : Char :=
  if c = '+' then '0' else c.toUpper

/-- The text in upper case, with zeros for plus signs. -/
def canonical (s : String) : String :=
  String.ofList (s.toList.map canonicalChar)

section

variable {c high low : Char} {cs : List Char} {n : Nat} {b : UInt8} {bytes : List UInt8}

/-! ## Digits -/

theorem toNat_lt_of_isDigit (h : IsDigit c) : c.toNat < 128 := by
  have hle : ∀ d : Char, c ≤ d → c.toNat ≤ d.toNat := fun _ hd => hd
  rcases h with ⟨-, h⟩ | ⟨-, h⟩ | ⟨-, h⟩
  · exact Nat.lt_of_le_of_lt (hle _ h) (by decide)
  · exact Nat.lt_of_le_of_lt (hle _ h) (by decide)
  · exact Nat.lt_of_le_of_lt (hle _ h) (by decide)

/-- What holds of each digit: there are few enough characters to look at all of them. -/
theorem forall_isDigit {P : Char → Prop}
    (h : ∀ n < 128, IsDigit (Char.ofNat n) → P (Char.ofNat n)) (hc : IsDigit c) : P c := by
  have hP := h c.toNat (toNat_lt_of_isDigit hc)
  rw [Char.ofNat_toNat] at hP
  exact hP hc

theorem exists_digitValue (h : IsDigit c) :
    ∃ n < 16, digitValue? c = some n ∧ upperDigit n = c.toUpper := by
  apply forall_isDigit (P := fun c => ∃ n < 16, digitValue? c = some n ∧ upperDigit n = c.toUpper)
  · decide
  · exact h

theorem utf8Size_of_isDigit (h : IsDigit c) : c.utf8Size = 1 := by
  apply forall_isDigit (P := fun c => c.utf8Size = 1)
  · decide
  · exact h

theorem ne_plus_of_isDigit (h : IsDigit c) : c ≠ '+' := by
  rintro rfl
  exact absurd h (by decide)

theorem isDigit_of_digitValue? (h : digitValue? c = some n) : IsDigit c := by
  unfold digitValue? at h
  split at h
  · rename_i hdecimal
    exact .inl hdecimal
  · split at h
    · rename_i hlower
      exact .inr (.inl hlower)
    · split at h
      · rename_i hupper
        exact .inr (.inr hupper)
      · cases h

theorem canonicalChar_of_isDigit (h : IsDigit c) : canonicalChar c = c.toUpper :=
  if_neg (ne_plus_of_isDigit h)

/-! ## Pairs -/

/-- A sign stands where the digit zero could. -/
theorem exists_high (h : high = '+' ∨ IsDigit high) : ∃ m < 16, upperDigit m = canonicalChar high ∧
    ∀ low, pair? high low = (digitValue? low).map fun n => UInt8.ofNat (16 * m + n) := by
  rcases h with rfl | h
  · refine ⟨0, by decide, by decide, fun low => ?_⟩
    simp [pair?]
  · obtain ⟨m, hm, hvalue, hupper⟩ := exists_digitValue h
    refine ⟨m, hm, by rw [hupper, canonicalChar_of_isDigit h], fun low => ?_⟩
    rw [pair?, if_neg (ne_plus_of_isDigit h), hvalue]
    cases digitValue? low <;> rfl

theorem digits_of_pair? (h : pair? high low = some b) :
    (high = '+' ∨ IsDigit high) ∧ IsDigit low := by
  unfold pair? at h
  split at h
  · rename_i hplus
    obtain ⟨n, hn, -⟩ := Option.map_eq_some_iff.1 h
    exact ⟨.inl hplus, isDigit_of_digitValue? hn⟩
  · obtain ⟨m, hm, h⟩ := Option.bind_eq_some_iff.1 h
    obtain ⟨n, hn, -⟩ := Option.bind_eq_some_iff.1 h
    exact ⟨.inr (isDigit_of_digitValue? hm), isDigit_of_digitValue? hn⟩

/-- The byte of a pair is written with the digits of the pair. -/
theorem exists_pair? (hhigh : high = '+' ∨ IsDigit high) (hlow : IsDigit low) :
    ∃ b, pair? high low = some b ∧ upperDigit (b.toNat / 16) = canonicalChar high ∧
      upperDigit (b.toNat % 16) = canonicalChar low := by
  obtain ⟨m, hm, hupper, hpair⟩ := exists_high hhigh
  obtain ⟨n, hn, hvalue, hupper'⟩ := exists_digitValue hlow
  have hb : (UInt8.ofNat (16 * m + n)).toNat = 16 * m + n := by
    rw [UInt8.toNat_ofNat']
    omega
  have hdiv : (16 * m + n) / 16 = m := by omega
  have hmod : (16 * m + n) % 16 = n := by omega
  refine ⟨UInt8.ofNat (16 * m + n), by rw [hpair, hvalue, Option.map_some], ?_, ?_⟩
  · rw [hb, hdiv, hupper]
  · rw [hb, hmod, hupper', canonicalChar_of_isDigit hlow]

theorem pairs_of_bytes? (h : bytes? cs = some bytes) : Pairs cs := by
  induction cs using bytes?.induct generalizing bytes with
  | case1 => exact .nil
  | case2 c => cases h
  | case3 high low rest ih =>
    obtain ⟨b, hb, h⟩ := Option.bind_eq_some_iff.1 h
    obtain ⟨tail, htail, -⟩ := Option.bind_eq_some_iff.1 h
    obtain ⟨hhigh, hlow⟩ := digits_of_pair? hb
    exact .cons hhigh hlow (ih htail)

/-- Pairs are bytes, which are written as the pairs are in upper case. -/
theorem exists_bytes? (h : Pairs cs) : ∃ bytes, bytes? cs = some bytes ∧
    upper bytes = String.ofList (cs.map canonicalChar) := by
  induction h with
  | nil => exact ⟨[], rfl, rfl⟩
  | @cons high low rest hhigh hlow hrest ih =>
    obtain ⟨b, hb, hupper, hupper'⟩ := exists_pair? hhigh hlow
    obtain ⟨tail, htail, ih⟩ := ih
    refine ⟨b :: tail, by rw [bytes?, hb, htail]; rfl, ?_⟩
    rw [upper, String.ofList_inj] at ih ⊢
    rw [List.flatMap_cons, ih, hupper, hupper']
    rfl

theorem bytes?_eq_none_iff : bytes? cs = none ↔ ¬Pairs cs := by
  constructor
  · intro h hpairs
    obtain ⟨bytes, hbytes, -⟩ := exists_bytes? hpairs
    rw [h] at hbytes
    cases hbytes
  · intro h
    cases hbytes : bytes? cs with
    | none => rfl
    | some bytes => exact absurd (pairs_of_bytes? hbytes) h

/-! ## Sizes -/

theorem utf8ByteSize_cons (c : Char) (cs : List Char) :
    (String.ofList (c :: cs)).utf8ByteSize = c.utf8Size + (String.ofList cs).utf8ByteSize := by
  rw [String.ofList_cons, String.utf8ByteSize_append, String.utf8ByteSize_singleton]

theorem Pairs.even (h : Pairs cs) : (String.ofList cs).utf8ByteSize % 2 = 0 := by
  induction h with
  | nil => rfl
  | @cons high low rest hhigh hlow hrest ih =>
    have hsize : high.utf8Size = 1 := by
      rcases hhigh with rfl | hhigh
      · rfl
      · exact utf8Size_of_isDigit hhigh
    rw [utf8ByteSize_cons, utf8ByteSize_cons, hsize, utf8Size_of_isDigit hlow]
    omega

theorem pairs_of_digits (heven : (String.ofList cs).utf8ByteSize % 2 = 0)
    (h : ∀ c ∈ cs, IsDigit c) : Pairs cs := by
  induction cs using bytes?.induct with
  | case1 => exact .nil
  | case2 c =>
    rw [utf8ByteSize_cons, utf8Size_of_isDigit (h c (List.mem_singleton_self c))] at heven
    cases heven
  | case3 high low rest ih =>
    have hhigh := h high List.mem_cons_self
    have hlow := h low (List.mem_cons_of_mem _ List.mem_cons_self)
    rw [utf8ByteSize_cons, utf8ByteSize_cons, utf8Size_of_isDigit hhigh,
      utf8Size_of_isDigit hlow] at heven
    refine .cons (.inr hhigh) hlow (ih (by omega) fun c hc => h c ?_)
    exact List.mem_cons_of_mem _ (List.mem_cons_of_mem _ hc)

theorem Pairs.isDigit (h : Pairs cs) (hplus : '+' ∉ cs) : ∀ c ∈ cs, IsDigit c := by
  induction h with
  | nil => exact nofun
  | @cons high low rest hhigh hlow hrest ih =>
    obtain ⟨hne, hplus⟩ := not_or.1 (mt List.mem_cons.2 hplus)
    have hdigit : IsDigit high := hhigh.resolve_left (Ne.symm hne)
    exact List.forall_mem_cons.2 ⟨hdigit, List.forall_mem_cons.2
      ⟨hlow, ih fun h => hplus (List.mem_cons_of_mem _ h)⟩⟩

/-- Texts of digits are the pairs without a sign. -/
theorem digits_iff {s : String} : Digits s ↔ Pairs s.toList ∧ '+' ∉ s.toList := by
  constructor
  · rintro ⟨heven, hdigits⟩
    refine ⟨pairs_of_digits (by rwa [String.ofList_toList]) hdigits, fun hplus => ?_⟩
    exact ne_plus_of_isDigit (hdigits _ hplus) rfl
  · rintro ⟨hpairs, hplus⟩
    have heven := hpairs.even
    rw [String.ofList_toList] at heven
    exact ⟨heven, hpairs.isDigit hplus⟩

theorem Digits.canonical_eq {s : String} (h : Digits s) : canonical s = s.toUpper := by
  apply String.toList_injective
  rw [canonical, String.toList_ofList, String.toUpper, String.toList_map]
  exact List.map_congr_left fun c hc => canonicalChar_of_isDigit (h.digits c hc)

end

end Hex

/-! ## Reading -/

theorem ColumnKind.exists_decodeHex {s : String} (h : Hex.Pairs s.toList) :
    ∃ bytes, decodeHex s = .ok (.ofBytes bytes) ∧ Hex.upper bytes = Hex.canonical s := by
  have heven := h.even
  rw [String.ofList_toList] at heven
  obtain ⟨bytes, hbytes, hupper⟩ := Hex.exists_bytes? h
  refine ⟨bytes, ?_, hupper⟩
  rw [decodeHex, if_neg (by omega), hbytes]

theorem ColumnKind.decodeHex_of_not {s : String} (h : ¬Hex.Pairs s.toList) :
    decodeHex s = .error (if s.utf8ByteSize % 2 = 0 then .invalidHex s else .oddHex s) := by
  rw [decodeHex, Hex.bytes?_eq_none_iff.2 h]
  by_cases heven : s.utf8ByteSize % 2 = 0
  · rw [if_pos heven, if_neg (not_not_intro heven)]
  · rw [if_neg heven, if_pos heven]

/-- A text is read as bytes if and only if it consists of pairs, and then these bytes are written as
the text is in upper case, with zeros for its plus signs. Any other text is refused, for its length
if that is odd. Hexadecimal text proper is what is read and has no plus sign; so what is written of
a blob is read as the blob. -/
theorem ColumnKind.decodeHex_iff_pairs (s : String) :
    ((∃ j, decodeHex s = .ok j) ↔ Hex.Pairs s.toList) ∧
    (∀ j, decodeHex s = .ok j → ∃ bytes, j = .ofBytes bytes ∧ Hex.upper bytes = Hex.canonical s) ∧
    (∀ fault, decodeHex s = .error fault ↔ ¬Hex.Pairs s.toList ∧
      fault = if s.utf8ByteSize % 2 = 0 then .invalidHex s else .oddHex s) ∧
    (Hex.Digits s ↔ Hex.Pairs s.toList ∧ '+' ∉ s.toList) ∧
    (Hex.Digits s → Hex.canonical s = s.toUpper) ∧
    ∀ (c : Column) (bytes : List UInt8), c.kind = .blob →
      c.decodeEmbedded (.str (Hex.upper bytes)) = c.decode (.blob bytes) := by
  refine ⟨?_, ?_, ?_, Hex.digits_iff, Hex.Digits.canonical_eq, ?_⟩
  · constructor
    · rintro ⟨j, hj⟩
      refine Classical.byContradiction fun hpairs => ?_
      rw [decodeHex_of_not hpairs] at hj
      cases hj
    · intro hpairs
      obtain ⟨bytes, hbytes, -⟩ := exists_decodeHex hpairs
      exact ⟨_, hbytes⟩
  · intro j hj
    by_cases hpairs : Hex.Pairs s.toList
    · obtain ⟨bytes, hbytes, hupper⟩ := exists_decodeHex hpairs
      rw [hbytes] at hj
      cases hj
      exact ⟨bytes, rfl, hupper⟩
    · rw [decodeHex_of_not hpairs] at hj
      cases hj
  · intro fault
    by_cases hpairs : Hex.Pairs s.toList
    · obtain ⟨bytes, hbytes, -⟩ := exists_decodeHex hpairs
      rw [hbytes]
      exact iff_of_false nofun fun h => h.1 hpairs
    · rw [decodeHex_of_not hpairs, Except.error.injEq, eq_comm, and_iff_right hpairs]
  · intro c bytes hkind
    have hembed : c.embed (.blob bytes) = .str (Hex.upper bytes) := by
      simp only [Column.embed, hkind]
    rw [← hembed]
    exact Column.decodeEmbedded_embed hkind

theorem ColumnKind.decodeHex_iff_pairs_avatar :
    let c : Column := { name := "avatar", key := "avatar", kind := .blob }
    (∃ bytes, decodeHex "aB01" = .ok (.ofBytes bytes) ∧ Hex.upper bytes = "aB01".toUpper) ∧
    decodeHex "abc" = .error (.oddHex "abc") ∧ decodeHex "zz" = .error (.invalidHex "zz") ∧
    c.decodeEmbedded (.str (Hex.upper [171, 1])) = c.decode (.blob [171, 1]) := by
  intro c
  obtain ⟨hok, hbytes, -, hdigits, hcanonical, hblob⟩ := decodeHex_iff_pairs "aB01"
  have hall : "aB01".toList.all (fun c => Hex.IsDigit c) = true := by decide
  have hproper : Hex.Digits "aB01" :=
    ⟨by decide, fun c hc => of_decide_eq_true (List.all_eq_true.1 hall c hc)⟩
  obtain ⟨j, hj⟩ := hok.2 (hdigits.1 hproper).1
  obtain ⟨bytes, rfl, hupper⟩ := hbytes j hj
  refine ⟨⟨bytes, hj, hupper.trans (hcanonical hproper)⟩, ?_, ?_, hblob c [171, 1] rfl⟩
  · refine ((decodeHex_iff_pairs "abc").2.2.1 _).2 ⟨fun h => ?_, rfl⟩
    exact absurd h.even (by decide)
  · refine ((decodeHex_iff_pairs "zz").2.2.1 _).2 ⟨fun h => ?_, rfl⟩
    cases h with
    | cons hhigh _ _ => exact absurd hhigh (by decide)

/-- A sign in front of one digit is taken for a byte. -/
theorem ColumnKind.accepted_of_plus :
    decodeHex "+f" = .ok (.ofBytes [15]) ∧ Hex.canonical "+f" = "0F" ∧ ¬Hex.Digits "+f" ∧
      ¬∀ s : String, (∃ j, decodeHex s = .ok j) ↔ Hex.Digits s := by
  have haccepted : decodeHex "+f" = .ok (.ofBytes [15]) := by rfl
  have hproper : ¬Hex.Digits "+f" := by
    intro h
    exact absurd (h.digits '+' (by decide)) (by decide)
  refine ⟨haccepted, by decide, hproper, fun h => ?_⟩
  exact hproper ((h "+f").1 ⟨_, haccepted⟩)

end Tabula
