import Tabula.Proofs.Value.Numeral
import Tabula.Proofs.Text.Quoted
import Tabula.Proofs.Column.Agreement
import Tabula.Proofs.Column.Hexadecimal
import Tabula.Proofs.Table.Creation

/-!
# Literals read back

What a value is written as in a table definition the store takes for the value again, except for
whole doubles below `2 ^ 63`: these have no point and become integers. So the literals of two values
are the same only if one is an integer and the other the double of that integer.
-/

namespace Tabula

namespace Value

/-! ## What the store takes a literal for -/

/-- The content of a quoted literal, behind its first mark. -/
def inside? (cs : List Char) : Option (List Char) :=
  match Text.unquoteInside '\'' cs with
  | some (content, []) => some content
  | _ => none

/-- The value that a literal stands for. -/
def ofLiteral? : List Char → Option Value
  | '\'' :: cs => (inside? cs).map fun content => text (String.ofList content)
  | 'X' :: '\'' :: cs => do
    let content ← inside? cs
    if content.all (Hex.IsDigit ·) then return blob (← Hex.bytes? content) else none
  | cs => if cs = "null".toList then some null else (Numeral.read? cs).map Numeral.value

/-- Values without infinities and without what is not a number. -/
def IsFinite : Value → Prop
  | real x => ∃ y, x = .finite y
  | integer _ | text _ | blob _ | null => True

/-- The value is a double without a fraction that 64 bits hold as an integer. -/
def ReadsAsInteger (v : Value) : Prop :=
  ∃ x : Double.Finite, v = real (.finite x) ∧ x.Whole ∧ x.magnitude < 2 ^ 63

/-- The first value is a double, the second the integer with the sign and the digits of its shortest
decimal. -/
def Homographs (v w : Value) : Prop :=
  ∃ (x : Double.Finite) (n : Int64), v = real (.finite x) ∧ w = integer n ∧ x.Whole ∧
    x.negative = decide (n.toInt < 0) ∧ (x.shortest .up).whole = n.toInt.natAbs

variable {v w : Value} {x y : Double.Finite} {n : Numeral} {cs : List Char}

theorem inside?_doubled : inside? (Text.doubled '\'' cs ++ ['\'']) = some cs := by
  have hread : Text.unquoteInside '\'' (Text.doubled '\'' cs ++ ['\'']) = some (cs, []) :=
    Text.unquoteInside_doubled nofun
  rw [inside?, hread]

theorem ofLiteral?_numeral (h : n.Proper) : ofLiteral? n.text = some n.value := by
  have hread := Numeral.read?_text h
  obtain ⟨c, cs, hcs, hc⟩ := Numeral.head_text h
  have hquote : c ≠ '\'' := by
    rintro rfl
    exact absurd hc (by decide)
  have hblob : c ≠ 'X' := by
    rintro rfl
    exact absurd hc (by decide)
  have hnull : c :: cs ≠ "null".toList := by
    intro h
    obtain rfl : c = 'n' := (List.cons.inj h).1
    exact absurd hc (by decide)
  rw [hcs] at hread ⊢
  unfold ofLiteral?
  split
  · rename_i heq
    exact absurd (List.cons.inj heq).1 hquote
  · rename_i heq
    exact absurd (List.cons.inj heq).1 hblob
  · rw [if_neg hnull, hread]
    rfl

theorem ofLiteral?_integer (i : Int64) :
    ofLiteral? (integer i).literal.toList = some (integer i) := by
  rw [literal, Numeral.text_ofInt, ofLiteral?_numeral (Numeral.proper_ofInt _),
    Numeral.value_ofInt]

theorem ofLiteral?_real (x : Double.Finite) :
    ofLiteral? (real (.finite x)).literal.toList = some x.numeral.value := by
  rw [literal, Double.Finite.text_numeral]
  exact ofLiteral?_numeral x.proper_numeral

theorem ofLiteral?_text (s : String) : ofLiteral? (text s).literal.toList = some (text s) := by
  rw [literal, Text.stringLiteral, Text.quoted, String.toList_ofList, ofLiteral?, inside?_doubled,
    Option.map_some, String.ofList_toList]

theorem isDigit_upperDigit : ∀ k < 16, Hex.IsDigit (Hex.upperDigit k) := by decide

theorem isDigit_upper (bytes : List UInt8) : ∀ c ∈ (Hex.upper bytes).toList, Hex.IsDigit c := by
  intro c hc
  rw [Hex.upper, String.toList_ofList, List.mem_flatMap] at hc
  obtain ⟨b, -, hc⟩ := hc
  have hb := b.toNat_lt
  rcases List.mem_pair.1 hc with rfl | rfl
  · exact isDigit_upperDigit _ (by omega)
  · exact isDigit_upperDigit _ (by omega)

/-- Digits have no marks to double. -/
theorem doubled_upper (bytes : List UInt8) :
    Text.doubled '\'' (Hex.upper bytes).toList = (Hex.upper bytes).toList := by
  refine Text.doubled_eq_self_iff.2 fun hmark => ?_
  exact absurd (isDigit_upper bytes _ hmark) (by decide)

theorem ofLiteral?_blob (bytes : List UInt8) :
    ofLiteral? (blob bytes).literal.toList = some (blob bytes) := by
  have hinside : inside? ((Hex.upper bytes).toList ++ ['\'']) = some (Hex.upper bytes).toList := by
    conv_lhs => rw [← doubled_upper]
    exact inside?_doubled
  have htext : (blob bytes).literal.toList =
      'X' :: '\'' :: ((Hex.upper bytes).toList ++ ['\'']) := by
    rw [literal, String.toList_append, String.toList_append]
    rfl
  have hdigits : (Hex.upper bytes).toList.all (Hex.IsDigit ·) = true :=
    List.all_eq_true.2 fun c hc => decide_eq_true (isDigit_upper bytes c hc)
  rw [htext, ofLiteral?, hinside, Option.bind_eq_bind, Option.bind_some, if_pos hdigits,
    Hex.bytes?_upper]
  rfl

/-! ## Doubles -/

/-- A whole double below `2 ^ 63` is taken for an integer. -/
theorem value_numeral (hwhole : x.Whole) (h : x.magnitude < 2 ^ 63) :
    ∃ n : Int64, x.numeral.value = integer n ∧ (x.shortest .up).whole = n.toInt.natAbs := by
  have hlt : (x.shortest .up).whole < 2 ^ 63 := x.shortest_whole_lt hwhole h
  have hint : x.numeral.int.natAbs = (x.shortest .up).whole := by
    rw [Numeral.int, Double.Finite.digits_numeral hwhole]
    split_ifs <;> omega
  have hrange : -2 ^ 63 ≤ x.numeral.int ∧ x.numeral.int < 2 ^ 63 := by omega
  have hstored : (Int64.ofInt x.numeral.int).toInt = x.numeral.int :=
    Int64.toInt_ofInt_of_le hrange.1 hrange.2
  refine ⟨Int64.ofInt x.numeral.int, ?_, by rw [hstored, hint]⟩
  rw [Numeral.value, if_pos ⟨Double.Finite.fraction_numeral.2 hwhole, hrange⟩]

/-- Any other double is taken for itself. -/
theorem value_numeral_of_not (h : ¬(x.Whole ∧ x.magnitude < 2 ^ 63)) :
    x.numeral.value = real (.finite x) := by
  have hnot : ¬(x.numeral.fraction = none ∧ -2 ^ 63 ≤ x.numeral.int ∧ x.numeral.int < 2 ^ 63) := by
    rintro ⟨hfraction, hlow, hhigh⟩
    have hwhole := Double.Finite.fraction_numeral.1 hfraction
    have hlarge := x.lt_shortest_whole hwhole (not_lt.1 fun hlt => h ⟨hwhole, hlt⟩)
    rw [Numeral.int, Double.Finite.digits_numeral hwhole] at hlow hhigh
    split_ifs at hlow hhigh <;> omega
  rw [Numeral.value, if_neg hnot, Double.Finite.double_numeral]

/-- A value is taken for itself unless it is a double that reads as an integer. -/
theorem ofLiteral?_literal (hfinite : v.IsFinite) :
    ofLiteral? v.literal.toList = some v ↔ ¬v.ReadsAsInteger := by
  cases v with
  | integer n => exact iff_of_true (ofLiteral?_integer n) fun ⟨_, h, _⟩ => by cases h
  | text s => exact iff_of_true (ofLiteral?_text s) fun ⟨_, h, _⟩ => by cases h
  | blob bytes => exact iff_of_true (ofLiteral?_blob bytes) fun ⟨_, h, _⟩ => by cases h
  | null => exact iff_of_true rfl fun ⟨_, h, _⟩ => by cases h
  | real x =>
    obtain ⟨x, rfl⟩ := hfinite
    rw [ofLiteral?_real, Option.some_inj]
    constructor
    · rintro h ⟨_, ⟨rfl⟩, hwhole, hlt⟩
      obtain ⟨n, hn, -⟩ := value_numeral hwhole hlt
      rw [hn] at h
      cases h
    · intro h
      exact value_numeral_of_not fun hx => h ⟨x, rfl, hx⟩

/-! ## Values of one literal -/

theorem literal_real_inj (h : (real (.finite x)).literal = (real (.finite y)).literal) : x = y := by
  rw [← String.toList_inj, literal, literal, Double.Finite.text_numeral,
    Double.Finite.text_numeral, Numeral.text_inj x.proper_numeral y.proper_numeral] at h
  have hdoubles := congrArg Numeral.double h
  rw [Double.Finite.double_numeral, Double.Finite.double_numeral] at hdoubles
  cases hdoubles
  rfl

theorem literal_real_eq_integer_iff {i : Int64} : (real (.finite x)).literal = (integer i).literal ↔
    Homographs (real (.finite x)) (integer i) := by
  rw [← String.toList_inj, literal, literal, Double.Finite.text_numeral, Numeral.text_ofInt,
    Numeral.text_inj x.proper_numeral (Numeral.proper_ofInt _), eq_comm,
    Double.Finite.ofInt_eq_numeral_iff]
  constructor
  · intro h
    exact ⟨x, i, rfl, rfl, h⟩
  · rintro ⟨_, _, ⟨rfl⟩, ⟨rfl⟩, h⟩
    exact h

theorem Homographs.literal_eq (h : Homographs v w) : v.literal = w.literal := by
  obtain ⟨x, n, rfl, rfl, -⟩ := id h
  exact literal_real_eq_integer_iff.2 h

/-- The double is the one nearest to the integer. -/
theorem Homographs.ofInt_eq (h : Homographs v w) :
    ∃ x n, v = real (.finite x) ∧ w = integer n ∧ Double.ofInt n.toInt = .finite x := by
  obtain ⟨x, n, rfl, rfl, hwhole, hsign, hdigits⟩ := h
  refine ⟨x, n, rfl, rfl, ?_⟩
  rw [Double.ofInt, ← hsign, ← hdigits]
  exact Double.Finite.nearest_shortest_whole hwhole

theorem eq_or_homographs (hv : v.ReadsAsInteger) (hw : w.IsFinite) (h : v.literal = w.literal) :
    v = w ∨ Homographs v w := by
  obtain ⟨x, rfl, hwhole, hlt⟩ := hv
  by_cases hread : w.ReadsAsInteger
  · obtain ⟨y, rfl, -⟩ := hread
    exact .inl (by rw [literal_real_inj h])
  · obtain ⟨n, hn, -⟩ := value_numeral hwhole hlt
    have hw := (ofLiteral?_literal hw).2 hread
    rw [← h, ofLiteral?_real, hn] at hw
    obtain rfl := Option.some_inj.1 hw
    exact .inr (literal_real_eq_integer_iff.1 h)

/-- A literal belongs to one value, or to an integer and its double. -/
theorem literal_eq_iff (hv : v.IsFinite) (hw : w.IsFinite) :
    v.literal = w.literal ↔ v = w ∨ Homographs v w ∨ Homographs w v := by
  constructor
  · intro h
    by_cases hreadv : v.ReadsAsInteger
    · exact (eq_or_homographs hreadv hw h).imp_right .inl
    by_cases hreadw : w.ReadsAsInteger
    · exact (eq_or_homographs hreadw hv h.symm).imp Eq.symm .inr
    · have hreads := (ofLiteral?_literal hv).2 hreadv
      rw [h, (ofLiteral?_literal hw).2 hreadw] at hreads
      exact .inl (Option.some_inj.1 hreads).symm
  · rintro (rfl | h | h)
    · rfl
    · exact h.literal_eq
    · exact h.literal_eq.symm

end Value

/-! ## Defaults -/

namespace Column

variable {c : Column} {j : Json} {v : Value}

/-- What a column stores is finite. -/
theorem isFinite_of_encode (h : c.encode j = .ok v) : v.IsFinite := by
  have hjson : ∀ j, (Value.ofJson j).IsFinite := by
    intro j
    cases hj : Value.ofJson j with
    | real x => exact Value.exists_finite_of_ofJson hj
    | integer n | text s | blob bytes | null => trivial
  replace h := mapError_eq_ok.1 h
  cases hk : c.kind with
  | integer | text | real | boolean =>
    rw [hk] at h
    cases h
    exact hjson j
  | date =>
    rw [hk] at h
    rcases ColumnKind.encodeDate_eq_ok h with ⟨-, rfl⟩ | ⟨n, rfl, -⟩
    · trivial
    · trivial
  | blob =>
    rw [hk] at h
    cases j with
    | arr items =>
      obtain ⟨bytes, -, rfl⟩ := map_eq_ok.1 h
      trivial
    | null | bool _ | number _ | str _ | obj _ =>
      cases h
      exact hjson _

end Column

/-- The definition of a column has the literal of the default as the column stores it. -/
theorem ColumnSpec.default_mem_clauses {s : ColumnSpec} {key : String} {c : Column} {j : Json}
    (h : s.build key = .ok c) (hdefault : s.default = some j) :
    ∃ v, c.encode j = .ok v ∧ v.IsFinite ∧ c.definition = c.element.sql ∧
      ColumnClause.default v.literal ∈ c.clauses := by
  have hmakes := build_eq_ok.1 h
  have hkind : c.kind = s.kind := by rw [hmakes.column]
  have hstored := hmakes.default
  rw [hdefault] at hstored
  obtain ⟨v, hv, hstored⟩ := map_eq_ok.1 hstored
  have hencode : c.encode j = .ok v := by
    rw [Column.encode, hkind]
    exact hv
  refine ⟨v, hencode, Column.isFinite_of_encode hencode, c.sql_element.symm, ?_⟩
  simp [Column.clauses, ← hstored]

/-- The literal of a value is taken for the value, unless it is a whole double below `2 ^ 63`. The
text of a double reads as the double, and has a point if and only if there is a fraction; a whole
one becomes an integer whose nearest double it is, and up to `2 ^ 53` the same number. So another
value has the same literal only if one is an integer and the other its double. The definition of a
column has the literal of what the column stores for its default. -/
theorem Value.literal_reads_back_iff {v : Value} (hv : v.IsFinite) :
    (ofLiteral? v.literal.toList = some v ↔ ¬v.ReadsAsInteger) ∧
    (∀ w : Value, w.IsFinite →
      (v.literal = w.literal ↔ v = w ∨ Homographs v w ∨ Homographs w v)) ∧
    (∀ w, Homographs v w →
      ∃ x n, v = real (.finite x) ∧ w = integer n ∧ Double.ofInt n.toInt = .finite x) ∧
    (∀ x, v = real (.finite x) →
      (∃ n, Numeral.read? v.literal.toList = some n ∧ n.double = .finite x ∧
        (n.fraction = none ↔ x.Whole)) ∧
      (x.Whole → x.magnitude < 2 ^ 63 → ∃ n : Int64,
        ofLiteral? v.literal.toList = some (integer n) ∧
        Double.nearest x.negative n.toInt.natAbs 1 = .finite x ∧
        (x.magnitude < 2 ^ 53 → x.magnitude = n.toInt.natAbs))) ∧
    ∀ (s : ColumnSpec) (key : String) (c : Column) (j : Json),
      s.build key = .ok c → s.default = some j →
      ∃ u, c.encode j = .ok u ∧ u.IsFinite ∧ c.definition = c.element.sql ∧
        ColumnClause.default u.literal ∈ c.clauses := by
  refine ⟨ofLiteral?_literal hv, fun w => literal_eq_iff hv, fun w h => h.ofInt_eq, ?_,
    fun s key c j => ColumnSpec.default_mem_clauses⟩
  rintro x rfl
  constructor
  · refine ⟨x.numeral, ?_, x.double_numeral, Double.Finite.fraction_numeral⟩
    rw [literal, Double.Finite.text_numeral, Numeral.read?_text x.proper_numeral]
  · intro hwhole hlt
    obtain ⟨n, hn, hdigits⟩ := value_numeral hwhole hlt
    refine ⟨n, by rw [ofLiteral?_real, hn], ?_, fun hsmall => ?_⟩
    · rw [← hdigits]
      exact Double.Finite.nearest_shortest_whole hwhole
    · rw [← hdigits]
      exact Double.Finite.shortest_whole_eq hwhole hsmall

/-- The double 1.0. -/
def Double.Finite.one : Double.Finite where
  negative := false
  code := 1023 * fractions

theorem Double.Finite.magnitude_one : Finite.one.magnitude = 1 := by
  have hsignificand : Finite.one.significand = 4503599627370496 := by decide
  have hexponent : Finite.one.exponent = -52 := by decide
  rw [magnitude, step, hsignificand, hexponent]
  norm_num

theorem Value.literal_reads_back_iff_one :
    (∃ n : Int64, ofLiteral? (real (.finite .one)).literal.toList = some (integer n) ∧
      Double.Finite.one.magnitude = n.toInt.natAbs) ∧
    ofLiteral? (real (.finite .one)).literal.toList ≠ some (real (.finite .one)) ∧
    ofLiteral? (text "it's").literal.toList = some (text "it's") ∧
    (text "1").literal ≠ (integer 1).literal ∧
    ∃ c v, ((ColumnSpec.ofKind .text "rank").setDefault (.str "it's")).build "rank" = .ok c ∧
      c.encode (.str "it's") = .ok v ∧ ColumnClause.default v.literal ∈ c.clauses := by
  obtain ⟨hone, -, -, hinteger, hdefault⟩ :=
    Value.literal_reads_back_iff (v := real (.finite .one)) ⟨_, rfl⟩
  have hwhole : Double.Finite.one.Whole :=
    ⟨1, by rw [Double.Finite.magnitude_one, Nat.cast_one]⟩
  have hlt : Double.Finite.one.magnitude < 2 ^ 63 := by
    rw [Double.Finite.magnitude_one]
    norm_num
  refine ⟨?_, ?_, ?_, ?_, ?_⟩
  · obtain ⟨n, hn, -, hexact⟩ := (hinteger .one rfl).2 hwhole hlt
    refine ⟨n, hn, hexact ?_⟩
    rw [Double.Finite.magnitude_one]
    norm_num
  · exact fun h => hone.1 h ⟨_, rfl, hwhole, hlt⟩
  · refine (Value.literal_reads_back_iff (v := text "it's") trivial).1.2 ?_
    rintro ⟨x, hx, -⟩
    cases hx
  · intro h
    have hsame := (Value.literal_reads_back_iff (v := text "1") trivial).2.1 (integer 1) trivial
    rcases hsame.1 h with h | ⟨_, _, h, _⟩ | ⟨_, _, h, _⟩ <;> cases h
  · obtain ⟨c, hc⟩ : ∃ c, ((ColumnSpec.ofKind .text "rank").setDefault
        (.str "it's")).build "rank" = .ok c := ⟨_, rfl⟩
    obtain ⟨v, hv, -, -, hclause⟩ := hdefault _ _ c (.str "it's") hc rfl
    exact ⟨c, v, hc, hv, hclause⟩

/-- The default 1.0 of a column without a number type becomes the integer 1. -/
theorem Value.integer_of_real_default :
    (∃ c, ((ColumnSpec.ofKind .blob "payload").setDefault (.number (.real .one))).build "payload" =
        .ok c ∧
      c.encode (.number (.real .one)) = .ok (real (.finite .one)) ∧
      c.definition = "payload blob default 1") ∧
    ofLiteral? "1".toList = some (integer 1) ∧
    ¬∀ v w : Value, v.IsFinite → w.IsFinite → v.literal = w.literal → v = w := by
  refine ⟨⟨_, rfl, rfl, ?_⟩, ?_, ?_⟩
  · decide
  · decide
  · intro h
    have heq := h (real (.finite .one)) (integer 1) ⟨_, rfl⟩ trivial (by decide)
    cases heq

end Tabula
