import Tabula.Proofs.Double.Nearest
import Tabula.Proofs.Write.Insert
import Tabula.Proofs.Write.Update

/-!
# Integers as they are stored

JSON has the integers of 64 bits, with a sign or without. One that fits 64 bits with a sign is stored
as it is. A larger one becomes a double, which knows only multiples of 2048 there: it is stored as
the nearest of them, and so are its neighbours.
-/

namespace Tabula

/-- An integer that a JSON number can be. -/
structure Json.Integer where
  value : Int
  range : -9223372036854775808 ≤ value ∧ value < 18446744073709551616

/-- The value is the integer, or its digits if it is too large for a sign. -/
def Value.Exact (n : Int) : Value → Prop
  | integer i => i.toInt = n
  | text s => 9223372036854775808 ≤ n ∧ s = toString n
  | _ => False

namespace Value

theorem same_integer_iff {i j : Int64} : same (integer i) (integer j) ↔ i.toInt = j.toInt := by
  simp [same, compare?]

theorem same_finite_iff {x y : Double.Finite} :
    same (real (.finite x)) (real (.finite y)) ↔ x.signedCode = y.signedCode := by
  simp [same, compare?, Double.compare?, Double.orderCode?]

end Value

/-- The kinds whose columns store what they are given as it comes. -/
def ColumnKind.StoresAsGiven : ColumnKind → Prop
  | integer | text | real | boolean => True
  | blob | date => False

namespace Json.Integer

def json (n : Integer) : Json :=
  .number (.int n.value n.range)

/-- What is stored of the integer. -/
def stored (n : Integer) : Value :=
  .ofJson n.json

/-- The integer that the stored value is. -/
def kept (n : Integer) : Int :=
  if n.value < 9223372036854775808 then n.value
  else 2048 * Double.roundHalfEven n.value.natAbs 2048

variable {m n : Integer}

/-! ## What is kept -/

theorem kept_of_lt (hn : n.value < 9223372036854775808) : n.kept = n.value :=
  if_pos hn

theorem kept_of_le (hn : 9223372036854775808 ≤ n.value) :
    n.kept = 2048 * Double.roundHalfEven n.value.natAbs 2048 :=
  if_neg (by omega)

theorem kept_lt_iff : n.kept < 9223372036854775808 ↔ n.value < 9223372036854775808 := by
  constructor
  · intro hkept
    by_contra hn
    have hfloor := Double.le_roundHalfEven n.value.natAbs 2048
    rw [kept_of_le (by omega)] at hkept
    omega
  · intro hn
    rwa [kept_of_lt hn]

/-- A large integer moves by at most 1024. -/
theorem natAbs_kept_sub_le (n : Integer) : (n.kept - n.value).natAbs ≤ 1024 := by
  by_cases hn : n.value < 9223372036854775808
  · simp [kept_of_lt hn]
  · have hnear := Double.two_mul_roundHalfEven n.value.natAbs (show 0 < 2048 by omega)
    rw [kept_of_le (by omega)]
    omega

theorem kept_eq_iff (hn : 9223372036854775808 ≤ n.value) : n.kept = n.value ↔ 2048 ∣ n.value := by
  have hround := Double.mul_roundHalfEven_eq_iff n.value.natAbs (show 0 < 2048 by omega)
  rw [kept_of_le hn]
  omega

/-! ## How it is stored -/

theorem stored_of_lt (hn : n.value < 9223372036854775808) :
    n.stored = .integer (Int64.ofInt n.value) := by
  have hsigned : (Number.int n.value n.range).int64? = some (Int64.ofInt n.value) := if_pos hn
  rw [stored, json, Value.ofJson, Value.ofNumber, hsigned]

theorem toInt_of_lt (hn : n.value < 9223372036854775808) :
    (Int64.ofInt n.value).toInt = n.value :=
  Int64.toInt_ofInt_of_le n.range.1 hn

/-- A large integer is stored as the double that is what is kept of it. -/
theorem exists_stored_of_le (hn : 9223372036854775808 ≤ n.value) : ∃ x : Double.Finite,
    n.stored = .real (.finite x) ∧ x.negative = false ∧
      x.code = 1085 * Double.fractions + Double.roundHalfEven n.value.natAbs 2048 ∧
      0 ≤ x.exponent ∧ x.truncate = n.kept := by
  have hunsigned : (Number.int n.value n.range).int64? = none := if_neg (by omega)
  obtain ⟨x, hx, hsign, hcode⟩ := Double.exists_finite_ofInt hn n.range.2
  obtain ⟨hlow, hhigh⟩ := Double.roundHalfEven_bounds (n := n.value.natAbs) (by omega)
    (by have := n.range.2; omega)
  obtain ⟨hexponent, htruncate⟩ := Double.Finite.truncate_of_code hsign hlow hhigh hcode
  refine ⟨x, ?_, hsign, hcode, hexponent, by rw [htruncate, kept_of_le hn]⟩
  rw [stored, json, Value.ofJson, Value.ofNumber, hunsigned]
  exact congrArg Value.real hx

theorem exact_stored_iff : n.stored.Exact n.value ↔ n.value < 9223372036854775808 := by
  by_cases hn : n.value < 9223372036854775808
  · rw [stored_of_lt hn]
    exact iff_of_true (toInt_of_lt hn) hn
  · obtain ⟨x, hx, -⟩ := exists_stored_of_le (Int.not_lt.1 hn)
    rw [hx]
    exact iff_of_false id hn

theorem exists_real_iff :
    (∃ x, n.stored = .real x) ↔ 9223372036854775808 ≤ n.value := by
  constructor
  · rintro ⟨x, hx⟩
    by_contra hn
    rw [stored_of_lt (Int.not_le.1 hn)] at hx
    cases hx
  · intro hn
    obtain ⟨x, hx, -⟩ := exists_stored_of_le hn
    exact ⟨_, hx⟩

theorem same_stored_iff (m n : Integer) : m.stored.same n.stored = true ↔ m.kept = n.kept := by
  have hm := kept_lt_iff (n := m)
  have hn := kept_lt_iff (n := n)
  rcases Int.lt_or_le m.value 9223372036854775808 with hmlt | hmle
  · rcases Int.lt_or_le n.value 9223372036854775808 with hnlt | hnle
    · rw [stored_of_lt hmlt, stored_of_lt hnlt, kept_of_lt hmlt, kept_of_lt hnlt,
        Value.same_integer_iff, toInt_of_lt hmlt, toInt_of_lt hnlt]
    · obtain ⟨x, hx, -⟩ := exists_stored_of_le hnle
      rw [stored_of_lt hmlt, hx]
      exact iff_of_false Bool.false_ne_true (by omega)
  · obtain ⟨x, hx, hxsign, hxcode, -⟩ := exists_stored_of_le hmle
    rcases Int.lt_or_le n.value 9223372036854775808 with hnlt | hnle
    · rw [stored_of_lt hnlt, hx]
      exact iff_of_false Bool.false_ne_true (by omega)
    -- of doubles without a sign, those of one code are the same
    · obtain ⟨y, hy, hysign, hycode, -⟩ := exists_stored_of_le hnle
      rw [hx, hy, Value.same_finite_iff, Double.Finite.signedCode_of_not hxsign,
        Double.Finite.signedCode_of_not hysign, hxcode, hycode, kept_of_le hmle, kept_of_le hnle]
      omega

end Json.Integer

/-! ## Where it is stored -/

open Json (Integer)

theorem Column.encode_integer {c : Column} (hkind : c.kind.StoresAsGiven) (n : Integer) :
    c.encode n.json = .ok n.stored := by
  rw [encode]
  cases hk : c.kind with
  | integer | text | real | boolean => rfl
  | blob | date => rw [hk] at hkind; exact hkind.elim

theorem Column.mapM_encode_integers {c : Column} (hkind : c.kind.StoresAsGiven)
    (ns : List Integer) : (ns.map Integer.json).mapM c.encode = .ok (ns.map Integer.stored) := by
  rw [mapM_eq_ok, List.forall₂_map_left_iff, List.forall₂_map_right_iff, List.forall₂_same]
  exact fun n _ => encode_integer hkind n

/-- A comparison binds what is stored of its operand, and a set operator of each item. -/
theorem Leaf.exists_condition_of_integers {fields : Fields} {l : Leaf} {field : Field}
    (hfield : fields.resolve? l.field = some field) (hkind : field.column.kind.StoresAsGiven)
    (harray : l.operator.isSet = true → l.operand.isArray = true) {ns : List Integer}
    (hoperands : l.operands = ns.map Integer.json) :
    ∃ c, l.condition fields = .ok c ∧ c.render.params = ns.map Integer.stored := by
  have hitems := Column.mapM_encode_integers hkind ns
  have hfits : l.Fits fields := by
    refine ⟨field, hfield, suits_iff.2 ⟨harray, ?_⟩⟩
    rw [hoperands]
    exact exists_mapM_eq_ok.1 ⟨_, hitems⟩
  obtain ⟨c, hc⟩ := condition_eq_ok.2 hfits
  obtain ⟨hresolve, hvalues⟩ := exists_of_condition hc
  obtain rfl : field = c.field := by
    rw [Fields.resolve, hfield] at hresolve
    exact Except.ok.inj hresolve
  rw [hoperands, hitems] at hvalues
  exact ⟨c, hc, (Condition.params_render c).trans (Except.ok.inj hvalues).symm⟩

section

variable {s : Schema} {key k : String} {t : Table} {column : Column} {c : Compiled}

/-- An update binds what is stored of what it sets. -/
theorem Update.param_integer {q : Update} {sets : Sets} (h : compile s key q = .ok c)
    (ht : s.table key = .ok t) (hsets : q.sets = some sets) (hcolumn : t.column k = .ok column)
    (hkind : column.kind.StoresAsGiven) {i : Nat} {n : Integer}
    (hmember : sets.object.members[i]? = some (k, n.json)) : c.params[i]? = some n.stored := by
  obtain ⟨p, hp, h⟩ := bind_eq_ok.1 h
  cases h
  have hplans := UpdatePlan.ofUpdate_eq_ok.1 hp
  obtain ⟨sets', hsets', hwrites⟩ := writes_of_plans hplans
  cases hsets.symm.trans hsets'
  cases ht.symm.trans hplans.table
  obtain ⟨hi, hget⟩ := List.getElem?_eq_some_iff.1 hmember
  have hi' : i < p.sets.length := hwrites.assigns.length_eq ▸ hi
  obtain ⟨hfound, hencode⟩ := hwrites.assigns.get hi hi'
  simp only [List.get_eq_getElem, hget] at hfound hencode
  cases hcolumn.symm.trans hfound
  rw [Column.encode_integer hkind n, Except.ok.injEq] at hencode
  rw [hwrites.params, List.getElem?_append_left (by simpa using hi'), List.getElem?_map,
    List.getElem?_eq_getElem hi', hencode]
  rfl

/-- An insert binds what is stored of the values of its rows. -/
theorem Insert.param_integer {q : Insert} {first : Json.Object} {others : List Json.Object}
    (h : compile s key q = .ok c) (ht : s.table key = .ok t) (hrows : q.rows = first :: others)
    {i j : Nat} {o : Json.Object} (ho : (first :: others)[i]? = some o)
    (hk : first.members.keys[j]? = some k) (hcolumn : t.column k = .ok column)
    (hkind : column.kind.StoresAsGiven) {n : Integer} (hvalue : o.members.get? k = some n.json) :
    c.params[i * first.members.keys.length + j]? = some n.stored := by
  obtain ⟨p, hp, h⟩ := bind_eq_ok.1 h
  cases h
  obtain ⟨first', others', hplans⟩ := InsertPlan.ofInsert_eq_ok.1 hp
  cases hrows.symm.trans hplans.given
  cases ht.symm.trans hplans.table
  have hwrites := writes_of_plans hplans
  have hplace : p.columns[j]? = some column := by
    have hfound := mapM_eq_ok.1 hwrites.found
    obtain ⟨hj, hget⟩ := List.getElem?_eq_some_iff.1 hk
    have hj' : j < p.columns.length := hfound.length_eq ▸ hj
    have hjth := hfound.get hj hj'
    simp only [List.get_eq_getElem, hget] at hjth
    rw [List.getElem?_eq_getElem hj', Except.ok.inj (hcolumn.symm.trans hjth)]
  obtain ⟨value, v, hvalue', hencode, hparam⟩ := hwrites.param i j o k column ho hk hplace
  cases hvalue.symm.trans hvalue'
  rw [Column.encode_integer hkind n, Except.ok.injEq] at hencode
  rw [hparam, hencode]

end

/-- An integer is stored as exactly itself if and only if it fits 64 bits with a sign; every larger
one is stored as a real, the nearest multiple of 2048, which is the integer itself only if it is
such a multiple. Two integers are stored as the same value if and only if the same integer is kept
of them. A column that stores what it is given as it comes stores this, an update and an insert
bind it, and a filter binds it for an operand and for each item of a set. -/
theorem Json.Integer.exact_stored_iff_signed (n : Integer) :
    (n.stored.Exact n.value ↔ n.value < 9223372036854775808) ∧
    ((∃ x, n.stored = .real x) ↔ 9223372036854775808 ≤ n.value) ∧
    (9223372036854775808 ≤ n.value → (n.kept - n.value).natAbs ≤ 1024 ∧
      (n.kept = n.value ↔ 2048 ∣ n.value) ∧
      ∃ x, n.stored = .real (.finite x) ∧ 0 ≤ x.exponent ∧ x.truncate = n.kept) ∧
    (∀ m : Integer, m.stored.same n.stored = true ↔ m.kept = n.kept) ∧
    (∀ column : Column, column.kind.StoresAsGiven → column.encode n.json = .ok n.stored) ∧
    (∀ (fields : Fields) (l : Leaf) (field : Field) (ns : List Integer),
      fields.resolve? l.field = some field → field.column.kind.StoresAsGiven →
      (l.operator.isSet = true → l.operand.isArray = true) → l.operands = ns.map json →
      ∃ c, l.condition fields = .ok c ∧ c.render.params = ns.map stored) ∧
    ∀ (s : Schema) (key k : String) (t : Table) (column : Column) (c : Compiled),
      s.table key = .ok t → t.column k = .ok column → column.kind.StoresAsGiven →
      (∀ q sets (i : Nat), Update.compile s key q = .ok c → q.sets = some sets →
        sets.object.members[i]? = some (k, n.json) → c.params[i]? = some n.stored) ∧
      ∀ q first others (i j : Nat) o, Insert.compile s key q = .ok c → q.rows = first :: others →
        (first :: others)[i]? = some o → first.members.keys[j]? = some k →
        o.members.get? k = some n.json →
        c.params[i * first.members.keys.length + j]? = some n.stored := by
  refine ⟨exact_stored_iff, exists_real_iff, fun hn => ?_, fun m => same_stored_iff m n,
    fun _ hkind => Column.encode_integer hkind n,
    fun _ _ _ _ hfield hkind harray => Leaf.exists_condition_of_integers hfield hkind harray, ?_⟩
  · obtain ⟨x, hx, -, -, hexponent, htruncate⟩ := exists_stored_of_le hn
    exact ⟨natAbs_kept_sub_le n, kept_eq_iff hn, x, hx, hexponent, htruncate⟩
  · intro s key k t column c ht hcolumn hkind
    exact ⟨fun _ _ _ h hsets => Update.param_integer h ht hsets hcolumn hkind,
      fun _ _ _ _ _ _ h hrows ho hk => Insert.param_integer h ht hrows ho hk hcolumn hkind⟩

namespace Json.Integer

/-- The least integer that is too large for a sign. -/
def unsigned : Integer := ⟨9223372036854775808, by decide⟩

def nextUnsigned : Integer := ⟨9223372036854775809, by decide⟩

end Json.Integer

theorem Json.Integer.exact_stored_iff_signed_posts :
    nextUnsigned.kept = 9223372036854775808 ∧
      ¬nextUnsigned.stored.Exact nextUnsigned.value ∧
      unsigned.stored.same nextUnsigned.stored = true ∧
      (∃ c, Leaf.condition (.forWrite Blog.posts)
          ⟨"authorId", .isIn, .arr [unsigned.json, nextUnsigned.json]⟩ = .ok c ∧
        c.render.params = [unsigned.stored, nextUnsigned.stored]) ∧
      ∃ c, Update.compile Blog.schema "posts"
          ⟨some ⟨.ofMembers [("authorId", nextUnsigned.json)]⟩, none, none⟩ = .ok c ∧
        c.params[0]? = some nextUnsigned.stored := by
  obtain ⟨hexact, -, -, hsame, -, hleaf, hbinds⟩ := exact_stored_iff_signed nextUnsigned
  have hkept : nextUnsigned.kept = 9223372036854775808 := by decide +kernel
  refine ⟨hkept, fun h => absurd (hexact.1 h) (by decide),
    (hsame unsigned).2 (by decide +kernel), ?_, ?_⟩
  · exact hleaf _ _ ⟨"author_id", _⟩ [unsigned, nextUnsigned] rfl trivial (fun _ => rfl) rfl
  · obtain ⟨c, hc⟩ : ∃ c, Update.compile Blog.schema "posts"
        ⟨some ⟨.ofMembers [("authorId", nextUnsigned.json)]⟩, none, none⟩ = .ok c := ⟨_, rfl⟩
    have hset := (hbinds Blog.schema "posts" "authorId" Blog.posts
      { name := "author_id", key := "authorId", kind := .integer } c rfl rfl trivial).1 _ _ 0 hc
      rfl rfl
    exact ⟨c, hc, hset⟩

/-- A neighbour of a multiple of 2048 is stored as that multiple, and not as its digits. -/
theorem Json.Integer.inexact_of_unsigned :
    nextUnsigned.stored = .real (.finite ⟨false, 1086 * Double.fractions, by decide⟩) ∧
      unsigned.stored = nextUnsigned.stored ∧
      (¬∀ n : Integer, n.stored.Exact n.value) ∧
      ¬∀ m n : Integer, m.stored.same n.stored = true → m.value = n.value := by
  have hnext : nextUnsigned.stored = .real (.finite ⟨false, 1086 * Double.fractions, by decide⟩) :=
    rfl
  have hequal : unsigned.stored = nextUnsigned.stored := rfl
  refine ⟨hnext, hequal, fun h => ?_, fun h => ?_⟩
  · have hexact := h nextUnsigned
    rw [hnext] at hexact
    exact hexact
  · cases h unsigned nextUnsigned (by rw [hequal, hnext]; decide)

end Tabula
