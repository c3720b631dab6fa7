import Tabula.Fragment
import Tabula.Text.Quoted
import Mathlib.Data.List.Forall2

/-!
# Placeholders of a fragment

The parameters of a composed fragment are those of its parts, in order. Its text is read by a store
that knows placeholders by their question marks only, so no plain text may hold one: of such a
`Plain` fragment the question marks are the placeholders, and the `k`-th of them is that of the
`k`-th parameter.
-/

namespace Tabula

/-! ## Texts without a question mark -/

/-- The text holds no question mark. -/
def Unmarked (s : String) : Prop :=
  '?' ∉ s.toList

instance (s : String) : Decidable (Unmarked s) :=
  inferInstanceAs (Decidable ('?' ∉ s.toList))

@[simp] theorem unmarked_append {s t : String} : Unmarked (s ++ t) ↔ Unmarked s ∧ Unmarked t := by
  simp [Unmarked]

@[simp] theorem unmarked_toString {s : String} : Unmarked (toString s) ↔ Unmarked s := Iff.rfl

@[simp] theorem unmarked_repr (n : Nat) : Unmarked n.repr := by
  intro h
  rw [Nat.toList_repr] at h
  exact absurd (Nat.isDigit_of_mem_toDigits (by decide) (by decide) h) (by decide)

theorem unmarked_intercalate {separator : String} (hs : Unmarked separator) {ss : List String}
    (h : ∀ s ∈ ss, Unmarked s) : Unmarked (separator.intercalate ss) := by
  induction ss with
  | nil => simp [Unmarked]
  | cons s ss ih =>
    obtain ⟨hs₀, hss⟩ := List.forall_mem_cons.1 h
    cases ss with
    | nil => simpa using hs₀
    | cons t ss =>
      rw [String.intercalate_cons_cons, unmarked_append, unmarked_append]
      exact ⟨⟨hs₀, hs⟩, ih hss⟩

/-- A quoted name holds a question mark only if the name does. -/
@[simp] theorem unmarked_identifier {name : String} :
    Unmarked (Text.identifier name) ↔ Unmarked name := by
  have hdoubled : ∀ cs : List Char, '?' ∈ Text.doubled '"' cs ↔ '?' ∈ cs := by
    intro cs
    induction cs with
    | nil => simp [Text.doubled]
    | cons c cs ih =>
      simp only [Text.doubled] at ih
      by_cases hc : c = '"' <;> simp [Text.doubled, hc, ih]
  simp [Unmarked, Text.identifier, Text.quoted, hdoubled]

theorem intercalate_ne_empty {separator first : String} (h : first ≠ "") (rest : List String) :
    separator.intercalate (first :: rest) ≠ "" := by
  cases rest with
  | nil => simpa using h
  | cons second rest =>
    rw [String.intercalate_cons_cons]
    simp [h]

/-- The text of pieces with a separator between them. -/
theorem join_intercalate {α : Type} (sql : α → String) (separator : α) (lines : List (List α)) :
    String.join (([separator].intercalate lines).map sql) =
      (sql separator).intercalate (lines.map fun line => String.join (line.map sql)) := by
  induction lines with
  | nil => rfl
  | cons line lines ih =>
    cases lines with
    | nil => simp
    | cons next lines =>
      rw [List.intercalate_cons_cons, List.map_append, List.map_append, String.join_append,
        String.join_append, ih]
      simp [String.intercalate_cons_cons]

namespace Fragment

/-! ## Parameters of a composition -/

@[simp] theorem params_empty : empty.params = [] := rfl

@[simp] theorem params_raw (s : String) : (raw s).params = [] := rfl

@[simp] theorem params_parameter (v : Value) : (parameter v).params = [v] := rfl

@[simp] theorem params_push (f g : Fragment) : (f.push g).params = f.params ++ g.params := by
  simp [params, push]

@[simp] theorem params_pushRaw (f : Fragment) (s : String) : (f.pushRaw s).params = f.params := by
  simp [pushRaw]

/-- A fragment without text has no placeholder. -/
theorem params_of_isEmpty {f : Fragment} (h : f.isEmpty = true) : f.params = [] := by
  rw [isEmpty, List.all_eq_true] at h
  refine List.filterMap_eq_nil_iff.2 fun p hp => ?_
  cases p with
  | text s => rfl
  | bind v => exact absurd (h _ hp) (by simp [Piece.sql])

@[simp] theorem params_append (f g : Fragment) : (f.append g).params = f.params ++ g.params := by
  unfold append
  split
  · rename_i hg
    simp [params_of_isEmpty hg]
  · split <;> simp

@[simp] theorem params_appendRaw (f : Fragment) (s : String) :
    (f.appendRaw s).params = f.params := by
  simp [appendRaw]

@[simp] theorem params_parens (f : Fragment) : f.parens.params = f.params := by
  simp [parens]

@[simp] theorem params_join (separator : String) (fs : List Fragment) :
    (join separator fs).params = fs.flatMap params := by
  induction fs with
  | nil => rfl
  | cons f fs ih =>
    cases fs with
    | nil => simp [join]
    | cons g fs => simpa [join] using ih

@[simp] theorem params_parameters (vs : List Value) : (parameters vs).params = vs := by
  induction vs with
  | nil => rfl
  | cons v vs ih => simpa [parameters] using ih

/-! ## Fragments without text -/

@[simp] theorem isEmpty_push (f g : Fragment) :
    (f.push g).isEmpty = (f.isEmpty && g.isEmpty) := by
  simp [isEmpty, push]

theorem isEmpty_append {f g : Fragment} (hg : g.isEmpty = false) :
    (f.append g).isEmpty = false := by
  unfold append
  rw [hg]
  split
  · contradiction
  · split <;> simp [pushRaw, hg]

/-! ## Plain fragments -/

/-- No text of the fragment holds a question mark, so the question marks of its SQL are its
placeholders. -/
def Plain (f : Fragment) : Prop :=
  ∀ s, .text s ∈ f.pieces → Unmarked s

@[simp] theorem plain_empty : empty.Plain := by
  simp [Plain, empty]

@[simp] theorem plain_raw {s : String} : (raw s).Plain ↔ Unmarked s := by
  simp [Plain, raw]

@[simp] theorem plain_parameter (v : Value) : (parameter v).Plain := by
  simp [Plain, parameter]

@[simp] theorem plain_push {f g : Fragment} : (f.push g).Plain ↔ f.Plain ∧ g.Plain := by
  simp only [Plain, push, List.mem_append]
  exact ⟨fun h => ⟨fun s hs => h s (.inl hs), fun s hs => h s (.inr hs)⟩,
    fun ⟨hf, hg⟩ s hs => hs.elim (hf s) (hg s)⟩

@[simp] theorem plain_pushRaw {f : Fragment} {s : String} :
    (f.pushRaw s).Plain ↔ f.Plain ∧ Unmarked s := by
  simp [pushRaw]

theorem Plain.append {f g : Fragment} (hf : f.Plain) (hg : g.Plain) : (f.append g).Plain := by
  unfold Fragment.append
  split
  · exact hf
  · split
    · exact plain_push.2 ⟨hf, hg⟩
    · exact plain_push.2 ⟨plain_pushRaw.2 ⟨hf, by decide⟩, hg⟩

theorem Plain.appendRaw {f : Fragment} {s : String} (hf : f.Plain) (hs : Unmarked s) :
    (f.appendRaw s).Plain :=
  hf.append (plain_raw.2 hs)

theorem Plain.parens {f : Fragment} (hf : f.Plain) : f.parens.Plain :=
  plain_pushRaw.2 ⟨plain_push.2 ⟨plain_raw.2 (by decide), hf⟩, by decide⟩

theorem plain_join {separator : String} (hs : Unmarked separator) {fs : List Fragment}
    (h : ∀ f ∈ fs, f.Plain) : (join separator fs).Plain := by
  induction fs with
  | nil => exact plain_empty
  | cons f fs ih =>
    obtain ⟨hf, hfs⟩ := List.forall_mem_cons.1 h
    cases fs with
    | nil => exact hf
    | cons g fs => exact plain_push.2 ⟨plain_pushRaw.2 ⟨hf, hs⟩, ih hfs⟩

theorem plain_parameters (vs : List Value) : (parameters vs).Plain := by
  refine (plain_join (by decide) fun f hf => ?_).parens
  obtain ⟨v, -, rfl⟩ := List.mem_map.1 hf
  exact plain_parameter v

/-! ## Text -/

theorem sql_append (f g : Fragment) : (f.push g).sql = f.sql ++ g.sql := by
  apply String.toList_injective
  simp [sql, push]

@[simp] theorem sql_raw (s : String) : (raw s).sql = s := by
  apply String.toList_injective
  simp [sql, raw, Piece.sql]

@[simp] theorem sql_parameter (v : Value) : (parameter v).sql = "?" := rfl

theorem isEmpty_iff {f : Fragment} : f.isEmpty = true ↔ f.sql = "" := by
  rw [isEmpty, sql, ← String.toList_eq_nil_iff, String.toList_join]
  simp

/-- A blank stands between two fragments unless one of them is without text. -/
theorem sql_append_eq (f g : Fragment) : (f.append g).sql =
    if g.sql = "" then f.sql else if f.sql = "" then g.sql else f.sql ++ " " ++ g.sql := by
  simp only [append, isEmpty_iff]
  split
  · rfl
  · split
    · rename_i hf
      rw [sql_append, hf, String.empty_append]
    · rw [pushRaw, sql_append, sql_append, sql_raw]

theorem sql_append_of_ne {f g : Fragment} (hf : f.sql ≠ "") (hg : g.sql ≠ "") :
    (f.append g).sql = f.sql ++ " " ++ g.sql := by
  rw [sql_append_eq, if_neg hg, if_neg hf]

theorem sql_join (separator : String) (fs : List Fragment) :
    (join separator fs).sql = separator.intercalate (fs.map sql) := by
  induction fs with
  | nil => rfl
  | cons f fs ih =>
    cases fs with
    | nil => simp [join]
    | cons g fs =>
      simp only [join, sql_append, pushRaw, sql_raw, ih, List.map_cons,
        String.intercalate_cons_cons]

theorem sql_parens (f : Fragment) : f.parens.sql = "(" ++ f.sql ++ ")" := by
  rw [parens, pushRaw, sql_append, sql_append, sql_raw, sql_raw]

theorem sql_parameters (vs : List Value) :
    (parameters vs).sql = "(" ++ ", ".intercalate (List.replicate vs.length "?") ++ ")" := by
  rw [parameters, sql_parens, sql_join, List.map_map]
  rw [← List.map_const]
  rfl

/-! ## Question marks -/

/-- A plain fragment has as many question marks as parameters. -/
theorem Plain.count_sql {f : Fragment} (h : f.Plain) :
    f.sql.toList.count '?' = f.params.length := by
  obtain ⟨pieces⟩ := f
  induction pieces with
  | nil => rfl
  | cons p pieces ih =>
    have hrest := ih fun s hs => h s (List.mem_cons_of_mem _ hs)
    simp only [sql, params, String.toList_join] at hrest ⊢
    cases p with
    | text s =>
      have hs : s.toList.count '?' = 0 := List.count_eq_zero.2 (h s List.mem_cons_self)
      simpa [Piece.sql, Piece.value?, List.filterMap_cons, hs] using hrest
    | bind v => simp [Piece.sql, Piece.value?, hrest]

/-- The question mark of the SQL that `k` others stand before is the placeholder of `v`. -/
def PlaceholderAt (f : Fragment) (k : Nat) (v : Value) : Prop :=
  ∃ before after : Fragment, f = (before.push (parameter v)).push after ∧
    f.sql = before.sql ++ "?" ++ after.sql ∧ before.sql.toList.count '?' = k

/-- Cuts a fragment at the placeholder of its `k`-th parameter. -/
theorem exists_split_params {f : Fragment} {k : Nat} (hk : k < f.params.length) :
    ∃ before after : Fragment, f = (before.push (parameter f.params[k])).push after ∧
      before.params.length = k := by
  obtain ⟨pieces⟩ := f
  induction pieces generalizing k with
  | nil => exact absurd hk (Nat.not_lt_zero k)
  | cons p pieces ih =>
    cases p with
    | text s =>
      obtain ⟨before, after, hsplit, hlength⟩ := ih (k := k) hk
      refine ⟨(raw s).push before, after, ?_, by simpa using hlength⟩
      have := congrArg Fragment.pieces hsplit
      simpa [push, raw, parameter, params, Piece.value?, List.filterMap_cons] using this
    | bind v =>
      cases k with
      | zero => exact ⟨empty, ⟨pieces⟩, rfl, rfl⟩
      | succ k =>
        obtain ⟨before, after, hsplit, hlength⟩ := ih (k := k) (Nat.lt_of_succ_lt_succ hk)
        refine ⟨(parameter v).push before, after, ?_, by simpa using hlength⟩
        have := congrArg Fragment.pieces hsplit
        simpa [push, parameter, params, Piece.value?] using this

/-- The `k`-th question mark of a plain fragment is the placeholder of its `k`-th parameter. -/
theorem Plain.placeholderAt {f : Fragment} (h : f.Plain) {k : Nat} (hk : k < f.params.length) :
    f.PlaceholderAt k f.params[k] := by
  obtain ⟨before, after, hsplit, hlength⟩ := exists_split_params hk
  refine ⟨before, after, hsplit, ?_, ?_⟩
  · conv_lhs => rw [hsplit, sql_append, sql_append]
    rfl
  · rw [hsplit, plain_push, plain_push] at h
    rw [h.1.1.count_sql, hlength]

end Fragment

end Tabula
