import Tabula.Proofs.Fragment
import Mathlib.Data.List.Nodup

/-!
# Expressions over fragments

Statements are made by operations on fragments. An expression says which operations, and its trace
keeps text and parameters apart and says of each character and of each parameter which operation it
comes from. If no text of an expression holds a question mark, the question marks come from the
operations that supply the parameters, in the order of the parameters.
-/

namespace Tabula.Fragment

/-- Operations on fragments and what they are applied to. -/
inductive Expr where
  | empty
  | raw (s : String)
  | parameter (v : Value)
  | parameters (vs : List Value)
  | pushRaw (e : Expr) (s : String)
  | push (e₁ e₂ : Expr)
  | pushParam (e : Expr) (v : Value)
  | append (e₁ e₂ : Expr)
  | appendRaw (e : Expr) (s : String)
  | join (separator : String) (es : List Expr)
  | parens (e : Expr)

/-- The way to an operation: which operand to take, from the outside in. The last step may lead to
a value of a list. -/
abbrev Site := List Nat

namespace Expr

mutual

/-- The fragment that is made. -/
def eval : Expr → Fragment
  | empty => Fragment.empty
  | raw s => Fragment.raw s
  | parameter v => Fragment.parameter v
  | parameters vs => Fragment.parameters vs
  | pushRaw e s => e.eval.pushRaw s
  | push e₁ e₂ => e₁.eval.push e₂.eval
  | pushParam e v => e.eval.pushParam v
  | append e₁ e₂ => e₁.eval.append e₂.eval
  | appendRaw e s => e.eval.appendRaw s
  | join separator es => Fragment.join separator (evalAll es)
  | parens e => e.eval.parens

def evalAll : List Expr → List Fragment
  | [] => []
  | e :: es => e.eval :: evalAll es

end

mutual

/-- No text and no separator holds a question mark. -/
def Plain : Expr → Prop
  | empty | parameter _ | parameters _ => True
  | raw s => Unmarked s
  | pushRaw e s | appendRaw e s => e.Plain ∧ Unmarked s
  | push e₁ e₂ | append e₁ e₂ => e₁.Plain ∧ e₂.Plain
  | pushParam e _ | parens e => e.Plain
  | join separator es => Unmarked separator ∧ PlainAll es

def PlainAll : List Expr → Prop
  | [] => True
  | e :: es => e.Plain ∧ PlainAll es

end

mutual

/-- The value that the operation at a site supplies. -/
def supplied? : Expr → Site → Option Value
  | parameter v, [] => some v
  | pushParam _ v, [] => some v
  | parameters vs, [i] => vs[i]?
  | pushRaw e _, 0 :: site => e.supplied? site
  | push e _, 0 :: site => e.supplied? site
  | push _ e, 1 :: site => e.supplied? site
  | pushParam e _, 0 :: site => e.supplied? site
  | append e _, 0 :: site => e.supplied? site
  | append _ e, 1 :: site => e.supplied? site
  | appendRaw e _, 0 :: site => e.supplied? site
  | join _ es, i :: site => suppliedAt? es i site
  | parens e, 0 :: site => e.supplied? site
  | _, _ => none

def suppliedAt? : List Expr → Nat → Site → Option Value
  | [], _, _ => none
  | e :: _, 0, site => e.supplied? site
  | _ :: es, i + 1, site => suppliedAt? es i site

end

end Expr

/-! ## Traces -/

/-- Text and parameters, each with the site it comes from. -/
structure Traced where
  text : List (Char × Site)
  params : List (Value × Site)

namespace Traced

def empty : Traced :=
  ⟨[], []⟩

def raw (s : String) : Traced :=
  ⟨s.toList.map fun c => (c, []), []⟩

def parameter (v : Value) : Traced :=
  ⟨[('?', [])], [(v, [])]⟩

/-- Placeholders for values from the `i`-th on, with commas between them. -/
def placeholders : Nat → List Value → List (Char × Site)
  | _, [] => []
  | i, [_] => [('?', [i])]
  | i, _ :: v :: vs => ('?', [i]) :: (',', []) :: (' ', []) :: placeholders (i + 1) (v :: vs)

def parameters (vs : List Value) : Traced :=
  ⟨('(', []) :: (placeholders 0 vs ++ [(')', [])]), vs.zipIdx.map fun p => (p.1, [p.2])⟩

def push (t u : Traced) : Traced :=
  ⟨t.text ++ u.text, t.params ++ u.params⟩

/-- A trace without text would add its parameters all the same. -/
def append (t u : Traced) : Traced :=
  if u.text = [] then ⟨t.text, t.params ++ u.params⟩
  else if t.text = [] then t.push u
  else (t.push (raw " ")).push u

def join (separator : String) : List Traced → Traced
  | [] => empty
  | [t] => t
  | t :: u :: rest => (t.push (raw separator)).push (join separator (u :: rest))

/-- The trace of an operand. -/
def under (i : Nat) (t : Traced) : Traced :=
  ⟨t.text.map fun c => (c.1, i :: c.2), t.params.map fun p => (p.1, i :: p.2)⟩

end Traced

namespace Expr

mutual

/-- Where the text and the parameters of an expression come from. -/
def trace : Expr → Traced
  | empty => .empty
  | raw s => .raw s
  | parameter v => .parameter v
  | parameters vs => .parameters vs
  | pushRaw e s => (e.trace.under 0).push (.raw s)
  | push e₁ e₂ => (e₁.trace.under 0).push (e₂.trace.under 1)
  | pushParam e v => (e.trace.under 0).push (.parameter v)
  | append e₁ e₂ => (e₁.trace.under 0).append (e₂.trace.under 1)
  | appendRaw e s => (e.trace.under 0).append (.raw s)
  | join separator es => Traced.join separator (traceAll 0 es)
  | parens e => ((Traced.raw "(").push (e.trace.under 0)).push (.raw ")")

def traceAll : Nat → List Expr → List Traced
  | _, [] => []
  | i, e :: es => e.trace.under i :: traceAll (i + 1) es

end

end Expr

namespace Traced

variable {t u : Traced} {f g : Fragment} {i : Nat}

/-! ## Text and parameters -/

/-- The trace is one of the fragment. -/
structure Describes (t : Traced) (f : Fragment) : Prop where
  text : t.text.map Prod.fst = f.sql.toList
  params : t.params.map Prod.fst = f.params

theorem Describes.text_eq_nil_iff (h : t.Describes f) : t.text = [] ↔ f.isEmpty = true := by
  rw [isEmpty_iff, ← String.toList_eq_nil_iff, ← h.text, List.map_eq_nil_iff]

theorem describes_raw (s : String) : (raw s).Describes (Fragment.raw s) where
  text := by
    rw [raw, sql_raw, List.map_map]
    exact List.map_id _
  params := rfl

theorem describes_parameter (v : Value) : (parameter v).Describes (Fragment.parameter v) where
  text := by rw [sql_parameter]; rfl
  params := rfl

theorem map_fst_placeholders (i : Nat) (vs : List Value) : (placeholders i vs).map Prod.fst =
    (", ".intercalate (List.replicate vs.length "?")).toList := by
  induction vs generalizing i with
  | nil => rfl
  | cons v vs ih =>
    cases vs with
    | nil => simp [placeholders]
    | cons w vs =>
      have hrest := ih (i + 1)
      rw [List.length_cons, List.replicate_succ] at hrest
      rw [List.length_cons, List.length_cons, List.replicate_succ, List.replicate_succ,
        String.intercalate_cons_cons, String.toList_append, String.toList_append, ← hrest]
      rfl

theorem describes_parameters (vs : List Value) :
    (parameters vs).Describes (Fragment.parameters vs) where
  text := by
    rw [sql_parameters, String.toList_append, String.toList_append, ← map_fst_placeholders 0 vs]
    simp [parameters]
  params := by
    rw [parameters, params_parameters, List.map_map]
    exact List.zipIdx_map_fst 0 vs

theorem Describes.push (ht : t.Describes f) (hu : u.Describes g) :
    (t.push u).Describes (f.push g) where
  text := by rw [Traced.push, List.map_append, ht.text, hu.text, sql_append, String.toList_append]
  params := by rw [Traced.push, List.map_append, ht.params, hu.params, params_push]

theorem Describes.append (ht : t.Describes f) (hu : u.Describes g) :
    (t.append u).Describes (f.append g) := by
  rw [Traced.append, Fragment.append]
  by_cases hg : g.isEmpty = true
  · rw [if_pos (hu.text_eq_nil_iff.2 hg), if_pos hg]
    -- there are no parameters to be moved without text
    have hparams : u.params.map Prod.fst = [] := by rw [hu.params, params_of_isEmpty hg]
    rw [List.map_eq_nil_iff.1 hparams, List.append_nil]
    exact ht
  · rw [if_neg (mt hu.text_eq_nil_iff.1 hg), if_neg hg]
    by_cases hf : f.isEmpty = true
    · rw [if_pos (ht.text_eq_nil_iff.2 hf), if_pos hf]
      exact ht.push hu
    · rw [if_neg (mt ht.text_eq_nil_iff.1 hf), if_neg hf]
      exact (ht.push (describes_raw " ")).push hu

theorem Describes.under (h : t.Describes f) : (t.under i).Describes f where
  text := by rw [Traced.under, List.map_map, ← h.text]; rfl
  params := by rw [Traced.under, List.map_map, ← h.params]; rfl

theorem describes_join (separator : String) {ts : List Traced} {fs : List Fragment}
    (h : List.Forall₂ Describes ts fs) :
    (join separator ts).Describes (Fragment.join separator fs) := by
  induction h with
  | nil => exact ⟨rfl, rfl⟩
  | cons ht hts ih =>
    cases hts with
    | nil => exact ht
    | cons hu hus => exact (ht.push (describes_raw separator)).push ih

/-! ## Parameters -/

theorem params_push (t u : Traced) : (t.push u).params = t.params ++ u.params := rfl

theorem params_raw (s : String) : (raw s).params = [] := rfl

theorem params_append (t u : Traced) : (t.append u).params = t.params ++ u.params := by
  unfold append
  split_ifs
  · rfl
  · rfl
  · rw [params_push, params_push, params_raw, List.append_nil]

theorem params_join (separator : String) (ts : List Traced) :
    (join separator ts).params = ts.flatMap params := by
  induction ts with
  | nil => rfl
  | cons t ts ih =>
    cases ts with
    | nil => simp [join]
    | cons u ts =>
      rw [List.flatMap_cons, ← ih, join, params_push, params_push, params_raw, List.append_nil]

/-- Each parameter is what is supplied at its site. -/
def Supplied (supply : Site → Option Value) (t : Traced) : Prop :=
  ∀ p ∈ t.params, supply p.2 = some p.1

variable {supply : Site → Option Value}

theorem supplied_raw (s : String) : (raw s).Supplied supply := nofun

theorem supplied_parameter {v : Value} (h : supply [] = some v) :
    (parameter v).Supplied supply := by
  intro p hp
  obtain rfl := List.mem_singleton.1 hp
  exact h

theorem supplied_parameters {vs : List Value} (h : ∀ i, supply [i] = vs[i]?) :
    (parameters vs).Supplied supply := by
  intro p hp
  obtain ⟨⟨v, i⟩, hmem, rfl⟩ := List.mem_map.1 hp
  exact (h i).trans (List.mk_mem_zipIdx_iff_getElem?.1 hmem)

theorem Supplied.push (ht : t.Supplied supply) (hu : u.Supplied supply) :
    (t.push u).Supplied supply :=
  fun p hp => (List.mem_append.1 hp).elim (ht p) (hu p)

theorem Supplied.append (ht : t.Supplied supply) (hu : u.Supplied supply) :
    (t.append u).Supplied supply := by
  intro p hp
  rw [params_append] at hp
  exact (List.mem_append.1 hp).elim (ht p) (hu p)

theorem Supplied.under (h : t.Supplied fun site => supply (i :: site)) :
    (t.under i).Supplied supply := by
  intro p hp
  obtain ⟨q, hq, rfl⟩ := List.mem_map.1 hp
  exact h q hq

/-! ## Sites -/

/-- The sites of the parameters. -/
def sites (t : Traced) : List Site :=
  t.params.map Prod.snd

theorem sites_push (t u : Traced) : (t.push u).sites = t.sites ++ u.sites :=
  List.map_append

theorem sites_append (t u : Traced) : (t.append u).sites = t.sites ++ u.sites := by
  rw [sites, params_append, List.map_append, sites, sites]

theorem sites_raw (s : String) : (raw s).sites = [] := rfl

theorem sites_under (i : Nat) (t : Traced) : (t.under i).sites = t.sites.map (i :: ·) := by
  rw [sites, under, sites, List.map_map, List.map_map]
  rfl

theorem sites_parameters (vs : List Value) : (parameters vs).sites = vs.zipIdx.map fun p => [p.2] :=
  List.map_map

theorem sites_join (separator : String) (ts : List Traced) :
    (join separator ts).sites = ts.flatMap sites := by
  rw [sites, params_join, List.map_flatMap]
  rfl

theorem nodup_sites_under (h : t.sites.Nodup) : (t.under i).sites.Nodup := by
  rw [sites_under]
  exact List.Nodup.map (fun _ _ heq => (List.cons.inj heq).2) h

theorem head_of_mem_sites_under {site : Site} (h : site ∈ (t.under i).sites) :
    site.head? = some i := by
  rw [sites_under] at h
  obtain ⟨_, -, rfl⟩ := List.mem_map.1 h
  rfl

/-- Two operands have their sites apart. -/
theorem nodup_sites_operands (ht : t.sites.Nodup) (hu : u.sites.Nodup) :
    ((t.under 0).sites ++ (u.under 1).sites).Nodup := by
  refine List.nodup_append.2 ⟨nodup_sites_under ht, nodup_sites_under hu, ?_⟩
  rintro site hsite _ hsite' rfl
  have hhead := head_of_mem_sites_under hsite
  rw [head_of_mem_sites_under hsite'] at hhead
  cases hhead

theorem nodup_sites_parameters (vs : List Value) : (parameters vs).sites.Nodup := by
  have hindices : (vs.zipIdx.map Prod.snd).Nodup := by
    rw [List.zipIdx_map_snd]
    exact List.nodup_range'
  have hsites : (parameters vs).sites = (vs.zipIdx.map Prod.snd).map fun i => [i] := by
    rw [sites_parameters, List.map_map]
    rfl
  rw [hsites]
  exact List.Nodup.map (fun _ _ heq => (List.cons.inj heq).1) hindices

/-! ## Question marks -/

/-- The sites of the question marks. -/
def marks (t : Traced) : List Site :=
  (t.text.filter fun c => c.1 = '?').map Prod.snd

/-- The question marks come from where the parameters come from, in the same order. -/
def Matched (t : Traced) : Prop :=
  t.marks = t.sites

theorem marks_push : (t.push u).marks = t.marks ++ u.marks := by
  rw [marks, push, List.filter_append, List.map_append, marks, marks]

theorem marks_under : (t.under i).marks = t.marks.map (i :: ·) := by
  rw [marks, under, List.filter_map, List.map_map, marks, List.map_map]
  rfl

theorem marks_raw {s : String} (h : Unmarked s) : (raw s).marks = [] := by
  rw [marks, List.map_eq_nil_iff, List.filter_eq_nil_iff]
  intro c hc
  obtain ⟨d, hd, rfl⟩ := List.mem_map.1 hc
  rw [decide_eq_true_eq]
  rintro rfl
  exact h hd

theorem matched_raw {s : String} (h : Unmarked s) : (raw s).Matched :=
  marks_raw h

theorem Matched.push (ht : t.Matched) (hu : u.Matched) : (t.push u).Matched := by
  rw [Matched, marks_push, ht, hu, sites_push]

theorem Matched.append (ht : t.Matched) (hu : u.Matched) : (t.append u).Matched := by
  unfold Traced.append
  split_ifs with hempty
  · have hsites : u.sites = [] := by rw [← hu, marks, hempty]; rfl
    rw [List.map_eq_nil_iff.1 hsites, List.append_nil]
    exact ht
  · exact ht.push hu
  · exact (ht.push (matched_raw (by decide))).push hu

theorem Matched.under (h : t.Matched) : (t.under i).Matched := by
  rw [Matched, marks_under, h, sites_under]

theorem matched_join {separator : String} (hseparator : Unmarked separator) {ts : List Traced}
    (h : ∀ t ∈ ts, t.Matched) : (join separator ts).Matched := by
  induction ts with
  | nil => rfl
  | cons t ts ih =>
    obtain ⟨ht, hts⟩ := List.forall_mem_cons.1 h
    cases ts with
    | nil => exact ht
    | cons u ts => exact (ht.push (matched_raw hseparator)).push (ih hts)

theorem marks_placeholders (i : Nat) (vs : List Value) :
    ((placeholders i vs).filter fun c => c.1 = '?').map Prod.snd =
      (vs.zipIdx i).map fun p => [p.2] := by
  induction vs generalizing i with
  | nil => rfl
  | cons v vs ih =>
    cases vs with
    | nil => rfl
    | cons w vs => exact congrArg ([i] :: ·) (ih (i + 1))

theorem matched_parameters (vs : List Value) : (parameters vs).Matched := by
  have hmarks := marks_placeholders 0 vs
  rw [Matched, sites_parameters, ← hmarks, marks, parameters,
    List.filter_cons_of_neg (by decide), List.filter_append, List.filter_cons_of_neg (by decide),
    List.filter_nil, List.append_nil]

end Traced

namespace Expr

/-! ## Expressions -/

open Traced (Describes Matched)

mutual

theorem describes_trace : (e : Expr) → e.trace.Describes e.eval
  | empty => ⟨rfl, rfl⟩
  | raw s => Traced.describes_raw s
  | parameter v => Traced.describes_parameter v
  | parameters vs => Traced.describes_parameters vs
  | pushRaw e s => (describes_trace e).under.push (Traced.describes_raw s)
  | push e₁ e₂ => (describes_trace e₁).under.push (describes_trace e₂).under
  | pushParam e v => (describes_trace e).under.push (Traced.describes_parameter v)
  | append e₁ e₂ => (describes_trace e₁).under.append (describes_trace e₂).under
  | appendRaw e s => (describes_trace e).under.append (Traced.describes_raw s)
  | join separator es => Traced.describes_join separator (describes_traceAll 0 es)
  | parens e => ((Traced.describes_raw "(").push (describes_trace e).under).push
      (Traced.describes_raw ")")

theorem describes_traceAll :
    (i : Nat) → (es : List Expr) → List.Forall₂ Describes (traceAll i es) (evalAll es)
  | _, [] => .nil
  | i, e :: es => .cons (describes_trace e).under (describes_traceAll (i + 1) es)

end

mutual

theorem matched_trace : (e : Expr) → e.Plain → e.trace.Matched
  | empty, _ => rfl
  | raw _, h => Traced.matched_raw h
  | parameter _, _ => rfl
  | parameters vs, _ => Traced.matched_parameters vs
  | pushRaw e _, h => (matched_trace e h.1).under.push (Traced.matched_raw h.2)
  | push e₁ e₂, h => (matched_trace e₁ h.1).under.push (matched_trace e₂ h.2).under
  | pushParam e v, h => (matched_trace e h).under.push (show (Traced.parameter v).Matched from rfl)
  | append e₁ e₂, h => (matched_trace e₁ h.1).under.append (matched_trace e₂ h.2).under
  | appendRaw e _, h => (matched_trace e h.1).under.append (Traced.matched_raw h.2)
  | join _ es, h => Traced.matched_join h.1 (matched_traceAll 0 es h.2)
  | parens e, h => ((Traced.matched_raw (by decide)).push (matched_trace e h).under).push
      (Traced.matched_raw (by decide))

theorem matched_traceAll : (i : Nat) → (es : List Expr) → PlainAll es →
    ∀ t ∈ traceAll i es, t.Matched
  | _, [], _ => nofun
  | i, e :: es, h => List.forall_mem_cons.2
      ⟨(matched_trace e h.1).under, matched_traceAll (i + 1) es h.2⟩

end

mutual

theorem supplied_trace : (e : Expr) → e.trace.Supplied e.supplied?
  | empty => nofun
  | raw s => Traced.supplied_raw s
  | parameter _ => Traced.supplied_parameter rfl
  | parameters _ => Traced.supplied_parameters fun _ => rfl
  | pushRaw e s => (supplied_trace e).under.push (Traced.supplied_raw s)
  | push e₁ e₂ => (supplied_trace e₁).under.push (supplied_trace e₂).under
  | pushParam e _ => (supplied_trace e).under.push (Traced.supplied_parameter rfl)
  | append e₁ e₂ => (supplied_trace e₁).under.append (supplied_trace e₂).under
  | appendRaw e s => (supplied_trace e).under.append (Traced.supplied_raw s)
  | join separator es => by
      intro p hp
      rw [trace, Traced.params_join] at hp
      obtain ⟨j, site, hsite, hsupplied⟩ := supplied_traceAll 0 es p hp
      rw [hsite, Nat.zero_add]
      exact hsupplied
  | parens e => ((Traced.supplied_raw "(").push (supplied_trace e).under).push
      (Traced.supplied_raw ")")

theorem supplied_traceAll : (i : Nat) → (es : List Expr) →
    ∀ p ∈ (traceAll i es).flatMap Traced.params,
      ∃ j site, p.2 = (i + j) :: site ∧ suppliedAt? es j site = some p.1
  | _, [] => nofun
  | i, e :: es => by
      intro p hp
      rcases List.mem_append.1 hp with hp | hp
      · obtain ⟨q, hq, rfl⟩ := List.mem_map.1 hp
        exact ⟨0, q.2, rfl, supplied_trace e q hq⟩
      · obtain ⟨j, site, hsite, hsupplied⟩ := supplied_traceAll (i + 1) es p hp
        exact ⟨j + 1, site, by rw [hsite, Nat.add_right_comm]; rfl, hsupplied⟩

end

mutual

theorem nodup_sites_trace : (e : Expr) → e.trace.sites.Nodup
  | empty | raw _ => List.nodup_nil
  | parameter _ => List.nodup_singleton _
  | parameters vs => Traced.nodup_sites_parameters vs
  | pushRaw e s => by
      rw [trace, Traced.sites_push, Traced.sites_raw, List.append_nil]
      exact Traced.nodup_sites_under (nodup_sites_trace e)
  | appendRaw e s => by
      rw [trace, Traced.sites_append, Traced.sites_raw, List.append_nil]
      exact Traced.nodup_sites_under (nodup_sites_trace e)
  | push e₁ e₂ => by
      rw [trace, Traced.sites_push]
      exact Traced.nodup_sites_operands (nodup_sites_trace e₁) (nodup_sites_trace e₂)
  | pushParam e v => by
      rw [trace, Traced.sites_push]
      refine List.nodup_append.2 ⟨Traced.nodup_sites_under (nodup_sites_trace e),
        List.nodup_singleton _, ?_⟩
      rintro site hsite _ hsite' rfl
      rw [List.mem_singleton.1 hsite'] at hsite
      cases Traced.head_of_mem_sites_under hsite
  | append e₁ e₂ => by
      rw [trace, Traced.sites_append]
      exact Traced.nodup_sites_operands (nodup_sites_trace e₁) (nodup_sites_trace e₂)
  | join separator es => by
      rw [trace, Traced.sites_join]
      exact nodup_sites_traceAll 0 es
  | parens e => by
      rw [trace, Traced.sites_push, Traced.sites_push, Traced.sites_raw, Traced.sites_raw,
        List.append_nil]
      exact Traced.nodup_sites_under (nodup_sites_trace e)

theorem nodup_sites_traceAll : (i : Nat) → (es : List Expr) →
    ((traceAll i es).flatMap Traced.sites).Nodup
  | _, [] => List.nodup_nil
  | i, e :: es => by
      refine List.nodup_append.2 ⟨Traced.nodup_sites_under (nodup_sites_trace e),
        nodup_sites_traceAll (i + 1) es, ?_⟩
      rintro site hsite _ hsite' rfl
      -- the sites of later operands begin with later numbers
      obtain ⟨t, ht, hmem⟩ := List.mem_flatMap.1 hsite'
      obtain ⟨p, hp, rfl⟩ := List.mem_map.1 hmem
      obtain ⟨j, rest, hlater, -⟩ :=
        supplied_traceAll (i + 1) es p (List.mem_flatMap.2 ⟨t, ht, hp⟩)
      have hhead := Traced.head_of_mem_sites_under hsite
      rw [hlater] at hhead
      have := Option.some_inj.1 hhead
      omega

end

end Expr

/-! ## Appending -/

section

variable (f g h : Fragment)

theorem sql_append_assoc : ((f.append g).append h).sql = (f.append (g.append h)).sql := by
  simp only [sql_append_eq]
  by_cases hf : f.sql = "" <;> by_cases hg : g.sql = "" <;> by_cases hh : h.sql = "" <;>
    simp [hf, hg, hh, String.append_assoc]

theorem params_append_assoc :
    ((f.append g).append h).params = (f.append (g.append h)).params := by
  rw [params_append, params_append, params_append, params_append, List.append_assoc]

theorem sql_append_empty : (f.append empty).sql = f.sql := rfl

theorem sql_empty_append : (empty.append f).sql = f.sql := by
  rw [sql_append_eq]
  by_cases hf : f.sql = ""
  · rw [if_pos hf, hf]
    rfl
  · rw [if_neg hf, if_pos (show empty.sql = "" from rfl)]

end

/-! ## Placeholders in order -/

namespace Expr

variable {e : Expr} {k : Nat} {v : Value}

theorem count_of_plain (h : e.Plain) : e.eval.sql.toList.count '?' = e.eval.params.length := by
  have hdescribes := describes_trace e
  have hmatched := congrArg List.length (matched_trace e h)
  rw [Traced.marks, Traced.sites, List.length_map, List.length_map,
    ← List.countP_eq_length_filter] at hmatched
  rw [← hdescribes.text, ← hdescribes.params, List.length_map, ← hmatched, List.count,
    List.countP_map]
  rfl

/-- The question mark of a parameter comes from the operation that supplies it. -/
theorem supplied_mark (h : e.Plain) (hv : e.eval.params[k]? = some v) :
    ∃ site, e.trace.marks[k]? = some site ∧ e.supplied? site = some v := by
  rw [← (describes_trace e).params, List.getElem?_map] at hv
  obtain ⟨⟨w, site⟩, hp, rfl⟩ := Option.map_eq_some_iff.1 hv
  refine ⟨site, ?_, supplied_trace e _ (List.mem_of_getElem? hp)⟩
  rw [matched_trace e h, Traced.sites, List.getElem?_map, hp]
  rfl

/-- The trace of an expression has the text and the parameters of the fragment that is made, no two
parameters from one site, and a fragment without text has no parameters. If no text holds a question
mark, there is one for each parameter, and the `k`-th comes from the operation that supplies the
`k`-th parameter. Appending is associative, and the empty fragment adds nothing on either side. -/
theorem marks_of_plain :
    (∀ e : Expr, e.trace.text.map Prod.fst = e.eval.sql.toList ∧
      e.trace.params.map Prod.fst = e.eval.params ∧ e.trace.sites.Nodup ∧
      (e.eval.sql = "" → e.eval.params = [])) ∧
    (∀ e : Expr, e.Plain → e.eval.sql.toList.count '?' = e.eval.params.length ∧
      e.trace.marks = e.trace.sites ∧
      ∀ (k : Nat) (v : Value), e.eval.params[k]? = some v →
        ∃ site, e.trace.marks[k]? = some site ∧ e.supplied? site = some v) ∧
    (∀ f g h : Fragment, ((f.append g).append h).sql = (f.append (g.append h)).sql ∧
      ((f.append g).append h).params = (f.append (g.append h)).params) ∧
    ∀ f : Fragment, (f.append .empty).sql = f.sql ∧ (f.append .empty).params = f.params ∧
      (Fragment.empty.append f).sql = f.sql ∧ (Fragment.empty.append f).params = f.params := by
  refine ⟨fun e => ?_, fun e h => ?_, fun f g h => ?_, fun f => ?_⟩
  · have hdescribes := describes_trace e
    exact ⟨hdescribes.text, hdescribes.params, nodup_sites_trace e,
      fun hempty => params_of_isEmpty (isEmpty_iff.2 hempty)⟩
  · exact ⟨count_of_plain h, matched_trace e h, fun _ _ => supplied_mark h⟩
  · exact ⟨sql_append_assoc f g h, params_append_assoc f g h⟩
  · refine ⟨sql_append_empty f, rfl, sql_empty_append f, ?_⟩
    rw [params_append, params_empty, List.nil_append]

/-- `select * from t where a = ? and b in (?, ?)` -/
def selection : Expr :=
  (((raw "select * from t where a =").append (parameter (.integer 1))).appendRaw "and b in").append
    (parameters [.text "x", .text "y"])

theorem marks_of_plain_selection : selection.Plain ∧
    selection.eval.sql = "select * from t where a = ? and b in (?, ?)" ∧
    selection.eval.sql.toList.count '?' = 3 ∧
    ∃ site, selection.trace.marks[2]? = some site ∧
      selection.supplied? site = some (.text "y") := by
  have hfirst : Unmarked "select * from t where a =" := by decide
  have hsecond : Unmarked "and b in" := by decide
  have hplain : selection.Plain := ⟨⟨⟨hfirst, trivial⟩, hsecond⟩, trivial⟩
  have hparams : selection.eval.params = [.integer 1, .text "x", .text "y"] := by rfl
  obtain ⟨hcount, -, hsupplied⟩ := marks_of_plain.2.1 selection hplain
  refine ⟨hplain, by decide, ?_, hsupplied 2 _ ?_⟩
  · rw [hcount, hparams]
    rfl
  · rw [hparams]
    rfl

end Expr

end Tabula.Fragment
