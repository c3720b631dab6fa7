import Tabula.Proofs.Text.Quoted
import Tabula.Proofs.Fragment
import Tabula.Value.Literal

/-!
# Names within a text

SQL as passages: text as it is, and quoted names. A name is read back where it stands, whatever
characters it has, since what follows it never begins with another mark.
-/

namespace Tabula

namespace Text

variable {mark : Char} {s t : String} {rest : List Char}

/-! ## Quoted texts -/

/-- A quoted text is read up to its own end, and as what has been quoted. -/
theorem unquote_quoted (h : rest.head? ≠ some mark) :
    unquote mark ((quoted mark s).toList ++ rest) = some (s.toList, rest) := by
  have hread : unquote mark (mark :: (doubled mark s.toList ++ mark :: rest)) =
      some (s.toList, rest) := (unquote_marked_eq_some_iff h).2 rfl
  rw [quoted, String.toList_ofList]
  simpa using hread

theorem quoted_inj : quoted mark s = quoted mark t ↔ s = t := by
  constructor
  · intro h
    have hs : unquote mark ((quoted mark s).toList ++ []) = some (s.toList, []) :=
      unquote_quoted nofun
    rw [h, unquote_quoted (by simp)] at hs
    exact String.toList_injective (congrArg Prod.fst (Option.some_inj.1 hs)).symm
  · rintro rfl
    rfl

end Text

/-- A part of SQL: text as it is, or a name between marks. -/
inductive Passage where
  | text (s : String)
  | name (s : String)
deriving DecidableEq

namespace Passage

def sql : Passage → String
  | text s => s
  | name s => Text.identifier s

def name? : Passage → Option String
  | text _ => none
  | name s => some s

/-- The text of passages one behind another. -/
def join (ps : List Passage) : String :=
  String.join (ps.map sql)

def names (ps : List Passage) : List String :=
  ps.filterMap name?

/-- The text does not begin with a mark. -/
def Clear (ps : List Passage) : Prop :=
  (join ps).toList.head? ≠ some '"'

/-- No name is followed by a mark. -/
def Separated : List Passage → Prop
  | [] => True
  | text _ :: ps => Separated ps
  | name _ :: ps => Clear ps ∧ Separated ps

variable {ps qs : List Passage} {s separator : String} {lines : List (List Passage)}

/-! ## Texts -/

@[simp] theorem join_nil : join [] = "" := rfl

@[simp] theorem join_cons (p : Passage) (ps : List Passage) :
    join (p :: ps) = p.sql ++ join ps := by
  rw [join, List.map_cons, String.join_cons, join]

@[simp] theorem join_append (ps qs : List Passage) : join (ps ++ qs) = join ps ++ join qs := by
  rw [join, List.map_append, String.join_append, join, join]

theorem join_lines (separator : String) (lines : List (List Passage)) :
    join ([text separator].intercalate lines) = separator.intercalate (lines.map join) :=
  join_intercalate sql (text separator) lines

@[simp] theorem names_nil : names [] = [] := rfl

@[simp] theorem names_text (s : String) (ps : List Passage) : names (text s :: ps) = names ps := rfl

@[simp] theorem names_name (s : String) (ps : List Passage) :
    names (name s :: ps) = s :: names ps := rfl

@[simp] theorem names_append (ps qs : List Passage) : names (ps ++ qs) = names ps ++ names qs :=
  List.filterMap_append

theorem names_flatMap {α : Type} (line : α → List Passage) (xs : List α) :
    names (xs.flatMap line) = xs.flatMap fun x => names (line x) :=
  List.filterMap_flatMap

theorem names_lines (separator : String) (lines : List (List Passage)) :
    names ([text separator].intercalate lines) = lines.flatMap names := by
  induction lines with
  | nil => rfl
  | cons line lines ih =>
    cases lines with
    | nil => simp
    | cons next lines =>
      rw [List.intercalate_cons_cons, names_append, names_append, ih, names_text, names_nil,
        List.append_nil, ← List.flatMap_cons]

/-! ## What follows a name -/

theorem head_append_ne {c : Char} {cs ds : List Char} (hcs : cs.head? ≠ some c)
    (hds : ds.head? ≠ some c) : (cs ++ ds).head? ≠ some c := by
  cases cs with
  | nil => exact hds
  | cons d cs => exact hcs

theorem clear_nil : Clear [] := by
  simp [Clear]

theorem clear_text (hs : s.toList.head? ≠ some '"') (hps : Clear ps) : Clear (text s :: ps) := by
  rw [Clear, join_cons, String.toList_append]
  exact head_append_ne hs hps

theorem Clear.append (hps : Clear ps) (hqs : Clear qs) : Clear (ps ++ qs) := by
  rw [Clear, join_append, String.toList_append]
  exact head_append_ne hps hqs

theorem Separated.append (hps : Separated ps) (hqs : Separated qs) (hclear : Clear qs) :
    Separated (ps ++ qs) := by
  induction ps with
  | nil => exact hqs
  | cons p ps ih =>
    cases p with
    | text s => exact ih hps
    | name s => exact ⟨hps.1.append hclear, ih hps.2⟩

/-- Lines are kept apart by what stands between them. -/
theorem separated_lines (hseparator : separator.toList.head? ≠ some '"') (hne : separator ≠ "")
    (h : ∀ line ∈ lines, Separated line) : Separated ([text separator].intercalate lines) := by
  induction lines with
  | nil => trivial
  | cons line lines ih =>
    obtain ⟨hline, hlines⟩ := List.forall_mem_cons.1 h
    cases lines with
    | nil => simpa using hline
    | cons next lines =>
      have hclear : Clear (text separator :: [text separator].intercalate (next :: lines)) := by
        rw [Clear, join_cons, String.toList_append, sql]
        cases hcs : separator.toList with
        | nil => exact absurd (String.toList_eq_nil_iff.1 hcs) hne
        | cons c cs =>
          rw [hcs] at hseparator
          exact hseparator
      rw [List.intercalate_cons_cons, List.append_assoc]
      exact hline.append (ih hlines) hclear

/-- A name is read up to its own end. -/
theorem unquote_name {before after : List Passage} (h : Separated (before ++ name s :: after)) :
    Text.unquote '"' (join (name s :: after)).toList = some (s.toList, (join after).toList) := by
  induction before with
  | nil =>
    rw [join_cons, String.toList_append]
    exact Text.unquote_quoted h.1
  | cons p before ih =>
    cases p with
    | text t => exact ih h
    | name t => exact ih h.2

/-- The passages make up the text, and each name among them is read up to its own end where it
stands. -/
structure Spells (ps : List Passage) (s : String) : Prop where
  text : s = join ps
  name : ∀ before name after, ps = before ++ Passage.name name :: after →
    Text.unquote '"' (join (Passage.name name :: after)).toList =
      some (name.toList, (join after).toList)

theorem Separated.spells (h : Separated ps) : Spells ps (join ps) where
  text := rfl
  name := by
    rintro before name after rfl
    exact unquote_name h

end Passage

end Tabula
