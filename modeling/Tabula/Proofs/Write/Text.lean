import Tabula.Plan.Compiled
import Tabula.Proofs.Fragment

/-!
# Texts of the clauses behind a statement

A condition and the returned columns stand behind what a statement says, each after a blank. They
add the same text to every statement that says anything.
-/

namespace Tabula

/-- The text that a condition adds. -/
def conditionText (keyword : String) : Option Predicate → String
  | none => ""
  | some p => if p.render.sql = "" then "" else s!" {keyword} {p.render.sql}"

/-- The text that the returned columns add. -/
def returningText : Option (List Column) → String
  | none => ""
  | some columns => s!" {Returning.render columns}"

namespace Fragment

variable {f : Fragment}

theorem sql_appendRaw_of_ne (hf : f.sql ≠ "") {s : String} (hs : s ≠ "") :
    (f.appendRaw s).sql = f.sql ++ " " ++ s := by
  rw [appendRaw, sql_append_of_ne hf (by rwa [sql_raw]), sql_raw]

theorem sql_appendCondition (hf : f.sql ≠ "") {keyword : String} (hkeyword : keyword ≠ "")
    (p : Option Predicate) :
    (f.appendCondition keyword p).sql = f.sql ++ conditionText keyword p := by
  cases p with
  | none => exact String.append_empty.symm
  | some p =>
    rw [appendCondition, conditionText]
    by_cases hp : p.render.sql = ""
    · rw [if_pos (isEmpty_iff.2 hp), if_pos hp, String.append_empty]
    · have hbegun := sql_appendRaw_of_ne hf hkeyword
      have hne : (f.appendRaw keyword).sql ≠ "" := by
        rw [hbegun]
        simp [hf]
      rw [if_neg (mt isEmpty_iff.1 hp), if_neg hp, sql_append_of_ne hne hp, hbegun]
      simp only [String.append_assoc]
      rfl

theorem sql_appendReturning (hf : f.sql ≠ "") (returning : Option (List Column)) :
    (f.appendReturning returning).sql = f.sql ++ returningText returning := by
  cases returning with
  | none => exact String.append_empty.symm
  | some columns =>
    have hne : Returning.render columns ≠ "" := by simp [Returning.render]
    rw [appendReturning, sql_appendRaw_of_ne hf hne, returningText, String.append_assoc]
    rfl

@[simp] theorem params_appendReturning (f : Fragment) (returning : Option (List Column)) :
    (f.appendReturning returning).params = f.params := by
  cases returning with
  | none => rfl
  | some columns => exact params_appendRaw f _

/-- The text of a statement with both clauses. -/
theorem sql_clauses (hf : f.sql ≠ "") (p : Option Predicate) (returning : Option (List Column)) :
    ((f.appendCondition "where" p).appendReturning returning).sql =
      f.sql ++ conditionText "where" p ++ returningText returning := by
  have hwhere : "where" ≠ "" := by decide
  have hcondition := sql_appendCondition hf hwhere p
  rw [sql_appendReturning (by rw [hcondition]; simp [hf]), hcondition]

end Fragment

end Tabula
