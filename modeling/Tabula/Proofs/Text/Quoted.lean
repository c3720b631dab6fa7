import Tabula.Text.Quoted

/-!
# Reading quoted text

`unquote` takes apart what `quoted` puts together, whatever follows. A text between two marks whose
own marks have not been doubled reads as itself only if it has none.
-/

namespace Tabula.Text

variable {mark c : Char} {cs value rest : List Char}

/-! ## Doubled marks -/

@[simp] theorem doubled_nil : doubled mark [] = [] := rfl

@[simp] theorem doubled_cons_self : doubled mark (mark :: cs) = mark :: mark :: doubled mark cs := by
  simp [doubled]

theorem doubled_cons_of_ne (h : c ≠ mark) : doubled mark (c :: cs) = c :: doubled mark cs := by
  simp [doubled, h]

theorem length_doubled (mark : Char) (cs : List Char) :
    (doubled mark cs).length = cs.length + cs.count mark := by
  induction cs with
  | nil => rfl
  | cons c cs ih =>
    by_cases h : c = mark
    · subst h
      simp [ih]
      omega
    · simp [doubled_cons_of_ne h, ih, List.count_cons_of_ne h]
      omega

theorem doubled_eq_self_iff : doubled mark cs = cs ↔ mark ∉ cs := by
  constructor
  · intro h hmem
    have hcount := List.count_pos_iff.2 hmem
    have hlength := length_doubled mark cs
    rw [h] at hlength
    omega
  · intro h
    induction cs with
    | nil => rfl
    | cons c cs ih =>
      obtain ⟨hc, hcs⟩ := not_or.1 (mt List.mem_cons.2 h)
      rw [doubled_cons_of_ne (Ne.symm hc), ih hcs]

/-! ## Reading -/

theorem unquoteInside_doubled (hrest : rest.head? ≠ some mark) :
    unquoteInside mark (doubled mark value ++ mark :: rest) = some (value, rest) := by
  induction value with
  | nil =>
    cases rest with
    | nil => simp [unquoteInside]
    | cons d rest =>
      have hd : d ≠ mark := fun h => hrest (congrArg some h)
      simp [unquoteInside, hd]
  | cons c value ih =>
    by_cases hc : c = mark
    · subst hc
      simp [unquoteInside, ih]
    · obtain ⟨d, cs, hcs⟩ := List.exists_cons_of_ne_nil
        (show doubled mark value ++ mark :: rest ≠ [] by simp)
      rw [hcs] at ih
      rw [doubled_cons_of_ne hc, List.cons_append, hcs, unquoteInside, if_neg hc, ih]
      rfl

theorem eq_of_unquoteInside : {cs value rest : List Char} →
    unquoteInside mark cs = some (value, rest) →
    cs = doubled mark value ++ mark :: rest ∧ rest.head? ≠ some mark
  | [], _, _, h => by cases h
  | [c], _, _, h => by
    rw [unquoteInside] at h
    split at h
    · rename_i hc
      cases h
      exact ⟨by rw [hc]; rfl, nofun⟩
    · cases h
  | c :: d :: cs, _, _, h => by
    rw [unquoteInside] at h
    split at h
    · rename_i hc
      split at h
      · rename_i hd
        obtain ⟨⟨inner, rest⟩, hinner, h⟩ := Option.map_eq_some_iff.1 h
        cases h
        obtain ⟨rfl, hrest⟩ := eq_of_unquoteInside hinner
        exact ⟨by rw [hc, hd, doubled_cons_self]; rfl, hrest⟩
      · rename_i hd
        cases h
        exact ⟨by rw [hc]; rfl, fun h => hd (Option.some.inj h)⟩
    · rename_i hc
      obtain ⟨⟨inner, rest⟩, hinner, h⟩ := Option.map_eq_some_iff.1 h
      cases h
      obtain ⟨heq, hrest⟩ := eq_of_unquoteInside hinner
      exact ⟨by rw [doubled_cons_of_ne hc, heq]; rfl, hrest⟩

/-- The closing mark is the first one that is not doubled. -/
theorem unquoteInside_eq_some_iff : unquoteInside mark cs = some (value, rest) ↔
    cs = doubled mark value ++ mark :: rest ∧ rest.head? ≠ some mark :=
  ⟨eq_of_unquoteInside, fun ⟨hcs, hrest⟩ => hcs ▸ unquoteInside_doubled hrest⟩

/-- Marks around a text close where they should if what is between them is a text whose marks have
been doubled, and read as that text. -/
theorem unquote_marked_eq_some_iff (hrest : rest.head? ≠ some mark) :
    unquote mark (mark :: (cs ++ mark :: rest)) = some (value, rest) ↔
      cs = doubled mark value := by
  rw [unquote, if_pos rfl, unquoteInside_eq_some_iff, and_iff_left hrest, List.append_left_inj]

end Tabula.Text
