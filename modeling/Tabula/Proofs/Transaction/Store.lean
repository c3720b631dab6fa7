import Tabula.Proofs.Transaction.Run
import Tabula.Session.Script

/-!
# A store with savepoints

The store of a transaction is a stack of open scopes over what has been written. A savepoint pushes
a scope, a release drops the innermost of its name, and rolling back restores what had been written
when a scope was opened. Entries of a log are replayed on such a store one after another; a call
that failed has changed nothing.
-/

namespace Tabula

/-! ## What texts say to the store -/

inductive Control where
  | begin
  | commit
  | rollback
  | savepoint (name : String)
  | release (name : String)
  | rollbackTo (name : String)
deriving DecidableEq

namespace Transaction

/-- The name of the savepoint at a depth. -/
def savepointName (depth : Nat) : String :=
  s!"sp{depth}"

theorem savepointName_injective {m n : Nat} (h : savepointName m = savepointName n) : m = n := by
  have hlist := congrArg String.toList h
  simp only [savepointName, String.toList_append] at hlist
  have hdigits := congrArg (fun digits => Nat.ofDigitChars 10 digits 0)
    (List.append_cancel_left hlist)
  simpa [Nat.toString_eq_ofList_toDigits] using hdigits

theorem savepointName_ne_semicolon (n : Nat) : ∀ c ∈ (savepointName n).toList, c ≠ ';' := by
  intro c hc
  simp only [savepointName, String.toList_append, List.mem_append] at hc
  rcases hc with hc | hc
  · rintro rfl
    exact absurd hc (by decide)
  · rintro rfl
    rw [Nat.toString_eq_ofList_toDigits, String.toList_ofList] at hc
    exact absurd (Nat.isDigit_of_mem_toDigits (by decide) (by decide) hc) (by decide)

end Transaction

open Transaction (savepointName savepointName_ne_semicolon)

/-- How a store reads texts: which statements of a text open or close scopes, in order. What a
transaction says is read as it is meant; for anything else there may be any reading. -/
structure ControlReader where
  controls : String → List Control
  begin : controls "begin deferred" = [.begin]
  commit : controls "commit" = [.commit]
  rollback : controls "rollback" = [.rollback]
  savepoint : ∀ n, controls s!"savepoint {savepointName n}" = [.savepoint (savepointName n)]
  release : ∀ n, controls s!"release {savepointName n}" = [.release (savepointName n)]
  undo : ∀ n, controls s!"rollback to {savepointName n}; release {savepointName n}" =
    [.rollbackTo (savepointName n), .release (savepointName n)]

namespace ControlReader

def after? (start text : List Char) : Option (List Char) :=
  if start.isPrefixOf text then some (text.drop start.length) else none

theorem after?_append (start rest : List Char) : after? start (start ++ rest) = some rest := by
  simp [after?]

/-- A reading by how texts begin. -/
def plain : ControlReader where
  controls sql :=
    match after? "savepoint ".toList sql.toList with
    | some name => [.savepoint (String.ofList name)]
    | none =>
    match after? "release ".toList sql.toList with
    | some name => [.release (String.ofList name)]
    | none =>
    match after? "rollback to ".toList sql.toList with
    | some rest =>
      let name := String.ofList (rest.takeWhile (· ≠ ';'))
      [.rollbackTo name, .release name]
    | none =>
      if sql = "begin deferred" then [.begin]
      else if sql = "commit" then [.commit]
      else if sql = "rollback" then [.rollback]
      else []
  begin := by decide
  commit := by decide
  rollback := by decide
  savepoint n := by
    have htext : (s!"savepoint {savepointName n}").toList =
        "savepoint ".toList ++ (savepointName n).toList := String.toList_append
    rw [htext, after?_append]
    dsimp only
    rw [String.ofList_toList]
  release n := by
    have htext : (s!"release {savepointName n}").toList =
        "release ".toList ++ (savepointName n).toList := String.toList_append
    have hsavepoint : after? "savepoint ".toList ("release ".toList ++ (savepointName n).toList) =
      none := rfl
    rw [htext, hsavepoint, after?_append]
    dsimp only
    rw [String.ofList_toList]
  undo n := by
    have htext : (s!"rollback to {savepointName n}; release {savepointName n}").toList =
        "rollback to ".toList ++
          ((savepointName n).toList ++ ("; release ".toList ++ (savepointName n).toList)) := by
      simp only [String.toList_append, List.append_assoc]
      rfl
    have hsavepoint : ∀ rest, after? "savepoint ".toList ("rollback to ".toList ++ rest) = none :=
      fun _ => rfl
    have hrelease : ∀ rest, after? "release ".toList ("rollback to ".toList ++ rest) = none :=
      fun _ => rfl
    have hname : ((savepointName n).toList ++ ("; release ".toList ++
        (savepointName n).toList)).takeWhile (· ≠ ';') = (savepointName n).toList := by
      rw [List.takeWhile_append_of_pos]
      · exact List.append_nil _
      · simpa using savepointName_ne_semicolon n
    rw [htext, hsavepoint, hrelease, after?_append]
    dsimp only
    rw [hname, String.ofList_toList]

end ControlReader

/-! ## Stores -/

/-- An open scope. The outermost has no name. -/
structure StoreScope where
  name : Option String
  /-- What had been written when it was opened. -/
  before : List Call
deriving DecidableEq

/-- What has been written, by the calls that wrote it, and the open scopes, the innermost first. -/
structure Store where
  data : List Call
  scopes : List StoreScope
deriving DecidableEq

namespace Store

/-- The innermost scope of a name, and the scopes around it. -/
def innermost? (name : String) : List StoreScope → Option (StoreScope × List StoreScope)
  | [] => none
  | o :: around => if o.name = some name then some (o, around) else innermost? name around

/-- A statement that opens or closes scopes. There is no transaction inside of another, and nothing
to close without one; a savepoint has to be open to be released or rolled back to. -/
def control (s : Store) : Control → Option Store
  | .begin => if s.scopes = [] then some ⟨s.data, [⟨none, s.data⟩]⟩ else none
  | .commit => if s.scopes = [] then none else some ⟨s.data, []⟩
  | .rollback => s.scopes.getLast?.map fun outermost => ⟨outermost.before, []⟩
  | .savepoint name => some ⟨s.data, ⟨some name, s.data⟩ :: s.scopes⟩
  | .release name => (innermost? name s.scopes).map fun found => ⟨s.data, found.2⟩
  | .rollbackTo name =>
    (innermost? name s.scopes).map fun found => ⟨found.1.before, found.1 :: found.2⟩

def write (s : Store) (calls : List Call) : Store :=
  { s with data := s.data ++ calls }

def push (n : Nat) (s : Store) : Store :=
  ⟨s.data, ⟨some (savepointName n), s.data⟩ :: s.scopes⟩

/-- The store with a transaction begun and nothing else open. -/
def begun (s : Store) : Store :=
  ⟨s.data, [⟨none, s.data⟩]⟩

def call (R : ControlReader) (s : Store) (c : Call) : Option Store :=
  match R.controls c.sql with
  | [] => some (s.write [c])
  | controls => controls.foldlM control s

/-- Scopes have been left open, all of them savepoints deeper than `depth`. -/
def Grows (depth : Nat) (s s' : Store) : Prop :=
  ∃ left, s'.scopes = left ++ s.scopes ∧
    ∀ o ∈ left, ∃ n, depth < n ∧ o.name = some (savepointName n)

end Store

structure Entry where
  call : Call
  succeeded : Bool
deriving DecidableEq

namespace Entry

def batch (sql : String) (succeeded : Bool) : Entry :=
  ⟨⟨.batch, sql, []⟩, succeeded⟩

end Entry

/-- The store after the calls of a log. -/
def Store.replay (R : ControlReader) : List Entry → Store → Option Store
  | [], s => some s
  | e :: rest, s => if e.succeeded then (s.call R e.call).bind (replay R rest) else replay R rest s

namespace Store

variable {R : ControlReader} {s s' s'' : Store} {depth : Nat} {name : String}

theorem replay_append (l l' : List Entry) :
    replay R (l ++ l') s = (replay R l s).bind (replay R l') := by
  induction l generalizing s with
  | nil => rfl
  | cons e l ih =>
    rw [List.cons_append, replay, replay]
    split
    · cases s.call R e.call with
      | none => rfl
      | some s' => exact ih
    · exact ih

theorem replay_wrote {c : Call} (hc : R.controls c.sql = []) (l : List Entry) :
    replay R (⟨c, true⟩ :: l) s = replay R l (s.write [c]) := by
  rw [replay, if_pos rfl, call, hc]
  rfl

/-! ## Scopes that are open -/

theorem innermost?_append {left around : List StoreScope} {o : StoreScope}
    (hleft : ∀ p ∈ left, p.name ≠ some name) (ho : o.name = some name) :
    innermost? name (left ++ o :: around) = some (o, around) := by
  induction left with
  | nil => rw [List.nil_append, innermost?, if_pos ho]
  | cons p left ih =>
    obtain ⟨hp, hleft⟩ := List.forall_mem_cons.1 hleft
    rw [List.cons_append, innermost?, if_neg hp, ih hleft]

namespace Grows

theorem refl (depth : Nat) (s : Store) : s.Grows depth s :=
  ⟨[], rfl, by simp⟩

theorem trans (h : s.Grows depth s') (h' : s'.Grows depth s'') : s.Grows depth s'' := by
  obtain ⟨left, hleft, hnames⟩ := h
  obtain ⟨left', hleft', hnames'⟩ := h'
  refine ⟨left' ++ left, by rw [hleft', hleft, List.append_assoc], ?_⟩
  intro o ho
  rcases List.mem_append.1 ho with ho | ho
  · exact hnames' o ho
  · exact hnames o ho

/-- A savepoint is found below what its scope has left open. -/
theorem innermost?_push (h : (s.push (depth + 1)).Grows (depth + 1) s') :
    innermost? (savepointName (depth + 1)) s'.scopes =
      some (⟨some (savepointName (depth + 1)), s.data⟩, s.scopes) := by
  obtain ⟨left, hleft, hnames⟩ := h
  rw [hleft]
  refine innermost?_append ?_ rfl
  intro o ho hname
  obtain ⟨n, hn, hdeep⟩ := hnames o ho
  rw [hname, Option.some.injEq] at hdeep
  have hsame := Transaction.savepointName_injective hdeep
  omega

/-- What a transaction has left open is on top of the transaction. -/
theorem getLast?_begun (h : s.begun.Grows depth s') :
    s'.scopes.getLast? = some ⟨none, s.data⟩ := by
  obtain ⟨left, hleft, -⟩ := h
  rw [hleft, List.getLast?_append]
  rfl

theorem scopes_ne_nil (h : s.begun.Grows depth s') : s'.scopes ≠ [] := by
  intro hnil
  have hlast := h.getLast?_begun
  rw [hnil] at hlast
  cases hlast

end Grows

/-! ## What a transaction says -/

theorem replay_controls {sql : String} {c : Control} {cs : List Control}
    (hc : R.controls sql = c :: cs) (l : List Entry) :
    replay R (.batch sql true :: l) s = ((c :: cs).foldlM control s).bind (replay R l) := by
  rw [replay, Entry.batch, if_pos rfl, call, hc]

theorem replay_savepoint (n : Nat) (l : List Entry) :
    replay R (.batch s!"savepoint {savepointName n}" true :: l) s = replay R l (s.push n) :=
  replay_controls (R.savepoint n) l

theorem replay_release {n : Nat} {o : StoreScope} {around : List StoreScope}
    (h : innermost? (savepointName n) s.scopes = some (o, around)) :
    replay R [.batch s!"release {savepointName n}" true] s = some ⟨s.data, around⟩ := by
  rw [replay_controls (R.release n), List.foldlM_cons, control, h]
  rfl

theorem replay_undo {n : Nat} {o : StoreScope} {around : List StoreScope}
    (h : innermost? (savepointName n) s.scopes = some (o, around))
    (ho : o.name = some (savepointName n)) :
    replay R [.batch s!"rollback to {savepointName n}; release {savepointName n}" true] s =
      some ⟨o.before, around⟩ := by
  rw [replay_controls (R.undo n), List.foldlM_cons, control, h, Option.map_some, Option.bind_eq_bind,
    Option.bind_some, List.foldlM_cons, control, innermost?, if_pos ho]
  rfl

theorem replay_begin (h : s.scopes = []) (l : List Entry) :
    replay R (.batch "begin deferred" true :: l) s = replay R l s.begun := by
  rw [replay_controls R.begin, List.foldlM_cons, control, if_pos h]
  rfl

theorem replay_commit (h : s.scopes ≠ []) :
    replay R [.batch "commit" true] s = some ⟨s.data, []⟩ := by
  rw [replay_controls R.commit, List.foldlM_cons, control, if_neg h]
  rfl

theorem replay_rollback {o : StoreScope} (h : s.scopes.getLast? = some o) :
    replay R [.batch "rollback" true] s = some ⟨o.before, []⟩ := by
  rw [replay_controls R.rollback, List.foldlM_cons, control, h]
  rfl

end Store

end Tabula
