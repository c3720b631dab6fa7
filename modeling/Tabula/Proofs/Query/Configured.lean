import Tabula.Connection
import Mathlib.Data.List.Induction

/-!
# What configuring a select comes to

A select that has been configured knows of each clause what its last call has set, of joins all of
them, and of the calls that could not be read the first. In what order clauses were set shows only
in which failure came first.
-/

namespace Tabula

/-! ## What a call says -/

namespace Given

variable {α : Type} [Descriptor α]

/-- The clause, if it can be read. -/
def value? (given : Given α) : Option α :=
  given.read.toOption

/-- Why the clause cannot be read, if it cannot. -/
def fault? (given : Given α) : Option StatementFault :=
  match given.read with
  | .ok _ => none
  | .error fault => some fault

theorem exists_value? {given : Given α} (h : given.fault? = none) : ∃ a, given.value? = some a := by
  unfold fault? at h
  unfold value?
  cases hread : given.read with
  | ok a => exact ⟨a, rfl⟩
  | error fault =>
    rw [hread] at h
    cases h

end Given

namespace SelectCall

def fault? : SelectCall → Option StatementFault
  | .shape given => given.fault?
  | .inclusion given => given.fault?
  | .filter given => given.fault?
  | .groupBy given => given.fault?
  | .having given => given.fault?
  | .orderBy given => given.fault?
  | .join _ | .limit _ | .offset _ => none

/-- What a call leaves of the clauses. -/
def set : SelectCall → Select → Select
  | .join j, c => { c with joins := c.joins ++ [j] }
  | .shape given, c => { c with shape := given.value? }
  | .inclusion given, c => { c with inclusion := given.value? }
  | .filter given, c => { c with filter := given.value? }
  | .groupBy given, c => { c with groupBy := given.value? }
  | .having given, c => { c with having := given.value? }
  | .orderBy given, c => { c with orderBy := given.value? }
  | .limit n, c => { c with limit := some n }
  | .offset n, c => { c with offset := some n }

/-! ## What calls ask for -/

def join? : SelectCall → Option Join
  | .join j => some j
  | _ => none

def shape? : SelectCall → Option Shape
  | .shape given => given.value?
  | _ => none

def inclusion? : SelectCall → Option Inclusion
  | .inclusion given => given.value?
  | _ => none

def filter? : SelectCall → Option Filter
  | .filter given => given.value?
  | _ => none

def groupBy? : SelectCall → Option GroupBy
  | .groupBy given => given.value?
  | _ => none

def having? : SelectCall → Option Filter
  | .having given => given.value?
  | _ => none

def orderBy? : SelectCall → Option OrderBy
  | .orderBy given => given.value?
  | _ => none

def limit? : SelectCall → Option Int64
  | .limit n => some n
  | _ => none

def offset? : SelectCall → Option Int64
  | .offset n => some n
  | _ => none

/-- All joins in order, and the last value of every other clause. -/
def asked (calls : List SelectCall) : Select where
  joins := calls.filterMap join?
  shape := (calls.filterMap shape?).getLast?
  inclusion := (calls.filterMap inclusion?).getLast?
  filter := (calls.filterMap filter?).getLast?
  groupBy := (calls.filterMap groupBy?).getLast?
  having := (calls.filterMap having?).getLast?
  orderBy := (calls.filterMap orderBy?).getLast?
  limit := (calls.filterMap limit?).getLast?
  offset := (calls.filterMap offset?).getLast?

theorem asked_concat (calls : List SelectCall) {call : SelectCall} (h : call.fault? = none) :
    asked (calls ++ [call]) = call.set (asked calls) := by
  cases call with
  | join _ | limit _ | offset _ =>
    simp [asked, set, join?, shape?, inclusion?, filter?, groupBy?, having?, orderBy?, limit?,
      offset?]
  | _ given =>
    -- a clause that can be read is the last value of its kind
    obtain ⟨a, ha⟩ := Given.exists_value? h
    simp [asked, set, join?, shape?, inclusion?, filter?, groupBy?, having?, orderBy?, limit?,
      offset?, ha]

theorem foldl_set {calls : List SelectCall} (h : ∀ call ∈ calls, call.fault? = none) :
    calls.foldl (fun c call => call.set c) {} = asked calls := by
  induction calls using List.reverseRecOn with
  | nil => rfl
  | append_singleton calls call ih =>
    obtain ⟨hcalls, hcall⟩ := List.forall_mem_append.1 h
    rw [List.foldl_append, ih hcalls, asked_concat calls (hcall call List.mem_cons_self)]
    rfl

end SelectCall

/-! ## Calls one after another -/

namespace Query

variable {σ κ α : Type} [Descriptor α]

theorem accept_eq (q : Query σ κ) (given : Given α) (set : κ → Option α → κ) :
    q.accept given set =
      { q with clauses := set q.clauses given.value?, fault := q.fault.or given.fault? } := by
  rw [accept, Given.value?, Given.fault?]
  cases given.read with
  | ok a => simp [Except.toOption]
  | error fault => cases hfault : q.fault <;> simp [Except.toOption]

end Query

namespace SelectQuery

variable {σ : Type}

theorem call_eq (q : SelectQuery σ) (call : SelectCall) :
    q.call call =
      { q with clauses := call.set q.clauses, fault := q.fault.or call.fault? } := by
  cases call with
  | join _ | limit _ | offset _ =>
    simp [SelectQuery.call, SelectCall.set, SelectCall.fault?]
  | _ given =>
    rw [SelectQuery.call, Query.accept_eq]
    rfl

theorem foldl_call (q : SelectQuery σ) (calls : List SelectCall) :
    calls.foldl call q =
      { q with
        clauses := calls.foldl (fun c call => call.set c) q.clauses
        fault := q.fault.or (calls.findSome? SelectCall.fault?) } := by
  induction calls generalizing q with
  | nil => simp
  | cons c calls ih =>
    rw [List.foldl_cons, ih, call_eq, List.foldl_cons, List.findSome?_cons]
    cases q.fault with
    | some fault => simp
    | none => cases c.fault? <;> simp

end SelectQuery

namespace Connection

variable {σ : Type} (c : Connection σ) (table : String) {calls : List SelectCall}

/-- A select from a table, configured by calls. -/
def configured (calls : List SelectCall) : SelectQuery σ :=
  calls.foldl SelectQuery.call (c.select table)

theorem session_configured (calls : List SelectCall) :
    (c.configured table calls).session = c.session := by
  rw [configured, SelectQuery.foldl_call]
  rfl

/-- The first call that cannot be read decides how building fails, whatever is called later. -/
theorem build_of_fault {fault : StatementFault}
    (h : calls.findSome? SelectCall.fault? = some fault) :
    (c.configured table calls).build = .error (.invalidStatement fault) := by
  rw [configured, SelectQuery.foldl_call, h]
  rfl

theorem build_of_asked (h : calls.findSome? SelectCall.fault? = none) :
    (c.configured table calls).build =
      Select.compile c.schema table (SelectCall.asked calls) := by
  rw [configured, SelectQuery.foldl_call, h,
    ← SelectCall.foldl_set (List.findSome?_eq_none_iff.1 h)]
  rfl

end Connection

end Tabula
