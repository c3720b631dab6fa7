import Tabula.Proofs.Schema.Relations
import Mathlib.Data.List.Perm.Basic

/-!
# Declarations in another order

The order of declarations shows in the order of tables and of the statements that create them, and
nowhere else. What a lookup finds does not depend on it, since what it looks for is there only once;
and neither does what a relation to many is joined on, since only one relation leads back.
-/

namespace Tabula

/-- Under distinct keys a lookup finds the same in any order. -/
theorem find?_key_of_perm {α : Type} {f : α → String} {xs ys : List α} (hp : xs.Perm ys)
    (h : (xs.map f).Nodup) (key : String) :
    xs.find? (fun y => f y == key) = ys.find? (fun y => f y == key) := by
  have h' : (ys.map f).Nodup := (hp.map f).nodup_iff.1 h
  refine Option.ext fun x => ?_
  rw [find?_key_eq_some h, find?_key_eq_some h', hp.mem_iff]

/-- The results of a traversal come in the order of what is traversed. -/
theorem perm_of_mapM_eq_ok {ε α β : Type} {f : α → Except ε β} {xs xs' : List α} {ys ys' : List β}
    (hp : xs.Perm xs') (h : xs.mapM f = .ok ys) (h' : xs'.mapM f = .ok ys') : ys.Perm ys' := by
  have hok : ∀ {us : List α} {vs : List β}, us.mapM f = .ok vs → us.map f = vs.map .ok :=
    fun hus => map_eq_map_of_forall₂ (fun _ _ hx => hx) (mapM_eq_ok.1 hus)
  have hmap := hp.map f
  rw [hok h, hok h'] at hmap
  exact (List.map_perm_map_iff fun _ _ => Except.ok.inj).1 hmap

namespace Declarations

variable {ds ds' : Keyed Declaration}

theorem tables_perm (h : ds.Perm ds') : (tables ds).Perm (tables ds') :=
  h.filterMap _

theorem groups_perm (h : ds.Perm ds') : (groups ds).Perm (groups ds') :=
  h.filterMap _

theorem relations_perm (h : ds.Perm ds') : (relations ds).Perm (relations ds') :=
  (groups_perm h).flatMap_right _

theorem HasColumn.of_perm {table key : String} (h : ds.Perm ds') (hc : HasColumn ds table key) :
    HasColumn ds' table key := by
  obtain ⟨t, ht, hname, hkey⟩ := hc
  exact ⟨t, (tables_perm h).subset ht, hname, hkey⟩

theorem PairsColumns.of_perm {r : DeclaredRelation} (h : ds.Perm ds') (hr : PairsColumns ds r) :
    PairsColumns ds' r := by
  unfold PairsColumns at hr ⊢
  split
  · trivial
  · rename_i fields references hlink
    rw [hlink] at hr
    exact {
      nonempty := hr.nonempty
      length := hr.length
      fields := fun key hkey => (hr.fields key hkey).of_perm h
      references := fun key hkey => (hr.references key hkey).of_perm h }

theorem Sound.of_perm (h : ds.Perm ds') (hs : Sound ds) : Sound ds' where
  keys := (h.map Prod.fst).nodup_iff.1 hs.keys
  names := ((tables_perm h).map Table.name).nodup_iff.1 hs.names
  groups := ((groups_perm h).map RelationGroup.table).nodup_iff.1 hs.groups
  source g hg := ((tables_perm h).map Table.name).subset
    (hs.source g ((groups_perm h).symm.subset hg))
  referenced r hr := ((tables_perm h).map Table.name).subset
    (hs.referenced r ((relations_perm h).symm.subset hr))
  pairs r hr := (hs.pairs r ((relations_perm h).symm.subset hr)).of_perm h

end Declarations

open Declarations (Sound)

namespace Schema

variable {ds ds' : Keyed Declaration} {s s' : Schema}

/-! ## The third pass -/

namespace Collected

theorem back_perm (h : ds.Perm ds') (source referenced : String) (identifier : Option String) :
    ((ofDeclarations ds).back source referenced identifier).Perm
      ((ofDeclarations ds').back source referenced identifier) :=
  (Declarations.groups_perm h).flatMap_right _

/-- One relation back, none, or some number of them: all that matters of the candidates is kept. -/
theorem resolve_of_perm (h : ds.Perm ds') (source : Table) (name : String) (r : RelationDecl) :
    (ofDeclarations ds).resolve source name r = (ofDeclarations ds').resolve source name r := by
  cases hlink : r.link with
  | one fields references => rw [resolve, resolve, hlink]
  | many =>
    have hback := back_perm h source.name r.referenced r.identifier
    rw [resolve, resolve, hlink]
    dsimp only
    generalize (ofDeclarations ds).back source.name r.referenced r.identifier = back at hback
    generalize (ofDeclarations ds').back source.name r.referenced r.identifier = back' at hback
    have hlength := hback.length_eq
    rcases back with _ | ⟨b, _ | ⟨c, rest⟩⟩
    · rw [hback.nil_eq]
    · rw [List.perm_singleton.1 hback.symm]
    · rcases back' with _ | ⟨b', _ | ⟨c', rest'⟩⟩
      · cases hlength
      · cases hlength
      · dsimp only
        rw [hlength]

theorem resolveGroup_of_perm (h : ds.Perm ds') (hs : Sound ds) (g : RelationGroup) :
    (ofDeclarations ds).resolveGroup g = (ofDeclarations ds').resolveGroup g := by
  have hsource : (ofDeclarations ds).tableNamed? g.table = (ofDeclarations ds').tableNamed? g.table :=
    find?_key_of_perm (Declarations.tables_perm h) hs.names g.table
  rw [resolveGroup, resolveGroup, hsource]
  simp only [resolve_of_perm h]

end Collected

/-- The third pass gives every group what it gives it in another order. -/
theorem mapM_resolveGroup_of_perm (h : ds.Perm ds') (hs : Sound ds) :
    (Declarations.groups ds').mapM (Collected.ofDeclarations ds').resolveGroup =
      (Declarations.groups ds').mapM (Collected.ofDeclarations ds).resolveGroup :=
  mapM_congr fun g _ => (Collected.resolveGroup_of_perm h hs g).symm

theorem exists_assemble_of_perm (h : ds.Perm ds') (hs : assemble ds = .ok s) :
    ∃ s', assemble ds' = .ok s' := by
  have hsound := sound_of_assemble hs
  rw [assemble_of_sound hsound, map_eq_ok] at hs
  obtain ⟨relations, hrelations, -⟩ := hs
  have hgroups := exists_mapM_eq_ok.1 ⟨relations, hrelations⟩
  obtain ⟨relations', hrelations'⟩ := exists_mapM_eq_ok.2 fun g hg =>
    hgroups g ((Declarations.groups_perm h).symm.subset hg)
  refine ⟨⟨ds', Declarations.tables ds', relations'⟩, ?_⟩
  rw [assemble_of_sound (hsound.of_perm h), mapM_resolveGroup_of_perm h hsound, hrelations', map_ok]

theorem relations_perm (h : ds.Perm ds') (hs : assemble ds = .ok s) (hs' : assemble ds' = .ok s') :
    s.relations.Perm s'.relations := by
  have hsound := sound_of_assemble hs
  have hrelations := mapM_eq_ok.2 (relations_of_assemble hs)
  have hrelations' := mapM_eq_ok.2 (relations_of_assemble hs')
  rw [mapM_resolveGroup_of_perm h hsound] at hrelations'
  exact perm_of_mapM_eq_ok (Declarations.groups_perm h) hrelations hrelations'

theorem tables_perm (h : ds.Perm ds') (hs : assemble ds = .ok s) (hs' : assemble ds' = .ok s') :
    s.tables.Perm s'.tables := by
  rw [tables_of_assemble hs, tables_of_assemble hs']
  exact Declarations.tables_perm h

/-! ## Lookups -/

/-- Whatever is looked up, two schemas give the same or fail alike. -/
structure SameLookups (s s' : Schema) : Prop where
  table : ∀ key, s.table key = s'.table key
  tableNamed : ∀ name, s.tableNamed name = s'.tableNamed name
  relationsOf : ∀ key, s.relationsOf? key = s'.relationsOf? key
  relation : ∀ key name, s.relation key name = s'.relation key name

theorem sameLookups_of_perm (h : ds.Perm ds') (hs : assemble ds = .ok s)
    (hs' : assemble ds' = .ok s') : s.SameLookups s' := by
  have htables := tables_perm h hs hs'
  have hassembled := assembled_of_assemble hs
  have htable : ∀ key, s.table? key = s'.table? key := find?_key_of_perm htables hassembled.keys
  have hrelations : ∀ key, s.relationsOf? key = s'.relationsOf? key := by
    intro key
    have hfind := find?_key_of_perm (relations_perm h hs hs') (nodup_relations hs).1
    rw [relationsOf?, relationsOf?, htable]
    exact congrArg _ (funext fun t => hfind t.name)
  constructor
  · intro key
    rw [table, table, htable]
  · intro name
    have hnamed : s.tableNamed? name = s'.tableNamed? name :=
      find?_key_of_perm htables hassembled.names name
    rw [tableNamed, tableNamed, hnamed]
  · exact hrelations
  · intro key name
    rw [relation, relation, hrelations]

/-- The tables, and the statements that create them, come in the order of the declarations. -/
structure InOrder (s : Schema) (ds : Keyed Declaration) : Prop where
  tables : s.tables = Declarations.tables ds
  statements : s.createStatements = (Declarations.tables ds).map Table.createStatement

theorem inOrder_of_assemble (hs : assemble ds = .ok s) : s.InOrder ds where
  tables := tables_of_assemble hs
  statements := by rw [createStatements, tables_of_assemble hs]

/-- Declarations make a schema in every order or in none. In every order lookups give the same, a
table is found again under its name in the store, and the tables and the statements that create them
are those of any other order, each in the place of its declaration. -/
theorem lookups_of_perm (h : ds.Perm ds') :
    ((∃ s, assemble ds = .ok s) ↔ ∃ s', assemble ds' = .ok s') ∧
    ∀ s s', assemble ds = .ok s → assemble ds' = .ok s' →
      s.SameLookups s' ∧
      (∀ key t, s.table key = .ok t → s.tableNamed t.name = .ok t) ∧
      (s.InOrder ds ∧ s'.InOrder ds') ∧ s.tables.Perm s'.tables ∧
      s.createStatements.Perm s'.createStatements := by
  refine ⟨⟨?_, ?_⟩, ?_⟩
  · rintro ⟨s, hs⟩
    exact exists_assemble_of_perm h hs
  · rintro ⟨s', hs'⟩
    exact exists_assemble_of_perm h.symm hs'
  · intro s s' hs hs'
    have htables := tables_perm h hs hs'
    refine ⟨sameLookups_of_perm h hs hs', ?_, ⟨inOrder_of_assemble hs, inOrder_of_assemble hs'⟩,
      htables, htables.map _⟩
    intro key t ht
    exact (table_of_tableNamed hs).2 ⟨mem_of_table ht, rfl⟩

end Schema

namespace Blog

/-- The relations of posts come first, and users last. -/
def backward : Schema :=
  match Schema.assemble declarations.reverse with
  | .ok s => s
  | .error _ => ⟨[], [], []⟩

end Blog

theorem Schema.lookups_of_perm_backward :
    Blog.declarations.Perm Blog.declarations.reverse ∧
      Schema.assemble Blog.declarations.reverse = .ok Blog.backward ∧
      Blog.backward.tables.map Table.key = ["posts", "users"] ∧
      Blog.backward.relation "users" "posts" = .ok Blog.userPosts ∧
      Blog.schema.SameLookups Blog.backward := by
  have hperm : Blog.declarations.Perm Blog.declarations.reverse := (List.reverse_perm _).symm
  have hbackward : Schema.assemble Blog.declarations.reverse = .ok Blog.backward := rfl
  obtain ⟨-, hlookups⟩ := lookups_of_perm hperm
  obtain ⟨hsame, -⟩ := hlookups _ _ Blog.assemble_declarations hbackward
  exact ⟨hperm, hbackward, rfl, rfl, hsame⟩

end Tabula
