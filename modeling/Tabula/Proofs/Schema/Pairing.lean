import Tabula.Proofs.Schema.Declared

/-!
# Pairing relations to many

The third pass looks for every relation to many at the relations to one that lead back. With it the
declarations that make a schema are known, and so is the error of all others.
-/

namespace Tabula

open Declarations (Sound manys candidates)

namespace Schema

variable {ds : Keyed Declaration}

/-! ## The passes one after another -/

theorem assemble_of_sound (h : Sound ds) :
    assemble ds = (fun relations => ⟨ds, Declarations.tables ds, relations⟩) <$>
      (Declarations.groups ds).mapM (Collected.ofDeclarations ds).resolveGroup := by
  obtain ⟨hdistinct, hcheck⟩ := Declarations.sound_iff.1 h
  have hcollect := Collected.collect_eq_ok.2 ⟨hdistinct, rfl⟩
  have hchecked : (Collected.ofDeclarations ds).groups.forM
      (Collected.ofDeclarations ds).checkGroup = .ok () := forM_eq_ok.2 hcheck
  rw [assemble, hcollect]
  simp only [Except.mapError, ok_bind, hchecked]
  rfl

theorem assemble_of_not_sound (h : ¬Sound ds) :
    ∃ fault, assemble ds = .error (.schemaCorrupted fault) := by
  rw [assemble]
  cases hcollect : ds.foldlM (fun (c : Collected) d => c.add d.1 d.2) ⟨[], [], []⟩ with
  | error fault => exact ⟨fault, rfl⟩
  | ok c =>
    obtain ⟨hdistinct, rfl⟩ := Collected.collect_eq_ok.1 hcollect
    cases hcheck : (Collected.ofDeclarations ds).groups.forM
        (Collected.ofDeclarations ds).checkGroup with
    | error fault =>
      refine ⟨fault, ?_⟩
      simp only [Except.mapError, ok_bind, hcheck]
      rfl
    | ok u => exact absurd (Declarations.sound_iff.2 ⟨hdistinct, forM_eq_ok.1 hcheck⟩) h

theorem sound_of_assemble {s : Schema} (h : assemble ds = .ok s) : Sound ds := by
  by_contra hsound
  obtain ⟨fault, hfault⟩ := assemble_of_not_sound hsound
  rw [hfault] at h
  cases h

/-! ## The third pass -/

namespace Collected

/-- The columns of a relation to one, seen from the other side. -/
def turned (o : DeclaredRelation) : List String × List String :=
  match o.decl.link with
  | .one fields references => (references, fields)
  | .many => ([], [])

theorem back_eq (ds : Keyed Declaration) (r : DeclaredRelation) :
    (ofDeclarations ds).back r.table r.decl.referenced r.decl.identifier =
      (candidates ds r).map turned := by
  rw [candidates, Declarations.relations, List.filter_flatMap, List.map_flatMap, back]
  refine List.flatMap_congr fun g _ => ?_
  rw [Declarations.ofGroup]
  induction g.relations with
  | nil => rfl
  | cons e es ih =>
    obtain ⟨name, referenced, link, identifier⟩ := e
    rw [List.filterMap_cons, List.map_cons, List.filter_cons]
    cases link with
    | many => simpa using ih
    | one fields references =>
      by_cases hback : g.table = r.decl.referenced ∧ referenced = r.table ∧
          (r.decl.identifier = none ∨ identifier = r.decl.identifier)
      · simpa [hback, turned] using ih
      · simpa [hback] using ih

/-- What the third pass asks of a relation. -/
def pair (c : Collected) (r : DeclaredRelation) : Except Error Unit :=
  match c.tableNamed? r.table with
  | none => .error (.tableNotFound r.table)
  | some source => (fun _ => ()) <$> c.resolve source r.name r.decl

section Pair

variable {c : Collected} {source : Table}

theorem pair_eq {r : DeclaredRelation} (h : c.tableNamed? r.table = some source) :
    c.pair r = (fun _ => ()) <$> c.resolve source r.name r.decl := by
  rw [pair, h]

theorem map_unit_resolveGroup {g : RelationGroup} (h : c.tableNamed? g.table = some source) :
    (fun _ => ()) <$> c.resolveGroup g = (Declarations.ofGroup g).forM c.pair := by
  have hpair : ∀ e : String × RelationDecl, c.pair ⟨g.table, e.1, e.2⟩ =
      (fun _ => ()) <$> (do return (e.1, ← c.resolve source e.1 e.2) : Except Error _) := by
    intro e
    rw [pair_eq h]
    cases c.resolve source e.1 e.2 with
    | error _ => rfl
    | ok _ => rfl
  rw [resolveGroup, h, Declarations.ofGroup, List.forM_eq_forM, List.forM_map]
  simp only [hpair]
  rw [← List.forM_eq_forM, ← map_unit_mapM]
  cases g.relations.mapM fun r =>
    (do return (r.1, ← c.resolve source r.1 r.2) : Except Error _) with
  | error _ => rfl
  | ok _ => rfl

theorem pair_one {r : DeclaredRelation} (h : c.tableNamed? r.table = some source)
    (hone : r.decl.link ≠ .many) : c.pair r = .ok () := by
  rw [pair_eq h, resolve]
  cases hlink : r.decl.link with
  | many => exact absurd hlink hone
  | one fields references => rfl

theorem pair_many {r : DeclaredRelation}
    (h : (ofDeclarations ds).tableNamed? r.table = some source) (hmany : r.decl.link = .many) :
    (ofDeclarations ds).pair r =
      if (candidates ds r).length = 1 then .ok ()
      else .error (if (candidates ds r).length = 0 then .relationCorrupted source.key r.name
        else .ambiguousRelation source.key r.name (candidates ds r).length) := by
  rw [pair_eq h, resolve, hmany]
  rw [name_of_tableNamed? h]
  dsimp only
  rw [back_eq]
  rcases candidates ds r with _ | ⟨o, _ | ⟨o', os⟩⟩
  · rfl
  · rfl
  · simp

end Pair

end Collected

theorem exists_source (h : Sound ds) {r : DeclaredRelation} (hr : r ∈ Declarations.relations ds) :
    ∃ source, (Collected.ofDeclarations ds).tableNamed? r.table = some source := by
  obtain ⟨g, hg, e, -, rfl⟩ := Declarations.mem_relations.1 hr
  exact (Collected.exists_tableNamed? (c := .ofDeclarations ds)).2 (h.source g hg)

/-- Apart from its result, the third pass is a check of the relations to many in order. -/
theorem map_unit_assemble (h : Sound ds) :
    (fun _ => ()) <$> assemble ds = (manys ds).forM (Collected.ofDeclarations ds).pair := by
  have hgroup : ∀ g ∈ Declarations.groups ds,
      (fun _ => ()) <$> (Collected.ofDeclarations ds).resolveGroup g =
        (Declarations.ofGroup g).forM (Collected.ofDeclarations ds).pair := by
    intro g hg
    obtain ⟨source, hsource⟩ :=
      (Collected.exists_tableNamed? (c := .ofDeclarations ds)).2 (h.source g hg)
    exact Collected.map_unit_resolveGroup hsource
  have hone : ∀ r ∈ Declarations.relations ds, decide (r.decl.link = .many) = false →
      (Collected.ofDeclarations ds).pair r = .ok () := by
    intro r hr hlink
    obtain ⟨source, hsource⟩ := exists_source h hr
    exact Collected.pair_one hsource (by simpa using hlink)
  calc (fun _ => ()) <$> assemble ds
      = (fun _ => ()) <$>
          (Declarations.groups ds).mapM (Collected.ofDeclarations ds).resolveGroup := by
        rw [assemble_of_sound h]
        cases (Declarations.groups ds).mapM (Collected.ofDeclarations ds).resolveGroup with
        | error _ => rfl
        | ok _ => rfl
    _ = (Declarations.groups ds).forM fun g =>
          (Declarations.ofGroup g).forM (Collected.ofDeclarations ds).pair := by
        rw [map_unit_mapM, forM_congr hgroup]
    _ = (Declarations.relations ds).forM (Collected.ofDeclarations ds).pair := by
        rw [Declarations.relations, forM_flatMap]
    _ = (manys ds).forM (Collected.ofDeclarations ds).pair := by
        rw [manys, forM_filter hone]

theorem pair_eq_ok (h : Sound ds) {r : DeclaredRelation} (hr : r ∈ manys ds) :
    (Collected.ofDeclarations ds).pair r = .ok () ↔ (candidates ds r).length = 1 := by
  obtain ⟨hmem, hmany⟩ := List.mem_filter.1 hr
  obtain ⟨source, hsource⟩ := exists_source h hmem
  rw [Collected.pair_many hsource (by simpa using hmany)]
  split
  · rename_i hone
    simp [hone]
  · rename_i hnone
    simp [hnone]

/-- Declarations make a schema if they are sound and exactly one relation leads back from where each
relation to many leads. Declarations that are not sound are corrupted. For sound ones the first
relation to many with no or with several relations back decides the error. -/
theorem assemble_iff (ds : Keyed Declaration) :
    ((∃ s, assemble ds = .ok s) ↔ Sound ds ∧ ∀ r ∈ manys ds, (candidates ds r).length = 1) ∧
    (¬Sound ds → ∃ fault, assemble ds = .error (.schemaCorrupted fault)) ∧
    (Sound ds → ∀ r, (manys ds).find? (fun m => (candidates ds m).length ≠ 1) = some r →
      ∃ t ∈ Declarations.tables ds, t.name = r.table ∧
        assemble ds = .error (if (candidates ds r).length = 0 then .relationCorrupted t.key r.name
          else .ambiguousRelation t.key r.name (candidates ds r).length)) := by
  refine ⟨⟨?_, ?_⟩, assemble_of_not_sound, ?_⟩
  · rintro ⟨s, hs⟩
    have hsound := sound_of_assemble hs
    have hpairs := exists_ok_iff.1 ⟨s, hs⟩
    rw [map_unit_assemble hsound] at hpairs
    exact ⟨hsound, fun r hr => (pair_eq_ok hsound hr).1 (forM_eq_ok.1 hpairs r hr)⟩
  · rintro ⟨hsound, hpaired⟩
    rw [exists_ok_iff, map_unit_assemble hsound]
    exact forM_eq_ok.2 fun r hr => (pair_eq_ok hsound hr).2 (hpaired r hr)
  · intro hsound r hfind
    obtain ⟨hr, before, after, hsplit, hbefore⟩ := List.find?_eq_some_iff_append.1 hfind
    have hmem : r ∈ manys ds := List.mem_of_find?_eq_some hfind
    obtain ⟨hrelation, hmany⟩ := List.mem_filter.1 hmem
    obtain ⟨t, ht⟩ := exists_source hsound hrelation
    obtain ⟨htables, hname⟩ := (Collected.tableNamed?_eq_some (c := .ofDeclarations ds)
      hsound.names).1 ht
    refine ⟨t, htables, hname, map_unit_eq_error ?_⟩
    rw [map_unit_assemble hsound, hsplit]
    apply forM_eq_error_of_split
    · intro m hm
      have hm' : m ∈ manys ds := hsplit ▸ List.mem_append_left _ hm
      exact (pair_eq_ok hsound hm').2 (by simpa using hbefore m hm)
    · rw [Collected.pair_many ht (by simpa using hmany), if_neg (by simpa using hr)]

end Schema

end Tabula
