import Tabula.Proofs.Schema.Assembled

/-!
# Laying declarations over those of a schema

A merge takes declarations in one after another, and the last one of a key counts. So merges one
after another are one merge of all that they lay over, and a merge that is made twice changes
nothing the second time. This rests on the declarations being kept as they were given: what
assembling resolves does not come back into them.
-/

namespace Tabula

namespace Keyed

variable {α : Type}

/-- The entry of the last `key`. -/
def last? (m : Keyed α) (key : String) : Option α :=
  get? m.reverse key

/-- The keys that `m` lacks, in the order in which they come first. -/
def newKeys (m n : Keyed α) : List String :=
  n.keys.eraseDups.filter fun key => key ∉ m.keys

/-- The last entries of `keys`. -/
def lasts (n : Keyed α) (keys : List String) : Keyed α :=
  keys.filterMap fun key => (n.last? key).map fun a => (key, a)

/-- The entries of `n` laid over those of `m`. A key of `m` stays where it is, with the last entry
that `n` has for it if there is one; the other keys of `n` follow. -/
def overlay (m n : Keyed α) : Keyed α :=
  m.map (fun e => (e.1, (n.last? e.1).getD e.2)) ++ n.lasts (newKeys m n)

/-! ## The last entry of a key -/

theorem exists_last? {n : Keyed α} {key : String} (h : key ∈ n.keys) :
    ∃ a, n.last? key = some a := by
  refine Option.isSome_iff_exists.1 (get?_isSome_iff.2 ?_)
  rw [keys, List.map_reverse, List.mem_reverse]
  exact h

theorem last?_eq_none {n : Keyed α} {key : String} (h : key ∉ n.keys) : n.last? key = none := by
  rw [last?, get?_eq_none_iff, keys, List.map_reverse, List.mem_reverse]
  exact h

theorem keys_lasts {n : Keyed α} {ks : List String} (h : ∀ key ∈ ks, key ∈ n.keys) :
    (n.lasts ks).keys = ks := by
  induction ks with
  | nil => rfl
  | cons key ks ih =>
    obtain ⟨hkey, hks⟩ := List.forall_mem_cons.1 h
    obtain ⟨a, ha⟩ := exists_last? hkey
    rw [lasts, List.filterMap_cons, ha, Option.map_some, keys_cons, ← lasts, ih hks]

theorem get?_lasts (n : Keyed α) (ks : List String) (key : String) :
    (n.lasts ks).get? key = if key ∈ ks then n.last? key else none := by
  induction ks with
  | nil => rfl
  | cons k ks ih =>
    rw [lasts, List.filterMap_cons, ← lasts]
    by_cases hk : k = key
    · subst hk
      cases hlast : n.last? k with
      | none => simp [ih, hlast]
      | some a => simp [get?]
    · cases n.last? k with
      | none => simp [ih, Ne.symm hk]
      | some a => simp [get?, hk, ih, Ne.symm hk]

theorem get?_map_last? (m n : Keyed α) (key : String) :
    get? (m.map fun e => (e.1, (n.last? e.1).getD e.2)) key =
      (m.get? key).map (n.last? key).getD := by
  induction m with
  | nil => rfl
  | cons e m ih =>
    obtain ⟨k, b⟩ := e
    by_cases hk : k = key
    · simp [get?, hk]
    · simpa [get?, hk] using ih

/-! ## What an overlay has -/

theorem mem_newKeys {m n : Keyed α} {key : String} :
    key ∈ newKeys m n ↔ key ∈ n.keys ∧ key ∉ m.keys := by
  rw [newKeys, List.mem_filter, List.mem_eraseDups, decide_eq_true_iff]

theorem keys_overlay (m n : Keyed α) : (m.overlay n).keys = m.keys ++ newKeys m n := by
  rw [overlay, keys_append, keys_lasts fun key hkey => (mem_newKeys.1 hkey).1, keys, List.map_map]
  rfl

theorem get?_overlay (m n : Keyed α) (key : String) :
    (m.overlay n).get? key = (n.last? key).or (m.get? key) := by
  rw [overlay, get?_append, get?_map_last?, get?_lasts]
  cases hm : m.get? key with
  | some b => cases n.last? key <;> rfl
  | none =>
    have hkey : key ∉ m.keys := get?_eq_none_iff.1 hm
    by_cases hn : key ∈ n.keys
    · simp [mem_newKeys, hn, hkey]
    · simp [last?_eq_none hn]

/-! ## Taking entries in one after another -/

/-- Entries under distinct keys are known by their keys and what is found under them. -/
theorem eq_of_get? {m n : Keyed α} (hm : m.keys.Nodup) (hkeys : m.keys = n.keys)
    (h : ∀ key, m.get? key = n.get? key) : m = n := by
  induction m generalizing n with
  | nil => exact (List.map_eq_nil_iff.1 hkeys.symm).symm
  | cons e m ih =>
    obtain ⟨k, a⟩ := e
    cases n with
    | nil => cases hkeys
    | cons f n =>
      obtain ⟨k', b⟩ := f
      obtain ⟨rfl, hrest⟩ := List.cons.inj hkeys
      obtain ⟨hk, hm⟩ := List.nodup_cons.1 hm
      have ha := h k
      rw [get?, get?, if_pos rfl, if_pos rfl] at ha
      cases ha
      refine congrArg _ (ih hm hrest fun key => ?_)
      by_cases hkey : k = key
      · -- neither rest has the key that both begin with
        subst hkey
        rw [get?_eq_none_iff.2 hk, eq_comm, get?_eq_none_iff]
        exact fun hmem => hk (Eq.mpr (congrArg (k ∈ ·) hrest) hmem)
      · simpa [get?, hkey] using h key

theorem putAll_concat (m n : Keyed α) (k : String) (a : α) :
    m.putAll (n ++ [(k, a)]) = (m.putAll n).put k a := by
  rw [putAll, List.foldl_append]
  rfl

theorem putAll_putAll (m n n' : Keyed α) : (m.putAll n).putAll n' = m.putAll (n ++ n') := by
  rw [putAll, putAll, putAll, List.foldl_append]

theorem newKeys_concat (m n : Keyed α) (k : String) (a : α) :
    newKeys m (n ++ [(k, a)]) =
      if k ∈ m.keys ++ newKeys m n then newKeys m n else newKeys m n ++ [k] := by
  rw [newKeys, keys_append, List.eraseDups_append, List.filter_append, ← newKeys]
  by_cases hn : k ∈ n.keys
  · have hmem : k ∈ m.keys ++ newKeys m n := by
      by_cases hm : k ∈ m.keys
      · exact List.mem_append_left _ hm
      · exact List.mem_append_right _ (mem_newKeys.2 ⟨hn, hm⟩)
    rw [if_pos hmem]
    simp [List.removeAll, hn]
  · have hnew : k ∉ newKeys m n := fun hk => hn (mem_newKeys.1 hk).1
    by_cases hm : k ∈ m.keys
    · simp [List.removeAll, hn, hm]
    · simp [List.removeAll, List.eraseDups_cons, hn, hm, hnew]

theorem keys_putAll_eq (m n : Keyed α) : (m.putAll n).keys = m.keys ++ newKeys m n := by
  induction n using List.reverseRecOn with
  | nil => simp [putAll, newKeys]
  | append_singleton n e ih =>
    obtain ⟨k, a⟩ := e
    rw [putAll_concat, keys_put, ih, newKeys_concat]
    split
    · rfl
    · rw [List.append_assoc]

theorem putAll_eq_overlay {m : Keyed α} (h : m.keys.Nodup) (n : Keyed α) :
    m.putAll n = m.overlay n := by
  refine eq_of_get? (nodup_keys_putAll h n) ?_ fun key => ?_
  · rw [keys_putAll_eq, keys_overlay]
  · exact (get?_putAll_last m n key).trans (get?_overlay m n key).symm

theorem putAll_self {m : Keyed α} (h : m.keys.Nodup) (n : Keyed α) :
    (m.putAll n).putAll n = m.putAll n := by
  have hnone : newKeys (m.putAll n) n = [] := by
    refine List.eq_nil_iff_forall_not_mem.2 fun key hkey => ?_
    obtain ⟨hn, hold⟩ := mem_newKeys.1 hkey
    rw [keys_putAll_eq, List.mem_append, not_or] at hold
    exact hold.2 (mem_newKeys.2 ⟨hn, hold.1⟩)
  refine eq_of_get? (nodup_keys_putAll (nodup_keys_putAll h n) n) ?_ fun key => ?_
  · rw [keys_putAll_eq (m.putAll n), hnone, List.append_nil]
  · rw [get?_putAll_last (m.putAll n), get?_putAll_last m]
    cases get? n.reverse key <;> rfl

end Keyed

namespace Schema

variable {ds : Keyed Declaration} {s : Schema}

theorem declarations_of_assemble (h : assemble ds = .ok s) : s.declarations = ds := by
  rw [assemble_of_sound (sound_of_assemble h), map_eq_ok] at h
  obtain ⟨relations, -, rfl⟩ := h
  rfl

theorem merge_of_assemble (h : assemble ds = .ok s) (d : List (String × Declaration)) :
    s.merge d = assemble (ds.putAll d) := by
  rw [merge, declarations_of_assemble h]

/-- A merge assembles the declarations of the schema with others laid over them, where no key is
lost or doubled. Merging what two merges lay over comes to the same as one merge after the other,
and merging the same once more to nothing. -/
theorem merge_overlays (h : assemble ds = .ok s) :
    (∀ d, s.merge d = assemble (ds.overlay d) ∧
      (ds.overlay d).keys = ds.keys ++ Keyed.newKeys ds d ∧ (ds.overlay d).keys.Nodup ∧
      ∀ key, (ds.overlay d).get? key = (Keyed.last? d key).or (ds.get? key)) ∧
    (∀ a t, s.merge a = .ok t → ∀ b, t.merge b = s.merge (a ++ b)) ∧
    ∀ d t, s.merge d = .ok t → t.merge d = .ok t := by
  have hkeys : ds.keys.Nodup := (sound_of_assemble h).keys
  refine ⟨fun d => ⟨?_, Keyed.keys_overlay ds d, ?_, Keyed.get?_overlay ds d⟩, ?_, ?_⟩
  · rw [merge_of_assemble h, Keyed.putAll_eq_overlay hkeys]
  · rw [← Keyed.putAll_eq_overlay hkeys]
    exact Keyed.nodup_keys_putAll hkeys d
  · intro a t ht b
    have hassembled := (merge_of_assemble h a).symm.trans ht
    rw [merge_of_assemble hassembled, merge_of_assemble h, Keyed.putAll_putAll]
  · intro d t ht
    have hassembled := (merge_of_assemble h d).symm.trans ht
    rw [merge_of_assemble hassembled, Keyed.putAll_self hkeys, hassembled]

end Schema

namespace Blog

def tags : Table where
  key := "tags"
  name := "tags"
  columns := [{ name := "word", key := "word", kind := .text }]
  primaryKey := []
  foreignKeys := []
  columns_ne_nil := by decide
  keys_nodup := by decide

/-- Tags are new, under one name first and then under another, and the author of a post becomes its
writer. -/
def changes : List (String × Declaration) :=
  [("tags", .table { tags with name := "labels" }),
    ("postsRelations", .relations (.ofList "posts"
      [("writer", { referenced := "app_users", link := .one ["authorId"] ["id"] })])),
    ("tags", .table tags)]

def changed : Schema :=
  match schema.merge changes with
  | .ok s => s
  | .error _ => ⟨[], [], []⟩

end Blog

theorem Schema.merge_overlays_blog :
    Blog.schema.merge Blog.changes = .ok Blog.changed ∧
      Blog.changed.declarations.keys =
        ["users", "posts", "usersRelations", "postsRelations", "tags"] ∧
      Blog.changed.tables.map Table.name = ["app_users", "posts", "tags"] ∧
      (∀ b, Blog.changed.merge b = Blog.schema.merge (Blog.changes ++ b)) ∧
      Blog.changed.merge Blog.changes = .ok Blog.changed := by
  have hmerge : Blog.schema.merge Blog.changes = .ok Blog.changed := rfl
  obtain ⟨-, hcompose, hrepeat⟩ := merge_overlays Blog.assemble_declarations
  exact ⟨hmerge, rfl, rfl, hcompose _ _ hmerge, hrepeat _ _ hmerge⟩

end Tabula
