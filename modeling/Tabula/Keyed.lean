/-!
# Keyed lists

Lists of entries under text keys, in the order in which the keys came. Every structure of the
library whose order shows in an output (JSON objects, result shapes, included relations, schema
declarations) is one of these lists. `put` keeps the place of a key that is already there, so a
list built by `put` alone has distinct keys.
-/

namespace Tabula

/-- Entries under text keys, in order. -/
abbrev Keyed (α : Type) := List (String × α)

namespace Keyed

variable {α β : Type}

/-- The keys, in order. -/
def keys (m : Keyed α) : List String :=
  m.map Prod.fst

/-- The entry of the first `key`. -/
def get? : Keyed α → String → Option α
  | [], _ => none
  | (k, a) :: m, key => if k = key then some a else get? m key

/-- Whether some entry stands under `key`. -/
def has (m : Keyed α) (key : String) : Bool :=
  m.any fun e => e.1 == key

/-- Replaces the entry of the first `key` in place; a new key goes to the end. -/
def put (key : String) (a : α) : Keyed α → Keyed α
  | [] => [(key, a)]
  | (k, b) :: m => if k = key then (key, a) :: m else (k, b) :: put key a m

/-- Puts entries one after another. -/
def putAll (m : Keyed α) (entries : List (String × α)) : Keyed α :=
  entries.foldl (fun m e => m.put e.1 e.2) m

/-- Drops every entry of `key` and appends the new one. -/
def moveToEnd (key : String) (a : α) (m : Keyed α) : Keyed α :=
  m.filter (fun e => e.1 != key) ++ [(key, a)]

/-! ## Keys and lookups after an operation -/

@[simp] theorem keys_nil : keys ([] : Keyed α) = [] := rfl

@[simp] theorem keys_cons (k : String) (a : α) (m : Keyed α) :
    keys ((k, a) :: m) = k :: keys m := rfl

@[simp] theorem keys_append (m n : Keyed α) : keys (m ++ n) = keys m ++ keys n := by
  simp [keys]

theorem has_iff {m : Keyed α} {key : String} : m.has key = true ↔ key ∈ m.keys := by
  simp [has, keys]

theorem get?_isSome_iff {m : Keyed α} {key : String} :
    (m.get? key).isSome = true ↔ key ∈ m.keys := by
  induction m with
  | nil => simp [get?]
  | cons e m ih =>
    obtain ⟨k, a⟩ := e
    by_cases h : k = key
    · simp [get?, h]
    · simp [get?, h, ih, Ne.symm h]

theorem mem_of_get? {m : Keyed α} {key : String} {a : α} (h : m.get? key = some a) :
    (key, a) ∈ m := by
  induction m with
  | nil => cases h
  | cons e m ih =>
    obtain ⟨k, b⟩ := e
    by_cases hk : k = key
    · simp_all [get?]
    · exact List.mem_cons_of_mem _ (ih (by simpa [get?, hk] using h))

theorem get?_append (m n : Keyed α) (key : String) :
    get? (m ++ n) key = (m.get? key).or (n.get? key) := by
  induction m with
  | nil => rfl
  | cons e m ih =>
    obtain ⟨k, a⟩ := e
    by_cases h : k = key
    · simp [get?, h]
    · simpa [get?, h] using ih

theorem get?_eq_none_iff {m : Keyed α} {key : String} : m.get? key = none ↔ key ∉ m.keys := by
  rw [← get?_isSome_iff]
  cases m.get? key <;> simp

/-- Under distinct keys every entry is found. -/
theorem get?_eq_some_iff {m : Keyed α} (h : m.keys.Nodup) {key : String} {a : α} :
    m.get? key = some a ↔ (key, a) ∈ m := by
  refine ⟨mem_of_get?, fun hmem => ?_⟩
  induction m with
  | nil => cases hmem
  | cons e m ih =>
    obtain ⟨k, b⟩ := e
    obtain ⟨hk, hm⟩ := List.nodup_cons.1 h
    rcases List.mem_cons.1 hmem with heq | hmem
    · cases heq
      rw [get?, if_pos rfl]
    · have hkey : key ∈ keys m := List.mem_map_of_mem (f := Prod.fst) hmem
      have hne : k ≠ key := fun heq => hk (heq ▸ hkey)
      rw [get?, if_neg hne]
      exact ih hm hmem

theorem keys_put (key : String) (a : α) (m : Keyed α) :
    (m.put key a).keys = if key ∈ m.keys then m.keys else m.keys ++ [key] := by
  induction m with
  | nil => simp [put]
  | cons e m ih =>
    obtain ⟨k, b⟩ := e
    by_cases h : k = key
    · simp [put, h]
    · simp only [put, h, if_false, keys_cons, ih, List.mem_cons, Ne.symm h, false_or]
      split <;> simp

theorem get?_put (key : String) (a : α) (m : Keyed α) (other : String) :
    (m.put key a).get? other = if key = other then some a else m.get? other := by
  induction m with
  | nil => simp [put, get?]
  | cons e m ih =>
    obtain ⟨k, b⟩ := e
    by_cases h : k = key
    · by_cases h' : key = other <;> simp [put, get?, h, h']
    · by_cases h' : k = other
      · subst h'
        simp [put, get?, h, Ne.symm h]
      · simp [put, get?, h, h', ih]

/-- Putting keeps keys distinct. -/
theorem nodup_keys_put {m : Keyed α} (h : m.keys.Nodup) (key : String) (a : α) :
    (m.put key a).keys.Nodup := by
  rw [keys_put]
  split
  · exact h
  · rename_i hk
    refine List.nodup_append.2 ⟨h, by simp, fun b hb c hc => ?_⟩
    rintro rfl
    exact hk (List.mem_singleton.1 hc ▸ hb)

theorem nodup_keys_putAll {m : Keyed α} (h : m.keys.Nodup) (entries : List (String × α)) :
    (m.putAll entries).keys.Nodup := by
  induction entries generalizing m with
  | nil => exact h
  | cons e entries ih => exact ih (nodup_keys_put h e.1 e.2)

/-- Moving a key to the end keeps keys distinct. -/
theorem nodup_keys_moveToEnd {m : Keyed α} (h : m.keys.Nodup) (key : String) (a : α) :
    (m.moveToEnd key a).keys.Nodup := by
  have h' : (keys (m.filter fun e => e.1 != key)).Nodup :=
    h.sublist (List.filter_sublist.map _)
  have hk : key ∉ keys (m.filter fun e => e.1 != key) := by simp [keys]
  rw [moveToEnd, keys_append]
  refine List.nodup_append.2 ⟨h', by simp, fun b hb c hc => ?_⟩
  rintro rfl
  simp only [keys_cons, keys_nil, List.mem_singleton] at hc
  exact hk (hc ▸ hb)

theorem put_of_fresh {m : Keyed α} {key : String} (h : key ∉ m.keys) (a : α) :
    m.put key a = m ++ [(key, a)] := by
  induction m with
  | nil => rfl
  | cons e m ih =>
    obtain ⟨k, b⟩ := e
    simp only [keys_cons, List.mem_cons, not_or] at h
    simp [put, Ne.symm h.1, ih h.2]

/-- Entries under distinct keys that are new go to the end. -/
theorem putAll_of_fresh {m n : Keyed α} (hn : n.keys.Nodup) (hfresh : ∀ key ∈ n.keys, key ∉ m.keys) :
    m.putAll n = m ++ n := by
  induction n generalizing m with
  | nil => simp [putAll]
  | cons e n ih =>
    obtain ⟨k, a⟩ := e
    obtain ⟨hk, hn⟩ := List.nodup_cons.1 hn
    have hnext : ∀ key ∈ keys n, key ∉ keys (m ++ [(k, a)]) := by
      intro key hkey hmem
      rw [keys_append, List.mem_append] at hmem
      rcases hmem with hmem | hmem
      · exact hfresh key (List.mem_cons_of_mem k hkey) hmem
      · rw [keys_cons, keys_nil, List.mem_singleton] at hmem
        exact hk (hmem ▸ hkey)
    have hstep : m.putAll ((k, a) :: n) = (m.put k a).putAll n := rfl
    rw [hstep, put_of_fresh (hfresh k List.mem_cons_self), ih hn hnext, List.append_assoc,
      List.singleton_append]

/-- Of the entries that are put, the last of a key takes the place of those that have it. -/
theorem get?_putAll_last (m n : Keyed α) (key : String) :
    (m.putAll n).get? key = (get? n.reverse key).or (m.get? key) := by
  induction n generalizing m with
  | nil => rfl
  | cons e n ih =>
    obtain ⟨k, a⟩ := e
    have hstep : m.putAll ((k, a) :: n) = (m.put k a).putAll n := rfl
    rw [hstep, ih, get?_put, List.reverse_cons, get?_append, Option.or_assoc, get?, get?]
    split <;> rfl

/-- Under distinct keys the first entry of a key is the last. -/
theorem get?_reverse {m : Keyed α} (h : m.keys.Nodup) (key : String) :
    get? m.reverse key = m.get? key := by
  have hreverse : (keys m.reverse).Nodup := by
    rw [keys, List.map_reverse]
    exact List.pairwise_reverse.2 (h.imp Ne.symm)
  refine Option.ext fun a => ?_
  rw [get?_eq_some_iff hreverse, get?_eq_some_iff h, List.mem_reverse]

/-- Entries under distinct keys take the place of those that have their keys. -/
theorem get?_putAll {m n : Keyed α} (hn : n.keys.Nodup) (key : String) :
    (m.putAll n).get? key = (n.get? key).or (m.get? key) := by
  rw [get?_putAll_last, get?_reverse hn]

/-- Only entries with new keys go to the end. -/
theorem keys_putAll {m n : Keyed α} (hn : n.keys.Nodup) :
    (m.putAll n).keys = m.keys ++ (keys n).filter fun key => key ∉ m.keys := by
  induction n generalizing m with
  | nil => simp [putAll]
  | cons e n ih =>
    obtain ⟨k, a⟩ := e
    obtain ⟨hk, hn⟩ := List.nodup_cons.1 hn
    have hstep : m.putAll ((k, a) :: n) = (m.put k a).putAll n := rfl
    rw [hstep, ih hn, keys_put, keys_cons]
    by_cases h : k ∈ m.keys
    · rw [if_pos h, List.filter_cons_of_neg (by simpa using h)]
    · have hfilter : ((keys n).filter fun key => key ∉ m.keys ++ [k]) =
          (keys n).filter fun key => key ∉ m.keys := by
        refine List.filter_congr fun key hkey => ?_
        have hne : key ≠ k := fun heq => hk (heq ▸ hkey)
        simp [hne]
      rw [if_neg h, List.filter_cons_of_pos (by simpa using h), hfilter, List.append_assoc,
        List.singleton_append]

end Keyed

end Tabula
