import Mathlib.Data.List.Forall2

/-!
# Computations that may fail

Plans, schemas and results are made by computations in `Except` that stop at the first failure. The
lemmas here take such a computation apart: which parts have succeeded if the whole has, and which
part has failed first if the whole has not.
-/

namespace Tabula

variable {ε α β : Type}

/-! ## Steps -/

@[simp] theorem pure_eq_ok (a : α) : (pure a : Except ε α) = .ok a := rfl

@[simp] theorem throw_eq_error (e : ε) : (throw e : Except ε α) = .error e := rfl

@[simp] theorem ok_bind (a : α) (f : α → Except ε β) : (Except.ok a >>= f) = f a := rfl

@[simp] theorem error_bind (e : ε) (f : α → Except ε β) :
    ((Except.error e : Except ε α) >>= f) = .error e := rfl

@[simp] theorem map_ok (f : α → β) (a : α) : f <$> (Except.ok a : Except ε α) = .ok (f a) := rfl

@[simp] theorem map_error (f : α → β) (e : ε) :
    f <$> (Except.error e : Except ε α) = .error e := rfl

theorem bind_eq_ok {x : Except ε α} {f : α → Except ε β} {b : β} :
    (x >>= f) = .ok b ↔ ∃ a, x = .ok a ∧ f a = .ok b := by
  cases x with
  | error e => simp
  | ok a => simp

theorem map_eq_ok {x : Except ε α} {f : α → β} {b : β} :
    f <$> x = .ok b ↔ ∃ a, x = .ok a ∧ f a = b := by
  cases x with
  | error e => simp
  | ok a => simp

theorem bind_eq_error {x : Except ε α} {f : α → Except ε β} {e : ε} :
    (x >>= f) = .error e ↔ x = .error e ∨ ∃ a, x = .ok a ∧ f a = .error e := by
  cases x with
  | error e' => simp
  | ok a => simp

theorem map_eq_error {x : Except ε α} {f : α → β} {e : ε} : f <$> x = .error e ↔ x = .error e := by
  cases x with
  | error e' => simp
  | ok a => simp

theorem exists_map_eq_ok {x : Except ε α} {f : α → β} :
    (∃ b, f <$> x = .ok b) ↔ ∃ a, x = .ok a := by
  cases x with
  | error e => simp
  | ok a => simp

theorem mapError_eq_ok {ε' : Type} {x : Except ε α} {f : ε → ε'} {a : α} :
    x.mapError f = .ok a ↔ x = .ok a := by
  cases x with
  | error e => simp [Except.mapError]
  | ok b => simp [Except.mapError]

theorem mapError_eq_error {ε' : Type} {x : Except ε α} {f : ε → ε'} {e : ε'} :
    x.mapError f = .error e ↔ ∃ e', x = .error e' ∧ f e' = e := by
  cases x with
  | error e' => simp [Except.mapError]
  | ok a => simp [Except.mapError]

/-- A computation succeeds if it does so without its result. -/
theorem exists_ok_iff {x : Except ε α} : (∃ a, x = .ok a) ↔ (fun _ => ()) <$> x = .ok () := by
  cases x with
  | error e => simp
  | ok a => simp

theorem map_unit_eq_error {x : Except ε α} {e : ε} (h : (fun _ => ()) <$> x = .error e) :
    x = .error e := by
  cases x with
  | error e' => simpa using h
  | ok a => cases h

/-- Without its result, a computation in two steps is a check of the first and then of the second. -/
theorem map_unit_bind {x : Except ε α} {f : α → Except ε β} {first second : Except ε Unit}
    (hx : (fun _ => ()) <$> x = first) (hf : ∀ a, x = .ok a → (fun _ => ()) <$> f a = second) :
    (fun _ => ()) <$> (x >>= f) = (do first; second) := by
  subst hx
  cases x with
  | error e => rfl
  | ok a => exact hf a rfl

/-- What is made of a result does not matter to those who only ask for success. -/
theorem map_unit_bind_pure {x : Except ε α} {f : α → β} :
    (fun _ => ()) <$> (x >>= fun a => pure (f a)) = (fun _ => ()) <$> x := by
  cases x <;> rfl

/-! ## Traversals -/

theorem mapM_eq_ok {f : α → Except ε β} {xs : List α} {ys : List β} :
    xs.mapM f = .ok ys ↔ List.Forall₂ (fun x y => f x = .ok y) xs ys := by
  induction xs generalizing ys with
  | nil =>
    rw [List.mapM_nil, pure_eq_ok, List.forall₂_nil_left_iff]
    exact ⟨fun h => (Except.ok.inj h).symm, fun h => h ▸ rfl⟩
  | cons x xs ih =>
    rw [List.mapM_cons, bind_eq_ok, List.forall₂_cons_left_iff]
    constructor
    · rintro ⟨y, hy, h⟩
      obtain ⟨ys', hys, h⟩ := bind_eq_ok.1 h
      exact ⟨y, ys', hy, ih.1 hys, (Except.ok.inj h).symm⟩
    · rintro ⟨y, ys', hy, hys, rfl⟩
      exact ⟨y, hy, bind_eq_ok.2 ⟨ys', ih.2 hys, rfl⟩⟩

theorem exists_of_forall₂ {R : α → β → Prop} {xs : List α} {ys : List β} (h : List.Forall₂ R xs ys)
    {x : α} (hx : x ∈ xs) : ∃ y ∈ ys, R x y := by
  induction h with
  | nil => cases hx
  | @cons x' y xs ys hxy _ ih =>
    rcases List.mem_cons.1 hx with rfl | hx
    · exact ⟨y, List.mem_cons_self, hxy⟩
    · obtain ⟨y', hy', hxy'⟩ := ih hx
      exact ⟨y', List.mem_cons_of_mem _ hy', hxy'⟩

theorem exists_forall₂ {R : α → β → Prop} {xs : List α} :
    (∃ ys, List.Forall₂ R xs ys) ↔ ∀ x ∈ xs, ∃ y, R x y := by
  induction xs with
  | nil => simp
  | cons x xs ih =>
    rw [List.forall_mem_cons, ← ih]
    simp only [List.forall₂_cons_left_iff]
    constructor
    · rintro ⟨_, y, ys, hy, hys, rfl⟩
      exact ⟨⟨y, hy⟩, ys, hys⟩
    · rintro ⟨⟨y, hy⟩, ys, hys⟩
      exact ⟨_, y, ys, hy, hys, rfl⟩

theorem map_eq_map_of_forall₂ {γ : Type} {R : α → β → Prop} {f : α → γ} {g : β → γ} {xs : List α}
    {ys : List β} (hfg : ∀ x y, R x y → f x = g y) (h : List.Forall₂ R xs ys) :
    xs.map f = ys.map g := by
  induction h with
  | nil => rfl
  | cons hxy _ ih => rw [List.map_cons, List.map_cons, hfg _ _ hxy, ih]

theorem exists_mem_of_mapM_eq_ok {f : α → Except ε β} {xs : List α} {ys : List β}
    (h : xs.mapM f = .ok ys) {y : β} (hy : y ∈ ys) : ∃ x ∈ xs, f x = .ok y :=
  exists_of_forall₂ (mapM_eq_ok.1 h).flip hy

theorem exists_of_mapM_eq_error {f : α → Except ε β} {xs : List α} {e : ε}
    (h : xs.mapM f = .error e) : ∃ x ∈ xs, f x = .error e := by
  induction xs with
  | nil => cases h
  | cons x xs ih =>
    rw [List.mapM_cons] at h
    rcases bind_eq_error.1 h with hx | ⟨y, -, h⟩
    · exact ⟨x, List.mem_cons_self, hx⟩
    rcases bind_eq_error.1 h with hxs | ⟨ys, -, h⟩
    · obtain ⟨x', hx', he⟩ := ih hxs
      exact ⟨x', List.mem_cons_of_mem x hx', he⟩
    · cases h

theorem exists_mapM_eq_ok {f : α → Except ε β} {xs : List α} :
    (∃ ys, xs.mapM f = .ok ys) ↔ ∀ x ∈ xs, ∃ y, f x = .ok y := by
  induction xs with
  | nil => simp
  | cons x xs ih =>
    simp only [List.mapM_cons, bind_eq_ok, pure_eq_ok, List.forall_mem_cons, ← ih]
    constructor
    · rintro ⟨_, y, hy, ys, hys, -⟩
      exact ⟨⟨y, hy⟩, ys, hys⟩
    · rintro ⟨⟨y, hy⟩, ys, hys⟩
      exact ⟨y :: ys, y, hy, ys, hys, rfl⟩

/-- The results of lists one after another are those of each list. -/
theorem exists_of_mapM_flatten {f : α → Except ε β} {xss : List (List α)} {ys : List β}
    (h : xss.flatten.mapM f = .ok ys) :
    ∃ yss, List.Forall₂ (fun xs ys => xs.mapM f = .ok ys) xss yss ∧ yss.flatten = ys := by
  induction xss generalizing ys with
  | nil =>
    cases h
    exact ⟨[], .nil, rfl⟩
  | cons xs xss ih =>
    rw [List.flatten_cons, List.mapM_append] at h
    obtain ⟨ys₁, hys₁, h⟩ := bind_eq_ok.1 h
    obtain ⟨ys₂, hys₂, h⟩ := bind_eq_ok.1 h
    cases h
    obtain ⟨yss, hyss, rfl⟩ := ih hys₂
    exact ⟨ys₁ :: yss, .cons hys₁ hyss, rfl⟩

theorem mapM_congr {f g : α → Except ε β} {xs : List α} (h : ∀ x ∈ xs, f x = g x) :
    xs.mapM f = xs.mapM g := by
  induction xs with
  | nil => rfl
  | cons x xs ih =>
    obtain ⟨hx, hxs⟩ := List.forall_mem_cons.1 h
    rw [List.mapM_cons, List.mapM_cons, hx, ih hxs]

theorem mapM_map_right {γ : Type} {f : α → Except ε β} {g : β → γ} {xs : List α} :
    xs.mapM (fun x => g <$> f x) = List.map g <$> xs.mapM f := by
  induction xs with
  | nil => rfl
  | cons x xs ih =>
    rw [List.mapM_cons, List.mapM_cons, ih]
    cases f x with
    | error e => rfl
    | ok y =>
      rw [map_ok, ok_bind, ok_bind]
      cases xs.mapM f with
      | error e => rfl
      | ok ys => rfl

theorem forM_eq_ok {f : α → Except ε Unit} {xs : List α} :
    xs.forM f = .ok () ↔ ∀ x ∈ xs, f x = .ok () := by
  simp only [List.forM_eq_forM]
  induction xs with
  | nil => exact ⟨fun _ => by simp, fun _ => rfl⟩
  | cons x xs ih =>
    rw [List.forM_cons, bind_eq_ok, List.forall_mem_cons, ← ih]
    exact ⟨fun ⟨_, hx, hxs⟩ => ⟨hx, hxs⟩, fun ⟨hx, hxs⟩ => ⟨(), hx, hxs⟩⟩

/-- Without its results, a traversal is a check of one element after another. -/
theorem map_unit_mapM {f : α → Except ε β} {xs : List α} :
    (fun _ => ()) <$> xs.mapM f = xs.forM fun x => (fun _ => ()) <$> f x := by
  induction xs with
  | nil => rfl
  | cons x xs ih =>
    simp only [List.forM_eq_forM, List.forM_cons, List.mapM_cons] at ih ⊢
    cases f x with
    | error e => rfl
    | ok y =>
      rw [map_ok, ok_bind, ok_bind, ← ih]
      cases xs.mapM f with
      | error e => rfl
      | ok ys => rfl

theorem forM_congr {f g : α → Except ε Unit} {xs : List α} (h : ∀ x ∈ xs, f x = g x) :
    xs.forM f = xs.forM g := by
  simp only [List.forM_eq_forM]
  induction xs with
  | nil => rfl
  | cons x xs ih =>
    obtain ⟨hx, hxs⟩ := List.forall_mem_cons.1 h
    rw [List.forM_cons, List.forM_cons, hx, ih hxs]

theorem forM_append {f : α → Except ε Unit} {xs ys : List α} :
    (xs ++ ys).forM f = (do xs.forM f; ys.forM f) := by
  simp only [List.forM_eq_forM, List.forM_append]

theorem forM_map_id {f : α → Except ε Unit} {xs : List α} : (xs.map f).forM id = xs.forM f := by
  rw [List.forM_eq_forM, List.forM_eq_forM, List.forM_map]
  rfl

theorem forM_flatMap {f : β → Except ε Unit} {g : α → List β} {xs : List α} :
    (xs.flatMap g).forM f = xs.forM fun x => (g x).forM f := by
  simp only [List.forM_eq_forM]
  induction xs with
  | nil => rfl
  | cons x xs ih => rw [List.flatMap_cons, List.forM_append, List.forM_cons, ih]

/-- Elements that no check refuses need no check. -/
theorem forM_filter {f : α → Except ε Unit} {p : α → Bool} {xs : List α}
    (h : ∀ x ∈ xs, p x = false → f x = .ok ()) : (xs.filter p).forM f = xs.forM f := by
  simp only [List.forM_eq_forM]
  induction xs with
  | nil => rfl
  | cons x xs ih =>
    obtain ⟨hx, hxs⟩ := List.forall_mem_cons.1 h
    cases hp : p x with
    | true => rw [List.filter_cons_of_pos hp, List.forM_cons, List.forM_cons, ih hxs]
    | false =>
      rw [List.filter_cons_of_neg (by simp [hp]), List.forM_cons, hx hp, ok_bind, ih hxs]

/-- A check of one element after another fails with the first failure. -/
theorem forM_eq_error_of_split {f : α → Except ε Unit} {before after : List α} {x : α} {e : ε}
    (hbefore : ∀ y ∈ before, f y = .ok ()) (hx : f x = .error e) :
    (before ++ x :: after).forM f = .error e := by
  simp only [List.forM_eq_forM]
  induction before with
  | nil => rw [List.nil_append, List.forM_cons, hx, error_bind]
  | cons y before ih =>
    obtain ⟨hy, hbefore⟩ := List.forall_mem_cons.1 hbefore
    rw [List.cons_append, List.forM_cons, hy, ok_bind, ih hbefore]

theorem forM_eq_error {f : α → Except ε Unit} {xs : List α} {e : ε} :
    xs.forM f = .error e ↔ ∃ before x after, xs = before ++ x :: after ∧
      (∀ y ∈ before, f y = .ok ()) ∧ f x = .error e := by
  constructor
  · intro h
    induction xs with
    | nil => cases h
    | cons x xs ih =>
      rw [List.forM_eq_forM, List.forM_cons] at h
      rcases bind_eq_error.1 h with hx | ⟨u, hx, h⟩
      · exact ⟨[], x, xs, rfl, by simp, hx⟩
      · obtain ⟨before, y, after, rfl, hbefore, hy⟩ := ih h
        exact ⟨x :: before, y, after, rfl, List.forall_mem_cons.2 ⟨hx, hbefore⟩, hy⟩
  · rintro ⟨before, x, after, rfl, hbefore, hx⟩
    exact forM_eq_error_of_split hbefore hx

/-- A traversal fails with the first failure. -/
theorem mapM_eq_error {f : α → Except ε β} {xs : List α} {e : ε} :
    xs.mapM f = .error e ↔ ∃ before x after, xs = before ++ x :: after ∧
      (∀ y ∈ before, ∃ b, f y = .ok b) ∧ f x = .error e := by
  rw [← map_eq_error (f := fun _ => ()), map_unit_mapM, forM_eq_error]
  simp only [map_eq_error, exists_ok_iff]

/-- A fold fails with the first step that fails, in the state that the others have left behind. -/
theorem foldlM_eq_error {σ : Type} {f : σ → α → Except ε σ} {xs : List α} {s : σ} {e : ε} :
    xs.foldlM f s = .error e ↔ ∃ before x after s', xs = before ++ x :: after ∧
      before.foldlM f s = .ok s' ∧ f s' x = .error e := by
  constructor
  · intro h
    induction xs generalizing s with
    | nil => cases h
    | cons x xs ih =>
      rw [List.foldlM_cons] at h
      rcases bind_eq_error.1 h with hx | ⟨s₁, hs₁, h⟩
      · exact ⟨[], x, xs, s, rfl, rfl, hx⟩
      · obtain ⟨before, y, after, s', rfl, hbefore, hy⟩ := ih h
        refine ⟨x :: before, y, after, s', rfl, ?_, hy⟩
        rw [List.foldlM_cons, hs₁, ok_bind, hbefore]
  · rintro ⟨before, x, after, s', rfl, hbefore, hx⟩
    rw [List.foldlM_append, hbefore, ok_bind, List.foldlM_cons, hx, error_bind]

/-- What every step of a fold keeps, the fold keeps. -/
theorem foldlM_induction {σ : Type} {f : σ → α → Except ε σ} {P : σ → Prop} {xs : List α}
    (hstep : ∀ x ∈ xs, ∀ s s', P s → f s x = .ok s' → P s') {s s' : σ} (hs : P s)
    (h : xs.foldlM f s = .ok s') : P s' := by
  induction xs generalizing s with
  | nil =>
    cases h
    exact hs
  | cons x xs ih =>
    rw [List.foldlM_cons] at h
    obtain ⟨s₁, hs₁, h⟩ := bind_eq_ok.1 h
    exact ih (fun y hy => hstep y (List.mem_cons_of_mem _ hy))
      (hstep x List.mem_cons_self s s₁ hs hs₁) h

/-- A fold that only looks at part of its state can be run on that part. -/
theorem foldlM_map_state {σ τ : Type} {f : σ → α → Except ε σ} {g : τ → α → Except ε τ}
    (view : σ → τ) {xs : List α}
    (hstep : ∀ x ∈ xs, ∀ s s', f s x = .ok s' → g (view s) x = .ok (view s')) {s s' : σ}
    (h : xs.foldlM f s = .ok s') : xs.foldlM g (view s) = .ok (view s') := by
  induction xs generalizing s with
  | nil =>
    cases h
    rfl
  | cons x xs ih =>
    rw [List.foldlM_cons] at h ⊢
    obtain ⟨s₁, hs₁, h⟩ := bind_eq_ok.1 h
    rw [hstep x List.mem_cons_self s s₁ hs₁, ok_bind]
    exact ih (fun y hy => hstep y (List.mem_cons_of_mem _ hy)) h

theorem option_mapM_eq_ok {f : α → Except ε β} {o : Option α} {r : Option β} :
    o.mapM f = .ok r ↔
      (o = none ∧ r = none) ∨ ∃ a b, o = some a ∧ r = some b ∧ f a = .ok b := by
  cases o with
  | none =>
    constructor
    · intro h
      cases h
      exact .inl ⟨rfl, rfl⟩
    · rintro (⟨-, rfl⟩ | ⟨a, b, h, -, -⟩)
      · rfl
      · cases h
  | some a =>
    have hsome : (some a).mapM f = some <$> f a := rfl
    rw [hsome, map_eq_ok]
    constructor
    · rintro ⟨b, hb, rfl⟩
      exact .inr ⟨a, b, rfl, rfl, hb⟩
    · rintro (⟨h, -⟩ | ⟨a', b, h, rfl, hb⟩)
      · cases h
      · cases h
        exact ⟨b, hb, rfl⟩

theorem exists_option_mapM {f : α → Except ε β} {o : Option α} :
    (∃ r, o.mapM f = .ok r) ↔ ∀ a ∈ o, ∃ b, f a = .ok b := by
  simp only [option_mapM_eq_ok]
  cases o <;> simp

end Tabula
