import Mathlib.Data.List.Forall2
import Shorthand.Fault

/-!
# Computations that agree

Two computations that may fail are compared by a relation between their results.

- `Agree R x y`: both fail with the same fault, or both succeed with results related by `R`.
- `Agree.bind`: what follows two agreeing computations agrees when it does so on related results.
- `mapM_eq_ok_iff`, `exists_mapM`: when a list of computations succeeds.
- `bind_congr_ok`, `map_bind_eq_map`: two computations that begin alike, compared by what they go on
  to from the results that there are.
- `Agree.map_eq_map`: functions that take related results to the same value make agreeing
  computations equal.
-/

namespace Shorthand

variable {ε α β γ δ : Type}

/-- Both computations fail with the same fault, or both succeed with results related by `R`. -/
def Agree (R : α → β → Prop) : Except Fault α → Except Fault β → Prop
  | .ok a, .ok b => R a b
  | .error f, .error g => f = g
  | _, _ => False

@[simp] theorem ok_bind (a : α) (k : α → Except ε β) : (Except.ok a >>= k) = k a := rfl

@[simp] theorem error_bind (f : ε) (k : α → Except ε β) :
    (Except.error f >>= k) = Except.error f := rfl

@[simp] theorem ok_map (g : α → β) (a : α) : g <$> (Except.ok a : Except ε α) = .ok (g a) := rfl

@[simp] theorem error_map (g : α → β) (f : ε) :
    g <$> (Except.error f : Except ε α) = .error f := rfl

/-- What a computation that ends in a result does before that. -/
theorem bind_eq_ok {x : Except ε α} {k : α → Except ε β} {b : β}
    (h : x >>= k = .ok b) : ∃ a, x = .ok a ∧ k a = .ok b := by
  cases x with
  | error f => simp at h
  | ok a => exact ⟨a, rfl, h⟩

/-- A computation that fails does so at its start or in what follows. -/
theorem bind_eq_error {x : Except ε α} {k : α → Except ε β} {f : ε} (h : x >>= k = .error f) :
    x = .error f ∨ ∃ a, x = .ok a ∧ k a = .error f := by
  cases x with
  | error g =>
    cases h
    exact .inl rfl
  | ok a => exact .inr ⟨a, rfl, h⟩

theorem map_eq_ok {x : Except ε α} {g : α → β} {b : β} (h : g <$> x = .ok b) :
    ∃ a, x = .ok a ∧ g a = b := by
  cases x with
  | error f => simp at h
  | ok a => exact ⟨a, rfl, by simpa using h⟩

theorem toOption_eq_some {x : Except ε α} {a : α} : x.toOption = some a ↔ x = .ok a := by
  cases x <;> simp [Except.toOption]

theorem isOk_eq_isSome (x : Except ε α) : x.isOk = x.toOption.isSome := by
  cases x <;> rfl

theorem bind_congr_ok {x : Except Fault α} {k l : α → Except Fault β}
    (h : ∀ a, x = .ok a → k a = l a) : x >>= k = x >>= l := by
  cases x with
  | error f => rfl
  | ok a => exact h a rfl

theorem map_congr_ok {x : Except Fault α} {g k : α → β} (h : ∀ a, x = .ok a → g a = k a) :
    g <$> x = k <$> x := by
  cases x with
  | error f => rfl
  | ok a => exact congrArg Except.ok (h a rfl)

/-- A function of the results may be applied early when what follows brings it to the end. -/
theorem map_bind_eq_map {x : Except Fault α} {g : α → γ} {k : γ → Except Fault δ}
    {l : α → Except Fault β} {g' : β → δ} (h : ∀ a, x = .ok a → k (g a) = g' <$> l a) :
    g <$> x >>= k = g' <$> (x >>= l) := by
  cases x with
  | error f => rfl
  | ok a => exact h a rfl

theorem mapM_map {f : α → Except Fault β} (g : α → β → γ) (xs : List α) :
    xs.mapM (fun x => g x <$> f x) = List.zipWith g xs <$> xs.mapM f := by
  induction xs with
  | nil => rfl
  | cons x xs ih =>
    rw [List.mapM_cons, List.mapM_cons, ih]
    cases f x with
    | error f => rfl
    | ok y => cases xs.mapM f <;> rfl

/-- A list of computations succeeds when each does, with their results in order. -/
theorem mapM_eq_ok_iff {f : α → Except Fault β} {xs : List α} {ys : List β} :
    xs.mapM f = .ok ys ↔ List.Forall₂ (fun x y => f x = .ok y) xs ys := by
  induction xs generalizing ys with
  | nil => cases ys <;> simp [pure, Except.pure]
  | cons x xs ih =>
    rw [List.mapM_cons, List.forall₂_cons_left_iff]
    refine ⟨fun h => ?_, ?_⟩
    · obtain ⟨y, hy, h⟩ := bind_eq_ok h
      obtain ⟨zs, hzs, h⟩ := bind_eq_ok h
      cases h
      exact ⟨y, zs, hy, ih.1 hzs, rfl⟩
    · rintro ⟨y, zs, hy, hzs, rfl⟩
      rw [hy, ih.2 hzs]
      rfl

/-- A list of computations that all succeed succeeds. -/
theorem exists_mapM {f : α → Except Fault β} {xs : List α} (h : ∀ x ∈ xs, ∃ y, f x = .ok y) :
    ∃ ys, xs.mapM f = .ok ys := by
  induction xs with
  | nil => exact ⟨[], rfl⟩
  | cons x xs ih =>
    obtain ⟨y, hy⟩ := h x List.mem_cons_self
    obtain ⟨ys, hys⟩ := ih fun z hz => h z (List.mem_cons_of_mem _ hz)
    exact ⟨y :: ys, by rw [List.mapM_cons, hy, hys]; rfl⟩

namespace Agree

variable {R : α → β → Prop} {S : γ → δ → Prop} {x : Except Fault α} {y : Except Fault β}

theorem ok {a : α} {b : β} (h : R a b) : Agree R (.ok a) (.ok b) := h

theorem mono {R' : α → β → Prop} (h : Agree R x y) (hR : ∀ a b, R a b → R' a b) :
    Agree R' x y := by
  cases x <;> cases y <;> simp_all [Agree]

theorem bind {k : α → Except Fault γ} {l : β → Except Fault δ} (h : Agree R x y)
    (hk : ∀ a b, R a b → Agree S (k a) (l b)) : Agree S (x >>= k) (y >>= l) := by
  cases x <;> cases y <;> simp_all [Agree]

theorem map_eq_map {g : α → γ} {k : β → γ} (h : Agree R x y) (hg : ∀ a b, R a b → g a = k b) :
    g <$> x = k <$> y := by
  cases x with
  | error f =>
    cases y with
    | error f' => rw [show f = f' from h]; rfl
    | ok b => exact h.elim
  | ok a =>
    cases y with
    | error f' => exact h.elim
    | ok b => rw [ok_map, ok_map, hg a b h]

/-- The right computation goes on to a result of its own. -/
theorem bind_pure {S : α → δ → Prop} {g : β → δ} (h : Agree R x y)
    (hg : ∀ a b, R a b → S a (g b)) : Agree S x (y >>= fun b => pure (g b)) := by
  cases x <;> cases y <;> simp_all [Agree, pure, Except.pure]

/-- When the first of two agreeing computations succeeds, the second does. -/
theorem of_eq_ok {a : α} (h : Agree R x y) (hx : x = .ok a) : ∃ b, y = .ok b ∧ R a b := by
  subst hx
  cases y with
  | error f => exact h.elim
  | ok b => exact ⟨b, rfl, h⟩

end Agree

end Shorthand
