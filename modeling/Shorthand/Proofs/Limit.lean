import Shorthand.Expansion
import Shorthand.Proofs.Agreement

/-!
# The digit limit

Numbering fails only where a numeral is longer than the digit limit.

- `FailsIn P x`: every fault of the computation `x` satisfies `P`.
- `Fault.IsLimit`: the faults of the digit limit.
- `copies_failsIn`: copies of a template fail only at the digit limit.
-/

namespace Shorthand

variable {ε α β : Type} {P Q : ε → Prop}

/-- Every fault of the computation satisfies `P`. -/
def FailsIn (P : ε → Prop) (x : Except ε α) : Prop :=
  ∀ f, x = .error f → P f

theorem FailsIn.ok (a : α) : FailsIn P (.ok a) := by
  intro f h
  cases h

theorem FailsIn.error {f : ε} (h : P f) : FailsIn P (.error f : Except ε α) := by
  rintro _ ⟨⟩
  exact h

theorem FailsIn.pure (a : α) : FailsIn P (pure a) := FailsIn.ok a

theorem FailsIn.mono {x : Except ε α} (h : FailsIn P x) (hPQ : ∀ f, P f → Q f) :
    FailsIn Q x := fun f hf => hPQ f (h f hf)

theorem FailsIn.bind {x : Except ε α} {k : α → Except ε β} (h : FailsIn P x)
    (hk : ∀ a, FailsIn P (k a)) : FailsIn P (x >>= k) := by
  intro f hf
  cases x with
  | error g =>
    rw [error_bind] at hf
    cases hf
    exact h _ rfl
  | ok a => exact hk a f hf

theorem FailsIn.map {x : Except ε α} (h : FailsIn P x) (g : α → β) : FailsIn P (x.map g) := by
  cases x with
  | error f => exact .error (h f rfl)
  | ok a => exact .ok (g a)

theorem FailsIn.ite {c : Prop} [Decidable c] {x y : Except ε α} (hx : FailsIn P x)
    (hy : FailsIn P y) : FailsIn P (if c then x else y) := by
  split
  · exact hx
  · exact hy

theorem FailsIn.mapM {g : α → Except ε β} (h : ∀ a, FailsIn P (g a)) (xs : List α) :
    FailsIn P (xs.mapM g) := by
  induction xs with
  | nil => exact FailsIn.ok []
  | cons x xs ih =>
    rw [List.mapM_cons]
    exact (h x).bind fun y => ih.bind fun ys => FailsIn.pure _

/-- The fault of a numeral beyond the digit limit. -/
def Fault.IsLimit : Fault → Prop
  | .numeralTooLong _ => True
  | .numberTooLarge => True
  | _ => False

theorem readNumeral_failsIn (ds : Text) : FailsIn Fault.IsLimit (readNumeral ds) := by
  intro f h
  unfold readNumeral at h
  split at h <;> cases h
  trivial

theorem writeNumeral_failsIn (z : Int) : FailsIn Fault.IsLimit (writeNumeral z) := by
  intro f h
  unfold writeNumeral at h
  simp only at h
  split at h <;> cases h
  trivial

theorem Placeholder.fill_failsIn (p : Placeholder) (n times : Int) :
    FailsIn Fault.IsLimit (p.fill n times) := by
  have hoffset : FailsIn Fault.IsLimit (p.offset times) :=
    (readNumeral_failsIn p.start).bind fun start => FailsIn.pure _
  exact hoffset.bind fun offset => (writeNumeral_failsIn _).bind fun value => FailsIn.pure _

theorem numberFragment_failsIn (fragment : Text) (n times : Int) :
    FailsIn Fault.IsLimit (numberFragment fragment n times) := by
  refine (FailsIn.mapM (fun piece => ?_) _).bind fun pieces => FailsIn.pure _
  cases piece with
  | plain c => exact FailsIn.ok [c]
  | slot p => exact p.fill_failsIn n times

theorem copies_failsIn (template : List Text) (times : Nat) :
    FailsIn Fault.IsLimit (Expansion.copies template times) := by
  refine (FailsIn.mapM (fun n => ?_) _).bind fun copies => FailsIn.pure _
  exact FailsIn.mapM (fun fragment => numberFragment_failsIn fragment n times) template

end Shorthand
