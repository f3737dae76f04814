import TreeWalk.Proofs.Eval.Operands

/-!
# Results from some bound on

A run with a bound on the nesting of calls eventually has a result when it has this result at all
bounds from some one on.

Results:
1. `Eventually.bind`, `Eventually.andThen`, `Eventually.withOperands`: one run after another.
2. `Eventually.shift`: a call takes one level more than its body.
-/

namespace TreeWalk

open Run

variable {α β : Type}

/-- The run has the result at all bounds from some one on. -/
def Eventually (x : Nat → Run α) (w : World) (a : α) (w' : World) : Prop :=
  ∃ bound, ∀ n, bound ≤ n → (x n).run w = some (a, w')

namespace Eventually

variable {x : Nat → Run α} {w u w' : World} {a : α}

theorem always (result : ∀ n, (x n).run w = some (a, w')) : Eventually x w a w' :=
  ⟨0, fun n _ => result n⟩

theorem exists_run (h : Eventually x w a w') : ∃ n, (x n).run w = some (a, w') := by
  obtain ⟨bound, h⟩ := h
  exact ⟨bound, h bound (Nat.le_refl _)⟩

/-- A result that the run eventually has is the only one of this kind. -/
theorem unique {b : α} {u' : World} (h : Eventually x w a u) (k : Eventually x w b u') :
    a = b ∧ u = u' := by
  obtain ⟨m, h⟩ := h
  obtain ⟨l, k⟩ := k
  have left := h (max m l) (Nat.le_max_left m l)
  rw [k (max m l) (Nat.le_max_right m l)] at left
  cases left
  exact ⟨rfl, rfl⟩

theorem of_eq {y : Nat → Run α} (h : Eventually y w a w') (eq : ∀ n, x n = y n) :
    Eventually x w a w' := by
  obtain ⟨bound, h⟩ := h
  refine ⟨bound, fun n le => ?_⟩
  rw [eq n]
  exact h n le

theorem bind {f : Nat → α → Run β} {b : β} (first : Eventually x w a u)
    (rest : Eventually (fun n => f n a) u b w') :
    Eventually (fun n => x n >>= f n) w b w' := by
  obtain ⟨m, first⟩ := first
  obtain ⟨k, rest⟩ := rest
  refine ⟨max m k, fun n le => bind_eq_some.mpr ⟨a, u, first n ?_, rest n ?_⟩⟩
  · exact Nat.le_trans (Nat.le_max_left m k) le
  · exact Nat.le_trans (Nat.le_max_right m k) le

section Values

variable {x : Nat → Run Value} {v : Value}

theorem andThen {f : Nat → Value → Run Value} {a : Value} (first : Eventually x w a u)
    (notSentinel : a.isSentinel = false) (rest : Eventually (fun n => f n a) u v w') :
    Eventually (fun n => Run.andThen (x n) (f n)) w v w' := by
  refine first.bind (f := fun n v => if v.isSentinel then Pure.pure v else f n v) ?_
  rw [notSentinel]
  exact rest

theorem andThen_stop {f : Nat → Value → Run Value} (first : Eventually x w v w')
    (sentinel : v.isSentinel = true) : Eventually (fun n => Run.andThen (x n) (f n)) w v w' := by
  refine first.bind (f := fun n v => if v.isSentinel then Pure.pure v else f n v) ?_
  rw [sentinel]
  exact always fun _ => rfl

end Values

section Operands

variable {x : Nat → Run (Except Value (List Value))} {k : Nat → List Value → Run Value} {v : Value}

theorem withOperands {values : List Value} (first : Eventually x w (.ok values) u)
    (rest : Eventually (fun n => k n values) u v w') :
    Eventually (fun n => Run.withOperands (x n) (k n)) w v w' := by
  obtain ⟨m, first⟩ := first
  obtain ⟨l, rest⟩ := rest
  refine ⟨max m l, fun n le => withOperands_eq_some.mpr (.inr ⟨values, u, first n ?_, rest n ?_⟩)⟩
  · exact Nat.le_trans (Nat.le_max_left m l) le
  · exact Nat.le_trans (Nat.le_max_right m l) le

theorem withOperands_stop (first : Eventually x w (.error v) w') :
    Eventually (fun n => Run.withOperands (x n) (k n)) w v w' := by
  obtain ⟨m, first⟩ := first
  exact ⟨m, fun n le => withOperands_eq_some.mpr (.inl (first n le))⟩

end Operands

theorem map {y : Nat → Run β} {b : β} {f : β × World → α × World} (h : Eventually y u b w')
    (eq : ∀ n, (x n).run w = ((y n).run u).map f) :
    Eventually x w (f (b, w')).1 (f (b, w')).2 := by
  obtain ⟨bound, h⟩ := h
  refine ⟨bound, fun n le => ?_⟩
  rw [eq n, h n le]
  rfl

/-- A call takes one level more than its body. -/
theorem shift (h : Eventually (fun n => x (n + 1)) w a w') : Eventually x w a w' := by
  obtain ⟨bound, h⟩ := h
  refine ⟨bound + 1, fun n le => ?_⟩
  cases n with
  | zero => cases le
  | succ n => exact h n (Nat.le_of_succ_le_succ le)

end Eventually

end TreeWalk
