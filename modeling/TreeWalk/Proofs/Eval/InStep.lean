import TreeWalk.Run

/-!
# Two runs in step

One run, from two states: it goes in step when it is cut short from both or from none, and in the
latter case gives the same value, and states which stand in a given relation. From a state and
itself this says what the run does to the state.

Results:
1. `rel_map`, `rel_bind`: results of which both exist or none does, and that are related.
2. `InStep.bind`, `InStep.andThen`: one thing after another.
3. `InStep.fromOne`: what is known of a run from one state.
-/

namespace TreeWalk

open Run

variable {α β : Type}

/-! ## Related results -/

section Related

variable {α' β' : Type} {R : α → β → Prop} {S : α' → β' → Prop} {a : Option α} {b : Option β}

theorem rel_imp {T : α → β → Prop} (h : Option.Rel R a b) (imp : ∀ r q, R r q → T r q) :
    Option.Rel T a b := by
  cases h with
  | none => exact .none
  | some h => exact .some (imp _ _ h)

theorem rel_map {f : α → α'} {g : β → β'} (h : Option.Rel R a b)
    (imp : ∀ r q, R r q → S (f r) (g q)) : Option.Rel S (a.map f) (b.map g) := by
  cases h with
  | none => exact .none
  | some h => exact .some (imp _ _ h)

theorem rel_bind {f : α → Option α'} {g : β → Option β'} (h : Option.Rel R a b)
    (next : ∀ r q, R r q → Option.Rel S (f r) (g q)) : Option.Rel S (a.bind f) (b.bind g) := by
  cases h with
  | none => exact .none
  | some h => exact next _ _ h

theorem exists_of_rel {r : α} (h : Option.Rel R (some r) b) : ∃ q, b = some q ∧ R r q := by
  cases h with
  | some h => exact ⟨_, rfl, h⟩

/-- The first of two results is known where they are related. -/
theorem rel_and_left (h : Option.Rel R a b) : Option.Rel (fun r q => R r q ∧ a = some r) a b := by
  cases h with
  | none => exact .none
  | some h => exact .some ⟨h, rfl⟩

end Related

/-! ## One run from two states -/

/-- The run `x` goes in step from `w` and from `u`, up to states that satisfy `post`. -/
def InStep (x : Run α) (w u : World) (post : α → World → World → Prop) : Prop :=
  Option.Rel (fun r q => r.1 = q.1 ∧ post r.1 r.2 q.2) (x.run w) (x.run u)

namespace InStep

variable {w u : World}

theorem ofResults {x : Run α} {post : α → World → World → Prop} {a : α} {w' u' : World}
    (left : x.run w = some (a, w')) (right : x.run u = some (a, u')) (h : post a w' u') :
    InStep x w u post := by
  rw [InStep, left, right]
  exact .some ⟨rfl, h⟩

theorem pure {post : α → World → World → Prop} {a : α} (h : post a w u) :
    InStep (Pure.pure a) w u post :=
  ofResults (run_pure a w) (run_pure a u) h

theorem cutShort {post : α → World → World → Prop} : InStep (failure : Run α) w u post :=
  .none

theorem weaken {x : Run α} {post post' : α → World → World → Prop} (h : InStep x w u post)
    (imp : ∀ a w' u', post a w' u' → post' a w' u') : InStep x w u post' := by
  rw [InStep] at h ⊢
  exact rel_imp h fun _ _ ends => ⟨ends.1, imp _ _ _ ends.2⟩

/-- A run that maps the results of another one is in step when the other one is. -/
theorem map {x : Run α} {y : Run β} {w₁ u₁ : World} {mid : β → World → World → Prop}
    {post : α → World → World → Prop} {f k : β × World → α × World}
    (left : x.run w = (y.run w₁).map f) (right : x.run u = (y.run u₁).map k)
    (h : InStep y w₁ u₁ mid)
    (imp : ∀ b w' u', mid b w' u' →
      (f (b, w')).1 = (k (b, u')).1 ∧ post (f (b, w')).1 (f (b, w')).2 (k (b, u')).2) :
    InStep x w u post := by
  rw [InStep] at h ⊢
  rw [left, right]
  refine rel_map h ?_
  rintro ⟨b, w'⟩ ⟨c, u'⟩ ⟨eq, ends⟩
  dsimp only at eq ends
  subst eq
  exact imp b w' u' ends

/-- A run that starts with an update of the state is in step when the rest is. -/
theorem after {x y : Run α} {w₁ u₁ : World} {post : α → World → World → Prop}
    (left : x.run w = y.run w₁) (right : x.run u = y.run u₁) (h : InStep y w₁ u₁ post) :
    InStep x w u post := by
  rw [InStep, left, right]
  exact h

theorem bind {x : Run α} {f : α → Run β} {mid : α → World → World → Prop}
    {post : β → World → World → Prop} (h : InStep x w u mid)
    (next : ∀ a w' u', mid a w' u' → InStep (f a) w' u' post) : InStep (x >>= f) w u post := by
  rw [InStep] at h ⊢
  rw [run_bind, run_bind]
  refine rel_bind h ?_
  rintro ⟨a, w'⟩ ⟨b, u'⟩ ⟨eq, ends⟩
  dsimp only at eq ends
  subst eq
  exact next a w' u' ends

/-- Going on unless there is a sentinel. -/
theorem andThen {x : Run Value} {f : Value → Run Value} {mid post : Value → World → World → Prop}
    (h : InStep x w u mid)
    (stop : ∀ v w' u', mid v w' u' → v.isSentinel = true → post v w' u')
    (next : ∀ v w' u', mid v w' u' → v.isSentinel = false → InStep (f v) w' u' post) :
    InStep (Run.andThen x f) w u post := by
  refine h.bind fun v w' u' hv => ?_
  cases sentinel : v.isSentinel with
  | true => exact .pure (stop v w' u' hv sentinel)
  | false => exact next v w' u' hv sentinel

/-- A result from the one state comes with one from the other. -/
theorem other {x : Run α} {post : α → World → World → Prop} {a : α} {w' : World}
    (h : InStep x w u post) (result : x.run w = some (a, w')) :
    ∃ u', x.run u = some (a, u') ∧ post a w' u' := by
  rw [InStep, result] at h
  obtain ⟨⟨b, u'⟩, ran, rfl, ends⟩ := exists_of_rel h
  exact ⟨u', ran, ends⟩

/-- What the run came to from the one state is known at its end. -/
theorem ran {x : Run α} {post : α → World → World → Prop} (h : InStep x w u post) :
    InStep x w u fun a w' u' => post a w' u' ∧ x.run w = some (a, w') :=
  rel_imp (rel_and_left h) fun _ _ both => ⟨both.1.1, both.1.2, both.2⟩

/-- A run that goes in step from a state and itself has a result that satisfies the relation, if
it has a result. -/
theorem fromOne {x : Run α} {post : α → World → World → Prop} {a : α} {w' : World}
    (h : InStep x w w post) (result : x.run w = some (a, w')) : post a w' w' := by
  rw [InStep, result] at h
  cases h with
  | some h => exact h.2

end InStep

end TreeWalk
