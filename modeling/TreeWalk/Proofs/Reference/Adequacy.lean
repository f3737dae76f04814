import TreeWalk.Proofs.Reference.Complete
import TreeWalk.Proofs.Reference.Sound

/-!
# Sentinels implement outcomes

The evaluator passes returns and faults on as values. On heaps in which no bound value contains a
sentinel this is as good as keeping them apart: the evaluator ends exactly when the reference does,
and both come to the same.

Result: `sentinels_implement_outcomes`, for programs and for calls.
-/

namespace TreeWalk.Reference

open Outcome

/-- What a run with a bound on the nesting of calls has to do with a relation of the reference. -/
structure Implements (x : Nat → Run Value) (w : World) (R : Outcome Value → Store → Prop) :
    Prop where
  /-- At some bound there is a result exactly when the reference has an outcome. -/
  terminates : (∃ depth r, (x depth).run w = some r) ↔ ∃ o τ, R o τ
  /-- A result stands for the outcome, and the states are the same: the scopes, what was written,
  and what was counted. -/
  agrees : ∀ depth {v w' o τ}, (x depth).run w = some (v, w') → R o τ →
    ofValue v = o ∧ w'.store = τ

/-- It is enough that every result is an outcome, and that every outcome is eventually a result. -/
theorem Implements.of {x : Nat → Run Value} {w : World} {R : Outcome Value → Store → Prop}
    (sound : ∀ {depth v w'}, (x depth).run w = some (v, w') → R (ofValue v) w'.store)
    (complete : ∀ {o τ}, R o τ → Reaches x w o τ) : Implements x w R := by
  refine ⟨⟨?_, ?_⟩, ?_⟩
  · rintro ⟨depth, ⟨v, w'⟩, result⟩
    exact ⟨ofValue v, w'.store, sound result⟩
  · rintro ⟨o, τ, rule⟩
    obtain ⟨v, u, _, _, ran⟩ := complete rule
    obtain ⟨n, result⟩ := ran.exists_run
    exact ⟨n, (v, u), result⟩
  · intro depth v w' o τ result rule
    -- The result is an outcome too, and of two outcomes both are eventually results.
    obtain ⟨a, x, left, leftStore, ran⟩ := complete (sound result)
    obtain ⟨b, y, right, rightStore, ran'⟩ := complete rule
    obtain ⟨rfl, rfl⟩ := ran.unique ran'
    exact ⟨left.symm.trans right, leftStore.symm.trans rightStore⟩

/-- Sentinels implement outcomes. From a clean heap a program ends exactly when the reference does,
with the same result, the same scopes, the same output and the same counts, and so does a call of
any value on clean arguments. -/
theorem sentinels_implement_outcomes (host : Host) (keeps : host.KeepsClean) (me : InterpreterId)
    (w : World) (clean : w.heap.Clean) :
    (∀ s program, Implements (fun depth => evalProgram host me depth s program) w
      (RunsProgram host me w.store s program)) ∧
    ∀ callee args, (∀ a ∈ args, a.Clean) →
      Implements (fun depth => applyValue host me depth callee args) w
        (Applies host me w.store callee args) := by
  refine ⟨fun s program => .of ?_ ?_, fun callee args all => .of ?_ ?_⟩
  · exact fun result => soundProgram keeps clean result
  · exact fun runs => runs.reaches keeps clean
  · exact fun result => soundCall keeps (soundCalls keeps _) clean all result
  · exact fun applies => applies.reaches keeps rfl clean all

/-- A program that returns from within an element of an array, before an element that fails. -/
def returnsEarly : Program Origin :=
  [.expr (.array [.int 1, .ifElse (.bool true) [.ret (.int 2)] none,
    .prefixOp .negate (.bool true)])]

/-- A function that fails when it does not return before. -/
def failsLate : Closure :=
  ⟨⟨0, 0⟩, ["x"], [.expr (.ifElse (.ident "x") [.ret (.int 2)] none),
    .bind "y" (.prefixOp .negate (.ident "x"))], ⟨0⟩⟩

theorem sentinels_implement_outcomes_early :
    (∃ τ, RunsProgram .empty ⟨0⟩ World.rooted.store ⟨0⟩ returnsEarly (.normal (.int 2)) τ) ∧
    ∃ τ, Applies .empty ⟨0⟩ World.rooted.store (.fn failsLate) [.bool false]
      (.failing "unknown operator: -BOOLEAN") τ := by
  have keeps : Host.empty.KeepsClean := fun _ _ _ => .inr Value.hereditary_clean.null
  have both := sentinels_implement_outcomes .empty keeps ⟨0⟩ .rooted World.clean_rooted
  constructor
  · have implements := both.1 ⟨0⟩ returnsEarly
    obtain ⟨o, τ, rule⟩ := implements.terminates.mp ⟨0, _, rfl⟩
    have outcome : ofValue (.int 2) = o := (implements.agrees 0 rfl rule).1
    subst outcome
    exact ⟨τ, rule⟩
  · have clean : ∀ a ∈ [Value.bool false], a.Clean :=
      List.forall_mem_singleton.mpr (Value.hereditary_clean.bool false)
    have implements := both.2 (.fn failsLate) [.bool false] clean
    obtain ⟨o, τ, rule⟩ := implements.terminates.mp ⟨1, _, rfl⟩
    have outcome : ofValue (.err "unknown operator: -BOOLEAN") = o :=
      (implements.agrees 1 rfl rule).1
    subst outcome
    exact ⟨τ, rule⟩

end TreeWalk.Reference
