import TreeWalk.Proofs.Eval.Spans

/-!
# Before, at and after a fault

The stretch of an evaluation from its start to a later state, by what it reported and counted: it had
no fault yet, or it has come to the first fault just now. After that nothing happens any more but
that the open spans are left. Stretches without a fault may be put in front of either kind.

Results:
1. `World.Calm`, `World.Struck`: no fault so far, and the first one just now.
2. `Ends`: the end of a run, with all the states on its way.
3. `Ends.after`, `Ends.around`: the end of a run after a first part, and around a body.
-/

namespace TreeWalk

/-! ## Before and at a fault -/

/-- How many faults an interpreter has counted. -/
def World.faults (w : World) (i : InterpreterId) : Nat :=
  (w.interpreter i).stats.errorsRaised

/-- Since `w` no fault was reported and none was counted, and these spans were opened that are
still open. -/
structure World.Calm (w : World) (spans : List Span) (x : World) : Prop where
  reported : ∃ events, w.Reported events x ∧ errorsOf events = [] ∧ Opens events spans
  counted : ∀ i, x.faults i = w.faults i

/-- Since `w` the first fault was reported, just now, and these spans are open. -/
structure World.Struck (w : World) (error : Value) (spans : List Span) (x : World) : Prop where
  reported : ∃ events fault, w.Reported (events ++ [fault]) x ∧ errorsOf events = [] ∧
    fault.error? = some error ∧ Opens (events ++ [fault]) spans
  counted : ∀ i, x.faults i ≤ w.faults i + 1

/-- The end of a run that started at `w`: its result, its moments and its last state. Either it had
no fault and closed all the spans it opened, or the result is the error value of the first fault,
and since then open spans were left. -/
inductive Ends {α : Type} (stop : Value → α) (w : World) : α → List World → World → Prop
  | calm {a moments w'} : w.Calm [] w' → (∀ m ∈ moments, ∃ spans, w.Calm spans m) →
      Ends stop w a moments w'
  | struck {message before x spans} : (∀ m ∈ before, ∃ spans, w.Calm spans m) →
      w.Struck (.err message) spans x →
      Ends stop w (stop (.err message)) (before ++ x :: x.leaving spans) (x.leaveAll spans)

namespace World

variable {w x y : World} {spans inner : List Span} {error : Value}

theorem Calm.refl (w : World) : w.Calm [] w :=
  ⟨⟨[], .refl w, rfl, fun _ => rfl⟩, fun _ => rfl⟩

theorem Calm.trans (first : w.Calm spans x) (next : x.Calm inner y) :
    w.Calm (inner ++ spans) y := by
  obtain ⟨⟨events, reported, none, opens⟩, counted⟩ := first
  obtain ⟨⟨more, reported', none', opens'⟩, counted'⟩ := next
  refine ⟨⟨events ++ more, reported.trans reported', ?_, opens.append opens'⟩,
    fun i => (counted' i).trans (counted i)⟩
  rw [errorsOf_append, none, none', List.append_nil]

theorem Calm.struck (first : w.Calm spans x) (next : x.Struck error inner y) :
    w.Struck error (inner ++ spans) y := by
  obtain ⟨⟨events, reported, none, opens⟩, counted⟩ := first
  obtain ⟨⟨more, fault, reported', none', is, opens'⟩, counted'⟩ := next
  refine ⟨⟨events ++ more, fault, ?_, ?_, is, ?_⟩, fun i => counted i ▸ counted' i⟩
  · rw [List.append_assoc]
    exact reported.trans reported'
  · rw [errorsOf_append, none, none', List.append_nil]
  · rw [List.append_assoc]
    exact opens.append opens'

/-- What is not reported and not counted is no fault. -/
theorem calm_of_log (log : x.log = w.log) (counted : ∀ i, x.faults i = w.faults i) :
    w.Calm [] x :=
  ⟨⟨[], by rw [Reported, log, List.append_nil], rfl, fun _ => rfl⟩, counted⟩

theorem calm_notice (w : World) {what : Notice} (none : (Event.notice what).error? = none) :
    w.Calm [] (w.record (.notice what)) :=
  ⟨⟨[.notice what], w.reported_record _, by simp [errorsOf, none], fun _ => rfl⟩, fun _ => rfl⟩

theorem calm_enter (w : World) (span : Span) : w.Calm [span] (w.record (.enter span)) :=
  ⟨⟨[.enter span], w.reported_record _, rfl, fun _ => rfl⟩, fun _ => rfl⟩

theorem Calm.leave {span : Span} (calm : w.Calm [span] x) :
    w.Calm [] (x.record (.leave span)) := by
  obtain ⟨⟨events, reported, none, opens⟩, counted⟩ := calm
  refine ⟨⟨events ++ [.leave span], reported.trans (x.reported_record _), ?_, opens.leave⟩,
    counted⟩
  rw [errorsOf_append, none]
  rfl

theorem faults_tally (w : World) (me i : InterpreterId) (f : Stats → Stats) :
    (w.tally me f).faults i =
      if i = me then (f (w.interpreter i).stats).errorsRaised else w.faults i := by
  rw [faults, tally, interpreter_update]
  by_cases mine : i = me
  · rw [if_pos mine, if_pos mine, mine]
  · rw [if_neg mine, if_neg mine, faults]

theorem calm_tally (w : World) (me : InterpreterId) {f : Stats → Stats}
    (same : ∀ s, (f s).errorsRaised = s.errorsRaised) : w.Calm [] (w.tally me f) := by
  refine calm_of_log rfl fun i => ?_
  rw [faults_tally, same, faults, ite_self]

theorem struck_raised (w : World) (me : InterpreterId) (fault : EvalFault) :
    w.Struck fault.toValue [] (w.raised me fault) := by
  refine ⟨⟨[], .notice (.faultRaised fault), w.reported_raised me fault, rfl, rfl, fun _ => rfl⟩,
    fun i => ?_⟩
  have counts : (w.raised me fault).faults i =
      (w.tally me fun s => { s with errorsRaised := s.errorsRaised + 1 }).faults i := rfl
  rw [counts, faults_tally]
  split
  · exact Nat.le_refl _
  · exact Nat.le_succ _

theorem faults_computed (w : World) (owner : InterpreterId) (op : Standard) (args : List Value)
    (i : InterpreterId) : (w.computed owner op args).faults i = w.faults i := by
  rw [faults, faults, interpreter_computed]
  split
  · next mine => rw [Interpreter.stats_compute, mine]
  · rfl

theorem calm_computed {owner : InterpreterId} {op : Standard} {args : List Value} {v : Value}
    (ok : ((w.interpreter owner).compute op args).1 = .ok v) :
    w.Calm [] (w.computed owner op args) := by
  refine calm_of_log ?_ (w.faults_computed owner op args)
  rw [log_computed, ok]

theorem struck_computed {owner : InterpreterId} {op : Standard} {args : List Value}
    {fault : BuiltinFault} (failed : ((w.interpreter owner).compute op args).1 = .error fault) :
    w.Struck fault.toValue [] (w.computed owner op args) := by
  have reported := w.reported_computed owner op args
  rw [failed] at reported
  refine ⟨⟨[], .notice (.builtinFailed fault), reported, rfl, rfl, fun _ => rfl⟩, fun i => ?_⟩
  rw [faults_computed]
  exact Nat.le_succ _

end World

/-! ## Ends -/

namespace Ends

variable {α : Type} {stop : Value → α} {w x : World} {a : α} {before moments : List World}
variable {w' : World}

/-- A run that does nothing. -/
theorem pure (stop : Value → α) (w : World) (a : α) : Ends stop w a [] w :=
  .calm (.refl w) (List.forall_mem_nil _)

/-- A step without a fault. -/
theorem step_calm (calm : w.Calm [] w') : Ends stop w a [w'] w' :=
  .calm calm (List.forall_mem_singleton.mpr ⟨[], calm⟩)

/-- A step with a fault. -/
theorem step_struck {message : String} (struck : w.Struck (.err message) [] w') :
    Ends stop w (stop (.err message)) [w'] w' := by
  have none : ∀ m ∈ ([] : List World), ∃ spans, w.Calm spans m := List.forall_mem_nil _
  exact .struck none struck

/-- The end of a run that had no fault in its first part. -/
theorem after (calm : w.Calm [] x) (first : ∀ m ∈ before, ∃ spans, w.Calm spans m)
    (ends : Ends stop x a moments w') : Ends stop w a (before ++ moments) w' := by
  cases ends with
  | calm next all =>
    refine .calm (calm.trans next) (List.forall_mem_append.mpr ⟨first, fun m mem => ?_⟩)
    obtain ⟨spans, next⟩ := all m mem
    exact ⟨_, calm.trans next⟩
  | struck all struck =>
    rw [← List.append_assoc]
    refine .struck (List.forall_mem_append.mpr ⟨first, fun m mem => ?_⟩) ?_
    · obtain ⟨spans, next⟩ := all m mem
      exact ⟨_, calm.trans next⟩
    · have struck := calm.struck struck
      rwa [List.append_nil] at struck

/-- The end of a run that opened a span at first, and leaves it after a body. What is done with the value
of the body leaves error values as they are. -/
theorem around {v : Value} {span : Span} (finish : Value → Value)
    (keeps : ∀ message, finish (.err message) = .err message) (opened : w.Calm [span] x)
    (first : ∀ m ∈ before, ∃ spans, w.Calm spans m) (body : Ends id x v moments w') :
    Ends id w (finish v) (before ++ moments ++ [w'.record (.leave span)])
      (w'.record (.leave span)) := by
  cases body with
  | calm next all =>
    have closed := (opened.trans next).leave
    refine .calm closed ?_
    simp only [List.forall_mem_append, List.forall_mem_singleton]
    refine ⟨⟨first, fun m mem => ?_⟩, [], closed⟩
    obtain ⟨spans, next⟩ := all m mem
    exact ⟨_, opened.trans next⟩
  | @struck message body y spans all struck =>
    -- The span around the body is the outermost of the open ones, so it is the last to be left.
    have open_ := opened.struck struck
    have all : ∀ m ∈ before ++ body, ∃ spans, w.Calm spans m := by
      refine List.forall_mem_append.mpr ⟨first, fun m mem => ?_⟩
      obtain ⟨spans, next⟩ := all m mem
      exact ⟨_, opened.trans next⟩
    have last : (y.leaveAll spans).record (.leave span) = y.leaveAll (spans ++ [span]) := by
      rw [World.leaveAll_append]
      rfl
    have since : before ++ (body ++ y :: y.leaving spans) ++ [y.leaveAll (spans ++ [span])] =
        before ++ body ++ y :: y.leaving (spans ++ [span]) := by
      rw [World.leaving_append, ← last]
      simp [World.leaving]
    rw [last, since, id, keeps]
    exact .struck all open_

end Ends

end TreeWalk
