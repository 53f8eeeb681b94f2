import Mathlib.Data.Multiset.Filter
import ExNetlink.Loop
import ExNetlink.PriorityQueue
import ExNetlink.Runs

/-! The timers of the event loop over whole runs.

`timer_` may be any priority queue with a least timestamp on top, whatever it
does with equal timestamps. `handle_timer` holds `time_mut_` throughout, so a
call of it and a call of `runAt` are one step each; the callbacks neither throw
nor call back into the loop. With sorted lists for queues it is the
`handleTimer` of the loop. -/
namespace ExNetlink.TimerRuns
open Loop Runs

/-- What a call of `handle_timer` does to a queue. -/
structure Fired (Q : PriorityQueue (Timer τ) Timer.timestamp) where
  /-- The timers whose function was called, in that order. -/
  executed : List (Timer τ)
  remaining : Q.Queue
  outtime : Nat

/-- The loop of `handle_timer`; `t` is its local variable, `outtime` at first.
The function of the top element is called before the element is popped. -/
def handleTimer (Q : PriorityQueue (Timer τ) Timer.timestamp) (timestamp : Nat) (timer : Q.Queue)
    (t : Nat) : Fired Q :=
  match _ : Q.top timer with
  | none => { executed := [], remaining := timer, outtime := t }
  | some element =>
    let t := element.timestamp
    if t > timestamp then { executed := [], remaining := timer, outtime := t }
    else
      let later := handleTimer Q timestamp (Q.pop timer) t
      { later with executed := element :: later.executed }
termination_by (Q.elements timer).card
decreasing_by
  rename_i first _
  rw [Q.elements_pop timer element first, Multiset.card_cons]
  exact Nat.lt_succ_self _

variable {Q : PriorityQueue (Timer τ) Timer.timestamp} {timer : Q.Queue} {element : Timer τ}
  {timestamp : Nat}

theorem handleTimer_empty (none : Q.top timer = none) (t : Nat) :
    handleTimer Q timestamp timer t = { executed := [], remaining := timer, outtime := t } := by
  rw [handleTimer]
  split
  · rfl
  · rename_i first
    rw [none] at first
    contradiction

theorem handleTimer_pending (first : Q.top timer = some element)
    (pending : element.timestamp > timestamp) (t : Nat) : handleTimer Q timestamp timer t =
      { executed := [], remaining := timer, outtime := element.timestamp } := by
  rw [handleTimer]
  split
  · rename_i none
    rw [none] at first
    contradiction
  · rename_i other same
    obtain rfl : element = other := Option.some.inj (first.symm.trans same)
    exact if_pos pending

theorem handleTimer_due (first : Q.top timer = some element)
    (due : ¬ element.timestamp > timestamp) (t : Nat) : handleTimer Q timestamp timer t =
      { handleTimer Q timestamp (Q.pop timer) element.timestamp with
        executed := element :: (handleTimer Q timestamp (Q.pop timer) element.timestamp).executed } := by
  rw [handleTimer]
  split
  · rename_i none
    rw [none] at first
    contradiction
  · rename_i other same
    obtain rfl : element = other := Option.some.inj (first.symm.trans same)
    exact if_neg due

/-- What the loop leaves: the due timers executed in the order of their
timestamps, the others pending, and `outtime` at the least of these. -/
structure Handles (timestamp : Nat) (timer : Q.Queue) (fired : Fired Q) : Prop where
  split : (fired.executed : Multiset (Timer τ)) + Q.elements fired.remaining = Q.elements timer
  due : ∀ x ∈ fired.executed, x.timestamp ≤ timestamp
  ordered : fired.executed.Pairwise fun a b => a.timestamp ≤ b.timestamp
  pending : ∀ x ∈ Q.elements fired.remaining, timestamp < x.timestamp
  outtime : ∀ x ∈ Q.elements fired.remaining, fired.outtime ≤ x.timestamp ∧
    ∃ least ∈ Q.elements fired.remaining, least.timestamp = fired.outtime

/-- Everything the loop executes was in the queue. -/
theorem Handles.mem_of_executed {fired : Fired Q} (handles : Handles timestamp timer fired)
    {x : Timer τ} (member : x ∈ fired.executed) : x ∈ Q.elements timer := by
  rw [← handles.split]
  exact Multiset.mem_add.mpr (.inl (Multiset.mem_coe.mpr member))

/-- By induction on the number of elements, which `pop` lowers. -/
theorem handleTimer_handles (timestamp : Nat) (timer : Q.Queue) (t : Nat) :
    Handles timestamp timer (handleTimer Q timestamp timer t) := by
  induction size : (Q.elements timer).card generalizing timer t with
  | zero =>
    have empty : Q.elements timer = 0 := Multiset.card_eq_zero.mp size
    have none : Q.top timer = none := by
      cases first : Q.top timer with
      | none => rfl
      | some element => simp [Q.elements_pop timer element first] at empty
    rw [handleTimer_empty none]
    refine ⟨Multiset.zero_add _, by simp, List.Pairwise.nil, ?_, ?_⟩ <;> simp [empty]
  | succ size' ih =>
    cases first : Q.top timer with
    | none => simp [Q.elements_of_none timer first] at size
    | some element =>
      have least := Q.top_least timer element first
      have popped := Q.elements_pop timer element first
      by_cases pending : element.timestamp > timestamp
      · rw [handleTimer_pending first pending]
        refine ⟨Multiset.zero_add _, by simp, List.Pairwise.nil, fun x member => ?_,
          fun x member => ⟨least x member, element, ?_, rfl⟩⟩
        · exact Nat.lt_of_lt_of_le pending (least x member)
        · exact popped ▸ Multiset.mem_cons_self _ _
      · have fewer : (Q.elements (Q.pop timer)).card = size' := by
          rw [popped, Multiset.card_cons] at size
          exact Nat.succ.inj size
        have later := ih (Q.pop timer) element.timestamp fewer
        rw [handleTimer_due first pending]
        refine ⟨?_, fun x member => ?_, ?_, later.pending, later.outtime⟩
        · rw [← Multiset.cons_coe, Multiset.cons_add, later.split, popped]
        · rcases List.mem_cons.mp member with rfl | member
          · exact Nat.le_of_not_gt pending
          · exact later.due x member
        · refine List.pairwise_cons.mpr ⟨fun x member => least x ?_, later.ordered⟩
          exact popped ▸ Multiset.mem_cons_of_mem (later.mem_of_executed member)

/-- On sorted lists this is the loop's own `handleTimer`. -/
theorem handleTimer_sortedList (timestamp : Nat)
    (timer : (PriorityQueue.sortedList (Timer.timestamp (τ := τ))).Queue) (t : Nat) :
    (handleTimer (PriorityQueue.sortedList Timer.timestamp) timestamp timer t).executed =
        (Loop.handleTimer timestamp timer.1 t).executed ∧
      (handleTimer (PriorityQueue.sortedList Timer.timestamp) timestamp timer t).remaining.1 =
        (Loop.handleTimer timestamp timer.1 t).remaining ∧
      (handleTimer (PriorityQueue.sortedList Timer.timestamp) timestamp timer t).outtime =
        (Loop.handleTimer timestamp timer.1 t).outtime := by
  induction queue : timer.1 generalizing timer t with
  | nil =>
    have none : (PriorityQueue.sortedList Timer.timestamp).top timer = none :=
      List.head?_eq_none_iff.mpr queue
    rw [handleTimer_empty none]
    exact ⟨rfl, queue, rfl⟩
  | cons top rest ih =>
    have first : (PriorityQueue.sortedList Timer.timestamp).top timer = some top :=
      List.head?_eq_some_iff.mpr ⟨rest, queue⟩
    by_cases pending : top.timestamp > timestamp
    · rw [handleTimer_pending first pending, Loop.handleTimer_pending pending]
      exact ⟨rfl, queue, rfl⟩
    · have popped : ((PriorityQueue.sortedList Timer.timestamp).pop timer).1 = rest :=
        congrArg List.tail queue
      obtain ⟨executed, remaining, outtime⟩ := ih _ top.timestamp popped
      rw [handleTimer_due first pending, Loop.handleTimer_due pending]
      exact ⟨congrArg (top :: ·) executed, remaining, outtime⟩

/-- The queue, `outtime`, and what has happened so far. -/
structure Schedule (Q : PriorityQueue (Timer τ) Timer.timestamp) where
  timer : Q.Queue
  outtime : Nat
  /-- The timers passed to `runAt`. -/
  scheduled : List (Timer τ)
  /-- Each call of `handle_timer` with the timers it executed. -/
  calls : List (Nat × List (Timer τ))

/-- A call on the loop's timers. -/
inductive Call (τ : Type) where
  | runAt (timestamp : Nat) (func : τ)
  | handleTimer (timestamp : Nat)
  deriving DecidableEq, Repr

/-- The timer that a call schedules. -/
def Call.scheduled? : Call τ → Option (Timer τ)
  | runAt timestamp func => some { timestamp, runnable := func }
  | handleTimer _ => none

/-- The time that a call of `handle_timer` is given. -/
def Call.now? : Call τ → Option Nat
  | runAt _ _ => none
  | handleTimer timestamp => some timestamp

def start (Q : PriorityQueue (Timer τ) Timer.timestamp) (outtime : Nat) : Schedule Q where
  timer := Q.empty
  outtime := outtime
  scheduled := []
  calls := []

/-- Every call returns. -/
def step (s : Schedule Q) : Call τ → Option (Schedule Q)
  | .runAt timestamp func => some { s with
      timer := Q.emplace s.timer { timestamp, runnable := func }
      scheduled := s.scheduled ++ [{ timestamp, runnable := func }] }
  | .handleTimer timestamp =>
    let fired := handleTimer Q timestamp s.timer s.outtime
    some { s with
      timer := fired.remaining
      outtime := fired.outtime
      calls := s.calls ++ [(timestamp, fired.executed)] }

/-- Every timer is pending or executed once, no call executes a timer early,
and each executes in the order of the timestamps. -/
structure Accounted (s : Schedule Q) : Prop where
  once : (s.calls.flatMap Prod.snd : Multiset (Timer τ)) + Q.elements s.timer = s.scheduled
  due : ∀ call ∈ s.calls, ∀ x ∈ call.2, x.timestamp ≤ call.1
  ordered : ∀ call ∈ s.calls, call.2.Pairwise fun a b => a.timestamp ≤ b.timestamp

theorem start_accounted (outtime : Nat) : Accounted (start Q outtime) where
  once := by
    rw [start, Q.elements_empty]
    rfl
  due := by simp [start]
  ordered := by simp [start]

theorem step_accounted (s : Schedule Q) (call : Call τ) (held : Accounted s) :
    ∃ next, step s call = some next ∧ Accounted next := by
  cases call with
  | runAt timestamp func =>
    refine ⟨_, rfl, ?_, held.due, held.ordered⟩
    rw [Q.elements_emplace, Multiset.add_cons, held.once, ← Multiset.coe_add, Multiset.add_comm]
    rfl
  | handleTimer timestamp =>
    have handles := handleTimer_handles timestamp s.timer s.outtime
    refine ⟨_, rfl, ?_, ?_, ?_⟩
    · rw [List.flatMap_append, ← Multiset.coe_add, List.flatMap_singleton, Multiset.add_assoc,
        handles.split, held.once]
    · intro call member
      rcases List.mem_append.mp member with old | new
      · exact held.due call old
      · rw [List.mem_singleton.mp new]
        exact handles.due
    · intro call member
      rcases List.mem_append.mp member with old | new
      · exact held.ordered call old
      · rw [List.mem_singleton.mp new]
        exact handles.ordered

/-- After a call exactly the timers past its timestamp remain. -/
theorem handleTimer_filter (timestamp : Nat) (timer : Q.Queue) (t : Nat) :
    Q.elements (handleTimer Q timestamp timer t).remaining =
      (Q.elements timer).filter fun x => timestamp < x.timestamp := by
  have handles := handleTimer_handles timestamp timer t
  rw [← handles.split, Multiset.filter_add, Multiset.filter_eq_self.mpr handles.pending,
    Multiset.filter_eq_nil.mpr, Multiset.zero_add]
  intro x member
  exact Nat.not_lt.mpr (handles.due x (Multiset.mem_coe.mp member))

/-- The call executes exactly the timers that are due. -/
theorem handleTimer_executed (timestamp : Nat) (timer : Q.Queue) (t : Nat) :
    ((handleTimer Q timestamp timer t).executed : Multiset (Timer τ)) =
      (Q.elements timer).filter fun x => x.timestamp ≤ timestamp := by
  have handles := handleTimer_handles timestamp timer t
  have none : (Q.elements (handleTimer Q timestamp timer t).remaining).filter
      (fun x => x.timestamp ≤ timestamp) = 0 :=
    Multiset.filter_eq_nil.mpr fun x member => Nat.not_le.mpr (handles.pending x member)
  have all : (((handleTimer Q timestamp timer t).executed : Multiset (Timer τ))).filter
      (fun x => x.timestamp ≤ timestamp) = (handleTimer Q timestamp timer t).executed :=
    Multiset.filter_eq_self.mpr fun x member => handles.due x (Multiset.mem_coe.mp member)
  rw [← handles.split, Multiset.filter_add, none, all, Multiset.add_zero]

/-- What is scheduled is what the calls of `runAt` have passed. -/
theorem run_scheduled {s final : Schedule Q} {calls : List (Call τ)}
    (ran : run step s calls = some final) :
    final.scheduled = s.scheduled ++ calls.filterMap Call.scheduled? := by
  rw [List.filterMap_eq_flatMap_toList]
  refine run_logs Schedule.scheduled (fun s call next stepped => ?_) ran
  cases call with
  | runAt timestamp func =>
    obtain rfl := Option.some.inj stepped
    rfl
  | handleTimer timestamp =>
    obtain rfl := Option.some.inj stepped
    exact (List.append_nil _).symm

/-- There is one entry for each call of `handle_timer`, with the time it was given. -/
theorem run_calls {s final : Schedule Q} {calls : List (Call τ)}
    (ran : run step s calls = some final) :
    final.calls.map Prod.fst = s.calls.map Prod.fst ++ calls.filterMap Call.now? := by
  rw [List.filterMap_eq_flatMap_toList]
  refine run_logs (fun s : Schedule Q => s.calls.map Prod.fst) (fun s call next stepped => ?_) ran
  cases call with
  | runAt timestamp func =>
    obtain rfl := Option.some.inj stepped
    exact (List.append_nil _).symm
  | handleTimer timestamp =>
    obtain rfl := Option.some.inj stepped
    exact List.map_append

/-- After any calls every timer passed to `runAt` is pending or has been
executed exactly once, in one of the calls of `handle_timer`, none of them
early and each in the order of the timestamps; and a further call executes
exactly the timers that are due and leaves the others, with `outtime` at the
least of them. -/
theorem timers_fire_once (Q : PriorityQueue (Timer τ) Timer.timestamp) (outtime : Nat)
    (calls : List (Call τ)) :
    ∃ s, run step (start Q outtime) calls = some s ∧
      s.scheduled = calls.filterMap Call.scheduled? ∧
      s.calls.map Prod.fst = calls.filterMap Call.now? ∧
      (s.calls.flatMap Prod.snd : Multiset (Timer τ)) + Q.elements s.timer = s.scheduled ∧
      (∀ call ∈ s.calls, (∀ x ∈ call.2, x.timestamp ≤ call.1) ∧
        call.2.Pairwise fun a b => a.timestamp ≤ b.timestamp) ∧
      ∀ now, ∃ next, ∃ executed : List (Timer τ), step s (.handleTimer now) = some next ∧
        next.calls = s.calls ++ [(now, executed)] ∧
        (executed : Multiset (Timer τ)) = (Q.elements s.timer).filter (fun x => x.timestamp ≤ now) ∧
        Q.elements next.timer = (Q.elements s.timer).filter (fun x => now < x.timestamp) ∧
        ∀ x ∈ Q.elements next.timer, next.outtime ≤ x.timestamp ∧
          ∃ least ∈ Q.elements next.timer, least.timestamp = next.outtime := by
  have held := throughout_of_total step_accounted calls (start_accounted (Q := Q) outtime)
  obtain ⟨s, ran, accounted⟩ := held.final
  refine ⟨s, ran, run_scheduled ran, run_calls ran, accounted.once, fun call member =>
    ⟨accounted.due call member, accounted.ordered call member⟩, fun now => ⟨_, _, rfl, rfl, ?_, ?_, ?_⟩⟩
  · exact handleTimer_executed now s.timer s.outtime
  · exact handleTimer_filter now s.timer s.outtime
  · exact (handleTimer_handles now s.timer s.outtime).outtime

/-- On a sorted list two timers fire and one stays. -/
theorem timers_fire_once_sorted :
    ∃ s : Schedule (PriorityQueue.sortedList (Timer.timestamp (τ := Char))),
      run step (start _ 0) [.runAt 5 'a', .runAt 9 'b', .runAt 3 'c'] = some s ∧
      ∃ next, ∃ executed : List (Timer Char), step s (.handleTimer 7) = some next ∧
        next.calls = [(7, executed)] ∧
        (executed : Multiset (Timer Char)) = ([⟨5, 'a'⟩, ⟨3, 'c'⟩] : List (Timer Char)) ∧
        next.timer.1 = [⟨9, 'b'⟩] ∧ next.outtime = 9 := by
  obtain ⟨s, ran, scheduled, times, once, -, further⟩ := timers_fire_once
    (PriorityQueue.sortedList (Timer.timestamp (τ := Char))) 0
    [.runAt 5 'a', .runAt 9 'b', .runAt 3 'c']
  obtain ⟨next, executed, stepped, logged, due, left, least⟩ := further 7
  have uncalled : s.calls = [] := List.map_eq_nil_iff.mp times
  have queued : (PriorityQueue.sortedList Timer.timestamp).elements s.timer =
      ([⟨5, 'a'⟩, ⟨9, 'b'⟩, ⟨3, 'c'⟩] : List (Timer Char)) := by
    rw [scheduled, uncalled] at once
    exact (Multiset.zero_add _).symm.trans once
  rw [queued] at due left
  have stays : next.timer.1 = [⟨9, 'b'⟩] := Multiset.coe_eq_singleton.mp left
  have member : (⟨9, 'b'⟩ : Timer Char) ∈
      (PriorityQueue.sortedList Timer.timestamp).elements next.timer := by
    rw [left]
    decide
  obtain ⟨-, first, one, same⟩ := least _ member
  rw [left] at one
  rw [uncalled, List.nil_append] at logged
  refine ⟨s, ran, next, executed, stepped, logged, due, stays, ?_⟩
  rw [← same, Multiset.mem_singleton.mp one]

end ExNetlink.TimerRuns
