import Mathlib.Data.List.Nodup
import Mathlib.Data.List.Range
import ExNetlink.ThreadPool

/-! The pool drains: what becomes of every pushed task, over all interleavings.

A task is in the deque or was taken by one worker, which is in its only call or
has ended it. A worker leaves only after it has seen, under the lock, an empty
deque and the stop flag; the handler around the call keeps a throwing task from
ending the loop. So when all have left, everything pushed before the flag was
set has been run. -/
namespace ExNetlink.PoolDraining
open ThreadPool ThreadPool.Pool Runs

variable {n : Nat} {p q : Pool n}

/-- Neither calling a task nor out of the loop. -/
def Between (place : Worker) : Prop := (∀ task, place ≠ .calling task) ∧ place ≠ .left

/-- A step that leaves every task where it is. -/
structure Rests (p q : Pool n) : Prop where
  task : q.task = p.task
  taken : q.taken = p.taken
  ended : q.ended = p.ended
  pushed : q.pushed = p.pushed
  stoped : p.stoped = true → q.stoped = true
  moved : ∀ w, q.workers w = p.workers w ∨ Between (p.workers w) ∧ Between (q.workers w)

theorem put_rests (w : Fin n) {place : Worker} (before : Between (p.workers w))
    (after : Between place) : Rests p (p.put w place) where
  task := rfl
  taken := rfl
  ended := rfl
  pushed := rfl
  stoped := id
  moved v := by
    rw [put_workers]
    by_cases same : v = w
    · rw [if_pos same, same]
      exact .inr ⟨before, after⟩
    · exact .inl (if_neg same)

theorem notifyAll_rests : Rests p { p with
    workers := fun w => if p.workers w = .waiting then .woken else p.workers w
    alls := p.alls - 1 } where
  task := rfl
  taken := rfl
  ended := rfl
  pushed := rfl
  stoped := id
  moved w := by
    by_cases asleep : p.workers w = .waiting
    · refine .inr ⟨?_, ?_⟩ <;> simp [asleep, Between]
    · exact .inl (if_neg asleep)

/-- Everything an event can do to the tasks. -/
inductive Change (p : Pool n) : Event n → Pool n → Prop
  | push : Change p .push { p with
      task := p.task ++ [p.pushed], pushed := p.pushed + 1, ones := p.ones + 1 }
  | take (w : Fin n) (front : Nat) (rest : List Nat) (ready : p.workers w = .top)
      (shape : p.task = front :: rest) : Change p (.enter w)
        { p.put w (.calling front) with task := rest, taken := p.taken ++ [(w, front)] }
  | leave (w : Fin n) (ready : p.workers w = .top) (empty : p.task = []) (stopped : p.stoped = true) :
      Change p (.enter w) (p.put w .left)
  | ends (e : Event n) (w : Fin n) (task : Nat) (place : Worker) (after : Between place)
      (busy : p.workers w = .calling task) : Change p e (p.endCall w task place)
  | rests (e : Event n) (q : Pool n) (still : Rests p q) : Change p e q

theorem step_change {e : Event n} (stepped : step p e = some q) : Change p e q := by
  cases e with
  | push =>
    obtain rfl := Option.some.inj stepped
    exact .push
  | notifyOne waiter =>
    cases waiter with
    | none =>
      obtain ⟨-, rfl⟩ := guarded_eq_some.mp stepped
      exact .rests _ _ ⟨rfl, rfl, rfl, rfl, id, fun _ => .inl rfl⟩
    | some w =>
      obtain ⟨⟨-, asleep⟩, rfl⟩ := guarded_eq_some.mp stepped
      have still : Rests p (p.put w .woken) :=
        put_rests w (by simp [asleep, Between]) (by simp [Between])
      exact .rests _ _ ⟨rfl, rfl, rfl, rfl, id, still.moved⟩
  | stop =>
    obtain rfl := Option.some.inj stepped
    exact .rests _ _ ⟨rfl, rfl, rfl, rfl, fun _ => rfl, fun _ => .inl rfl⟩
  | notifyAll =>
    obtain ⟨-, rfl⟩ := guarded_eq_some.mp stepped
    exact .rests _ _ notifyAll_rests
  | enter w =>
    obtain ⟨ready, rfl⟩ := guarded_eq_some.mp stepped
    rw [bindRun]
    split
    · rename_i front rest shape
      exact .take w front rest ready shape
    · rename_i empty
      split
      · rename_i stopped
        exact .leave w ready empty stopped
      · exact .rests _ _ (put_rests w (by simp [ready, Between]) (by simp [Between]))
  | spurious w =>
    obtain ⟨asleep, rfl⟩ := guarded_eq_some.mp stepped
    exact .rests _ _ (put_rests w (by simp [asleep, Between]) (by simp [Between]))
  | resume w =>
    obtain ⟨awake, rfl⟩ := guarded_eq_some.mp stepped
    exact .rests _ _ (put_rests w (by simp [awake, Between]) (by simp [Between]))
  | finish w =>
    rw [step] at stepped
    split at stepped
    · rename_i task busy
      obtain rfl := Option.some.inj stepped
      exact .ends _ w task .top (by simp [Between]) busy
    · contradiction
  | throws w =>
    rw [step] at stepped
    split at stepped
    · rename_i task busy
      obtain rfl := Option.some.inj stepped
      exact .ends _ w task .caught (by simp [Between]) busy
    · contradiction
  | report w =>
    obtain ⟨handling, rfl⟩ := guarded_eq_some.mp stepped
    exact .rests _ _ (put_rests w (by simp [handling, Between]) (by simp [Between]))

/-- Every task is accounted for. -/
structure Sound (p : Pool n) : Prop where
  /-- The tasks taken, in the order of the pops, and then the deque are the pushed tasks in push order. -/
  order : p.taken.map Prod.snd ++ p.task = List.range p.pushed
  busy : ∀ w task, p.workers w = .calling task →
    (w, task) ∈ p.taken ∧ task ∉ p.ended.map Prod.snd
  run : ∀ w task, (w, task) ∈ p.taken → p.workers w = .calling task ∨ (w, task) ∈ p.ended
  ended : p.ended ⊆ p.taken
  once : (p.ended.map Prod.snd).Nodup
  left : ∀ w, p.workers w = .left → p.stoped = true

theorem start_sound (n : Nat) : Sound (start n) where
  order := rfl
  busy w task busy := by simp [start] at busy
  run w task taken := by simp [start] at taken
  ended := List.Subset.refl _
  once := List.nodup_nil
  left w gone := by simp [start] at gone

namespace Sound

theorem distinct (sound : Sound p) : (p.taken.map Prod.snd ++ p.task).Nodup := by
  rw [sound.order]
  exact List.nodup_range

theorem taken_distinct (sound : Sound p) : (p.taken.map Prod.snd).Nodup :=
  sound.distinct.of_append_left

/-- A task has one taker. -/
theorem taker_unique (sound : Sound p) {v w : Fin n} {task : Nat} (first : (v, task) ∈ p.taken)
    (second : (w, task) ∈ p.taken) : v = w :=
  congrArg Prod.fst (List.inj_on_of_nodup_map sound.taken_distinct first second rfl)

/-- A step that moves no task. -/
theorem of_rests (sound : Sound p) (still : Rests p q) : Sound q where
  order := by rw [still.taken, still.task, still.pushed, sound.order]
  busy w task busy := by
    rw [still.taken, still.ended]
    rcases still.moved w with same | ⟨-, after⟩
    · exact sound.busy w task (same ▸ busy)
    · exact absurd busy (after.1 task)
  run w task taken := by
    rw [still.taken] at taken
    rw [still.ended]
    rcases sound.run w task taken with busy | done
    · rcases still.moved w with same | ⟨before, -⟩
      · exact .inl (same.trans busy)
      · exact absurd busy (before.1 task)
    · exact .inr done
  ended := by
    rw [still.taken, still.ended]
    exact sound.ended
  once := still.ended ▸ sound.once
  left w gone := by
    rcases still.moved w with same | ⟨-, after⟩
    · exact still.stoped (sound.left w (same ▸ gone))
    · exact absurd gone after.2

/-- The new task is the last of the range. -/
theorem push (sound : Sound p) : Sound { p with
    task := p.task ++ [p.pushed], pushed := p.pushed + 1, ones := p.ones + 1 } where
  order := by rw [← List.append_assoc, sound.order, List.range_succ]
  busy := sound.busy
  run := sound.run
  ended := sound.ended
  once := sound.once
  left := sound.left

/-- A worker at the top of the loop takes the front of the deque. -/
theorem take (sound : Sound p) {w : Fin n} {front : Nat} {rest : List Nat}
    (ready : p.workers w = .top) (shape : p.task = front :: rest) :
    Sound { p.put w (.calling front) with task := rest, taken := p.taken ++ [(w, front)] } where
  order := by
    have order := sound.order
    rw [shape] at order
    rw [List.map_append, List.append_assoc]
    exact order
  busy v task busy := by
    change (p.put w (.calling front)).workers v = _ at busy
    rw [put_workers] at busy
    split at busy
    · rename_i same
      obtain rfl := Worker.calling.inj busy
      refine ⟨same ▸ List.mem_append_right _ (List.mem_singleton.mpr rfl), fun done => ?_⟩
      -- what has ended was taken, and the front was not
      have early : front ∈ p.taken.map Prod.snd := List.map_subset _ sound.ended done
      exact List.disjoint_of_nodup_append sound.distinct early (shape ▸ List.mem_cons_self)
    · obtain ⟨member, fresh⟩ := sound.busy v task busy
      exact ⟨List.mem_append_left _ member, fresh⟩
  run v task taken := by
    change (p.put w (.calling front)).workers v = _ ∨ _
    rw [put_workers]
    rcases List.mem_append.mp taken with old | new
    · by_cases same : v = w
      · subst same
        rcases sound.run v task old with busy | done
        · simp [ready] at busy
        · exact .inr done
      · rw [if_neg same]
        exact sound.run v task old
    · obtain ⟨rfl, rfl⟩ := Prod.mk.inj (List.mem_singleton.mp new)
      exact .inl (if_pos rfl)
  ended := fun _ member => List.mem_append_left _ (sound.ended member)
  once := sound.once
  left v gone := by
    change (p.put w (.calling front)).workers v = _ at gone
    rw [put_workers] at gone
    split at gone
    · contradiction
    · exact sound.left v gone

/-- The worker has seen the flag. -/
theorem leave (sound : Sound p) {w : Fin n} (ready : p.workers w = .top)
    (stopped : p.stoped = true) : Sound (p.put w .left) where
  order := sound.order
  busy v task busy := by
    rw [put_workers] at busy
    split at busy
    · contradiction
    · exact sound.busy v task busy
  run v task taken := by
    rw [put_workers]
    rcases sound.run v task taken with busy | done
    · have other : v ≠ w := by
        rintro rfl
        simp [ready] at busy
      rw [if_neg other]
      exact .inl busy
    · exact .inr done
  ended := sound.ended
  once := sound.once
  left _ _ := stopped

/-- The only call of a task ends. -/
theorem endCall (sound : Sound p) {w : Fin n} {task : Nat} {place : Worker} (after : Between place)
    (busy : p.workers w = .calling task) : Sound (p.endCall w task place) where
  order := sound.order
  busy v other calling := by
    change (p.put w place).workers v = _ at calling
    rw [put_workers] at calling
    split at calling
    · exact absurd calling (after.1 other)
    · rename_i apart
      obtain ⟨member, fresh⟩ := sound.busy v other calling
      refine ⟨member, fun done => ?_⟩
      rw [Pool.endCall, List.map_append, List.mem_append] at done
      rcases done with old | new
      · exact fresh old
      · obtain rfl : other = task := List.mem_singleton.mp new
        exact apart (sound.taker_unique member (sound.busy w other busy).1)
  run v other taken := by
    change (p.put w place).workers v = _ ∨ _ ∈ p.ended ++ [(w, task)]
    rw [put_workers]
    rcases sound.run v other taken with calling | done
    · by_cases same : v = w
      · subst same
        obtain rfl := Worker.calling.inj (busy.symm.trans calling)
        exact .inr (List.mem_append_right _ (List.mem_singleton.mpr rfl))
      · exact .inl ((if_neg same).trans calling)
    · exact .inr (List.mem_append_left _ done)
  ended := by
    intro entry member
    rcases List.mem_append.mp member with old | new
    · exact sound.ended old
    · rw [List.mem_singleton.mp new]
      exact (sound.busy w task busy).1
  once := by
    rw [Pool.endCall, List.map_append, List.map_singleton]
    exact List.nodup_append'.mpr ⟨sound.once, List.nodup_singleton _,
      List.disjoint_singleton.mpr (sound.busy w task busy).2⟩
  left v gone := by
    change (p.put w place).workers v = _ at gone
    rw [put_workers] at gone
    split at gone
    · exact absurd gone after.2
    · exact sound.left v gone

theorem change (sound : Sound p) {e : Event n} (changed : Change p e q) : Sound q := by
  cases changed with
  | push => exact sound.push
  | take w front rest ready shape => exact sound.take ready shape
  | leave w ready empty stopped => exact sound.leave ready stopped
  | ends _ w task place after busy => exact sound.endCall after busy
  | rests _ _ still => exact sound.of_rests still

end Sound

/-- Every state of every run accounts for its tasks. -/
theorem run_sound {events : List (Event n)} (ran : run step (start n) events = some p) : Sound p :=
  run_keeps (fun _ _ _ sound stepped => sound.change (step_change stepped)) (start_sound n) ran

/-- The task waits in the deque and nobody has taken it. -/
def Queued (p : Pool n) (task : Nat) : Prop :=
  p.task.count task = 1 ∧ task ∉ p.taken.map Prod.snd ∧ task ∉ p.ended.map Prod.snd ∧
    ∀ w, p.workers w ≠ .calling task

/-- One worker took the task, once, and either is in its only call or has ended it. -/
def RunOnce (p : Pool n) (task : Nat) : Prop :=
  task ∉ p.task ∧ ∃ w, p.taken.filter (fun entry => entry.2 = task) = [(w, task)] ∧
    (∀ v, v ≠ w → p.workers v ≠ .calling task) ∧
    (p.workers w = .calling task ∧ task ∉ p.ended.map Prod.snd ∨
      p.workers w ≠ .calling task ∧ p.ended.filter (fun entry => entry.2 = task) = [(w, task)])

private theorem filter_key {entries : List (Fin n × Nat)} (distinct : (entries.map Prod.snd).Nodup)
    {w : Fin n} {task : Nat} (member : (w, task) ∈ entries) :
    entries.filter (fun entry => entry.2 = task) = [(w, task)] := by
  induction entries with
  | nil => contradiction
  | cons entry rest ih =>
    rw [List.map_cons, List.nodup_cons] at distinct
    rcases List.mem_cons.mp member with rfl | later
    · have others : rest.filter (fun entry => entry.2 = task) = [] := by
        refine List.filter_eq_nil_iff.mpr fun other inside same => distinct.1 ?_
        exact List.mem_map.mpr ⟨other, inside, of_decide_eq_true same⟩
      rw [List.filter_cons_of_pos (by simp), others]
    · have other : entry.2 ≠ task := fun same =>
        distinct.1 (List.mem_map.mpr ⟨(w, task), later, same.symm⟩)
      rw [List.filter_cons_of_neg (by simpa using other), ih distinct.2 later]

namespace Sound

theorem queued (sound : Sound p) {task : Nat} (waiting : task ∈ p.task) : Queued p task := by
  have untaken : task ∉ p.taken.map Prod.snd := fun early =>
    List.disjoint_of_nodup_append sound.distinct early waiting
  refine ⟨List.count_eq_one_of_mem sound.distinct.of_append_right waiting, untaken, ?_, ?_⟩
  · exact fun done => untaken (List.map_subset _ sound.ended done)
  · intro w busy
    exact untaken (List.mem_map.mpr ⟨(w, task), (sound.busy w task busy).1, rfl⟩)

theorem runOnce (sound : Sound p) {w : Fin n} {task : Nat} (taken : (w, task) ∈ p.taken) :
    RunOnce p task := by
  have named : task ∈ p.taken.map Prod.snd := List.mem_map.mpr ⟨(w, task), taken, rfl⟩
  refine ⟨fun waiting => List.disjoint_of_nodup_append sound.distinct named waiting, w,
    filter_key sound.taken_distinct taken, ?_, ?_⟩
  · intro v apart busy
    exact apart (sound.taker_unique (sound.busy v task busy).1 taken)
  · by_cases busy : p.workers w = .calling task
    · exact .inl ⟨busy, (sound.busy w task busy).2⟩
    · have done := (sound.run w task taken).resolve_left busy
      exact .inr ⟨busy, filter_key sound.once done⟩

/-- Every pushed task is in the deque or has been taken. -/
theorem queued_or_runOnce (sound : Sound p) {task : Nat} (pushed : task < p.pushed) :
    Queued p task ∨ RunOnce p task := by
  have member : task ∈ p.taken.map Prod.snd ++ p.task := by
    rw [sound.order]
    exact List.mem_range.mpr pushed
  rcases List.mem_append.mp member with taken | waiting
  · obtain ⟨⟨w, _⟩, entry, rfl⟩ := List.mem_map.mp taken
    exact .inr (sound.runOnce entry)
  · exact .inl (sound.queued waiting)

/-- The tasks taken are an initial segment of the pushes. -/
theorem ended_of_left (sound : Sound p) (gone : ∀ w, p.workers w = .left) {task : Nat}
    (taken : task < p.taken.length) : task ∈ p.ended.map Prod.snd := by
  have inside : task < (p.taken.map Prod.snd).length := by simpa using taken
  have pushed : task < p.pushed := by
    have total := congrArg List.length sound.order
    rw [List.length_append, List.length_range] at total
    omega
  have position : (p.taken.map Prod.snd ++ p.task)[task]? = (p.taken.map Prod.snd)[task]? :=
    List.getElem?_append_left inside
  rw [sound.order, List.getElem?_range pushed] at position
  obtain ⟨⟨w, same⟩, member, named⟩ := List.mem_map.mp (List.mem_of_getElem? position.symm)
  obtain rfl : same = task := named
  rcases sound.run w same member with busy | done
  · simp [gone w] at busy
  · exact List.mem_map.mpr ⟨(w, same), done, rfl⟩

end Sound

/-- A worker leaves in its own critical section, having seen the flag and an empty deque. -/
theorem leaves_drained {e : Event n} (stepped : step p e = some q) {w : Fin n}
    (inside : p.workers w ≠ .left) (gone : q.workers w = .left) :
    e = .enter w ∧ p.stoped = true ∧ p.task = [] := by
  cases step_change stepped with
  | push => exact absurd gone inside
  | take v front rest ready shape =>
    change (p.put v (.calling front)).workers w = _ at gone
    rw [put_workers] at gone
    split at gone
    · contradiction
    · exact absurd gone inside
  | leave v ready empty stopped =>
    rw [put_workers] at gone
    split at gone
    · rename_i same
      exact ⟨same ▸ rfl, stopped, empty⟩
    · exact absurd gone inside
  | ends _ v task place after busy =>
    change (p.put v place).workers w = _ at gone
    rw [put_workers] at gone
    split at gone
    · exact absurd gone after.2
    · exact absurd gone inside
  | rests _ _ still =>
    rcases still.moved w with same | ⟨-, after⟩
    · exact absurd (same ▸ gone) inside
    · exact absurd gone after.2

/-- Once a worker has left, the first `mark` tasks have been taken. -/
structure Drained (mark : Nat) (p : Pool n) : Prop where
  sound : Sound p
  pushed : mark ≤ p.pushed
  taken : ∀ w, p.workers w = .left → mark ≤ p.taken.length

theorem change_counts {e : Event n} (changed : Change p e q) :
    p.pushed ≤ q.pushed ∧ p.taken.length ≤ q.taken.length := by
  cases changed with
  | push => exact ⟨Nat.le_succ _, le_rfl⟩
  | take => exact ⟨le_rfl, by simp⟩
  | leave => exact ⟨le_rfl, le_rfl⟩
  | ends => exact ⟨le_rfl, le_rfl⟩
  | rests _ _ still => rw [still.pushed, still.taken]; exact ⟨le_rfl, le_rfl⟩

theorem drained_step {mark : Nat} {e : Event n} (drained : Drained mark p)
    (stepped : step p e = some q) : Drained mark q := by
  have sound := drained.sound
  have counts := change_counts (step_change stepped)
  refine ⟨sound.change (step_change stepped), drained.pushed.trans counts.1, fun w gone => ?_⟩
  by_cases before : p.workers w = .left
  · exact (drained.taken w before).trans counts.2
  · -- an empty deque means that every pushed task has been taken
    obtain ⟨-, -, empty⟩ := leaves_drained stepped before gone
    have all : p.taken.length = p.pushed := by
      simpa [empty] using congrArg List.length sound.order
    have marked := drained.pushed
    omega

/-- Over every interleaving of pushes, stops and worker steps: tasks are taken
in push order, each is in the deque or run once by one worker, a worker leaves
only with the flag set and the deque empty, and when all have left every task
pushed before the flag was set has run to its end. -/
theorem pool_drains (positive : 0 < n) {events : List (Event n)}
    (ran : run step (start n) events = some p) :
    p.taken.map Prod.snd ++ p.task = List.range p.pushed ∧
    (∀ task < p.pushed, Queued p task ∨ RunOnce p task) ∧
    (∀ e q w, step p e = some q → p.workers w ≠ .left → q.workers w = .left →
      e = .enter w ∧ p.stoped = true ∧ p.task = []) ∧
    (∀ before after earlier, events = before ++ after →
      run step (start n) before = some earlier → earlier.stoped = false →
      (∀ w, p.workers w = .left) → ∀ task < earlier.pushed, task ∈ p.ended.map Prod.snd) := by
  have sound := run_sound ran
  refine ⟨sound.order, fun task => sound.queued_or_runOnce, ?_, ?_⟩
  · intro e q w stepped inside gone
    exact leaves_drained stepped inside gone
  · rintro before after earlier rfl reached running gone task pushed
    rw [run_append, reached, Option.bind_some] at ran
    have early := run_sound reached
    have marked : Drained earlier.pushed earlier :=
      ⟨early, le_rfl, fun w gone => by simp [early.left w gone] at running⟩
    have drained := run_keeps (fun _ _ _ => drained_step) marked ran
    exact sound.ended_of_left gone (pushed.trans_le (drained.taken ⟨0, positive⟩ (gone _)))

/-- Two workers: the first task throws, the second is taken by a woken worker. -/
theorem pool_drains_throwing :
    ∃ p, run step (start 2) ([.enter 1, .push, .enter 0, .notifyOne (some 1), .push, .throws 0] ++
        [.stop, .resume 1, .enter 1, .report 0, .enter 0, .notifyAll, .finish 1, .enter 1]) = some p ∧
      (∀ w, p.workers w = .left) ∧ ∀ task < 2, task ∈ p.ended.map Prod.snd := by
  refine ⟨_, rfl, by decide, ?_⟩
  let before : List (Event 2) := [.enter 1, .push, .enter 0, .notifyOne (some 1), .push, .throws 0]
  let after : List (Event 2) :=
    [.stop, .resume 1, .enter 1, .report 0, .enter 0, .notifyAll, .finish 1, .enter 1]
  have drained := @pool_drains 2 _ (by decide) (before ++ after) rfl
  exact drained.2.2.2 before after _ rfl rfl rfl (by decide)

end ExNetlink.PoolDraining
