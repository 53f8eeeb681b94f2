import ExNetlink.ThreadPool

/-! Stopping and destroying a thread pool, as `set/thread_pool/main.cpp` does.

`~ThreadPool()` has an empty body. The members go in reverse order of their
declaration: `data_` gives up its share of the data, which the workers keep
alive with theirs, and then `trds_` destroys its threads one after another. A
`std::thread` that is still joinable when it is destroyed calls
`std::terminate`, and it is joinable until somebody joins or detaches it,
however long its function has returned. Nobody does: `stop()` sets a flag and
notifies. -/
namespace ExNetlink.PoolDestruction
open ThreadPool Runs

/-- `max_thread_nums_`, from what `hardware_concurrency()` returns. -/
def maxThreadNums (hardwareConcurrency : Nat) : Nat :=
  if hardwareConcurrency < 1 then 4 else hardwareConcurrency

/-- Where the thread that owns the pool stands. -/
inductive Owner where
  /-- The pool is in scope and running. -/
  | running
  /-- The flag is set. -/
  | stopped
  /-- In the destructor of `trds_`, at its `i`-th thread. -/
  | destroying (i : Nat)
  /-- The destructor of the pool has returned. -/
  | destroyed
  /-- `std::terminate` was called. -/
  | terminated
  deriving DecidableEq, Repr

/-- The pool object and its data. -/
structure Lifetime (n : Nat) where
  pool : Pool n
  /-- `joinable()` of the threads in `trds_`. -/
  joinable : Fin n → Bool
  owner : Owner
  /-- The number of tasks pushed before the flag was set. -/
  marked : Nat

inductive Event (n : Nat) where
  /-- A step of `push`, of `stop` or of a worker. -/
  | pool (e : ThreadPool.Event n)
  /-- The pool goes out of scope, and `data_` is released. -/
  | leave
  /-- The destructor of `trds_` goes on. -/
  | destroy
  deriving DecidableEq, Repr

/-- The pool as its constructor leaves it. -/
def start (n : Nat) : Lifetime n where
  pool := Pool.start n
  joinable := fun _ => true
  owner := .running
  marked := 0

variable {n : Nat}

/-- The owner after a step of the pool, for a step it allows: nobody calls
`push` or `stop` on a pool that is being destroyed, and a terminated process
makes no steps. -/
def Owner.follow (owner : Owner) (e : ThreadPool.Event n) : Option Owner :=
  match e, owner with
  | .stop, .running => some .stopped
  | .stop, .stopped => some .stopped
  | .stop, _ => none
  | .push, .running => some .running
  | .push, .stopped => some .stopped
  | .push, _ => none
  | _, .terminated => none
  | _, owner => some owner

/-- The destructor of one `std::thread` of `trds_`, or the end of the vector. -/
def destroyNext (joinable : Fin n → Bool) (i : Nat) : Owner :=
  if inside : i < n then
    if joinable ⟨i, inside⟩ then .terminated else .destroying (i + 1)
  else .destroyed

/-- The state after an event, for an event that can happen. -/
def step (s : Lifetime n) : Event n → Option (Lifetime n)
  | .pool e => do
    let owner ← s.owner.follow e
    let pool ← s.pool.step e
    some { s with
      pool := pool
      owner := owner
      marked := if e = .stop ∧ s.owner = .running then s.pool.pushed else s.marked }
  | .leave =>
    -- the owner's calls of `push` and `stop` have returned
    if s.owner = .stopped ∧ s.pool.ones = 0 ∧ s.pool.alls = 0 then
      some { s with owner := .destroying 0 }
    else none
  | .destroy =>
    match s.owner with
    | .destroying i => some { s with owner := destroyNext s.joinable i }
    | _ => none

/-- The process lives, and once the pool is gone every task pushed before the
flag was set has been run to its end. -/
def Safe (s : Lifetime n) : Prop :=
  s.owner ≠ .terminated ∧
    (s.owner = .destroyed → ∀ task < s.marked, task ∈ s.pool.ended.map Prod.snd)

/-- The destruction has come to an end, one way or the other. -/
def Owner.ended : Owner → Bool
  | destroyed | terminated => true
  | _ => false

variable {s next : Lifetime n}

/-- What carries the induction: nobody joins a thread, so the destructor of
`trds_` does not get past the first. -/
structure Unjoined (s : Lifetime n) : Prop where
  joinable : ∀ i, s.joinable i = true
  first : ∀ i, s.owner = .destroying i → i = 0
  alive : s.owner ≠ .destroyed

theorem start_unjoined (n : Nat) : Unjoined (start n) where
  joinable _ := rfl
  first i here := by simp [start] at here
  alive := by simp [start]

/-- A step of the pool leaves the owner where it is, or takes it from running
to stopped. -/
theorem follow_cases {owner after : Owner} {e : ThreadPool.Event n}
    (followed : owner.follow e = some after) : after = owner ∨ after = .stopped := by
  cases e with
  | stop =>
    cases owner with
    | running | stopped => exact .inr (Option.some.inj followed).symm
    | destroying i | destroyed | terminated => contradiction
  | push =>
    cases owner with
    | running | stopped => exact .inl (Option.some.inj followed).symm
    | destroying i | destroyed | terminated => contradiction
  | _ =>
    cases owner with
    | running | stopped | destroying i | destroyed => exact .inl (Option.some.inj followed).symm
    | terminated => contradiction

theorem destroyNext_first {joinable : Fin n → Bool} (positive : 0 < n)
    (all : ∀ i, joinable i = true) : destroyNext joinable 0 = .terminated := by
  rw [destroyNext, dif_pos positive, if_pos (all _)]

theorem unjoined_step {e : Event n} (positive : 0 < n) (held : Unjoined s)
    (stepped : step s e = some next) : Unjoined next := by
  cases e with
  | pool e =>
    obtain ⟨owner, followed, rest⟩ := Option.bind_eq_some_iff.mp stepped
    obtain ⟨pool, -, same⟩ := Option.bind_eq_some_iff.mp rest
    obtain rfl := Option.some.inj same
    rcases follow_cases followed with rfl | rfl
    · exact ⟨held.joinable, held.first, held.alive⟩
    · exact ⟨held.joinable, by simp, by simp⟩
  | leave =>
    obtain ⟨-, rfl⟩ := guarded_eq_some.mp stepped
    exact ⟨held.joinable, by simp, by simp⟩
  | destroy =>
    rw [step] at stepped
    split at stepped
    · rename_i i here
      obtain rfl := Option.some.inj stepped
      obtain rfl := held.first i here
      have ends := destroyNext_first positive held.joinable
      exact ⟨held.joinable, by simp [ends], by simp [ends]⟩
    · contradiction

theorem maxThreadNums_pos (hardwareConcurrency : Nat) : 0 < maxThreadNums hardwareConcurrency := by
  rw [maxThreadNums]
  split <;> omega

/-- Whatever the machine, the tasks and the interleaving: a run in which the
pool is destroyed has the process terminated, and from every state in which
`stop()` has returned the next two steps of the owner lead there. -/
theorem destruction_terminates {hardwareConcurrency : Nat}
    {events : List (Event (maxThreadNums hardwareConcurrency))}
    {final : Lifetime (maxThreadNums hardwareConcurrency)}
    (ran : run step (start (maxThreadNums hardwareConcurrency)) events = some final) :
    (final.owner.ended = true → final.owner = .terminated ∧
      ¬ Throughout step Safe (start (maxThreadNums hardwareConcurrency)) events) ∧
    (final.owner = .stopped → final.pool.ones = 0 → final.pool.alls = 0 →
      ∃ dead, run step final [.leave, .destroy] = some dead ∧ dead.owner = .terminated) := by
  have positive := maxThreadNums_pos hardwareConcurrency
  have held : Unjoined final :=
    run_keeps (fun _ _ _ => unjoined_step positive) (start_unjoined _) ran
  constructor
  · intro ended
    have dead : final.owner = .terminated := by
      have alive := held.alive
      generalize final.owner = owner at ended alive
      cases owner with
      | terminated => rfl
      | destroyed => contradiction
      | running | stopped | destroying i => contradiction
    refine ⟨dead, fun safe => ?_⟩
    obtain ⟨last, reached, fine⟩ := safe.final
    obtain rfl : final = last := Option.some.inj (ran.symm.trans reached)
    exact fine.1 dead
  · intro stopped noOne noAll
    refine ⟨{ final with owner := .terminated }, ?_, rfl⟩
    have left : step final .leave = some { final with owner := .destroying 0 } := by
      rw [step, if_pos ⟨stopped, noOne, noAll⟩]
    have ended : step { final with owner := .destroying 0 } .destroy =
        some { final with owner := .terminated } := by
      simp only [step, destroyNext_first positive held.joinable]
    rw [run_cons, left, Option.bind_some, run_cons, ended]
    rfl

/-- One worker waits, runs the only task and leaves; the flag is set, everybody
has been notified, and the pool goes out of scope. -/
def drained : List (Event (maxThreadNums 1)) :=
  let w : Fin (maxThreadNums 1) := ⟨0, by decide⟩
  [.pool (.enter w), .pool .push, .pool (.notifyOne (some w)), .pool (.resume w), .pool (.enter w),
    .pool .stop, .pool (.finish w), .pool .notifyAll, .pool (.enter w), .leave, .destroy]

theorem destruction_terminates_drained :
    (run step (start (maxThreadNums 1)) drained).map (fun s => s.owner) = some .terminated ∧
      ¬ Throughout step Safe (start (maxThreadNums 1)) drained := by
  obtain ⟨final, ran⟩ : ∃ final, run step (start (maxThreadNums 1)) drained = some final := ⟨_, rfl⟩
  have ended : (run step (start (maxThreadNums 1)) drained).map (fun s => s.owner.ended) = some true := by
    decide
  rw [ran, Option.map_some, Option.some_inj] at ended
  obtain ⟨dead, fails⟩ := (destruction_terminates ran).1 ended
  exact ⟨by rw [ran, Option.map_some, dead], fails⟩

/-- The worker has left and its task has been run, and the process is
terminated all the same. -/
theorem drained_pool_terminates :
    (run step (start (maxThreadNums 1)) drained).map
        (fun s => (s.owner, s.marked, s.pool.ended.map Prod.snd)) = some (.terminated, 1, [0]) ∧
      ¬ Throughout step Safe (start (maxThreadNums 1)) drained := by
  refine ⟨by decide, fun safe => ?_⟩
  obtain ⟨last, reached, alive, -⟩ := safe.final
  obtain rfl : _ = last := Option.some.inj reached
  exact alive rfl

end ExNetlink.PoolDestruction
