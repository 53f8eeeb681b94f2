import ExNetlink.ThreadPool

/-! The pool never loses a wake-up.

Notifications are sent after the lock is released and waits have no predicate.
What saves the pool is that a worker joins the waiter set only in a step that
saw an empty deque and no flag: a task pushed later still owes its
notification, and a flag set later still owes its broadcast. -/
namespace ExNetlink.PoolWakeups
open ThreadPool ThreadPool.Pool Runs

variable {n : Nat} {p q : Pool n}

/-- In the loop and outside the waiter set. -/
def Active (place : Worker) : Prop := place ≠ .left ∧ place ≠ .waiting

/-- Waiters are owed what they wait for. -/
structure Awake (p : Pool n) : Prop where
  flag : p.stoped = true → p.alls = 0 → ∀ w, p.workers w ≠ .waiting
  work : p.task ≠ [] → ∀ w, p.workers w = .waiting →
    0 < p.ones ∨ 0 < p.alls ∨ ∃ v, Active (p.workers v)

theorem start_awake (n : Nat) : Awake (start n) where
  flag _ _ w := by simp [start]
  work waiting := by simp [start] at waiting

/-- A worker that ends up active, with nobody else moved. -/
theorem put_awake (awake : Awake p) (w : Fin n) {place : Worker} (active : Active place)
    {task : List Nat} {ones : Nat} {taken ended : List (Fin n × Nat)} :
    Awake { p.put w place with task := task, ones := ones, taken := taken, ended := ended } where
  flag stopped issued v := by
    change (p.put w place).workers v ≠ _
    rw [put_workers]
    split
    · exact active.2
    · exact awake.flag stopped issued v
  work _ _ _ := .inr (.inr ⟨w, by
    change Active ((p.put w place).workers w)
    rw [put_workers, if_pos rfl]
    exact active⟩)

/-- A worker that found the deque empty: it leaves, or waits when the flag is clear. -/
theorem idle_awake (awake : Awake p) (w : Fin n) {place : Worker} (empty : p.task = [])
    (clear : place = .waiting → p.stoped = false) : Awake (p.put w place) where
  flag stopped issued v := by
    rw [put_workers]
    split
    · intro asleep
      exact Bool.false_ne_true ((clear asleep).symm.trans stopped)
    · exact awake.flag stopped issued v
  work waiting := absurd empty waiting

theorem bindRun_awake (awake : Awake p) (w : Fin n) : Awake (p.bindRun w) := by
  rw [bindRun]
  split
  · exact put_awake awake w (by simp [Active])
  · rename_i empty
    split
    · exact idle_awake awake w empty (by simp)
    · rename_i running
      exact idle_awake awake w empty fun _ => by simpa using running

/-- Every event keeps what the waiters are owed. -/
theorem awake_step {e : Event n} (awake : Awake p) (stepped : step p e = some q) : Awake q := by
  cases e with
  | push =>
    obtain rfl := Option.some.inj stepped
    exact ⟨awake.flag, fun _ _ _ => .inl (Nat.succ_pos _)⟩
  | notifyOne waiter =>
    cases waiter with
    | none =>
      obtain ⟨⟨-, nobody⟩, rfl⟩ := guarded_eq_some.mp stepped
      exact ⟨awake.flag, fun _ w asleep => absurd asleep (nobody w)⟩
    | some w =>
      obtain ⟨-, rfl⟩ := guarded_eq_some.mp stepped
      exact put_awake awake w (by simp [Active])
  | stop =>
    obtain rfl := Option.some.inj stepped
    exact ⟨fun _ issued => by simp at issued, fun _ _ _ => .inr (.inl (Nat.succ_pos _))⟩
  | notifyAll =>
    obtain ⟨-, rfl⟩ := guarded_eq_some.mp stepped
    have nobody : ∀ w, (if p.workers w = .waiting then Worker.woken else p.workers w) ≠ .waiting := by
      intro w
      split
      · simp
      · assumption
    exact ⟨fun _ _ => nobody, fun _ w asleep => absurd asleep (nobody w)⟩
  | enter w =>
    obtain ⟨-, rfl⟩ := guarded_eq_some.mp stepped
    exact bindRun_awake awake w
  | spurious w =>
    obtain ⟨-, rfl⟩ := guarded_eq_some.mp stepped
    exact put_awake awake w (by simp [Active])
  | resume w =>
    obtain ⟨-, rfl⟩ := guarded_eq_some.mp stepped
    exact put_awake awake w (by simp [Active])
  | finish w =>
    rw [step] at stepped
    split at stepped
    · obtain rfl := Option.some.inj stepped
      exact put_awake awake w (by simp [Active])
    · contradiction
  | throws w =>
    rw [step] at stepped
    split at stepped
    · obtain rfl := Option.some.inj stepped
      exact put_awake awake w (by simp [Active])
    · contradiction
  | report w =>
    obtain ⟨-, rfl⟩ := guarded_eq_some.mp stepped
    exact put_awake awake w (by simp [Active])

/-- In every reachable state: with a task in the deque, a worker in the loop and
no notification outstanding, some worker in the loop is not waiting; and with
the flag set and no broadcast outstanding, nobody waits. -/
theorem wakeups_kept {events : List (Event n)} (ran : run step (start n) events = some p) :
    (p.task ≠ [] → (∃ w, p.workers w ≠ .left) → p.ones = 0 → p.alls = 0 →
      ∃ w, p.workers w ≠ .left ∧ p.workers w ≠ .waiting) ∧
    (p.stoped = true → p.alls = 0 → ∀ w, p.workers w ≠ .waiting) := by
  have awake : Awake p := run_keeps (fun _ _ _ => awake_step) (start_awake n) ran
  refine ⟨fun waiting ⟨w, inside⟩ noOne noAll => ?_, awake.flag⟩
  by_cases asleep : p.workers w = .waiting
  · rcases awake.work waiting w asleep with one | all | active
    · omega
    · omega
    · exact active
  · exact ⟨w, inside, asleep⟩

/-- Both workers wait, a push wakes one of them, and the deque still holds its task. -/
theorem wakeups_kept_woken :
    ∃ p, run step (start 2) [.enter 0, .enter 1, .push, .notifyOne (some 1)] = some p ∧
      p.task = [0] ∧ p.workers 0 = .waiting ∧
      ∃ w, p.workers w ≠ .left ∧ p.workers w ≠ .waiting := by
  refine ⟨_, rfl, rfl, rfl, ?_⟩
  have kept := @wakeups_kept 2 _ [.enter 0, .enter 1, .push, .notifyOne (some 1)] rfl
  exact kept.1 (by decide) ⟨0, by decide⟩ rfl rfl

end ExNetlink.PoolWakeups
