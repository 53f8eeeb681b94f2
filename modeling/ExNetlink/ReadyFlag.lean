import Mathlib.Logic.Function.Basic
import ExNetlink.Locks
import ExNetlink.Runs

/-! The ready flag of `set/api/main.cpp`.

A client locks `mt` and calls `cv.wait(ul, predicate)`, which tests `ck` under
the lock and, as long as it is false, releases the lock and joins the waiter
set in one step. The server stores `true` to `ck` and then calls
`cv.notify_all()`, both without `mt`. The flag is atomic, so each test sees the
last store; but a client that has seen it false is bound for the waiter set,
and nothing keeps the store and the notification from falling in between. -/
namespace ExNetlink.ReadyFlag
open Locks Runs

/-- Where a client stands in the block around `cv.wait`. -/
inductive Client where
  /-- About to lock `mt`. -/
  | arriving
  /-- About to evaluate the predicate, with `mt`. -/
  | testing
  /-- The predicate was false; about to release `mt` and wait. -/
  | refused
  /-- In the waiter set of `cv`. -/
  | waiting
  /-- Out of the waiter set, inside `wait` and without `mt`. -/
  | woken
  /-- The predicate was true; about to unlock `mt`. -/
  | passed
  /-- Out of the block, on its way to `connect`. -/
  | left
  deriving DecidableEq, Repr

/-- Where the server stands. -/
inductive Server where
  /-- Up to `ck = true`. -/
  | starting
  /-- Up to `cv.notify_all()`. -/
  | stored
  | notified
  deriving DecidableEq, Repr

/-- The server, `n` clients, and what they share. -/
structure Handshake (n : Nat) where
  ck : Bool
  /-- Who has `mt`. -/
  mt : Option (Fin n)
  clients : Fin n → Client
  server : Server

inductive Event (n : Nat) where
  | lock (t : Fin n)
  /-- The predicate is evaluated. -/
  | test (t : Fin n)
  /-- `mt` is released and the waiter set joined. -/
  | wait (t : Fin n)
  /-- A spurious wake-up. -/
  | spurious (t : Fin n)
  /-- A woken client has `mt` again. -/
  | relock (t : Fin n)
  | unlock (t : Fin n)
  /-- `ck = true`. -/
  | store
  | notifyAll
  deriving DecidableEq, Repr

def start (n : Nat) : Handshake n where
  ck := false
  mt := none
  clients := fun _ => .arriving
  server := .starting

variable {n : Nat}

/-- Client `t` moves to `place`; `mt` is who has the mutex then. -/
def Handshake.put (s : Handshake n) (t : Fin n) (place : Client) (mt : Option (Fin n)) : Handshake n :=
  { s with clients := Function.update s.clients t place, mt := mt }

/-- The state after an event, for an event that can happen. -/
def step (s : Handshake n) : Event n → Option (Handshake n)
  | .lock t =>
    if s.clients t = .arriving ∧ s.mt = none then some (s.put t .testing (some t)) else none
  | .test t =>
    if s.clients t = .testing then
      some (s.put t (if s.ck = true then .passed else .refused) s.mt)
    else none
  | .wait t => if s.clients t = .refused then some (s.put t .waiting none) else none
  | .spurious t => if s.clients t = .waiting then some (s.put t .woken s.mt) else none
  | .relock t =>
    if s.clients t = .woken ∧ s.mt = none then some (s.put t .testing (some t)) else none
  | .unlock t => if s.clients t = .passed then some (s.put t .left none) else none
  | .store => if s.server = .starting then some { s with ck := true, server := .stored } else none
  | .notifyAll =>
    if s.server = .stored then
      some { s with
        clients := fun t => if s.clients t = .waiting then .woken else s.clients t
        server := .notified }
    else none

/-- Nobody waits once the flag is set and the notification is out. -/
def Woken (s : Handshake n) : Prop :=
  ¬ (s.ck = true ∧ s.server = .notified ∧ ∃ t, s.clients t = .waiting)

instance : DecidablePred (Woken (n := n)) := fun _ => inferInstanceAs (Decidable (¬ (_ ∧ _)))

/-- The server does not notify while a client that was refused is on its way
to the waiter set. -/
def Suits (s : Handshake n) : Event n → Prop
  | .notifyAll => ∀ t, s.clients t ≠ .refused
  | _ => True

instance (s : Handshake n) : DecidablePred (Suits s)
  | .notifyAll => inferInstanceAs (Decidable (∀ t, s.clients t ≠ .refused))
  | .lock _ | .test _ | .wait _ | .spurious _ | .relock _ | .unlock _ | .store => isTrue trivial

variable {s next : Handshake n}

theorem put_clients (s : Handshake n) (t u : Fin n) (place : Client) (mt : Option (Fin n)) :
    (s.put t place mt).clients u = if u = t then place else s.clients u :=
  Function.update_apply s.clients t place u

/-- The flag is what the server has stored. -/
def Stored (s : Handshake n) : Prop := s.ck = true ↔ s.server ≠ .starting

/-- Everything an event can do: one client moves on, or the server does. -/
inductive Change (s : Handshake n) : Event n → Handshake n → Prop
  | client (e : Event n) (t : Fin n) (place : Client) (mt : Option (Fin n))
      (other : e ≠ .notifyAll) (refused : place = .refused → s.ck = false)
      (waits : place = .waiting → s.clients t = .refused)
      (leaves : s.clients t = .refused → place = .waiting) : Change s e (s.put t place mt)
  | store (fresh : s.server = .starting) : Change s .store { s with ck := true, server := .stored }
  | notify (stored : s.server = .stored) : Change s .notifyAll { s with
      clients := fun t => if s.clients t = .waiting then .woken else s.clients t
      server := .notified }

theorem step_change {e : Event n} (stepped : step s e = some next) : Change s e next := by
  cases e with
  | lock t =>
    obtain ⟨⟨here, -⟩, rfl⟩ := guarded_eq_some.mp stepped
    exact .client _ t _ _ (by simp) (by simp) (by simp) (by simp [here])
  | test t =>
    obtain ⟨here, rfl⟩ := guarded_eq_some.mp stepped
    refine .client _ t _ _ (by simp) (fun refused => ?_) (fun waits => ?_) (by simp [here])
    · by_contra set
      rw [if_pos (by simpa using set)] at refused
      contradiction
    · split at waits <;> contradiction
  | wait t =>
    obtain ⟨here, rfl⟩ := guarded_eq_some.mp stepped
    exact .client _ t _ _ (by simp) (by simp) (fun _ => here) (fun _ => rfl)
  | spurious t =>
    obtain ⟨here, rfl⟩ := guarded_eq_some.mp stepped
    exact .client _ t _ _ (by simp) (by simp) (by simp) (by simp [here])
  | relock t =>
    obtain ⟨⟨here, -⟩, rfl⟩ := guarded_eq_some.mp stepped
    exact .client _ t _ _ (by simp) (by simp) (by simp) (by simp [here])
  | unlock t =>
    obtain ⟨here, rfl⟩ := guarded_eq_some.mp stepped
    exact .client _ t _ _ (by simp) (by simp) (by simp) (by simp [here])
  | store =>
    obtain ⟨fresh, rfl⟩ := guarded_eq_some.mp stepped
    exact .store fresh
  | notifyAll =>
    obtain ⟨stored, rfl⟩ := guarded_eq_some.mp stepped
    exact .notify stored

theorem stored_step {e : Event n} (held : Stored s) (changed : Change s e next) : Stored next := by
  cases changed with
  | client => exact held
  | store => simp [Stored]
  | notify stored =>
    have set : s.ck = true := held.mpr (by simp [stored])
    simp [Stored, set]

/-- What carries the induction: after the notification nobody waits or is
bound to. -/
structure Reached (s : Handshake n) : Prop where
  stored : Stored s
  nobody : s.server = .notified → ∀ t, s.clients t ≠ .refused ∧ s.clients t ≠ .waiting

theorem reached_start (n : Nat) : Reached (start n) where
  stored := by simp [Stored, start]
  nobody notified := by simp [start] at notified

theorem reached_step {e : Event n} (held : Reached s) (suited : Suits s e)
    (changed : Change s e next) : Reached next := by
  refine ⟨stored_step held.stored changed, fun notified u => ?_⟩
  cases changed with
  | client _ t place mt _ refused waits _ =>
    have out : s.server = .notified := notified
    have set : s.ck = true := held.stored.mpr (by simp [out])
    rw [put_clients]
    split
    · constructor
      · intro here
        simp [refused here] at set
      · intro here
        exact (held.nobody out t).1 (waits here)
    · exact held.nobody out u
  | store => contradiction
  | notify stored =>
    have free : s.clients u ≠ .refused := suited u
    dsimp only
    split
    · simp
    · rename_i awake
      exact ⟨free, awake⟩

/-- A refused client is still on its way although the notification is out. -/
def Bound (s : Handshake n) : Prop := s.server = .notified ∧ ∃ t, s.clients t = .refused

/-- Such a client goes to the waiter set and nowhere else. -/
theorem bound_step {e : Event n} (held : Stored s) (bound : Bound s) (changed : Change s e next)
    (woken : Woken next) : Bound next := by
  obtain ⟨notified, u, here⟩ := bound
  have set : s.ck = true := held.mpr (by simp [notified])
  cases changed with
  | client _ t place mt _ _ _ leaves =>
    refine ⟨notified, u, ?_⟩
    rw [put_clients]
    split
    · rename_i same
      subst same
      refine absurd ⟨set, notified, u, ?_⟩ woken
      rw [put_clients, if_pos rfl]
      exact leaves here
    · exact here
  | store fresh => simp [fresh] at notified
  | notify stored => simp [stored] at notified

/-- Over every interleaving of the server and any number of clients: nobody is
left in the waiter set after the notification if the server never notifies
while a refused client is on its way there. A run that leaves no such client
behind has nobody waiting in any of its states only under that condition. -/
theorem wakeup_reaches_waiters {events : List (Event n)} {final : Handshake n}
    (ran : run step (start n) events = some final) :
    (Meets step Suits (start n) events → Throughout step Woken (start n) events) ∧
    ((∀ t, final.clients t ≠ .refused) → Throughout step Woken (start n) events →
      Meets step Suits (start n) events) := by
  have stored : Stored (start n) := (reached_start n).stored
  constructor
  · intro met
    have kept : ∀ (s : Handshake n) e next, Reached s → Suits s e → step s e = some next → Reached next :=
      fun s e next held suited stepped => reached_step held suited (step_change stepped)
    refine (throughout_of_run kept (reached_start n) ran met).mono ?_
    rintro s held ⟨-, notified, t, here⟩
    exact (held.nobody notified t).2 here
  · intro settled held
    have kept : ∀ (s : Handshake n) e next, Stored s → step s e = some next → Stored next :=
      fun s e next held stepped => stored_step held (step_change stepped)
    have unbound : ¬ Bound final := by
      rintro ⟨-, t, here⟩
      exact settled t here
    refine meets_of_settled kept ?_ ?_ stored ran held unbound
    · intro s e next _ stepped unsuited _
      cases step_change stepped with
      | client e t place mt other =>
        cases e <;> first | contradiction | exact absurd trivial unsuited
      | store => exact absurd trivial unsuited
      | notify =>
        simp only [Suits, not_forall, not_not] at unsuited
        obtain ⟨t, here⟩ := unsuited
        exact ⟨rfl, t, by simp [here]⟩
    · intro s e next held bound stepped woken
      exact bound_step held bound (step_change stepped) woken

/-- A client waits before the store, one arrives between store and
notification, and both leave. -/
theorem wakeup_reaches_waiters_both :
    Throughout step Woken (start 2) [.lock 0, .test 0, .wait 0, .store, .lock 1, .test 1, .notifyAll,
      .unlock 1, .relock 0, .test 0, .unlock 0] :=
  (wakeup_reaches_waiters rfl).1 (by decide)

/-- The store and the notification fall between a client's test and its wait. -/
theorem notification_missed :
    (run step (start 1) [.lock 0, .test 0, .store, .notifyAll, .wait 0]).map
        (fun s => (s.ck, s.server, s.clients 0)) = some (true, .notified, .waiting) ∧
      ¬ Throughout step Woken (start 1) [.lock 0, .test 0, .store, .notifyAll, .wait 0] := by
  decide

/-! ### How many miss it

The mutex keeps clients apart between their test and their wait, so however
many there are, the notification passes at most one of them by. -/

/-- The client has `mt` there. -/
def Client.holds : Client → Bool
  | testing | refused | passed => true
  | arriving | waiting | woken | left => false

/-- `mt` belongs to the client whose place says so. -/
def Excluded (s : Handshake n) : Prop := ∀ t, s.mt = some t ↔ (s.clients t).holds = true

theorem excluded_step {e : Event n} (held : Excluded s) (stepped : step s e = some next) :
    Excluded next := by
  have sole : Sole s.mt Client.holds s.clients := held
  cases e with
  | lock t =>
    obtain ⟨⟨-, free⟩, rfl⟩ := guarded_eq_some.mp stepped
    exact sole.take free rfl
  | test t =>
    obtain ⟨here, rfl⟩ := guarded_eq_some.mp stepped
    refine sole.stay ?_
    rw [here]
    split <;> rfl
  | wait t =>
    obtain ⟨here, rfl⟩ := guarded_eq_some.mp stepped
    exact sole.release (by simp [here, Client.holds]) rfl
  | spurious t =>
    obtain ⟨here, rfl⟩ := guarded_eq_some.mp stepped
    refine sole.stay ?_
    rw [here]
    rfl
  | relock t =>
    obtain ⟨⟨-, free⟩, rfl⟩ := guarded_eq_some.mp stepped
    exact sole.take free rfl
  | unlock t =>
    obtain ⟨here, rfl⟩ := guarded_eq_some.mp stepped
    exact sole.release (by simp [here, Client.holds]) rfl
  | store =>
    obtain ⟨-, rfl⟩ := guarded_eq_some.mp stepped
    exact held
  | notifyAll =>
    obtain ⟨-, rfl⟩ := guarded_eq_some.mp stepped
    intro t
    dsimp only
    rw [held t]
    split
    · rename_i asleep
      simp [asleep, Client.holds]
    · rfl

/-- In the waiter set, or on its way there. -/
def Client.Missing (place : Client) : Prop := place = .refused ∨ place = .waiting

/-- After the notification at most one client is missing. -/
structure Single (s : Handshake n) : Prop where
  stored : Stored s
  excluded : Excluded s
  single : s.server = .notified → ∀ t u, (s.clients t).Missing → (s.clients u).Missing → t = u

theorem single_step {e : Event n} (held : Single s) (stepped : step s e = some next) : Single next := by
  have changed := step_change stepped
  refine ⟨stored_step held.stored changed, excluded_step held.excluded stepped, ?_⟩
  cases changed with
  | client _ t place mt _ refused waits _ =>
    intro notified
    have out : s.server = .notified := notified
    have set : s.ck = true := held.stored.mpr (by simp [out])
    -- nobody is refused any more, so who is missing was missing before
    have before : ∀ u, ((s.put t place mt).clients u).Missing → (s.clients u).Missing := by
      intro u missing
      rw [put_clients] at missing
      split at missing
      · rename_i same
        subst same
        rcases missing with here | here
        · simp [refused here] at set
        · exact .inl (waits here)
      · exact missing
    intro u v first second
    exact held.single out u v (before u first) (before v second)
  | store => simp
  | notify stored =>
    intro _ u v first second
    have refused : ∀ w, Client.Missing (if s.clients w = .waiting then .woken else s.clients w) →
        s.mt = some w := by
      intro w missing
      split at missing
      · simp [Client.Missing] at missing
      · rename_i awake
        rw [held.excluded w, missing.resolve_right awake]
        rfl
    exact Option.some.inj ((refused u first).symm.trans (refused v second))

/-- Over every interleaving the notification passes at most one client by. -/
theorem one_misses_at_most {events : List (Event n)} (ran : run step (start n) events = some s)
    (notified : s.server = .notified) {t u : Fin n} (first : s.clients t = .waiting)
    (second : s.clients u = .waiting) : t = u := by
  have begun : Single (start n) :=
    ⟨(reached_start n).stored, fun t => by simp [start, Client.holds], by simp [start]⟩
  have held : Single s := run_keeps (fun _ _ _ => single_step) begun ran
  exact held.single notified t u (.inr first) (.inr second)

end ExNetlink.ReadyFlag
