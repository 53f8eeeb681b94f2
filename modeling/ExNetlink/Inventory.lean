import ExNetlink.Locks
import ExNetlink.Runs

/-! The request inventory of `set/inventory/main.cpp`.

A request is kept alive by its strong references, which threads hold: their own
`shared_ptr`s, and the temporaries that `lock()` makes in `remove` and
`printAll`. Whoever drops the last one runs `~Request`, and with it
`Inventory::remove`, on top of whatever it is doing. While that destructor runs
there is no strong reference left, so `lock()` yields null for the request.

Each thread has a stack of calls into the inventory, the innermost first. The
explicit destructor call in `main` is left out, and so is what `print` writes. -/
namespace ExNetlink.Inventory
open Locks Runs

abbrev Thread := Nat

/-- A `Request` object. -/
abbrev Request := Nat

inductive Lock where
  /-- `Inventory::mut_`. -/
  | inventory
  /-- `Request::mut_`. -/
  | request (r : Request)
  deriving DecidableEq, Repr

/-- A `shared_ptr<Request>`. -/
structure Ref where
  thread : Thread
  request : Request
  /-- Made by `lock()` in `remove` or `printAll`. -/
  temporary : Bool
  deriving DecidableEq, Repr

/-- A call in progress, by what it does next. -/
inductive Frame where
  /-- `Request::register1`, at the lock of `Request::mut_`. -/
  | registerOwn (r : Request)
  /-- At the lock of `Inventory::mut_`. -/
  | registerWants (r : Request)
  | registerHolds (r : Request)
  /-- `Inventory::mut_` is released. -/
  | registerLeaves (r : Request)
  /-- `~Request`, with `Request::mut_` locked, at the lock of `Inventory::mut_`. -/
  | removeWants (r : Request)
  /-- In `erase_if`: what it has kept, and what it has not looked at. -/
  | removeScans (r : Request) (kept rest : List Request)
  /-- In the predicate for `e`, which `lock()` has found alive. -/
  | removeTemp (r : Request) (kept : List Request) (e : Request) (rest : List Request)
  /-- `Inventory::mut_` is released. -/
  | removeLeaves (r : Request)
  /-- `printAll`, at the lock of `Inventory::mut_`. -/
  | printWants
  | printHolds
  /-- In the loop over the copy. -/
  | prints (rest : List Request)
  /-- Before `r->print()`. -/
  | printTemp (e : Request) (rest : List Request)
  /-- After `r->print()`. -/
  | printed (e : Request) (rest : List Request)
  deriving DecidableEq, Repr

namespace Frame

/-- The mutexes that the call has locked, the last one first. -/
def held : Frame → List Lock
  | registerWants r | registerLeaves r | removeWants r | removeLeaves r => [.request r]
  | registerHolds r | removeScans r _ _ | removeTemp r _ _ _ => [.inventory, .request r]
  | printHolds => [.inventory]
  | registerOwn _ | printWants | prints _ | printTemp _ _ | printed _ _ => []

/-- The mutex that the call is about to lock. -/
def wants : Frame → Option Lock
  | registerOwn r => some (.request r)
  | registerWants _ | removeWants _ | printWants => some .inventory
  | _ => none

/-- The request that the call destroys. -/
def destroys : Frame → Option Request
  | removeWants r | removeScans r _ _ | removeTemp r _ _ _ | removeLeaves r => some r
  | _ => none

/-- The request whose temporary reference the call is about to drop. -/
def drops : Frame → Option Request
  | removeTemp _ _ e _ | printed e _ => some e
  | _ => none

end Frame

structure State where
  /-- The requests that have been made, alive or not. -/
  created : List Request
  refs : List Ref
  /-- `obs_`. -/
  obs : List Request
  owner : Lock → Option Thread
  stack : Thread → List Frame

namespace State

/-- `use_count`. -/
def useCount (s : State) (r : Request) : Nat := s.refs.countP fun ref => ref.request == r

/-- `lock()` yields a pointer. -/
def alive (s : State) (r : Request) : Prop := 0 < s.useCount r

instance (s : State) (r : Request) : Decidable (s.alive r) :=
  inferInstanceAs (Decidable (0 < s.useCount r))

/-- The mutexes that a thread holds. -/
def held (s : State) (t : Thread) : List Lock := (s.stack t).flatMap Frame.held

/-- The calls of a thread are now these. -/
def become (s : State) (t : Thread) (frames : List Frame) : State :=
  { s with stack := Function.update s.stack t frames }

/-- A free mutex is locked. -/
def lock (s : State) (t : Thread) (l : Lock) (frames : List Frame) : Option State :=
  if s.owner l = none then
    some { s.become t frames with owner := Function.update s.owner l (some t) }
  else none

def unlock (s : State) (t : Thread) (l : Lock) (frames : List Frame) : State :=
  { s.become t frames with owner := Function.update s.owner l none }

/-- `lock()` on a live request. -/
def borrow (s : State) (t : Thread) (e : Request) (frames : List Frame) : State :=
  { s.become t frames with refs := ⟨t, e, true⟩ :: s.refs }

/-- The state without a reference. -/
def without (s : State) (ref : Ref) : State := { s with refs := s.refs.erase ref }

/-- No other reference keeps the request alive. -/
def last (s : State) (ref : Ref) : Prop := (s.without ref).useCount ref.request = 0

instance (s : State) (ref : Ref) : Decidable (s.last ref) :=
  inferInstanceAs (Decidable ((s.without ref).useCount ref.request = 0))

/-- A reference is dropped. The last one runs `~Request`, which locks
`Request::mut_`. It is always free then: a holder would have a reference. -/
def drop (s : State) (t : Thread) (ref : Ref) : Option State :=
  if s.last ref then
    (s.without ref).lock t (.request ref.request) (.removeWants ref.request :: s.stack t)
  else some (s.without ref)

/-- The next step of a call, on top of the calls `rest` of thread `t`. -/
def proceed (s : State) (t : Thread) (rest : List Frame) : Frame → Option State
  | .registerOwn r => s.lock t (.request r) (.registerWants r :: rest)
  | .registerWants r => s.lock t .inventory (.registerHolds r :: rest)
  | .registerHolds r =>
    some ({ s with obs := s.obs ++ [r] }.unlock t .inventory (.registerLeaves r :: rest))
  | .registerLeaves r => some (s.unlock t (.request r) rest)
  | .removeWants r => s.lock t .inventory (.removeScans r [] s.obs :: rest)
  | .removeScans r kept (e :: later) =>
    if s.alive e then some (s.borrow t e (.removeTemp r kept e later :: rest))
    else some (s.become t (.removeScans r (kept ++ [e]) later :: rest))
  | .removeTemp r kept e later =>
    -- the predicate's result is known, and its `r` goes out of scope
    (s.become t (.removeScans r (if r = e then kept else kept ++ [e]) later :: rest)).drop t
      ⟨t, e, true⟩
  | .removeScans r kept [] =>
    some ({ s with obs := kept }.unlock t .inventory (.removeLeaves r :: rest))
  | .removeLeaves r => some (s.unlock t (.request r) rest)
  | .printWants => s.lock t .inventory (.printHolds :: rest)
  | .printHolds => some (s.unlock t .inventory (.prints s.obs :: rest))
  | .prints [] => some (s.become t rest)
  | .prints (e :: later) =>
    if s.alive e then some (s.borrow t e (.printTemp e later :: rest))
    else some (s.become t (.prints later :: rest))
  | .printTemp e later =>
    if s.owner (.request e) = none then some (s.become t (.printed e later :: rest)) else none
  | .printed e later => (s.become t (.prints later :: rest)).drop t ⟨t, e, true⟩

end State

inductive Event where
  /-- `make_shared<Request>`. -/
  | create (t : Thread) (r : Request)
  /-- Thread `u` copies a `shared_ptr` of thread `t`. -/
  | copy (t u : Thread) (r : Request)
  /-- A thread gives one of its `shared_ptr`s up. -/
  | release (t : Thread) (r : Request)
  | register1 (t : Thread) (r : Request)
  | printAll (t : Thread)
  /-- A thread goes on in the call it is in. -/
  | proceed (t : Thread)
  deriving DecidableEq, Repr

/-- The state after an event, for an event that can happen. A thread begins
something new only when it is in no call. -/
def step (s : State) : Event → Option State
  | .create t r =>
    if s.stack t = [] ∧ r ∉ s.created then
      some { s with created := r :: s.created, refs := ⟨t, r, false⟩ :: s.refs }
    else none
  | .copy t u r =>
    if s.stack u = [] ∧ ⟨t, r, false⟩ ∈ s.refs then some { s with refs := ⟨u, r, false⟩ :: s.refs }
    else none
  | .release t r =>
    if s.stack t = [] ∧ ⟨t, r, false⟩ ∈ s.refs then s.drop t ⟨t, r, false⟩ else none
  | .register1 t r =>
    if s.stack t = [] ∧ ⟨t, r, false⟩ ∈ s.refs then some (s.become t [.registerOwn r]) else none
  | .printAll t => if s.stack t = [] then some (s.become t [.printWants]) else none
  | .proceed t =>
    match s.stack t with
    | [] => none
    | frame :: rest => s.proceed t rest frame

def start : State where
  created := []
  refs := []
  obs := []
  owner := fun _ => none
  stack := fun _ => []

/-! ### The mutexes -/

/-- Each mutex is owned by the thread that has it locked, once. -/
structure Locked (s : State) : Prop where
  owned : Owned s.owner fun t l => l ∈ s.held t
  once : ∀ t, (s.held t).Nodup

variable {s next : State} {t : Thread} {l : Lock} {frames : List Frame}

@[simp] theorem become_stack (frames : List Frame) : (s.become t frames).stack t = frames :=
  Function.update_self ..

@[simp] theorem become_last (frames : List Frame) (ref : Ref) :
    (s.become t frames).last ref ↔ s.last ref := Iff.rfl

theorem held_self {u : State} (stack : u.stack = Function.update s.stack t frames) :
    u.held t = frames.flatMap Frame.held := by
  simp [State.held, stack]

theorem held_other {u : State} (stack : u.stack = Function.update s.stack t frames) {v : Thread}
    (other : v ≠ t) : u.held v = s.held v := by
  simp [State.held, stack, other]

/-- The calls change and the mutexes stay. -/
theorem Locked.become (locked : Locked s) {u : State} (owner : u.owner = s.owner)
    (stack : u.stack = Function.update s.stack t frames)
    (same : frames.flatMap Frame.held = s.held t) : Locked u := by
  have kept : ∀ v, u.held v = s.held v := by
    intro v
    by_cases this : v = t
    · rw [this, held_self stack, same]
    · exact held_other stack this
  constructor
  · rw [owner]
    exact locked.owned.congr fun v m => by rw [kept]
  · intro v
    rw [kept]
    exact locked.once v

theorem Locked.lock (locked : Locked s) (free : s.owner l = none) {u : State}
    (owner : u.owner = Function.update s.owner l (some t))
    (stack : u.stack = Function.update s.stack t frames)
    (more : frames.flatMap Frame.held = l :: s.held t) : Locked u := by
  constructor
  · rw [owner]
    refine locked.owned.take free fun v m => ?_
    by_cases this : v = t
    · rw [this, held_self stack, more, List.mem_cons]
      simp [or_comm]
    · rw [held_other stack this]
      simp [this]
  · intro v
    by_cases this : v = t
    · rw [this, held_self stack, more]
      exact List.nodup_cons.mpr ⟨locked.owned.not_holds free, locked.once t⟩
    · rw [held_other stack this]
      exact locked.once v

theorem Locked.unlock (locked : Locked s) {u : State} (owner : u.owner = Function.update s.owner l none)
    (stack : u.stack = Function.update s.stack t frames)
    (less : s.held t = l :: frames.flatMap Frame.held) : Locked u := by
  have once := locked.once t
  rw [less, List.nodup_cons] at once
  constructor
  · rw [owner]
    refine locked.owned.release fun v m => ?_
    by_cases this : v = t
    · rw [this, held_self stack, less, List.mem_cons]
      constructor
      · intro member
        refine ⟨.inr member, ?_⟩
        rintro rfl
        exact once.1 member
      · rintro ⟨member, other⟩
        exact member.resolve_left other
    · rw [held_other stack this]
      refine (and_iff_left_of_imp ?_).symm
      rintro member rfl
      refine this (locked.owned.unique member ?_)
      rw [less]
      exact List.mem_cons_self
  · intro v
    by_cases this : v = t
    · rw [this, held_self stack]
      exact once.2
    · rw [held_other stack this]
      exact locked.once v

theorem Locked.drop (locked : Locked s) {ref : Ref} (dropped : s.drop t ref = some next) :
    Locked next := by
  have without : Locked (s.without ref) := ⟨locked.owned, locked.once⟩
  unfold State.drop at dropped
  split at dropped
  · obtain ⟨free, rfl⟩ := guarded_eq_some.mp dropped
    exact without.lock free rfl rfl rfl
  · cases dropped
    exact without

theorem Locked.proceed (locked : Locked s) {frame : Frame} {rest : List Frame}
    (here : s.stack t = frame :: rest) (stepped : s.proceed t rest frame = some next) :
    Locked next := by
  have held : s.held t = frame.held ++ rest.flatMap Frame.held := by simp [State.held, here]
  cases frame with
  | registerOwn r | registerWants r | removeWants r | printWants =>
    obtain ⟨free, rfl⟩ := guarded_eq_some.mp stepped
    exact locked.lock free rfl rfl (by rw [held]; rfl)
  | registerHolds r | registerLeaves r | removeLeaves r | printHolds =>
    cases stepped
    exact locked.unlock rfl rfl held
  | removeScans r kept later =>
    cases later with
    | nil =>
      cases stepped
      exact locked.unlock rfl rfl held
    | cons e later =>
      rw [State.proceed] at stepped
      split at stepped
      · cases stepped
        exact locked.become rfl rfl held.symm
      · cases stepped
        exact locked.become rfl rfl held.symm
  | removeTemp r kept e later =>
    rw [State.proceed] at stepped
    refine Locked.drop ?_ stepped
    exact locked.become rfl rfl held.symm
  | prints later =>
    cases later with
    | nil =>
      cases stepped
      exact locked.become rfl rfl held.symm
    | cons e later =>
      rw [State.proceed] at stepped
      split at stepped
      · cases stepped
        exact locked.become rfl rfl held.symm
      · cases stepped
        exact locked.become rfl rfl held.symm
  | printTemp e later =>
    obtain ⟨-, rfl⟩ := guarded_eq_some.mp stepped
    exact locked.become rfl rfl held.symm
  | printed e later =>
    rw [State.proceed] at stepped
    refine Locked.drop ?_ stepped
    exact locked.become rfl rfl held.symm

theorem Locked.step {e : Event} (locked : Locked s) (stepped : step s e = some next) :
    Locked next := by
  cases e with
  | create t r =>
    obtain ⟨-, rfl⟩ := guarded_eq_some.mp stepped
    exact ⟨locked.owned, locked.once⟩
  | copy t u r =>
    obtain ⟨-, rfl⟩ := guarded_eq_some.mp stepped
    exact ⟨locked.owned, locked.once⟩
  | release t r =>
    rw [Inventory.step] at stepped
    split at stepped
    · exact locked.drop stepped
    · contradiction
  | register1 t r =>
    obtain ⟨⟨idle, -⟩, rfl⟩ := guarded_eq_some.mp stepped
    exact locked.become rfl rfl (by simp [State.held, idle, Frame.held])
  | printAll t =>
    obtain ⟨idle, rfl⟩ := guarded_eq_some.mp stepped
    exact locked.become rfl rfl (by simp [State.held, idle, Frame.held])
  | proceed t =>
    rw [Inventory.step] at stepped
    split at stepped
    · contradiction
    · rename_i here
      exact locked.proceed here stepped

theorem locked_start : Locked start := by
  constructor
  · intro l t
    simp [start, State.held]
  · intro t
    simp [start, State.held]

end ExNetlink.Inventory
