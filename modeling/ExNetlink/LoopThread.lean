import ExNetlink.Runs

/-! A loop, the `Thread` that runs it and the code that owns both.

The owner makes the thread, which calls `Loop::run`, pushes its functions with
`pushRunable` and then destroys the thread, which is to join it. In
`set/loop/main.cpp` the functions are a greeting and a call of `quit()`; in the
constructor of `RttServer`, where the thread is a local variable, there are
none. A function may also throw: then it takes the loop with it, and the thread
ends where `Thread::run` catches the exception.

`pushRunable` puts a function into `idle_` under `run_mut_`, and the loop takes
them out under `idle_mut_`, so nothing keeps the two apart: where they meet they
race for the vector, and what the program does from there on is not defined. -/
namespace ExNetlink.LoopThread
open Runs

/-- A pushed function: some call, one of `quit()`, or one that throws. -/
inductive Fn (α : Type) where
  | call (effect : α)
  | quit
  | throw
  deriving DecidableEq, Repr

/-- Whether the function makes the loop leave. -/
def Fn.stops {α : Type} : Fn α → Bool
  | call _ => false
  | quit => true
  | throw => true

/-- Where the owner stands. -/
inductive Owner where
  /-- In the constructor of `Thread`, at `once_.wait()`. -/
  | waiting
  | pushing
  /-- In `push_runnable`, at the vector. -/
  | inserting
  /-- In the destructor of `Thread`. -/
  | joining
  | joined
  deriving DecidableEq, Repr

/-- Where the thread stands, from `Thread::run` to the end of `Loop::run`. -/
inductive Place where
  /-- Before `once_.down()`. -/
  | naming
  /-- Before `is_quit_ = false`. -/
  | entering
  /-- At `if (is_quit_) break`. -/
  | test
  | idle
  /-- In `handle_runnable`, at the vector. -/
  | swapping
  /-- In `handle_runnable`, at the functions taken out. -/
  | calling
  | io
  | timer
  | runable
  | left
  /-- An exception has left `Loop::run` and been caught in `Thread::run`. -/
  | thrown
  deriving DecidableEq, Repr

structure State (α : Type) where
  owner : Owner := .waiting
  /-- The functions still to be pushed. -/
  rest : List (Fn α)
  place : Place := .naming
  isQuit : Bool := true
  idle : List (Fn α) := []
  /-- `funcs` of `handle_runnable`. -/
  funcs : List (Fn α) := []
  /-- The functions that have been called. -/
  called : List (Fn α) := []
  /-- Those of `funcs` that an exception has passed over. -/
  dropped : List (Fn α) := []
  /-- `push_runnable` and `handle_runnable` were both at the vector. -/
  raced : Bool := false
  deriving DecidableEq, Repr

inductive Act where
  | down
  | construct
  | insert
  | inserted
  | destroy
  | join
  | reset
  | test
  | swap
  | swapped
  /-- The next function of the batch, or the end of it. -/
  | call
  /-- The thread goes on to the next line; there are no timers, and nothing in
  the other vector. -/
  | proceed
  deriving DecidableEq, Repr

/-- The line after a phase that has nothing to do. -/
def Place.following : Place → Option Place
  | .io => some .timer
  | .timer => some .runable
  | .runable => some .test
  | _ => none

/-- The state after an act, for an act that can happen. -/
def act {α : Type} (s : State α) : Act → Option (State α)
  | .down => if s.place = .naming then some { s with place := .entering } else none
  | .construct =>
    if s.owner = .waiting ∧ s.place ≠ .naming then some { s with owner := .pushing } else none
  | .insert =>
    if s.owner = .pushing ∧ s.rest ≠ [] then
      some { s with owner := .inserting, raced := s.place = .swapping }
    else none
  | .inserted =>
    match s.owner, s.rest with
    | .inserting, f :: rest => some { s with
        owner := .pushing, rest := rest, idle := s.idle ++ [f] }
    | _, _ => none
  | .destroy =>
    if s.owner = .pushing ∧ s.rest = [] then some { s with owner := .joining } else none
  | .join =>
    if s.owner = .joining ∧ (s.place = .left ∨ s.place = .thrown) then
      some { s with owner := .joined }
    else none
  | .reset =>
    if s.place = .entering then some { s with isQuit := false, place := .test } else none
  | .test =>
    if s.place = .test then some { s with place := if s.isQuit then .left else .idle } else none
  | .swap =>
    if s.place = .idle then
      some { s with place := .swapping, raced := s.owner = .inserting }
    else none
  | .swapped =>
    if s.place = .swapping then
      some { s with funcs := s.idle, idle := [], place := .calling }
    else none
  | .call =>
    if s.place = .calling then
      match s.funcs with
      | [] => some { s with place := .io }
      | .call effect :: funcs => some { s with funcs := funcs, called := s.called ++ [.call effect] }
      | .quit :: funcs => some { s with
          funcs := funcs, called := s.called ++ [.quit], isQuit := true }
      | .throw :: funcs => some { s with
          funcs := [], called := s.called ++ [.throw], dropped := funcs, place := .thrown }
    else none
  | .proceed => s.place.following.map fun place => { s with place := place }

/-- Once they have raced for the vector no further behaviour is defined. -/
def step {α : Type} (s : State α) (a : Act) : Option (State α) := if s.raced then none else act s a

def start {α : Type} (fns : List (Fn α)) : State α where
  rest := fns

variable {α : Type} {fns : List (Fn α)} {s next : State α}

/-! ### Every run -/

theorem step_eq_some {a : Act} :
    step s a = some next ↔ s.raced = false ∧ act s a = some next := by
  rw [step, Option.ite_none_left_eq_some, Bool.not_eq_true]

/-- What carries the induction: every function is in its place and in order;
once the loop runs, its flag says whether `quit()` has been called; and a
function that has thrown is the last one called. -/
structure Kept (fns : List (Fn α)) (s : State α) : Prop where
  order : s.called ++ (s.dropped ++ (s.funcs ++ (s.idle ++ s.rest))) = fns
  fresh : s.place = .naming ∨ s.place = .entering → s.called = []
  flag : s.place ≠ .naming → s.place ≠ .entering → (s.isQuit = true ↔ .quit ∈ s.called)
  left : s.place = .left → .quit ∈ s.called
  calm : s.place ≠ .thrown → .throw ∉ s.called ∧ s.dropped = []
  thrown : s.place = .thrown → .throw ∈ s.called
  last : .throw ∉ s.called.dropLast
  batch : s.place ≠ .calling → s.funcs = []
  named : s.owner ≠ .waiting → s.place ≠ .naming
  inserting : s.owner = .inserting → s.rest ≠ []
  pushed : s.owner = .joining ∨ s.owner = .joined → s.rest = []
  joined : s.owner = .joined → s.place = .left ∨ s.place = .thrown

theorem following_eq_some {place after : Place} (goes : place.following = some after) :
    place = .io ∧ after = .timer ∨ place = .timer ∧ after = .runable ∨
      place = .runable ∧ after = .test := by
  cases place <;> simp_all [Place.following]

theorem kept_start (fns : List (Fn α)) : Kept fns (start fns) := by
  constructor <;> simp [start]

/-- The owner goes on and touches nothing. -/
theorem Kept.turned {owner : Owner} {raced : Bool} (held : Kept fns s) (named : s.place ≠ .naming)
    (inserting : owner = .inserting → s.rest ≠ [])
    (pushed : owner = .joining ∨ owner = .joined → s.rest = [])
    (joined : owner = .joined → s.place = .left ∨ s.place = .thrown) :
    Kept fns { s with owner := owner, raced := raced } :=
  { held with
    named := fun _ => named
    inserting := inserting
    pushed := pushed
    joined := joined }

/-- A line of the loop that touches no function. The loop leaves only with its
flag set. -/
theorem Kept.moved {place : Place} {raced : Bool} (held : Kept fns s)
    (running : s.place ∉ [.naming, .entering, .calling, .left, .thrown])
    (inside : place ∉ [.naming, .entering, .calling, .thrown])
    (leaves : place = .left → s.isQuit = true) :
    Kept fns { s with place := place, raced := raced } := by
  simp only [List.mem_cons, List.not_mem_nil, or_false, not_or] at running inside
  obtain ⟨notNaming, notEntering, notCalling, notLeft, notThrown⟩ := running
  have flag := held.flag notNaming notEntering
  exact { held with
    fresh := fun early => early.elim (absurd · inside.1) (absurd · inside.2.1)
    flag := fun _ _ => flag
    left := fun gone => flag.mp (leaves gone)
    calm := fun _ => held.calm notThrown
    thrown := fun gone => absurd gone inside.2.2.2
    batch := fun _ => held.batch notCalling
    named := fun _ => inside.1
    joined := fun joined => (held.joined joined).elim (absurd · notLeft) (absurd · notThrown) }

/-- A call of the batch that returns; it sets the flag when it is one of
`quit()`. -/
theorem Kept.ran {f : Fn α} {funcs : List (Fn α)} {isQuit : Bool} (held : Kept fns s)
    (here : s.place = .calling) (first : s.funcs = f :: funcs) (returns : f ≠ .throw)
    (sets : isQuit = true ↔ s.isQuit = true ∨ f = .quit) :
    Kept fns { s with funcs := funcs, called := s.called ++ [f], isQuit := isQuit } := by
  obtain ⟨calm, none⟩ := held.calm (by simp [here])
  exact { held with
    order := by
      rw [← held.order, first, none, List.append_assoc]
      rfl
    fresh := by simp [here]
    flag := fun _ _ => by
      rw [sets, held.flag (by simp [here]) (by simp [here]), List.mem_append, List.mem_singleton,
        eq_comm (a := f)]
    left := by simp [here]
    calm := fun _ => ⟨by simp [calm, returns.symm], none⟩
    thrown := by simp [here]
    last := by rwa [List.dropLast_concat]
    batch := fun idle => absurd here idle }

/-- A call of the batch that throws, past the rest of it. -/
theorem Kept.threw {funcs : List (Fn α)} (held : Kept fns s) (here : s.place = .calling)
    (first : s.funcs = .throw :: funcs) :
    Kept fns { s with
      funcs := [], called := s.called ++ [.throw], dropped := funcs, place := .thrown } := by
  obtain ⟨calm, none⟩ := held.calm (by simp [here])
  exact { held with
    order := by
      rw [← held.order, first, none, List.append_assoc]
      rfl
    fresh := by simp
    flag := fun _ _ => by
      rw [held.flag (by simp [here]) (by simp [here])]
      simp
    left := by simp
    calm := fun calling => absurd rfl calling
    thrown := fun _ => by simp
    last := by rwa [List.dropLast_concat]
    batch := fun _ => rfl
    named := by simp
    joined := fun _ => .inr rfl }

theorem kept_step (s : State α) (a : Act) (next : State α) (held : Kept fns s)
    (stepped : step s a = some next) : Kept fns next := by
  replace stepped := (step_eq_some.mp stepped).2
  cases a with
  | down =>
    obtain ⟨here, rfl⟩ := guarded_eq_some.mp stepped
    exact { held with
      fresh := fun _ => held.fresh (.inl here)
      flag := fun _ entered => absurd rfl entered
      left := by simp
      calm := fun _ => held.calm (by simp [here])
      thrown := by simp
      batch := fun _ => held.batch (by simp [here])
      named := by simp
      joined := fun joined => by simpa [here] using held.joined joined }
  | construct =>
    obtain ⟨⟨-, down⟩, rfl⟩ := guarded_eq_some.mp stepped
    exact held.turned down (by simp) (by simp) (by simp)
  | insert =>
    obtain ⟨⟨here, more⟩, rfl⟩ := guarded_eq_some.mp stepped
    exact held.turned (held.named (by simp [here])) (fun _ => more) (by simp) (by simp)
  | inserted =>
    unfold act at stepped
    dsimp only at stepped
    split at stepped
    · next f rest inserts shape =>
      obtain rfl := Option.some.inj stepped
      have order := held.order
      rw [shape] at order
      exact { held with
        order := by rw [← order, List.append_assoc s.idle, List.singleton_append]
        named := fun _ => held.named (by simp [inserts])
        inserting := by simp
        pushed := by simp
        joined := by simp }
    · cases stepped
  | destroy =>
    obtain ⟨⟨here, none⟩, rfl⟩ := guarded_eq_some.mp stepped
    exact held.turned (held.named (by simp [here])) (by simp) (fun _ => none) (by simp)
  | join =>
    obtain ⟨⟨here, gone⟩, rfl⟩ := guarded_eq_some.mp stepped
    exact held.turned (held.named (by simp [here])) (by simp) (fun _ => held.pushed (.inl here))
      (fun _ => gone)
  | reset =>
    obtain ⟨here, rfl⟩ := guarded_eq_some.mp stepped
    exact { held with
      fresh := by simp
      flag := fun _ _ => by simp [held.fresh (.inr here)]
      left := by simp
      calm := fun _ => held.calm (by simp [here])
      thrown := by simp
      batch := fun _ => held.batch (by simp [here])
      named := by simp
      joined := fun joined => by simpa [here] using held.joined joined }
  | test =>
    obtain ⟨here, rfl⟩ := guarded_eq_some.mp stepped
    have running : s.place ∉ [.naming, .entering, .calling, .left, .thrown] := by simp [here]
    by_cases quitting : s.isQuit = true
    · rw [if_pos quitting]
      exact held.moved running (by simp) (fun _ => quitting)
    · rw [if_neg quitting]
      exact held.moved running (by simp) (by simp)
  | swap =>
    obtain ⟨here, rfl⟩ := guarded_eq_some.mp stepped
    exact held.moved (by simp [here]) (by simp) (by simp)
  | swapped =>
    obtain ⟨here, rfl⟩ := guarded_eq_some.mp stepped
    have order := held.order
    rw [held.batch (by simp [here])] at order
    exact { held with
      order := order
      fresh := by simp
      flag := fun _ _ => held.flag (by simp [here]) (by simp [here])
      left := by simp
      calm := fun _ => held.calm (by simp [here])
      thrown := by simp
      batch := fun idle => absurd rfl idle
      named := by simp
      joined := fun joined => by simpa [here] using held.joined joined }
  | call =>
    unfold act at stepped
    dsimp only at stepped
    split at stepped
    · next here =>
      split at stepped
      · next none =>
        obtain rfl := Option.some.inj stepped
        exact { held with
          fresh := by simp
          flag := fun _ _ => held.flag (by simp [here]) (by simp [here])
          left := by simp
          calm := fun _ => held.calm (by simp [here])
          thrown := by simp
          batch := fun _ => none
          named := by simp
          joined := fun joined => by simpa [here] using held.joined joined }
      · next effect funcs first =>
        obtain rfl := Option.some.inj stepped
        exact held.ran here first (by simp) (by simp)
      · next funcs first =>
        obtain rfl := Option.some.inj stepped
        exact held.ran here first (by simp) (by simp)
      · next funcs first =>
        obtain rfl := Option.some.inj stepped
        exact held.threw here first
    · cases stepped
  | proceed =>
    obtain ⟨place, goes, rfl⟩ := Option.map_eq_some_iff.mp stepped
    rcases following_eq_some goes with ⟨here, rfl⟩ | ⟨here, rfl⟩ | ⟨here, rfl⟩
    · exact held.moved (by simp [here]) (by simp) (by simp)
    · exact held.moved (by simp [here]) (by simp) (by simp)
    · exact held.moved (by simp [here]) (by simp) (by simp)

/-! ### What stops the loop -/

/-- Of the functions called only the last can have thrown, so a call of `quit()`
among them came first. -/
theorem find?_stops {called : List (Fn α)} (last : .throw ∉ called.dropLast)
    (quits : .quit ∈ called) : called.find? Fn.stops = some .quit := by
  induction called with
  | nil => cases quits
  | cons f rest ih =>
    cases f with
    | quit => rfl
    | call effect =>
      have later : .quit ∈ rest := by simpa using quits
      rw [List.dropLast_cons_of_ne_nil (List.ne_nil_of_mem later)] at last
      exact ih (fun early => last (List.mem_cons_of_mem _ early)) later
    | throw =>
      have later : .quit ∈ rest := by simpa using quits
      rw [List.dropLast_cons_of_ne_nil (List.ne_nil_of_mem later)] at last
      exact absurd List.mem_cons_self last

/-- The loop is left after a call of `quit()` or by an exception. -/
theorem Kept.stopped (held : Kept fns s) (gone : s.place = .left ∨ s.place = .thrown) :
    ∃ f ∈ s.called, f.stops = true :=
  gone.elim (fun left => ⟨_, held.left left, rfl⟩) (fun thrown => ⟨_, held.thrown thrown, rfl⟩)

/-- Past the loop its flag is set exactly when `quit()` came before any function
that throws. -/
theorem Kept.flag_iff (held : Kept fns s) (gone : s.place = .left ∨ s.place = .thrown) :
    s.isQuit = true ↔ fns.find? Fn.stops = some .quit := by
  have flag := held.flag (by rcases gone with h | h <;> simp [h]) (by rcases gone with h | h <;> simp [h])
  obtain ⟨f, called, stops⟩ := held.stopped gone
  obtain ⟨first, found⟩ := Option.isSome_iff_exists.mp (List.find?_isSome.mpr ⟨f, called, stops⟩)
  have whole : fns.find? Fn.stops = s.called.find? Fn.stops := by
    rw [← held.order, List.find?_append, found]
    rfl
  rw [flag, whole]
  exact ⟨find?_stops held.last, List.mem_of_find?_eq_some⟩

/-! ### What the owner can still reach -/

/-- Some run leads from one state to the other without a race. -/
def Reach (s t : State α) : Prop := (∃ acts, run step s acts = some t) ∧ t.raced = false

theorem Reach.refl (calm : s.raced = false) : Reach s s := ⟨⟨[], rfl⟩, calm⟩

theorem Reach.act {a : Act} (calm : s.raced = false) (acted : LoopThread.act s a = some next)
    (fine : next.raced = false) : Reach s next :=
  ⟨⟨[a], run_cons_some.mpr ⟨next, step_eq_some.mpr ⟨calm, acted⟩, rfl⟩⟩, fine⟩

theorem Reach.trans {t u : State α} (first : Reach s t) (second : Reach t u) : Reach s u := by
  obtain ⟨⟨acts, ran⟩, -⟩ := first
  obtain ⟨⟨more, continued⟩, calm⟩ := second
  exact ⟨⟨acts ++ more, by rw [run_append, ran, Option.bind_some, continued]⟩, calm⟩

theorem Reach.kept {t : State α} (reach : Reach s t) (held : Kept fns s) : Kept fns t := by
  obtain ⟨⟨acts, ran⟩, -⟩ := reach
  exact run_keeps kept_step held ran

/-- The loop gets through a batch, or an exception takes it out. -/
theorem reach_called (s : State α) (calm : s.raced = false) (here : s.place = .calling) :
    ∃ t, Reach s t ∧ t.owner = s.owner ∧
      (t.place = .io ∧ t.called = s.called ++ s.funcs ∨ t.place = .thrown) := by
  obtain ⟨owner, rest, place, isQuit, idle, funcs, called, dropped, raced⟩ := s
  obtain rfl : place = .calling := here
  obtain rfl : raced = false := calm
  induction funcs generalizing isQuit called with
  | nil => exact ⟨_, ⟨⟨[.call], rfl⟩, rfl⟩, rfl, .inl ⟨rfl, (List.append_nil _).symm⟩⟩
  | cons f funcs ih =>
    have returned : ∀ isQuit', act ⟨owner, rest, .calling, isQuit, idle, f :: funcs, called, dropped, false⟩
          .call = some ⟨owner, rest, .calling, isQuit', idle, funcs, called ++ [f], dropped, false⟩ →
        ∃ t, Reach ⟨owner, rest, .calling, isQuit, idle, f :: funcs, called, dropped, false⟩ t ∧
          t.owner = owner ∧ (t.place = .io ∧ t.called = called ++ f :: funcs ∨ t.place = .thrown) := by
      intro isQuit' acted
      obtain ⟨t, reach, same, ends⟩ := ih isQuit' (called ++ [f])
      refine ⟨t, (Reach.act rfl acted rfl).trans reach, same, ?_⟩
      rwa [List.append_assoc] at ends
    cases f with
    | call effect => exact returned isQuit rfl
    | quit => exact returned true rfl
    | throw => exact ⟨_, ⟨⟨[.call], rfl⟩, rfl⟩, rfl, .inr rfl⟩

/-- From a phase with nothing to do the loop comes back to its test. -/
theorem reach_test (s : State α) (calm : s.raced = false)
    (here : s.place = .io ∨ s.place = .timer ∨ s.place = .runable) :
    ∃ t, Reach s t ∧ t.place = .test ∧ t.owner = s.owner ∧ t.called = s.called := by
  obtain ⟨owner, rest, place, isQuit, idle, funcs, called, dropped, raced⟩ := s
  obtain rfl : raced = false := calm
  rcases here with here | here | here
  · obtain rfl : place = .io := here
    exact ⟨_, ⟨⟨[.proceed, .proceed, .proceed], rfl⟩, rfl⟩, rfl, rfl, rfl⟩
  · obtain rfl : place = .timer := here
    exact ⟨_, ⟨⟨[.proceed, .proceed], rfl⟩, rfl⟩, rfl, rfl, rfl⟩
  · obtain rfl : place = .runable := here
    exact ⟨_, ⟨⟨[.proceed], rfl⟩, rfl⟩, rfl, rfl, rfl⟩

/-- A batch is called to its end, and the loop comes back to its test; or an
exception takes it out. -/
theorem reach_round (s : State α) (calm : s.raced = false) (here : s.place = .calling) :
    ∃ t, Reach s t ∧ t.owner = s.owner ∧
      (t.place = .test ∧ t.called = s.called ++ s.funcs ∨ t.place = .thrown) := by
  obtain ⟨t, reach, same, ⟨io, all⟩ | thrown⟩ := reach_called s calm here
  · obtain ⟨u, onward, test, owner, kept⟩ := reach_test t reach.2 (.inl io)
    exact ⟨u, reach.trans onward, owner.trans same, .inl ⟨test, kept.trans all⟩⟩
  · exact ⟨t, reach, same, .inr thrown⟩

/-- From its test the loop takes out all that was pushed. -/
theorem reach_taken (s : State α) (calm : s.raced = false) (here : s.place = .test)
    (running : s.isQuit = false) (waits : s.owner = .joining) :
    Reach s { s with funcs := s.idle, idle := [], place := .calling } := by
  obtain ⟨owner, rest, place, isQuit, idle, funcs, called, dropped, raced⟩ := s
  obtain rfl : raced = false := calm
  obtain rfl : place = .test := here
  obtain rfl : isQuit = false := running
  obtain rfl : owner = .joining := waits
  exact ⟨⟨[.test, .swap, .swapped], rfl⟩, rfl⟩

/-- Once the owner waits in the destructor, the loop comes back to its test, or
an exception takes it out. -/
theorem reach_next_test (s : State α) (calm : s.raced = false) (waits : s.owner = .joining)
    (named : s.place ≠ .naming) (runs : s.place ≠ .left) :
    ∃ t, Reach s t ∧ t.owner = .joining ∧ (t.place = .test ∨ t.place = .thrown) := by
  have calling : ∀ t : State α, t.raced = false → t.place = .calling → t.owner = .joining →
      ∃ u, Reach t u ∧ u.owner = .joining ∧ (u.place = .test ∨ u.place = .thrown) := by
    intro t calm here waits
    obtain ⟨u, reach, same, ends⟩ := reach_round t calm here
    exact ⟨u, reach, same.trans waits, ends.imp_left And.left⟩
  have idling : ∀ t : State α, t.raced = false →
      (t.place = .io ∨ t.place = .timer ∨ t.place = .runable) → t.owner = .joining →
      ∃ u, Reach t u ∧ u.owner = .joining ∧ (u.place = .test ∨ u.place = .thrown) := by
    intro t calm here waits
    obtain ⟨u, reach, test, same, -⟩ := reach_test t calm here
    exact ⟨u, reach, same.trans waits, .inl test⟩
  obtain ⟨owner, rest, place, isQuit, idle, funcs, called, dropped, raced⟩ := s
  obtain rfl : owner = .joining := waits
  obtain rfl : raced = false := calm
  cases place with
  | naming => exact absurd rfl named
  | left => exact absurd rfl runs
  | thrown => exact ⟨_, Reach.refl rfl, rfl, .inr rfl⟩
  | entering => exact ⟨_, ⟨⟨[.reset], rfl⟩, rfl⟩, rfl, .inl rfl⟩
  | test => exact ⟨_, Reach.refl rfl, rfl, .inl rfl⟩
  | idle =>
    obtain ⟨u, reach, there⟩ :=
      calling ⟨.joining, rest, .calling, isQuit, [], idle, called, dropped, false⟩ rfl rfl rfl
    exact ⟨u, Reach.trans ⟨⟨[.swap, .swapped], rfl⟩, rfl⟩ reach, there⟩
  | swapping =>
    obtain ⟨u, reach, there⟩ :=
      calling ⟨.joining, rest, .calling, isQuit, [], idle, called, dropped, false⟩ rfl rfl rfl
    exact ⟨u, Reach.trans ⟨⟨[.swapped], rfl⟩, rfl⟩ reach, there⟩
  | calling => exact calling _ rfl rfl rfl
  | io => exact idling _ rfl (by simp) rfl
  | timer => exact idling _ rfl (by simp) rfl
  | runable => exact idling _ rfl (by simp) rfl

theorem reach_joined_of_gone (calm : s.raced = false) (waits : s.owner = .joining)
    (gone : s.place = .left ∨ s.place = .thrown) : ∃ t, Reach s t ∧ t.owner = .joined :=
  ⟨{ s with owner := .joined }, Reach.act (a := .join) calm (if_pos ⟨waits, gone⟩) calm, rfl⟩

theorem reach_joined_of_test (calm : s.raced = false) (here : s.place = .test)
    (quitting : s.isQuit = true) (waits : s.owner = .joining) : ∃ t, Reach s t ∧ t.owner = .joined := by
  obtain ⟨owner, rest, place, isQuit, idle, funcs, called, dropped, raced⟩ := s
  obtain rfl : raced = false := calm
  obtain rfl : place = .test := here
  obtain rfl : isQuit = true := quitting
  obtain rfl : owner = .joining := waits
  exact ⟨_, ⟨⟨[.test, .join], rfl⟩, rfl⟩, rfl⟩

/-- With a `quit()` or a function that throws among the functions, the loop is
left after one more round at most, and the destructor returns. -/
theorem reach_joined (held : Kept fns s) (calm : s.raced = false)
    (stops : ∃ f ∈ fns, f.stops = true) (waits : s.owner = .joining) :
    ∃ t, Reach s t ∧ t.owner = .joined := by
  by_cases gone : s.place = .left
  · exact reach_joined_of_gone calm waits (.inl gone)
  obtain ⟨t, reach, waits, test | thrown⟩ :=
    reach_next_test s calm waits (held.named (by simp [waits])) gone
  · have kept := reach.kept held
    cases quitting : t.isQuit with
    | true =>
      obtain ⟨u, onward, joined⟩ := reach_joined_of_test reach.2 test quitting waits
      exact ⟨u, reach.trans onward, joined⟩
    | false =>
      have taken := reach_taken t reach.2 test quitting waits
      obtain ⟨u, round, owner, ⟨again, all⟩ | thrown⟩ := reach_round _ taken.2
        (show State.place { t with funcs := t.idle, idle := [], place := .calling } = .calling from rfl)
      · have whole := reach.trans (taken.trans round)
        have after := whole.kept held
        have order := kept.order
        rw [kept.batch (by simp [test]), kept.pushed (.inl waits), (kept.calm (by simp [test])).2,
          List.append_nil, List.nil_append, List.nil_append] at order
        -- everything has been called by now, and nothing has thrown
        obtain ⟨f, pushed, stops⟩ := stops
        have called : f ∈ u.called := by
          rw [all, order]
          exact pushed
        have quits : .quit ∈ u.called := by
          cases f with
          | call effect => cases stops
          | quit => exact called
          | throw => exact absurd called (after.calm (by simp [again])).1
        have set := (after.flag (by simp [again]) (by simp [again])).mpr quits
        obtain ⟨v, onward, joined⟩ := reach_joined_of_test whole.2 again set (owner.trans waits)
        exact ⟨v, whole.trans onward, joined⟩
      · obtain ⟨v, onward, joined⟩ :=
          reach_joined_of_gone round.2 (owner.trans waits) (.inr thrown)
        exact ⟨v, (reach.trans (taken.trans round)).trans onward, joined⟩
  · obtain ⟨u, onward, joined⟩ := reach_joined_of_gone reach.2 waits (.inr thrown)
    exact ⟨u, reach.trans onward, joined⟩

/-- The owner gets its functions pushed while the loop is not at the vector. -/
theorem reach_pushed (s : State α) (calm : s.raced = false) (here : s.owner = .pushing)
    (apart : s.place ≠ .swapping) : ∃ t, Reach s t ∧ t.owner = .joining := by
  obtain ⟨owner, rest, place, isQuit, idle, funcs, called, dropped, raced⟩ := s
  obtain rfl : raced = false := calm
  obtain rfl : owner = .pushing := here
  induction rest generalizing idle with
  | nil => exact ⟨_, ⟨⟨[.destroy], rfl⟩, rfl⟩, rfl⟩
  | cons f rest ih =>
    obtain ⟨t, reach, waits⟩ := ih (idle ++ [f]) apart
    refine ⟨t, Reach.trans ⟨⟨[.insert, .inserted], ?_⟩, rfl⟩ reach, waits⟩
    have clear : place ≠ .swapping := apart
    simp [run, step, act, clear]

/-- Wherever they are, the owner comes to wait in the destructor, or is past
it. -/
theorem reach_joining (held : Kept fns s) (calm : s.raced = false) :
    ∃ t, Reach s t ∧ (t.owner = .joining ∨ t.owner = .joined) := by
  have pushing : ∀ t : State α, t.raced = false → t.owner = .pushing →
      ∃ u, Reach t u ∧ u.owner = .joining := by
    intro t calm here
    by_cases inside : t.place = .swapping
    · obtain ⟨u, reach, waits⟩ := reach_pushed
        { t with funcs := t.idle, idle := [], place := .calling } calm here (by simp)
      exact ⟨u, (Reach.act (a := .swapped) calm (if_pos inside) calm).trans reach, waits⟩
    · exact reach_pushed t calm here inside
  cases here : s.owner with
  | waiting =>
    by_cases early : s.place = .naming
    · obtain ⟨u, reach, waits⟩ := pushing { s with place := .entering, owner := .pushing } calm rfl
      have down : Reach s { s with place := .entering } :=
        Reach.act (a := .down) calm (if_pos early) calm
      have built : Reach { s with place := .entering } { s with place := .entering, owner := .pushing } :=
        Reach.act (a := .construct) calm (if_pos ⟨here, by simp⟩) calm
      exact ⟨u, down.trans (built.trans reach), .inl waits⟩
    · obtain ⟨u, reach, waits⟩ := pushing { s with owner := .pushing } calm rfl
      exact ⟨u, (Reach.act (a := .construct) calm (if_pos ⟨here, early⟩) calm).trans reach, .inl waits⟩
  | pushing =>
    obtain ⟨u, reach, waits⟩ := pushing s calm here
    exact ⟨u, reach, .inl waits⟩
  | inserting =>
    obtain ⟨f, rest, shape⟩ := List.exists_cons_of_ne_nil (held.inserting here)
    obtain ⟨u, reach, waits⟩ := pushing
      { s with owner := .pushing, rest := rest, idle := s.idle ++ [f] } calm rfl
    have inserted : Reach s { s with owner := .pushing, rest := rest, idle := s.idle ++ [f] } :=
      Reach.act (a := .inserted) calm (by simp [LoopThread.act, here, shape]) calm
    exact ⟨u, inserted.trans reach, .inl waits⟩
  | joining => exact ⟨s, Reach.refl calm, .inl here⟩
  | joined => exact ⟨s, Reach.refl calm, .inr here⟩

/-- For every list of functions and every run that has come to no race for the
vector: the functions are called in order, each at most once; past the
destructor of the thread the flag of the loop is set, as `~Loop` asserts,
exactly when `quit()` was pushed ahead of every function that throws; and from
wherever the run has come, the owner can get past it exactly when one of its
functions calls `quit()` or throws. Where there is none, it waits for good. -/
theorem owner_returns_iff {acts : List Act} (ran : run step (start fns) acts = some s)
    (calm : s.raced = false) :
    s.called <+: fns ∧
      (s.owner = .joined → (s.isQuit = true ↔ fns.find? Fn.stops = some .quit)) ∧
      ((∃ more last, run step s more = some last ∧ last.raced = false ∧ last.owner = .joined) ↔
        ∃ f ∈ fns, f.stops = true) := by
  have held := run_keeps kept_step (kept_start fns) ran
  refine ⟨⟨_, held.order⟩, fun joined => held.flag_iff (held.joined joined), ?_, fun stops => ?_⟩
  · rintro ⟨more, last, continued, -, joined⟩
    have kept := run_keeps kept_step held continued
    obtain ⟨f, called, stops⟩ := kept.stopped (kept.joined joined)
    exact ⟨f, kept.order ▸ List.mem_append_left _ called, stops⟩
  · obtain ⟨t, reach, waits | joined⟩ := reach_joining held calm
    · obtain ⟨u, onward, joined⟩ := reach_joined (reach.kept held) reach.2 stops waits
      obtain ⟨⟨more, continued⟩, calm⟩ := reach.trans onward
      exact ⟨more, u, continued, calm, joined⟩
    · obtain ⟨⟨more, continued⟩, calm⟩ := reach
      exact ⟨more, t, continued, calm, joined⟩

/-- `loop/main.cpp` in the middle of its pushes, the constructor of `RttServer`
at its end, and a function that throws before `quit()` is called. -/
theorem owner_returns_greeting :
    (∃ s more last, run step (start [.call "hello word", .quit]) [.down, .construct, .insert] = some s ∧
      run step s more = some last ∧ last.owner = .joined) ∧
    (∃ s, run step (start ([] : List (Fn String))) [.down, .construct, .destroy, .reset, .test] = some s ∧
      ¬ ∃ more last, run step s more = some last ∧ last.raced = false ∧ last.owner = .joined) ∧
    ∃ s, run step (start ([.throw, .quit] : List (Fn String))) [.down, .construct, .insert, .inserted,
      .insert, .inserted, .destroy, .reset, .test, .swap, .swapped, .call, .join] = some s ∧
      s.isQuit ≠ true := by
  refine ⟨?_, ?_, ?_⟩
  · obtain ⟨s, ran, calm⟩ := Option.map_eq_some_iff.mp (show (run step
      (start [.call "hello word", .quit]) [.down, .construct, .insert]).map State.raced = some false
      by decide)
    obtain ⟨more, last, continued, -, joined⟩ :=
      (owner_returns_iff ran calm).2.2.mpr ⟨.quit, by simp, rfl⟩
    exact ⟨s, more, last, ran, continued, joined⟩
  · obtain ⟨s, ran, calm⟩ := Option.map_eq_some_iff.mp (show (run step (start ([] : List (Fn String)))
      [.down, .construct, .destroy, .reset, .test]).map State.raced = some false by decide)
    exact ⟨s, ran, fun joins => by simpa using (owner_returns_iff ran calm).2.2.mp joins⟩
  · obtain ⟨s, ran, past⟩ := Option.map_eq_some_iff.mp (show (run step
      (start ([.throw, .quit] : List (Fn String))) [.down, .construct, .insert, .inserted, .insert,
        .inserted, .destroy, .reset, .test, .swap, .swapped, .call, .join]).map
        (fun s => (s.raced, s.owner)) = some (false, .joined) by decide)
    obtain ⟨calm, joined⟩ := Prod.mk.inj past
    exact ⟨s, ran, fun set => absurd (((owner_returns_iff ran calm).2.1 joined).mp set) (by decide)⟩

end ExNetlink.LoopThread
