import ExNetlink.PollRegistry

/-! Deliveries of `Poll::run` while sockets come and go.

`run` copies `fds_` under the lock, waits in `poll(2)` without it, and then
walks over the copy, looking each descriptor number up in `fdtbs_` again. The
number is all that ties an event to a socket, and the kernel hands a closed
number out again. An event reaches the socket it was polled for as long as no
other socket is registered under a number of the copy that is still to be
dispatched. -/
namespace ExNetlink.PollDispatch
open Reactor PollRegistry Runs

/-- How far `Poll::run` is. -/
inductive Phase where
  | idle
  /-- `listend_fds` is taken and `poll(2)` has not returned. -/
  | polling (entries : List PollFd)
  /-- In the loop of `event_handler`, with the entries still to come. -/
  | dispatching (num : Nat) (entries : List PollFd)
  deriving DecidableEq, Repr

/-- The entries that may still be dispatched. -/
def Phase.pending : Phase → List PollFd
  | idle => []
  | polling entries => entries
  | dispatching _ entries => entries

/-- A call of `event_handler_` for an entry of the snapshot, beside the socket
that was registered under its descriptor when the snapshot was taken. -/
structure Delivery where
  fd : Int
  polled : Option SocketRef
  handled : Handled
  deriving DecidableEq, Repr

structure Reacting where
  registry : Registry
  /-- The socket objects that exist. -/
  built : List SocketRef
  /-- Those whose descriptor is open. -/
  opened : List SocketRef
  phase : Phase
  /-- `fdtbs_` when the last snapshot was taken. -/
  polled : Int → Option SocketRef
  deliveries : List Delivery

inductive Event where
  /-- A socket object is built on a descriptor that the kernel hands out. -/
  | create (ref : SocketRef)
  | close (ref : SocketRef)
  /-- A call on the reactor, by another thread or by `event_handler_`. -/
  | call (call : Call)
  /-- `listend_fds = fds_`, under `fd_mut_`. -/
  | snapshot
  /-- `poll(2)` returns with these `revents`. -/
  | poll (revents : List (BitVec 16))
  /-- `poll(2)` or `gettimeofday` fails, and `run` returns. -/
  | fail
  /-- One iteration of the loop of `event_handler`, or its end. -/
  | dispatch
  deriving DecidableEq, Repr

/-- The socket that a call is made on. -/
def socketOf : Call → SocketRef
  | .add ref | .remove ref | .update ref | .flag ref _ => ref

/-- The snapshot as `poll(2)` leaves it. -/
def answered (entries : List PollFd) (revents : List (BitVec 16)) : List PollFd :=
  entries.zipWith (fun entry bits => { entry with revents := bits }) revents

/-- One iteration of the loop of `event_handler`. -/
def Reacting.eventHandler (s : Reacting) (num : Nat) : List PollFd → Reacting
  | [] => { s with phase := .idle }
  | f :: rest =>
    if num = 0 then { s with phase := .idle }
    else match s.registry.poll.dispatch s.registry.sockets f with
      | some handled =>
        { s with
          phase := .dispatching (num - 1) rest
          deliveries := s.deliveries ++ [⟨f.fd, s.polled f.fd, handled⟩] }
      | none => { s with phase := .dispatching num rest }

/-- The state after an event, for an event that can happen. A descriptor number
is handed out only while no open descriptor has it. -/
def step (s : Reacting) : Event → Option Reacting
  | .create ref =>
    if ref ∉ s.built ∧
        ∀ other ∈ s.opened, (s.registry.sockets other).id ≠ (s.registry.sockets ref).id then
      some { s with built := ref :: s.built, opened := ref :: s.opened }
    else none
  | .close ref => if ref ∈ s.opened then some { s with opened := s.opened.erase ref } else none
  | .call call =>
    if socketOf call ∈ s.built then some { s with registry := apply s.registry call } else none
  | .snapshot =>
    if s.phase = .idle then
      some { s with phase := .polling s.registry.poll.fds, polled := s.registry.poll.fdtbs }
    else none
  | .poll revents =>
    match s.phase with
    | .polling entries =>
      if revents.length = entries.length then
        some { s with phase := .dispatching (revents.countP (· ≠ 0)) (answered entries revents) }
      else none
    | _ => none
  | .fail =>
    match s.phase with
    | .polling _ => some { s with phase := .idle }
    | _ => none
  | .dispatch =>
    match s.phase with
    | .dispatching num entries => some (s.eventHandler num entries)
    | _ => none

/-- Nothing is built or registered, and `run` has not been called. -/
def start (sockets : SocketRef → Socket) : Reacting where
  registry := empty sockets
  built := []
  opened := []
  phase := .idle
  polled := fun _ => none
  deliveries := []

/-- Every event went to the socket it was polled for. -/
def Delivered (s : Reacting) : Prop :=
  ∀ delivery ∈ s.deliveries, delivery.polled = some delivery.handled.socket

/-- `add` registers no other socket under a descriptor that is still to be
dispatched. -/
def Suits (s : Reacting) : Event → Prop
  | .call (.add ref) =>
    (s.registry.sockets ref).id ∈ s.phase.pending.map PollFd.fd →
      s.registry.poll.contains (s.registry.sockets ref).id = false →
        s.polled (s.registry.sockets ref).id = some ref
  | _ => True

instance (s : Reacting) : DecidablePred (Suits s)
  | .call (.add ref) => inferInstanceAs (Decidable
      ((s.registry.sockets ref).id ∈ s.phase.pending.map PollFd.fd →
        s.registry.poll.contains (s.registry.sockets ref).id = false →
          s.polled (s.registry.sockets ref).id = some ref))
  | .call (.remove _) | .call (.update _) | .call (.flag _ _) => isTrue trivial
  | .create _ | .close _ | .snapshot | .poll _ | .fail | .dispatch => isTrue trivial

/-- Another socket than in the snapshot is registered under a descriptor. -/
def Recycled (s : Reacting) (id : Int) : Prop :=
  s.registry.poll.contains id ∧ s.registry.poll.fdtbs id ≠ s.polled id

instance (s : Reacting) : DecidablePred (Recycled s) := fun id =>
  inferInstanceAs (Decidable (s.registry.poll.contains id ∧ _ ≠ s.polled id))

/-- An entry that is still to be dispatched is recycled. -/
def Stale (s : Reacting) : Prop := ∃ f ∈ s.phase.pending, Recycled s f.fd

instance (s : Reacting) : Decidable (Stale s) :=
  inferInstanceAs (Decidable (∃ f ∈ s.phase.pending, Recycled s f.fd))

/-- A recycled entry stays until it is looked up, and then its socket waits for
something: neither is the socket removed first, nor does the round end first. -/
def LooksUp (s : Reacting) : Event → Prop
  | .call (.remove ref) =>
    (s.registry.sockets ref).id ∈ s.phase.pending.map PollFd.fd →
      ¬ Recycled s (s.registry.sockets ref).id
  | .fail => ¬ Stale s
  | .dispatch =>
    match s.phase with
    | .dispatching num (f :: _) =>
      (num = 0 → ¬ Stale s) ∧
        (Recycled s f.fd → (s.registry.poll.dispatch s.registry.sockets f).isSome)
    | _ => True
  | _ => True

instance (s : Reacting) : DecidablePred (LooksUp s)
  | .call (.remove ref) => inferInstanceAs (Decidable
      ((s.registry.sockets ref).id ∈ s.phase.pending.map PollFd.fd →
        ¬ Recycled s (s.registry.sockets ref).id))
  | .fail => inferInstanceAs (Decidable (¬ Stale s))
  | .dispatch =>
    match here : s.phase with
    | .dispatching num (f :: rest) => decidable_of_iff
        ((num = 0 → ¬ Stale s) ∧
          (Recycled s f.fd → (s.registry.poll.dispatch s.registry.sockets f).isSome))
        (by simp only [LooksUp, here])
    | .dispatching _ [] | .idle | .polling _ => isTrue (by simp only [LooksUp, here])
  | .call (.add _) | .call (.update _) | .call (.flag _ _) => isTrue trivial
  | .create _ | .close _ | .snapshot | .poll _ => isTrue trivial

/-! ### What a call does to `fdtbs_` -/

theorem add_fdtbs (poll : Poll) (socket : Socket) (owner : SocketRef) (id : Int) :
    (poll.add socket owner).fdtbs id =
      if id = socket.id ∧ poll.contains id = false then some owner else poll.fdtbs id := by
  by_cases known : poll.contains socket.id
  · have unmet : ¬ (id = socket.id ∧ poll.contains id = false) := by
      rintro ⟨rfl, unknown⟩
      simp [known] at unknown
    rw [if_neg unmet, Poll.add]
    cases socket.model <;> simp [known]
  · have added : (poll.add socket owner).fdtbs =
        Function.update poll.fdtbs socket.id (some owner) := by
      rw [Poll.add]
      cases socket.model <;> simp [known]
    rw [added]
    by_cases same : id = socket.id
    · simp [same, known]
    · simp [same]

/-- `remove` leaves the other descriptors alone. -/
theorem remove_fdtbs_other (poll : Poll) {socket : Socket} {id : Int} (other : id ≠ socket.id) :
    (poll.remove socket).fdtbs id = poll.fdtbs id := by
  by_cases known : poll.contains socket.id
  · rw [remove_fds poll socket known]
    simp [other]
  · simp [Poll.remove, known]

theorem remove_fdtbs (poll : Poll) (socket : Socket) (id : Int) :
    (poll.remove socket).fdtbs id = poll.fdtbs id ∨ (poll.remove socket).fdtbs id = none := by
  by_cases same : id = socket.id
  · by_cases known : poll.contains socket.id
    · rw [remove_fds poll socket known]
      exact .inr (by simp [same])
    · exact .inl (by simp [Poll.remove, known])
  · exact .inl (remove_fdtbs_other poll same)

/-- A descriptor keeps its socket, loses it, or, when it had none, gets the one
that is added. -/
theorem apply_fdtbs (r : Registry) (call : Call) (id : Int) :
    (apply r call).poll.fdtbs id = r.poll.fdtbs id ∨ (apply r call).poll.fdtbs id = none ∨
      ∃ ref, call = .add ref ∧ (r.sockets ref).id = id ∧ r.poll.contains id = false ∧
        (apply r call).poll.fdtbs id = some ref := by
  cases call with
  | add ref =>
    simp only [apply]
    rw [add_fdtbs]
    split
    · rename_i fresh
      exact .inr (.inr ⟨ref, rfl, fresh.1.symm, fresh.2, rfl⟩)
    · exact .inl rfl
  | remove ref =>
    rcases remove_fdtbs r.poll (r.sockets ref) id with kept | lost
    · exact .inl kept
    · exact .inr (.inl lost)
  | update ref => exact .inl rfl
  | flag ref setter => exact .inl rfl

theorem dispatch_socket {poll : Poll} {sockets : SocketRef → Socket} {f : PollFd}
    {handled : Handled} (called : poll.dispatch sockets f = some handled) :
    poll.fdtbs f.fd = some handled.socket := by
  rw [Poll.dispatch] at called
  split at called
  · split at called
    · rename_i socket found
      split at called
      · rw [← Option.some.inj called, found]
      · contradiction
    · contradiction
  · contradiction

/-! ### Runs -/

/-- Each descriptor still to be dispatched is the snapshot's or nobody's. -/
structure Current (s : Reacting) : Prop where
  pending : ∀ f ∈ s.phase.pending,
    s.registry.poll.fdtbs f.fd = none ∨ s.registry.poll.fdtbs f.fd = s.polled f.fd
  delivered : Delivered s

variable {s next : Reacting}

theorem current_start (sockets : SocketRef → Socket) : Current (start sockets) where
  pending := by simp [start, Phase.pending]
  delivered := by simp [start, Delivered]

theorem answered_fds {entries : List PollFd} {revents : List (BitVec 16)}
    (fits : revents.length = entries.length) :
    (answered entries revents).map PollFd.fd = entries.map PollFd.fd := by
  induction entries generalizing revents with
  | nil => rfl
  | cons entry rest ih =>
    cases revents with
    | nil => contradiction
    | cons bits others =>
      rw [List.length_cons, List.length_cons] at fits
      simpa only [answered, List.zipWith_cons_cons, List.map_cons, List.cons.injEq, true_and] using
        ih (Nat.succ.inj fits)

theorem current_call (held : Current s) {call : Call} (suited : Suits s (.call call)) :
    Current { s with registry := apply s.registry call } where
  pending := by
    intro f waiting
    rcases apply_fdtbs s.registry call f.fd with kept | lost | ⟨ref, rfl, named, fresh, added⟩
    · simpa only [kept] using held.pending f waiting
    · exact .inl lost
    · right
      have member : (s.registry.sockets ref).id ∈ s.phase.pending.map PollFd.fd :=
        List.mem_map.mpr ⟨f, waiting, named.symm⟩
      have polled := suited member (named ▸ fresh)
      rw [added, ← polled, named]
  delivered := held.delivered

theorem current_eventHandler (held : Current s) {num : Nat} {entries : List PollFd}
    (here : s.phase = .dispatching num entries) : Current (s.eventHandler num entries) := by
  have waiting : ∀ f ∈ entries,
      s.registry.poll.fdtbs f.fd = none ∨ s.registry.poll.fdtbs f.fd = s.polled f.fd := by
    simpa only [here, Phase.pending] using held.pending
  cases entries with
  | nil => exact ⟨by simp [Reacting.eventHandler, Phase.pending], held.delivered⟩
  | cons f rest =>
    have later : ∀ g ∈ rest,
        s.registry.poll.fdtbs g.fd = none ∨ s.registry.poll.fdtbs g.fd = s.polled g.fd :=
      fun g member => waiting g (List.mem_cons_of_mem f member)
    rw [Reacting.eventHandler]
    split
    · exact ⟨by simp [Phase.pending], held.delivered⟩
    · split
      · rename_i handled called
        refine ⟨later, fun delivery member => ?_⟩
        rcases List.mem_append.mp member with old | new
        · exact held.delivered delivery old
        · obtain rfl := List.mem_singleton.mp new
          have found := dispatch_socket called
          rcases waiting f List.mem_cons_self with lost | same
          · simp [lost] at found
          · exact same.symm.trans found
      · exact ⟨later, held.delivered⟩

theorem current_step {e : Event} (held : Current s) (suited : Suits s e)
    (stepped : step s e = some next) : Current next := by
  cases e with
  | create ref =>
    obtain ⟨-, rfl⟩ := guarded_eq_some.mp stepped
    exact ⟨held.pending, held.delivered⟩
  | close ref =>
    obtain ⟨-, rfl⟩ := guarded_eq_some.mp stepped
    exact ⟨held.pending, held.delivered⟩
  | call call =>
    obtain ⟨-, rfl⟩ := guarded_eq_some.mp stepped
    exact current_call held suited
  | snapshot =>
    obtain ⟨-, rfl⟩ := guarded_eq_some.mp stepped
    exact ⟨fun _ _ => .inr rfl, held.delivered⟩
  | poll revents =>
    rw [step] at stepped
    split at stepped
    · rename_i entries here
      obtain ⟨fits, rfl⟩ := guarded_eq_some.mp stepped
      refine ⟨fun f member => ?_, held.delivered⟩
      have listed : f.fd ∈ entries.map PollFd.fd := answered_fds fits ▸ List.mem_map_of_mem member
      obtain ⟨entry, polled, same⟩ := List.mem_map.mp listed
      simpa only [same] using held.pending entry (by simpa only [here, Phase.pending] using polled)
    · contradiction
  | fail =>
    rw [step] at stepped
    split at stepped
    · obtain rfl := Option.some.inj stepped
      exact ⟨by simp [Phase.pending], held.delivered⟩
    · contradiction
  | dispatch =>
    rw [step] at stepped
    split at stepped
    · rename_i here
      obtain rfl := Option.some.inj stepped
      exact current_eventHandler held here
    · contradiction

/-- An `add` that does not suit leaves an entry recycled. -/
theorem stale_of_not_suits {e : Event} (stepped : step s e = some next) (unsuited : ¬ Suits s e) :
    Stale next := by
  cases e with
  | call call =>
    obtain ⟨-, rfl⟩ := guarded_eq_some.mp stepped
    cases call with
    | add ref =>
      simp only [Suits, Classical.not_imp] at unsuited
      obtain ⟨member, fresh, other⟩ := unsuited
      obtain ⟨f, waiting, named⟩ := List.mem_map.mp member
      have added : (apply s.registry (.add ref)).poll.fdtbs f.fd = some ref := by
        simp only [apply]
        rw [add_fdtbs, named, if_pos ⟨rfl, fresh⟩]
      refine ⟨f, waiting, ?_, ?_⟩
      · rw [Poll.contains, added]
        rfl
      · rw [added, named]
        exact fun same => other same.symm
    | remove ref => exact absurd trivial unsuited
    | update ref => exact absurd trivial unsuited
    | flag ref setter => exact absurd trivial unsuited
  | create | close | snapshot | poll | fail | dispatch => exact absurd trivial unsuited

/-- What is registered under a descriptor stays there until it is removed. -/
theorem apply_contains (r : Registry) {call : Call} {id : Int} (known : r.poll.contains id)
    (spared : ∀ ref, call = .remove ref → id ≠ (r.sockets ref).id) :
    (apply r call).poll.fdtbs id = r.poll.fdtbs id := by
  cases call with
  | add ref =>
    simp only [apply]
    rw [add_fdtbs, if_neg]
    rintro ⟨-, unknown⟩
    rw [known] at unknown
    contradiction
  | remove ref => exact remove_fdtbs_other r.poll (spared ref rfl)
  | update ref => rfl
  | flag ref setter => rfl

/-- The entry that is looked up is delivered to the socket that is registered
now, so it is not a recycled one when all is well; the others stay. -/
theorem stale_eventHandler (stale : Stale s) {num : Nat} {entries : List PollFd}
    (here : s.phase = .dispatching num entries) (looked : LooksUp s .dispatch)
    (delivered : Delivered (s.eventHandler num entries)) : Stale (s.eventHandler num entries) := by
  obtain ⟨f, waiting, recycled⟩ := stale
  rw [here] at waiting
  cases entries with
  | nil => cases waiting
  | cons g rest =>
    simp only [LooksUp, here] at looked
    rw [Reacting.eventHandler] at delivered ⊢
    by_cases exhausted : num = 0
    · exact absurd ⟨f, by rwa [here], recycled⟩ (looked.1 exhausted)
    · rw [if_neg exhausted] at delivered ⊢
      rcases List.mem_cons.mp waiting with rfl | later
      · obtain ⟨handled, called⟩ := Option.isSome_iff_exists.mp (looked.2 recycled)
        simp only [called] at delivered
        have told := delivered ⟨f.fd, s.polled f.fd, handled⟩ (by simp)
        exact absurd ((dispatch_socket called).trans told.symm) recycled.2
      · split
        · exact ⟨f, later, recycled⟩
        · exact ⟨f, later, recycled⟩

/-- A recycled entry stays while it is not looked up. -/
theorem stale_step {e : Event} (stale : Stale s) (looked : LooksUp s e)
    (stepped : step s e = some next) (delivered : Delivered next) : Stale next := by
  cases e with
  | create ref =>
    obtain ⟨-, rfl⟩ := guarded_eq_some.mp stepped
    exact stale
  | close ref =>
    obtain ⟨-, rfl⟩ := guarded_eq_some.mp stepped
    exact stale
  | call call =>
    obtain ⟨-, rfl⟩ := guarded_eq_some.mp stepped
    obtain ⟨f, waiting, recycled⟩ := stale
    have same : (apply s.registry call).poll.fdtbs f.fd = s.registry.poll.fdtbs f.fd := by
      refine apply_contains s.registry recycled.1 fun ref removes named => ?_
      subst removes
      exact looked (List.mem_map.mpr ⟨f, waiting, named⟩) (named ▸ recycled)
    refine ⟨f, waiting, ?_⟩
    simpa only [Recycled, Poll.contains, same] using recycled
  | snapshot =>
    obtain ⟨idle, -⟩ := guarded_eq_some.mp stepped
    obtain ⟨f, waiting, -⟩ := stale
    rw [idle] at waiting
    cases waiting
  | poll revents =>
    rw [step] at stepped
    split at stepped
    · rename_i entries here
      obtain ⟨fits, rfl⟩ := guarded_eq_some.mp stepped
      obtain ⟨f, waiting, recycled⟩ := stale
      rw [here] at waiting
      have member : f.fd ∈ (answered entries revents).map PollFd.fd :=
        answered_fds fits ▸ List.mem_map_of_mem waiting
      obtain ⟨entry, there, named⟩ := List.mem_map.mp member
      exact ⟨entry, there, named ▸ recycled⟩
    · contradiction
  | fail => exact absurd stale looked
  | dispatch =>
    rw [step] at stepped
    split at stepped
    · rename_i here
      obtain rfl := Option.some.inj stepped
      exact stale_eventHandler stale here looked delivered
    · contradiction

/-- In every run whose calls of `add` register no other socket under a
descriptor of the snapshot that is still to be dispatched, every event goes to
the socket that was registered under its descriptor when the snapshot was
taken. Where a recycled entry is looked up, this takes such calls. -/
theorem events_reach_polled_socket {sockets : SocketRef → Socket} {events : List Event}
    {final : Reacting} (ran : run step (start sockets) events = some final) :
    (Meets step Suits (start sockets) events →
      Throughout step Delivered (start sockets) events) ∧
    (Meets step LooksUp (start sockets) events → final.phase = .idle →
      Throughout step Delivered (start sockets) events →
      Meets step Suits (start sockets) events) := by
  constructor
  · intro met
    have kept : ∀ s e next, Current s → Suits s e → step s e = some next → Current next :=
      fun s e next held suited stepped => current_step held suited stepped
    exact (throughout_of_run kept (current_start sockets) ran met).mono fun s held => held.delivered
  · intro looked idle delivered
    have clear : ¬ Stale final := by
      rintro ⟨f, waiting, -⟩
      rw [idle] at waiting
      cases waiting
    have any : ∀ s e next, True → step s e = some next → True := fun _ _ _ _ _ => trivial
    refine meets_of_left any ?_ ?_ trivial ran looked delivered clear
    · intro s e next _ stepped unsuited _
      exact stale_of_not_suits stepped unsuited
    · intro s e next _ stale looked stepped delivered
      exact stale_step stale looked stepped delivered

/-- Between two rounds descriptor 5 passes from one socket to another, and in
the second one a socket is removed and registered again. -/
def recycling : List Event :=
  [.create 0, .call (.add 0), .snapshot, .poll [POLLIN], .dispatch, .dispatch,
    .call (.remove 0), .close 0, .create 1, .call (.add 1), .snapshot, .poll [POLLIN],
    .call (.remove 1), .call (.add 1), .dispatch, .dispatch]

theorem events_reach_polled_socket_recycling :
    let sockets : SocketRef → Socket := fun _ => { id := 5, model := .normal, readenable := true }
    Throughout step Delivered (start sockets) recycling ∧
      Meets step Suits (start sockets) recycling := by
  intro sockets
  obtain ⟨final, ran, idle⟩ := Option.map_eq_some_iff.mp
    (show (run step (start sockets) recycling).map Reacting.phase = some .idle by decide)
  have delivered := (events_reach_polled_socket ran).1 (by decide)
  exact ⟨delivered, (events_reach_polled_socket ran).2 (by decide) idle delivered⟩

/-- While the event of socket 0 is on its way, descriptor 5 passes to socket 1. -/
theorem event_reaches_new_socket :
    let sockets : SocketRef → Socket := fun _ => { id := 5, model := .normal, readenable := true }
    let events : List Event := [.create 0, .call (.add 0), .snapshot, .poll [POLLIN],
      .call (.remove 0), .close 0, .create 1, .call (.add 1), .dispatch]
    (run step (start sockets) events).map Reacting.deliveries =
        some [⟨5, some 0, ⟨1, true, false, false⟩⟩] ∧
      ¬ Throughout step Delivered (start sockets) events := by
  refine ⟨by decide, fun held => ?_⟩
  obtain ⟨s, ran, delivered⟩ := held.final
  obtain rfl : _ = s := Option.some.inj ran
  exact absurd (delivered _ (List.mem_singleton.mpr rfl)) (by decide)

end ExNetlink.PollDispatch
