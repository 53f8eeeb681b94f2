import ExNetlink.Reactor
import ExNetlink.Runs

/-! The reactor's registry over whole runs.

`fds_`, `fdtbs_` and the sockets' own flags have to agree after any order of
registration, flag change and removal. They do exactly as long as no shared
listener is added while its descriptor is registered, which pushes a second
entry, and no socket object writes its flags over the entry of another object
with the same descriptor and other flags. -/
namespace ExNetlink.PollRegistry
open Reactor Runs

/-- The socket objects and the reactor. -/
structure Registry where
  sockets : SocketRef → Socket
  poll : Poll

/-- A call on the reactor, or a flag setter of a socket. -/
inductive Call where
  | add (ref : SocketRef)
  | remove (ref : SocketRef)
  | update (ref : SocketRef)
  | flag (ref : SocketRef) (setter : Setter)
  deriving DecidableEq, Repr

/-- The state after a call. `shared_from_this()` yields the owning pointer. -/
def apply (r : Registry) : Call → Registry
  | .add ref => { r with poll := r.poll.add (r.sockets ref) ref }
  | .remove ref => { r with poll := r.poll.remove (r.sockets ref) }
  | .update ref => { r with poll := r.poll.update (r.sockets ref) }
  | .flag ref setter =>
    let changed := setter.assign (r.sockets ref)
    { sockets := Function.update r.sockets ref changed, poll := r.poll.update changed }

/-- Every call returns. -/
def step (r : Registry) (call : Call) : Option Registry := some (apply r call)

/-- Nothing is registered yet. -/
def empty (sockets : SocketRef → Socket) : Registry where
  sockets := sockets
  poll := { fds := [], fdtbs := fun _ => none }

/-- The two containers and the sockets' flags agree. -/
structure Consistent (r : Registry) : Prop where
  distinct : (r.poll.fds.map PollFd.fd).Nodup
  keys : ∀ id, id ∈ r.poll.fds.map PollFd.fd ↔ (r.poll.fdtbs id).isSome
  named : ∀ id ref, r.poll.fdtbs id = some ref → (r.sockets ref).id = id
  masks : ∀ id ref, r.poll.fdtbs id = some ref →
    ∀ entry ∈ r.poll.fds, entry.fd = id → entry.events = (r.sockets ref).mask

/-- The call does not run into one of the two gaps of the registry. -/
def Suits (r : Registry) : Call → Prop
  | .add ref => (r.sockets ref).model = .listenShared → r.poll.fdtbs (r.sockets ref).id = none
  | .remove _ => True
  | .update ref => ∀ owner, r.poll.fdtbs (r.sockets ref).id = some owner →
    (r.sockets owner).mask = (r.sockets ref).mask
  | .flag ref setter => ∀ owner, r.poll.fdtbs (r.sockets ref).id = some owner → owner ≠ ref →
    (r.sockets owner).mask = (setter.assign (r.sockets ref)).mask

@[simp] theorem assign_id (setter : Setter) (s : Socket) : (setter.assign s).id = s.id := by
  cases setter <;> rfl

/-! ### The first match -/

theorem updateFirst_map (wanted : α → Bool) (change : α → α) (key : α → β)
    (kept : ∀ x, wanted x → key (change x) = key x) (xs : List α) :
    (updateFirst wanted change xs).map key = xs.map key := by
  induction xs with
  | nil => rfl
  | cons x rest ih =>
    rw [updateFirst]
    split
    · rename_i hit
      rw [List.map_cons, List.map_cons, kept x hit]
    · rw [List.map_cons, List.map_cons, ih]

/-- Among entries with distinct keys the first match is the only one. -/
theorem mem_updateFirst {key : α → β} [DecidableEq β] {wanted : α → Bool} {change : α → α}
    {sought : β} (matched : ∀ x, wanted x = true ↔ key x = sought) {xs : List α}
    (distinct : (xs.map key).Nodup) (y : α) :
    y ∈ updateFirst wanted change xs ↔
      (y ∈ xs ∧ key y ≠ sought) ∨ ∃ x ∈ xs, key x = sought ∧ y = change x := by
  induction xs with
  | nil => simp [updateFirst]
  | cons x rest ih =>
    rw [List.map_cons, List.nodup_cons] at distinct
    rw [updateFirst]
    by_cases hit : key x = sought
    · have others : ∀ z ∈ rest, key z ≠ sought := fun z member same =>
        distinct.1 (List.mem_map.mpr ⟨z, member, same.trans hit.symm⟩)
      rw [if_pos ((matched x).mpr hit)]
      constructor
      · intro member
        rcases List.mem_cons.mp member with rfl | later
        · exact .inr ⟨x, List.mem_cons_self, hit, rfl⟩
        · exact .inl ⟨List.mem_cons_of_mem _ later, others y later⟩
      · rintro (⟨member, other⟩ | ⟨z, member, same, rfl⟩)
        · rcases List.mem_cons.mp member with rfl | later
          · exact absurd hit other
          · exact List.mem_cons_of_mem _ later
        · rcases List.mem_cons.mp member with rfl | later
          · exact List.mem_cons_self
          · exact absurd same (others z later)
    · rw [if_neg (fun found => hit ((matched x).mp found)), List.mem_cons, ih distinct.2]
      constructor
      · rintro (rfl | ⟨member, other⟩ | ⟨z, member, same, rfl⟩)
        · exact .inl ⟨List.mem_cons_self, hit⟩
        · exact .inl ⟨List.mem_cons_of_mem _ member, other⟩
        · exact .inr ⟨z, List.mem_cons_of_mem _ member, same, rfl⟩
      · rintro (⟨member, other⟩ | ⟨z, member, same, rfl⟩)
        · rcases List.mem_cons.mp member with rfl | later
          · exact .inl rfl
          · exact .inr (.inl ⟨later, other⟩)
        · rcases List.mem_cons.mp member with rfl | later
          · exact absurd same hit
          · exact .inr (.inr ⟨z, later, same, rfl⟩)

theorem updateFirst_absent {wanted : α → Bool} {change : α → α} {xs : List α}
    (absent : ∀ x ∈ xs, wanted x = false) : updateFirst wanted change xs = xs := by
  induction xs with
  | nil => rfl
  | cons x rest ih =>
    rw [updateFirst, absent x List.mem_cons_self, ih fun y member =>
      absent y (List.mem_cons_of_mem _ member)]
    rfl

/-! ### One call -/

variable {r next : Registry} {ref : SocketRef} {setter : Setter}

private theorem unregistered (held : Consistent r) {id : Int} (absent : r.poll.fdtbs id = none) :
    ∀ entry ∈ r.poll.fds, entry.fd ≠ id := by
  intro entry member same
  have known := (held.keys id).mp (List.mem_map.mpr ⟨entry, member, same⟩)
  simp [absent] at known

/-- A descriptor in neither container gets one entry and one key. -/
theorem add_absent {poll : Poll} {socket : Socket} (owner : SocketRef)
    (absent : poll.fdtbs socket.id = none) (fresh : ∀ entry ∈ poll.fds, entry.fd ≠ socket.id) :
    poll.add socket owner = {
      fds := poll.fds ++ [{ fd := socket.id, events := socket.mask }]
      fdtbs := Function.update poll.fdtbs socket.id (some owner) } := by
  have unknown : poll.contains socket.id = false := by simp [Poll.contains, absent]
  have unmatched : ∀ entry ∈ poll.fds, (entry.fd == socket.id) = false := by
    intro entry member
    simpa using fresh entry member
  simp only [Poll.add, unknown, updateFirst_absent unmatched]
  cases socket.model <;> rfl

theorem add_unregistered (held : Consistent r) (absent : r.poll.fdtbs (r.sockets ref).id = none) :
    r.poll.add (r.sockets ref) ref = {
      fds := r.poll.fds ++ [{ fd := (r.sockets ref).id, events := (r.sockets ref).mask }]
      fdtbs := Function.update r.poll.fdtbs (r.sockets ref).id (some ref) } :=
  add_absent ref absent (unregistered held absent)

/-- A registered descriptor is left alone, unless the socket is a shared
listener: then a second entry is pushed. -/
theorem add_registered (poll : Poll) (socket : Socket) (owner : SocketRef)
    (known : (poll.fdtbs socket.id).isSome) :
    (socket.model ≠ .listenShared → poll.add socket owner = poll) ∧
    (socket.model = .listenShared →
      (poll.add socket owner).fds.map PollFd.fd = poll.fds.map PollFd.fd ++ [socket.id]) := by
  have contained : poll.contains socket.id = true := known
  constructor
  · intro unshared
    simp only [Poll.add, contained]
    cases shape : socket.model with
    | listenShared => exact absurd shape unshared
    | listenExcluse => rfl
    | normal => rfl
  · intro shared
    simp only [Poll.add, contained, shared, Bool.false_eq_true, if_false, List.map_append,
      List.map_cons, List.map_nil]
    rw [updateFirst_map]
    intro entry hit
    exact (beq_iff_eq.mp hit).symm

theorem add_consistent (held : Consistent r)
    (absent : r.poll.fdtbs (r.sockets ref).id = none) :
    Consistent { r with poll := r.poll.add (r.sockets ref) ref } := by
  have fresh := unregistered held absent
  rw [add_unregistered held absent]
  constructor
  · rw [List.map_append, List.nodup_append]
    refine ⟨held.distinct, by simp, ?_⟩
    intro id member other single
    obtain ⟨entry, here, rfl⟩ := List.mem_map.mp member
    rw [List.mem_singleton.mp single]
    exact fresh entry here
  · intro id
    simp only [List.map_append, List.mem_append, held.keys id, List.map_cons, List.map_nil,
      List.mem_singleton]
    by_cases same : id = (r.sockets ref).id
    · simp [same]
    · rw [Function.update_of_ne same]
      simp [same]
  · intro id owner registered
    dsimp only at registered ⊢
    by_cases same : id = (r.sockets ref).id
    · rw [same, Function.update_self] at registered
      rw [← Option.some.inj registered, same]
    · rw [Function.update_of_ne same] at registered
      exact held.named id owner registered
  · intro id owner registered entry member named
    dsimp only at registered member ⊢
    rcases List.mem_append.mp member with old | new
    · have other : id ≠ (r.sockets ref).id := named ▸ fresh entry old
      rw [Function.update_of_ne other] at registered
      exact held.masks id owner registered entry old named
    · rw [List.mem_singleton] at new
      subst new
      dsimp only at named
      rw [← named, Function.update_self] at registered
      rw [← Option.some.inj registered]

theorem remove_fds (poll : Poll) (socket : Socket) (known : (poll.fdtbs socket.id).isSome) :
    poll.remove socket = {
      fds := poll.fds.filter fun entry => !(socket.id == entry.fd)
      fdtbs := Function.update poll.fdtbs socket.id none } := by
  have contained : poll.contains socket.id = true := known
  simp only [Poll.remove, contained, if_true]
  congr 1
  split
  · rfl
  · rename_i none
    have whole : (poll.fds.filter fun entry => !(socket.id == entry.fd)).length =
        poll.fds.length := by omega
    exact (List.filter_sublist.eq_of_length whole).symm

theorem remove_unknown {poll : Poll} {socket : Socket} (absent : poll.fdtbs socket.id = none) :
    poll.remove socket = poll := by
  have unknown : poll.contains socket.id = false := by simp [Poll.contains, absent]
  simp [Poll.remove, unknown]

/-- Removing what was added to a reactor that did not know the descriptor. -/
theorem remove_add {poll : Poll} {socket : Socket} (owner : SocketRef)
    (absent : poll.fdtbs socket.id = none) (fresh : ∀ entry ∈ poll.fds, entry.fd ≠ socket.id) :
    (poll.add socket owner).remove socket = poll := by
  have kept : poll.fds.filter (fun entry => !(socket.id == entry.fd)) = poll.fds := by
    rw [List.filter_eq_self]
    intro entry member
    simpa using Ne.symm (fresh entry member)
  rw [add_absent owner absent fresh, remove_fds _ _ (by simp), List.filter_append, kept,
    Function.update_idem, ← absent, Function.update_eq_self]
  simp

/-- What is left of a reactor without one of its sockets. -/
structure Erased (before after : Poll) (id : Int) : Prop where
  gone : ∀ entry ∈ after.fds, entry.fd ≠ id
  others : after.fds = before.fds.filter fun entry => entry.fd != id
  unmapped : after.fdtbs id = none
  mapped : ∀ other, other ≠ id → after.fdtbs other = before.fdtbs other

theorem remove_erased {poll : Poll} {socket : Socket} (known : (poll.fdtbs socket.id).isSome) :
    Erased poll (poll.remove socket) socket.id := by
  have same : (fun entry : PollFd => !(socket.id == entry.fd)) = fun entry => entry.fd != socket.id := by
    funext entry
    rw [bne, BEq.comm]
  rw [remove_fds poll socket known, same]
  constructor
  · intro entry member
    simpa using (List.mem_filter.mp member).2
  · rfl
  · exact Function.update_self ..
  · intro other different
    exact Function.update_of_ne different ..

/-- In every state of the two containers, removing a socket whose descriptor
is a key takes out its key and all its entries and nothing else; removing any
other socket changes nothing; and removing undoes a first registration. -/
theorem remove_erases_socket (poll : Poll) (socket : Socket) :
    ((poll.fdtbs socket.id).isSome → Erased poll (poll.remove socket) socket.id) ∧
    (poll.fdtbs socket.id = none → poll.remove socket = poll) ∧
    (socket.model = .normal ∨ socket.model = .listenExcluse → poll.fdtbs socket.id = none →
      (∀ entry ∈ poll.fds, entry.fd ≠ socket.id) →
      ∀ owner, (poll.add socket owner).remove socket = poll) :=
  ⟨remove_erased, remove_unknown, fun _ absent fresh owner => remove_add owner absent fresh⟩

/-- Entries of one descriptor at the front, in the middle and at the end. -/
theorem remove_erases_repeated :
    let poll : Poll := {
      fds := [⟨5, POLLIN, 0⟩, ⟨6, POLLOUT, 0⟩, ⟨5, 0, 0⟩, ⟨7, POLLERR, 0⟩, ⟨5, POLLIN, 0⟩]
      fdtbs := fun id => if id = 5 then some 0 else none }
    (poll.remove { id := 5, model := .normal }).fds = [⟨6, POLLOUT, 0⟩, ⟨7, POLLERR, 0⟩] :=
  ((remove_erases_socket _ _).1 rfl).others

theorem remove_consistent (held : Consistent r) (ref : SocketRef) :
    Consistent { r with poll := r.poll.remove (r.sockets ref) } := by
  cases known : r.poll.fdtbs (r.sockets ref).id with
  | none =>
    rw [remove_unknown known]
    exact held
  | some registered =>
    rw [remove_fds _ _ (by simp [known])]
    have remaining : ∀ entry, entry ∈ r.poll.fds.filter
        (fun entry => !((r.sockets ref).id == entry.fd)) ↔
          entry ∈ r.poll.fds ∧ entry.fd ≠ (r.sockets ref).id := by
      intro entry
      rw [List.mem_filter, Bool.not_eq_true', beq_eq_false_iff_ne]
      exact and_congr_right fun _ => ne_comm
    constructor
    · exact held.distinct.sublist (List.filter_sublist.map _)
    · intro id
      simp only [List.mem_map, remaining]
      by_cases same : id = (r.sockets ref).id
      · simp only [same, Function.update_self, Option.isSome_none, Bool.false_eq_true, iff_false]
        rintro ⟨entry, ⟨-, other⟩, equal⟩
        exact other equal
      · rw [Function.update_of_ne same, ← held.keys id, List.mem_map]
        constructor
        · rintro ⟨entry, ⟨member, -⟩, equal⟩
          exact ⟨entry, member, equal⟩
        · rintro ⟨entry, member, rfl⟩
          exact ⟨entry, ⟨member, same⟩, rfl⟩
    · intro id owner still
      dsimp only at still ⊢
      by_cases same : id = (r.sockets ref).id
      · rw [same, Function.update_self] at still
        cases still
      · rw [Function.update_of_ne same] at still
        exact held.named id owner still
    · intro id owner still entry member named
      dsimp only at still member ⊢
      obtain ⟨old, other⟩ := (remaining entry).mp member
      rw [Function.update_of_ne (named ▸ other)] at still
      exact held.masks id owner still entry old named

theorem update_fds_map (poll : Poll) (socket : Socket) :
    (poll.update socket).fds.map PollFd.fd = poll.fds.map PollFd.fd := by
  apply updateFirst_map
  intro entry _
  rfl

theorem mem_update_fds (held : Consistent r) (socket : Socket) (entry : PollFd) :
    entry ∈ (r.poll.update socket).fds ↔ (entry ∈ r.poll.fds ∧ entry.fd ≠ socket.id) ∨
      ∃ old ∈ r.poll.fds, old.fd = socket.id ∧ entry = { old with events := socket.mask } :=
  mem_updateFirst (fun _ => beq_iff_eq.trans eq_comm) held.distinct entry

/-- Refreshing an entry from a socket's flags, where those sockets are `after`:
consistent exactly when the registered socket has these flags. -/
private theorem refresh_consistent (held : Consistent r) (socket : Socket)
    (after : SocketRef → Socket) (named : ∀ ref, (after ref).id = (r.sockets ref).id)
    (others : ∀ ref, (r.sockets ref).id ≠ socket.id → after ref = r.sockets ref) :
    Consistent { sockets := after, poll := r.poll.update socket } ↔
      ∀ owner, r.poll.fdtbs socket.id = some owner → (after owner).mask = socket.mask := by
  constructor
  · intro kept owner registered
    obtain ⟨old, member, same⟩ := List.mem_map.mp
      ((held.keys socket.id).mpr (by simp [registered]))
    have fresh := (mem_update_fds held socket _).mpr (.inr ⟨old, member, same, rfl⟩)
    exact (kept.masks socket.id owner registered _ fresh same).symm
  · intro agree
    constructor
    · exact (update_fds_map r.poll socket).symm ▸ held.distinct
    · intro id
      dsimp only
      rw [update_fds_map]
      exact held.keys id
    · intro id owner registered
      exact (named owner).trans (held.named id owner registered)
    · intro id owner registered entry member here
      dsimp only at registered member ⊢
      rcases (mem_update_fds held socket entry).mp member with ⟨old, other⟩ | ⟨old, -, same, rfl⟩
      · have elsewhere : (r.sockets owner).id ≠ socket.id := by
          rw [held.named id owner registered, ← here]
          exact other
        rw [others owner elsewhere]
        exact held.masks id owner registered entry old here
      · dsimp only at here ⊢
        rw [← here, same] at registered
        exact (agree owner registered).symm

theorem add_consistent_iff (held : Consistent r) (ref : SocketRef) :
    Consistent (apply r (.add ref)) ↔ Suits r (.add ref) := by
  cases known : r.poll.fdtbs (r.sockets ref).id with
  | none => exact iff_of_true (add_consistent held known) fun _ => known
  | some owner =>
    obtain ⟨unshared, pushed⟩ := add_registered r.poll (r.sockets ref) ref (by simp [known])
    constructor
    · intro kept shared
      have distinct := kept.distinct
      dsimp only [apply] at distinct
      rw [pushed shared, List.nodup_append] at distinct
      have member := (held.keys (r.sockets ref).id).mpr (by simp [known])
      exact absurd rfl (distinct.2.2 _ member _ (List.mem_singleton.mpr rfl))
    · intro suited
      have other : (r.sockets ref).model ≠ .listenShared := by
        intro shared
        rw [suited shared] at known
        cases known
      rw [apply, unshared other]
      exact held

theorem flag_consistent_iff (held : Consistent r) (ref : SocketRef) (setter : Setter) :
    Consistent (apply r (.flag ref setter)) ↔ Suits r (.flag ref setter) := by
  have named : ∀ other, (Function.update r.sockets ref (setter.assign (r.sockets ref)) other).id =
      (r.sockets other).id := by
    intro other
    by_cases same : other = ref
    · rw [same, Function.update_self, assign_id]
    · rw [Function.update_of_ne same]
  have others : ∀ other, (r.sockets other).id ≠ (setter.assign (r.sockets ref)).id →
      Function.update r.sockets ref (setter.assign (r.sockets ref)) other = r.sockets other := by
    intro other elsewhere
    rw [assign_id] at elsewhere
    exact Function.update_of_ne (fun same => elsewhere (by rw [same])) _ _
  refine (refresh_consistent held _ _ named others).trans ?_
  rw [assign_id]
  refine forall_congr' fun owner => imp_congr_right fun _ => ?_
  by_cases same : owner = ref
  · simp [same]
  · simp [same]

/-- One call keeps the registry consistent exactly when it suits it. -/
theorem apply_consistent_iff (held : Consistent r) (call : Call) :
    Consistent (apply r call) ↔ Suits r call := by
  cases call with
  | add ref => exact add_consistent_iff held ref
  | remove ref => exact iff_of_true (remove_consistent held ref) trivial
  | update ref => exact refresh_consistent held _ r.sockets (fun _ => rfl) (fun _ _ => rfl)
  | flag ref setter => exact flag_consistent_iff held ref setter

theorem empty_consistent (sockets : SocketRef → Socket) : Consistent (empty sockets) where
  distinct := List.nodup_nil
  keys := by simp [empty]
  named := by simp [empty]
  masks := by simp [empty]

/-- The registry is consistent in every state of a run exactly when no call of
the run adds a registered shared listener or refreshes an entry from another
socket object with other flags. -/
theorem registry_consistent_iff (sockets : SocketRef → Socket) (calls : List Call) :
    Throughout step Consistent (empty sockets) calls ↔
      Meets step Suits (empty sockets) calls := by
  refine throughout_iff_meets ?_ ?_ (fun _ held => held) calls (empty_consistent sockets)
  · intro r call held suited
    exact ⟨_, rfl, (apply_consistent_iff held call).mpr suited⟩
  · rintro r call next held stepped kept
    cases stepped
    exact (apply_consistent_iff held call).mp kept

/-- A shared listener whose `registor()` is called twice has two entries. -/
theorem shared_listener_twice :
    let listener : Socket := { id := 5, model := .listenShared, readenable := true }
    (run step (empty fun _ => listener) [.add 0, .add 0]).map (fun r => r.poll.fds.map PollFd.fd) =
        some [5, 5] ∧
      ¬ Throughout step Consistent (empty fun _ => listener) [.add 0, .add 0] := by
  refine ⟨by decide, fun held => ?_⟩
  obtain ⟨r, ran, kept⟩ := held.final
  have entries : (run step (empty fun _ => { id := 5, model := .listenShared, readenable := true })
      [.add 0, .add 0]).map (fun r => r.poll.fds.map PollFd.fd) = some [5, 5] := by decide
  rw [ran] at entries
  have twice : r.poll.fds.map PollFd.fd = [5, 5] := Option.some.inj entries
  have distinct := kept.distinct
  rw [twice] at distinct
  exact absurd distinct (by decide)

end ExNetlink.PollRegistry
