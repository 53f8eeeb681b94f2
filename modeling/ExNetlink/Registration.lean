import ExNetlink.PollRegistry

/-! Registration with the reactor, owners included: `Socket::registor`,
`Poll::add` and `Accept::build`.

`PollRegistry` takes the owning pointer of a socket as given. Here it is what
`std::enable_shared_from_this` makes of it: an object remembers the pointer
that owns it, a copy of the object has no owner, and `shared_from_this()` on an
object without one throws `std::bad_weak_ptr`. `Poll::add` binds the result of
its `dynamic_cast` with a plain `auto`, so the object it asks for its owner is
a copy of the socket, whoever owns the socket itself. -/
namespace ExNetlink.Registration
open Reactor PollRegistry Runs

/-- `std::bad_weak_ptr`. -/
inductive Thrown where
  | badWeakPtr
  deriving DecidableEq, Repr

/-- How the program holds a socket object. -/
inductive Held where
  /-- A `Connector` of `std::make_shared`. -/
  | sharedPtr
  /-- The `Accept` that is a member of `RttServer`. -/
  | member
  deriving DecidableEq, Repr

/-- A socket object. `weakThis` is the object that the `std::shared_ptr` which
owns it points to, recorded by `std::enable_shared_from_this`. -/
structure Object where
  socket : Socket
  weakThis : Option SocketRef
  deriving DecidableEq, Repr

/-- The object `ref` as the program builds and holds it. -/
def Object.build (ref : SocketRef) (socket : Socket) : Held → Object
  | .sharedPtr => { socket := socket, weakThis := some ref }
  | .member => { socket := socket, weakThis := none }

/-- The copy constructor, which copies no owner. -/
def Object.copy (object : Object) : Object := { object with weakThis := none }

def Object.sharedFromThis (object : Object) : Except Thrown SocketRef :=
  match object.weakThis with
  | some owner => .ok owner
  | none => .error .badWeakPtr

/-- The socket objects, the reactor, and whether it still lives. -/
structure World where
  objects : SocketRef → Object
  alive : Bool
  poll : Poll

/-- `Poll::add`. The pair to insert is built, and `shared_from_this()` called,
before anything is inserted; past that call it is `Reactor.Poll.add`. -/
def add (poll : Poll) (unique : Object) : Except Thrown Poll :=
  let socket := unique.copy
  let known := match socket.socket.model with
    | .listenShared => false
    | .listenExcluse | .normal => poll.contains unique.socket.id
  if known then .ok poll
  else do
    let owner ← socket.sharedFromThis
    .ok (poll.add socket.socket owner)

/-- `Socket::registor`. -/
def registor (w : World) (ref : SocketRef) : Except Thrown (Bool × World) :=
  if w.alive then do
    let poll ← add w.poll (w.objects ref)
    .ok (true, { w with poll := poll })
  else .ok (false, w)

/-- A flag setter of a socket, which also updates its reactor. -/
def flag (w : World) (ref : SocketRef) (setter : Setter) : World :=
  let changed := setter.assign (w.objects ref).socket
  { w with
    objects := Function.update w.objects ref { w.objects ref with socket := changed }
    poll := if w.alive then w.poll.update changed else w.poll }

/-- `Accept::build`: the error of the address conversion or of `bind`, if one
of them has one; `listen` and `registor` are not asked how they fared. -/
def build (w : World) (ref : SocketRef) (inetNetPton bind : Option Int) :
    Except Thrown (Option Int × World) :=
  match inetNetPton with
  | some errno => .ok (some errno, w)
  | none =>
    match bind with
    | some errno => .ok (some errno, w)
    | none => do
      let (_, w) ← registor w ref
      .ok (none, flag w ref .readdisable)

/-- What `registor` is for: the reactor polls the socket's descriptor and looks
its events up in the very object that was registered. -/
def Registers (w : World) (ref : SocketRef) : Prop :=
  ∃ next, registor w ref = .ok (true, next) ∧
    (∃ entry ∈ next.poll.fds, entry.fd = (w.objects ref).socket.id) ∧
    next.poll.fdtbs (w.objects ref).socket.id = some ref

variable {w next : World} {ref : SocketRef}

/-- A descriptor that is not registered gets past the early return, whatever
the model of its socket. -/
theorem add_throws {poll : Poll} {unique : Object} (unknown : poll.fdtbs unique.socket.id = none) :
    add poll unique = .error .badWeakPtr := by
  have absent : poll.contains unique.socket.id = false := by simp [Poll.contains, unknown]
  rw [add]
  cases model : unique.copy.socket.model with
  | listenShared => rfl
  | listenExcluse =>
    dsimp only
    rw [absent]
    rfl
  | normal =>
    dsimp only
    rw [absent]
    rfl

theorem registor_throws (live : w.alive = true)
    (unknown : w.poll.fdtbs (w.objects ref).socket.id = none) :
    registor w ref = .error .badWeakPtr := by
  rw [registor, if_pos live, add_throws unknown]
  rfl

theorem not_registers (thrown : registor w ref = .error .badWeakPtr) : ¬ Registers w ref := by
  rintro ⟨next, registered, -⟩
  rw [thrown] at registered
  contradiction

/-- No socket is registered: with a live reactor `registor` throws for every
socket whose descriptor is not known, whatever owns the socket. -/
theorem registration_throws (live : w.alive = true)
    (unknown : w.poll.fdtbs (w.objects ref).socket.id = none) :
    registor w ref = .error .badWeakPtr ∧ ¬ Registers w ref := by
  have thrown := registor_throws live unknown
  exact ⟨thrown, not_registers thrown⟩

/-- A new reactor and one socket on descriptor 5, held either way. -/
def single (held : Held) (model : SocketModel) : World where
  objects := fun ref => .build ref { id := 5, model := model } held
  alive := true
  poll := { fds := [], fdtbs := fun _ => none }

theorem registration_throws_connector :
    registor (single .sharedPtr .normal) 0 = .error .badWeakPtr ∧
      ¬ Registers (single .sharedPtr .normal) 0 :=
  registration_throws rfl rfl

/-- Neither a `Connector` that a `std::shared_ptr` owns nor the listening
socket of the server is registered. -/
theorem socket_not_registered :
    ¬ Registers (single .sharedPtr .normal) 0 ∧ ¬ Registers (single .member .listenShared) 0 :=
  ⟨not_registers rfl, not_registers rfl⟩

/-- The server does not get past `Accept::build` once its address is bound. -/
theorem build_throws (live : w.alive = true)
    (unknown : w.poll.fdtbs (w.objects ref).socket.id = none) :
    build w ref none none = .error .badWeakPtr := by
  rw [build, registor_throws live unknown]
  rfl

/-! ### Whole runs

Whatever the callers do with the exception, nothing is ever registered. -/

inductive Event where
  /-- A socket object is built. -/
  | construct (ref : SocketRef) (socket : Socket) (held : Held)
  | registor (ref : SocketRef)
  | remove (ref : SocketRef)
  | flag (ref : SocketRef) (setter : Setter)
  /-- The last pointer to the reactor goes. -/
  | release
  deriving DecidableEq, Repr

/-- An exception leaves the state as it was when it was thrown. -/
def step (w : World) : Event → Option World
  | .construct ref socket held =>
    some { w with objects := Function.update w.objects ref (.build ref socket held) }
  | .registor ref =>
    match registor w ref with
    | .ok (_, next) => some next
    | .error _ => some w
  | .remove ref =>
    some (if w.alive then { w with poll := w.poll.remove (w.objects ref).socket } else w)
  | .flag ref setter => some (flag w ref setter)
  | .release => some { w with alive := false }

/-- The reactor polls nothing. -/
def Idle (w : World) : Prop := w.poll.fds = [] ∧ ∀ id, w.poll.fdtbs id = none

theorem idle_registor (idle : Idle w) (ref : SocketRef) :
    registor w ref = .error .badWeakPtr ∨ registor w ref = .ok (false, w) := by
  by_cases live : w.alive = true
  · exact .inl (registor_throws live (idle.2 _))
  · exact .inr (if_neg live)

theorem idle_step {event : Event} (idle : Idle w) : ∃ next, step w event = some next ∧ Idle next := by
  cases event with
  | construct ref socket held => exact ⟨_, rfl, idle⟩
  | registor ref =>
    refine ⟨w, ?_, idle⟩
    rcases idle_registor idle ref with thrown | dead
    · simp only [step, thrown]
    · simp only [step, dead]
  | remove ref =>
    refine ⟨_, rfl, ?_⟩
    rw [remove_unknown (idle.2 _)]
    split <;> exact idle
  | flag ref setter =>
    obtain ⟨empty, unknown⟩ := idle
    refine ⟨_, rfl, ?_⟩
    simp only [Idle, flag, Poll.update, empty, updateFirst]
    split
    · exact ⟨rfl, unknown⟩
    · exact ⟨empty, unknown⟩
  | release => exact ⟨_, rfl, idle⟩

/-- A reactor that starts out empty stays so in every run of constructions,
registrations, removals and flag changes. -/
theorem nothing_registered (idle : Idle w) (events : List Event) : Throughout step Idle w events :=
  throughout_of_total (fun _ _ held => idle_step held) events idle

end ExNetlink.Registration
