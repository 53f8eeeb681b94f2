import ExNetlink.RttOutbound
import ExNetlink.Runs
import Mathlib.Data.List.Perm.Basic

/-! The connection table of `RttServer`: `fds` and `translations_`.

`onNewConnect` fills a slot of `fds`, a disposed one first, and `dispose` frees
it again, up to twice for one slot. `startDomain` takes a descriptor out of its
slot and looks it up with `translations_[connected_fd]`, which would insert an
empty pointer for an unknown one. Here the two containers are shown to hold the
same descriptors throughout, so every lookup hits. -/
namespace ExNetlink.RttTable
open SizeArith Reactor RttServer RttOutbound Runs

/-- `Connector`, as far as `getData` goes: nothing, or a `Translation`. -/
structure Connector where
  data : Option Translation
  deriving DecidableEq, Repr

/-- `fds` and `translations_`. The pointer under a key may be empty. -/
structure Table where
  fds : List PollFd
  translations : Int → Option (Option Connector)

/-- How a branch of the slot loop ends. -/
inductive Flow where
  /-- On to the next branch. -/
  | proceed
  /-- `continue`, or the end of the body. -/
  | next
  /-- `startDomain` returns, or throws what `getData` throws. -/
  | leave
  /-- An empty pointer is dereferenced. -/
  | crash
  deriving DecidableEq, Repr

/-- What the system answers while one slot is handled. -/
structure SlotIo where
  readable : Readable
  writable : SocketWrite
  /-- The pending error that `getsockopt` reports. -/
  error : Int

def EINTR : Int := 4

/-- The descriptors of the slots in use. -/
def inUse (fds : List PollFd) : List Int := (fds.map PollFd.fd).filter (· ≠ -1)

namespace Table

def live (t : Table) : List Int := inUse t.fds

/-- `onNewConnect`. -/
def onNewConnect (t : Table) (connectedFd : Int) : Table where
  fds := match t.fds.findIdx? (fun pfd => pfd.fd == -1) with
    | some i => t.fds.modify i fun pfd => { pfd with fd := connectedFd, events := POLLIN ||| POLLERR }
    | none => t.fds ++ [{ fd := connectedFd, events := POLLIN ||| POLLERR, revents := 0 }]
  translations := Function.update t.translations connectedFd (some (some { data := none }))

/-- `dispose(i)`. -/
def dispose (t : Table) (i : Nat) : Table :=
  match t.fds[i]? with
  | some pfd => {
      fds := t.fds.modify i fun pfd => { pfd with events := 0, fd := -1 }
      translations := Function.update t.translations pfd.fd none }
  | none => t

/-- `translations_[fd]`: a missing key is inserted with an empty pointer. -/
def lookup (t : Table) (fd : Int) : Table × Option Connector :=
  match t.translations fd with
  | some connector => (t, connector)
  | none => ({ t with translations := Function.update t.translations fd (some none) }, none)

/-- `translations_[fd]->getData<Translation>()`. -/
def getData (t : Table) (fd : Int) : Table × Except Flow Translation :=
  match t.lookup fd with
  | (t, none) => (t, .error .crash)
  | (t, some { data := none }) => (t, .error .leave)
  | (t, some { data := some translation }) => (t, .ok translation)

/-- `setData` on the connector of a descriptor. -/
def setData (t : Table) (fd : Int) (translation : Translation) : Table :=
  { t with translations := Function.update t.translations fd (some (some { data := some translation })) }

/-- Slot `i` and its `Translation` as one connection. -/
def connection (t : Table) (i : Nat) (translation : Translation) : Connection where
  translation := translation
  events := (t.fds[i]?.map PollFd.events).getD 0

/-- The slot and the `Translation` as a branch leaves them. -/
def store (t : Table) (i : Nat) (fd : Int) (c : Connection) : Table :=
  if c.disposed then t.dispose i
  else { t.setData fd c.translation with
    fds := t.fds.modify i fun pfd => { pfd with events := c.events } }

/-- The POLLIN branch. The lookup comes after the test of what `read` gave. -/
def pollin (t : Table) (i : Nat) (connectedFd : Int) (io : Readable) : Option (Table × Flow) :=
  if io.rs ≤ 0 ∧ io.rs ≠ EAGAIN then some (t.dispose i, .next)
  else match t.getData connectedFd with
    | (t, .error flow) => some (t, flow)
    | (t, .ok translation) => do
      let (c, answer) ← RttServer.pollin (t.connection i translation) io
      some (t.store i connectedFd c, if answer.isSome then .proceed else .next)

/-- The POLLOUT branch. -/
def pollout (t : Table) (i : Nat) (connectedFd : Int) (socket : SocketWrite) :
    Option (Table × Flow) :=
  match t.getData connectedFd with
  | (t, .error flow) => some (t, flow)
  | (t, .ok translation) => do
    let c ← RttServer.pollout (t.connection i translation) socket
    some (t.store i connectedFd c, .proceed)

/-- The POLLERR branch. -/
def pollerr (t : Table) (i : Nat) (error : Int) : Table × Flow :=
  if error = EINTR then (t, .next) else (t.dispose i, .leave)

/-- The body of the slot loop for a slot with an event. `dispose` leaves
`revents` as it was, so each branch tests the same bits. -/
def handleSlot (t : Table) (i : Nat) (pfd : PollFd) (io : SlotIo) : Option (Table × Flow) :=
  let read := if pfd.revents &&& POLLIN ≠ 0 then t.pollin i pfd.fd io.readable else some (t, .proceed)
  read.bind fun (t, flow) =>
    if flow ≠ .proceed then some (t, flow)
    else
      let written :=
        if pfd.revents &&& POLLOUT ≠ 0 then t.pollout i pfd.fd io.writable else some (t, .proceed)
      written.bind fun (t, flow) =>
        if flow ≠ .proceed then some (t, flow)
        else some (if pfd.revents &&& POLLERR ≠ 0 then t.pollerr i io.error else (t, .next))

end Table

/-- Where `startDomain` is. -/
inductive Place where
  /-- Between two iterations, or not running. -/
  | outside
  /-- Before slot `i` of the slot loop, with what is left of `fd_size`. -/
  | slot (i : Nat) (fdSize : Int)
  | crashed
  deriving DecidableEq, Repr

structure Server where
  table : Table
  place : Place

inductive Event where
  /-- `onNewConnect`. -/
  | connect (fd : Int)
  /-- `setData` on the connector of a live descriptor. -/
  | attach (fd : Int) (translation : Translation)
  /-- `revents` of the slots, before an iteration. -/
  | poll (revents : Nat → BitVec 16)
  /-- An iteration begins; `accepted` is the new descriptor, if `accept` gives one. -/
  | iterate (accepted : Option Int)
  /-- The next round of the slot loop. -/
  | slot (io : SlotIo)

/-- A descriptor that `accept` may return. -/
def Fresh (t : Table) (fd : Int) : Prop := 0 ≤ fd ∧ fd ∉ t.live

instance (t : Table) (fd : Int) : Decidable (Fresh t fd) :=
  inferInstanceAs (Decidable (0 ≤ fd ∧ fd ∉ t.live))

/-- The head of an iteration. `fds[0]` is read first of all. -/
def iterate (t : Table) (accepted : Option Int) : Option Server :=
  match t.fds[0]? with
  | none => none
  | some pfd =>
    if pfd.revents &&& POLLIN ≠ 0 then
      match accepted with
      | none => some ⟨t, .outside⟩
      | some fd => if Fresh t fd then some ⟨t.onNewConnect fd, .slot 1 0⟩ else none
    else some ⟨t, .slot 1 1⟩

/-- Where the slot loop stands after the body of round `i`. -/
def place (i : Nat) (fdSize : Int) : Flow → Place
  | .proceed | .next => .slot (i + 1) (fdSize - 1)
  | .leave => .outside
  | .crash => .crashed

/-- Round `i` of the slot loop. -/
def slotRound (t : Table) (i : Nat) (fdSize : Int) (io : SlotIo) : Option Server :=
  match t.fds[i]? with
  | none => some ⟨t, .outside⟩
  | some pfd =>
    if pfd.fd = -1 then some ⟨t, .slot (i + 1) fdSize⟩
    else if fdSize ≤ 0 then some ⟨t, .outside⟩
    else if pfd.revents &&& POLLERR ≠ 0 ∨ pfd.revents &&& POLLIN ≠ 0 ∨ pfd.revents &&& POLLOUT ≠ 0 then
      (t.handleSlot i pfd io).map fun (t, flow) => ⟨t, place i fdSize flow⟩
    else some ⟨t, .slot (i + 1) fdSize⟩

def step (s : Server) : Event → Option Server
  | .connect fd =>
    if s.place ≠ .crashed ∧ Fresh s.table fd then some { s with table := s.table.onNewConnect fd }
    else none
  | .attach fd translation =>
    if fd ∈ s.table.live then some { s with table := s.table.setData fd translation } else none
  | .poll revents =>
    if s.place = .outside then
      some { s with table := { s.table with
        fds := s.table.fds.mapIdx fun i pfd => { pfd with revents := revents i } } }
    else none
  | .iterate accepted => if s.place = .outside then iterate s.table accepted else none
  | .slot io =>
    match s.place with
    | .slot i fdSize => slotRound s.table i fdSize io
    | _ => none

def start : Server where
  table := { fds := [], translations := fun _ => none }
  place := .outside

/-- The slots in use have distinct descriptors, they are the keys of
`translations_`, and each key has a connector. -/
structure Consistent (t : Table) : Prop where
  distinct : t.live.Nodup
  keys : ∀ fd, (t.translations fd).isSome ↔ fd ∈ t.live
  connectors : ∀ fd, t.translations fd ≠ some none

/-! ### The slots in use -/

variable {t u : Table} {i : Nat} {fd : Int} {pfd : PollFd}

theorem inUse_free (fds : List PollFd) (free : pfd.fd = -1) : inUse (pfd :: fds) = inUse fds := by
  simp [inUse, free]

theorem inUse_taken (fds : List PollFd) (taken : pfd.fd ≠ -1) :
    inUse (pfd :: fds) = pfd.fd :: inUse fds := by
  simp [inUse, taken]

theorem mem_live_ne (member : fd ∈ t.live) : fd ≠ -1 := by
  simpa using (List.mem_filter.mp member).2

/-- Changing one slot leaves the others as they are. -/
theorem inUse_modify {fds : List PollFd} (here : fds[i]? = some pfd) (change : PollFd → PollFd) :
    (inUse fds).Perm (inUse (pfd :: fds.eraseIdx i)) ∧
      (inUse (fds.modify i change)).Perm (inUse (change pfd :: fds.eraseIdx i)) := by
  obtain ⟨inside, rfl⟩ := List.getElem?_eq_some_iff.mp here
  constructor
  · exact ((List.getElem_cons_eraseIdx_perm inside).symm.map _).filter _
  · rw [List.modify_eq_set_get change inside]
    exact ((List.set_perm_cons_eraseIdx inside _).map _).filter _

/-- A change that keeps the descriptor keeps the slots in use. -/
theorem inUse_modify_kept (fds : List PollFd) (i : Nat) {change : PollFd → PollFd}
    (kept : ∀ pfd, (change pfd).fd = pfd.fd) : inUse (fds.modify i change) = inUse fds := by
  have same : (fds.modify i change).map PollFd.fd = fds.map PollFd.fd := by
    apply List.ext_getElem?
    intro j
    simp only [List.getElem?_map, List.getElem?_modify]
    cases fds[j]? with
    | none => rfl
    | some pfd => 
      by_cases hit : i = j
      · simp [hit, kept]
      · simp [hit]
  rw [inUse, same, inUse]

theorem live_dispose (here : t.fds[i]? = some pfd) (distinct : t.live.Nodup) :
    (t.dispose i).live.Nodup ∧ ∀ fd, fd ∈ (t.dispose i).live ↔ fd ∈ t.live ∧ fd ≠ pfd.fd := by
  have disposed : (t.dispose i).live =
      inUse (t.fds.modify i fun pfd => { pfd with events := 0, fd := -1 }) := by
    simp only [Table.dispose, here, Table.live]
  obtain ⟨before, after⟩ := inUse_modify here fun pfd => { pfd with events := 0, fd := -1 }
  rw [← disposed, inUse_free _ rfl] at after
  change t.live.Perm _ at before
  by_cases free : pfd.fd = -1
  · rw [inUse_free _ free] at before
    have same := after.trans before.symm
    refine ⟨same.nodup_iff.mpr distinct, fun fd => ?_⟩
    rw [same.mem_iff, free]
    exact (and_iff_left_of_imp mem_live_ne).symm
  · rw [inUse_taken _ free] at before
    have cut := List.nodup_cons.mp (before.nodup_iff.mp distinct)
    refine ⟨after.nodup_iff.mpr cut.2, fun fd => ?_⟩
    rw [after.mem_iff, before.mem_iff, List.mem_cons]
    constructor
    · intro member
      refine ⟨.inr member, ?_⟩
      rintro rfl
      exact cut.1 member
    · rintro ⟨member, other⟩
      exact member.resolve_left other

theorem live_onNewConnect (valid : fd ≠ -1) : (t.onNewConnect fd).live.Perm (fd :: t.live) := by
  unfold Table.live Table.onNewConnect
  dsimp only
  split
  · rename_i i found
    obtain ⟨inside, free, -⟩ := List.findIdx?_eq_some_iff_getElem.mp found
    obtain ⟨before, after⟩ := inUse_modify (List.getElem?_eq_getElem inside)
      fun pfd => { pfd with fd := fd, events := POLLIN ||| POLLERR }
    rw [inUse_free _ (beq_iff_eq.mp free)] at before
    rw [inUse_taken _ valid] at after
    exact after.trans (before.symm.cons fd)
  · have pushed : inUse (t.fds ++ [{ fd := fd, events := POLLIN ||| POLLERR, revents := 0 }]) =
        inUse t.fds ++ [fd] := by
      simp [inUse, valid]
    rw [pushed]
    exact List.perm_append_singleton _ _

/-! ### What each operation keeps -/

/-- What else a slot holds does not matter. -/
theorem Consistent.congr (held : Consistent t) (slots : inUse u.fds = inUse t.fds)
    (same : u.translations = t.translations) : Consistent u := by
  have live : u.live = t.live := slots
  refine ⟨live.symm ▸ held.distinct, fun fd => ?_, fun fd => ?_⟩
  · rw [live, same]
    exact held.keys fd
  · rw [same]
    exact held.connectors fd

theorem onNewConnect_consistent (held : Consistent t) (fresh : Fresh t fd) :
    Consistent (t.onNewConnect fd) := by
  have valid : fd ≠ -1 := by
    have := fresh.1
    omega
  have added := live_onNewConnect (t := t) valid
  constructor
  · exact added.nodup_iff.mpr (List.nodup_cons.mpr ⟨fresh.2, held.distinct⟩)
  · intro other
    rw [added.mem_iff, List.mem_cons, ← held.keys other]
    by_cases same : other = fd
    · simp [Table.onNewConnect, same]
    · simp [Table.onNewConnect, same]
  · intro other
    by_cases same : other = fd
    · simp [Table.onNewConnect, same]
    · simpa [Table.onNewConnect, same] using held.connectors other

theorem dispose_consistent (held : Consistent t) (i : Nat) : Consistent (t.dispose i) := by
  cases here : t.fds[i]? with
  | none => simpa only [Table.dispose, here] using held
  | some pfd =>
    obtain ⟨distinct, remaining⟩ := live_dispose here held.distinct
    have translations : (t.dispose i).translations = Function.update t.translations pfd.fd none := by
      simp only [Table.dispose, here]
    refine ⟨distinct, fun fd => ?_, fun fd => ?_⟩
    · rw [remaining, translations, ← held.keys fd]
      by_cases same : fd = pfd.fd
      · simp [same]
      · simp [same]
    · rw [translations]
      by_cases same : fd = pfd.fd
      · simp [same]
      · simpa [same] using held.connectors fd

theorem setData_consistent (held : Consistent t) (known : fd ∈ t.live) (translation : Translation) :
    Consistent (t.setData fd translation) := by
  refine ⟨held.distinct, fun other => ?_, fun other => ?_⟩
  · change _ ↔ other ∈ t.live
    by_cases same : other = fd
    · rw [same]
      exact iff_of_true (by simp [Table.setData]) known
    · simpa [Table.setData, same] using held.keys other
  · by_cases same : other = fd
    · simp [Table.setData, same]
    · simpa [Table.setData, same] using held.connectors other

/-- The lookup of a live descriptor hits: what may be missing is the data. -/
theorem getData_hits (held : Consistent t) (known : fd ∈ t.live) :
    t.getData fd = (t, .error .leave) ∨ ∃ translation, t.getData fd = (t, .ok translation) := by
  have present := (held.keys fd).mpr known
  have filled := held.connectors fd
  unfold Table.getData Table.lookup
  cases found : t.translations fd with
  | none => simp [found] at present
  | some connector =>
    cases connector with
    | none => exact absurd found filled
    | some connector =>
      obtain ⟨data⟩ := connector
      cases data with
      | none => exact .inl rfl
      | some translation => exact .inr ⟨translation, rfl⟩

/-- Slot `i` has a descriptor, as `connected_fd` was taken from it. -/
structure At (t : Table) (i : Nat) (fd : Int) : Prop where
  consistent : Consistent t
  taken : fd ≠ -1
  slot : t.fds[i]?.map PollFd.fd = some fd

theorem At.known (held : At t i fd) : fd ∈ t.live := by
  obtain ⟨pfd, here, named⟩ := Option.map_eq_some_iff.mp held.slot
  refine List.mem_filter.mpr ⟨List.mem_map.mpr ⟨pfd, List.mem_of_getElem? here, named⟩, ?_⟩
  simpa using held.taken

/-- A branch leaves the table consistent, and the slot as it was unless it disposes it. -/
theorem store_consistent (held : At t i fd) (c : Connection) :
    Consistent (t.store i fd c) ∧ (c.disposed = false → At (t.store i fd c) i fd) := by
  cases disposed : c.disposed with
  | true =>
    simp only [Table.store, disposed, if_true]
    exact ⟨dispose_consistent held.consistent i, nofun⟩
  | false =>
    simp only [Table.store, disposed, Bool.false_eq_true, if_false]
    have consistent : Consistent { t.setData fd c.translation with
        fds := t.fds.modify i fun pfd => { pfd with events := c.events } } :=
      (setData_consistent held.consistent held.known c.translation).congr
        (inUse_modify_kept t.fds i fun _ => rfl) rfl
    refine ⟨consistent, fun _ => ⟨consistent, held.taken, ?_⟩⟩
    obtain ⟨pfd, here, named⟩ := Option.map_eq_some_iff.mp held.slot
    simp [here, named]

theorem queueRest_disposed {c d : Connection} {ws : Nat} {memory : List UInt8} {fresh : Nat → UInt8}
    (queued : (if ws < packageSize then
        (c.translation.wbuffer.append (memory.drop ws) (wsub packageSize ws) fresh).bind
          fun wbuffer => some (c.setWbuffer wbuffer).awaitWritable
      else some c) = some d) : d.disposed = c.disposed := by
  split at queued
  · obtain ⟨wbuffer, -, queued⟩ := Option.bind_eq_some_iff.mp queued
    cases queued
    rfl
  · cases queued
    rfl

theorem writeResponse_disposed {c d : Connection} {pkg : RttPackage} {socket : SocketWrite}
    {beyond : List UInt8} {fresh : Nat → UInt8}
    (written : writeResponse c pkg socket beyond fresh = some d) : d.disposed = c.disposed := by
  simp only [writeResponse, Option.bind_eq_bind, Option.bind_some] at written
  split at written
  · split at written
    · obtain ⟨wbuffer, -, written⟩ := Option.bind_eq_some_iff.mp written
      have kept := queueRest_disposed written
      exact kept
    · cases written
  · have kept := queueRest_disposed written
    exact kept

/-- Only a failed read disposes the slot in the POLLIN branch. -/
theorem pollin_disposed {c d : Connection} {io : Readable} {pkg : RttPackage}
    (handled : RttServer.pollin c io = some (d, some pkg)) : d.disposed = c.disposed := by
  unfold RttServer.pollin at handled
  obtain ⟨⟨middle, answer⟩, received, handled⟩ := Option.bind_eq_some_iff.mp handled
  cases answer with
  | none => cases handled
  | some answer =>
    obtain ⟨written, sent, handled⟩ := Option.bind_eq_some_iff.mp handled
    cases handled
    exact (writeResponse_disposed sent).trans ((receive_frame received).2.2 (.inr nofun))

theorem pollin_spec {io : Readable} {flow : Flow} (held : At t i fd)
    (handled : t.pollin i fd io = some (u, flow)) :
    Consistent u ∧ flow ≠ .crash ∧ (flow = .proceed → At u i fd) := by
  unfold Table.pollin at handled
  split at handled
  · cases handled
    exact ⟨dispose_consistent held.consistent i, nofun, nofun⟩
  · rcases getData_hits held.consistent held.known with empty | ⟨translation, found⟩
    · rw [empty] at handled
      cases handled
      exact ⟨held.consistent, nofun, nofun⟩
    · rw [found] at handled
      obtain ⟨⟨c, answer⟩, branch, same⟩ := Option.bind_eq_some_iff.mp handled
      obtain ⟨consistent, kept⟩ := store_consistent held c
      cases answer with
      | none =>
        cases same
        exact ⟨consistent, nofun, nofun⟩
      | some pkg =>
        cases same
        exact ⟨consistent, nofun, fun _ => kept (pollin_disposed branch)⟩

theorem pollout_spec {socket : SocketWrite} {flow : Flow} (held : At t i fd)
    (handled : t.pollout i fd socket = some (u, flow)) : Consistent u ∧ flow ≠ .crash := by
  unfold Table.pollout at handled
  rcases getData_hits held.consistent held.known with empty | ⟨translation, found⟩
  · rw [empty] at handled
    cases handled
    exact ⟨held.consistent, nofun⟩
  · rw [found] at handled
    obtain ⟨c, -, same⟩ := Option.bind_eq_some_iff.mp handled
    cases same
    exact ⟨(store_consistent held c).1, nofun⟩

theorem pollerr_spec (held : Consistent t) (i : Nat) (error : Int) :
    Consistent (t.pollerr i error).1 ∧ (t.pollerr i error).2 ≠ .crash := by
  unfold Table.pollerr
  split
  · exact ⟨held, nofun⟩
  · exact ⟨dispose_consistent held i, nofun⟩

/-- A slot is handled without a miss, whatever its bits and the system's answers. -/
theorem handleSlot_spec {io : SlotIo} {flow : Flow} (held : Consistent t)
    (here : t.fds[i]? = some pfd) (taken : pfd.fd ≠ -1)
    (handled : t.handleSlot i pfd io = some (u, flow)) : Consistent u ∧ flow ≠ .crash := by
  have slot : At t i pfd.fd := ⟨held, taken, by rw [here]; rfl⟩
  unfold Table.handleSlot at handled
  obtain ⟨⟨read, first⟩, reading, handled⟩ := Option.bind_eq_some_iff.mp handled
  have afterRead : Consistent read ∧ first ≠ .crash ∧ (first = .proceed → At read i pfd.fd) := by
    split at reading
    · exact pollin_spec slot reading
    · cases reading
      exact ⟨held, nofun, fun _ => slot⟩
  dsimp only at handled
  split at handled
  · cases handled
    exact ⟨afterRead.1, afterRead.2.1⟩
  · rename_i proceeding
    have kept := afterRead.2.2 (not_not.mp proceeding)
    obtain ⟨⟨written, second⟩, writing, handled⟩ := Option.bind_eq_some_iff.mp handled
    have afterWrite : Consistent written ∧ second ≠ .crash := by
      split at writing
      · exact pollout_spec kept writing
      · cases writing
        exact ⟨kept.consistent, nofun⟩
    dsimp only at handled
    split at handled
    · cases handled
      exact afterWrite
    · split at handled
      · have failed := pollerr_spec afterWrite.1 i io.error
        rwa [Option.some.inj handled] at failed
      · cases handled
        exact ⟨afterWrite.1, nofun⟩

/-! ### Runs -/

/-- The table is consistent and no lookup has missed. -/
def Sound (s : Server) : Prop := Consistent s.table ∧ s.place ≠ .crashed

variable {s next : Server}

theorem iterate_sound {accepted : Option Int} (held : Consistent t)
    (stepped : iterate t accepted = some next) : Sound next := by
  unfold iterate at stepped
  split at stepped
  · cases stepped
  · split at stepped
    · cases accepted with
      | none =>
        cases stepped
        exact ⟨held, nofun⟩
      | some fd =>
        obtain ⟨fresh, rfl⟩ := guarded_eq_some.mp stepped
        exact ⟨onNewConnect_consistent held fresh, nofun⟩
    · cases stepped
      exact ⟨held, nofun⟩

theorem slotRound_sound {fdSize : Int} {io : SlotIo} (held : Consistent t)
    (stepped : slotRound t i fdSize io = some next) : Sound next := by
  unfold slotRound at stepped
  split at stepped
  · cases stepped
    exact ⟨held, nofun⟩
  · rename_i pfd here
    split at stepped
    · cases stepped
      exact ⟨held, nofun⟩
    · rename_i taken
      split at stepped
      · cases stepped
        exact ⟨held, nofun⟩
      · split at stepped
        · obtain ⟨⟨after, flow⟩, handled, rfl⟩ := Option.map_eq_some_iff.mp stepped
          obtain ⟨consistent, unharmed⟩ := handleSlot_spec held here taken handled
          refine ⟨consistent, ?_⟩
          cases flow with
          | proceed | next | leave => exact nofun
          | crash => exact absurd rfl unharmed
        · cases stepped
          exact ⟨held, nofun⟩

theorem sound_step {e : Event} (held : Sound s) (stepped : step s e = some next) : Sound next := by
  obtain ⟨consistent, running⟩ := held
  cases e with
  | connect fd =>
    obtain ⟨⟨-, fresh⟩, rfl⟩ := guarded_eq_some.mp stepped
    exact ⟨onNewConnect_consistent consistent fresh, running⟩
  | attach fd translation =>
    obtain ⟨known, rfl⟩ := guarded_eq_some.mp stepped
    exact ⟨setData_consistent consistent known translation, running⟩
  | poll revents =>
    obtain ⟨-, rfl⟩ := guarded_eq_some.mp stepped
    refine ⟨consistent.congr ?_ rfl, running⟩
    have same : ∀ fds : List PollFd,
        (fds.mapIdx fun i pfd => { pfd with revents := revents i }).map PollFd.fd =
          fds.map PollFd.fd := by
      intro fds
      apply List.ext_getElem?
      intro j
      simp [Function.comp_def]
    rw [inUse, same, inUse]
  | iterate accepted =>
    rw [step] at stepped
    split at stepped
    · exact iterate_sound consistent stepped
    · contradiction
  | slot io =>
    rw [step] at stepped
    split at stepped
    · exact slotRound_sound consistent stepped
    · contradiction

theorem sound_start : Sound start := by
  refine ⟨⟨List.nodup_nil, fun fd => ?_, fun fd => ?_⟩, nofun⟩
  · simp [start, Table.live, inUse]
  · simp [start]

/-- In every reachable state the slots in use have distinct descriptors, which
are exactly the keys of `translations_`; no key has an empty pointer, and no
lookup has dereferenced one. -/
theorem table_consistent {events : List Event} {final : Server}
    (ran : run step start events = some final) :
    final.table.live.Nodup ∧
      (∀ fd, (final.table.translations fd).isSome ↔ fd ∈ final.table.live) ∧
      (∀ fd, final.table.translations fd ≠ some none) ∧ final.place ≠ .crashed := by
  have kept : ∀ s e next, Sound s → step s e = some next → Sound next :=
    fun s e next held stepped => sound_step held stepped
  obtain ⟨consistent, running⟩ := run_keeps kept sound_start ran
  exact ⟨consistent.distinct, consistent.keys, consistent.connectors, running⟩

/-- A slot that the POLLOUT and the POLLERR branch both dispose, and the next
connection in its place. -/
theorem table_consistent_disposed_twice :
    let io : SlotIo := {
      readable := ⟨none, ⟨0, 0⟩, ⟨0, 0⟩, { accepts := none }, [], fun _ => 0⟩
      writable := { accepts := some 0 }
      error := 104 }
    ∃ final, run step start [.connect 7, .connect 8, .attach 8 {},
        .poll (fun _ => POLLOUT ||| POLLERR), .iterate none, .slot io, .connect 9] = some final ∧
      final.table.live = [7, 9] ∧ (final.table.translations 8).isSome = false := by
  intro io
  have live : (run step start [.connect 7, .connect 8, .attach 8 {},
      .poll (fun _ => POLLOUT ||| POLLERR), .iterate none, .slot io, .connect 9]).map
        (fun s => s.table.live) = some [7, 9] := rfl
  obtain ⟨final, ran, live⟩ := Option.map_eq_some_iff.mp live
  have keys := (table_consistent ran).2.1 8
  rw [live] at keys
  exact ⟨final, ran, live, by simpa using keys⟩

end ExNetlink.RttTable
