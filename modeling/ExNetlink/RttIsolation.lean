import ExNetlink.RttTable

/-! The connections of `RttServer` one by one.

All connections share `fds` and `translations_`, and `startDomain` handles them
in one loop. Here each descriptor is looked at alone: what becomes of it is
what its own accept, its own `revents` and its own reads and writes make of it,
and nothing that happens on another slot counts, dispositions and reused slots
included. One thing does pass from one connection to the next: `onNewConnect`
leaves the `revents` of a slot that it fills again. -/
namespace ExNetlink.RttIsolation
open Reactor RttServer RttTable Runs

/-! ### One connection -/

/-- What the server holds for a descriptor. -/
structure Entry where
  data : Option Translation
  events : BitVec 16
  revents : BitVec 16

/-- What can happen to a descriptor. -/
inductive Own where
  /-- `onNewConnect`, with the `revents` of the slot. -/
  | connect (revents : BitVec 16)
  | attach (translation : Translation)
  | poll (revents : BitVec 16)
  /-- The body of the slot loop. -/
  | slot (io : SlotIo)

namespace Entry

/-- The descriptor as a branch leaves it; there is none after `dispose`. -/
def store (e : Entry) (c : Connection) : Option Entry :=
  if c.disposed then none else some { e with data := some c.translation, events := c.events }

/-- The POLLIN branch. -/
def pollin (e : Entry) (io : Readable) : Option (Option Entry × Flow) :=
  if io.rs ≤ 0 ∧ io.rs ≠ EAGAIN then some (none, .next)
  else match e.data with
    | none => some (some e, .leave)
    | some translation => do
      let (c, answer) ← RttServer.pollin { translation := translation, events := e.events } io
      some (e.store c, if answer.isSome then .proceed else .next)

/-- The POLLOUT branch. -/
def pollout (e : Entry) (socket : SocketWrite) : Option (Option Entry × Flow) :=
  match e.data with
  | none => some (some e, .leave)
  | some translation => do
    let c ← RttServer.pollout { translation := translation, events := e.events } socket
    some (e.store c, .proceed)

/-- The body of the slot loop. -/
def handle (e : Entry) (io : SlotIo) : Option (Option Entry × Flow) :=
  let read := if e.revents &&& POLLIN ≠ 0 then e.pollin io.readable else some (some e, .proceed)
  read.bind fun (read, flow) =>
    if flow ≠ .proceed then some (read, flow)
    else
      let written := match read with
        | some now =>
          if e.revents &&& POLLOUT ≠ 0 then now.pollout io.writable else some (some now, .proceed)
        | none => some (none, .proceed)
      written.bind fun (written, flow) =>
        if flow ≠ .proceed then some (written, flow)
        else if e.revents &&& POLLERR ≠ 0 then
          some (if io.error = EINTR then (written, .next) else (none, .leave))
        else some (written, .next)

end Entry

/-- What a descriptor's own events make of it. -/
def step : Option Entry → Own → Option (Option Entry)
  | none, .connect revents => some (some ⟨none, POLLIN ||| POLLERR, revents⟩)
  | some e, .attach translation => some (some { e with data := some translation })
  | some e, .poll revents => some (some { e with revents := revents })
  | some e, .slot io => (e.handle io).map Prod.fst
  | _, _ => none

/-! ### What the table holds for one connection -/

/-- The entry of a descriptor in `fds` and `translations_`. -/
def entry (t : Table) (fd : Int) : Option Entry := do
  let pfd ← t.fds.find? (·.fd == fd)
  let connector ← (t.translations fd).join
  some ⟨connector.data, pfd.events, pfd.revents⟩

/-- The `revents` that `onNewConnect` leaves to a new connection. -/
def inherited (t : Table) : BitVec 16 :=
  match t.fds.findIdx? (·.fd == -1) with
  | some i => (t.fds[i]?.map PollFd.revents).getD 0
  | none => 0

/-- The round of the slot loop has an event to handle. -/
def Handles (pfd : PollFd) (fdSize : Int) : Prop :=
  0 < fdSize ∧
    (pfd.revents &&& POLLERR ≠ 0 ∨ pfd.revents &&& POLLIN ≠ 0 ∨ pfd.revents &&& POLLOUT ≠ 0)

instance (pfd : PollFd) (fdSize : Int) : Decidable (Handles pfd fdSize) :=
  inferInstanceAs (Decidable (0 < fdSize ∧ _))

/-- What an event is to a descriptor. -/
def own (fd : Int) (s : Server) : Event → List Own
  | .connect other => if other = fd then [.connect (inherited s.table)] else []
  | .attach other translation => if other = fd then [.attach translation] else []
  | .poll revents =>
    if fd ∈ s.table.live then
      ((s.table.fds.findIdx? (·.fd == fd)).map fun i => Own.poll (revents i)).toList
    else []
  | .iterate accepted =>
    match s.table.fds[0]? with
    | some pfd =>
      if pfd.revents &&& POLLIN ≠ 0 ∧ accepted = some fd then [.connect (inherited s.table)] else []
    | none => []
  | .slot io =>
    match s.place with
    | .slot i fdSize =>
      match s.table.fds[i]? with
      | some pfd => if pfd.fd = fd ∧ pfd.fd ≠ -1 ∧ Handles pfd fdSize then [.slot io] else []
      | none => []
    | _ => []

/-! ### Slots and entries -/

variable {t u w : Table} {i j : Nat} {fd other : Int} {pfd first second : PollFd} {s next : Server}
  {e : Entry} {r : Option Entry} {flow : Flow}

theorem slot_unique (held : Consistent t) (one : t.fds[i]? = some first)
    (two : t.fds[j]? = some second) (same : first.fd = second.fd) (taken : first.fd ≠ -1) : i = j := by
  have distinct := held.distinct
  rw [Table.live, inUse, List.Nodup, List.pairwise_filter, List.pairwise_map,
    List.pairwise_iff_getElem] at distinct
  obtain ⟨insideOne, rfl⟩ := List.getElem?_eq_some_iff.mp one
  obtain ⟨insideTwo, rfl⟩ := List.getElem?_eq_some_iff.mp two
  rcases Nat.lt_trichotomy i j with less | equal | more
  · exact absurd same (distinct i j insideOne insideTwo less (by simpa using taken)
      (by simpa [← same] using taken))
  · exact equal
  · exact absurd same.symm (distinct j i insideTwo insideOne more (by simpa [← same] using taken)
      (by simpa using taken))

theorem find_slot (held : Consistent t) (here : t.fds[i]? = some pfd) (taken : pfd.fd ≠ -1) :
    t.fds.find? (·.fd == pfd.fd) = some pfd := by
  obtain ⟨inside, same⟩ := List.getElem?_eq_some_iff.mp here
  refine List.find?_eq_some_iff_getElem.mpr ⟨beq_self_eq_true _, i, inside, same, fun j earlier => ?_⟩
  rw [Bool.not_eq_true', beq_eq_false_iff_ne]
  intro equal
  have found : t.fds[j]? = some t.fds[j] := List.getElem?_eq_getElem _
  exact Nat.ne_of_lt earlier (slot_unique held found here equal (equal ▸ taken))

/-- A slot that has not had the descriptor and does not get it. -/
theorem find_modify {fds : List PollFd} {change : PollFd → PollFd}
    (away : ∀ pfd, fds[i]? = some pfd → pfd.fd ≠ other ∧ (change pfd).fd ≠ other) :
    (fds.modify i change).find? (·.fd == other) = fds.find? (·.fd == other) := by
  induction fds generalizing i with
  | nil => simp
  | cons slot rest ih =>
    cases i with
    | zero =>
      obtain ⟨before, after⟩ := away slot rfl
      simp [before, after]
    | succ i =>
      have later := ih (i := i) fun pfd here => away pfd here
      simp only [List.modify_succ_cons, List.find?_cons, later]

theorem connector_absent (held : Consistent t) (absent : fd ∉ t.live) : t.translations fd = none := by
  rw [← Option.not_isSome_iff_eq_none, held.keys]
  exact absent

/-- Descriptors that are not in use have no entry. -/
theorem entry_absent (held : Consistent t) (absent : fd ∉ t.live) : entry t fd = none := by
  simp [entry, connector_absent held absent]

theorem entry_free (held : Consistent t) : entry t (-1) = none :=
  entry_absent held fun member => mem_live_ne member rfl

/-- Slot `i` and the connector under its descriptor show the entry. -/
structure Shows (t : Table) (i : Nat) (fd : Int) (e : Entry) : Prop extends At t i fd where
  here : t.fds[i]? = some ⟨fd, e.events, e.revents⟩
  data : t.translations fd = some (some ⟨e.data⟩)

theorem Shows.entry (shown : Shows t i fd e) : entry t fd = some e := by
  have found := find_slot shown.consistent shown.here shown.taken
  simp [RttIsolation.entry, found, shown.data]

/-- Every descriptor in use has an entry. -/
theorem shown_of_live (held : Consistent t) (known : fd ∈ t.live) : ∃ i e, Shows t i fd e := by
  obtain ⟨member, -⟩ := List.mem_filter.mp known
  obtain ⟨slot, inside, named⟩ := List.mem_map.mp member
  obtain ⟨i, here⟩ := List.mem_iff_getElem?.mp inside
  obtain ⟨connector, found⟩ := Option.isSome_iff_exists.mp ((held.keys fd).mpr known)
  cases connector with
  | none => exact absurd found (held.connectors fd)
  | some connector =>
    subst named
    exact ⟨i, ⟨connector.data, slot.events, slot.revents⟩,
      { consistent := held, taken := mem_live_ne known, slot := by rw [here]; rfl
        here := here, data := found }⟩

/-- What handling slot `i` leaves behind: the entry of its descriptor, or none
once the slot is disposed, and all other entries as they were. -/
structure Leaves (t u : Table) (i : Nat) (fd : Int) (r : Option Entry) : Prop where
  consistent : Consistent u
  apart : ∀ other, other ≠ fd → other ≠ -1 → entry u other = entry t other
  kept : ∀ e, r = some e → Shows u i fd e
  gone : r = none → entry u fd = none ∧ u.fds[i]?.map PollFd.fd = some (-1)

theorem Leaves.entry (left : Leaves t u i fd r) : RttIsolation.entry u fd = r := by
  cases r with
  | none => exact (left.gone rfl).1
  | some e => exact (left.kept e rfl).entry

theorem Leaves.trans (left : Leaves t u i fd (some e)) (later : Leaves u w i fd r) :
    Leaves t w i fd r where
  consistent := later.consistent
  apart other distinct taken := (later.apart other distinct taken).trans (left.apart other distinct taken)
  kept := later.kept
  gone := later.gone

theorem leaves_self (shown : Shows t i fd e) : Leaves t t i fd (some e) where
  consistent := shown.consistent
  apart _ _ _ := rfl
  kept _ same := Option.some.inj same ▸ shown
  gone same := by cases same

/-- Another descriptor's entry when a slot is disposed. -/
theorem dispose_apart (here : t.fds[i]? = some pfd) (distinct : other ≠ pfd.fd) (taken : other ≠ -1) :
    entry (t.dispose i) other = entry t other := by
  have slots : (t.dispose i).fds.find? (·.fd == other) = t.fds.find? (·.fd == other) := by
    simp only [Table.dispose, here]
    apply find_modify
    intro slot found
    rw [here] at found
    cases found
    exact ⟨distinct.symm, taken.symm⟩
  have connectors : (t.dispose i).translations other = t.translations other := by
    simp only [Table.dispose, here]
    exact Function.update_of_ne distinct _ _
  rw [entry, slots, connectors]
  rfl

theorem dispose_slot (here : t.fds[i]? = some pfd) :
    (t.dispose i).fds[i]?.map PollFd.fd = some (-1) := by
  simp [Table.dispose, here]

/-- A slot is disposed, for the first time or once more. -/
theorem Leaves.dispose (left : Leaves t u i fd r) (taken : fd ≠ -1) :
    Leaves t (u.dispose i) i fd none := by
  have slot : ∃ pfd, u.fds[i]? = some pfd ∧ (pfd.fd = fd ∨ pfd.fd = -1) := by
    cases r with
    | none =>
      obtain ⟨pfd, here, free⟩ := Option.map_eq_some_iff.mp (left.gone rfl).2
      exact ⟨pfd, here, .inr free⟩
    | some e => exact ⟨_, (left.kept e rfl).here, .inl rfl⟩
  obtain ⟨pfd, here, named⟩ := slot
  refine ⟨dispose_consistent left.consistent i, fun other distinct valid => ?_, nofun,
    fun _ => ⟨?_, dispose_slot here⟩⟩
  · rw [dispose_apart here _ valid, left.apart other distinct valid]
    rcases named with same | free
    · exact same ▸ distinct
    · exact free ▸ valid
  · apply entry_absent (dispose_consistent left.consistent i)
    rw [(live_dispose here left.consistent.distinct).2]
    rintro ⟨member, distinct⟩
    rcases named with same | free
    · exact distinct same.symm
    · have absent := left.entry
      obtain ⟨j, e, shown⟩ := shown_of_live left.consistent member
      rw [shown.entry] at absent
      subst absent
      have again := (left.kept e rfl).here
      rw [here] at again
      cases again
      exact taken free

/-- What a branch stores is the entry of the descriptor. -/
theorem leaves_store (shown : Shows t i fd e) (c : Connection) :
    Leaves t (t.store i fd c) i fd (e.store c) := by
  obtain ⟨consistent, kept⟩ := store_consistent shown.toAt c
  cases disposed : c.disposed with
  | true =>
    have left := (leaves_self shown).dispose shown.taken
    simpa only [Table.store, Entry.store, disposed, if_true] using left
  | false =>
    have slot : (t.store i fd c).fds[i]? = some ⟨fd, c.events, e.revents⟩ := by
      simp [Table.store, disposed, shown.here]
    have connector : (t.store i fd c).translations fd = some (some ⟨some c.translation⟩) := by
      simp [Table.store, Table.setData, disposed]
    have stored : e.store c = some ⟨some c.translation, c.events, e.revents⟩ := by
      simp [Entry.store, disposed]
    rw [stored]
    refine ⟨consistent, fun other distinct taken => ?_, fun after same => ?_, fun none => by cases none⟩
    · have slots : (t.store i fd c).fds.find? (·.fd == other) = t.fds.find? (·.fd == other) := by
        simp only [Table.store, disposed, Bool.false_eq_true, if_false]
        apply find_modify
        intro pfd found
        rw [shown.here] at found
        cases found
        exact ⟨distinct.symm, distinct.symm⟩
      have connectors : (t.store i fd c).translations other = t.translations other := by
        simp only [Table.store, Table.setData, disposed, Bool.false_eq_true, if_false]
        exact Function.update_of_ne distinct _ _
      rw [RttIsolation.entry, slots, connectors]
      rfl
    · cases same
      exact { kept disposed with here := slot, data := connector }

/-! ### One slot -/

/-- `getData` finds what the entry has. -/
theorem Shows.getData (shown : Shows t i fd e) :
    t.getData fd = (t, match e.data with | none => .error .leave | some translation => .ok translation) := by
  unfold Table.getData Table.lookup
  rw [shown.data]
  cases e.data with
  | none => rfl
  | some translation => rfl

theorem Shows.connection (shown : Shows t i fd e) (translation : Translation) :
    t.connection i translation = { translation := translation, events := e.events } := by
  rw [Table.connection, shown.here]
  rfl

/-- The POLLIN branch does to the table what it does to the entry, and it goes
on only with a slot that is still in use. -/
theorem pollin_leaves {io : Readable} (shown : Shows t i fd e)
    (handled : t.pollin i fd io = some (u, flow)) :
    ∃ r, e.pollin io = some (r, flow) ∧ Leaves t u i fd r ∧ (flow = .proceed → r.isSome) := by
  unfold Table.pollin at handled
  rw [Entry.pollin]
  by_cases ended : io.rs ≤ 0 ∧ io.rs ≠ EAGAIN
  · rw [if_pos ended] at handled ⊢
    cases handled
    exact ⟨none, rfl, (leaves_self shown).dispose shown.taken, nofun⟩
  · rw [if_neg ended, shown.getData] at handled
    rw [if_neg ended]
    cases data : e.data with
    | none =>
      rw [data] at handled
      cases handled
      exact ⟨some e, rfl, leaves_self shown, nofun⟩
    | some translation =>
      rw [data] at handled
      obtain ⟨⟨c, answer⟩, branch, same⟩ := Option.bind_eq_some_iff.mp handled
      rw [shown.connection] at branch
      obtain ⟨rfl, rfl⟩ := Prod.mk.inj (Option.some.inj same)
      refine ⟨e.store c, ?_, leaves_store shown c, ?_⟩
      · dsimp only
        rw [branch]
        rfl
      · cases answer with
        | none => nofun
        | some pkg =>
          have kept : c.disposed = false := pollin_disposed branch
          simp [Entry.store, kept]

theorem pollout_leaves {socket : SocketWrite} (shown : Shows t i fd e)
    (handled : t.pollout i fd socket = some (u, flow)) :
    ∃ r, e.pollout socket = some (r, flow) ∧ Leaves t u i fd r := by
  unfold Table.pollout at handled
  rw [shown.getData] at handled
  rw [Entry.pollout]
  cases data : e.data with
  | none =>
    rw [data] at handled
    cases handled
    exact ⟨some e, rfl, leaves_self shown⟩
  | some translation =>
    rw [data] at handled
    obtain ⟨c, branch, same⟩ := Option.bind_eq_some_iff.mp handled
    rw [shown.connection] at branch
    obtain ⟨rfl, rfl⟩ := Prod.mk.inj (Option.some.inj same)
    refine ⟨e.store c, ?_, leaves_store shown c⟩
    dsimp only
    rw [branch]
    rfl

/-- The body of the slot loop does to the table what it does to the entry. -/
theorem handleSlot_leaves {io : SlotIo} (shown : Shows t i fd e)
    (handled : t.handleSlot i ⟨fd, e.events, e.revents⟩ io = some (u, flow)) :
    ∃ r, e.handle io = some (r, flow) ∧ Leaves t u i fd r := by
  unfold Table.handleSlot at handled
  obtain ⟨⟨readTable, readFlow⟩, reading, handled⟩ := Option.bind_eq_some_iff.mp handled
  dsimp only at reading handled
  have read : ∃ r, (if e.revents &&& POLLIN ≠ 0 then e.pollin io.readable else some (some e, .proceed)) =
      some (r, readFlow) ∧ Leaves t readTable i fd r ∧ (readFlow = .proceed → r.isSome) := by
    by_cases asked : e.revents &&& POLLIN ≠ 0
    · rw [if_pos asked] at reading ⊢
      exact pollin_leaves shown reading
    · rw [if_neg asked] at reading ⊢
      cases reading
      exact ⟨some e, rfl, leaves_self shown, fun _ => rfl⟩
  obtain ⟨r, own, left, proceeds⟩ := read
  unfold Entry.handle
  dsimp only
  rw [own, Option.bind_some]
  dsimp only
  by_cases stops : readFlow ≠ .proceed
  · rw [if_pos stops] at handled
    cases handled
    exact ⟨r, by rw [if_pos stops], left⟩
  · rw [if_neg stops] at handled
    obtain ⟨middle, rfl⟩ := Option.isSome_iff_exists.mp (proceeds (not_not.mp stops))
    have there := left.kept middle rfl
    obtain ⟨⟨writtenTable, writtenFlow⟩, writing, handled⟩ := Option.bind_eq_some_iff.mp handled
    dsimp only at writing handled ⊢
    have written : ∃ r, (if e.revents &&& POLLOUT ≠ 0 then middle.pollout io.writable
        else some (some middle, .proceed)) = some (r, writtenFlow) ∧ Leaves t writtenTable i fd r := by
      by_cases asked : e.revents &&& POLLOUT ≠ 0
      · rw [if_pos asked] at writing ⊢
        obtain ⟨r, done, later⟩ := pollout_leaves there writing
        exact ⟨r, done, left.trans later⟩
      · rw [if_neg asked] at writing ⊢
        cases writing
        exact ⟨some middle, rfl, left⟩
    obtain ⟨r, done, later⟩ := written
    rw [if_neg stops, done, Option.bind_some]
    dsimp only
    by_cases leaves : writtenFlow ≠ .proceed
    · rw [if_pos leaves] at handled ⊢
      cases handled
      exact ⟨r, rfl, later⟩
    · rw [if_neg leaves] at handled ⊢
      by_cases failed : e.revents &&& POLLERR ≠ 0
      · rw [if_pos failed, Table.pollerr] at handled
        rw [if_pos failed]
        by_cases interrupted : io.error = EINTR
        · rw [if_pos interrupted] at handled ⊢
          cases handled
          exact ⟨r, rfl, later⟩
        · rw [if_neg interrupted] at handled ⊢
          cases handled
          exact ⟨none, rfl, later.dispose shown.taken⟩
      · rw [if_neg failed] at handled ⊢
        cases handled
        exact ⟨r, rfl, later⟩

/-! ### The other events -/

/-- A new connection begins with what its slot was left with. -/
theorem onNewConnect_entry (held : Consistent t) (fresh : Fresh t fd) :
    entry (t.onNewConnect fd) fd = some ⟨none, POLLIN ||| POLLERR, inherited t⟩ := by
  have valid : fd ≠ -1 := by
    have positive := fresh.1
    omega
  have slot : ∃ i : Nat, (t.onNewConnect fd).fds[i]? = some ⟨fd, POLLIN ||| POLLERR, inherited t⟩ := by
    unfold Table.onNewConnect inherited
    cases free : t.fds.findIdx? (fun pfd => pfd.fd == -1) with
    | some i =>
      obtain ⟨inside, -, -⟩ := List.findIdx?_eq_some_iff_getElem.mp free
      exact ⟨i, by simp [List.getElem?_eq_getElem inside]⟩
    | none => exact ⟨t.fds.length, by simp⟩
  obtain ⟨i, here⟩ := slot
  have found := find_slot (onNewConnect_consistent held fresh) here valid
  have connector : (t.onNewConnect fd).translations fd = some (some ⟨none⟩) := by
    simp [Table.onNewConnect]
  simp [entry, found, connector]

theorem onNewConnect_apart (distinct : other ≠ fd) (taken : other ≠ -1) :
    entry (t.onNewConnect fd) other = entry t other := by
  have slots : (t.onNewConnect fd).fds.find? (·.fd == other) = t.fds.find? (·.fd == other) := by
    unfold Table.onNewConnect
    dsimp only
    split
    · rename_i i free
      obtain ⟨inside, named, -⟩ := List.findIdx?_eq_some_iff_getElem.mp free
      apply find_modify
      intro slot found
      rw [List.getElem?_eq_getElem inside] at found
      cases found
      rw [beq_iff_eq.mp named]
      exact ⟨taken.symm, distinct.symm⟩
    · simp [List.find?_append, distinct.symm]
  have connectors : (t.onNewConnect fd).translations other = t.translations other :=
    Function.update_of_ne distinct _ _
  rw [entry, slots, connectors]
  rfl

theorem setData_entry (shown : Shows t i fd e) (translation : Translation) :
    entry (t.setData fd translation) fd = some { e with data := some translation } := by
  have found := find_slot shown.consistent shown.here shown.taken
  have slots : (t.setData fd translation).fds.find? (·.fd == fd) = _ := found
  have connector : (t.setData fd translation).translations fd = some (some ⟨some translation⟩) := by
    simp [Table.setData]
  simp [entry, slots, connector]

theorem setData_apart (distinct : other ≠ fd) (translation : Translation) :
    entry (t.setData fd translation) other = entry t other := by
  have connectors : (t.setData fd translation).translations other = t.translations other :=
    Function.update_of_ne distinct _ _
  rw [entry, connectors]
  rfl

/-- The first slot with the descriptor is its slot. -/
theorem findIdx_slot (shown : Shows t i fd e) : t.fds.findIdx? (·.fd == fd) = some i := by
  obtain ⟨inside, same⟩ := List.getElem?_eq_some_iff.mp shown.here
  refine List.findIdx?_eq_some_iff_getElem.mpr ⟨inside, by simp [same], fun j earlier => ?_⟩
  rw [beq_iff_eq]
  intro equal
  have found : t.fds[j]? = some t.fds[j] := List.getElem?_eq_getElem _
  exact Nat.ne_of_lt earlier (slot_unique shown.consistent found shown.here equal (equal ▸ shown.taken))

/-- What a descriptor that the event does not touch keeps. -/
theorem untouched (before : Consistent t) (after : Consistent u)
    (kept : fd ≠ -1 → entry u fd = entry t fd) : run step (entry t fd) [] = some (entry u fd) := by
  by_cases free : fd = -1
  · rw [free, entry_free before, entry_free after]
    rfl
  · rw [kept free]
    rfl

/-- An accepted connection is one to its own descriptor, and nothing to the
others. -/
theorem connect_seen (held : Consistent t) (fresh : Fresh t other) :
    run step (entry t fd) (if other = fd then [.connect (inherited t)] else []) =
      some (entry (t.onNewConnect other) fd) := by
  by_cases same : other = fd
  · subst same
    rw [if_pos rfl, entry_absent held fresh.2, onNewConnect_entry held fresh]
    rfl
  · rw [if_neg same]
    exact untouched held (onNewConnect_consistent held fresh) (onNewConnect_apart (Ne.symm same))

theorem poll_seen (held : Consistent t) (revents : Nat → BitVec 16)
    (after : Consistent { t with fds := t.fds.mapIdx fun i pfd => { pfd with revents := revents i } }) :
    run step (entry t fd) (if fd ∈ t.live then
      ((t.fds.findIdx? (·.fd == fd)).map fun i => Own.poll (revents i)).toList else []) =
      some (entry { t with fds := t.fds.mapIdx fun i pfd => { pfd with revents := revents i } } fd) := by
  by_cases known : fd ∈ t.live
  · obtain ⟨i, e, shown⟩ := shown_of_live held known
    rw [if_pos known, findIdx_slot shown, shown.entry]
    have here : ({ t with fds := t.fds.mapIdx fun i pfd => { pfd with revents := revents i } } :
        Table).fds[i]? = some ⟨fd, e.events, revents i⟩ := by
      simp [shown.here]
    have found := find_slot after here shown.taken
    simp only [Option.map_some, Option.toList_some, run_cons, step, Option.bind_some]
    rw [entry, found, Option.bind_eq_bind, Option.bind_some, shown.data]
    rfl
  · rw [if_neg known]
    simp [run, entry, connector_absent held known]

/-- A round of the slot loop is one to the descriptor of its slot. -/
theorem slot_seen (fd : Int) {fdSize : Int} {io : SlotIo} (held : Consistent t)
    (stepped : slotRound t i fdSize io = some next) :
    run step (entry t fd) (own fd ⟨t, .slot i fdSize⟩ (.slot io)) = some (entry next.table fd) := by
  unfold slotRound at stepped
  unfold own
  dsimp only
  split at stepped
  · rename_i outside
    cases stepped
    rw [outside]
    rfl
  · rename_i pfd here
    rw [here]
    dsimp only
    by_cases free : pfd.fd = -1
    · rw [if_pos free] at stepped
      cases stepped
      rw [if_neg fun ⟨_, taken, _⟩ => taken free]
      rfl
    · rw [if_neg free] at stepped
      by_cases spent : fdSize ≤ 0
      · rw [if_pos spent] at stepped
        cases stepped
        rw [if_neg fun ⟨_, _, left, _⟩ => absurd spent (Int.not_le.mpr left)]
        rfl
      · rw [if_neg spent] at stepped
        split at stepped
        · rename_i ready
          obtain ⟨⟨after, flow⟩, handled, rfl⟩ := Option.map_eq_some_iff.mp stepped
          have known : pfd.fd ∈ t.live := At.known ⟨held, free, by rw [here]; rfl⟩
          obtain ⟨j, e, shown⟩ := shown_of_live held known
          obtain rfl : i = j := slot_unique held here shown.here rfl free
          have slot : pfd = ⟨pfd.fd, e.events, e.revents⟩ := Option.some.inj (here.symm.trans shown.here)
          rw [slot] at handled
          obtain ⟨r, done, left⟩ := handleSlot_leaves shown handled
          by_cases same : pfd.fd = fd
          · subst same
            rw [if_pos ⟨rfl, free, Int.not_le.mp spent, ready⟩, shown.entry, run_cons, left.entry,
              step, done]
            rfl
          · rw [if_neg fun both => same both.1]
            exact untouched held left.consistent (left.apart fd (Ne.symm same))
        · rename_i quiet
          cases stepped
          rw [if_neg fun ⟨_, _, _, ready⟩ => quiet ready]
          rfl

/-- The head of an iteration is nothing to a descriptor but the one it
accepts. -/
theorem iterate_seen (fd : Int) {accepted : Option Int} (held : Consistent s.table)
    (stepped : iterate s.table accepted = some next) :
    run step (entry s.table fd) (own fd s (.iterate accepted)) = some (entry next.table fd) := by
  unfold iterate at stepped
  unfold own
  dsimp only
  split at stepped
  · cases stepped
  · rename_i pfd here
    rw [here]
    dsimp only
    by_cases asked : pfd.revents &&& POLLIN ≠ 0
    · rw [if_pos asked] at stepped
      cases accepted with
      | none =>
        cases stepped
        simp [run]
      | some other =>
        obtain ⟨fresh, rfl⟩ := guarded_eq_some.mp stepped
        have one : (pfd.revents &&& POLLIN ≠ 0 ∧ some other = some fd) = (other = fd) := by
          rw [Option.some_inj, eq_iff_iff, and_iff_right asked]
        simp only [one]
        exact connect_seen held fresh
    · rw [if_neg asked] at stepped
      cases stepped
      rw [if_neg fun both => asked both.1]
      rfl

/-- An event does to a descriptor what the descriptor sees of it. -/
theorem own_step (fd : Int) (s : Server) (e : Event) (next : Server) (sound : Sound s)
    (stepped : RttTable.step s e = some next) :
    run step (entry s.table fd) (own fd s e) = some (entry next.table fd) := by
  have held := sound.1
  have after := (sound_step sound stepped).1
  cases e with
  | connect other =>
    obtain ⟨⟨-, fresh⟩, rfl⟩ := guarded_eq_some.mp stepped
    exact connect_seen held fresh
  | attach other translation =>
    obtain ⟨known, rfl⟩ := guarded_eq_some.mp stepped
    rw [own]
    by_cases same : other = fd
    · subst same
      obtain ⟨i, e, shown⟩ := shown_of_live held known
      rw [if_pos rfl, shown.entry]
      exact congrArg some (setData_entry shown translation).symm
    · rw [if_neg same]
      exact untouched held after fun _ => setData_apart (Ne.symm same) translation
  | poll revents =>
    obtain ⟨-, rfl⟩ := guarded_eq_some.mp stepped
    exact poll_seen held revents after
  | iterate accepted =>
    unfold RttTable.step at stepped
    dsimp only at stepped
    split at stepped
    · exact iterate_seen fd held stepped
    · cases stepped
  | slot io =>
    unfold RttTable.step at stepped
    dsimp only at stepped
    split at stepped
    · rename_i i fdSize here
      have seen := slot_seen fd held stepped
      obtain ⟨table, place⟩ := s
      obtain rfl : place = .slot i fdSize := here
      exact seen
    · cases stepped

/-- For every run of the server and every descriptor: what becomes of its slot,
its events and its `Translation` is what a run of its own makes of them, in
which nothing occurs but its own accepts, data, `revents` and reads and
writes. -/
theorem connections_isolated (fd : Int) {events : List Event} {final : Server}
    (ran : run RttTable.step start events = some final) :
    run step none (observe RttTable.step (own fd) start events) = some (entry final.table fd) :=
  run_observed (fun s => entry s.table fd)
    (fun _ _ _ sound stepped => sound_step sound stepped) (own_step fd) sound_start ran

/-- Connection 8 is disposed while 7 goes on, and 9 gets its slot with what was
reported for 8. -/
theorem connections_isolated_reused :
    let io : SlotIo := {
      readable := ⟨none, ⟨0, 0⟩, ⟨0, 0⟩, { accepts := none }, [], fun _ => 0⟩
      writable := { accepts := some 0 }
      error := 104 }
    ∃ final, run RttTable.step start [.connect 7, .connect 8, .attach 8 {},
        .poll (fun _ => POLLOUT ||| POLLERR), .iterate none, .slot io, .connect 9] = some final ∧
      entry final.table 9 = some ⟨none, POLLIN ||| POLLERR, POLLOUT ||| POLLERR⟩ := by
  intro io
  obtain ⟨final, ran⟩ := Option.isSome_iff_exists.mp (show (run RttTable.step start
    [.connect 7, .connect 8, .attach 8 {}, .poll (fun _ => POLLOUT ||| POLLERR), .iterate none,
      .slot io, .connect 9]).isSome from rfl)
  exact ⟨final, ran, (Option.some.inj (connections_isolated 9 ran)).symm⟩

/-! ### The server as it stands -/

/-- Nothing in the source calls `setData`. -/
def bareStep (s : Server) : Event → Option Server
  | .attach _ _ => none
  | e => RttTable.step s e

/-- A connection without data still waits for what it waited for at first. -/
def Bare (r : Option Entry) : Prop := ∀ e, r = some e → e.data = none ∧ e.events = POLLIN ||| POLLERR

/-- Without data the body of the slot loop drops the connection or leaves
everything as it was. -/
theorem bare_handle {io : SlotIo} (bare : e.data = none) (handled : e.handle io = some (r, flow)) :
    r = none ∨ r = some e := by
  unfold Entry.handle at handled
  obtain ⟨⟨read, readFlow⟩, reading, handled⟩ := Option.bind_eq_some_iff.mp handled
  have first : read = none ∨ read = some e := by
    split at reading
    · rw [Entry.pollin, bare] at reading
      split at reading
      · cases reading
        exact .inl rfl
      · cases reading
        exact .inr rfl
    · cases reading
      exact .inr rfl
  dsimp only at handled
  split at handled
  · cases handled
    exact first
  · obtain ⟨⟨written, writtenFlow⟩, writing, handled⟩ := Option.bind_eq_some_iff.mp handled
    have second : written = none ∨ written = some e := by
      rcases first with rfl | rfl
      · cases writing
        exact .inl rfl
      · dsimp only at writing
        rw [Entry.pollout, bare] at writing
        split at writing
        · cases writing
          exact .inr rfl
        · cases writing
          exact .inr rfl
    dsimp only at handled
    split at handled
    · cases handled
      exact second
    · split at handled
      · split at handled
        · cases handled
          exact second
        · cases handled
          exact .inl rfl
      · cases handled
        exact second

theorem bare_step {o : Own} {after : Option Entry} (bare : Bare r) (stepped : step r o = some after)
    (unset : ∀ translation, o ≠ .attach translation) : Bare after := by
  cases r with
  | none =>
    cases o with
    | connect revents =>
      cases stepped
      intro e same
      cases same
      exact ⟨rfl, rfl⟩
    | attach translation => exact absurd rfl (unset translation)
    | poll revents => cases stepped
    | slot io => cases stepped
  | some e =>
    cases o with
    | connect revents => cases stepped
    | attach translation => exact absurd rfl (unset translation)
    | poll revents =>
      cases stepped
      intro later same
      cases same
      exact bare e rfl
    | slot io =>
      obtain ⟨⟨left, flow⟩, handled, rfl⟩ := Option.map_eq_some_iff.mp stepped
      rcases bare_handle (bare e rfl).1 handled with rfl | rfl
      · exact nofun
      · exact bare

theorem bare_run {labels : List Own} {after : Option Entry} (bare : Bare r)
    (unset : ∀ o ∈ labels, ∀ translation, o ≠ .attach translation)
    (ran : run step r labels = some after) : Bare after := by
  induction labels generalizing r with
  | nil => exact Option.some.inj ran ▸ bare
  | cons o rest ih =>
    obtain ⟨next, stepped, ran⟩ := run_cons_some.mp ran
    obtain ⟨here, later⟩ := List.forall_mem_cons.mp unset
    exact ih (bare_step bare stepped here) later ran

/-- No event but `setData` gives a descriptor data. -/
theorem own_unset {e : Event} (unset : ∀ fd translation, e ≠ .attach fd translation) :
    ∀ o ∈ own fd s e, ∀ translation, o ≠ .attach translation := by
  intro o member translation
  rintro rfl
  cases e with
  | connect other =>
    rw [own] at member
    split at member <;> simp at member
  | attach other translation => exact unset other translation rfl
  | poll revents =>
    rw [own] at member
    split at member <;> simp at member
  | iterate accepted =>
    unfold own at member
    dsimp only at member
    split at member
    · split at member <;> simp at member
    · simp at member
  | slot io =>
    unfold own at member
    dsimp only at member
    split at member
    · split at member
      · split at member <;> simp at member
      · simp at member
    · simp at member

theorem bareStep_eq_some {e : Event} (stepped : bareStep s e = some next) :
    RttTable.step s e = some next ∧ ∀ fd translation, e ≠ .attach fd translation := by
  cases e with
  | attach fd translation => cases stepped
  | connect fd => exact ⟨stepped, nofun⟩
  | poll revents => exact ⟨stepped, nofun⟩
  | iterate accepted => exact ⟨stepped, nofun⟩
  | slot io => exact ⟨stepped, nofun⟩

/-- In every run of the server as it stands: no connection ever has data to
answer from or comes to be written to, and the first one that is read leaves
`startDomain` by an exception, with the bytes read lost and the table as it
was. -/
theorem nothing_answered {events : List Event} {final : Server}
    (ran : run bareStep start events = some final) :
    (∀ fd e, entry final.table fd = some e → e.data = none ∧ e.events = POLLIN ||| POLLERR) ∧
      ∀ i fdSize pfd io, final.place = .slot i fdSize → final.table.fds[i]? = some pfd →
        pfd.fd ≠ -1 → 0 < fdSize → pfd.revents &&& POLLIN ≠ 0 → 0 < io.readable.rs →
        bareStep final (.slot io) = some { final with place := .outside } := by
  have kept : ∀ s e next, (Sound s ∧ ∀ fd, Bare (entry s.table fd)) → bareStep s e = some next →
      Sound next ∧ ∀ fd, Bare (entry next.table fd) := by
    rintro s e next ⟨sound, bare⟩ stepped
    obtain ⟨stepped, unset⟩ := bareStep_eq_some stepped
    exact ⟨sound_step sound stepped, fun fd =>
      bare_run (bare fd) (own_unset unset) (own_step fd s e next sound stepped)⟩
  obtain ⟨sound, bare⟩ := run_keeps kept ⟨sound_start, fun fd e same => (by cases same)⟩ ran
  refine ⟨bare, ?_⟩
  intro i fdSize pfd io place here taken left asked some
  have known : pfd.fd ∈ final.table.live := At.known ⟨sound.1, taken, by rw [here]; rfl⟩
  obtain ⟨j, e, shown⟩ := shown_of_live sound.1 known
  have empty := (bare pfd.fd e shown.entry).1
  have reads : final.table.pollin i pfd.fd io.readable = Option.some (final.table, .leave) := by
    rw [Table.pollin, if_neg fun ended => absurd ended.1 (Int.not_le.mpr some), shown.getData, empty]
  have handled : final.table.handleSlot i pfd io = Option.some (final.table, .leave) := by
    unfold Table.handleSlot
    dsimp only
    rw [if_pos asked, reads, Option.bind_some]
    rfl
  change RttTable.step final (.slot io) = _
  unfold RttTable.step
  dsimp only
  rw [place]
  dsimp only
  rw [slotRound, here]
  dsimp only
  rw [if_neg taken, if_neg (Int.not_le.mpr left), if_pos (.inr (.inl asked)), handled]
  rfl

/-- A whole request for connection 8. -/
theorem nothing_answered_request :
    let io : SlotIo := {
      readable := ⟨some (List.replicate 24 0), ⟨0, 0⟩, ⟨0, 0⟩, { accepts := none }, [], fun _ => 0⟩
      writable := { accepts := none }
      error := 0 }
    ∃ final, run bareStep start [.connect 7, .connect 8, .poll (fun i => if i = 1 then POLLIN else 0),
        .iterate none] = some final ∧
      bareStep final (.slot io) = some { final with place := .outside } := by
  intro io
  obtain ⟨final, ran, slot⟩ := Option.map_eq_some_iff.mp (show (run bareStep start
    [.connect 7, .connect 8, .poll (fun i => if i = 1 then POLLIN else 0), .iterate none]).map
      (fun s => (s.place, s.table.fds[1]?)) =
        some (.slot 1 1, some ⟨8, POLLIN ||| POLLERR, POLLIN⟩) from rfl)
  obtain ⟨place, here⟩ := Prod.mk.inj slot
  exact ⟨final, ran, (nothing_answered ran).2 1 1 _ io place here (by decide) (by decide) (by decide)
    (by decide)⟩

end ExNetlink.RttIsolation
