import Mathlib.Data.List.Nodup
import ExNetlink.PollDispatch

/-! Which entries of a snapshot `Poll::event_handler` dispatches.

`num` is what `poll(2)` returned, the number of entries with events. The loop
counts it down and stops at zero, but it counts, and calls, for every entry
whose socket is registered and watches something, whether or not there is an
event. So a quiet entry is called, and takes the place of a ready one that
comes later. -/
namespace ExNetlink.PollReady
open Reactor PollDispatch Runs

variable {poll : Poll} {sockets : SocketRef → Socket} {entries : List PollFd} {num : Nat}

/-- `Poll::event_handler` over a table that nobody changes meanwhile: its calls
of `event_handler_`, each with the descriptor of its entry. -/
def eventHandler (poll : Poll) (sockets : SocketRef → Socket) :
    Nat → List PollFd → List (Int × Handled)
  | _, [] => []
  | num, f :: rest =>
    if num = 0 then []
    else match poll.dispatch sockets f with
      | some handled => (f.fd, handled) :: eventHandler poll sockets (num - 1) rest
      | none => eventHandler poll sockets num rest

/-- The loop in one piece is the loop taken step by step. -/
theorem eventHandler_steps (s : Reacting) (num : Nat) (entries : List PollFd)
    (here : s.phase = .dispatching num entries) :
    ∃ count, run step s (List.replicate count .dispatch) = some { s with
      phase := .idle
      deliveries := s.deliveries ++
        (eventHandler s.registry.poll s.registry.sockets num entries).map
          fun call => ⟨call.1, s.polled call.1, call.2⟩ } := by
  induction entries generalizing s num with
  | nil =>
    refine ⟨1, ?_⟩
    simp [run, step, here, Reacting.eventHandler, eventHandler]
  | cons f rest ih =>
    by_cases zero : num = 0
    · refine ⟨1, ?_⟩
      simp [run, step, here, Reacting.eventHandler, eventHandler, zero]
    · cases called : s.registry.poll.dispatch s.registry.sockets f with
      | none =>
        obtain ⟨count, ran⟩ := ih { s with phase := .dispatching num rest } num rfl
        refine ⟨count + 1, ?_⟩
        rw [List.replicate_succ, run_cons]
        simp only [step, here, Reacting.eventHandler, if_neg zero, called, Option.bind_some,
          eventHandler]
        exact ran
      | some handled =>
        obtain ⟨count, ran⟩ := ih
          { s with
            phase := .dispatching (num - 1) rest
            deliveries := s.deliveries ++ [⟨f.fd, s.polled f.fd, handled⟩] } (num - 1) rfl
        refine ⟨count + 1, ?_⟩
        rw [List.replicate_succ, run_cons]
        simp only [step, here, Reacting.eventHandler, if_neg zero, called, Option.bind_some,
          eventHandler, List.map_cons]
        simpa only [List.append_assoc, List.singleton_append] using ran

/-- The descriptor is in `fdtbs_`, with a socket that watches something. -/
def registered (poll : Poll) (sockets : SocketRef → Socket) (f : PollFd) : Bool :=
  (poll.fdtbs f.fd).any fun socket => (sockets socket).responsable

/-- The loop calls `event_handler_` for the entry, if it gets that far. -/
def live (poll : Poll) (sockets : SocketRef → Socket) (f : PollFd) : Bool :=
  f.fd ≠ -1 && registered poll sockets f

/-- The call that an entry with events is due. -/
def due (poll : Poll) (sockets : SocketRef → Socket) (f : PollFd) : Option Handled :=
  if f.revents ≠ 0 ∧ registered poll sockets f then
    (poll.fdtbs f.fd).map fun socket => {
      socket := socket
      readable := f.revents &&& POLLIN != 0
      writeable := f.revents &&& POLLOUT != 0
      errorable := f.revents &&& POLLERR != 0 }
  else none

/-- Each entry gets the call it is due, once, and no other. -/
def Dispatches (poll : Poll) (sockets : SocketRef → Socket) (num : Nat)
    (entries : List PollFd) : Prop :=
  ∀ f ∈ entries, ((eventHandler poll sockets num entries).filter fun call => call.1 = f.fd) =
    ((due poll sockets f).map fun handled => (f.fd, handled)).toList

/-- Every quiet entry that would be called comes behind `num` others that are,
and no entry of the number -1, which the loop passes over, has an event and a
socket. -/
structure Ordered (poll : Poll) (sockets : SocketRef → Socket) (num : Nat)
    (entries : List PollFd) : Prop where
  quiet : ∀ i (inside : i < entries.length), live poll sockets entries[i] →
    entries[i].revents = 0 → num ≤ (entries.take i).countP (live poll sockets)
  valid : ∀ f ∈ entries, f.revents ≠ 0 → registered poll sockets f → f.fd ≠ -1

theorem dispatch_isSome (poll : Poll) (sockets : SocketRef → Socket) (f : PollFd) :
    (poll.dispatch sockets f).isSome = live poll sockets f := by
  rw [Poll.dispatch, live, registered]
  by_cases valid : f.fd = -1
  · simp [valid]
  · cases found : poll.fdtbs f.fd with
    | none => simp [valid]
    | some socket => by_cases enabled : (sockets socket).responsable <;> simp [valid, enabled]

/-- What the loop calls is what is due, for an entry with events. -/
theorem dispatch_eq_due {f : PollFd} (called : live poll sockets f) (ready : f.revents ≠ 0) :
    poll.dispatch sockets f = due poll sockets f := by
  rw [live, Bool.and_eq_true, decide_eq_true_eq] at called
  obtain ⟨valid, watched⟩ := called
  rw [Poll.dispatch, due, if_pos valid, if_pos ⟨ready, watched⟩]
  cases found : poll.fdtbs f.fd with
  | none => rfl
  | some socket =>
    have enabled : (sockets socket).responsable := by simpa [registered, found] using watched
    simp [enabled]

theorem due_eq_none {f : PollFd} :
    due poll sockets f = none ↔ ¬ (f.revents ≠ 0 ∧ registered poll sockets f) := by
  rw [due]
  split
  · rename_i wanted
    refine iff_of_false ?_ (not_not.mpr wanted)
    cases found : poll.fdtbs f.fd with
    | none => simp [registered, found] at wanted
    | some socket => simp
  · rename_i unwanted
    exact iff_of_true rfl unwanted

/-- The call for an entry, if there is one, with its descriptor. -/
def called (poll : Poll) (sockets : SocketRef → Socket) (f : PollFd) : Option (Int × Handled) :=
  (poll.dispatch sockets f).map fun handled => (f.fd, handled)

/-- The entries that the loop calls for: the first `num` that it can. -/
def chosen (poll : Poll) (sockets : SocketRef → Socket) (num : Nat) (entries : List PollFd) :
    List PollFd := (entries.filter (live poll sockets)).take num

theorem eventHandler_eq (poll : Poll) (sockets : SocketRef → Socket) (num : Nat)
    (entries : List PollFd) : eventHandler poll sockets num entries =
      (chosen poll sockets num entries).filterMap (called poll sockets) := by
  induction entries generalizing num with
  | nil => simp [eventHandler, chosen]
  | cons f rest ih =>
    have some := dispatch_isSome poll sockets f
    cases num with
    | zero => simp [eventHandler, chosen]
    | succ num =>
      rw [eventHandler, if_neg (Nat.succ_ne_zero num)]
      cases found : poll.dispatch sockets f with
      | none =>
        have dead : live poll sockets f = false := by simpa [found] using some.symm
        simp [dead, ih, chosen]
      | some handled =>
        have alive : live poll sockets f = true := by simpa [found] using some.symm
        simp [alive, ih, found, chosen, called]

/-- An element is among the first `n` that pass when fewer pass before it. -/
theorem mem_take_filter {before after : List α} {x : α} {p : α → Bool} (fresh : x ∉ before)
    (hit : p x = true) (n : Nat) :
    x ∈ ((before ++ x :: after).filter p).take n ↔ before.countP p < n := by
  have early : ∀ k, x ∉ (before.filter p).take k := fun k member =>
    fresh (List.mem_of_mem_filter (List.mem_of_mem_take member))
  rw [List.filter_append, List.filter_cons_of_pos hit, List.take_append, List.mem_append,
    or_iff_right (early n), ← List.countP_eq_length_filter]
  constructor
  · intro member
    by_contra late
    rw [Nat.sub_eq_zero_of_le (Nat.le_of_not_lt late)] at member
    simp at member
  · intro room
    obtain ⟨k, more⟩ := Nat.exists_eq_add_of_lt room
    rw [show n - before.countP p = k + 1 by omega]
    exact List.mem_cons_self

/-- Among entries with distinct descriptors, the calls under one descriptor are
those of its own entry. -/
theorem calls_under {list : List PollFd} {f : PollFd} (distinct : list.Nodup)
    (own : ∀ g ∈ list, g.fd = f.fd → g = f) :
    ((list.filterMap (called poll sockets)).filter fun call => call.1 = f.fd) =
      if f ∈ list then (called poll sockets f).toList else [] := by
  induction list with
  | nil => simp
  | cons g rest ih =>
    obtain ⟨fresh, distinct⟩ := List.nodup_cons.mp distinct
    have later := ih distinct fun h member => own h (List.mem_cons_of_mem g member)
    by_cases same : g = f
    · subst same
      rw [if_neg fresh] at later
      cases found : poll.dispatch sockets g with
      | none => simpa [called, found] using later
      | some handled => simpa [called, found] using later
    · have apart : g.fd ≠ f.fd := fun equal => same (own g List.mem_cons_self equal)
      have other : f ∈ g :: rest ↔ f ∈ rest := by simp [Ne.symm same]
      simp only [other]
      cases found : poll.dispatch sockets g with
      | none => simpa [called, found] using later
      | some handled => simpa [called, found, apart] using later

section Distinct
variable (distinct : (entries.map PollFd.fd).Nodup)
include distinct

/-- The loop gets to an entry it can call for when fewer than `num` such
entries come before it. -/
theorem mem_chosen {i : Nat} (inside : i < entries.length) :
    entries[i] ∈ chosen poll sockets num entries ↔
      live poll sockets entries[i] ∧ (entries.take i).countP (live poll sockets) < num := by
  have split : entries.take i ++ entries[i] :: entries.drop (i + 1) = entries := by
    rw [← List.drop_eq_getElem_cons inside, List.take_append_drop]
  have fresh : entries[i] ∉ entries.take i := by
    have whole : (entries.take i ++ entries[i] :: entries.drop (i + 1)).Nodup := by
      rw [split]
      exact distinct.of_map
    intro member
    exact List.disjoint_of_nodup_append whole member List.mem_cons_self
  by_cases hit : live poll sockets entries[i] = true
  · have early : entries[i] ∈ ((entries.take i ++ entries[i] :: entries.drop (i + 1)).filter
        (live poll sockets)).take num ↔ (entries.take i).countP (live poll sockets) < num :=
      mem_take_filter fresh hit num
    rw [split] at early
    rw [chosen, early, and_iff_right hit]
  · refine iff_of_false (fun member => hit ?_) fun both => hit both.1
    exact (List.mem_filter.mp (List.mem_of_mem_take member)).2

/-- Each entry gets its due exactly when those called for are those that are
due. -/
theorem dispatches_iff :
    Dispatches poll sockets num entries ↔ ∀ f ∈ entries,
      (f ∈ chosen poll sockets num entries ↔ f.revents ≠ 0 ∧ registered poll sockets f) := by
  have sublist : (chosen poll sockets num entries).Sublist entries :=
    (List.take_sublist _ _).trans List.filter_sublist
  rw [Dispatches, eventHandler_eq]
  refine forall₂_congr fun f member => ?_
  have own : ∀ g ∈ chosen poll sockets num entries, g.fd = f.fd → g = f := fun g inside same =>
    List.inj_on_of_nodup_map distinct (sublist.subset inside) member same
  rw [calls_under (distinct.of_map.sublist sublist) own]
  by_cases reached : f ∈ chosen poll sockets num entries
  · have alive := (List.mem_filter.mp (List.mem_of_mem_take reached)).2
    rw [if_pos reached, iff_true_left reached]
    by_cases wanted : f.revents ≠ 0 ∧ registered poll sockets f
    · rw [called, dispatch_eq_due alive wanted.1]
      exact iff_of_true rfl wanted
    · refine iff_of_false ?_ wanted
      rw [due_eq_none.mpr wanted]
      have some := dispatch_isSome poll sockets f
      rw [alive] at some
      obtain ⟨handled, found⟩ := Option.isSome_iff_exists.mp some
      simp [called, found]
  · rw [if_neg reached, iff_false_left reached, ← due_eq_none]
    cases due poll sockets f <;> simp

/-- Under the order, what is chosen has events. -/
theorem Ordered.ready (ordered : Ordered poll sockets num entries) {f : PollFd}
    (reached : f ∈ chosen poll sockets num entries) : f.revents ≠ 0 := by
  intro quiet
  have member := (List.mem_filter.mp (List.mem_of_mem_take reached)).1
  obtain ⟨i, inside, rfl⟩ := List.getElem_of_mem member
  obtain ⟨alive, room⟩ := (mem_chosen distinct inside).mp reached
  have late := ordered.quiet i inside alive quiet
  omega

/-- Under the order the loop gets to every entry with events: had it called for
`num` others before, these would all have events. -/
theorem Ordered.reaches (ordered : Ordered poll sockets num entries)
    (counted : num = entries.countP fun f => f.revents ≠ 0) {i : Nat} (inside : i < entries.length)
    (ready : entries[i].revents ≠ 0) : (entries.take i).countP (live poll sockets) < num := by
  by_contra late
  have full : ((entries.take i).filter (live poll sockets)).take num = chosen poll sockets num entries := by
    have split : (entries.take i).filter (live poll sockets) ++
        (entries.drop i).filter (live poll sockets) = entries.filter (live poll sockets) := by
      rw [← List.filter_append, List.take_append_drop]
    rw [chosen, ← split, List.take_append_of_le_length]
    rw [← List.countP_eq_length_filter]
    omega
  have length : (chosen poll sockets num entries).length = num := by
    rw [← full, List.length_take, ← List.countP_eq_length_filter]
    omega
  have within : (chosen poll sockets num entries).Sublist (entries.take i) := by
    rw [← full]
    exact (List.take_sublist _ _).trans List.filter_sublist
  have all : (chosen poll sockets num entries).countP (fun f => f.revents ≠ 0) = num := by
    rw [List.countP_eq_length.mpr, length]
    intro f member
    exact decide_eq_true (ordered.ready distinct member)
  have before := within.countP_le (p := fun f => decide (f.revents ≠ 0))
  have total : entries.countP (fun f => f.revents ≠ 0) =
      (entries.take i).countP (fun f => f.revents ≠ 0) +
        (entries.drop i).countP (fun f => f.revents ≠ 0) := by
    rw [← List.countP_append, List.take_append_drop]
  have here : 0 < (entries.drop i).countP fun f => f.revents ≠ 0 := by
    rw [List.drop_eq_getElem_cons inside]
    exact List.countP_pos_iff.mpr ⟨entries[i], List.mem_cons_self, decide_eq_true ready⟩
  omega

/-- For every snapshot with distinct descriptors, every table, and `num` the
number of entries with events: each entry gets the call it is due, once, and no
other, exactly when every quiet entry that would be called comes behind `num`
others that are called for. -/
theorem ready_dispatched_iff (counted : num = entries.countP fun f => f.revents ≠ 0) :
    Dispatches poll sockets num entries ↔ Ordered poll sockets num entries := by
  rw [dispatches_iff distinct]
  constructor
  · intro right
    constructor
    · intro i inside alive quiet
      by_contra early
      have reached := (mem_chosen distinct inside).mpr ⟨alive, Nat.lt_of_not_le early⟩
      exact ((right _ (List.getElem_mem inside)).mp reached).1 quiet
    · intro f member ready watched
      have reached := (right f member).mpr ⟨ready, watched⟩
      have alive := (List.mem_filter.mp (List.mem_of_mem_take reached)).2
      simp only [live, Bool.and_eq_true, decide_eq_true_eq] at alive
      exact alive.1
  · intro ordered f member
    constructor
    · intro reached
      have alive := (List.mem_filter.mp (List.mem_of_mem_take reached)).2
      simp only [live, Bool.and_eq_true] at alive
      exact ⟨ordered.ready distinct reached, alive.2⟩
    · rintro ⟨ready, watched⟩
      obtain ⟨i, inside, rfl⟩ := List.getElem_of_mem member
      have valid := ordered.valid _ member ready watched
      refine (mem_chosen distinct inside).mpr ⟨?_, ordered.reaches distinct counted inside ready⟩
      simp [live, valid, watched]

end Distinct

/-- Sockets 5, 6 and 7 watch for reading. -/
def watching : Poll where
  fds := []
  fdtbs := fun fd => if fd = 5 then some 0 else if fd = 6 then some 1 else if fd = 7 then some 2 else none

/-- Two ready entries, an unregistered one, and a quiet one at the end. -/
theorem ready_dispatched_first :
    Dispatches watching (fun _ => { id := 0, model := .normal, readenable := true }) 2
      [⟨9, POLLIN, 0⟩, ⟨5, POLLIN, POLLIN⟩, ⟨6, POLLIN, POLLERR⟩, ⟨7, POLLIN, 0⟩] :=
  (ready_dispatched_iff (by decide) (by decide)).mpr ⟨by decide, by decide⟩

/-- A quiet entry in front of a ready one is called and the ready one is not. -/
theorem quiet_entry_dispatched :
    let sockets : SocketRef → Socket := fun _ => { id := 0, model := .normal, readenable := true }
    let entries : List PollFd := [⟨5, POLLIN, 0⟩, ⟨6, POLLIN, POLLIN⟩]
    eventHandler watching sockets 1 entries = [(5, ⟨0, false, false, false⟩)] ∧
      ¬ Dispatches watching sockets 1 entries := by
  refine ⟨by decide, fun right => ?_⟩
  have ready := right ⟨6, POLLIN, POLLIN⟩ (by decide)
  exact absurd ready (by decide)

end ExNetlink.PollReady
