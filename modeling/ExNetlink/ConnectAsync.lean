import Mathlib.Data.Nat.Bitwise
import ExNetlink.Sockops

/-! What `connectAsync` reports and what it connects on.

`Results.fate` says what the results of the system calls amount to and, where
they amount to a failure, its cause. The code reads the cause from `errno`,
which by then may be the one of `close`, and is `EINPROGRESS` when the cause
was reported through `SO_ERROR`. -/
namespace ExNetlink.ConnectAsync
open Sockops

variable {p q : Process} {r : Results}

/-- The first `connect` that does not ask to try again. -/
def decisive (connects : List Result) : Option Result :=
  connects.find? fun result => result ≠ .failed EAGAIN

/-- What the results of the calls amount to. -/
inductive Fate where
  | pending
  | connected
  | failed (cause : Condition)
  deriving DecidableEq, Repr

/-- The error of a failed call. -/
def Fate.errorOf (errno : Errno) : Fate := .failed ⟨errno.code, .system⟩

/-- What it comes to once a connection is in progress. -/
def awaitFate (r : Results) : Fate :=
  match r.select with
  | .failed errno => .errorOf errno
  | .expired => .failed .timedOut
  | .ready =>
    match r.getsockopt with
    | .failed errno => .errorOf errno
    | .reported error => if error = 0 then .connected else .failed ⟨error, .system⟩

def fate (r : Results) : Fate :=
  match decisive r.connects with
  | none => .pending
  | some .done => .connected
  | some (.failed errno) => if errno = EINPROGRESS then awaitFate r else .errorOf errno

/-- How often the process has closed the descriptor. -/
def closes (p : Process) : Nat := p.calls.count .close

/-- Success is returned only for a connection, and every other return comes
after closing the descriptor once and names the cause. -/
structure Reports (p : Process) (r : Results) : Prop where
  success : ∀ condition, (connectAsync p r).2 = some condition → condition.value = 0 →
    fate r = .connected
  failure : ∀ condition, (connectAsync p r).2 = some condition → condition.value ≠ 0 →
    closes (connectAsync p r).1 = closes p + 1 ∧ fate r = .failed condition

/-- `errno` after `close`. -/
def leaves : Result → Int → Int
  | .done, errno => errno
  | .failed other, _ => other.code

/-- `select` does not fail; `close` leaves the error of a failed `getsockopt` in
`errno`; and what is in `errno` after `close` is the error that `SO_ERROR`
reports, if it reports one. -/
def AwaitTruthful (r : Results) : Prop :=
  match r.select with
  | .failed _ => False
  | .expired => True
  | .ready =>
    match r.getsockopt with
    | .failed errno => leaves r.close errno.code = errno.code
    | .reported error => error = 0 ∨ leaves r.close EINPROGRESS.code = error

/-- The same for the whole call: `close` also leaves the error of a failed
`connect`. -/
def Truthful (r : Results) : Prop :=
  match decisive r.connects with
  | none => True
  | some .done => True
  | some (.failed errno) =>
    if errno = EINPROGRESS then AwaitTruthful r else leaves r.close errno.code = errno.code

/-! ### The loop -/

theorem code_inj {first second : Errno} : first.code = second.code ↔ first = second := by
  cases first
  cases second
  simp

/-- Some calls of `connect` were made, and nothing else. -/
structure Tried (p q : Process) : Prop where
  flags : q.flags = p.flags
  calls : ∃ again, q.calls = p.calls ++ List.replicate (again + 1) (.connect p.flags)

/-- How the loop is left after its last `connect`. -/
def leave (q : Process) (close : Result) : Option Result → Process × Attempt
  | none => (q, .pending)
  | some .done => (q, .returned .success)
  | some (.failed errno) =>
    if errno = EINPROGRESS then (q.fail errno, .inProgress)
    else ((q.fail errno).close close, .returned ((q.fail errno).close close).lastError)

theorem tried_once (p : Process) : Tried p (p.issue (.connect p.flags)) := ⟨rfl, 0, rfl⟩

theorem connectLoop_spec (p : Process) (close : Result) (connects : List Result) :
    ∃ q, Tried p q ∧ connectLoop p close connects = leave q close (decisive connects) := by
  induction connects generalizing p with
  | nil => exact ⟨_, tried_once p, rfl⟩
  | cons result rest ih =>
    cases result with
    | done => exact ⟨_, tried_once p, rfl⟩
    | failed errno =>
      by_cases again : errno = EAGAIN
      · subst again
        obtain ⟨q, ⟨flags, more, calls⟩, left⟩ := ih ((p.issue (.connect p.flags)).fail EAGAIN)
        refine ⟨q, ⟨flags, more + 1, ?_⟩, left⟩
        rw [calls, List.replicate_succ, List.replicate_succ]
        simp [Process.issue, Process.fail, List.replicate_succ]
      · have first : decisive (.failed errno :: rest) = some (.failed errno) := by
          simp [decisive, again]
        refine ⟨_, tried_once p, ?_⟩
        rw [first, leave]
        simp only [connectLoop, Process.fail, code_inj, if_neg again]

/-! ### The whole call -/

/-- The condition returned once a connection is in progress, by the results of
the calls. -/
def awaited (r : Results) : Condition :=
  match r.select with
  | .failed _ => .timedOut
  | .expired => .timedOut
  | .ready =>
    match r.getsockopt with
    | .failed errno => ⟨leaves r.close errno.code, .system⟩
    | .reported error => if error = 0 then .success else ⟨leaves r.close EINPROGRESS.code, .system⟩

/-- The condition `connectAsync` returns. -/
def outcome (r : Results) : Option Condition :=
  match decisive r.connects with
  | none => none
  | some .done => some .success
  | some (.failed errno) =>
    some (if errno = EINPROGRESS then awaited r else ⟨leaves r.close errno.code, .system⟩)

/-- How often a return with that condition closes the descriptor. -/
def closesFor (condition : Condition) : Nat := if condition.value = 0 then 0 else 1

theorem close_errno (p : Process) (close : Result) : (p.close close).errno = leaves close p.errno := by
  cases close <;> rfl

theorem closes_close (p : Process) (close : Result) : closes (p.close close) = closes p + 1 := by
  cases close <;> simp [closes, Process.close, Process.issue, Process.fail]

theorem closes_issue {call : Call} (other : call ≠ .close) (p : Process) :
    closes (p.issue call) = closes p := by
  simp [closes, Process.issue, other]

theorem closes_fail (p : Process) (errno : Errno) : closes (p.fail errno) = closes p := rfl

theorem leaves_ne_zero (close : Result) (errno : Errno) : leaves close errno.code ≠ 0 := by
  cases close with
  | done =>
    have positive := errno.positive
    simp only [leaves]
    omega
  | failed other =>
    have positive := other.positive
    simp only [leaves]
    omega

/-- `setSocketNotBlock` never comes to set a flag: the word it tests has the
bit it has just been or-ed with. -/
theorem setSocketNotBlock_eq (p : Process) (r : Results) :
    setSocketNotBlock p r = match r.getfl with
      | .done => (p.issue .getfl, .success)
      | .failed errno => ((p.issue .getfl).fail errno, ((p.issue .getfl).fail errno).lastError) := by
  rw [setSocketNotBlock]
  cases r.getfl with
  | done =>
    have tested : p.flags ||| O_NONBLOCK ≠ 0 := by simp [O_NONBLOCK, Nat.or_eq_zero_iff]
    simp [Process.getfl, tested]
  | failed errno => rfl

theorem closes_setSocketNotBlock (p : Process) (r : Results) :
    closes (setSocketNotBlock p r).1 = closes p := by
  rw [setSocketNotBlock_eq]
  cases r.getfl <;> exact closes_issue (by decide) p

theorem Tried.closes_eq (tried : Tried p q) : closes q = closes p := by
  obtain ⟨-, again, calls⟩ := tried
  rw [closes, calls, List.count_append, List.count_replicate]
  simp [closes]

/-- A return with `errno` after closing the descriptor. -/
theorem closed_spec (errno : Errno) (close : Result) (set : p.errno = errno.code) :
    (p.close close).lastError = ⟨leaves close errno.code, .system⟩ ∧
      closes (p.close close) = closes p + closesFor ⟨leaves close errno.code, .system⟩ := by
  constructor
  · rw [Process.lastError, close_errno, set]
  · rw [closes_close, closesFor, if_neg (leaves_ne_zero close errno)]

theorem awaitWritable_spec (r : Results) (set : p.errno = EINPROGRESS.code) :
    (awaitWritable p r).2 = awaited r ∧
      closes (awaitWritable p r).1 = closes p + closesFor (awaited r) := by
  have selected : closes (p.issue .select) = closes p := closes_issue (by decide) p
  rw [awaitWritable, awaited]
  cases r.select with
  | failed errno => exact ⟨rfl, (closes_close _ _).trans (by rw [closes_fail, selected]; rfl)⟩
  | expired => exact ⟨rfl, (closes_close _ _).trans (by rw [selected]; rfl)⟩
  | ready =>
    have asked : closes ((p.issue .select).issue .getsockopt) = closes p :=
      (closes_issue (by decide) _).trans selected
    cases r.getsockopt with
    | failed errno =>
      have reported := closed_spec (p := ((p.issue .select).issue .getsockopt).fail errno) errno
        r.close rfl
      rw [closes_fail, asked] at reported
      exact reported
    | reported error =>
      by_cases fine : error = 0
      · subst fine
        exact ⟨rfl, asked⟩
      · -- errno still holds what the last `connect` left there
        have reported := closed_spec (p := (p.issue .select).issue .getsockopt) EINPROGRESS r.close set
        rw [asked] at reported
        simpa [Process.select, Process.getsockopt, Select.ret, Select.isSet, fine] using reported

/-- The condition returned, and how often the descriptor was closed. -/
theorem connectAsync_spec (p : Process) (r : Results) :
    (connectAsync p r).2 = outcome r ∧
      ∀ condition, outcome r = some condition →
        closes (connectAsync p r).1 = closes p + closesFor condition := by
  obtain ⟨q, tried, left⟩ := connectLoop_spec (setSocketNotBlock p r).1 r.close r.connects
  have before : closes q = closes p := tried.closes_eq.trans (closes_setSocketNotBlock p r)
  rw [connectAsync, outcome]
  dsimp only
  rw [left]
  cases decisive r.connects with
  | none => exact ⟨rfl, nofun⟩
  | some result =>
    cases result with
    | done =>
      refine ⟨rfl, fun condition returned => ?_⟩
      obtain rfl := Option.some.inj returned
      exact before
    | failed errno =>
      rw [leave]
      by_cases waits : errno = EINPROGRESS
      · subst waits
        obtain ⟨known, closed⟩ := awaitWritable_spec (p := q.fail EINPROGRESS) r rfl
        rw [closes_fail, before] at closed
        refine ⟨congrArg some known, fun condition returned => ?_⟩
        obtain rfl := Option.some.inj returned
        exact closed
      · obtain ⟨known, closed⟩ := closed_spec (p := q.fail errno) errno r.close rfl
        rw [closes_fail, before] at closed
        simp only [if_neg waits, known, true_and]
        intro condition returned
        obtain rfl := Option.some.inj returned
        exact closed

/-- Every failing return closes the descriptor once, so it is the conditions
that decide. -/
theorem reports_iff :
    Reports p r ↔ ∀ condition, outcome r = some condition →
      fate r = if condition.value = 0 then .connected else .failed condition := by
  obtain ⟨returned, closed⟩ := connectAsync_spec p r
  constructor
  · rintro ⟨success, failure⟩ condition known
    rw [← returned] at known
    split
    · rename_i fine
      exact success condition known fine
    · rename_i failed
      exact (failure condition known failed).2
  · intro agree
    refine ⟨fun condition known fine => ?_, fun condition known failed => ?_⟩
    · rw [returned] at known
      rw [agree condition known, if_pos fine]
    · rw [returned] at known
      have counted := closed condition known
      rw [closesFor, if_neg failed] at counted
      exact ⟨counted, by rw [agree condition known, if_neg failed]⟩

/-- A failed call, reported after `close`. -/
theorem errorOf_iff (close : Result) (errno : Errno) :
    Fate.errorOf errno = (if leaves close errno.code = 0 then .connected
      else .failed ⟨leaves close errno.code, .system⟩) ↔ leaves close errno.code = errno.code := by
  rw [if_neg (leaves_ne_zero close errno), Fate.errorOf]
  simp [eq_comm]

theorem awaited_iff (r : Results) :
    awaitFate r = (if (awaited r).value = 0 then .connected else .failed (awaited r)) ↔
      AwaitTruthful r := by
  rw [awaitFate, awaited, AwaitTruthful]
  cases r.select with
  | failed errno => simp [Fate.errorOf, Condition.timedOut, ETIMEDOUT]
  | expired => simp [Condition.timedOut, ETIMEDOUT]
  | ready =>
    cases r.getsockopt with
    | failed errno => exact errorOf_iff r.close errno
    | reported error =>
      by_cases fine : error = 0
      · simp [fine, Condition.success]
      · simp only [fine, if_false, false_or]
        rw [if_neg (leaves_ne_zero r.close EINPROGRESS)]
        simp [eq_comm]

/-- For all results of the system calls, `connectAsync` reports the true cause
exactly when `errno` still holds it at the end: `select` does not fail, `close`
does not fail with another error, and `SO_ERROR` reports none but that one. -/
theorem causes_reported_iff (p : Process) (r : Results) : Reports p r ↔ Truthful r := by
  rw [reports_iff, outcome, fate, Truthful]
  cases decisive r.connects with
  | none => simp
  | some result =>
    cases result with
    | done => simp [Condition.success]
    | failed errno =>
      by_cases waits : errno = EINPROGRESS
      · simp only [if_pos waits, Option.some.injEq, forall_eq']
        exact awaited_iff r
      · simp only [if_neg waits, Option.some.injEq, forall_eq']
        exact errorOf_iff r.close errno

/-- A connection that is refused while `connectAsync` waits for it. -/
def refused : Results where
  getfl := .done
  setfl := .done
  connects := [.failed EAGAIN, .failed EINPROGRESS]
  select := .ready
  getsockopt := .reported 111
  close := .done

/-- `ECONNREFUSED` comes out as `EINPROGRESS`. -/
theorem refusal_misreported :
    fate refused = .failed ⟨111, .system⟩ ∧
      (connectAsync ⟨0, 2, []⟩ refused).2 = some ⟨EINPROGRESS.code, .system⟩ ∧
      ¬ Reports ⟨0, 2, []⟩ refused := by
  refine ⟨by decide, by decide, fun reports => ?_⟩
  have named := (reports.failure ⟨EINPROGRESS.code, .system⟩ (by decide) (by decide)).2
  exact absurd named (by decide)

/-! ### The flags at `connect` -/

theorem or_eq_self_iff (flags : Nat) : flags ||| O_NONBLOCK = flags ↔ flags &&& O_NONBLOCK ≠ 0 := by
  rw [O_NONBLOCK, Nat.and_two_pow]
  constructor
  · intro same
    have bit : (flags ||| 2 ^ 11).testBit 11 = true := by
      rw [Nat.testBit_or, Nat.testBit_two_pow_self, Bool.or_true]
    rw [same] at bit
    simp [bit]
  · intro set
    have bit : flags.testBit 11 = true := by
      by_contra clear
      simp [clear] at set
    apply Nat.eq_of_testBit_eq
    intro index
    rw [Nat.testBit_or, Nat.testBit_two_pow]
    by_cases same : 11 = index
    · simp [← same, bit]
    · simp [same]

/-- The flag words that `connect` was called on. -/
def connectedOn (p : Process) : List Nat :=
  p.calls.filterMap fun
    | .connect flags => some flags
    | _ => none

/-- `connect` is only called on the initial flags with `O_NONBLOCK` set. -/
def ConnectsNonBlocking (p : Process) (r : Results) : Prop :=
  ∀ flags ∈ connectedOn (connectAsync p r).1, flags = p.flags ||| O_NONBLOCK

/-- `setSocketNotBlock` does not report success without `O_NONBLOCK`. -/
def ReportsNonBlocking (p : Process) (r : Results) : Prop :=
  (setSocketNotBlock p r).2.value = 0 → (setSocketNotBlock p r).1.flags &&& O_NONBLOCK ≠ 0

theorem connectedOn_issue {call : Call} (other : ∀ flags, call ≠ .connect flags) (p : Process) :
    connectedOn (p.issue call) = connectedOn p := by
  rw [connectedOn, Process.issue, List.filterMap_append, connectedOn]
  cases call with
  | connect flags => exact absurd rfl (other flags)
  | _ => simp

theorem connectedOn_close (p : Process) (close : Result) :
    connectedOn (p.close close) = connectedOn p := by
  cases close <;> exact connectedOn_issue (by simp) p

theorem connectedOn_awaitWritable (p : Process) (r : Results) :
    connectedOn (awaitWritable p r).1 = connectedOn p := by
  have selected : connectedOn (p.issue .select) = connectedOn p := connectedOn_issue (by simp) p
  have asked : connectedOn ((p.issue .select).issue .getsockopt) = connectedOn p :=
    (connectedOn_issue (by simp) _).trans selected
  rw [awaitWritable]
  cases r.select with
  | failed errno => exact (connectedOn_close _ _).trans selected
  | expired => exact (connectedOn_close _ _).trans selected
  | ready =>
    cases r.getsockopt with
    | failed errno => exact (connectedOn_close _ _).trans asked
    | reported error =>
      by_cases fine : error = 0
      · subst fine
        exact asked
      · simpa [Process.select, Process.getsockopt, Select.ret, Select.isSet, fine, connectedOn_close]
          using asked

theorem Tried.connectedOn_eq (tried : Tried p q) :
    ∃ again, connectedOn q = connectedOn p ++ List.replicate (again + 1) p.flags := by
  obtain ⟨-, again, calls⟩ := tried
  refine ⟨again, ?_⟩
  rw [connectedOn, calls, List.filterMap_append, connectedOn, List.filterMap_replicate]

/-- `connect` is called at least once, and always on the flags that
`setSocketNotBlock` leaves. -/
theorem connectedOn_connectAsync (p : Process) (r : Results) :
    ∃ again, connectedOn (connectAsync p r).1 =
      connectedOn (setSocketNotBlock p r).1 ++
        List.replicate (again + 1) (setSocketNotBlock p r).1.flags := by
  obtain ⟨q, tried, left⟩ := connectLoop_spec (setSocketNotBlock p r).1 r.close r.connects
  obtain ⟨again, connects⟩ := tried.connectedOn_eq
  refine ⟨again, connects ▸ ?_⟩
  rw [connectAsync]
  dsimp only
  rw [left]
  cases decisive r.connects with
  | none => rfl
  | some result =>
    cases result with
    | done => rfl
    | failed errno =>
      rw [leave]
      by_cases waits : errno = EINPROGRESS
      · rw [if_pos waits]
        exact connectedOn_awaitWritable (q.fail errno) r
      · rw [if_neg waits]
        exact connectedOn_close (q.fail errno) r.close

/-- For every flag word, when `fcntl` yields it: `connectAsync` connects on a
non-blocking descriptor, and what `setSocketNotBlock` reports is so, exactly
when the descriptor was non-blocking before. -/
theorem nonblocking_iff (errno : Int) (flags : Nat) (r : Results) (got : r.getfl = .done) :
    (ConnectsNonBlocking ⟨errno, flags, []⟩ r ↔ flags &&& O_NONBLOCK ≠ 0) ∧
    (ReportsNonBlocking ⟨errno, flags, []⟩ r ↔ flags &&& O_NONBLOCK ≠ 0) := by
  obtain ⟨again, connects⟩ := connectedOn_connectAsync ⟨errno, flags, []⟩ r
  have entered : setSocketNotBlock ⟨errno, flags, []⟩ r = (⟨errno, flags, [.getfl]⟩, .success) := by
    rw [setSocketNotBlock_eq, got]
    rfl
  rw [entered] at connects
  constructor
  · rw [← or_eq_self_iff, ConnectsNonBlocking, connects]
    simp [connectedOn, eq_comm]
  · rw [ReportsNonBlocking, entered]
    simp [Condition.success]

/-- The descriptor was opened with `O_RDWR` and `O_NONBLOCK`. -/
theorem nonblocking_inherited : ConnectsNonBlocking ⟨0, 2 + 2 ^ 11, []⟩ refused :=
  (nonblocking_iff 0 (2 + 2 ^ 11) refused rfl).1.mpr (by decide)

/-- The descriptor was opened with `O_RDWR` alone: it is reported to be
non-blocking, and `connect` is called on the flags as they were. -/
theorem connect_blocks :
    (setSocketNotBlock ⟨0, 2, []⟩ refused).2 = .success ∧
      connectedOn (connectAsync ⟨0, 2, []⟩ refused).1 = [2, 2] ∧
      ¬ ConnectsNonBlocking ⟨0, 2, []⟩ refused ∧ ¬ ReportsNonBlocking ⟨0, 2, []⟩ refused := by
  refine ⟨by decide, by decide, fun held => ?_, fun held => ?_⟩
  · exact absurd (held 2 (by decide)) (by decide)
  · exact absurd (held (by decide)) (by decide)

end ExNetlink.ConnectAsync
