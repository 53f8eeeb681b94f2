import Mathlib.Algebra.Ring.Nat
import Mathlib.Logic.Function.Basic
import ExNetlink.Runs

/-! The time server, `main` of `set/time/server.cpp`.

Each connection is handed to a child of the process that accepts it. The child
sends the time, shuts the connection down, and then does not exit: it goes back
to the head of the loop and accepts connections itself. The parent does not
close its descriptor either. So every connection adds a process to those that
listen, and any of them may take the next one. -/
namespace ExNetlink.TimeServer
open Runs

/-- `sizeof(buff)`. -/
def buffSize : Nat := 256

/-- Where a process is in the loop, and for which connection. -/
inductive Stage where
  | accepting
  /-- Before `fork`. -/
  | forking (cd : Nat)
  /-- A child, before `snprintf`. -/
  | telling (cd : Nat)
  | writing (cd : Nat)
  /-- A child, before `shutdown`. -/
  | closing (cd : Nat)
  /-- An assertion has failed. -/
  | aborted
  deriving DecidableEq, Repr

structure Process where
  stage : Stage := .accepting
  buff : List UInt8 := List.replicate buffSize 0
  /-- The connections it has a descriptor of. -/
  opened : List Nat := []
  deriving DecidableEq, Repr

/-- The processes ever created, an aborted one included, the number of
connections accepted, and of each connection what was written to it and whether
it was shut down. -/
structure Server where
  processes : List Process := [{}]
  accepted : Nat := 0
  /-- Connections whose `fork` failed, and those whose child could not write. -/
  refused : List Nat := []
  lost : List Nat := []
  sent : Nat → List (List UInt8) := fun _ => []
  shut : Nat → Bool := fun _ => false

/-- `snprintf` of a line that is shorter than the array. -/
def snprintf (buff line : List UInt8) : List UInt8 := line ++ [0] ++ buff.drop (line.length + 1)

/-- The line of `"%.24s\r\n"`. -/
def timeLine (ctime : List UInt8) : List UInt8 := ctime.take 24 ++ [13, 10]

inductive Act where
  /-- `accept` gives process `p` the next connection, or fails. -/
  | accept (p : Nat) (succeeds : Bool)
  | fork (p : Nat) (succeeds : Bool)
  /-- `ctime` gives a date of at least 24 characters. -/
  | format (p : Nat) (ctime : List UInt8) (dated : 24 ≤ ctime.length)
  /-- `write` takes up to so many bytes, or fails. -/
  | write (p : Nat) (takes : Option Nat)
  | shutdown (p : Nat)

def Server.become (s : Server) (p : Nat) (process : Process) : Server :=
  { s with processes := s.processes.set p process }

/-- The process after an assertion has failed in it. -/
def Process.abort (process : Process) : Process :=
  { process with stage := .aborted, opened := [] }

/-- The state after an act, for an act that can happen. -/
def step (s : Server) : Act → Option Server
  | .accept p succeeds => do
    let process ← s.processes[p]?
    if process.stage = .accepting then
      if succeeds then
        some { s.become p { process with
            stage := .forking s.accepted
            opened := process.opened ++ [s.accepted] } with
          accepted := s.accepted + 1 }
      else some s
    else none
  | .fork p succeeds => do
    let process ← s.processes[p]?
    match process.stage with
    | .forking cd =>
      let parent := s.become p { process with stage := .accepting }
      if succeeds then
        some { parent with
          processes := parent.processes ++ [{ process with stage := .telling cd }] }
      else some { parent with refused := s.refused ++ [cd] }
    | _ => none
  | .format p ctime _ => do
    let process ← s.processes[p]?
    match process.stage with
    | .telling cd =>
      some (s.become p { process with
        stage := .writing cd
        buff := snprintf process.buff (timeLine ctime) })
    | _ => none
  | .write p takes => do
    let process ← s.processes[p]?
    match process.stage with
    | .writing cd =>
      match takes with
      | some limit =>
        let bytes := process.buff.take limit
        some { s.become p (if bytes.length = buffSize then { process with stage := .closing cd }
            else process.abort) with
          sent := Function.update s.sent cd (s.sent cd ++ [bytes]) }
      | none => some { s.become p process.abort with lost := s.lost ++ [cd] }
    | _ => none
  | .shutdown p => do
    let process ← s.processes[p]?
    match process.stage with
    | .closing cd =>
      some { s.become p { process with stage := .accepting } with
        shut := Function.update s.shut cd true }
    | _ => none

/-- Whether a process at this stage has yet to see to the connection. -/
def Stage.owes (cd : Nat) : Stage → Nat
  | .forking c | .telling c | .writing c => if c = cd then 1 else 0
  | .accepting | .closing _ | .aborted => 0

def Stage.forks : Stage → Nat
  | .forking _ => 1
  | .accepting | .telling _ | .writing _ | .closing _ | .aborted => 0

/-- The number of processes, each by what its stage counts. -/
def Server.count (s : Server) (weight : Stage → Nat) : Nat :=
  (s.processes.map fun process => weight process.stage).sum

/-- What goes out on a connection: the line, filled up with zeros. -/
def message (ctime : List UInt8) : List UInt8 :=
  timeLine ctime ++ List.replicate (buffSize - 26) 0

/-- Every connection that was accepted is in one place only: a process has yet
to see to it, or something was written to it, once, or its `fork` or `write`
failed. One that was shut down has been sent a whole message. And each one has
added a process, unless its `fork` failed or is still to come; `processes` holds
all that were ever created, those that aborted among them. -/
structure Told (s : Server) : Prop where
  once : ∀ cd, s.count (Stage.owes cd) + (s.sent cd).length + s.refused.count cd + s.lost.count cd =
    if cd < s.accepted then 1 else 0
  whole : ∀ cd, s.shut cd = true → ∃ ctime, 24 ≤ ctime.length ∧ s.sent cd = [message ctime]
  grown : s.processes.length + s.refused.length + s.count Stage.forks = 1 + s.accepted

/-! ### One act -/

variable {s next : Server} {p cd : Nat} {old new : Process}

theorem sum_set {α : Type} {cells : List α} {i : Nat} {old new : α} (weight : α → Nat)
    (found : cells[i]? = some old) :
    ((cells.set i new).map weight).sum + weight old = (cells.map weight).sum + weight new := by
  induction cells generalizing i with
  | nil => cases found
  | cons cell rest ih =>
    cases i with
    | zero =>
      obtain rfl := Option.some.inj found
      simp only [List.set_cons_zero, List.map_cons, List.sum_cons]
      omega
    | succ i =>
      have later := ih (show rest[i]? = some old from found)
      simp only [List.set_cons_succ, List.map_cons, List.sum_cons]
      omega

/-- Counting processes when one of them changes. -/
theorem count_become (found : s.processes[p]? = some old) (new : Process) (weight : Stage → Nat) :
    (s.become p new).count weight + weight old.stage = s.count weight + weight new.stage :=
  sum_set (fun process : Process => weight process.stage) found

/-- Nothing changes in the count when it takes both stages for the same. -/
theorem count_turn {weight : Stage → Nat} (found : s.processes[p]? = some old)
    (same : weight new.stage = weight old.stage) :
    (s.become p new).count weight = s.count weight := by
  have change := count_become found new weight
  rw [same] at change
  exact Nat.add_right_cancel change

theorem mem_become {process : Process} (member : process ∈ (s.become p new).processes) :
    process ∈ s.processes ∨ process = new := List.mem_or_eq_of_mem_set member

/-- What a process has in its array, and what the stages of a child mean. -/
structure Filled (sent : Nat → List (List UInt8)) (process : Process) : Prop where
  zeros : process.buff.drop 26 = List.replicate (buffSize - 26) 0
  writing : ∀ cd, process.stage = .writing cd →
    ∃ ctime, 24 ≤ ctime.length ∧ process.buff = message ctime
  closing : ∀ cd, process.stage = .closing cd →
    ∃ ctime, 24 ≤ ctime.length ∧ sent cd = [message ctime]

/-- What carries the induction. -/
structure Kept (s : Server) : Prop extends Told s where
  filled : ∀ process ∈ s.processes, Filled s.sent process

theorem timeLine_length {ctime : List UInt8} (dated : 24 ≤ ctime.length) :
    (timeLine ctime).length = 26 := by
  rw [timeLine, List.length_append, List.length_take, Nat.min_eq_left dated]
  rfl

theorem message_length {ctime : List UInt8} (dated : 24 ≤ ctime.length) :
    (message ctime).length = buffSize := by
  rw [message, List.length_append, timeLine_length dated, List.length_replicate]
  rfl

theorem snprintf_timeLine {buff ctime : List UInt8} (dated : 24 ≤ ctime.length)
    (zeros : buff.drop 26 = List.replicate (buffSize - 26) 0) :
    snprintf buff (timeLine ctime) = message ctime := by
  have rest : buff.drop 27 = List.replicate 229 0 := by
    have shorter := congrArg (List.drop 1) zeros
    rw [List.drop_drop] at shorter
    simpa [buffSize] using shorter
  rw [snprintf, timeLine_length dated, rest, message, List.append_assoc]
  rfl

/-- Nothing has been written to a connection that a process has yet to see to. -/
theorem Told.unsent (told : Told s) (found : s.processes[p]? = some old)
    (owes : old.stage.owes cd = 1) : s.sent cd = [] := by
  have some := count_become found old.abort (Stage.owes cd)
  have once := told.once cd
  rw [owes, show old.abort.stage.owes cd = 0 from rfl] at some
  rw [← List.length_eq_zero_iff]
  split at once <;> omega

/-- A step that is no `fork` leaves as many processes as there were. -/
theorem Told.grown_turn (told : Told s) (found : s.processes[p]? = some old)
    (same : new.stage.forks = old.stage.forks) :
    (s.become p new).processes.length + s.refused.length + (s.become p new).count Stage.forks =
      1 + s.accepted := by
  rw [count_turn found same, Server.become, List.length_set]
  exact told.grown

/-- A process changes and nothing is written. -/
theorem Kept.filled_become (held : Kept s) (fine : Filled s.sent new) :
    ∀ process ∈ (s.become p new).processes, Filled s.sent process := by
  intro process member
  rcases mem_become member with same | rfl
  · exact held.filled process same
  · exact fine

/-- A process that has only just come to another stage. -/
theorem Filled.turn {sent : Nat → List (List UInt8)} {stage : Stage} {opened : List Nat}
    (filled : Filled sent old) (unwritten : ∀ cd, stage ≠ .writing cd ∧ stage ≠ .closing cd) :
    Filled sent { old with stage := stage, opened := opened } where
  zeros := filled.zeros
  writing cd here := absurd here (unwritten cd).1
  closing cd here := absurd here (unwritten cd).2

theorem accept_kept {succeeds : Bool} (held : Kept s)
    (stepped : step s (.accept p succeeds) = some next) : Kept next := by
  obtain ⟨process, found, made⟩ := Option.bind_eq_some_iff.mp stepped
  split at made
  · rename_i here
    have filled := held.filled process (List.mem_of_getElem? found)
    split at made
    · obtain rfl := Option.some.inj made
      have change := count_become found { process with
        stage := .forking s.accepted, opened := process.opened ++ [s.accepted] }
      refine { once := fun cd => ?_, whole := held.whole, grown := ?_, filled := ?_ }
      · have once := held.once cd
        have owing := change (Stage.owes cd)
        rw [here, Stage.owes, Stage.owes] at owing
        change (s.become p _).count _ + _ + _ + _ = if cd < s.accepted + 1 then 1 else 0
        dsimp only [Server.become] at owing ⊢
        split at owing <;> split at once <;> split <;> omega
      · have grown := held.grown
        have forks := change Stage.forks
        rw [here, Stage.forks, Stage.forks] at forks
        change (s.become p _).processes.length + _ + (s.become p _).count _ = 1 + (s.accepted + 1)
        rw [Server.become, List.length_set]
        dsimp only [Server.become] at forks ⊢
        omega
      · exact held.filled_become (filled.turn (by simp))
    · obtain rfl := Option.some.inj made
      exact held
  · cases made

/-- What the parent goes back to after `fork`, whatever came of it. -/
theorem Kept.parent (held : Kept s) (found : s.processes[p]? = some old) :
    ∀ process ∈ (s.become p { old with stage := .accepting }).processes, Filled s.sent process := by
  have filled := held.filled old (List.mem_of_getElem? found)
  exact held.filled_become (filled.turn (by simp))

/-- The child is a copy of its parent that has the connection to see to. -/
theorem forked_kept (held : Kept s) (found : s.processes[p]? = some old)
    (here : old.stage = .forking cd) :
    Kept { s.become p { old with stage := .accepting } with
      processes := (s.become p { old with stage := .accepting }).processes ++
        [{ old with stage := .telling cd }] } := by
  have filled := held.filled old (List.mem_of_getElem? found)
  have change := count_become found { old with stage := .accepting }
  have grows : ∀ weight, Server.count { s.become p { old with stage := .accepting } with
      processes := (s.become p { old with stage := .accepting }).processes ++
        [{ old with stage := .telling cd }] } weight =
      (s.become p { old with stage := .accepting }).count weight + weight (.telling cd) := by
    intro weight
    simp [Server.count]
  refine { once := fun c => ?_, whole := held.whole, grown := ?_, filled := ?_ }
  · have owing := change (Stage.owes c)
    rw [here, Stage.owes, Stage.owes] at owing
    refine Eq.trans ?_ (held.once c)
    rw [grows, Stage.owes]
    dsimp only [Server.become] at owing ⊢
    omega
  · have grown := held.grown
    have forks := change Stage.forks
    rw [here, Stage.forks, Stage.forks] at forks
    rw [grows, Stage.forks, List.length_append, List.length_singleton]
    simp only [Server.become, List.length_set] at forks ⊢
    omega
  · intro other member
    rcases List.mem_append.mp member with there | new
    · exact held.parent found other there
    · obtain rfl := List.mem_singleton.mp new
      exact filled.turn (by simp)

/-- Nobody sees to a connection whose `fork` fails. -/
theorem refused_kept (held : Kept s) (found : s.processes[p]? = some old)
    (here : old.stage = .forking cd) :
    Kept { s.become p { old with stage := .accepting } with refused := s.refused ++ [cd] } := by
  have change := count_become found { old with stage := .accepting }
  refine { once := fun c => ?_, whole := held.whole, grown := ?_, filled := held.parent found }
  · have owing := change (Stage.owes c)
    rw [here, Stage.owes, Stage.owes] at owing
    refine Eq.trans ?_ (held.once c)
    change (s.become p _).count _ + _ + (s.refused ++ [cd]).count c + _ = _
    rw [List.count_append, List.count_singleton]
    simp only [beq_iff_eq]
    dsimp only [Server.become] at owing ⊢
    omega
  · have grown := held.grown
    have forks := change Stage.forks
    rw [here, Stage.forks, Stage.forks] at forks
    change (s.become p _).processes.length + (s.refused ++ [cd]).length + (s.become p _).count _ = _
    rw [List.length_append, List.length_singleton]
    simp only [Server.become, List.length_set] at forks ⊢
    omega

theorem fork_kept {succeeds : Bool} (held : Kept s)
    (stepped : step s (.fork p succeeds) = some next) : Kept next := by
  obtain ⟨process, found, made⟩ := Option.bind_eq_some_iff.mp stepped
  split at made
  · rename_i cd here
    split at made
    · obtain rfl := Option.some.inj made
      exact forked_kept held found here
    · obtain rfl := Option.some.inj made
      exact refused_kept held found here
  · cases made

theorem format_kept {ctime : List UInt8} {dated : 24 ≤ ctime.length} (held : Kept s)
    (stepped : step s (.format p ctime dated) = some next) : Kept next := by
  obtain ⟨process, found, made⟩ := Option.bind_eq_some_iff.mp stepped
  split at made
  · rename_i cd here
    obtain rfl := Option.some.inj made
    have filled := held.filled process (List.mem_of_getElem? found)
    have printed := snprintf_timeLine dated filled.zeros
    refine { once := fun c => ?_, whole := held.whole, grown := ?_, filled := ?_ }
    · rw [count_turn found (by rw [here, Stage.owes, Stage.owes])]
      exact held.once c
    · exact held.grown_turn found (by rw [here, Stage.forks, Stage.forks])
    · refine held.filled_become ⟨?_, fun _ _ => ⟨ctime, dated, printed⟩, fun c other => (by cases other)⟩
      rw [printed, message, List.drop_left' (timeLine_length dated)]
  · cases made

/-- What the other processes have in hand stays so when a first message is
written to a connection. -/
theorem Filled.sent {other : Process} {bytes : List UInt8} (filled : Filled s.sent other)
    (unsent : s.sent cd = []) : Filled (Function.update s.sent cd (s.sent cd ++ [bytes])) other where
  zeros := filled.zeros
  writing := filled.writing
  closing c here := by
    obtain ⟨ctime, dated, sent⟩ := filled.closing c here
    have distinct : c ≠ cd := by
      rintro rfl
      rw [unsent] at sent
      cases sent
    exact ⟨ctime, dated, by rw [Function.update_of_ne distinct, sent]⟩

/-- A child is through with its connection, whether all its bytes were taken or
not. -/
theorem wrote_kept {bytes : List UInt8} (held : Kept s) (found : s.processes[p]? = some old)
    (here : old.stage = .writing cd) (owes : ∀ c, new.stage.owes c = 0)
    (forks : new.stage.forks = 0)
    (fine : Filled (Function.update s.sent cd (s.sent cd ++ [bytes])) new) :
    Kept { s.become p new with sent := Function.update s.sent cd (s.sent cd ++ [bytes]) } := by
  have unsent := held.unsent found (show old.stage.owes cd = 1 by simp [here, Stage.owes])
  have change := count_become found new
  refine { once := fun c => ?_, whole := fun c closed => ?_, grown := ?_
           filled := fun other member => ?_ }
  · have owing := change (Stage.owes c)
    rw [here, owes, Stage.owes] at owing
    refine Eq.trans ?_ (held.once c)
    change (s.become p new).count _ +
      (Function.update s.sent cd (s.sent cd ++ [bytes]) c).length + _ + _ = _
    dsimp only [Server.become] at owing ⊢
    by_cases this : c = cd
    · subst this
      rw [Function.update_self, unsent, List.nil_append, List.length_singleton, List.length_nil]
      rw [if_pos rfl] at owing
      omega
    · rw [Function.update_of_ne this]
      rw [if_neg (Ne.symm this)] at owing
      omega
  · obtain ⟨ctime, dated, sent⟩ := held.whole c closed
    have distinct : c ≠ cd := by
      rintro rfl
      rw [unsent] at sent
      cases sent
    exact ⟨ctime, dated, (Function.update_of_ne distinct _ _).trans sent⟩
  · exact held.grown_turn found (by rw [here, forks, Stage.forks])
  · rcases mem_become member with same | rfl
    · exact (held.filled other same).sent unsent
    · exact fine

theorem write_kept {takes : Option Nat} (held : Kept s)
    (stepped : step s (.write p takes) = some next) : Kept next := by
  obtain ⟨process, found, made⟩ := Option.bind_eq_some_iff.mp stepped
  split at made
  · rename_i cd here
    have filled := held.filled process (List.mem_of_getElem? found)
    have unsent := held.unsent found (show process.stage.owes cd = 1 by simp [here, Stage.owes])
    split at made
    · rename_i limit
      obtain ⟨ctime, dated, whole⟩ := filled.writing cd here
      obtain rfl := Option.some.inj made
      apply wrote_kept held found here
      · intro c
        split <;> rfl
      · split <;> rfl
      · split
        · rename_i all
          refine ⟨filled.zeros, fun c other => (by cases other), fun c same => ?_⟩
          obtain rfl : cd = c := Stage.closing.inj same
          have taken : process.buff.take limit = message ctime := by
            rw [whole] at all ⊢
            apply List.take_of_length_le
            rw [List.length_take, message_length dated] at all
            rw [message_length dated]
            omega
          exact ⟨ctime, dated, by rw [Function.update_self, unsent, taken, List.nil_append]⟩
        · exact (filled.turn (by simp)).sent unsent
    · obtain rfl := Option.some.inj made
      have change := count_become found process.abort
      have gone : Filled s.sent process.abort := filled.turn (by simp)
      refine { once := fun c => ?_, whole := held.whole, grown := ?_, filled := held.filled_become gone }
      · have owing : _ = s.count (Stage.owes c) + 0 := change (Stage.owes c)
        rw [here, Stage.owes] at owing
        refine Eq.trans ?_ (held.once c)
        change (s.become p _).count _ + _ + _ + (s.lost ++ [cd]).count c = _
        rw [List.count_append, List.count_singleton]
        simp only [beq_iff_eq]
        dsimp only [Server.become] at owing ⊢
        omega
      · exact held.grown_turn found (by rw [here]; rfl)
  · cases made

theorem shutdown_kept (held : Kept s) (stepped : step s (.shutdown p) = some next) : Kept next := by
  obtain ⟨process, found, made⟩ := Option.bind_eq_some_iff.mp stepped
  split at made
  · rename_i cd here
    obtain rfl := Option.some.inj made
    have filled := held.filled process (List.mem_of_getElem? found)
    have turned : Filled s.sent { process with stage := .accepting } := filled.turn (by simp)
    refine { once := fun c => ?_, whole := fun c closed => ?_, grown := ?_
             filled := held.filled_become turned }
    · have same : (s.become p { process with stage := .accepting }).count (Stage.owes c) =
          s.count (Stage.owes c) := count_turn found (by rw [here, Stage.owes, Stage.owes])
      refine Eq.trans ?_ (held.once c)
      rw [← same]
      rfl
    · by_cases this : c = cd
      · subst this
        exact filled.closing c here
      · exact held.whole c ((Function.update_of_ne this _ _).symm.trans closed)
    · exact held.grown_turn found (by rw [here, Stage.forks, Stage.forks])
  · cases made

theorem step_kept (s : Server) (a : Act) (next : Server) (held : Kept s)
    (stepped : step s a = some next) : Kept next := by
  cases a with
  | accept p succeeds => exact accept_kept held stepped
  | fork p succeeds => exact fork_kept held stepped
  | format p ctime dated => exact format_kept held stepped
  | write p takes => exact write_kept held stepped
  | shutdown p => exact shutdown_kept held stepped

theorem kept_start : Kept {} where
  once cd := rfl
  whole cd closed := by cases closed
  grown := rfl
  filled process member := by
    obtain rfl := List.mem_singleton.mp member
    exact ⟨List.drop_replicate, fun cd here => (by cases here), fun cd here => (by cases here)⟩

/-- In every run, however the processes take turns and whatever fails: each
accepted connection is in the hands of one process or has been told the time
once, unless its `fork` or its `write` failed; one that is shut down has been
sent the whole message; and each has had one more process created, unless its
`fork` failed or is still to come. -/
theorem told_once {acts : List Act} {final : Server} (ran : run step {} acts = some final) :
    Told final :=
  (run_keeps step_kept kept_start ran).toTold

/-- A child takes the second connection, whose `fork` fails. -/
def handed : List Act :=
  [.accept 0 true, .fork 0 true, .format 1 (List.replicate 25 65) (by decide), .write 1 (some 256),
    .shutdown 1, .accept 1 true, .fork 1 false]

theorem told_once_handed :
    ∃ final, run step {} handed = some final ∧
      (final.sent 0).length = 1 ∧ (final.sent 1).length = 0 ∧ final.processes.length = 2 := by
  obtain ⟨final, ran⟩ := Option.isSome_iff_exists.mp (show (run step {} handed).isSome by decide +kernel)
  have ends : (run step {} handed).map (fun s => (s.accepted, s.refused, s.count Stage.forks,
      s.count (Stage.owes 0), s.count (Stage.owes 1), s.lost)) = some (2, [1], 0, 0, 0, []) := by
    decide +kernel
  rw [ran] at ends
  simp only [Option.map_some, Option.some.injEq, Prod.mk.injEq] at ends
  obtain ⟨accepted, refused, forks, first, second, lost⟩ := ends
  have told := told_once ran
  have one := told.once 0
  have two := told.once 1
  have grown := told.grown
  rw [accepted, refused, first, lost] at one
  rw [accepted, refused, second, lost] at two
  rw [accepted, refused, forks] at grown
  exact ⟨final, ran, by simpa using one, by simpa using two, by simpa using grown⟩

end ExNetlink.TimeServer
