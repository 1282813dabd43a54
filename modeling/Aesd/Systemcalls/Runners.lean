import Mathlib.Data.List.ReduceOption
import Mathlib.Tactic.Common

/-! The command runners of examples/systemcalls. do_system takes every wait status for a
success, the other two every one whose exit status is not EXIT_FAILURE, and
do_exec_redirect ends its caller where the output file cannot be opened. -/
namespace Aesd.Systemcalls

structure Signal where
  number : Nat
  pos : 0 < number
  small : number < 127

/-- How a process ends: with an exit status, or by a signal, perhaps with a core dump. -/
inductive Termination where
  | exited : UInt8 → Termination
  | killed : Signal → Bool → Termination

def Termination.status : Termination → Nat
  | .exited code => code.toNat * 256
  | .killed sig core => sig.number + if core then 128 else 0

/-- WEXITSTATUS(status), which is (status & 0xff00) >> 8. -/
def wexitstatus (status : Nat) : Nat := status / 256 % 256

def EXIT_FAILURE : UInt8 := 1

/-- /bin/sh: the words it makes of a simple command line, whether it answers 126 rather
than 127 for a command that cannot be executed, and whether it executes the command in
its own process instead of waiting for it. -/
structure Shell where
  words : String → List String
  notExecutable : Bool
  execs : Bool

/-- What the environment decides: which files can be opened for writing, the calls fork,
dup2 and waitpid, and how a program ends on its arguments, or that execv fails. -/
structure World where
  opens : String → Bool
  fork : Bool
  dup2 : Bool
  waitpid : Bool
  execv : String → List String → Option Termination
  shell : Shell

/-- The array of pointers that the loop over the arguments fills. -/
def commandVector (args : List String) : List (Option String) := args.map some ++ [none]

def World.exec (w : World) (command : List (Option String)) : Option Termination :=
  match command with
  | some path :: _ => w.execv path command.reduceOption
  | _ => none

/-- How the shell that system() starts ends. -/
def World.shellRun (w : World) (line : String) : Termination :=
  match w.exec (commandVector (w.shell.words line)) with
  | none => .exited (if w.shell.notExecutable then 126 else 127)
  | some (.exited code) => .exited code
  | some (.killed sig core) =>
    if w.shell.execs then .killed sig core else .exited (128 + sig.number.toUInt8)

def World.system (w : World) (line : String) : Int :=
  if w.fork = false then -1
  else if w.waitpid = false then -1
  else ((w.shellRun line).status : Int)

/-- A runner returns to its caller, or calls exit in it. -/
inductive Result where
  | returned : Bool → Result
  | exited : UInt8 → Result

def doSystem (w : World) (cmd : String) : Result :=
  if w.system cmd = -1 then .returned false else .returned true

/-- The child after the fork: execv, and exit where that returns. -/
def World.child (w : World) (command : List (Option String)) : Termination :=
  (w.exec command).getD (.exited EXIT_FAILURE)

def World.redirectedChild (w : World) (command : List (Option String)) : Termination :=
  if w.dup2 = false then .exited EXIT_FAILURE else w.child command

/-- From the fork to the return in the parent, with how the child ends. -/
def World.parent (w : World) (child : Termination) : Bool :=
  if w.fork = false then false
  else if w.waitpid = false then false
  else if wexitstatus child.status = EXIT_FAILURE.toNat then false
  else true

def doExec (w : World) (args : List String) : Result :=
  .returned (w.parent (w.child (commandVector args)))

def doExecRedirect (w : World) (outputfile : String) (args : List String) : Result :=
  if w.opens outputfile = false then .exited EXIT_FAILURE
  else .returned (w.parent (w.redirectedChild (commandVector args)))

/-- The command is started, waited for, and exits normally with status 0. -/
def World.Succeeds (w : World) (args : List String) : Prop :=
  w.fork = true ∧ w.waitpid = true ∧ w.exec (commandVector args) = some (.exited 0)

/-- The runner returns to its caller, true in this case and false in every other. -/
def Reports (r : Result) (p : Prop) : Prop := ∃ b, r = .returned b ∧ (b = true ↔ p)

/-- The three runners on one command, given as a line and as its words. -/
structure AsDocumented (w : World) (outputfile line : String) : Prop where
  system : Reports (doSystem w line) (w.Succeeds (w.shell.words line))
  exec : Reports (doExec w (w.shell.words line)) (w.Succeeds (w.shell.words line))
  redirect : Reports (doExecRedirect w outputfile (w.shell.words line))
    (w.opens outputfile = true ∧ w.dup2 = true ∧ w.Succeeds (w.shell.words line))
  equal : w.opens outputfile = true → w.dup2 = true →
    doSystem w line = doExec w (w.shell.words line) ∧
      doExec w (w.shell.words line) = doExecRedirect w outputfile (w.shell.words line)

section Runners
variable {w : World} {args : List String} {p q : Prop} {r r' : Result}

theorem wexitstatus_exited (code : UInt8) : wexitstatus (Termination.exited code).status = code.toNat := by
  have hlt := code.toNat_lt
  simp only [wexitstatus, Termination.status]
  omega

theorem wexitstatus_killed (sig : Signal) (core : Bool) :
    wexitstatus (Termination.killed sig core).status = 0 := by
  have hlt := sig.small
  simp only [wexitstatus, Termination.status]
  split <;> omega

/-- The parent takes every end of its child for a success but the exit with EXIT_FAILURE. -/
theorem parent_eq_true_iff (child : Termination) :
    w.parent child = true ↔ w.fork = true ∧ w.waitpid = true ∧ child ≠ .exited EXIT_FAILURE := by
  have hstatus : wexitstatus child.status = EXIT_FAILURE.toNat ↔ child = .exited EXIT_FAILURE := by
    cases child with
    | exited code =>
      rw [wexitstatus_exited, Termination.exited.injEq]
      exact UInt8.toNat_inj
    | killed sig core =>
      rw [wexitstatus_killed]
      exact iff_of_false (by decide) (by simp)
  rw [World.parent]
  cases w.fork <;> cases w.waitpid <;> simp [hstatus]

theorem reports_returned (b : Bool) : Reports (.returned b) p ↔ (b = true ↔ p) := by
  simp [Reports]

/-- Two runners that report the same return the same. -/
theorem Reports.unique (h : Reports r p) (h' : Reports r' q) (hpq : p ↔ q) : r = r' := by
  obtain ⟨b, rfl, hb⟩ := h
  obtain ⟨b', rfl, hb'⟩ := h'
  rw [Bool.eq_iff_iff.mpr (hb.trans (hpq.trans hb'.symm))]

theorem doSystem_reports_iff (w : World) (line : String) :
    Reports (doSystem w line) (w.Succeeds (w.shell.words line)) ↔ w.fork = false ∨ w.waitpid = false ∨
      w.exec (commandVector (w.shell.words line)) = some (.exited 0) := by
  have hstatus : ((w.shellRun line).status : Int) ≠ -1 := by omega
  rw [doSystem, World.system, World.Succeeds]
  cases w.fork <;> cases w.waitpid <;> simp [Reports, hstatus]

/-- EXIT_FAILURE of the command and a failing execv look alike, and are reported. -/
theorem child_succeeds_iff (command : List (Option String)) :
    (w.child command ≠ .exited EXIT_FAILURE ↔ w.exec command = some (.exited 0)) ↔
      ∀ t, w.exec command = some t → t = .exited 0 ∨ t = .exited EXIT_FAILURE := by
  rw [World.child]
  cases w.exec command with
  | none => simp
  | some t =>
    have hne : t = .exited 0 → t ≠ .exited EXIT_FAILURE := by
      rintro rfl
      simp [EXIT_FAILURE]
    simp only [Option.getD_some, Option.some.injEq, forall_eq']
    tauto

theorem doExec_reports_iff (w : World) (args : List String) :
    Reports (doExec w args) (w.Succeeds args) ↔ w.fork = false ∨ w.waitpid = false ∨
      ∀ t, w.exec (commandVector args) = some t → t = .exited 0 ∨ t = .exited EXIT_FAILURE := by
  rw [doExec, reports_returned, parent_eq_true_iff, World.Succeeds, ← child_succeeds_iff]
  cases w.fork <;> cases w.waitpid <;> simp

theorem doExecRedirect_reports_iff (w : World) (outputfile : String) (args : List String) :
    Reports (doExecRedirect w outputfile args)
        (w.opens outputfile = true ∧ w.dup2 = true ∧ w.Succeeds args) ↔
      w.opens outputfile = true ∧ (w.dup2 = false ∨ Reports (doExec w args) (w.Succeeds args)) := by
  rw [doExecRedirect, doExec]
  cases hopen : w.opens outputfile with
  | false => simp [Reports]
  | true =>
    rw [if_neg (by simp), reports_returned, reports_returned, World.redirectedChild]
    cases w.dup2 <;> simp [parent_eq_true_iff]

end Runners

/-- The three runners do what their documentation says of a command exactly when the
output file can be opened and the command, if it is waited for at all, exits with 0. -/
theorem runners_as_documented_iff (w : World) (outputfile line : String) :
    AsDocumented w outputfile line ↔ w.opens outputfile = true ∧ (w.fork = false ∨ w.waitpid = false ∨
      w.exec (commandVector (w.shell.words line)) = some (.exited 0)) := by
  constructor
  · intro h
    exact ⟨((doExecRedirect_reports_iff w outputfile _).mp h.redirect).1, (doSystem_reports_iff w line).mp h.system⟩
  · rintro ⟨hopen, hcommand⟩
    have hsystem := (doSystem_reports_iff w line).mpr hcommand
    have hexec : Reports (doExec w (w.shell.words line)) (w.Succeeds (w.shell.words line)) := by
      apply (doExec_reports_iff w _).mpr
      refine hcommand.imp id (Or.imp id ?_)
      intro hzero t ht
      exact .inl (Option.some.inj (ht.symm.trans hzero))
    have hredirect := (doExecRedirect_reports_iff w outputfile _).mpr ⟨hopen, .inr hexec⟩
    refine ⟨hsystem, hexec, hredirect, fun _ hdup => ⟨hsystem.unique hexec Iff.rfl, ?_⟩⟩
    exact hexec.unique hredirect (by simp [hopen, hdup])

/-- /bin/false: do_system returns true where the other two return false. -/
theorem exit_failure_reported_as_success :
    ¬AsDocumented ⟨fun _ => true, true, true, true, fun _ _ => some (.exited 1),
      ⟨fun line => [line], false, false⟩⟩ "out" "/bin/false" := by
  intro h
  obtain ⟨b, hreturned, hb⟩ := h.system
  obtain rfl : true = b := Result.returned.inj hreturned
  obtain ⟨_, _, hzero⟩ := hb.mp rfl
  have hzero : some (Termination.exited 1) = some (.exited 0) := hzero
  exact absurd hzero (by simp)

end Aesd.Systemcalls
