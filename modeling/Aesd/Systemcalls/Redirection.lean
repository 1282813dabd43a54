import Aesd.Foundations.Machine
import Aesd.Systemcalls.Runners

/-! The descriptors of do_exec_redirect, over any number of calls by one program: what its
children have as their standard output, and which output files it never closes. -/
namespace Aesd.Systemcalls
open Aesd.Foundations

abbrev Descriptors := List (Option String)

namespace Descriptors

def ref (t : Descriptors) (fd : Nat) : Option String := t.getD fd none

def lowest (t : Descriptors) : Nat := t.findIdx Option.isNone

def put : Descriptors → Nat → Option String → Descriptors
  | [], 0, x => [x]
  | [], fd + 1, x => none :: put [] fd x
  | _ :: t, 0, x => x :: t
  | y :: t, fd + 1, x => y :: put t fd x

def close (t : Descriptors) (fd : Nat) : Descriptors := t.put fd none

def dup2 (t : Descriptors) (oldfd newfd : Nat) : Descriptors := t.put newfd (t.ref oldfd)

variable {t : Descriptors} {fd n : Nat} {x : Option String} {file : String}

theorem ref_put (t : Descriptors) (fd : Nat) (x : Option String) (n : Nat) :
    (t.put fd x).ref n = if n = fd then x else t.ref n := by
  induction t generalizing fd n with
  | nil =>
    induction fd generalizing n with
    | zero => cases n <;> simp [put, ref]
    | succ fd ih =>
      cases n with
      | zero => simp [put, ref]
      | succ n => simpa [put, ref] using ih n
  | cons y t ih =>
    cases fd with
    | zero => cases n <;> simp [put, ref]
    | succ fd =>
      cases n with
      | zero => simp [put, ref]
      | succ n => simpa [put, ref] using ih fd n

theorem ref_lowest (t : Descriptors) : t.ref t.lowest = none := by
  induction t with
  | nil => rfl
  | cons y t ih =>
    cases y with
    | none => rfl
    | some file => simpa [lowest, ref, List.findIdx_cons] using ih

/-- An open adds the file to those that are open. -/
theorem files_open (t : Descriptors) (file : String) :
    (t.put t.lowest (some file)).reduceOption.Perm (t.reduceOption ++ [file]) := by
  induction t with
  | nil => simp [lowest, put]
  | cons y t ih =>
    cases y with
    | none =>
      simp only [lowest, List.findIdx_cons, Option.isNone_none, put, List.reduceOption_cons_of_some,
        List.reduceOption_cons_of_none, cond_true]
      exact (List.perm_append_singleton file _).symm
    | some g =>
      have hlowest : lowest (some g :: t) = lowest t + 1 := by simp [lowest, List.findIdx_cons]
      rw [hlowest, put, List.reduceOption_cons_of_some, List.reduceOption_cons_of_some]
      exact ih.cons g

theorem files_open_close (t : Descriptors) (x : Option String) :
    ((t.put t.lowest x).close t.lowest).reduceOption = t.reduceOption := by
  induction t with
  | nil => simp [lowest, put, close]
  | cons y t ih =>
    cases y with
    | none => simp [lowest, List.findIdx_cons, put, close]
    | some g =>
      have hlowest : lowest (some g :: t) = lowest t + 1 := by simp [lowest, List.findIdx_cons]
      rw [hlowest, put, close, put, List.reduceOption_cons_of_some, List.reduceOption_cons_of_some]
      exact congrArg (g :: ·) ih

theorem ref_open_of_ne_none (h : t.ref n ≠ none) : (t.put t.lowest x).ref n = t.ref n := by
  rw [ref_put, if_neg]
  rintro rfl
  exact h t.ref_lowest

theorem ref_open_close (t : Descriptors) (x : Option String) (n : Nat) :
    ((t.put t.lowest x).close t.lowest).ref n = t.ref n := by
  rw [close, ref_put, ref_put]
  split
  · rename_i hn
    rw [hn, ref_lowest]
  · rfl

end Descriptors

def World.redirectedDescriptors (w : World) (fd : Nat) (t : Descriptors) : Option Descriptors :=
  if w.dup2 = false then none else some ((t.dup2 fd 1).close fd)

/-- do_exec_redirect on its caller's descriptors: the result, the descriptors it leaves, and
those with which the child comes to its execv. -/
def doExecRedirectOn (w : World) (outputfile : String) (args : List String) (t : Descriptors) :
    Result × Descriptors × Option Descriptors :=
  if w.opens outputfile = false then (.exited EXIT_FAILURE, t, none)
  else
    let fd := t.lowest
    let t := t.put fd (some outputfile)
    if w.fork = false then (.returned false, t, none)
    else
      let child := w.redirectedDescriptors fd t
      if w.waitpid = false then (.returned false, t, child)
      else
        let t := t.close fd
        if wexitstatus (w.redirectedChild (commandVector args)).status = EXIT_FAILURE.toNat then
          (.returned false, t, child)
        else (.returned true, t, child)

/-- A call of do_exec_redirect, with what the environment decides during it. -/
structure Redirect where
  world : World
  outputfile : String
  args : List String

def Redirect.abandons (r : Redirect) : Bool := !r.world.fork || !r.world.waitpid

def Redirect.leaves (r : Redirect) (t : Descriptors) : Descriptors :=
  let opened := t.put t.lowest (some r.outputfile)
  if r.abandons then opened else opened.close t.lowest

def redirects : Machine Descriptors Redirect (Bool × Option Descriptors) where
  step t r :=
    match doExecRedirectOn r.world r.outputfile r.args t with
    | (.returned b, t', child) => some (t', b, child)
    | (.exited _, _, _) => none

def Redirect.left (r : Redirect) : List String := if r.abandons then [r.outputfile] else []

theorem Redirect.leaves_files (r : Redirect) (t : Descriptors) :
    (r.leaves t).reduceOption.Perm (t.reduceOption ++ r.left) := by
  unfold Redirect.leaves Redirect.left
  split
  · exact t.files_open r.outputfile
  · rw [t.files_open_close, List.append_nil]

theorem abandoned_cons (r : Redirect) (rs : List Redirect) :
    ((r :: rs).filter Redirect.abandons).map Redirect.outputfile =
      r.left ++ (rs.filter Redirect.abandons).map Redirect.outputfile := by
  unfold Redirect.left
  cases h : r.abandons <;> simp [h]

theorem Redirect.leaves_ref (r : Redirect) {t : Descriptors} {n : Nat} (h : t.ref n ≠ none) :
    (r.leaves t).ref n = t.ref n := by
  unfold Redirect.leaves
  split
  · exact Descriptors.ref_open_of_ne_none h
  · exact t.ref_open_close _ n

section Redirects
variable {t t' : Descriptors} {r : Redirect} {b : Bool} {child : Option Descriptors} {c : Descriptors} {n : Nat}

/-- The descriptors do not change what the call returns. -/
theorem doExecRedirectOn_result (w : World) (outputfile : String) (args : List String) (t : Descriptors) :
    (doExecRedirectOn w outputfile args t).1 = doExecRedirect w outputfile args := by
  unfold doExecRedirectOn doExecRedirect World.parent
  by_cases hstatus : wexitstatus (w.redirectedChild (commandVector args)).status = EXIT_FAILURE.toNat <;>
    cases w.opens outputfile <;> cases w.fork <;> cases w.waitpid <;> simp [hstatus]

/-- What a call that returns leaves, and what its child has. -/
theorem redirects_step (h : redirects.step t r = some (t', b, child)) :
    doExecRedirect r.world r.outputfile r.args = .returned b ∧ t' = r.leaves t ∧
      ∀ c, child = some c → c = ((t.put t.lowest (some r.outputfile)).dup2 t.lowest 1).close t.lowest := by
  have hchild : ∀ c, r.world.redirectedDescriptors t.lowest (t.put t.lowest (some r.outputfile)) = some c →
      c = ((t.put t.lowest (some r.outputfile)).dup2 t.lowest 1).close t.lowest := by
    intro c hc
    unfold World.redirectedDescriptors at hc
    split at hc
    · exact absurd hc (by simp)
    · exact (Option.some.inj hc).symm
  have hresult := doExecRedirectOn_result r.world r.outputfile r.args t
  simp only [redirects] at h
  split at h
  · rename_i hcall
    obtain ⟨rfl, hb⟩ := Prod.mk.inj (Option.some.inj h)
    obtain ⟨rfl, rfl⟩ := Prod.mk.inj hb
    rw [hcall] at hresult
    refine ⟨hresult.symm, ?_⟩
    rw [doExecRedirectOn] at hcall
    split_ifs at hcall with hopens hfork hwait hstatus <;>
      obtain ⟨hreturned, hrest⟩ := Prod.mk.inj hcall
    · exact absurd hreturned (by simp)
    all_goals obtain ⟨rfl, rfl⟩ := Prod.mk.inj hrest
    · exact ⟨by simp [Redirect.leaves, Redirect.abandons, hfork], by simp⟩
    · exact ⟨by simp [Redirect.leaves, Redirect.abandons, hwait], hchild⟩
    all_goals exact ⟨by simp [Redirect.leaves, Redirect.abandons, hfork, hwait], hchild⟩
  · exact absurd h (by simp)

/-- The child has its output file as standard output, except where that is the descriptor
which the open gave: there dup2 does nothing, and the close closes it. -/
theorem child_ref (t : Descriptors) (file : String) (n : Nat) :
    (((t.put t.lowest (some file)).dup2 t.lowest 1).close t.lowest).ref n =
      if n = 1 then (if t.lowest = 1 then none else some file) else t.ref n := by
  rw [Descriptors.close, Descriptors.dup2, Descriptors.ref_put, Descriptors.ref_put, Descriptors.ref_put,
    Descriptors.ref_put, if_pos rfl]
  by_cases hn : n = t.lowest
  · have hfree := t.ref_lowest
    rw [← hn] at hfree
    rw [if_pos hn, ← hn, hfree]
    split_ifs <;> rfl
  · rw [if_neg hn, if_neg hn]
    refine ite_congr rfl (fun h1 => ?_) fun _ => rfl
    rw [if_neg (by rw [← h1]; exact Ne.symm hn)]

end Redirects

/-- do_exec_redirect over any calls of one program that return. Each child's descriptors are
those of its parent with the output file as standard output, which is closed instead where
the open answered 1. Afterwards the output files of the calls that returned before their
close are open besides what was open at the start, which is as it was. -/
theorem redirected_output_files :
    (∀ t r t' b child, redirects.step t r = some (t', b, child) →
      doExecRedirect r.world r.outputfile r.args = .returned b ∧
        ∀ c, child = some c → ∀ n,
          c.ref n = if n = 1 then (if t.lowest = 1 then none else some r.outputfile) else t.ref n) ∧
    ∀ t rs t' os, redirects.run t rs = some (t', os) →
      t'.reduceOption.Perm (t.reduceOption ++ (rs.filter Redirect.abandons).map Redirect.outputfile) ∧
        ∀ n, t.ref n ≠ none → t'.ref n = t.ref n := by
  constructor
  · intro t r t' b child hstep
    obtain ⟨hresult, _, hchild⟩ := redirects_step hstep
    refine ⟨hresult, fun c hc n => ?_⟩
    rw [hchild c hc]
    exact child_ref t r.outputfile n
  · intro t rs t' os hrun
    induction rs generalizing t os with
    | nil =>
      obtain ⟨rfl, _⟩ := Prod.mk.inj (Option.some.inj hrun)
      simp
    | cons r rs ih =>
      obtain ⟨t₁, ⟨b, child⟩, os₁, hstep, hrest, _⟩ := redirects.run_cons_eq_some hrun
      obtain ⟨_, rfl, _⟩ := redirects_step hstep
      obtain ⟨hfiles, hkept⟩ := ih _ _ hrest
      refine ⟨?_, fun n hn => ?_⟩
      · rw [abandoned_cons, ← List.append_assoc]
        exact hfiles.trans ((r.leaves_files t).append_right _)
      · have hsame : (r.leaves t).ref n = t.ref n := r.leaves_ref hn
        rw [hkept n (hsame ▸ hn), hsame]

/-- Two calls on the same file with the standard output closed at first, of which the first
cannot fork; in the second there is nothing to execute. -/
theorem redirected_output_files_two_calls :
    ∃ t' os, redirects.run [some "tty", none, some "tty"]
        [⟨⟨fun _ => true, false, true, true, fun _ _ => none, ⟨fun line => [line], false, false⟩⟩, "out", []⟩,
          ⟨⟨fun _ => true, true, true, true, fun _ _ => none, ⟨fun line => [line], false, false⟩⟩, "out", []⟩] =
          some (t', os) ∧
      t'.reduceOption.Perm ["tty", "tty", "out"] ∧ t'.ref 0 = some "tty" := by
  have hrun : redirects.run [some "tty", none, some "tty"]
      [⟨⟨fun _ => true, false, true, true, fun _ _ => none, ⟨fun line => [line], false, false⟩⟩, "out", []⟩,
        ⟨⟨fun _ => true, true, true, true, fun _ _ => none, ⟨fun line => [line], false, false⟩⟩, "out", []⟩] =
      some ([some "tty", some "out", some "tty", none],
        [(false, none), (false, some [some "tty", some "out", some "tty", none])]) := rfl
  obtain ⟨hfiles, hkept⟩ := redirected_output_files.2 _ _ _ _ hrun
  exact ⟨_, _, hrun, hfiles, hkept 0 (by decide)⟩

end Aesd.Systemcalls
