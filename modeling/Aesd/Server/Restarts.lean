import Aesd.Server.FileSessions
import Aesd.Server.SharedDevice

/-! Server lifetimes on one machine. What a lifetime leaves behind is the directory entry
RECV_FILE_NAME: every stop removes it, and a start creates a regular file where it finds
nothing, so the device node lasts until the first stop. -/
namespace Aesd.Server
open Aesd.Foundations Aesd.Driver

/-- What RECV_FILE_NAME names. -/
inductive PathNode where
  | absent : PathNode
  | device : PathNode
  | regular : RegularFile → PathNode

structure Host where
  node : PathNode
  sys : Sys

/-- Who stored a packet; nobody did where open returned -1 and the server exited, or where
less than the packet was written. -/
inductive StoredBy where
  | aesdWrite : StoredBy
  | regularFile : StoredBy
  | nobody : StoredBy
  deriving DecidableEq, Repr

/-- A packet on its way to the store, and what open and write are given: a file number,
the driver's allocation and user copy, and how much a regular file accepts. -/
structure Append extends Arrival where
  fd : Nat
  alloc : Option Grant
  uncopied : Nat
  accepts : Nat

/-- create_new_file: open with O_CREAT and O_TRUNC, then close. -/
def hostCreate (fd : Nat) (s : Host) : Host :=
  match s.node with
  | .device => { s with sys := createNewFile s.sys fd }
  | .absent | .regular _ => { s with node := .regular ⟨[], 0⟩ }

/-- The open and the write of thread_callback; its open does not create. -/
def hostAppend (x : Append) (s : Host) : Option (Host × StoredBy) :=
  match s.node with
  | .absent => some (s, .nobody)
  | .device =>
    (driver.step (reopen s.sys x.fd) (.write x.fd ⟨some x.packet, true, x.alloc, x.uncopied⟩)).map fun q =>
      ({ s with sys := q.1 }, if q.2.ret = (x.packet.length : Int) then .aesdWrite else .nobody)
  | .regular f =>
    some ({ s with node := .regular { f with content := f.content ++ x.packet.take x.accepts } },
      if x.packet.length ≤ x.accepts then .regularFile else .nobody)

/-- A start of the server, the append of one of its sessions, and a stop by SIGINT or
SIGTERM with what remove(RECV_FILE_NAME) in sighandler achieves. -/
inductive LifeEvent where
  | start : Nat → LifeEvent
  | session : Append → LifeEvent
  | stop : Bool → LifeEvent

def lifetimes : Machine Host LifeEvent (Option StoredBy) where
  step s
    | .start fd => some (hostCreate fd s, none)
    | .session x => (hostAppend x s).map fun q => (q.1, some q.2)
    | .stop removed => some (if removed then { s with node := .absent } else s, none)

def hostLoaded : Host := ⟨.device, Sys.loaded⟩

/-- At every point the path names the device, and every packet was stored by aesd_write. -/
def PathSurvives (es : List LifeEvent) : Prop :=
  ∀ done, done <+: es → ∃ s rs, lifetimes.run hostLoaded done = some (s, rs) ∧ s.node = .device ∧
    ∀ r ∈ rs, ∀ w, r = some w → w = .aesdWrite

def NeverRemoved (es : List LifeEvent) : Prop := ∀ e ∈ es, e ≠ .stop true

/-- kmalloc or krealloc grants the write its block, and the whole packet is copied from the user. -/
def LifeEvent.Granted : LifeEvent → Prop
  | .session x => x.alloc.isSome = true ∧ x.uncopied = 0
  | _ => True

section Runs
variable {s : Host} {v : DeviceView} {es : List LifeEvent}

/-- aesd_write returns the packet's length exactly if nothing is in its way. -/
theorem writeRet_eq_length_iff {buf : List Byte} (hbuf : buf ≠ []) (alloc : Option Grant) (uncopied : Nat) :
    writeRet buf alloc uncopied = buf.length ↔ alloc.isSome = true ∧ uncopied = 0 := by
  have hpos := List.length_pos_of_ne_nil hbuf
  cases alloc with
  | none => simp [writeRet, ENOMEM]
  | some g =>
    simp only [writeRet, Option.isSome_some, if_true, length_accepted, true_and]
    omega

/-- On the device node a packet is stored by aesd_write exactly if its write is granted. -/
theorem hostAppend_device (hv : SysShows s.sys v) (hnode : s.node = .device) (x : Append) :
    ∃ s' w, hostAppend x s = some (s', w) ∧ (∃ v', SysShows s'.sys v') ∧ s'.node = .device ∧
      (w = .aesdWrite ↔ LifeEvent.Granted (.session x)) := by
  have hs := reopen_shows hv x.fd
  obtain ⟨k', r, hstep, hv', hret, _⟩ := step_write_shows hs x.fd x.packet x.alloc x.uncopied
  refine ⟨{ s with sys := ⟨k', (reopen s.sys x.fd).files⟩ },
    if r.ret = (x.packet.length : Int) then .aesdWrite else .nobody, ?_, ⟨_, hv', hs.opened⟩, hnode, ?_⟩
  · simp only [hostAppend, hnode, hstep, Option.map_some]
  · rw [hret, LifeEvent.Granted, ← writeRet_eq_length_iff x.packet_ne_nil]
    split
    · rename_i hwhole
      exact iff_of_true rfl hwhole
    · rename_i hless
      exact iff_of_false (by simp) hless

/-- On the device node every event but a removing stop keeps it. -/
theorem lifetimes_step (hv : SysShows s.sys v) (hnode : s.node = .device) {e : LifeEvent} (he : e ≠ .stop true) :
    ∃ s' r, lifetimes.step s e = some (s', r) ∧ (∃ v', SysShows s'.sys v') ∧ s'.node = .device ∧
      ((∀ w, r = some w → w = .aesdWrite) ↔ e.Granted) := by
  cases e with
  | start fd =>
    refine ⟨_, none, rfl, ?_, ?_, by simp [LifeEvent.Granted]⟩
    · rw [hostCreate, hnode]
      exact ⟨v, reopen_shows hv fd⟩
    · rw [hostCreate, hnode]
  | session x =>
    obtain ⟨s', w, happend, hv', hnode', hgranted⟩ := hostAppend_device hv hnode x
    exact ⟨s', some w, by simp only [lifetimes, happend, Option.map_some], hv', hnode', by simpa using hgranted⟩
  | stop removed =>
    cases removed with
    | true => exact absurd rfl he
    | false => exact ⟨s, none, rfl, ⟨v, hv⟩, hnode, by simp [LifeEvent.Granted]⟩

/-- As long as nobody removes the path it names the device, and granted writes are stored there. -/
theorem lifetimes_run (h : NeverRemoved es) :
    ∃ s rs, lifetimes.run hostLoaded es = some (s, rs) ∧ (∃ v, SysShows s.sys v) ∧ s.node = .device ∧
      ((∀ r ∈ rs, ∀ w, r = some w → w = .aesdWrite) ↔ ∀ e ∈ es, e.Granted) := by
  induction es using List.reverseRecOn with
  | nil => exact ⟨hostLoaded, [], rfl, ⟨_, sysShows_loaded⟩, rfl, by simp⟩
  | append_singleton es e ih =>
    obtain ⟨s, rs, hrun, ⟨v, hv⟩, hnode, hstored⟩ := ih fun e' he' => h e' (List.mem_append_left _ he')
    obtain ⟨s', r, hstep, hv', hnode', hr⟩ := lifetimes_step hv hnode (h e (by simp))
    refine ⟨s', rs ++ [r], by rw [Machine.run_concat _ hrun, hstep]; rfl, hv', hnode', ?_⟩
    simp only [List.forall_mem_append, List.forall_mem_singleton]
    exact and_congr hstored hr

end Runs

/-- The path keeps naming the device, and every packet is stored by aesd_write, exactly as
long as no stop has removed the path and every packet's write has been granted. -/
theorem path_survives_iff (es : List LifeEvent) : PathSurvives es ↔ NeverRemoved es ∧ ∀ e ∈ es, e.Granted := by
  constructor
  · intro h
    have hnever : NeverRemoved es := by
      rintro e he rfl
      obtain ⟨done, later, rfl⟩ := List.append_of_mem he
      obtain ⟨s, rs, hrun, hnode, _⟩ := h (done ++ [.stop true]) ⟨later, by simp⟩
      obtain ⟨s₁, rs₁, o, _, hstep, _⟩ := Machine.run_concat_eq_some _ hrun
      obtain ⟨rfl, _⟩ := Prod.mk.inj (Option.some.inj hstep)
      exact absurd hnode (by simp)
    obtain ⟨s, rs, hrun, _, hstored⟩ := h es List.prefix_rfl
    obtain ⟨s', rs', hrun', _, _, hgranted⟩ := lifetimes_run hnever
    obtain ⟨_, rfl⟩ := Prod.mk.inj (Option.some.inj (hrun.symm.trans hrun'))
    exact ⟨hnever, hgranted.mp hstored⟩
  · rintro ⟨hnever, hall⟩ done ⟨later, rfl⟩
    obtain ⟨s, rs, hrun, _, hnode, hgranted⟩ := lifetimes_run fun e he => hnever e (List.mem_append_left later he)
    exact ⟨s, rs, hrun, hnode, hgranted.mpr fun e he => hall e (List.mem_append_left later he)⟩

/-- A start, a stop and a second start: the packet "a\n" of the session after that goes
to a regular file. -/
theorem second_lifetime_misses_device :
    ¬PathSurvives [.start 0, .stop true, .start 0,
      .session ⟨⟨[[97, 10]], by decide, by decide⟩, 0, some (.above 0), 0, 2⟩] := by
  intro h
  obtain ⟨s, rs, hrun, _, hstored⟩ := h _ List.prefix_rfl
  have heval : (lifetimes.run hostLoaded [.start 0, .stop true, .start 0,
      .session ⟨⟨[[97, 10]], by decide, by decide⟩, 0, some (.above 0), 0, 2⟩]).map Prod.snd =
        some [none, none, none, some .regularFile] := by decide
  rw [hrun] at heval
  obtain rfl : rs = _ := Option.some.inj heval
  exact absurd (hstored (some .regularFile) (by simp) _ rfl) (by decide)

end Aesd.Server
