import Aesd.Server.ReceiveLoop
import Aesd.Server.Threads

/-! The statements of thread_callback, main, sighandler and timer_handler, one step each.
A statement on variables of the thread alone is taken together with the next one, and
an exit(1) together with the call whose failure it follows, except after open, where a
failed call leaves -1 in fptr. -/
namespace Aesd.Server
open Aesd.Foundations Aesd.Driver

/-- The next statement of a session thread, with total, n, found and the locals of read_file. -/
inductive SessionPc where
  | lock : SessionPc
  | malloc : SessionPc
  | memset : SessionPc
  | recv : Int → SessionPc
  | scan : Int → Int → SessionPc
  | realloc : Int → Bool → SessionPc
  | openAppend : Int → SessionPc
  | openFailed : Ending → SessionPc
  | write : Int → SessionPc
  | freeRecv : Int → SessionPc
  | nullRecv : Int → SessionPc
  | closeStore : Int → SessionPc
  | nullRead : Int → SessionPc
  | addLen : Int → SessionPc
  | openRead : SessionPc
  | mallocRead : Int → SessionPc
  | read : Int → Int → Int → SessionPc
  | closeRead : Int → SessionPc
  | send : SessionPc
  | freeRead : SessionPc
  | nullReadAgain : SessionPc
  | unlock : SessionPc
  | complete : SessionPc
  | closeSocket : SessionPc
  | done : SessionPc
  deriving DecidableEq, Repr

/-- A call that a removed path or its own failure keeps from succeeding. -/
def openEnding (g : Image) : Ending := if g.removed then .lost else .failed

/-- The session thread me, whose cb_params lies in this node. -/
def sessionStep (me : Tid) (node : Nat) (r : Reply) (g : Image) : SessionPc → Except Stop (Outcome SessionPc)
  | .lock => lockMutex me r g .malloc
  | .malloc =>
    if r.ok then
      .ok (.next .memset { g.alloc (.buffer (List.replicate recvLen none)) with recvData := some g.next } none)
    else .ok (.next .memset { g with recvData := none } none)
  | .memset => do
    let (i, b) ← g.buffer g.recvData
    let b ← place b 0 (List.replicate recvLen 0)
    return .next (.recv 0) (g.set i (.buffer b)) none
  | .recv total => do
    let q ← g.params node
    match g.fds q.acceptedSockfd with
    | some (.connection c) =>
      if r.ok then do
        let (i, b) ← g.buffer g.recvData
        let b ← place b total (r.data.take recvLen)
        return .next (.scan total (r.data.take recvLen).length) (g.set i (.buffer b))
          (some (.call (.recv c (r.data.take recvLen))))
      else return .ends .failed
    | _ => return .ends .lost
  | .scan total n => do
    let total ← addInt total n
    let (_, b) ← g.buffer g.recvData
    let last ← byteAt b (total - 1)
    return .next (.realloc total (last == newline)) g none
  | .realloc total found => do
    let size ← addInt total recvLen
    let (i, b) ← g.buffer g.recvData
    if r.ok then do
      let g ← g.free (some i)
      return .next (if found then .openAppend total else .recv total)
        { g.alloc (.buffer (resize b size)) with recvData := some g.next } none
    else return .ends .failed
  | .openAppend total =>
    if r.ok = true ∧ g.removed = false then do
      let g ← g.openFd r.fd .store
      return .next (.write total) { g with fptr := r.fd } none
    else .ok (.next (.openFailed (openEnding g)) { g with fptr := -1 } none)
  | .openFailed e => .ok (.ends e)
  | .write total => do
    let (_, b) ← g.buffer g.recvData
    let data ← firstBytes b total
    return .next (.freeRecv total) g ((g.fds g.fptr).map fun d => .call (.write d data))
  | .freeRecv total => do
    let g' ← g.free g.recvData
    return .next (.nullRecv total) g' (g.recvData.map .free)
  | .nullRecv total => .ok (.next (.closeStore total) { g with recvData := none } none)
  | .closeStore total => .ok (.next (.nullRead total) (g.closeFd g.fptr) (some (.close g.fptr)))
  | .nullRead total => .ok (.next (.addLen total) { g with readBuffer := none } none)
  | .addLen total => do
    let len ← addInt g.readDataLen total
    return .next .openRead { g with readDataLen := len } none
  | .openRead =>
    if r.ok = true ∧ g.removed = false then do
      let g ← g.openFd r.fd .store
      return .next (.mallocRead r.fd) g none
    else .ok (.ends (openEnding g))
  | .mallocRead fd =>
    match malloc r.ok g.readDataLen with
    | some b =>
      .ok (.next (.read fd g.readDataLen 0) { g.alloc (.buffer b) with readBuffer := some g.next } none)
    | none => .ok (.ends .failed)
  | .read fd length status => do
    let (i, b) ← g.buffer g.readBuffer
    match g.fds fd with
    | some d =>
      -- a failing read delivers nothing, and its -1 is added to status
      let n := if r.ok then r.count else -1
      let data := if r.ok then r.data.take length.toNat else []
      let b ← place b status data
      return .next (if toInt (status + n) ≠ length then .read fd length (toInt (status + n)) else .closeRead fd)
        (g.set i (.buffer b)) (some (.call (.read d n data)))
    | none =>
      return .next (if toInt (status - 1) ≠ length then .read fd length (toInt (status - 1)) else .closeRead fd)
        g none
  | .closeRead fd => .ok (.next .send (g.closeFd fd) (some (.close fd)))
  | .send => do
    let q ← g.params node
    let (_, b) ← g.buffer g.readBuffer
    match g.fds q.acceptedSockfd with
    | some (.connection c) =>
      if r.ok then do
        let data ← firstBytes b g.readDataLen
        return .next .freeRead g (some (.call (.send c data)))
      else return .ends .failed
    | _ => return .ends .lost
  | .freeRead => do
    let g' ← g.free g.readBuffer
    return .next .nullReadAgain g' (g.readBuffer.map .free)
  | .nullReadAgain => .ok (.next .unlock { g with readBuffer := none } none)
  | .unlock => unlockMutex me r g .complete
  | .complete => do
    let q ← g.params node
    return .next .closeSocket (g.set node (.node { q with isThreadComplete := true })) none
  | .closeSocket => do
    let q ← g.params node
    return .next .done (g.closeFd q.acceptedSockfd) (some (.close q.acceptedSockfd))
  | .done => .error .unfinished

/-- The next statement of main, with data_node_p, which no other thread reads, and the
rest of the list that SLIST_FOREACH has before it. -/
inductive MainPc where
  | register : MainPc
  | getAddressInfo : MainPc
  | resetAccepted : MainPc
  | socket : MainPc
  | setsockopt : MainPc
  | bind : MainPc
  | daemonise : MainPc
  | createOpen : MainPc
  | createFailed : MainPc
  | createClose : MainPc
  | initList : MainPc
  | initMutex : MainPc
  | initTimer : MainPc
  | listen : MainPc
  | accept : MainPc
  | mallocNode : MainPc
  | setSockfd : Nat → MainPc
  | setComplete : Nat → MainPc
  | insert : Nat → MainPc
  | create : Nat → MainPc
  | first : MainPc
  | pass : List Nat → MainPc
  | join : Nat → List Nat → MainPc
  deriving DecidableEq, Repr

def orReturn (r : Reply) (g : Image) (after : MainPc) : Except Stop (Outcome MainPc) :=
  if r.ok then .ok (.next after g none) else .ok (.ends .failed)

/-- main with USE_AESD_CHAR_DEVICE == 0 where timer is true. The next connection and the
next thread have the number created; finished tells which threads have returned. -/
def mainStep (timer : Bool) (created : Nat) (finished : Nat → Bool) (r : Reply) (g : Image) :
    MainPc → Except Stop (Outcome MainPc)
  | .register => orReturn r g .getAddressInfo
  | .getAddressInfo => orReturn r g .resetAccepted
  | .resetAccepted => .ok (.next .socket { g with acceptedSockfd := 0 } none)
  | .socket =>
    if r.ok then do
      let g ← g.openFd r.fd .listening
      return .next .setsockopt { g with sockfd := r.fd } none
    else .ok (.ends .failed)
  | .setsockopt => orReturn r g .bind
  | .bind => orReturn r g .daemonise
  | .daemonise => orReturn r g .createOpen
  | .createOpen =>
    if r.ok then do
      let g ← g.openFd r.fd .store
      return .next .createClose { g with fptr := r.fd, removed := false } none
    else .ok (.next .createFailed { g with fptr := -1 } none)
  | .createFailed => .ok (.ends .failed)
  | .createClose => .ok (.next .initList (g.closeFd g.fptr) (some (.close g.fptr)))
  | .initList => .ok (.next .initMutex { g with head := [] } none)
  | .initMutex =>
    -- with the timer, init_timer's status replaces that of initialise_mutex_lock
    if timer then .ok (.next .initTimer { g with mutexLock := none } none)
    else orReturn r { g with mutexLock := none } .listen
  | .initTimer => orReturn r g .listen
  | .listen =>
    if g.fds g.sockfd = some .listening then orReturn r g .accept else .ok (.ends .lost)
  | .accept =>
    if g.fds g.sockfd = some .listening then
      if r.ok then do
        let g ← g.openFd r.fd (.connection created)
        return .next .mallocNode { g with acceptedSockfd := r.fd } none
      else .ok (.ends .failed)
    else .ok (.ends .lost)
  | .mallocNode =>
    if r.ok then .ok (.next (.setSockfd g.next) (g.alloc (.node ⟨none, 0, false⟩)) none) else .ok (.ends .failed)
  | .setSockfd a => do
    let q ← g.params a
    return .next (.setComplete a) (g.set a (.node { q with acceptedSockfd := g.acceptedSockfd })) none
  | .setComplete a => do
    let q ← g.params a
    return .next (.insert a) (g.set a (.node { q with isThreadComplete := false })) none
  | .insert a => do
    let _ ← g.params a
    return .next (.create a) { g with head := a :: g.head } none
  | .create a =>
    if r.ok then do
      let q ← g.params a
      return .next .first (g.set a (.node { q with threadId := some created })) none
    else .ok (.ends .failed)
  | .first => .ok (.next (.pass g.head) g none)
  | .pass [] => .ok (.next .listen g none)
  | .pass (a :: rest) => do
    let q ← g.params a
    return .next (if q.isThreadComplete then .join a rest else .pass rest) g none
  | .join a rest => do
    let q ← g.params a
    match q.threadId with
    | some k =>
      if finished k then
        -- undefined for a thread that has been joined before: such a call need not return
        if k ∈ g.joined ∧ r.ok = false then throw .undefined
        else return .next (.pass rest) { g with joined := k :: g.joined } (some (.join k))
      else throw .unfinished
    | none => throw .undefined

/-- The next statement of sighandler, with temp. -/
inductive SighandlerPc where
  | closeFptr : SighandlerPc
  | closeSockfd : SighandlerPc
  | closeAccepted : SighandlerPc
  | freeRead : SighandlerPc
  | freeRecv : SighandlerPc
  | remove : SighandlerPc
  | first : SighandlerPc
  | removeHead : Nat → SighandlerPc
  | freeNode : Nat → SighandlerPc
  deriving DecidableEq, Repr

/-- sighandler for SIGINT and SIGTERM; it returns where there is no next statement. -/
def sighandlerStep (r : Reply) (g : Image) : SighandlerPc → Except Stop (Outcome (Option SighandlerPc))
  | .closeFptr =>
    if g.fptr ≠ -1 then .ok (.next (some .closeSockfd) (g.closeFd g.fptr) (some (.close g.fptr)))
    else .ok (.next (some .closeSockfd) g none)
  | .closeSockfd => .ok (.next (some .closeAccepted) (g.closeFd g.sockfd) (some (.close g.sockfd)))
  | .closeAccepted => .ok (.next (some .freeRead) (g.closeFd g.acceptedSockfd) (some (.close g.acceptedSockfd)))
  | .freeRead => do
    let g' ← g.free g.readBuffer
    return .next (some .freeRecv) g' (g.readBuffer.map .free)
  | .freeRecv => do
    let g' ← g.free g.recvData
    return .next (some .remove) g' (g.recvData.map .free)
  | .remove => .ok (.next (some .first) { g with removed := g.removed || r.ok } none)
  | .first =>
    match g.head with
    | [] => .ok (.next none g none)
    | temp :: _ => .ok (.next (some (.removeHead temp)) g none)
  | .removeHead temp =>
    match g.head with
    | [] => .error .undefined
    | a :: rest => do
      let _ ← g.params a
      return .next (some (.freeNode temp)) { g with head := rest } none
  | .freeNode temp => do
    let g' ← g.free (some temp)
    return .next (some .first) g' (some (.free temp))

/-- The next statement of timer_handler, with formatted_time. -/
inductive TimerPc where
  | format : TimerPc
  | lock : List Byte → TimerPc
  | openStore : List Byte → TimerPc
  | openFailed : Ending → TimerPc
  | write : List Byte → TimerPc
  | close : TimerPc
  | unlock : TimerPc
  deriving DecidableEq, Repr

/-- timer_handler for SIGALRM, on the thread me; formatted_time has 50 bytes. -/
def timerStep (me : Tid) (r : Reply) (g : Image) : TimerPc → Except Stop (Outcome (Option TimerPc))
  | .format => .ok (.next (some (.lock (r.data.take 49))) g none)
  | .lock time => lockMutex me r g (some (.openStore time))
  | .openStore time =>
    if r.ok = true ∧ g.removed = false then do
      let g ← g.openFd r.fd .store
      return .next (some (.write time)) { g with fptr := r.fd } none
    else .ok (.next (some (.openFailed (openEnding g))) { g with fptr := -1 } none)
  | .openFailed e => .ok (.ends e)
  | .write time => .ok (.next (some .close) g ((g.fds g.fptr).map fun d => .call (.write d time)))
  | .close => .ok (.next (some .unlock) (g.closeFd g.fptr) (some (.close g.fptr)))
  | .unlock => unlockMutex me r g none

end Aesd.Server
