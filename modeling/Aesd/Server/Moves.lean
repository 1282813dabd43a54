import Aesd.Server.Statements

/-! What a statement of a session or of main can do when it does not end the process: one
case for each way to the next statement, with what must have held for it. -/
namespace Aesd.Server
open Aesd.Foundations Aesd.Driver

def Ends {π : Type} (x : Except Stop (Outcome π)) (e : Ending) : Prop :=
  x = .ok (.ends e) ∨ x = .error .exited ∧ e = .failed

/-- The ways in which a session thread gets from one statement to the next. -/
inductive SessionMove (me : Tid) (node : Nat) (g : Image) :
    SessionPc → SessionPc → Image → Option Act → Prop where
  | lock : g.mutexLock = none → SessionMove me node g .lock .malloc { g with mutexLock := some me } none
  | malloc :
    SessionMove me node g .malloc .memset
      { g.alloc (.buffer (List.replicate recvLen none)) with recvData := some g.next } none
  | mallocFailed : SessionMove me node g .malloc .memset { g with recvData := none } none
  | memset {i : Nat} {b b' : Buffer} : g.recvData = some i → g.memory i = some (.buffer b) →
    SessionMove me node g .memset (.recv 0) (g.set i (.buffer b')) none
  | recv {total : Int} {q : Params} {c i : Nat} {b b' : Buffer} {data : List Byte} :
    g.memory node = some (.node q) → g.fds q.acceptedSockfd = some (.connection c) → g.recvData = some i →
    g.memory i = some (.buffer b) → place b total data = .ok b' →
    SessionMove me node g (.recv total) (.scan total data.length) (g.set i (.buffer b'))
      (some (.call (.recv c data)))
  | scan {total n : Int} {found : Bool} :
    SessionMove me node g (.scan total n) (.realloc (total + n) found) g none
  | realloc {total : Int} {found : Bool} {i : Nat} {b : Buffer} : g.recvData = some i →
    g.memory i = some (.buffer b) →
    SessionMove me node g (.realloc total found) (if found then .openAppend total else .recv total)
      { g with
        memory := Function.update (Function.update g.memory i none) g.next
          (some (.buffer (resize b (total + recvLen))))
        next := g.next + 1
        recvData := some g.next } none
  | openAppend {total fd : Int} : 0 ≤ fd → g.fds fd = none →
    SessionMove me node g (.openAppend total) (.write total)
      { g with fds := Function.update g.fds fd (some .store), fptr := fd } none
  | openFailed {total : Int} :
    SessionMove me node g (.openAppend total) (.openFailed (openEnding g)) { g with fptr := -1 } none
  | write {total : Int} {i : Nat} {b : Buffer} {data : List Byte} : g.recvData = some i →
    g.memory i = some (.buffer b) → firstBytes b total = .ok data →
    SessionMove me node g (.write total) (.freeRecv total) g
      ((g.fds g.fptr).map fun d => .call (.write d data))
  | freeRecv {total : Int} {g' : Image} : g.free g.recvData = .ok g' →
    SessionMove me node g (.freeRecv total) (.nullRecv total) g' (g.recvData.map .free)
  | nullRecv {total : Int} :
    SessionMove me node g (.nullRecv total) (.closeStore total) { g with recvData := none } none
  | closeStore {total : Int} :
    SessionMove me node g (.closeStore total) (.nullRead total) (g.closeFd g.fptr) (some (.close g.fptr))
  | nullRead {total : Int} :
    SessionMove me node g (.nullRead total) (.addLen total) { g with readBuffer := none } none
  | addLen {total : Int} :
    SessionMove me node g (.addLen total) .openRead { g with readDataLen := g.readDataLen + total } none
  | openRead {fd : Int} : 0 ≤ fd → g.fds fd = none →
    SessionMove me node g .openRead (.mallocRead fd)
      { g with fds := Function.update g.fds fd (some .store) } none
  | mallocRead {fd : Int} : 0 ≤ g.readDataLen →
    SessionMove me node g (.mallocRead fd) (.read fd g.readDataLen 0)
      { g.alloc (.buffer (List.replicate g.readDataLen.toNat none)) with readBuffer := some g.next } none
  | read {fd length status n : Int} {i : Nat} {b b' : Buffer} {d : Desc} {data : List Byte} :
    g.readBuffer = some i → g.memory i = some (.buffer b) → g.fds fd = some d → place b status data = .ok b' →
    SessionMove me node g (.read fd length status)
      (if toInt (status + n) ≠ length then .read fd length (toInt (status + n)) else .closeRead fd)
      (g.set i (.buffer b')) (some (.call (.read d n data)))
  | readClosed {fd length status : Int} : g.fds fd = none →
    SessionMove me node g (.read fd length status)
      (if toInt (status - 1) ≠ length then .read fd length (toInt (status - 1)) else .closeRead fd) g none
  | closeRead {fd : Int} : SessionMove me node g (.closeRead fd) .send (g.closeFd fd) (some (.close fd))
  | send {q : Params} {c i : Nat} {b : Buffer} {data : List Byte} : g.memory node = some (.node q) →
    g.readBuffer = some i → g.memory i = some (.buffer b) → g.fds q.acceptedSockfd = some (.connection c) →
    firstBytes b g.readDataLen = .ok data →
    SessionMove me node g .send .freeRead g (some (.call (.send c data)))
  | freeRead {g' : Image} : g.free g.readBuffer = .ok g' →
    SessionMove me node g .freeRead .nullReadAgain g' (g.readBuffer.map .free)
  | nullReadAgain : SessionMove me node g .nullReadAgain .unlock { g with readBuffer := none } none
  | unlock : g.mutexLock = some me → SessionMove me node g .unlock .complete { g with mutexLock := none } none
  | complete {q : Params} : g.memory node = some (.node q) →
    SessionMove me node g .complete .closeSocket (g.set node (.node { q with isThreadComplete := true })) none
  | closeSocket {q : Params} : g.memory node = some (.node q) →
    SessionMove me node g .closeSocket .done (g.closeFd q.acceptedSockfd) (some (.close q.acceptedSockfd))

section Session
variable {me : Tid} {node : Nat} {r : Reply} {g g' : Image} {pc pc' : SessionPc} {act : Option Act}

theorem malloc_eq_some {granted : Bool} {n : Int} {b : Buffer} (h : malloc granted n = some b) :
    0 ≤ n ∧ b = List.replicate n.toNat none := by
  unfold malloc at h
  split at h
  · rename_i hn
    exact ⟨hn.2, (Option.some.inj h).symm⟩
  · exact absurd h (by simp)

/-- Every statement of a session that returns is one of its moves. -/
theorem sessionStep_moves (h : sessionStep me node r g pc = .ok (.next pc' g' act)) :
    SessionMove me node g pc pc' g' act := by
  cases pc with
  | lock =>
    obtain ⟨hfree, rfl, rfl, rfl⟩ := lockMutex_next h
    exact .lock hfree
  | malloc =>
    simp only [sessionStep] at h
    split at h
    · obtain ⟨rfl, rfl, rfl⟩ := Outcome.next.inj (Except.ok.inj h)
      exact .malloc
    · obtain ⟨rfl, rfl, rfl⟩ := Outcome.next.inj (Except.ok.inj h)
      exact .mallocFailed
  | memset =>
    obtain ⟨⟨i, b⟩, hb, h⟩ := bind_eq_ok.mp h
    obtain ⟨b', _, h⟩ := bind_eq_ok.mp h
    obtain ⟨rfl, rfl, rfl⟩ := Outcome.next.inj (Except.ok.inj h)
    obtain ⟨hp, hm⟩ := Image.buffer_eq_ok.mp hb
    exact .memset hp hm
  | recv total =>
    obtain ⟨q, hq, h⟩ := bind_eq_ok.mp h
    split at h
    · rename_i c hc
      split at h
      · obtain ⟨⟨i, b⟩, hb, h⟩ := bind_eq_ok.mp h
        obtain ⟨b', hplace, h⟩ := bind_eq_ok.mp h
        obtain ⟨rfl, rfl, rfl⟩ := Outcome.next.inj (Except.ok.inj h)
        obtain ⟨hp, hm⟩ := Image.buffer_eq_ok.mp hb
        exact .recv (Image.params_eq_ok.mp hq) hc hp hm hplace
      · exact absurd h (by simp [pure, Except.pure])
    · exact absurd h (by simp [pure, Except.pure])
  | scan total n =>
    obtain ⟨t, ht, h⟩ := bind_eq_ok.mp h
    obtain ⟨_, _, h⟩ := bind_eq_ok.mp h
    obtain ⟨_, _, h⟩ := bind_eq_ok.mp h
    obtain ⟨rfl, rfl, rfl⟩ := Outcome.next.inj (Except.ok.inj h)
    obtain ⟨rfl, _⟩ := addInt_eq_ok ht
    exact .scan
  | realloc total found =>
    obtain ⟨size, hsize, h⟩ := bind_eq_ok.mp h
    obtain ⟨⟨i, b⟩, hb, h⟩ := bind_eq_ok.mp h
    obtain ⟨rfl, _⟩ := addInt_eq_ok hsize
    obtain ⟨hp, hm⟩ := Image.buffer_eq_ok.mp hb
    dsimp only at h
    split at h
    · obtain ⟨g₁, hfree, h⟩ := bind_eq_ok.mp h
      obtain ⟨rfl, rfl, rfl⟩ := Outcome.next.inj (Except.ok.inj h)
      obtain ⟨_, rfl⟩ := Image.free_some hfree
      exact .realloc hp hm
    · exact absurd h (by simp [pure, Except.pure])
  | openAppend total =>
    simp only [sessionStep] at h
    split at h
    · obtain ⟨hfd, hfree, rfl, rfl, rfl⟩ := openFd_next h
      exact .openAppend hfd hfree
    · obtain ⟨rfl, rfl, rfl⟩ := Outcome.next.inj (Except.ok.inj h)
      exact .openFailed
  | openFailed e => exact absurd h (by simp [sessionStep])
  | write total =>
    obtain ⟨⟨i, b⟩, hb, h⟩ := bind_eq_ok.mp h
    obtain ⟨data, hdata, h⟩ := bind_eq_ok.mp h
    obtain ⟨rfl, rfl, rfl⟩ := Outcome.next.inj (Except.ok.inj h)
    obtain ⟨hp, hm⟩ := Image.buffer_eq_ok.mp hb
    exact .write hp hm hdata
  | freeRecv total =>
    obtain ⟨g₁, hfree, h⟩ := bind_eq_ok.mp h
    obtain ⟨rfl, rfl, rfl⟩ := Outcome.next.inj (Except.ok.inj h)
    exact .freeRecv hfree
  | nullRecv total =>
    obtain ⟨rfl, rfl, rfl⟩ := Outcome.next.inj (Except.ok.inj h)
    exact .nullRecv
  | closeStore total =>
    obtain ⟨rfl, rfl, rfl⟩ := Outcome.next.inj (Except.ok.inj h)
    exact .closeStore
  | nullRead total =>
    obtain ⟨rfl, rfl, rfl⟩ := Outcome.next.inj (Except.ok.inj h)
    exact .nullRead
  | addLen total =>
    obtain ⟨len, hlen, h⟩ := bind_eq_ok.mp h
    obtain ⟨rfl, rfl, rfl⟩ := Outcome.next.inj (Except.ok.inj h)
    obtain ⟨rfl, _⟩ := addInt_eq_ok hlen
    exact .addLen
  | openRead =>
    simp only [sessionStep] at h
    split at h
    · obtain ⟨hfd, hfree, rfl, rfl, rfl⟩ := openFd_next h
      exact .openRead hfd hfree
    · exact absurd h (by simp)
  | mallocRead fd =>
    simp only [sessionStep] at h
    split at h
    · rename_i b hb
      obtain ⟨rfl, rfl, rfl⟩ := Outcome.next.inj (Except.ok.inj h)
      obtain ⟨hlen, rfl⟩ := malloc_eq_some hb
      exact .mallocRead hlen
    · exact absurd h (by simp)
  | read fd length status =>
    obtain ⟨⟨i, b⟩, hb, h⟩ := bind_eq_ok.mp h
    obtain ⟨hp, hm⟩ := Image.buffer_eq_ok.mp hb
    dsimp only at h
    split at h
    · rename_i d hd
      obtain ⟨b', hplace, h⟩ := bind_eq_ok.mp h
      obtain ⟨rfl, rfl, rfl⟩ := Outcome.next.inj (Except.ok.inj h)
      exact .read hp hm hd hplace
    · rename_i hd
      obtain ⟨rfl, rfl, rfl⟩ := Outcome.next.inj (Except.ok.inj h)
      exact .readClosed hd
  | closeRead fd =>
    obtain ⟨rfl, rfl, rfl⟩ := Outcome.next.inj (Except.ok.inj h)
    exact .closeRead
  | send =>
    obtain ⟨q, hq, h⟩ := bind_eq_ok.mp h
    obtain ⟨⟨i, b⟩, hb, h⟩ := bind_eq_ok.mp h
    obtain ⟨hp, hm⟩ := Image.buffer_eq_ok.mp hb
    dsimp only at h
    split at h
    · rename_i c hc
      split at h
      · obtain ⟨data, hdata, h⟩ := bind_eq_ok.mp h
        obtain ⟨rfl, rfl, rfl⟩ := Outcome.next.inj (Except.ok.inj h)
        exact .send (Image.params_eq_ok.mp hq) hp hm hc hdata
      · exact absurd h (by simp [pure, Except.pure])
    · exact absurd h (by simp [pure, Except.pure])
  | freeRead =>
    obtain ⟨g₁, hfree, h⟩ := bind_eq_ok.mp h
    obtain ⟨rfl, rfl, rfl⟩ := Outcome.next.inj (Except.ok.inj h)
    exact .freeRead hfree
  | nullReadAgain =>
    obtain ⟨rfl, rfl, rfl⟩ := Outcome.next.inj (Except.ok.inj h)
    exact .nullReadAgain
  | unlock =>
    obtain ⟨hmine, rfl, rfl, rfl⟩ := unlockMutex_next h
    exact .unlock hmine
  | complete =>
    obtain ⟨q, hq, h⟩ := bind_eq_ok.mp h
    obtain ⟨rfl, rfl, rfl⟩ := Outcome.next.inj (Except.ok.inj h)
    exact .complete (Image.params_eq_ok.mp hq)
  | closeSocket =>
    obtain ⟨q, hq, h⟩ := bind_eq_ok.mp h
    obtain ⟨rfl, rfl, rfl⟩ := Outcome.next.inj (Except.ok.inj h)
    exact .closeSocket (Image.params_eq_ok.mp hq)
  | done => exact absurd h (by simp [sessionStep])

theorem Ends.lost {π : Type} {x : Except Stop (Outcome π)} (h : Ends x .lost) : x = .ok (.ends .lost) :=
  h.resolve_right (by simp)

/-- A session ends the process for want of its connection or of the path. -/
theorem sessionStep_lost (h : Ends (sessionStep me node r g pc) .lost) :
    pc = .openFailed .lost ∨ (pc = .openRead ∧ g.removed = true) ∨
      ((∃ total, pc = .recv total) ∨ pc = .send) ∧
        ∃ q, g.memory node = some (.node q) ∧ ∀ c, g.fds q.acceptedSockfd ≠ some (.connection c) := by
  have h := h.lost
  cases pc with
  | lock =>
    simp only [sessionStep, lockMutex] at h
    split at h
    · split at h
      · exact absurd h (by simp)
      · exact absurd h (by simp)
    · exact absurd h (by simp)
  | malloc =>
    simp only [sessionStep] at h
    split at h
    · exact absurd h (by simp)
    · exact absurd h (by simp)
  | memset =>
    obtain ⟨_, _, h⟩ := bind_eq_ok.mp h
    obtain ⟨_, _, h⟩ := bind_eq_ok.mp h
    exact absurd (Except.ok.inj h) (by simp)
  | recv total =>
    obtain ⟨q, hq, h⟩ := bind_eq_ok.mp h
    split at h
    · split at h
      · obtain ⟨_, _, h⟩ := bind_eq_ok.mp h
        obtain ⟨_, _, h⟩ := bind_eq_ok.mp h
        exact absurd (Except.ok.inj h) (by simp)
      · exact absurd (Except.ok.inj h) (by simp)
    · rename_i hc
      exact .inr (.inr ⟨.inl ⟨total, rfl⟩, q, Image.params_eq_ok.mp hq, hc⟩)
  | scan total n =>
    obtain ⟨_, _, h⟩ := bind_eq_ok.mp h
    obtain ⟨_, _, h⟩ := bind_eq_ok.mp h
    obtain ⟨_, _, h⟩ := bind_eq_ok.mp h
    exact absurd (Except.ok.inj h) (by simp)
  | realloc total found =>
    obtain ⟨_, _, h⟩ := bind_eq_ok.mp h
    obtain ⟨_, _, h⟩ := bind_eq_ok.mp h
    dsimp only at h
    split at h
    · obtain ⟨_, _, h⟩ := bind_eq_ok.mp h
      exact absurd (Except.ok.inj h) (by simp)
    · exact absurd (Except.ok.inj h) (by simp)
  | openAppend total =>
    simp only [sessionStep] at h
    split at h
    · obtain ⟨_, _, h⟩ := bind_eq_ok.mp h
      exact absurd (Except.ok.inj h) (by simp)
    · exact absurd (Except.ok.inj h) (by simp)
  | openFailed e => exact .inl (by rw [Outcome.ends.inj (Except.ok.inj h)])
  | write total =>
    obtain ⟨_, _, h⟩ := bind_eq_ok.mp h
    obtain ⟨_, _, h⟩ := bind_eq_ok.mp h
    exact absurd (Except.ok.inj h) (by simp)
  | freeRecv | freeRead | addLen | complete | closeSocket =>
    obtain ⟨_, _, h⟩ := bind_eq_ok.mp h
    exact absurd (Except.ok.inj h) (by simp)
  | nullRecv | closeStore | nullRead | closeRead | nullReadAgain => exact absurd (Except.ok.inj h) (by simp)
  | openRead =>
    simp only [sessionStep] at h
    split at h
    · obtain ⟨_, _, h⟩ := bind_eq_ok.mp h
      exact absurd (Except.ok.inj h) (by simp)
    · have he := Outcome.ends.inj (Except.ok.inj h)
      unfold openEnding at he
      split at he
      · rename_i hremoved
        exact .inr (.inl ⟨rfl, hremoved⟩)
      · exact absurd he (by simp)
  | mallocRead fd =>
    simp only [sessionStep] at h
    split at h
    · exact absurd h (by simp)
    · exact absurd h (by simp)
  | read fd length status =>
    obtain ⟨_, _, h⟩ := bind_eq_ok.mp h
    dsimp only at h
    split at h
    · obtain ⟨_, _, h⟩ := bind_eq_ok.mp h
      exact absurd (Except.ok.inj h) (by simp)
    · exact absurd (Except.ok.inj h) (by simp)
  | send =>
    obtain ⟨q, hq, h⟩ := bind_eq_ok.mp h
    obtain ⟨_, _, h⟩ := bind_eq_ok.mp h
    dsimp only at h
    split at h
    · split at h
      · obtain ⟨_, _, h⟩ := bind_eq_ok.mp h
        exact absurd (Except.ok.inj h) (by simp)
      · exact absurd (Except.ok.inj h) (by simp)
    · rename_i hc
      exact .inr (.inr ⟨.inr rfl, q, Image.params_eq_ok.mp hq, hc⟩)
  | unlock =>
    simp only [sessionStep, unlockMutex] at h
    split at h
    · split at h
      · exact absurd h (by simp)
      · exact absurd h (by simp)
    · exact absurd h (by simp)
  | done => exact absurd h (by simp [sessionStep])

end Session

/-- The ways in which main gets from one statement to the next. -/
inductive MainMove (timer : Bool) (created : Nat) (finished : Nat → Bool) (g : Image) :
    MainPc → MainPc → Image → Option Act → Prop where
  | register : MainMove timer created finished g .register .getAddressInfo g none
  | getAddressInfo : MainMove timer created finished g .getAddressInfo .resetAccepted g none
  | resetAccepted :
    MainMove timer created finished g .resetAccepted .socket { g with acceptedSockfd := 0 } none
  | socket {fd : Int} : 0 ≤ fd → g.fds fd = none →
    MainMove timer created finished g .socket .setsockopt
      { g with fds := Function.update g.fds fd (some .listening), sockfd := fd } none
  | setsockopt : MainMove timer created finished g .setsockopt .bind g none
  | bind : MainMove timer created finished g .bind .daemonise g none
  | daemonise : MainMove timer created finished g .daemonise .createOpen g none
  | createOpen {fd : Int} : 0 ≤ fd → g.fds fd = none →
    MainMove timer created finished g .createOpen .createClose
      { g with fds := Function.update g.fds fd (some .store), fptr := fd, removed := false } none
  | createFailed : MainMove timer created finished g .createOpen .createFailed { g with fptr := -1 } none
  | createClose :
    MainMove timer created finished g .createClose .initList (g.closeFd g.fptr) (some (.close g.fptr))
  | initList : MainMove timer created finished g .initList .initMutex { g with head := [] } none
  | initMutex :
    MainMove timer created finished g .initMutex (if timer then .initTimer else .listen)
      { g with mutexLock := none } none
  | initTimer : MainMove timer created finished g .initTimer .listen g none
  | listen : g.fds g.sockfd = some .listening → MainMove timer created finished g .listen .accept g none
  | accept {fd : Int} : g.fds g.sockfd = some .listening → 0 ≤ fd → g.fds fd = none →
    MainMove timer created finished g .accept .mallocNode
      { g with fds := Function.update g.fds fd (some (.connection created)), acceptedSockfd := fd } none
  | mallocNode :
    MainMove timer created finished g .mallocNode (.setSockfd g.next) (g.alloc (.node ⟨none, 0, false⟩)) none
  | setSockfd {a : Nat} {q : Params} : g.memory a = some (.node q) →
    MainMove timer created finished g (.setSockfd a) (.setComplete a)
      (g.set a (.node { q with acceptedSockfd := g.acceptedSockfd })) none
  | setComplete {a : Nat} {q : Params} : g.memory a = some (.node q) →
    MainMove timer created finished g (.setComplete a) (.insert a)
      (g.set a (.node { q with isThreadComplete := false })) none
  | insert {a : Nat} :
    MainMove timer created finished g (.insert a) (.create a) { g with head := a :: g.head } none
  | create {a : Nat} {q : Params} : g.memory a = some (.node q) →
    MainMove timer created finished g (.create a) .first (g.set a (.node { q with threadId := some created })) none
  | first : MainMove timer created finished g .first (.pass g.head) g none
  | passed : MainMove timer created finished g (.pass []) .listen g none
  | visit {a : Nat} {rest : List Nat} {q : Params} : g.memory a = some (.node q) →
    MainMove timer created finished g (.pass (a :: rest))
      (if q.isThreadComplete then .join a rest else .pass rest) g none
  | join {a k : Nat} {rest : List Nat} {q : Params} : g.memory a = some (.node q) → q.threadId = some k →
    finished k = true →
    MainMove timer created finished g (.join a rest) (.pass rest) { g with joined := k :: g.joined }
      (some (.join k))

section Main
variable {timer : Bool} {created : Nat} {finished : Nat → Bool} {r : Reply} {g g' : Image} {pc pc' : MainPc}
  {act : Option Act}

theorem orReturn_next {after : MainPc} (h : orReturn r g after = .ok (.next pc' g' act)) :
    pc' = after ∧ g' = g ∧ act = none := by
  unfold orReturn at h
  split at h
  · obtain ⟨rfl, rfl, rfl⟩ := Outcome.next.inj (Except.ok.inj h)
    exact ⟨rfl, rfl, rfl⟩
  · exact absurd h (by simp)

/-- Every statement of main that returns is one of its moves. -/
theorem mainStep_moves (h : mainStep timer created finished r g pc = .ok (.next pc' g' act)) :
    MainMove timer created finished g pc pc' g' act := by
  cases pc with
  | register =>
    obtain ⟨rfl, rfl, rfl⟩ := orReturn_next h
    exact .register
  | getAddressInfo =>
    obtain ⟨rfl, rfl, rfl⟩ := orReturn_next h
    exact .getAddressInfo
  | resetAccepted =>
    obtain ⟨rfl, rfl, rfl⟩ := Outcome.next.inj (Except.ok.inj h)
    exact .resetAccepted
  | socket =>
    simp only [mainStep] at h
    split at h
    · obtain ⟨hfd, hfree, rfl, rfl, rfl⟩ := openFd_next h
      exact .socket hfd hfree
    · exact absurd h (by simp)
  | setsockopt =>
    obtain ⟨rfl, rfl, rfl⟩ := orReturn_next h
    exact .setsockopt
  | bind =>
    obtain ⟨rfl, rfl, rfl⟩ := orReturn_next h
    exact .bind
  | daemonise =>
    obtain ⟨rfl, rfl, rfl⟩ := orReturn_next h
    exact .daemonise
  | createOpen =>
    simp only [mainStep] at h
    split at h
    · obtain ⟨hfd, hfree, rfl, rfl, rfl⟩ := openFd_next h
      exact .createOpen hfd hfree
    · obtain ⟨rfl, rfl, rfl⟩ := Outcome.next.inj (Except.ok.inj h)
      exact .createFailed
  | createFailed => exact absurd h (by simp [mainStep])
  | createClose =>
    obtain ⟨rfl, rfl, rfl⟩ := Outcome.next.inj (Except.ok.inj h)
    exact .createClose
  | initList =>
    obtain ⟨rfl, rfl, rfl⟩ := Outcome.next.inj (Except.ok.inj h)
    exact .initList
  | initMutex =>
    cases timer with
    | true =>
      obtain ⟨rfl, rfl, rfl⟩ := Outcome.next.inj (Except.ok.inj h)
      exact .initMutex
    | false =>
      obtain ⟨rfl, rfl, rfl⟩ := orReturn_next h
      exact .initMutex
  | initTimer =>
    obtain ⟨rfl, rfl, rfl⟩ := orReturn_next h
    exact .initTimer
  | listen =>
    simp only [mainStep] at h
    split at h
    · rename_i hlistening
      obtain ⟨rfl, rfl, rfl⟩ := orReturn_next h
      exact .listen hlistening
    · exact absurd h (by simp)
  | accept =>
    simp only [mainStep] at h
    split at h
    · rename_i hlistening
      split at h
      · obtain ⟨hfd, hfree, rfl, rfl, rfl⟩ := openFd_next h
        exact .accept hlistening hfd hfree
      · exact absurd h (by simp)
    · exact absurd h (by simp)
  | mallocNode =>
    simp only [mainStep] at h
    split at h
    · obtain ⟨rfl, rfl, rfl⟩ := Outcome.next.inj (Except.ok.inj h)
      exact .mallocNode
    · exact absurd h (by simp)
  | setSockfd a =>
    obtain ⟨q, hq, h⟩ := bind_eq_ok.mp h
    obtain ⟨rfl, rfl, rfl⟩ := Outcome.next.inj (Except.ok.inj h)
    exact .setSockfd (Image.params_eq_ok.mp hq)
  | setComplete a =>
    obtain ⟨q, hq, h⟩ := bind_eq_ok.mp h
    obtain ⟨rfl, rfl, rfl⟩ := Outcome.next.inj (Except.ok.inj h)
    exact .setComplete (Image.params_eq_ok.mp hq)
  | insert a =>
    obtain ⟨_, _, h⟩ := bind_eq_ok.mp h
    obtain ⟨rfl, rfl, rfl⟩ := Outcome.next.inj (Except.ok.inj h)
    exact .insert
  | create a =>
    simp only [mainStep] at h
    split at h
    · obtain ⟨q, hq, h⟩ := bind_eq_ok.mp h
      obtain ⟨rfl, rfl, rfl⟩ := Outcome.next.inj (Except.ok.inj h)
      exact .create (Image.params_eq_ok.mp hq)
    · exact absurd h (by simp)
  | first =>
    obtain ⟨rfl, rfl, rfl⟩ := Outcome.next.inj (Except.ok.inj h)
    exact .first
  | pass rest =>
    cases rest with
    | nil =>
      obtain ⟨rfl, rfl, rfl⟩ := Outcome.next.inj (Except.ok.inj h)
      exact .passed
    | cons a rest =>
      obtain ⟨q, hq, h⟩ := bind_eq_ok.mp h
      obtain ⟨rfl, rfl, rfl⟩ := Outcome.next.inj (Except.ok.inj h)
      exact .visit (Image.params_eq_ok.mp hq)
  | join a rest =>
    obtain ⟨q, hq, h⟩ := bind_eq_ok.mp h
    split at h
    · rename_i k hk
      split at h
      · rename_i hfinished
        split at h
        · exact absurd h (by simp [throw, throwThe, MonadExceptOf.throw])
        · obtain ⟨rfl, rfl, rfl⟩ := Outcome.next.inj (Except.ok.inj h)
          exact .join (Image.params_eq_ok.mp hq) hk hfinished
      · exact absurd h (by simp [throw, throwThe, MonadExceptOf.throw])
    · exact absurd h (by simp [throw, throwThe, MonadExceptOf.throw])

theorem orReturn_not_lost {after : MainPc} : ¬Ends (orReturn r g after) .lost := by
  intro h
  have h := h.lost
  unfold orReturn at h
  split at h
  · exact absurd h (by simp)
  · exact absurd h (by simp)

/-- main ends the process for want of the listening socket. -/
theorem mainStep_lost (h : Ends (mainStep timer created finished r g pc) .lost) :
    (pc = .listen ∨ pc = .accept) ∧ g.fds g.sockfd ≠ some .listening := by
  cases pc with
  | register | getAddressInfo | setsockopt | bind | daemonise | initTimer => exact absurd h orReturn_not_lost
  | resetAccepted | createClose | initList | first => exact absurd (Except.ok.inj h.lost) (by simp)
  | socket | createOpen =>
    have h := h.lost
    simp only [mainStep] at h
    split at h
    · obtain ⟨_, _, h⟩ := bind_eq_ok.mp h
      exact absurd (Except.ok.inj h) (by simp)
    · exact absurd h (by simp)
  | createFailed => exact absurd h.lost (by simp [mainStep])
  | initMutex =>
    cases timer with
    | true => exact absurd (Except.ok.inj h.lost) (by simp)
    | false => exact absurd h orReturn_not_lost
  | listen =>
    by_cases hlistening : g.fds g.sockfd = some .listening
    · simp only [mainStep, if_pos hlistening] at h
      exact absurd h orReturn_not_lost
    · exact ⟨.inl rfl, hlistening⟩
  | accept =>
    refine ⟨.inr rfl, fun hlistening => ?_⟩
    have h := h.lost
    simp only [mainStep, if_pos hlistening] at h
    split at h
    · obtain ⟨_, _, h⟩ := bind_eq_ok.mp h
      exact absurd (Except.ok.inj h) (by simp)
    · exact absurd h (by simp)
  | mallocNode =>
    have h := h.lost
    simp only [mainStep] at h
    split at h
    · exact absurd h (by simp)
    · exact absurd h (by simp)
  | setSockfd a | setComplete a | insert a =>
    obtain ⟨_, _, h⟩ := bind_eq_ok.mp h.lost
    exact absurd (Except.ok.inj h) (by simp)
  | create a =>
    have h := h.lost
    simp only [mainStep] at h
    split at h
    · obtain ⟨_, _, h⟩ := bind_eq_ok.mp h
      exact absurd (Except.ok.inj h) (by simp)
    · exact absurd h (by simp)
  | pass rest =>
    cases rest with
    | nil => exact absurd (Except.ok.inj h.lost) (by simp)
    | cons a rest =>
      obtain ⟨_, _, h⟩ := bind_eq_ok.mp h.lost
      exact absurd (Except.ok.inj h) (by simp)
  | join a rest =>
    obtain ⟨q, _, h⟩ := bind_eq_ok.mp h.lost
    split at h
    · split at h
      · split at h
        · exact absurd h (by simp [throw, throwThe, MonadExceptOf.throw])
        · exact absurd (Except.ok.inj h) (by simp)
      · exact absurd h (by simp [throw, throwThe, MonadExceptOf.throw])
    · exact absurd h (by simp [throw, throwThe, MonadExceptOf.throw])

end Main

/-- What sighandler leaves: it only closes descriptors, frees blocks, empties the list and
removes the path. -/
structure SighandlerLeaves (g g' : Image) : Prop where
  sockfd : g'.sockfd = g.sockfd
  acceptedSockfd : g'.acceptedSockfd = g.acceptedSockfd
  fptr : g'.fptr = g.fptr
  readBuffer : g'.readBuffer = g.readBuffer
  recvData : g'.recvData = g.recvData
  readDataLen : g'.readDataLen = g.readDataLen
  mutexLock : g'.mutexLock = g.mutexLock
  next : g'.next = g.next
  memory : ∀ b, g.memory b = none → g'.memory b = none
  fds : ∀ f d, g'.fds f = some d → g.fds f = some d

section Sighandler
variable {r : Reply} {g g' : Image} {pc : SighandlerPc} {next : Option SighandlerPc} {act : Option Act}

private theorem closeFd_leaves (g : Image) (fd : Int) : SighandlerLeaves g (g.closeFd fd) :=
  ⟨rfl, rfl, rfl, rfl, rfl, rfl, rfl, rfl, fun _ h => h, fun _ _ h => (Image.closeFd_eq_some.mp h).2⟩

private theorem free_leaves {p : Option Nat} (h : g.free p = .ok g') : SighandlerLeaves g g' := by
  have hgone : ∀ b, g.memory b = none → g'.memory b = none := fun _ => Image.free_gone h
  rw [Image.free_frame h]
  exact ⟨rfl, rfl, rfl, rfl, rfl, rfl, rfl, rfl, hgone, fun _ _ h => h⟩

private theorem unlinking_leaves (g : Image) (head : List Nat) (removed : Bool) :
    SighandlerLeaves g { g with head := head, removed := removed } :=
  ⟨rfl, rfl, rfl, rfl, rfl, rfl, rfl, rfl, fun _ h => h, fun _ _ h => h⟩

theorem sighandlerStep_leaves (h : sighandlerStep r g pc = .ok (.next next g' act)) : SighandlerLeaves g g' := by
  cases pc with
  | closeFptr =>
    simp only [sighandlerStep] at h
    split at h
    · obtain ⟨_, rfl, _⟩ := Outcome.next.inj (Except.ok.inj h)
      exact closeFd_leaves g _
    · obtain ⟨_, rfl, _⟩ := Outcome.next.inj (Except.ok.inj h)
      exact unlinking_leaves g _ _
  | closeSockfd | closeAccepted =>
    obtain ⟨_, rfl, _⟩ := Outcome.next.inj (Except.ok.inj h)
    exact closeFd_leaves g _
  | freeRead | freeRecv | freeNode temp =>
    obtain ⟨g₁, hfree, h⟩ := bind_eq_ok.mp h
    obtain ⟨_, rfl, _⟩ := Outcome.next.inj (Except.ok.inj h)
    exact free_leaves hfree
  | remove =>
    obtain ⟨_, rfl, _⟩ := Outcome.next.inj (Except.ok.inj h)
    exact unlinking_leaves g _ _
  | first =>
    simp only [sighandlerStep] at h
    split at h
    · obtain ⟨_, rfl, _⟩ := Outcome.next.inj (Except.ok.inj h)
      exact unlinking_leaves g _ _
    · obtain ⟨_, rfl, _⟩ := Outcome.next.inj (Except.ok.inj h)
      exact unlinking_leaves g _ _
  | removeHead temp =>
    simp only [sighandlerStep] at h
    split at h
    · exact absurd h (by simp)
    · obtain ⟨_, _, h⟩ := bind_eq_ok.mp h
      obtain ⟨_, rfl, _⟩ := Outcome.next.inj (Except.ok.inj h)
      exact unlinking_leaves g _ _

end Sighandler
end Aesd.Server
