import Aesd.Foundations.Custody
import Aesd.Server.Descriptors

/-! Which descriptors of the server's own socket, accept and open calls are open, beside the
inherited 0, 1 and 2, and who has to close them: what a library function opens for itself (the
socket of syslog) is not among them. Unlike the nodes of the list they do not add up: a
session closes the store each time it has opened it, and at its end the connection that main
has handed to it. -/
namespace Aesd.Server
open Aesd.Foundations Aesd.Driver

def Image.fdAt (g : Image) (a : Nat) : Option Int :=
  match g.memory a with
  | some (.node q) => some q.acceptedSockfd
  | _ => none

/-- The number of the connection that main has accepted and not yet handed to a thread. -/
def MainPc.connectionFd (g : Image) : MainPc → Option Int
  | .mallocNode | .setSockfd _ => some g.acceptedSockfd
  | .setComplete a | .insert a | .create a => g.fdAt a
  | _ => none

/-- What main has open; the next connection has the number n. -/
def MainPc.opened (g : Image) (n : Nat) (pc : MainPc) : Set (Int × Desc) :=
  {x | (x.2 = .inherited ∧ (x.1 = 0 ∨ x.1 = 1 ∨ x.1 = 2)) ∨ (pc.bound = true ∧ x = (g.sockfd, .listening)) ∨
    (pc = .createClose ∧ x = (g.fptr, .store)) ∨ ∃ fd, pc.connectionFd g = some fd ∧ x = (fd, .connection n)}

def SessionThread.opened (g : Image) (k : Nat) (s : SessionThread) : Set (Int × Desc) :=
  {x | (∃ fd, s.pc.storeFd g.fptr = some fd ∧ x = (fd, .store)) ∨
    s.pc ≠ .done ∧ ∃ fd, g.fdAt s.node = some fd ∧ x = (fd, .connection k)}

def Proc.opened (p : Proc) : Tid → Set (Int × Desc)
  | .main => p.main.opened p.image p.sessions.length
  | .session k => {x | ∃ s, p.sessions[k]? = some s ∧ x ∈ s.opened p.image k}

section Moves
variable {me : Tid} {node k n a : Nat} {g g' : Image} {act : Option Act} {fd : Int}

theorem fdAt_eq_some : g.fdAt a = some fd ↔ ∃ q, g.memory a = some (.node q) ∧ q.acceptedSockfd = fd := by
  unfold Image.fdAt
  split
  · rename_i q hq
    simp [hq]
  · rename_i hq
    refine iff_of_false (by simp) ?_
    rintro ⟨q, hm, _⟩
    exact hq q hm

private theorem fdAt_congr (h : ∀ q, g'.memory a = some (.node q) ↔ g.memory a = some (.node q)) :
    g'.fdAt a = g.fdAt a := by
  apply Option.ext
  intro fd
  simp only [fdAt_eq_some, h]

/-- A session does not change the numbers in the nodes. -/
theorem Spares.fdAt {pc pc' : SessionPc} (h : Spares k node pc pc' g g')
    (hmove : SessionMove me node g pc pc' g' act) (a : Nat) : g'.fdAt a = g.fdAt a := by
  by_cases ha : a ≠ node ∨ pc ≠ .complete
  · exact fdAt_congr fun q => h.nodes a q ha
  · obtain ⟨rfl, rfl⟩ : a = node ∧ pc = .complete := by
      simpa only [not_or, not_not] using ha
    cases hmove with
    | complete hq =>
      rw [fdAt_eq_some.mpr ⟨_, hq, rfl⟩, Image.fdAt, Image.set]
      simp only [Function.update_self]

/-- A session takes the store and gives it up, and gives up its connection. -/
theorem SessionMove.exchange_fds {pc pc' : SessionPc} (h : SessionMove me node g pc pc' g' act)
    (hspares : Spares k node pc pc' g g')
    (hmine : SessionThread.opened g k ⟨pc, node⟩ ⊆ entries g.fds) :
    Exchange (entries g.fds) (entries g'.fds) (SessionThread.opened g k ⟨pc, node⟩)
      (SessionThread.opened g' k ⟨pc', node⟩) := by
  have hnode := hspares.fdAt h node
  have keeps : g'.fds = g.fds → pc'.storeFd g'.fptr = pc.storeFd g.fptr → pc' ≠ .done →
      Exchange (entries g.fds) (entries g'.fds) (SessionThread.opened g k ⟨pc, node⟩)
        (SessionThread.opened g' k ⟨pc', node⟩) := by
    intro hfds hstore hdone
    have hsame : SessionThread.opened g' k ⟨pc', node⟩ = SessionThread.opened g k ⟨pc, node⟩ := by
      ext x
      simp [SessionThread.opened, hstore, hnode, hdone, h.not_done]
    rw [hfds, hsame]
    exact .nothing hmine
  have takes : ∀ fd, g.fds fd = none → g'.fds = Function.update g.fds fd (some .store) →
      pc.storeFd g.fptr = none → pc'.storeFd g'.fptr = some fd → pc' ≠ .done →
        Exchange (entries g.fds) (entries g'.fds) (SessionThread.opened g k ⟨pc, node⟩)
          (SessionThread.opened g' k ⟨pc', node⟩) := by
    intro fd hfree hfds hnone hsome hdone
    have htake := Exchange.take hmine (a := (fd, .store)) (by simp [entries, hfree])
    have hall : SessionThread.opened g' k ⟨pc', node⟩ =
        Insert.insert (fd, .store) (SessionThread.opened g k ⟨pc, node⟩) := by
      ext x
      simp [SessionThread.opened, hnone, hsome, hnode, hdone, h.not_done, Set.mem_insert_iff]
    rw [hfds, entries_put hfree, hall]
    exact htake
  have drops : ∀ fd, g'.fds = Function.update g.fds fd none → pc.storeFd g.fptr = some fd →
      pc'.storeFd g'.fptr = none → pc' ≠ .done →
        Exchange (entries g.fds) (entries g'.fds) (SessionThread.opened g k ⟨pc, node⟩)
          (SessionThread.opened g' k ⟨pc', node⟩) := by
    intro fd hfds hsome hnone hdone
    have hmem : (fd, Desc.store) ∈ SessionThread.opened g k ⟨pc, node⟩ := .inl ⟨fd, hsome, rfl⟩
    have hdrop := Exchange.drop hmine hmem
    have hall : SessionThread.opened g' k ⟨pc', node⟩ =
        SessionThread.opened g k ⟨pc, node⟩ \ {(fd, .store)} := by
      ext ⟨f, d⟩
      simp only [SessionThread.opened, hnone, hsome, hnode]
      constructor
      · rintro (⟨_, hno, _⟩ | ⟨_, fd', hfd', hx⟩)
        · exact absurd hno (by simp)
        · exact ⟨.inr ⟨h.not_done, fd', hfd', hx⟩, by simp [hx]⟩
      · rintro ⟨⟨fd', hfd', hx⟩ | ⟨_, hx⟩, hne⟩
        · obtain rfl := Option.some.inj hfd'
          exact absurd hx hne
        · exact .inr ⟨hdone, hx⟩
    rw [hfds, entries_remove (hmine hmem), hall]
    exact hdrop
  cases h with
  | openAppend _ hfree => exact takes _ hfree rfl rfl rfl (by simp)
  | openRead _ hfree => exact takes _ hfree rfl rfl rfl (by simp)
  | closeStore => exact drops _ rfl rfl rfl (by simp)
  | closeRead => exact drops _ rfl rfl rfl (by simp)
  | @closeSocket q hq =>
    have hfd : g.fdAt node = some q.acceptedSockfd := fdAt_eq_some.mpr ⟨q, hq, rfl⟩
    have hmem : (q.acceptedSockfd, Desc.connection k) ∈ SessionThread.opened g k ⟨.closeSocket, node⟩ :=
      .inr ⟨by simp, _, hfd, rfl⟩
    have hdrop := Exchange.drop hmine hmem
    have hall : SessionThread.opened (g.closeFd q.acceptedSockfd) k ⟨.done, node⟩ =
        SessionThread.opened g k ⟨.closeSocket, node⟩ \ {(q.acceptedSockfd, .connection k)} := by
      ext x
      simp [SessionThread.opened, SessionPc.storeFd, hfd]
    rw [Image.closeFd, entries_remove (hmine hmem), ← Image.closeFd, hall]
    exact hdrop
  | realloc | read | readClosed => exact keeps rfl (by split <;> rfl) (by split <;> simp)
  | freeRecv hfree | freeRead hfree =>
    have hfds := congrArg Image.fds (Image.free_frame hfree)
    have hfptr := congrArg Image.fptr (Image.free_frame hfree)
    exact keeps hfds (by simp only [SessionPc.storeFd, hfptr]) (by simp)
  | _ => exact keeps rfl rfl (by simp)

private theorem fdAt_set (g : Image) (a : Nat) (q : Params) : (g.set a (.node q)).fdAt a = some q.acceptedSockfd := by
  simp only [Image.fdAt, Image.set, Function.update_self]

/-- A statement of main but pthread_create takes what it opens and gives up what it closes. -/
theorem MainMove.exchange_fds {timer : Bool} {finished : Nat → Bool} {pc pc' : MainPc}
    (h : MainMove timer n finished g pc pc' g' act) (hcreate : ∀ a, pc ≠ .create a)
    (hmine : pc.opened g n ⊆ entries g.fds) :
    Exchange (entries g.fds) (entries g'.fds) (pc.opened g n) (pc'.opened g' n) := by
  have keeps : g'.fds = g.fds → g'.sockfd = g.sockfd → pc'.bound = pc.bound → pc ≠ .createClose →
      pc' ≠ .createClose → pc'.connectionFd g' = pc.connectionFd g →
        Exchange (entries g.fds) (entries g'.fds) (pc.opened g n) (pc'.opened g' n) := by
    intro hfds hsockfd hbound hpc hpc' hconnection
    have hsame : pc'.opened g' n = pc.opened g n := by
      ext x
      simp [MainPc.opened, hsockfd, hbound, hpc, hpc', hconnection]
    rw [hfds, hsame]
    exact .nothing hmine
  have takes : ∀ fd d, g.fds fd = none → g'.fds = Function.update g.fds fd (some d) →
      pc'.opened g' n = Insert.insert (fd, d) (pc.opened g n) →
        Exchange (entries g.fds) (entries g'.fds) (pc.opened g n) (pc'.opened g' n) := by
    intro fd d hfree hfds hall
    rw [hfds, entries_put hfree, hall]
    exact .take hmine (by simp [entries, hfree])
  cases h with
  | @socket fd _ hfree =>
    refine takes fd _ hfree rfl ?_
    ext x
    simp [MainPc.opened, MainPc.bound, MainPc.connectionFd, or_comm]
  | @createOpen fd _ hfree =>
    refine takes fd _ hfree rfl ?_
    ext x
    simp [MainPc.opened, MainPc.bound, MainPc.connectionFd]
    tauto
  | @accept fd _ _ hfree =>
    refine takes fd _ hfree rfl ?_
    ext x
    simp [MainPc.opened, MainPc.bound, MainPc.connectionFd, eq_comm]
    tauto
  | createClose =>
    have hmem : (g.fptr, Desc.store) ∈ MainPc.createClose.opened g n := .inr (.inr (.inl ⟨rfl, rfl⟩))
    have hdrop := Exchange.drop hmine hmem
    have hall : MainPc.initList.opened (g.closeFd g.fptr) n = MainPc.createClose.opened g n \ {(g.fptr, .store)} := by
      ext ⟨f, d⟩
      by_cases hd : d = .store
      · simp [MainPc.opened, MainPc.connectionFd, hd]
      · simp [MainPc.opened, MainPc.bound, MainPc.connectionFd, Image.closeFd, hd]
    rw [Image.closeFd, entries_remove (hmine hmem), ← Image.closeFd, hall]
    exact hdrop
  | create => exact absurd rfl (hcreate _)
  | setSockfd => exact keeps rfl rfl rfl (by simp) (by simp) (fdAt_set ..)
  | setComplete hq =>
    exact keeps rfl rfl rfl (by simp) (by simp) ((fdAt_set ..).trans (fdAt_eq_some.mpr ⟨_, hq, rfl⟩).symm)
  | initMutex => exact keeps rfl rfl (by split <;> rfl) (by simp) (by split <;> simp) (by split <;> rfl)
  | visit => exact keeps rfl rfl (by split <;> rfl) (by simp) (by split <;> simp) (by split <;> rfl)
  | _ => exact keeps rfl rfl rfl (by simp) (by simp) rfl

end Moves

section Custody
variable {timer : Bool} {p p' : Proc} {os : Trace} {t : Tid} {r : Reply} {o : Option (Actor × Act)} {g : Image}
  {act : Option Act} {k : Nat} {s : SessionThread}

def Proc.DescriptorCustody (p : Proc) : Prop := Custody (entries p.image.fds) p.opened

theorem descriptorCustody_start : Proc.start.DescriptorCustody := by
  have hsessions : ∀ k, Proc.start.opened (.session k) = ∅ := by
    intro k
    ext x
    simp [Proc.opened, Proc.start]
  refine ⟨fun x => ⟨fun hx => ⟨.main, .inl ?_⟩, ?_⟩, fun x t u ht hu => ?_⟩
  · simp only [entries, Proc.start, Image.initial, Set.mem_ofPred_eq] at hx
    split at hx
    · rename_i hf
      exact ⟨(Option.some.inj hx).symm, hf⟩
    · exact absurd hx (by simp)
  · rintro ⟨t, ht⟩
    cases t with
    | session k => exact absurd ht (by simp [hsessions])
    | main =>
      rcases ht with ⟨hd, hf⟩ | ⟨hbound, _⟩ | ⟨hpc, _⟩ | ⟨_, hfd, _⟩
      · simp only [entries, Proc.start, Image.initial, Set.mem_ofPred_eq, hd]
        exact if_pos hf
      · exact absurd hbound (by simp [Proc.start, MainPc.bound])
      · exact absurd hpc (by simp [Proc.start])
      · exact absurd hfd (by simp [Proc.start, MainPc.connectionFd])
  · cases t with
    | session k => exact absurd ht (by simp [hsessions])
    | main =>
      cases u with
      | session k => exact absurd hu (by simp [hsessions])
      | main => rfl

private theorem opened_congr {g' : Image} (hstore : s.pc.storeFd g'.fptr = s.pc.storeFd g.fptr)
    (hnode : g'.fdAt s.node = g.fdAt s.node) : s.opened g' k = s.opened g k := by
  simp only [SessionThread.opened, hstore, hnode]

/-- main does not change what the threads have open that it has created. -/
theorem Sound.main_opened {pc : MainPc} (hsound : Sound p os) (hlisted : Listed p)
    (hmove : MainMove timer p.sessions.length p.finished p.image p.main pc g act) (hs : p.sessions[k]? = some s) :
    s.opened g k = s.opened p.image k := by
  obtain ⟨q, hq, hid⟩ := threadOf_eq_some.mp (hlisted.nodes k s hs).2
  have hq' := hmove.node hsound.pending hsound.fresh hq (by simp [hid])
  have hfptr := hmove.fptr (hsound.guarded.running (List.mem_of_getElem? hs))
  exact opened_congr (by rw [hfptr]) ((fdAt_eq_some.mpr ⟨q, hq', rfl⟩).trans (fdAt_eq_some.mpr ⟨q, hq, rfl⟩).symm)

theorem Proc.DescriptorCustody.main {pc : MainPc} (h : p.DescriptorCustody) (hsound : Sound p os)
    (hlisted : Listed p) (hmove : MainMove timer p.sessions.length p.finished p.image p.main pc g act)
    (hcreate : ∀ a, p.main ≠ .create a) :
    ({ p with image := g, main := pc, sessions := p.sessions ++ p.main.created } : Proc).DescriptorCustody := by
  have hcreated : p.main.created = [] := by
    cases hpc : p.main with
    | create a => exact absurd hpc (hcreate a)
    | _ => rfl
  have hsame : ∀ k, ({ p with image := g, main := pc, sessions := p.sessions ++ p.main.created } : Proc).opened
      (.session k) = p.opened (.session k) := by
    intro k
    ext x
    simp only [Proc.opened, hcreated, List.append_nil]
    refine exists_congr fun s => and_congr_right fun hs => ?_
    rw [hsound.main_opened hlisted hmove hs]
  refine Custody.exchange h (i := .main) (fun t ht => ?_) ?_
  · cases t with
    | main => exact absurd rfl ht
    | session k => exact hsame k
  · have hmine := hmove.exchange_fds hcreate (h.subset .main)
    simp only [Proc.opened, hcreated, List.append_nil]
    exact hmine

private theorem mem_opened_create {g : Image} (g' : Image) {a n : Nat} (n' : Nat) {fd : Int}
    (hfd : g.fdAt a = some fd) (hsockfd : g'.sockfd = g.sockfd) (x : Int × Desc) :
    x ∈ (MainPc.create a).opened g n ↔ x ∈ MainPc.first.opened g' n' ∨ x = (fd, .connection n) := by
  simp only [MainPc.opened, MainPc.bound, MainPc.connectionFd, hfd, hsockfd]
  simp [or_assoc]

private theorem not_connection {g : Image} {n : Nat} {fd : Int} {c : Nat} :
    (fd, Desc.connection c) ∉ MainPc.first.opened g n := by
  simp [MainPc.opened, MainPc.connectionFd]

/-- pthread_create hands the connection to its thread. -/
theorem Proc.DescriptorCustody.create {a : Nat} {q : Params} (h : p.DescriptorCustody) (hsound : Sound p os)
    (hlisted : Listed p) (hpc : p.main = .create a) (hq : p.image.memory a = some (.node q)) :
    ({ p with
      image := p.image.set a (.node { q with threadId := some p.sessions.length })
      main := .first
      sessions := p.sessions ++ p.main.created } : Proc).DescriptorCustody := by
  have hmove : MainMove true p.sessions.length p.finished p.image p.main .first
      (p.image.set a (.node { q with threadId := some p.sessions.length })) none := hpc ▸ .create hq
  have hcreated : p.main.created = [⟨.lock, a⟩] := by rw [hpc]; rfl
  have hfd : p.image.fdAt a = some q.acceptedSockfd := fdAt_eq_some.mpr ⟨q, hq, rfl⟩
  have hnew : (p.sessions ++ p.main.created)[p.sessions.length]? = some ⟨.lock, a⟩ := by
    rw [hcreated, List.getElem?_append_right le_rfl, Nat.sub_self]
    rfl
  have hbefore : ∀ x, x ∉ p.opened (.session p.sessions.length) := by
    rintro x ⟨s, hs, _⟩
    exact absurd (List.getElem?_eq_some_iff.mp hs).1 (by simp)
  have hafter : ∀ x, x ∈ ({ p with
      image := p.image.set a (.node { q with threadId := some p.sessions.length })
      main := .first
      sessions := p.sessions ++ p.main.created } : Proc).opened (.session p.sessions.length) ↔
        x = (q.acceptedSockfd, .connection p.sessions.length) := by
    intro x
    simp only [Proc.opened, hnew]
    simp [SessionThread.opened, SessionPc.storeFd, fdAt_set]
  refine Custody.pass h (i := .main) (j := .session p.sessions.length) (fun t ht ht' => ?_) (fun x => ?_) fun x hx => ?_
  · cases t with
    | main => exact absurd rfl ht
    | session k =>
      have hk : k ≠ p.sessions.length := by simpa using ht'
      ext x
      simp only [Proc.opened]
      constructor
      · rintro ⟨s, hs, hx⟩
        rcases created_cases hs with hs | ⟨he, _⟩
        · exact ⟨s, hs, by rwa [hsound.main_opened hlisted hmove hs] at hx⟩
        · exact absurd he hk
      · rintro ⟨s, hs, hx⟩
        exact ⟨s, by rw [List.getElem?_append_left (List.getElem?_eq_some_iff.mp hs).1, hs],
          by rwa [hsound.main_opened hlisted hmove hs]⟩
  · have hmain := mem_opened_create (p.image.set a (.node { q with threadId := some p.sessions.length }))
      (p.sessions ++ p.main.created).length hfd rfl x (n := p.sessions.length)
    rw [hafter, show p.opened .main = (MainPc.create a).opened p.image p.sessions.length from hpc ▸ rfl]
    exact (hmain.symm.trans (or_iff_left (hbefore x)).symm)
  · rw [hafter]
    rintro rfl
    exact not_connection hx

theorem Proc.DescriptorCustody.session {pc : SessionPc} (h : p.DescriptorCustody) (hsound : Sound p os)
    (hframes : p.frames (.session k) = []) (hs : p.sessions[k]? = some s)
    (hmove : SessionMove (.session k) s.node p.image s.pc pc g act) :
    ({ p with image := g, sessions := p.sessions.set k ⟨pc, s.node⟩ } : Proc).DescriptorCustody := by
  have hk := (List.getElem?_eq_some_iff.mp hs).1
  have hwired := hsound.wired k s hs hmove.not_done
  have hspares := (hsound.holding k s hs).spares hmove hwired hsound.fresh
  have hrunning := hsound.guarded.running (List.mem_of_getElem? hs)
  have hnodes := hspares.fdAt hmove
  have hmine : p.opened (.session k) = SessionThread.opened p.image k ⟨s.pc, s.node⟩ := by
    ext x
    simp [Proc.opened, hs]
  have hmine' : ({ p with image := g, sessions := p.sessions.set k ⟨pc, s.node⟩ } : Proc).opened (.session k) =
      SessionThread.opened g k ⟨pc, s.node⟩ := by
    ext x
    simp [Proc.opened, hk]
  refine Custody.exchange h (i := .session k) (fun t ht => ?_) ?_
  · cases t with
    | main =>
      have hpc : p.main ≠ .createClose := by
        intro hpc
        rw [hpc] at hrunning
        exact absurd hrunning (by simp [MainPc.starting])
      have hconnection : p.main.connectionFd g = p.main.connectionFd p.image := by
        cases p.main <;> simp only [MainPc.connectionFd, hspares.acceptedSockfd, hnodes]
      ext x
      simp only [Proc.opened, MainPc.opened, hpc, hconnection, hspares.sockfd, List.length_set, false_and,
        false_or]
    | session j =>
      have hj : j ≠ k := by simpa using ht
      ext x
      simp only [Proc.opened, List.getElem?_set_ne (Ne.symm hj), Set.mem_ofPred_eq]
      refine exists_congr fun u => and_congr_right fun hu => ?_
      rw [opened_congr ?_ (hnodes u.node)]
      by_cases hcritical : u.pc.critical = true
      -- session j has the mutex, so session k leaves fptr as it is
      · obtain ⟨hout, hout'⟩ := hsound.guarded.others hframes hs hmove hj hu hcritical
        rw [(hmove.undisturbed hwired hout hout').fptr]
      · have hnone : ∀ fptr, u.pc.storeFd fptr = none := by
          intro fptr
          by_contra hsome
          obtain ⟨f, hf⟩ := Option.ne_none_iff_exists'.mp hsome
          exact hcritical (critical_of_storeFd hf)
        rw [hnone, hnone]
  · rw [hmine, hmine']
    exact hmove.exchange_fds hspares (hmine ▸ h.subset (.session k))

theorem Proc.DescriptorCustody.step (h : p.DescriptorCustody) (hsound : Sound p os) (hlisted : Listed p)
    (hmove : Moves timer p (.step t r) p' o) : p'.DescriptorCustody := by
  cases hmove with
  | stays | mainEnds | sessionEnds => exact h
  | handlerEnds _ hframes | handler _ hframes =>
    rw [hlisted.quiet] at hframes
    exact absurd hframes (by simp)
  | session _ hframes hs hsession => exact h.session hsound hframes hs hsession
  | @main _ pc g act _ _ hmain =>
    by_cases hcreate : ∃ a, p.main = .create a
    · obtain ⟨a, hpc⟩ := hcreate
      generalize hpc₀ : p.main = pc₀ at hmain hpc
      subst hpc
      cases hmain with
      | create hq =>
        have hdone := h.create hsound hlisted hpc₀ hq
        rwa [hpc₀] at hdone
    · exact h.main hsound hlisted hmain fun a ha => hcreate ⟨a, ha⟩

theorem descriptorCustody_run {is : List Input} (hsteps : ∀ i ∈ is, i.isStep = true)
    (hrun : (process timer).run .start is = some (p, os)) : p.DescriptorCustody := by
  have hkeeps := (process timer).along_keeps (I := fun p os => Sound p os ∧ Listed p ∧ p.DescriptorCustody)
    (fun p os i p' o h hi hs => ?_) [] ⟨sound_start, listed_start, descriptorCustody_start⟩ (along_steps hsteps _) hrun
  · exact hkeeps.2.2
  · obtain ⟨hsound, hlisted, hcustody⟩ := h
    have hmove := step_moves hs
    obtain ⟨t, r, rfl⟩ := step_of_isStep hi
    exact ⟨hsound.step (calm_step p hi) hmove, hlisted.step hsound hmove, hcustody.step hsound hlisted hmove⟩

/-- Between two clients main has its socket and what it has inherited. -/
theorem Proc.DescriptorCustody.idle (h : p.DescriptorCustody) (hloop : p.main.starting = false) (hidle : Idle p)
    (f : Int) (d : Desc) :
    p.image.fds f = some d ↔
      (d = .inherited ∧ (f = 0 ∨ f = 1 ∨ f = 2)) ∨ (d = .listening ∧ f = p.image.sockfd) := by
  have hmain : p.main ≠ .createClose ∧ p.main.connectionFd p.image = none := by
    have hpending := hidle.2
    cases hpc : p.main with
    | createClose =>
      rw [hpc] at hloop
      exact absurd hloop (by simp [MainPc.starting])
    | mallocNode | setSockfd | setComplete | insert | create =>
      rw [hpc] at hpending
      exact absurd hpending (by simp [MainPc.pending])
    | _ => exact ⟨by simp, rfl⟩
  have hsessions : ∀ k x, x ∉ p.opened (.session k) := by
    rintro k x ⟨s, hs, ⟨_, hfd, _⟩ | ⟨hpc, _⟩⟩
    · rw [hidle.1 s (List.mem_of_getElem? hs)] at hfd
      exact absurd hfd (by simp [SessionPc.storeFd])
    · exact hpc (hidle.1 s (List.mem_of_getElem? hs))
  have hopened : (f, d) ∈ p.opened .main ↔
      (d = .inherited ∧ (f = 0 ∨ f = 1 ∨ f = 2)) ∨ (d = .listening ∧ f = p.image.sockfd) := by
    simp [Proc.opened, MainPc.opened, hmain, bound_of_stored (stored_of_running hloop), and_comm]
  refine ((h.used_iff (f, d)).trans ⟨?_, fun hx => ⟨.main, hx⟩⟩).trans hopened
  rintro ⟨t, ht⟩
  cases t with
  | main => exact ht
  | session k => exact absurd ht (hsessions k _)

end Custody

/-- However the threads interleave, every open descriptor that the process has inherited or that
its own socket, accept and open calls have given out is with exactly one thread; when no
session is running and no connection is on its way to one, these are only the inherited ones
and the listening socket. -/
theorem descriptors_in_custody (timer : Bool) (is : List Input) (hsteps : ∀ i ∈ is, i.isStep = true) {p : Proc}
    {os : Trace} (hrun : (process timer).run .start is = some (p, os)) :
    Custody (entries p.image.fds) p.opened ∧
    (p.main.starting = false → Idle p → ∀ f d, p.image.fds f = some d ↔
      (d = .inherited ∧ (f = 0 ∨ f = 1 ∨ f = 2)) ∨ (d = .listening ∧ f = p.image.sockfd)) := by
  have hcustody := descriptorCustody_run hsteps hrun
  exact ⟨hcustody, fun hloop hidle f d => hcustody.idle hloop hidle f d⟩

set_option maxRecDepth 100000 in
/-- One client has been served. -/
theorem descriptors_in_custody_after_session :
    ∃ p os, (process false).run .start (startUp false ++ accepting 4 ++ serving 0 5 [10] [10]) = some (p, os) ∧
      ∀ f d, p.image.fds f = some d ↔
        (d = .inherited ∧ (f = 0 ∨ f = 1 ∨ f = 2)) ∨ (d = .listening ∧ f = p.image.sockfd) := by
  have heval : ((process false).run .start (startUp false ++ accepting 4 ++ serving 0 5 [10] [10])).map
      (fun q => (q.1.main, q.1.sessions)) = some (.first, [⟨.done, 0⟩]) := by decide +kernel
  obtain ⟨⟨p, os⟩, hrun, hp⟩ := Option.map_eq_some_iff.mp heval
  obtain ⟨hmain, hsessions⟩ := Prod.mk.inj hp
  dsimp only at hmain hsessions
  exact ⟨p, os, hrun, (descriptors_in_custody false _ (by decide) hrun).2 (by rw [hmain]; rfl)
    ⟨by simp [hsessions], by rw [hmain]; rfl⟩⟩

end Aesd.Server
