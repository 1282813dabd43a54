import Aesd.Driver.DeviceView

/-! The locked part of aesd_write follows the view: reserving, copying and inserting
each keep the layout and the ledger, whatever the allocator and the user copy do. -/
namespace Aesd.Driver
open Aesd.Foundations

section Reserve
variable {h : Heap} {e : Entry} {p : Pending} {W : List Addr} {n : Nat}

/-- A pointer with the kept bytes in front and room for as many more, either in a
block or, for no bytes at all, ZERO_SIZE_PTR. -/
def Room (h : Heap) (q : KPtr) (kept : List Byte) (room : Nat) : Prop :=
  (q = .zeroSize ∧ kept.length + room = 0) ∨
    ∃ a blk, q = .block a ∧ h.lookup a = some blk ∧ kept <+: blk ∧ blk.length = kept.length + room ∧
      0 < kept.length + room

theorem PendingHolds.size_eq (hp : PendingHolds h e p) (g : Grant) : e.size = (p.kept g).length := by
  cases p with
  | empty held => exact hp.1
  | text b => exact hp.2.1
  | lost m => simpa [Pending.kept] using hp.2.1

private theorem ne_place (l : Ledger h W n) (g : Grant) {a : Addr} (ha : a ∈ W) : a ≠ g.place h :=
  fun he => g.fresh h (he ▸ l.mem ha)

private theorem kmalloc_room (l : Ledger h W n) (g : Grant) (size room : Nat) :
    ∃ q h', kmalloc (some g) (size + room) h = (some q, h') ∧ Room h' q (g.contents size) room ∧
      Ledger h' (blocks (some q) ++ W) n ∧ ∀ a ∈ W, h'.lookup a = h.lookup a := by
  by_cases hz : size + room = 0
  · exact ⟨.zeroSize, h, by simp [kmalloc, hz], .inl ⟨rfl, by simpa using hz⟩, l, fun _ _ => rfl⟩
  · refine ⟨.block (g.place h), h.insert (g.place h) (g.contents (size + room)),
      by simp only [kmalloc, if_neg hz],
      .inr ⟨g.place h, g.contents (size + room), rfl, Finmap.lookup_insert _, ?_, by simp, ?_⟩,
      l.alloc (g.fresh h), fun a ha => Finmap.lookup_insert_of_ne _ (ne_place l g ha)⟩
    · exact ⟨(List.range room).map fun i => g.junk (size + i),
        by simp [Grant.contents, List.range_add, Function.comp_def]⟩
    · simpa using Nat.pos_of_ne_zero hz

private theorem krealloc_room {a : Addr} {blk b : List Byte} (l : Ledger h (a :: W) n)
    (hl : h.lookup a = some blk) (hb : b <+: blk) (hne : b ≠ []) (g : Grant) (room : Nat) :
    ∃ q h', krealloc (some g) (some (.block a)) (b.length + room) h = some (some q, h') ∧
      Room h' q b room ∧ Ledger h' (blocks (some q) ++ W) n ∧ ∀ x ∈ W, h'.lookup x = h.lookup x := by
  have hpos : 0 < b.length + room := Nat.add_pos_left (List.length_pos_of_ne_nil hne) room
  let new := blk.take (b.length + room) ++ (g.contents (b.length + room)).drop blk.length
  have hnew : b <+: new := by
    obtain ⟨t, rfl⟩ := hb
    rw [show new = b ++ (t.take room ++ (g.contents (b.length + room)).drop (b ++ t).length) by
      simp [new, List.take_append]]
    exact List.prefix_append _ _
  have hlen : new.length = b.length + room := by
    simp only [new, List.length_append, List.length_take, List.length_drop, Grant.length_contents]
    omega
  have hW : ∀ x ∈ W, x ≠ a := fun x hx he => (List.nodup_cons.mp l.nodup).1 (he ▸ hx)
  have hmem : a ∈ h := l.mem List.mem_cons_self
  by_cases hm : g.moves = true
  · have hpa : g.place h ≠ a := fun he => g.fresh h (he ▸ hmem)
    refine ⟨.block (g.place h), (h.insert (g.place h) new).erase a, by simp [krealloc, hl, hne, hm, new],
      .inr ⟨g.place h, new, rfl, ?_, hnew, hlen, hpos⟩, ?_, ?_⟩
    · rw [Finmap.lookup_erase_ne hpa, Finmap.lookup_insert]
    · exact ((l.alloc (g.fresh h)).perm (List.Perm.swap a (g.place h) W)).free
    · intro x hx
      rw [Finmap.lookup_erase_ne (hW x hx), Finmap.lookup_insert_of_ne _ (ne_place l g (List.mem_cons_of_mem a hx))]
  · refine ⟨.block a, h.insert a new, by simp [krealloc, hl, hne, hm, new],
      .inr ⟨a, new, rfl, Finmap.lookup_insert _, hnew, hlen, hpos⟩, l.update hmem, ?_⟩
    intro x hx
    exact Finmap.lookup_insert_of_ne _ (hW x hx)

/-- A failing allocation leaves the heap as it is, whatever is pending. -/
theorem reserve_fails (hp : PendingHolds h e p) (count : Nat) : reserve none e count h = some (none, h) := by
  cases p with
  | empty held => simp [reserve, hp.1, kmalloc]
  | text b =>
    obtain ⟨hne, hs, a, blk, hptr, hl, _⟩ := hp
    simp [reserve, hs, hne, hptr, krealloc, hl]
  | lost m =>
    obtain ⟨hpos, hs, hptr⟩ := hp
    simp [reserve, hs, hpos.ne', hptr, krealloc, kmalloc]

/-- A successful allocation gives room after the kept bytes, touches none of the
other blocks, and loses a block only when one is held at size zero. -/
theorem reserve_succeeds (hp : PendingHolds h e p) (l : Ledger h (blocks e.buffptr ++ W) n) (g : Grant)
    (count : Nat) :
    ∃ q h', reserve (some g) e count h = some (some q, h') ∧ Room h' q (p.kept g) count ∧
      Ledger h' (blocks (some q) ++ W) (n + p.lostBySuccess) ∧ ∀ a ∈ W, h'.lookup a = h.lookup a := by
  cases p with
  | empty held =>
    have hsize : reserve (some g) e count h = some (kmalloc (some g) (0 + count) h) := by
      simp [reserve, hp.1]
    have hW : Ledger h W (n + (Pending.empty held).lostBySuccess) := by
      cases held with
      | false =>
        have hnil : blocks e.buffptr = [] := by simpa using hp.2
        simpa [hnil, Pending.lostBySuccess] using l
      | true =>
        obtain ⟨a, ha⟩ := List.exists_mem_of_ne_nil _ (hp.2.mpr rfl)
        rw [mem_blocks.mp ha] at l
        exact l.forget
    obtain ⟨q, h', hk, hroom, hl, hW'⟩ := kmalloc_room hW g 0 count
    exact ⟨q, h', by rw [hsize, hk], hroom, hl, hW'⟩
  | text b =>
    obtain ⟨hne, hs, a, blk, hptr, hl, hb⟩ := hp
    rw [hptr] at l
    obtain ⟨q, h', hk, hroom, hl', hW'⟩ := krealloc_room l hl hb hne g count
    exact ⟨q, h', by simp [reserve, hs, hne, hptr, hk], hroom, hl', hW'⟩
  | lost m =>
    obtain ⟨hpos, hs, hptr⟩ := hp
    rw [hptr] at l
    obtain ⟨q, h', hk, hroom, hl', hW'⟩ := kmalloc_room (W := W) l g m count
    exact ⟨q, h', by simp [reserve, hs, hpos.ne', hptr, krealloc, hk], hroom, hl', hW'⟩

/-- The user copy puts the accepted bytes after the kept ones and touches nothing else. -/
theorem copy_accepted {q : KPtr} {kept buf : List Byte} (hroom : Room h q kept buf.length)
    (l : Ledger h (blocks (some q) ++ W) n) (uncopied : Nat) :
    ∃ h', copyFromUser q kept.length buf (min uncopied buf.length) h = some h' ∧
      Ledger h' (blocks (some q) ++ W) n ∧ (∀ a ∈ W, h'.lookup a = h.lookup a) ∧
      ∀ size, size = (kept ++ accepted buf uncopied).length →
        (kept ++ accepted buf uncopied ≠ [] → Holds h' ⟨some q, size⟩ (kept ++ accepted buf uncopied)) ∧
        (kept = [] → (blocks (some q) ≠ [] ↔ buf ≠ [])) := by
  rcases hroom with ⟨rfl, hz⟩ | ⟨a, blk, rfl, hl, hpre, hlen, hpos⟩
  · have hk : kept = [] := List.eq_nil_of_length_eq_zero (by omega)
    have hb : buf = [] := List.eq_nil_of_length_eq_zero (by omega)
    subst hk hb
    refine ⟨h, by simp [copyFromUser, poke], l, fun _ _ => rfl, fun size _ => ⟨?_, by simp [blocks]⟩⟩
    simp [accepted]
  · let data := accepted buf uncopied ++ List.replicate (min uncopied buf.length) 0
    have hdata : data.length = buf.length := by
      simp only [data, List.length_append, length_accepted, List.length_replicate]
      omega
    have hmem : a ∈ h := Finmap.mem_of_lookup_eq_some hl
    have hW : ∀ x ∈ W, x ≠ a := fun x hx he => (List.nodup_cons.mp l.nodup).1 (he ▸ hx)
    have hkeep : kept = [] → (blocks (some (KPtr.block a)) ≠ [] ↔ buf ≠ []) := by
      rintro rfl
      have : buf ≠ [] := List.ne_nil_of_length_pos (by simpa using hpos)
      simp [blocks, this]
    by_cases hd : data = []
    · have hb : buf = [] := List.eq_nil_of_length_eq_zero (by rw [← hdata, hd]; rfl)
      subst hb
      refine ⟨h, by simp [copyFromUser, poke], l, fun _ _ => rfl, fun size hs => ⟨fun _ => ?_, hkeep⟩⟩
      exact ⟨hs, a, blk, rfl, hl, by simpa [accepted] using hpre⟩
    · have hfit : kept.length + data.length ≤ blk.length := by omega
      refine ⟨h.insert a (overwrite blk kept.length data), ?_, l.update hmem,
        fun x hx => Finmap.lookup_insert_of_ne _ (hW x hx), fun size hs => ⟨fun _ => ?_, hkeep⟩⟩
      · have hpoke : copyFromUser (.block a) kept.length buf (min uncopied buf.length) h =
            poke (.block a) kept.length data h := rfl
        rw [hpoke, poke, if_neg hd]
        exact BlockHeap.store_of_lookup hl hfit
      · refine ⟨hs, a, _, rfl, Finmap.lookup_insert _, ?_⟩
        have ht : (overwrite blk kept.length data).take (kept.length + (accepted buf uncopied).length) =
            blk.take kept.length ++ data.take (accepted buf uncopied).length :=
          take_overwrite (by omega) (by simp [data])
        rw [← List.prefix_iff_eq_take.mp hpre] at ht
        rw [show kept ++ accepted buf uncopied = (overwrite blk kept.length data).take
          (kept.length + (accepted buf uncopied).length) by rw [ht]; simp [data]]
        exact List.take_prefix _ _

end Reserve

section Insert
variable {h : Heap} {e : Entry} {text : List Byte} {cb : Ring} {bs : List (List Byte)} {n : Nat}

private theorem windowBlocks_append (w w' : List Entry) :
    windowBlocks (w ++ w') = windowBlocks w ++ windowBlocks w' := List.flatMap_append

private theorem free_dropped (dropped : List Entry) {kept : List Entry} (hd : dropped.length ≤ 1)
    (hone : ∀ x ∈ dropped, ∃ b, Holds h x b) (hk : List.Forall₂ (Holds h) kept bs)
    (l : Ledger h (windowBlocks (dropped ++ kept)) n) :
    ∃ h', kfree (dropped.head?.bind AesdBufferEntry.buffptr) h = some h' ∧
      List.Forall₂ (Holds h') kept bs ∧ Ledger h' (windowBlocks kept) n ∧
      ∀ q ∈ (dropped.head?.bind AesdBufferEntry.buffptr).toList,
        ∃ a, q = .block a ∧ a ∈ windowBlocks dropped ∧ a ∉ h' := by
  match dropped with
  | [] => exact ⟨h, rfl, hk, l, by simp⟩
  | [x] =>
    obtain ⟨b, hb⟩ := hone x List.mem_cons_self
    obtain ⟨a, hblocks, hptr⟩ := hb.blocks_eq
    have hw : windowBlocks [x] = [a] := by simp [windowBlocks, hblocks]
    rw [windowBlocks_append, hw] at l
    have hnot : ∀ y ∈ windowBlocks kept, y ≠ a := fun y hy he => (List.nodup_cons.mp l.nodup).1 (he ▸ hy)
    refine ⟨h.erase a, ?_, ?_, l.free, ?_⟩
    · simp only [List.head?_cons, Option.bind_some, hptr, kfree]
      exact BlockHeap.free_of_mem (l.mem List.mem_cons_self)
    · exact forall₂_holds_congr hk fun y hy => Finmap.lookup_erase_ne (hnot y hy)
    · intro q hq
      refine ⟨a, ?_, by rw [hw]; exact List.mem_cons_self, Finmap.notMem_erase_self⟩
      simpa [hptr] using hq
  | _ :: _ :: _ => simp at hd

private theorem insertEntry_newline {cb' : Ring} {oldest : Option KPtr} {h' : Heap} {copied : Nat}
    (hpeek : peek e.buffptr 0 e.size h = some text) (hnl : newline ∈ text)
    (hadd : aesdCircularBufferAddEntry cb e = some (cb', oldest)) (hfree : kfree oldest h = some h') :
    insertEntry e copied cb h = some (⟨⟨⟨none, 0⟩, cb'⟩, h'⟩, ⟨copied, [], oldest.toList⟩) := by
  simp [insertEntry, hpeek, hnl, hadd, hfree]

/-- Without a newline in it the accumulated entry is preserved. -/
theorem insertEntry_keeps (hpeek : peek e.buffptr 0 e.size h = some text) (hnl : newline ∉ text)
    (copied : Nat) : insertEntry e copied cb h = some (⟨⟨e, cb⟩, h⟩, ⟨copied, [], []⟩) := by
  simp [insertEntry, hpeek, hnl]

/-- With a newline in it the accumulated entry becomes the newest stored text, and the
entry that leaves is freed and nowhere referenced; the ledger is as before. -/
theorem insertEntry_commits (hq : cb.Queue cb.window) (hs : List.Forall₂ (Holds h) cb.window bs)
    (hlines : ∀ b ∈ bs, newline ∈ b) (l : Ledger h (blocks e.buffptr ++ windowBlocks cb.window) n)
    (he : Holds h e text) (hnl : newline ∈ text) (copied : Nat) :
    ∃ k r, insertEntry e copied cb h = some (k, r) ∧ r.ret = copied ∧ r.data = [] ∧
      Shows k ⟨(bs ++ [text]).rtake maxWriteOperationsSupported, .empty false, n⟩ ∧
      ∀ q ∈ r.freed, ∃ a, q = .block a ∧ a ∈ windowBlocks cb.window ∧ a ∉ k.heap := by
  obtain ⟨cb', hadd, hq'⟩ := add_entry_queue hq e
  have hlast : List.Forall₂ (Holds h) ((cb.window ++ [e]).rtake maxWriteOperationsSupported)
      ((bs ++ [text]).rtake maxWriteOperationsSupported) := by
    have hall : List.Forall₂ (Holds h) (cb.window ++ [e]) (bs ++ [text]) := List.rel_append hs (.cons he .nil)
    rw [List.rtake, List.rtake, hall.length_eq]
    exact List.forall₂_drop _ hall
  have hledger : Ledger h (windowBlocks (cb.window ++ [e])) n := by
    rw [windowBlocks_append]
    have hone : windowBlocks [e] = blocks e.buffptr := by simp [windowBlocks]
    exact hone ▸ l.perm List.perm_append_comm
  have hlines' : ∀ b ∈ (bs ++ [text]).rtake maxWriteOperationsSupported, newline ∈ b := by
    intro b hb
    rcases List.mem_append.mp ((rtake_suffix _ _).subset hb) with hb | hb
    · exact hlines b hb
    · rwa [List.mem_singleton.mp hb]
  have hle := hq.length_le
  have hdrop : (cb.window ++ [e]).rdrop maxWriteOperationsSupported <+: cb.window := by
    rw [List.rdrop, List.length_append, List.length_singleton,
      List.take_append_of_le_length (by simp only [maxWriteOperationsSupported]; omega)]
    exact List.take_prefix _ _
  obtain ⟨h', hfree, hk, l', hfreed⟩ := free_dropped
    ((cb.window ++ [e]).rdrop maxWriteOperationsSupported)
    (by rw [length_rdrop, List.length_append, List.length_singleton]; omega)
    (fun x hx => holds_of_mem hs (hdrop.subset hx)) hlast (by rwa [rdrop_append_rtake])
  refine ⟨_, _, insertEntry_newline he.peek_text hnl hadd hfree, rfl, rfl, ?_, fun q hqf => ?_⟩
  · have hw := hq'.window_eq
    rw [← hw] at hq' hk l'
    exact ⟨hq', hk, hlines', by simp [PendingHolds, blocks], l'⟩
  · obtain ⟨a, rfl, ha, hna⟩ := hfreed q hqf
    refine ⟨a, rfl, ?_, hna⟩
    obtain ⟨x, hx, hxa⟩ := List.mem_flatMap.mp ha
    exact List.mem_flatMap.mpr ⟨x, hdrop.subset hx, hxa⟩

end Insert

private theorem failed_ledger {h : Heap} {e : Entry} {p : Pending} {W : List Addr} {n : Nat}
    (hp : PendingHolds h e p) (l : Ledger h (blocks e.buffptr ++ W) n) : Ledger h W (n + p.lostByFailure) := by
  cases p with
  | empty held =>
    cases held with
    | false =>
      have hnil : blocks e.buffptr = [] := by simpa using hp.2
      simpa [hnil, Pending.lostByFailure] using l
    | true =>
      obtain ⟨a, ha⟩ := List.exists_mem_of_ne_nil _ (hp.2.mpr rfl)
      rw [mem_blocks.mp ha] at l
      exact l.forget
  | text b =>
    obtain ⟨_, hb⟩ := hp
    obtain ⟨a, hblocks, _⟩ := hb.blocks_eq
    rw [hblocks] at l
    exact l.forget
  | lost m =>
    rw [hp.2.2] at l
    exact l

private theorem failed_pending {h : Heap} {e : Entry} {p : Pending} (hp : PendingHolds h e p) :
    PendingHolds h ⟨none, e.size⟩ p.afterFailure := by
  cases p with
  | empty held => exact ⟨hp.1, by simp [blocks]⟩
  | text b => exact ⟨List.length_pos_of_ne_nil hp.1, hp.2.1, rfl⟩
  | lost m => exact ⟨hp.1, hp.2.1, rfl⟩

/-- With a grant the locked part of a write comes down to inserting the accumulated text. -/
theorem writeLocked_granted {k : Kernel} {v : DeviceView} (hv : Shows k v) (buf : List Byte) (g : Grant)
    (uncopied : Nat) {text : List Byte} (htext : text = v.pending.kept g ++ accepted buf uncopied) :
    ∃ q h, writeLocked buf (some g) uncopied k =
        insertEntry ⟨some q, text.length⟩ (accepted buf uncopied).length k.aesdDevice.cbHandler h ∧
      List.Forall₂ (Holds h) k.aesdDevice.cbHandler.window v.stored ∧
      Ledger h (blocks (some q) ++ windowBlocks k.aesdDevice.cbHandler.window)
        (v.leaked + v.pending.lostBySuccess) ∧
      (text ≠ [] → Holds h ⟨some q, text.length⟩ text) ∧
      (v.pending.kept g = [] → (blocks (some q) ≠ [] ↔ buf ≠ [])) := by
  subst htext
  obtain ⟨q, h₁, hres, hroom, hl₁, hW₁⟩ := reserve_succeeds hv.pending hv.ledger g buf.length
  obtain ⟨h₂, hcopy, hl₂, hW₂, hfin⟩ := copy_accepted hroom hl₁ uncopied
  obtain ⟨hholds, hheld⟩ := hfin _ rfl
  have hsize := hv.pending.size_eq g
  refine ⟨q, h₂, ?_, ?_, hl₂, hholds, hheld⟩
  · rw [List.length_append, length_accepted, ← hsize]
    simp [writeLocked, hres, hsize, hcopy]
  · exact forall₂_holds_congr hv.stored fun a ha => (hW₂ a ha).trans (hW₁ a ha)

/-- The locked part of a write never goes wrong, follows the view and returns what it
promises; what it frees was allocated before the call and is not afterwards. -/
theorem writeLocked_shows {k : Kernel} {v : DeviceView} (hv : Shows k v) (buf : List Byte)
    (alloc : Option Grant) (uncopied : Nat) :
    ∃ k' r, writeLocked buf alloc uncopied k = some (k', r) ∧ Shows k' (v.write buf alloc uncopied) ∧
      r.ret = writeRet buf alloc uncopied ∧ r.data = [] ∧
      ∀ q ∈ r.freed, ∃ a, q = .block a ∧ a ∈ k.heap ∧ a ∉ k'.heap := by
  cases alloc with
  | none =>
    refine ⟨⟨⟨⟨none, k.aesdDevice.entryToInsertInCb.size⟩, k.aesdDevice.cbHandler⟩, k.heap⟩,
      ⟨-ENOMEM, [], []⟩, by simp [writeLocked, reserve_fails hv.pending], ?_, rfl, rfl, by simp⟩
    exact ⟨hv.queue, hv.stored, hv.lines, failed_pending hv.pending, failed_ledger hv.pending hv.ledger⟩
  | some g =>
    obtain ⟨text, htext⟩ : ∃ text, text = v.pending.kept g ++ accepted buf uncopied := ⟨_, rfl⟩
    obtain ⟨q, h, hwrite, hstored, hl, hholds, hheld⟩ := writeLocked_granted hv buf g uncopied htext
    rw [hwrite]
    simp only [DeviceView.write, ← htext]
    by_cases hnl : newline ∈ text
    · obtain ⟨k', r, hins, hret, hdata, hnew, hfreed⟩ := insertEntry_commits hv.queue hstored hv.lines hl
        (hholds (List.ne_nil_of_mem hnl)) hnl (accepted buf uncopied).length
      refine ⟨k', r, hins, ?_, by simp [hret, writeRet], hdata, fun x hx => ?_⟩
      · simpa only [hnl, if_true] using hnew
      · obtain ⟨a, rfl, ha, hna⟩ := hfreed x hx
        exact ⟨a, rfl, hv.ledger.mem (List.mem_append_right _ ha), hna⟩
    · by_cases hne : text = []
      · have hk := (List.append_eq_nil_iff.mp (htext.symm.trans hne)).1
        have hsize : text.length = 0 := congrArg List.length hne
        refine ⟨_, _, insertEntry_keeps (by rw [hsize, peek_zero]) List.not_mem_nil _, ?_, by simp [writeRet],
          rfl, by simp⟩
        simp only [hnl, if_false, if_pos hne]
        exact ⟨hv.queue, hstored, hv.lines, ⟨hsize, by simpa using hheld hk⟩, hl⟩
      · refine ⟨_, _, insertEntry_keeps (hholds hne).peek_text hnl _, ?_, by simp [writeRet], rfl, by simp⟩
        simp only [hnl, if_false, if_neg hne]
        exact ⟨hv.queue, hstored, hv.lines, ⟨hne, hholds hne⟩, hl⟩

/-- A write that completes a line on a full ring frees the entry that leaves. -/
theorem writeLocked_evicts {k k' : Kernel} {v : DeviceView} {r : Reply} (hv : Shows k v) {buf : List Byte}
    {g : Grant} {uncopied : Nat} (hnl : newline ∈ v.pending.kept g ++ accepted buf uncopied)
    (hfull : v.stored.length = maxWriteOperationsSupported)
    (hwrite : writeLocked buf (some g) uncopied k = some (k', r)) : r.freed ≠ [] := by
  obtain ⟨q, h, heq, hstored, _, hholds, _⟩ := writeLocked_granted hv buf g uncopied rfl
  obtain ⟨cb, hadd, _⟩ := add_entry_queue hv.queue
    ⟨some q, (v.pending.kept g ++ accepted buf uncopied).length⟩
  have hlen : k.aesdDevice.cbHandler.window.length = maxWriteOperationsSupported :=
    hstored.length_eq.trans hfull
  obtain ⟨x, w, hwindow⟩ := List.exists_cons_of_length_pos (show 0 < _ by rw [hlen]; decide)
  obtain ⟨b, hb⟩ := holds_of_mem hstored (x := x) (by rw [hwindow]; exact List.mem_cons_self)
  obtain ⟨a, _, hptr⟩ := hb.blocks_eq
  have hleaves (e : Entry) :
      (k.aesdDevice.cbHandler.window ++ [e]).rdrop maxWriteOperationsSupported = [x] := by
    rw [List.rdrop, List.length_append, hlen, List.length_singleton, Nat.add_sub_cancel_left, hwindow]
    rfl
  rw [hleaves, List.head?_cons, Option.bind_some, hptr] at hadd
  rw [heq] at hwrite
  obtain ⟨text, hpeek, hwrite⟩ := Option.bind_eq_some_iff.mp hwrite
  rw [(hholds (List.ne_nil_of_mem hnl)).peek_text] at hpeek
  obtain rfl := Option.some.inj hpeek
  rw [if_pos hnl] at hwrite
  obtain ⟨_, hadd', hwrite⟩ := Option.bind_eq_some_iff.mp hwrite
  obtain rfl := Option.some.inj (hadd.symm.trans hadd')
  obtain ⟨h', _, hwrite⟩ := Option.bind_eq_some_iff.mp hwrite
  obtain ⟨_, rfl⟩ := Prod.mk.inj (Option.some.inj hwrite)
  simp

end Aesd.Driver
