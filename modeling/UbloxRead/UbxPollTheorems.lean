/-
UbloxRead.UbxPollTheorems — the retry cycle: what is missing, what is polled
for, and what answers acknowledge.

`genPollMessage_eq` and `genPollMessageIndSV_eq` turn the byte assignments into
the encoding of a frame, so that the round trip of `UbxFrameTheorems` says what
the check makes of it (`pollFor_of_block`). `Polls` describes a function that
queues a poll for each unset item of a list, and composes: one `if`, one after
the other, and a loop. `prepAidMissingPollMsgs` is `Polls` for `allItems`, the
items that `areThereMissingMessages` counts.
-/
import UbloxRead.UbxPoll
import UbloxRead.UbxAckTheorems
import UbloxRead.SerialTheorems

namespace UbloxRead

open Lib

/-! ## Blocks -/

namespace TxHeap

@[simp] theorem setBlock_setBlock (s : TxHeap) (p : Ptr) (block block' : Option (List UInt8)) :
    (s.setBlock p block).setBlock p block' = s.setBlock p block' := by
  simp only [setBlock, TxHeap.mk.injEq, true_and, and_true]
  funext q
  split <;> rfl

/-- An assignment inside a block. -/
@[simp] theorem store_setBlock (s : TxHeap) (p : Ptr) (block : List UInt8) (i : Nat) (v : UInt8) :
    (s.setBlock p (some block)).store p i v
      = if i < block.length then some (s.setBlock p (some (block.set i v))) else none := by
  simp [store, show (s.setBlock p (some block)).blocks p = some block from if_pos rfl]

@[simp] theorem mem_setBlock (s : TxHeap) (p : Ptr) (block : List UInt8) :
    (s.setBlock p (some block)).mem p = memOfList block := by
  simp [mem, show (s.setBlock p (some block)).blocks p = some block from if_pos rfl]

/-- What `malloc` of a message and the assignments to it come to. -/
def allocated (s : TxHeap) (bytes : List UInt8) : Ptr × TxHeap :=
  let (p, s) := s.malloc bytes.length
  if p = NULL then (NULL, s) else (p, s.setBlock p (some bytes))

end TxHeap

/-! ## Poll messages -/

/-- The frame that polls. -/
def pollFrame (msgClass msgId : UInt8) (svid : Option UInt8) : UbxFrame where
  msgClass := msgClass
  msgId := msgId
  payload := svid.toList
  payload_lt := by
    have : svid.toList.length ≤ 1 := by cases svid <;> simp
    omega

/-- The checksum loop on a block whose first bytes are the sync bytes. -/
theorem ubxChecksum_block (body rest : List UInt8) :
    ubxChecksum (memOfList (UBX_SYNC0 :: UBX_SYNC1 :: (body ++ rest))) 2 body.length
      = fletcher body := by
  rw [ubxChecksum_eq]
  congr 1
  apply List.ext_getElem
  · simp
  · intro i h1 h2
    simp [memOfList, slice, Nat.add_comm 2 i, List.getElem?_append_left h2, h2]

/-- **`genPollMessage` gives a frame without payload.** -/
theorem genPollMessage_eq (s : TxHeap) (msgClass msgId : UInt8) :
    genPollMessage s msgClass msgId
      = some (s.allocated (pollFrame msgClass msgId none).bytes) := by
  have hck : ubxChecksum (memOfList [UBX_SYNC0, UBX_SYNC1, msgClass, msgId, 0, 0, 0, 0]) 2 4
      = fletcher [msgClass, msgId, 0, 0] := ubxChecksum_block [msgClass, msgId, 0, 0] [0, 0]
  have hbytes : (pollFrame msgClass msgId none).bytes
      = [UBX_SYNC0, UBX_SYNC1, msgClass, msgId, 0, 0, (fletcher [msgClass, msgId, 0, 0]).1,
          (fletcher [msgClass, msgId, 0, 0]).2] := by
    simp [pollFrame, UbxFrame.bytes, UbxFrame.body]
  rw [genPollMessage, TxHeap.allocated, TxHeap.mallocBlock, hbytes]
  by_cases hp : s.mallocs s.calls 8 = NULL
  · simp [TxHeap.malloc, hp]
  · simp [TxHeap.malloc, hp, List.replicate, UBX_HDR_SIZE, hck]

/-- **`genPollMessageIndSV` gives a frame with the satellite number as its
payload.** -/
theorem genPollMessageIndSV_eq (s : TxHeap) (msgClass msgId svid : UInt8) :
    genPollMessageIndSV s msgClass msgId svid
      = some (s.allocated (pollFrame msgClass msgId (some svid)).bytes) := by
  have hck : ubxChecksum (memOfList [UBX_SYNC0, UBX_SYNC1, msgClass, msgId, 1, 0, svid, 0, 0]) 2 5
      = fletcher [msgClass, msgId, 1, 0, svid] :=
    ubxChecksum_block [msgClass, msgId, 1, 0, svid] [0, 0]
  have hbytes : (pollFrame msgClass msgId (some svid)).bytes
      = [UBX_SYNC0, UBX_SYNC1, msgClass, msgId, 1, 0, svid,
          (fletcher [msgClass, msgId, 1, 0, svid]).1,
          (fletcher [msgClass, msgId, 1, 0, svid]).2] := by
    simp [pollFrame, UbxFrame.bytes, UbxFrame.body]
  rw [genPollMessageIndSV, TxHeap.allocated, TxHeap.mallocBlock, hbytes]
  by_cases hp : s.mallocs s.calls 9 = NULL
  · simp [TxHeap.malloc, hp]
  · simp [TxHeap.malloc, hp, List.replicate, UBX_HDR_SIZE, hck]

/-- The frame that polls for an item. -/
def AckFlag.poll (g : AckFlag) : UbxFrame :=
  pollFrame g.msgClass g.msgId (g.sat.map fun s => UInt8.ofNat s)

/-- **A block that holds an item's frame is a poll for it.** -/
theorem pollFor_of_block {g : AckFlag} {msg : TxMsg} (h : msg.block = some g.poll.bytes) :
    PollFor g msg := by
  have hbytes : msg.bytes = g.poll.bytes := by rw [TxMsg.bytes, h]; rfl
  have hitem := frameItem_of_bytes g.poll (slice_memOfList g.poll.bytes)
  obtain ⟨-, -, hlen⟩ := frameItem_eq_some.mp hitem
  have hpayload : msg.payloadLen = payloadLen (memOfList g.poll.bytes) 0 := by
    rw [TxMsg.payloadLen, hbytes, h]
    rfl
  have hcount : msg.payloadLen = g.poll.payload.length := by
    have := length_bytes g.poll
    omega
  refine ⟨?_, ?_, ?_, ?_, ?_⟩
  · rw [hbytes]
    exact parse_bytes g.poll (slice_memOfList g.poll.bytes) le_rfl
  · rw [TxMsg.writeLen, hpayload, hbytes, hlen, UBX_HDR_SIZE]
    omega
  · rw [hbytes]
    rfl
  · rw [hbytes]
    rfl
  · rw [hcount, hbytes]
    cases g with
    | ini => rfl
    | hui => rfl
    | posllh => rfl
    | alm s => exact ⟨rfl, UInt8.toNat_ofNat_of_lt' (s.isLt.trans (by decide))⟩
    | eph s => exact ⟨rfl, UInt8.toNat_ofNat_of_lt' (s.isLt.trans (by decide))⟩

/-- A frame that answers an item's poll carries the item. -/
theorem carries_of_answers {f : AcceptedFrame} {g : AckFlag} {msg : TxMsg} (hpoll : PollFor g msg)
    (h : f.Answers msg) : f.Carries g := by
  obtain ⟨hcls, hid, hsat⟩ := h
  refine ⟨hcls.trans hpoll.msgClass, hid.trans hpoll.msgId, fun s hs => ?_⟩
  have hpayload := hpoll.payload
  rw [Option.mem_def.mp hs] at hpayload
  obtain ⟨hlen, hbyte⟩ := hsat (by rw [hpayload.1]; decide)
  exact ⟨hlen, by rw [hbyte, hpayload.2]⟩

/-! ## Pushing one poll -/

/-- A well-formed queue, and a `malloc` that keeps off it. -/
structure TxHeap.Ready (s : TxHeap) (queue : List TxMsg) : Prop where
  inv : TxInv s.ll s.blocks queue
  mallocOk : s.MallocOk

/-- `s'` comes after `s`: `malloc` has been called again, or not. -/
structure TxHeap.Before (s s' : TxHeap) : Prop where
  mallocs : s'.mallocs = s.mallocs
  calls : s.calls ≤ s'.calls

theorem TxHeap.Before.trans {s₁ s₂ s₃ : TxHeap} (h : s₁.Before s₂) (h' : s₂.Before s₃) :
    s₁.Before s₃ := ⟨h'.mallocs.trans h.mallocs, h.calls.trans h'.calls⟩

/-- What was pushed from a later heap on was pushed from an earlier one on. -/
theorem TxHeap.Before.pushedFor {s s' : TxHeap} (h : s.Before s') {g : AckFlag} {msg : TxMsg}
    (hpushed : PushedFor s' g msg) : PushedFor s g msg := by
  obtain ⟨⟨k, size, hk, hptr, hsize⟩, hpoll⟩ := hpushed
  rw [h.mallocs] at hptr
  exact ⟨⟨k, size, h.calls.trans hk, hptr, hsize⟩, hpoll⟩

/-- `malloc` keeps off the queue as long as what becomes live does so at
addresses it returned. -/
theorem TxHeap.MallocOk.advance {s s' : TxHeap} (h : s.MallocOk) (hbefore : s.Before s')
    (hnew : ∀ q, q ≠ NULL → (∀ k size, s.calls ≤ k → k < s'.calls → s.mallocs k size ≠ NULL →
        q ≠ s.mallocs k size) → s.ll.heap q = none → s.blocks q = none →
      s'.ll.heap q = none ∧ s'.blocks q = none)
    (hnull : s'.blocks NULL = none) : s'.MallocOk := by
  obtain ⟨hmallocs, hcalls⟩ := hbefore
  refine ⟨fun k hk => ?_, fun k size hk hne => ?_, fun k k' size size' hk hlt hne => ?_, hnull⟩
  · rw [hmallocs]
    exact h.node k (hcalls.trans hk)
  · rw [hmallocs] at hne ⊢
    obtain ⟨hheap, hblocks⟩ := h.dead k size (hcalls.trans hk) hne
    refine hnew _ hne (fun k₀ size₀ hk₀ hlt hne₀ => ?_) hheap hblocks
    exact h.apart k₀ k size₀ size hk₀ (hlt.trans_le hk) hne₀
  · rw [hmallocs] at hne ⊢
    exact h.apart k k' size size' (hcalls.trans hk) hlt hne

/-- The two outcomes of `malloc` as one. -/
theorem TxHeap.allocated_eq {s : TxHeap} (hnull : s.blocks NULL = none) (bytes : List UInt8) :
    s.allocated bytes = (s.mallocs s.calls bytes.length,
      ({ s with calls := s.calls + 1 } : TxHeap).setBlock (s.mallocs s.calls bytes.length)
        (if s.mallocs s.calls bytes.length = NULL then none else some bytes)) := by
  unfold allocated malloc
  by_cases hp : s.mallocs s.calls bytes.length = NULL
  · have hsame : (fun q => if q = NULL then none else s.blocks q) = s.blocks := by
      funext q
      split
      · next hq => rw [hq, hnull]
      · rfl
    simp only [hp, if_true, setBlock, hsame]
  · simp only [hp, if_false]

/-- **A poll is queued last**, in a block of its own or as NULL. -/
theorem pushPoll_spec {s : TxHeap} {queue : List TxMsg} (h : s.Ready queue) {g : AckFlag}
    {poll : TxHeap → Option (Ptr × TxHeap)} (hpoll : poll s = some (s.allocated g.poll.bytes)) :
    ∃ s' msg, (poll s >>= fun r => r.2.pushBack r.1) = some s' ∧ s'.Ready (queue ++ [msg]) ∧
      s.Before s' ∧ PushedFor s g msg := by
  obtain ⟨hinv, hmalloc⟩ := h
  have hnull := hmalloc.null
  let p := s.mallocs s.calls g.poll.bytes.length
  let n := s.mallocs (s.calls + 1) NODE_SIZE
  let msg : TxMsg := { ptr := p, block := if p = NULL then none else some g.poll.bytes }
  have hn : n ≠ NULL := hmalloc.node (s.calls + 1) (by omega)
  have hmsg : msg.ptr = NULL ↔ msg.block = none := by
    show p = NULL ↔ (if p = NULL then none else some g.poll.bytes) = none
    by_cases hp : p = NULL <;> simp [hp]
  have hdead : s.blocks p = none := by
    by_cases hp : p = NULL
    · rw [hp, hnull]
    · exact (hmalloc.dead s.calls _ le_rfl hp).2
  obtain ⟨ll, hpush, hinv', hkept⟩ :=
    hinv.push hn (hmalloc.dead (s.calls + 1) NODE_SIZE (by omega) hn).1 hmsg hdead
  let s' : TxHeap :=
    { s with
      ll := ll
      blocks := fun q => if q = p then msg.block else s.blocks q
      calls := s.calls + 2 }
  have hstep : (poll s >>= fun r => r.2.pushBack r.1) = some s' := by
    rw [hpoll, TxHeap.allocated_eq hnull]
    exact congrArg (Option.bind · fun ll => some { s' with ll := ll }) hpush
  have hbefore : s.Before s' := ⟨rfl, Nat.le_add_right ..⟩
  have hmalloc' : s'.MallocOk := by
    refine hmalloc.advance hbefore (fun q hq hnew hheap hblocks => ⟨?_, ?_⟩) ?_
    · exact hkept q
        (hnew (s.calls + 1) NODE_SIZE (Nat.le_add_right ..) (Nat.lt_succ_self _) hn) hheap
    · have hother : q ≠ p := by
        by_cases hp : p = NULL
        · rw [hp]
          exact hq
        · exact hnew s.calls _ le_rfl (Nat.lt_add_of_pos_right (by decide)) hp
      exact (if_neg hother).trans hblocks
    · show (if NULL = p then msg.block else s.blocks NULL) = none
      split
      · next hp => exact hmsg.mp hp.symm
      · exact hnull
  refine ⟨s', msg, hstep, ⟨hinv', hmalloc'⟩, hbefore,
    ⟨_, _, le_rfl, rfl, fun hp => ?_⟩, fun hp => ?_⟩
  · rw [TxMsg.bytes, show msg.block = some g.poll.bytes from if_neg hp, Option.getD_some]
  · exact pollFor_of_block (if_neg hp)

/-! ## Pushing all of them -/

/-- `f` queues a poll for each of the items `gs` that is unset, in their order. -/
def Polls (chk : MsgStrmCheck) (f : TxHeap → Option TxHeap) (gs : List AckFlag) : Prop :=
  ∀ s queue, s.Ready queue → ∃ s' polls, f s = some s' ∧ s'.Ready (queue ++ polls) ∧
    s.Before s' ∧ List.Forall₂ (PushedFor s) (gs.filter fun g => chk.flag g = 0) polls

/-- One `if`. -/
theorem polls_pushPollIfUnset {chk : MsgStrmCheck} {g : AckFlag}
    {poll : TxHeap → Option (Ptr × TxHeap)}
    (hpoll : ∀ s, poll s = some (s.allocated g.poll.bytes)) :
    Polls chk (pushPollIfUnset (chk.flag g) poll) [g] := by
  intro s queue h
  unfold pushPollIfUnset
  by_cases hzero : chk.flag g = 0
  · obtain ⟨s', msg, hstep, hready, hbefore, hpushed⟩ := pushPoll_spec h (hpoll s)
    refine ⟨s', [msg], ?_, hready, hbefore, ?_⟩
    · rw [if_pos hzero.symm]
      exact hstep
    · simpa [hzero] using hpushed
  · refine ⟨s, [], by rw [if_neg (Ne.symm hzero)], by simpa using h, ⟨rfl, le_rfl⟩, ?_⟩
    simp [hzero]

/-- One after the other. -/
theorem Polls.bind {chk : MsgStrmCheck} {f f' : TxHeap → Option TxHeap} {gs gs' : List AckFlag}
    (h : Polls chk f gs) (h' : Polls chk f' gs') :
    Polls chk (fun s => (f s).bind f') (gs ++ gs') := by
  intro s queue hready
  obtain ⟨s₁, polls₁, hf, hready₁, hbefore₁, hpolls₁⟩ := h s queue hready
  obtain ⟨s₂, polls₂, hf', hready₂, hbefore₂, hpolls₂⟩ := h' s₁ _ hready₁
  refine ⟨s₂, polls₁ ++ polls₂, (congrArg (Option.bind · f') hf).trans hf', ?_,
    hbefore₁.trans hbefore₂, ?_⟩
  · rw [← List.append_assoc]
    exact hready₂
  · rw [List.filter_append]
    exact List.rel_append hpolls₁ (hpolls₂.imp fun _ _ => hbefore₁.pushedFor)

/-- A loop. -/
theorem polls_forLoop {chk : MsgStrmCheck} {n : Nat} {body : Nat → TxHeap → Option TxHeap}
    {g : Nat → AckFlag} (h : ∀ i, i < n → Polls chk (body i) [g i]) :
    Polls chk (forLoop n body) ((List.range n).map g) := by
  induction n with
  | zero => exact fun s queue hready => ⟨s, [], rfl, by simpa using hready, ⟨rfl, le_rfl⟩, by simp⟩
  | succ n ih =>
    rw [List.range_succ, List.map_append, List.map_singleton]
    have hall := (ih fun i hi => h i (by omega)).bind (h n (Nat.lt_succ_self n))
    intro s queue hready
    rw [forLoop_succ]
    exact hall s queue hready

/-- The items in the order of `prepAidMissingPollMsgs`. -/
def allItems : List AckFlag :=
  [.ini] ++ ([.hui] ++ ([.posllh] ++ ((List.range 32).map (fun i => .alm (Fin.ofNat 32 i)) ++
    (List.range 32).map fun i => .eph (Fin.ofNat 32 i))))

/-- The loop for one kind of satellite item. -/
theorem polls_satLoop {chk : MsgStrmCheck} {ack : Nat → UInt8} {id : UInt8} {g : Fin 32 → AckFlag}
    (hack : ∀ i : Fin 32, ack i = chk.flag (g i))
    (hpoll : ∀ i, (g i).poll = pollFrame UBX_CLASS_AID id (some (UInt8.ofNat i))) :
    Polls chk (forLoop 32 fun i => pushPollIfUnset (ack i) (pollSat · id i))
      ((List.range 32).map fun i => g (Fin.ofNat 32 i)) := by
  refine polls_forLoop fun i hi => ?_
  have hval : (Fin.ofNat 32 i).val = i := Nat.mod_eq_of_lt hi
  have hflag : ack i = chk.flag (g (Fin.ofNat 32 i)) := by rw [← hack, hval]
  rw [hflag]
  refine polls_pushPollIfUnset fun s => ?_
  rw [pollSat, if_neg (by omega), if_pos (by omega), genPollMessageIndSV_eq, Int.toNat_natCast,
    hpoll, hval]

/-- **`prepAidMissingPollMsgs` queues a poll for every unset item.** -/
theorem prepAidMissingPollMsgs_polls (chk : MsgStrmCheck) :
    Polls chk (fun s => prepAidMissingPollMsgs s chk) allItems := by
  have hini : Polls chk (pushPollIfUnset chk.iniAck pollIni) [.ini] :=
    polls_pushPollIfUnset (g := .ini) fun s => genPollMessage_eq s UBX_CLASS_AID UBX_AID_INI
  have hhui : Polls chk (pushPollIfUnset chk.huiAck pollHui) [.hui] :=
    polls_pushPollIfUnset (g := .hui) fun s => genPollMessage_eq s UBX_CLASS_AID UBX_AID_HUI
  have hposllh : Polls chk (pushPollIfUnset chk.posllhAck pollPosllh) [.posllh] :=
    polls_pushPollIfUnset (g := .posllh) fun s => genPollMessage_eq s UBX_CLASS_NAV UBX_NAV_POSLLH
  have halm : Polls chk (forLoop 32 fun i => pushPollIfUnset (chk.almAck i) (pollAlmanac · i))
      ((List.range 32).map fun i => .alm (Fin.ofNat 32 i)) :=
    polls_satLoop (fun _ => rfl) fun _ => rfl
  have heph : Polls chk (forLoop 32 fun i => pushPollIfUnset (chk.ephAck i) (pollEphem · i))
      ((List.range 32).map fun i => .eph (Fin.ofNat 32 i)) :=
    polls_satLoop (fun _ => rfl) fun _ => rfl
  exact hini.bind (hhui.bind (hposllh.bind (halm.bind heph)))

/-! ## Counting what is missing -/

theorem allItems_nodup : allItems.Nodup := by decide

theorem mem_allItems (g : AckFlag) : g ∈ allItems := by
  have hsat : ∀ s : Fin 32, ∃ i, i < 32 ∧ Fin.ofNat 32 i = s := fun s =>
    ⟨s, s.isLt, Fin.ext (Nat.mod_eq_of_lt s.isLt)⟩
  cases g with
  | ini => simp [allItems]
  | hui => simp [allItems]
  | posllh => simp [allItems]
  | alm s => simpa [allItems] using hsat s
  | eph s => simpa [allItems] using hsat s

/-- A counting loop. -/
theorem countUnset_eq (ack : Nat → UInt8) (m : Nat) :
    countUnset ack m = m + (List.range 32).countP fun i => ack i = 0 := by
  have gen : ∀ (is : List Nat) (m : Nat),
      is.foldl (fun m i => if ack i = 0 then m + 1 else m) m = m + is.countP fun i => ack i = 0 := by
    intro is
    induction is with
    | nil => exact fun _ => rfl
    | cons i is ih =>
      intro m
      rw [List.foldl_cons, ih, List.countP_cons]
      simp only [decide_eq_true_eq]
      split <;> omega
  exact gen (List.range 32) m

/-- **`areThereMissingMessages` counts the unset items.** -/
theorem areThereMissingMessages_eq (chk : MsgStrmCheck) :
    areThereMissingMessages chk = allItems.countP fun g => chk.flag g = 0 := by
  have hflag : ∀ (ack : Nat → UInt8) (g : Fin 32 → AckFlag),
      (∀ i : Fin 32, ack i = chk.flag (g i)) →
      (List.range 32).countP (fun i => ack i = 0)
        = ((List.range 32).map fun i => g (Fin.ofNat 32 i)).countP fun g => chk.flag g = 0 := by
    intro ack g hack
    rw [List.countP_map]
    refine List.countP_congr fun i hi => ?_
    have hval : (Fin.ofNat 32 i).val = i := Nat.mod_eq_of_lt (List.mem_range.mp hi)
    simp only [Function.comp_apply, ← hack, hval]
  have halm := hflag chk.almAck .alm fun _ => rfl
  have heph := hflag chk.ephAck .eph fun _ => rfl
  simp only [areThereMissingMessages, countUnset_eq, halm, heph, allItems, List.countP_append,
    List.countP_singleton]
  have hini : chk.flag .ini = chk.iniAck := rfl
  have hhui : chk.flag .hui = chk.huiAck := rfl
  have hposllh : chk.flag .posllh = chk.posllhAck := rfl
  simp only [hini, hhui, hposllh, decide_eq_true_eq]
  split_ifs <;> omega

/-- Nothing is missing exactly when every flag is set. -/
theorem areThereMissingMessages_eq_zero_iff (chk : MsgStrmCheck) :
    areThereMissingMessages chk = 0 ↔ ∀ g, chk.flag g ≠ 0 := by
  rw [areThereMissingMessages_eq, List.countP_eq_zero]
  constructor
  · intro h g
    simpa using h g (mem_allItems g)
  · intro h g _
    simpa using h g

/-! ## The retry cycle -/

/-- What the left list has, the right one has a counterpart of. -/
theorem exists_of_forall₂ {α β : Type} {r : α → β → Prop} {xs : List α} {ys : List β}
    (h : List.Forall₂ r xs ys) {x : α} (hx : x ∈ xs) : ∃ y ∈ ys, r x y := by
  induction h with
  | nil => cases hx
  | cons hxy _ ih =>
    rcases List.mem_cons.mp hx with rfl | hx
    · exact ⟨_, List.mem_cons_self .., hxy⟩
    · obtain ⟨y, hy, hr⟩ := ih hx
      exact ⟨y, List.mem_cons_of_mem _ hy, hr⟩

/-- **When every unset item is carried by some frame, nothing is missing.** -/
theorem updateAll_complete {chk : MsgStrmCheck} {frames : List AcceptedFrame}
    (h : ∀ g, chk.flag g = 0 → ∃ f ∈ frames, f.Carries g) :
    areThereMissingMessages (updateAll frames chk) = 0 := by
  rw [areThereMissingMessages_eq_zero_iff]
  intro g
  by_cases hzero : chk.flag g = 0
  · obtain ⟨f, hf, hcarries⟩ := h g hzero
    rw [updateAll_flag, if_pos ⟨f, hf, target_of_carries hcarries⟩]
    decide
  · exact updateAll_flag_ne_zero frames hzero

/-- **The retry cycle closes.** Behind what is queued stands one poll for every
item whose flag is unset, as many as `areThereMissingMessages` counts, each of
them a valid frame for its item unless `malloc` failed; and when accepted frames
answer all of them, in any order and among any others, nothing is missing. -/
theorem prepAidMissingPollMsgs_closes {s : TxHeap} {queue : List TxMsg}
    (hinv : TxInv s.ll s.blocks queue) (hmalloc : s.MallocOk) (chk : MsgStrmCheck) :
    ∃ s' items polls, prepAidMissingPollMsgs s chk = some s' ∧
      TxInv s'.ll s'.blocks (queue ++ polls) ∧
      (items.Nodup ∧ ∀ g, g ∈ items ↔ chk.flag g = 0) ∧
      List.Forall₂ (PushedFor s) items polls ∧
      polls.length = areThereMissingMessages chk ∧
      ((∀ msg ∈ polls, msg.ptr ≠ NULL) → ∀ frames : List AcceptedFrame,
        (∀ msg ∈ polls, ∃ f ∈ frames, f.Answers msg) →
          areThereMissingMessages (updateAll frames chk) = 0) := by
  obtain ⟨s', polls, hprep, hready, -, hpushed⟩ :=
    prepAidMissingPollMsgs_polls chk s queue ⟨hinv, hmalloc⟩
  have hmem : ∀ g, g ∈ allItems.filter (fun g => chk.flag g = 0) ↔ chk.flag g = 0 := by
    simp [List.mem_filter, mem_allItems]
  refine ⟨s', _, polls, hprep, hready.inv, ⟨allItems_nodup.filter _, hmem⟩, hpushed, ?_, ?_⟩
  · rw [areThereMissingMessages_eq, List.countP_eq_length_filter, hpushed.length_eq]
  · intro hptr frames hanswers
    refine updateAll_complete fun g hzero => ?_
    obtain ⟨msg, hmsg, hpoll⟩ : ∃ msg ∈ polls, PushedFor s g msg :=
      exists_of_forall₂ hpushed ((hmem g).mpr hzero)
    obtain ⟨f, hf, hanswer⟩ := hanswers msg hmsg
    exact ⟨f, hf, carries_of_answers (hpoll.poll (hptr msg hmsg)) hanswer⟩

/-- An empty queue, and a `malloc` that counts up. -/
def freshHeap : TxHeap where
  ll := createList fun _ => none
  blocks := fun _ => none
  mallocs := fun k _ => k + 1
  calls := 0
  fill := 0xff

theorem freshHeap_ready : freshHeap.Ready [] := by
  refine ⟨⟨⟨[], createList_repr _, rfl⟩, by simp, List.Pairwise.nil⟩, ?_, ?_, ?_, rfl⟩
  · exact fun k _ => Nat.succ_ne_zero k
  · exact fun _ _ _ _ => ⟨rfl, rfl⟩
  · exact fun _ _ _ _ _ hlt _ heq => hlt.ne' (Nat.succ.inj heq)

theorem prepAidMissingPollMsgs_closes_first :
    ∃ s' items polls, prepAidMissingPollMsgs freshHeap .zero = some s' ∧
      TxInv s'.ll s'.blocks ([] ++ polls) ∧
      (items.Nodup ∧ ∀ g, g ∈ items ↔ MsgStrmCheck.zero.flag g = 0) ∧
      List.Forall₂ (PushedFor freshHeap) items polls ∧
      polls.length = areThereMissingMessages .zero ∧
      ((∀ msg ∈ polls, msg.ptr ≠ NULL) → ∀ frames : List AcceptedFrame,
        (∀ msg ∈ polls, ∃ f ∈ frames, f.Answers msg) →
          areThereMissingMessages (updateAll frames .zero) = 0) :=
  prepAidMissingPollMsgs_closes freshHeap_ready.inv freshHeap_ready.mallocOk .zero

end UbloxRead
