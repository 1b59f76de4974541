/-
UbloxRead.RingBufTheorems — the ring buffer as a byte queue.

`Ringbuffer.Wf` is the invariant the copies rely on: both pointers lie in
`[buffer, buffer + size]` and `fill` is the cyclic distance from `read` to
`write`. It says nothing on its own when the pointers coincide: there `fill`
is `0` or `size`, and only `fill` tells which.

`ringbufferWrite_spec` and `ringbufferRead_spec` are the two operations on a
well-formed buffer. Writing is right in every such state, and asks no more of
the buffer than `Ringbuffer.Cyclic`, which lets `size` be any part of the
array (`ringbufferWrite_all_or_nothing`). Reading is right
unless the pointers coincide: a full buffer with `read = write` gives up `len`
bytes of `fill` without copying one and without moving `read`. The two
conditions below are about exactly that call.

* `ReadCopies` — the read is not of a positive length there. Under it the
  buffer refines `fifoMachine` (`ringMachine_fifo`).
* `ReadKeepsDistance` — the read is not of a part of the contents there.
  Taking everything loses the bytes but leaves an empty, well-formed buffer,
  so this weaker condition is all that memory safety needs
  (`ringMachine_copies_inside`), and one call that breaks it opens the way to
  a write outside the buffer (`partial_read_leads_outside`).
-/
import UbloxRead.RingBuf

namespace UbloxRead

open Lib

/-- Both pointers inside the buffer, `fill` the cyclic distance between them. -/
structure Ringbuffer.Wf (rb : Ringbuffer) : Prop where
  size_eq : rb.size = RINGBUFFER_SIZE
  fill_le : rb.fill ≤ rb.size
  read_le : rb.read ≤ rb.size
  write_le : rb.write ≤ rb.size
  dist : (rb.read + rb.fill) % rb.size = rb.write % rb.size

/-- The same relation for a buffer that uses any part of its array. The
pointers may stand at `size` as well as at `0`: the two are one place. -/
structure Ringbuffer.Cyclic (rb : Ringbuffer) : Prop where
  size_le : rb.size ≤ RINGBUFFER_SIZE
  fill_le : rb.fill ≤ rb.size
  read_le : rb.read ≤ rb.size
  write_le : rb.write ≤ rb.size
  dist : (rb.read + rb.fill) % rb.size = rb.write % rb.size

theorem Ringbuffer.Wf.cyclic {rb : Ringbuffer} (hwf : rb.Wf) : rb.Cyclic :=
  ⟨hwf.size_eq.le, hwf.fill_le, hwf.read_le, hwf.write_le, hwf.dist⟩

theorem Ringbuffer.Cyclic.wf {rb : Ringbuffer} (hcyc : rb.Cyclic)
    (hsize : rb.size = RINGBUFFER_SIZE) : rb.Wf :=
  ⟨hsize, hcyc.fill_le, hcyc.read_le, hcyc.write_le, hcyc.dist⟩

/-- A range that stays inside `buffer[0 .. RINGBUFFER_SIZE)`. -/
def RingRange.Inside (r : RingRange) : Prop := r.start + r.len ≤ RINGBUFFER_SIZE

@[simp] theorem ringbufferInit_wf (heap : Mem) : (ringbufferInit heap).Wf :=
  ⟨rfl, Nat.zero_le _, Nat.zero_le _, Nat.zero_le _, rfl⟩

@[simp] theorem ringbufferClear_wf (rb : Ringbuffer) : (ringbufferClear rb).Wf :=
  ⟨rfl, Nat.zero_le _, Nat.zero_le _, Nat.zero_le _, rfl⟩

@[simp] theorem contents_init (heap : Mem) : (ringbufferInit heap).contents = [] := rfl

@[simp] theorem length_contents (rb : Ringbuffer) : rb.contents.length = rb.fill := by
  simp [Ringbuffer.contents]

/-! ## Writing -/

/-- `ringbuffer_write` refuses what does not fit, and changes nothing. -/
theorem ringbufferWrite_refused {rb : Ringbuffer} (buf : Mem) {len : Nat}
    (h : rb.size - rb.fill < len) :
    ringbufferWrite rb buf len = { rb := rb, buf := buf, ret := 0, copied := [] } := by
  rw [ringbufferWrite, if_pos h]

/-- The `int` the code computes from two in-range pointers, as an `unsigned int`. -/
theorem uintOfInt_distance {rb : Ringbuffer} (hsize : rb.size ≤ RINGBUFFER_SIZE) {p : Nat}
    (hp : p ≤ rb.size) : uintOfInt (rb.size - p) = rb.size - p := by
  unfold RINGBUFFER_SIZE at hsize
  rw [uintOfInt_of_nonneg (by omega) (by omega)]
  omega

/-- The write that needs one copy: up to the end of the buffer, or in the gap
before `read`. -/
theorem ringbufferWrite_straight {rb : Ringbuffer} (hcyc : rb.Cyclic) (buf : Mem) (len : Nat)
    (hfit : len ≤ rb.size - rb.fill) (h : rb.write < rb.read ∨ rb.write + len ≤ rb.size) :
    ringbufferWrite rb buf len
      = { rb := { rb with
            buffer := memcpy rb.buffer rb.write buf 0 len
            write := rb.write + len
            fill := rb.fill + len }
          buf := buf
          ret := len
          copied := [⟨rb.write, len⟩] } := by
  have hw := hcyc.write_le
  rw [ringbufferWrite, if_neg (by omega)]
  split
  · simp only [uintOfInt_distance hcyc.size_le hw]
    rw [if_pos (by omega)]
  · rfl

/-- The write that runs over the end and goes on at the front. -/
theorem ringbufferWrite_split {rb : Ringbuffer} (hcyc : rb.Cyclic) (buf : Mem) (len : Nat)
    (hfit : len ≤ rb.size - rb.fill) (hge : rb.read ≤ rb.write) (h : rb.size < rb.write + len) :
    ringbufferWrite rb buf len
      = { rb := { rb with
            buffer := memcpy (memcpy rb.buffer rb.write buf 0 (rb.size - rb.write)) 0 buf
              (rb.size - rb.write) (len - (rb.size - rb.write))
            write := len - (rb.size - rb.write)
            fill := rb.fill + len }
          buf := buf
          ret := len
          copied := [⟨rb.write, rb.size - rb.write⟩, ⟨0, len - (rb.size - rb.write)⟩] } := by
  have hw := hcyc.write_le
  have htoNat : ((rb.size : Int) - rb.write).toNat = rb.size - rb.write := by omega
  rw [ringbufferWrite, if_neg (by omega), if_pos hge]
  simp only [uintOfInt_distance hcyc.size_le hw, htoNat]
  rw [if_neg (by omega)]

/-- With `write` behind `read` the room is the gap between them. -/
theorem Ringbuffer.Cyclic.room_eq_gap {rb : Ringbuffer} (hcyc : rb.Cyclic)
    (hlt : rb.write < rb.read) : rb.write + (rb.size - rb.fill) ≤ rb.read := by
  have hread := hcyc.read_le
  have hfill := hcyc.fill_le
  have hdist := hcyc.dist
  rw [Nat.mod_eq_of_lt (show rb.write < rb.size by omega)] at hdist
  by_contra hover
  -- `read + fill` would stop short of `write`, before the end or behind it
  rcases Nat.lt_or_ge (rb.read + rb.fill) rb.size with hin | hround
  · rw [Nat.mod_eq_of_lt hin] at hdist
    omega
  · rw [Nat.mod_eq_sub_mod hround, Nat.mod_eq_of_lt (by omega)] at hdist
    omega

/-- **A write that fits** lays its bytes down going round from `write`, inside
the buffer, and moves only `write` and `fill`. -/
theorem ringbufferWrite_laid {rb : Ringbuffer} (hcyc : rb.Cyclic) (buf : Mem) {len : Nat}
    (hfit : len ≤ rb.size - rb.fill) :
    let r := ringbufferWrite rb buf len
    r.ret = len ∧ r.rb.size = rb.size ∧ r.rb.read = rb.read ∧ r.rb.fill = rb.fill + len ∧
      r.rb.write ≤ rb.size ∧ (rb.write + len) % rb.size = r.rb.write % rb.size ∧
      Stored rb.size rb.buffer r.rb.buffer rb.write buf len ∧ ∀ c ∈ r.copied, c.Inside := by
  have hw := hcyc.write_le
  have hsize := hcyc.size_le
  by_cases h : rb.write < rb.read ∨ rb.write + len ≤ rb.size
  · have hend : rb.write + len ≤ rb.size := by
      rcases h with hlt | hend
      · have := hcyc.room_eq_gap hlt
        have := hcyc.read_le
        omega
      · exact hend
    rw [ringbufferWrite_straight hcyc buf len hfit h]
    refine ⟨rfl, rfl, rfl, rfl, hend, rfl, stored_memcpy _ _ hend, ?_⟩
    simp only [List.mem_singleton, forall_eq, RingRange.Inside]
    omega
  · obtain ⟨hge, hover⟩ := not_or.mp h
    rw [ringbufferWrite_split hcyc buf len hfit (by omega) (by omega)]
    have hlen : len = rb.size - rb.write + (len - (rb.size - rb.write)) := by omega
    refine ⟨rfl, rfl, rfl, rfl, by simp only; omega, ?_, ?_, ?_⟩
    · simp only
      rw [show rb.write + len = rb.size + (len - (rb.size - rb.write)) by omega, Nat.add_mod_left]
    · have hst := stored_memcpy_split rb.buffer buf rb.size rb.write
        (rb.size - rb.write) (len - (rb.size - rb.write)) (by omega) (by omega)
      rwa [← hlen] at hst
    · simp only [List.mem_cons, List.not_mem_nil, or_false, forall_eq_or_imp, forall_eq,
        RingRange.Inside]
      omega

/-- **A write that fits** appends its bytes behind the stored ones, wherever
the two pointers stand, and keeps their relation to `fill`. -/
theorem ringbufferWrite_appends {rb : Ringbuffer} (hcyc : rb.Cyclic) (buf : Mem) {len : Nat}
    (hfit : len ≤ rb.size - rb.fill) :
    (ringbufferWrite rb buf len).rb.Cyclic ∧
      (ringbufferWrite rb buf len).rb.contents = rb.contents ++ slice buf 0 len := by
  obtain ⟨-, hsize, hread, hfill, hwrite, hmod, hst, -⟩ := ringbufferWrite_laid hcyc buf hfit
  have hle := hcyc.fill_le
  refine ⟨⟨?_, ?_, ?_, ?_, ?_⟩, ?_⟩
  · rw [hsize]; exact hcyc.size_le
  · rw [hsize, hfill]; omega
  · rw [hsize, hread]; exact hcyc.read_le
  · rw [hsize]; exact hwrite
  · rw [hsize, hread, hfill, ← hmod, ← Nat.add_assoc, Nat.add_mod, hcyc.dist, ← Nat.add_mod]
  · unfold Ringbuffer.contents
    rw [hsize, hread, hfill]
    exact window_of_stored hst hcyc.dist (by omega)

/-- **A write that fits** returns its length, appends the bytes and keeps the
buffer well formed. -/
theorem ringbufferWrite_spec {rb : Ringbuffer} (hwf : rb.Wf) (buf : Mem) (len : Nat)
    (hfit : len ≤ rb.size - rb.fill) :
    (ringbufferWrite rb buf len).ret = len ∧ (ringbufferWrite rb buf len).rb.Wf ∧
      (ringbufferWrite rb buf len).rb.contents = rb.contents ++ slice buf 0 len := by
  obtain ⟨hret, hsize, -⟩ := ringbufferWrite_laid hwf.cyclic buf hfit
  obtain ⟨hcyc, hcont⟩ := ringbufferWrite_appends hwf.cyclic buf hfit
  exact ⟨hret, hcyc.wf (hsize.trans hwf.size_eq), hcont⟩

/-- **All or nothing**: a write that fits stores the whole block behind the
bytes not yet read, and one that does not fit changes nothing. -/
theorem ringbufferWrite_all_or_nothing {rb : Ringbuffer} (hcyc : rb.Cyclic) (buf : Mem)
    (len : Nat) :
    let r := ringbufferWrite rb buf len
    (len ≤ rb.size - rb.fill →
      r.rb.contents = rb.contents ++ slice buf 0 len ∧ r.rb.Cyclic ∧
        r.rb.fill = rb.fill + len ∧ r.rb.read = rb.read ∧ r.rb.size = rb.size ∧ r.ret = len) ∧
      (¬ len ≤ rb.size - rb.fill → r.rb = rb ∧ r.ret = 0) := by
  refine ⟨fun hfit => ?_, fun hover => ?_⟩
  · obtain ⟨hret, hsize, hread, hfill, -⟩ := ringbufferWrite_laid hcyc buf hfit
    obtain ⟨hcyc', hcont⟩ := ringbufferWrite_appends hcyc buf hfit
    exact ⟨hcont, hcyc', hfill, hread, hsize, hret⟩
  · rw [ringbufferWrite_refused buf (Nat.lt_of_not_le hover)]
    exact ⟨rfl, rfl⟩

theorem ringbufferWrite_all_or_nothing_at_end :
    let rb : Ringbuffer := ⟨fun _ => 1, RINGBUFFER_SIZE, 2, 4998, RINGBUFFER_SIZE⟩
    let r := ringbufferWrite rb (fun _ => 7) 2
    r.rb.contents = rb.contents ++ slice (fun _ => 7) 0 2 ∧ r.rb.Cyclic ∧
      r.rb.fill = 4 ∧ r.rb.read = 4998 ∧ r.rb.size = RINGBUFFER_SIZE ∧ r.ret = 2 :=
  (ringbufferWrite_all_or_nothing ⟨le_rfl, by decide, by decide, by decide, rfl⟩ _ 2).1
    (by decide)

/-! ## Reading -/

/-- `ringbuffer_read` refuses more than is stored, and changes nothing. -/
theorem ringbufferRead_refused {rb : Ringbuffer} (buf : Mem) {len : Nat} (h : rb.fill < len) :
    ringbufferRead rb buf len = { rb := rb, buf := buf, ret := 0, copied := [] } := by
  rw [ringbufferRead, if_neg (by omega)]

/-- With coinciding pointers a read only takes its length off `fill`. -/
theorem ringbufferRead_coinciding {rb : Ringbuffer} {buf : Mem} {len : Nat}
    (hlen : len ≤ rb.fill) (heq : rb.read = rb.write) :
    ringbufferRead rb buf len
      = { rb := { rb with fill := rb.fill - len }, buf := buf, ret := len, copied := [] } := by
  rw [ringbufferRead, if_pos hlen, if_neg (by omega), if_neg (by omega)]

/-- The read that needs one copy. -/
theorem ringbufferRead_straight {rb : Ringbuffer} (hwf : rb.Wf) (buf : Mem) (len : Nat)
    (hlen : len ≤ rb.fill) (h : rb.read < rb.write ∨ rb.write < rb.read ∧ rb.read + len ≤ rb.size) :
    ringbufferRead rb buf len
      = { rb := { rb with read := rb.read + len, fill := rb.fill - len }
          buf := memcpy buf 0 rb.buffer rb.read len
          ret := len
          copied := [⟨rb.read, len⟩] } := by
  have hr := hwf.read_le
  have hlen1 : (rb.size : Int) - 1 - rb.read + 1 = rb.size - rb.read := by omega
  rw [ringbufferRead, if_pos hlen]
  split
  · rfl
  · rw [if_pos (by omega)]
    simp only [hlen1, uintOfInt_distance hwf.size_eq.le hr]
    rw [if_pos (by omega)]

/-- The read that runs over the end and goes on at the front. -/
theorem ringbufferRead_split {rb : Ringbuffer} (hwf : rb.Wf) (buf : Mem) {len : Nat}
    (hlen : len ≤ rb.fill) (hlt : rb.write < rb.read) (h : rb.size < rb.read + len) :
    ringbufferRead rb buf len
      = { rb := { rb with read := len - (rb.size - rb.read), fill := rb.fill - len }
          buf := memcpy (memcpy buf 0 rb.buffer rb.read (rb.size - rb.read)) (rb.size - rb.read)
            rb.buffer 0 (len - (rb.size - rb.read))
          ret := len
          copied := [⟨rb.read, rb.size - rb.read⟩, ⟨0, len - (rb.size - rb.read)⟩] } := by
  have hr := hwf.read_le
  have hlen1 : (rb.size : Int) - 1 - rb.read + 1 = rb.size - rb.read := by omega
  have htoNat : ((rb.size : Int) - rb.read).toNat = rb.size - rb.read := by omega
  rw [ringbufferRead, if_pos hlen, if_neg (by omega), if_pos hlt]
  simp only [hlen1, uintOfInt_distance hwf.size_eq.le hr, htoNat]
  rw [if_neg (by omega)]

/-- With `read` behind `write` the contents end before the buffer does. -/
theorem Ringbuffer.Wf.contents_inside {rb : Ringbuffer} (hwf : rb.Wf) (hlt : rb.read < rb.write) :
    rb.read + rb.fill ≤ rb.size := by
  obtain ⟨hsize, hfill, hread, hwrite, hdist⟩ := hwf
  unfold RINGBUFFER_SIZE at hsize
  rw [hsize] at *
  omega

/-- Neither empty nor full, the two pointers differ. -/
theorem Ringbuffer.Wf.read_ne_write {rb : Ringbuffer} (hwf : rb.Wf) (hpos : 0 < rb.fill)
    (hlt : rb.fill < rb.size) : rb.read ≠ rb.write := by
  intro heq
  have hdist := hwf.dist
  rw [heq, ← Nat.add_zero rb.write, Nat.add_assoc, Nat.zero_add] at hdist
  exact add_mod_ne_add_mod hpos (by omega) hdist.symm

/-- **A read with distinct pointers** returns its length, hands over the oldest
bytes, drops them, and keeps the buffer well formed and its copies inside. -/
theorem ringbufferRead_spec {rb : Ringbuffer} (hwf : rb.Wf) (buf : Mem) (len : Nat)
    (hlen : len ≤ rb.fill) (hne : rb.read ≠ rb.write) :
    let r := ringbufferRead rb buf len
    r.ret = len ∧ r.rb.Wf ∧ r.rb.contents = rb.contents.drop len ∧
      r.buf = memcpy buf 0 (memOfList rb.contents) 0 len ∧ ∀ c ∈ r.copied, c.Inside := by
  have hdrop : rb.contents.drop len = window rb.buffer rb.size (rb.read + len) (rb.fill - len) :=
    drop_window _ _ _ hlen
  have hr := hwf.read_le
  have hsize := hwf.size_eq
  have hfill := hwf.fill_le
  by_cases h : rb.read < rb.write ∨ rb.write < rb.read ∧ rb.read + len ≤ rb.size
  · have hend : rb.read + len ≤ rb.size := by
      rcases h with hlt | ⟨-, hend⟩
      · have := hwf.contents_inside hlt
        omega
      · exact hend
    rw [ringbufferRead_straight hwf buf len hlen h]
    refine ⟨rfl, ⟨hsize, ?_, hend, hwf.write_le, ?_⟩, hdrop.symm, memcpy_eq_window _ _ hlen hend, ?_⟩
    · simp only; omega
    · simp only
      rw [show rb.read + len + (rb.fill - len) = rb.read + rb.fill by omega]
      exact hwf.dist
    · simp only [List.mem_singleton, forall_eq, RingRange.Inside]
      omega
  · rw [ringbufferRead_split hwf buf hlen (by omega) (by omega)]
    have hlen' : len = rb.size - rb.read + (len - (rb.size - rb.read)) := by omega
    have hmod : (rb.read + len) % rb.size = (len - (rb.size - rb.read)) % rb.size := by
      rw [show rb.read + len = rb.size + (len - (rb.size - rb.read)) by omega, Nat.add_mod_left]
    refine ⟨rfl, ⟨hsize, ?_, ?_, hwf.write_le, ?_⟩, ?_, ?_, ?_⟩
    · simp only; omega
    · simp only; omega
    · simp only
      rw [Nat.add_mod, ← hmod, ← Nat.add_mod,
        show rb.read + len + (rb.fill - len) = rb.read + rb.fill by omega]
      exact hwf.dist
    · rw [hdrop]
      exact window_start_mod _ _ hmod.symm
    · have hcopy := memcpy_split_eq_window buf rb.buffer rb.size rb.read
        (rb.size - rb.read) (len - (rb.size - rb.read)) rb.fill
        (by omega) (by omega) (by omega)
      rwa [← hlen'] at hcopy
    · simp only [List.mem_cons, List.not_mem_nil, or_false, forall_eq_or_imp, forall_eq,
        RingRange.Inside]
      omega

/-- A read of everything leaves a well-formed buffer, also where the pointers
coincide and the bytes are lost. -/
theorem ringbufferRead_all_wf {rb : Ringbuffer} (hwf : rb.Wf) (buf : Mem)
    (heq : rb.read = rb.write) : (ringbufferRead rb buf rb.fill).rb.Wf := by
  rw [ringbufferRead_coinciding le_rfl heq]
  refine ⟨hwf.size_eq, ?_, hwf.read_le, hwf.write_le, ?_⟩
  · simp only; omega
  · simp only; rw [Nat.sub_self, Nat.add_zero, heq]

/-! ## Refinement of the byte queue -/

/-- The call is not a read that should copy bytes but finds the pointers
coinciding: on a full buffer with `read = write` the code copies nothing. -/
def ReadCopies (rb : Ringbuffer) : RingCall → Prop
  | .read _ len => rb.read = rb.write → len ≤ rb.fill → len = 0
  | _ => True

/-- The ring buffer stores exactly the queue `q`. -/
structure RingStores (rb : Ringbuffer) (q : List UInt8) : Prop where
  wf : rb.Wf
  contents_eq : rb.contents = q

/-- A copy of no bytes changes nothing. -/
theorem memcpy_zero (dst : Mem) (d : Nat) (src : Mem) (s : Nat) : memcpy dst d src s 0 = dst := by
  funext i
  exact memcpy_outside _ _ _ _ _ (by omega)

theorem ringCall_write_refines {rb : Ringbuffer} {q : List UInt8} (hR : RingStores rb q)
    (buf : Mem) (len : Nat) :
    (ringCall rb (.write buf len)).2 = (fifoCall RINGBUFFER_SIZE q (.write buf len)).2 ∧
      RingStores (ringCall rb (.write buf len)).1
        (fifoCall RINGBUFFER_SIZE q (.write buf len)).1 := by
  obtain ⟨hwf, rfl⟩ := hR
  simp only [ringCall, fifoCall, length_contents, ← hwf.size_eq]
  by_cases hfit : len ≤ rb.size - rb.fill
  · obtain ⟨hret, hwf', hcont⟩ := ringbufferWrite_spec hwf buf _ hfit
    rw [if_pos hfit]
    exact ⟨by rw [hret], hwf', hcont⟩
  · rw [if_neg hfit, ringbufferWrite_refused buf (by omega)]
    exact ⟨rfl, hwf, rfl⟩

theorem ringCall_read_refines {rb : Ringbuffer} {q : List UInt8} (hR : RingStores rb q)
    (buf : Mem) {len : Nat} (hok : ReadCopies rb (.read buf len)) :
    (ringCall rb (.read buf len)).2 = (fifoCall RINGBUFFER_SIZE q (.read buf len)).2 ∧
      RingStores (ringCall rb (.read buf len)).1 (fifoCall RINGBUFFER_SIZE q (.read buf len)).1 := by
  obtain ⟨hwf, rfl⟩ := hR
  simp only [ringCall, fifoCall, length_contents]
  by_cases hlen : len ≤ rb.fill
  · rw [if_pos hlen]
    by_cases heq : rb.read = rb.write
    · obtain rfl : len = 0 := hok heq hlen
      rw [ringbufferRead_coinciding hlen heq]
      exact ⟨by simp only [memcpy_zero], hwf, by simp⟩
    · obtain ⟨hret, hwf', hcont, hbuf, -⟩ := ringbufferRead_spec hwf buf _ hlen heq
      exact ⟨by rw [hret, hbuf], hwf', hcont⟩
  · rw [if_neg hlen, ringbufferRead_refused buf (by omega)]
    exact ⟨rfl, hwf, rfl⟩

/-- **One call refines one call of the queue**, unless it is a read that
copies nothing. -/
theorem ringCall_refines {rb : Ringbuffer} {q : List UInt8} (hR : RingStores rb q) {c : RingCall}
    (hok : ReadCopies rb c) :
    (ringCall rb c).2 = (fifoCall RINGBUFFER_SIZE q c).2 ∧
      RingStores (ringCall rb c).1 (fifoCall RINGBUFFER_SIZE q c).1 := by
  cases c with
  | write buf len => exact ringCall_write_refines hR buf len
  | read buf len => exact ringCall_read_refines hR buf hok
  | clear => exact ⟨rfl, ringbufferClear_wf rb, rfl⟩
  | currentSize =>
    obtain ⟨hwf, rfl⟩ := hR
    exact ⟨by simp [ringCall, fifoCall, ringbufferCurrentSize], hwf, rfl⟩
  | empty =>
    obtain ⟨hwf, rfl⟩ := hR
    refine ⟨?_, hwf, rfl⟩
    simp [ringCall, fifoCall, ringbufferEmpty, ← List.length_eq_zero_iff, eq_comm (a := 0)]
  | full =>
    obtain ⟨hwf, rfl⟩ := hR
    refine ⟨?_, hwf, rfl⟩
    simp [ringCall, fifoCall, ringbufferFull, hwf.size_eq, eq_comm]

/-- **Every run of calls in which no read is made on coinciding pointers is a
run of the byte queue**: the same answers, and the queue as contents. -/
theorem ringMachine_fifo (heap : Mem) (calls : List RingCall)
    (hok : Machine.Along ringMachine ReadCopies (ringbufferInit heap) calls) :
    ∃ rb answers, Machine.run ringMachine (ringbufferInit heap) calls = some (rb, answers) ∧
      Machine.run (fifoMachine RINGBUFFER_SIZE) [] calls = some (rb.contents, answers) := by
  have hstep : ∀ rb q c, RingStores rb q → ReadCopies rb c →
      ∃ rb' q' o, ringMachine rb c = some (rb', o) ∧
        fifoMachine RINGBUFFER_SIZE q (id c) = some (q', o) ∧ RingStores rb' q' := by
    intro rb q c hR hc
    obtain ⟨hans, hR'⟩ := ringCall_refines hR hc
    refine ⟨(ringCall rb c).1, (fifoCall RINGBUFFER_SIZE q c).1, (ringCall rb c).2, rfl, ?_, hR'⟩
    rw [hans]
    rfl
  obtain ⟨rb, q, answers, hrun, hfifo, hR⟩ := Machine.run_refines RingStores ReadCopies hstep
    (f := id) ⟨ringbufferInit_wf heap, contents_init heap⟩ hok
  rw [List.map_id] at hfifo
  exact ⟨rb, answers, hrun, by rw [hR.contents_eq]; exact hfifo⟩

/-- A caller's block for the runs below: all bytes are `7`. -/
def sevens : Mem := fun _ => 7

/-- A caller's block for the runs below: the bytes count up. -/
def counting : Mem := fun k => UInt8.ofNat k

theorem ringMachine_fifo_put_take : ∃ rb answers,
    Machine.run ringMachine (ringbufferInit sevens) [.write counting 3, .read sevens 2]
        = some (rb, answers) ∧
      Machine.run (fifoMachine RINGBUFFER_SIZE) [] [.write counting 3, .read sevens 2]
        = some (rb.contents, answers) := by
  refine ringMachine_fifo sevens _ ⟨trivial, fun t o hstep => ⟨?_, fun _ _ _ => trivial⟩⟩
  have hput := ringbufferWrite_straight (ringbufferInit_wf sevens).cyclic counting 3
    (by simp [ringbufferInit, RINGBUFFER_SIZE])
    (Or.inr (by simp [ringbufferInit, RINGBUFFER_SIZE]))
  simp only [ringMachine, ringCall, hput, Option.some.injEq, Prod.mk.injEq] at hstep
  intro heq
  rw [← hstep.1] at heq
  simp [ringbufferInit] at heq

/-! ### A run on which the queue is lost

Filling the buffer, taking one byte and putting one back leaves it full with
both pointers at offset 1; the next read copies nothing. -/

/-- Fill the buffer, take one byte, put one back. -/
def wrapToFull : List RingCall :=
  [.write counting RINGBUFFER_SIZE, .read sevens 1, .write counting 1]

/-- After `wrapToFull` the buffer is full and its pointers coincide. -/
theorem run_wrapToFull (heap : Mem) : ∃ rb answers,
    Machine.run ringMachine (ringbufferInit heap) wrapToFull = some (rb, answers) ∧
      rb.size = RINGBUFFER_SIZE ∧ rb.fill = RINGBUFFER_SIZE ∧ rb.read = 1 ∧ rb.write = 1 := by
  have hS : RINGBUFFER_SIZE = 5000 := rfl
  have hwf0 := ringbufferInit_wf heap
  -- fill it
  have hwf1 := (ringbufferWrite_spec hwf0 counting RINGBUFFER_SIZE le_rfl).2.1
  have h1 := ringbufferWrite_straight hwf0.cyclic counting RINGBUFFER_SIZE le_rfl
    (Or.inr (Nat.zero_add _).le)
  rw [h1] at hwf1
  -- take one byte
  have hwf2 := (ringbufferRead_spec hwf1 sevens 1 (by simp [ringbufferInit, hS])
    (by simp [ringbufferInit, hS])).2.1
  have h2 := ringbufferRead_straight hwf1 sevens 1 (by simp [ringbufferInit, hS])
    (Or.inl (by simp [ringbufferInit, hS]))
  rw [h2] at hwf2
  -- put one back
  have h3 := ringbufferWrite_split hwf2.cyclic counting 1 (by simp [ringbufferInit, hS])
    (by simp [ringbufferInit, hS]) (by simp [ringbufferInit, hS])
  simp only [wrapToFull, Machine.run, ringMachine, ringCall, h1, h2, h3]
  exact ⟨_, _, rfl, rfl, by simp [ringbufferInit, hS], by simp [ringbufferInit],
    by simp [ringbufferInit]⟩

/-- The queue holds `1` in front after the same calls. -/
theorem fifo_wrapToFull : ∃ q answers,
    Machine.run (fifoMachine RINGBUFFER_SIZE) [] wrapToFull = some (1 :: q, answers) := by
  have hS : RINGBUFFER_SIZE = 4998 + 1 + 1 := rfl
  have hfront : slice counting 0 RINGBUFFER_SIZE = 0 :: 1 :: slice counting 2 4998 := by
    rw [hS, slice_succ, slice_succ]
    rfl
  have hfull : 1 ≤ 4998 + 1 + 1 := by omega
  have hroom : 1 ≤ RINGBUFFER_SIZE - (4998 + 1) := by rw [hS]
  simp only [wrapToFull, Machine.run, fifoMachine, fifoCall, List.length_nil, Nat.sub_zero, le_rfl,
    if_true, List.nil_append, hfront, List.length_cons, length_slice, List.drop_one, List.tail_cons,
    hfull, hroom]
  exact ⟨_, _, rfl⟩

/-- The run of `wrapToFull` and one more read of one byte: the caller's block
is left as it was, where the queue hands over `1`. -/
theorem ringMachine_not_fifo : ¬ ∀ (heap : Mem) (calls : List RingCall),
    ∃ rb answers, Machine.run ringMachine (ringbufferInit heap) calls = some (rb, answers) ∧
      Machine.run (fifoMachine RINGBUFFER_SIZE) [] calls = some (rb.contents, answers) := by
  intro h
  obtain ⟨rb, answers, hrun, hfifo⟩ := h sevens (wrapToFull ++ [.read sevens 1])
  obtain ⟨rb3, os, ps, hrun3, hread, rfl⟩ := Machine.run_append_eq_some hrun
  obtain ⟨q3, os', ps', hfifo3, hread', heq⟩ := Machine.run_append_eq_some hfifo
  obtain ⟨rb4, os4, h3, -, hfill, hr, hw⟩ := run_wrapToFull sevens
  obtain ⟨q, os5, h4⟩ := fifo_wrapToFull
  rw [hrun3] at h3
  cases h3
  rw [hfifo3] at h4
  cases h4
  obtain ⟨t, o, os6, hstep, hnil, rfl⟩ := Machine.run_cons_eq_some.mp hread
  obtain ⟨t', o', os7, hstep', hnil', rfl⟩ := Machine.run_cons_eq_some.mp hread'
  cases hnil
  cases hnil'
  have hlast : o = o' := by
    have := congrArg List.getLast? heq
    simpa using this
  have hlen : 1 ≤ rb3.fill := by rw [hfill]; decide
  simp only [ringMachine, ringCall, ringbufferRead_coinciding hlen (hr.trans hw.symm),
    Option.some.injEq, Prod.mk.injEq] at hstep
  simp only [fifoMachine, fifoCall, List.length_cons, Nat.le_add_left, if_true,
    Option.some.injEq, Prod.mk.injEq] at hstep'
  rw [← hstep.2, ← hstep'.2] at hlast
  have := congrArg (fun a : RingAnswer => (a.buf.getD sevens) 0) hlast
  simp [sevens, memcpy, memOfList] at this

/-! ## Memory safety -/

/-- The call is not a read of a part of the contents that finds the pointers
coinciding: such a read leaves `fill` and the pointers at odds. -/
def ReadKeepsDistance (rb : Ringbuffer) : RingCall → Prop
  | .read _ len => rb.read = rb.write → len ≤ rb.fill → len = 0 ∨ len = rb.fill
  | _ => True

/-- **One call keeps the buffer well formed**, unless it is a partial read on
coinciding pointers. -/
theorem ringCall_wf {rb : Ringbuffer} (hwf : rb.Wf) {c : RingCall} (hok : ReadKeepsDistance rb c) :
    (ringCall rb c).1.Wf := by
  cases c with
  | write buf len =>
    by_cases hfit : len ≤ rb.size - rb.fill
    · exact (ringbufferWrite_spec hwf buf _ hfit).2.1
    · simp only [ringCall, ringbufferWrite_refused buf (Nat.lt_of_not_le hfit)]
      exact hwf
  | read buf len =>
    by_cases hlen : len ≤ rb.fill
    · by_cases heq : rb.read = rb.write
      · rcases hok heq hlen with rfl | rfl
        · simp only [ringCall, ringbufferRead_coinciding hlen heq]
          exact hwf
        · exact ringbufferRead_all_wf hwf buf heq
      · exact (ringbufferRead_spec hwf buf _ hlen heq).2.1
    · simp only [ringCall, ringbufferRead_refused buf (Nat.lt_of_not_le hlen)]
      exact hwf
  | clear => exact ringbufferClear_wf rb
  | currentSize => exact hwf
  | empty => exact hwf
  | full => exact hwf

/-- **Every copy of a call on a well-formed buffer stays inside it**: with
coinciding pointers a read makes no copy at all. -/
theorem ringCopies_inside {rb : Ringbuffer} (hwf : rb.Wf) (c : RingCall) :
    ∀ r ∈ ringCopies rb c, r.Inside := by
  cases c with
  | write buf len =>
    by_cases hfit : len ≤ rb.size - rb.fill
    · exact (ringbufferWrite_laid hwf.cyclic buf hfit).2.2.2.2.2.2.2
    · simp [ringCopies, ringbufferWrite_refused buf (Nat.lt_of_not_le hfit)]
  | read buf len =>
    by_cases hlen : len ≤ rb.fill
    · by_cases heq : rb.read = rb.write
      · simp [ringCopies, ringbufferRead_coinciding hlen heq]
      · exact (ringbufferRead_spec hwf buf _ hlen heq).2.2.2.2
    · simp [ringCopies, ringbufferRead_refused buf (Nat.lt_of_not_le hlen)]
  | _ => simp [ringCopies]

/-- The calls after which a buffer whose `fill` has fallen behind its pointers
is written past its end: put back `len` bytes, take a full buffer, fill it. -/
def pastTheEnd (buf : Mem) (len : Nat) : List RingCall :=
  [.write buf len, .read buf RINGBUFFER_SIZE]

/-- With `read = write` and `0 < fill < size` the write of the missing bytes
puts `write` strictly between `0` and the place the next full read leaves
`read` at, with nothing stored. -/
theorem run_pastTheEnd (rb : Ringbuffer) (hsize : rb.size = RINGBUFFER_SIZE)
    (hpos : 0 < rb.fill) (hlt : rb.fill < rb.size) (heq : rb.read = rb.write)
    (hin : rb.write ≤ rb.size) (buf : Mem) :
    ∃ rb' answers, Machine.run ringMachine rb (pastTheEnd buf (rb.size - rb.fill))
        = some (rb', answers) ∧
      rb'.size = RINGBUFFER_SIZE ∧ rb'.fill = 0 ∧ 0 < rb'.write ∧ rb'.write < rb'.read := by
  have hS : RINGBUFFER_SIZE = 5000 := rfl
  obtain ⟨buffer, size, fill, read, write⟩ := rb
  simp only at hsize hpos hlt heq hin ⊢
  subst heq hsize
  have hlen1 : ((RINGBUFFER_SIZE : Nat) : Int) - read = ((RINGBUFFER_SIZE - read : Nat) : Int) := by
    omega
  have hlen1' : ((RINGBUFFER_SIZE : Nat) : Int) - 1 - read + 1
      = ((RINGBUFFER_SIZE - read : Nat) : Int) := by omega
  have huint : uintOfInt ((RINGBUFFER_SIZE - read : Nat) : Int) = RINGBUFFER_SIZE - read := by
    rw [uintOfInt_of_nonneg (by omega) (by omega), Int.toNat_natCast]
  have hfull : fill + (RINGBUFFER_SIZE - fill) = RINGBUFFER_SIZE := by omega
  simp only [pastTheEnd, Machine.run, ringMachine, ringCall]
  refine ⟨_, _, rfl, ?_⟩
  unfold ringbufferWrite
  simp only [Nat.lt_irrefl, if_false, ge_iff_le, le_rfl, if_true, hlen1, huint, Int.toNat_natCast]
  by_cases hend : RINGBUFFER_SIZE - fill ≤ RINGBUFFER_SIZE - read
  · -- the missing bytes fit behind `write`: the full read runs over the end
    rw [if_pos hend, ringbufferRead, if_pos (by simp only; omega), if_pos (by simp only; omega)]
    exact ⟨rfl, by simp only; omega, by simp only; omega, by simp only; omega⟩
  · -- they wrap: the full read goes once round and comes back to where it began
    rw [if_neg hend, ringbufferRead, if_pos (by simp only; omega), if_neg (by simp only; omega),
      if_pos (by simp only; omega)]
    simp only [hlen1', huint, Int.toNat_natCast]
    rw [if_neg (by omega)]
    exact ⟨rfl, by simp only; omega, by simp only; omega, by simp only; omega⟩

/-- An empty buffer whose `write` is behind its `read` is written past its end. -/
theorem write_past_end {rb : Ringbuffer} (hsize : rb.size = RINGBUFFER_SIZE) (hfill : rb.fill = 0)
    (hpos : 0 < rb.write) (hlt : rb.write < rb.read) (buf : Mem) :
    ∃ r ∈ ringCopies rb (.write buf RINGBUFFER_SIZE), ¬ r.Inside := by
  refine ⟨⟨rb.write, RINGBUFFER_SIZE⟩, ?_, ?_⟩
  · rw [ringCopies, ringbufferWrite, if_neg (by omega), if_neg (by omega)]
    simp
  · simp only [RingRange.Inside]
    omega

theorem ringMachine_read_coinciding (rb : Ringbuffer) {len : Nat} (hlen : len ≤ rb.fill)
    (heq : rb.read = rb.write) (buf : Mem) :
    ringMachine rb (.read buf len)
      = some ({ rb with fill := rb.fill - len }, { ret := len, buf := some buf }) := by
  simp only [ringMachine, ringCall, ringbufferRead_coinciding hlen heq]

/-- **One partial read on coinciding pointers opens the way out**: some later
calls, each within the limits the code checks, copy past the buffer's end. -/
theorem partial_read_leads_outside {rb : Ringbuffer} (hwf : rb.Wf) {c : RingCall}
    (hbad : ¬ ReadKeepsDistance rb c) :
    ∃ more c' rb' answers, Machine.run ringMachine rb (c :: more) = some (rb', answers) ∧
      ∃ r ∈ ringCopies rb' c', ¬ r.Inside := by
  cases c with
  | read buf len =>
    simp only [ReadKeepsDistance, Classical.not_imp, not_or] at hbad
    obtain ⟨heq, hlen, hpos, hpart⟩ := hbad
    have hfill : rb.fill = rb.size := by
      obtain ⟨hsize, hfill, hread, hwrite, hdist⟩ := hwf
      unfold RINGBUFFER_SIZE at hsize
      rw [hsize] at *
      omega
    have hstep := ringMachine_read_coinciding _ hlen heq buf
    obtain ⟨rb', answers, hrun, hsize', hfill', hpos', hlt'⟩ :=
      run_pastTheEnd { rb with fill := rb.fill - len } hwf.size_eq
        (by simp only; omega) (by simp only; omega) heq hwf.write_le buf
    exact ⟨_, .write buf RINGBUFFER_SIZE, rb', _,
      Machine.run_cons_eq_some.mpr ⟨_, _, answers, hstep, hrun, rfl⟩,
      write_past_end hsize' hfill' hpos' hlt' buf⟩
  | _ => exact absurd trivial hbad

/-- **Memory safety of runs.** While no partial read is made on coinciding
pointers, the pointers and `fill` stay in range and every copy of the next
call stays inside the buffer; the first such read can be continued to a copy
that does not. -/
theorem ringMachine_copies_inside (heap : Mem) (calls : List RingCall)
    (hok : Machine.Along ringMachine ReadKeepsDistance (ringbufferInit heap) calls) :
    ∃ rb answers, Machine.run ringMachine (ringbufferInit heap) calls = some (rb, answers) ∧
      (rb.read ≤ rb.size ∧ rb.write ≤ rb.size ∧ rb.fill ≤ rb.size ∧ rb.size = RINGBUFFER_SIZE) ∧
      (∀ c, ∀ r ∈ ringCopies rb c, r.Inside) ∧
      (∀ c, ¬ ReadKeepsDistance rb c → ∃ more c' rb' answers',
        Machine.run ringMachine rb (c :: more) = some (rb', answers') ∧
          ∃ r ∈ ringCopies rb' c', ¬ r.Inside) := by
  obtain ⟨rb, answers, hrun, hwf⟩ := Machine.run_inv_along (m := ringMachine) Ringbuffer.Wf
    ReadKeepsDistance (fun rb c hwf hc => ⟨_, _, rfl, ringCall_wf hwf hc⟩)
    (ringbufferInit_wf heap) hok
  exact ⟨rb, answers, hrun, ⟨hwf.read_le, hwf.write_le, hwf.fill_le, hwf.size_eq⟩,
    ringCopies_inside hwf, fun c hc => partial_read_leads_outside hwf hc⟩

theorem ringMachine_copies_inside_fill_drain :
    ∃ rb answers, Machine.run ringMachine (ringbufferInit sevens)
        [.write counting RINGBUFFER_SIZE, .read sevens RINGBUFFER_SIZE, .clear]
          = some (rb, answers) ∧
      (rb.read ≤ rb.size ∧ rb.write ≤ rb.size ∧ rb.fill ≤ rb.size ∧ rb.size = RINGBUFFER_SIZE) ∧
      (∀ c, ∀ r ∈ ringCopies rb c, r.Inside) ∧
      (∀ c, ¬ ReadKeepsDistance rb c → ∃ more c' rb' answers',
        Machine.run ringMachine rb (c :: more) = some (rb', answers') ∧
          ∃ r ∈ ringCopies rb' c', ¬ r.Inside) := by
  refine ringMachine_copies_inside _ _ ⟨trivial, ?_⟩
  rintro t o hstep
  refine ⟨?_, fun t' o' _ => ⟨trivial, fun _ _ _ => trivial⟩⟩
  have hwrite := ringbufferWrite_spec (ringbufferInit_wf sevens) counting
    RINGBUFFER_SIZE le_rfl
  simp only [ringMachine, ringCall, Option.some.injEq, Prod.mk.injEq] at hstep
  intro _ _
  right
  rw [← hstep.1, ← length_contents, hwrite.2.2]
  simp

/-- One byte read from the full buffer of `wrapToFull`, one put back and a full
read: the next full write starts at offset 2 and ends past the buffer. -/
theorem copies_outside_after_partial_read : ∃ rb answers,
    Machine.run ringMachine (ringbufferInit sevens)
        (wrapToFull ++ .read sevens 1 :: pastTheEnd sevens 1) = some (rb, answers) ∧
      ∃ r ∈ ringCopies rb (.write sevens RINGBUFFER_SIZE), ¬ r.Inside := by
  obtain ⟨rb, answers, hrun, hsize, hfill, hr, hw⟩ := run_wrapToFull sevens
  have hS : RINGBUFFER_SIZE = 5000 := rfl
  have hstep := ringMachine_read_coinciding rb (show 1 ≤ rb.fill by omega) (by omega) sevens
  obtain ⟨rb', answers', hrun', hsize', hfill', hpos', hlt'⟩ :=
    run_pastTheEnd { rb with fill := rb.fill - 1 } hsize (by simp only; omega)
      (by simp only; omega) (hr.trans hw.symm) (by simp only; omega) sevens
  have hone : rb.size - (rb.fill - 1) = 1 := by omega
  simp only [hone] at hrun'
  exact ⟨rb', _, Machine.run_append hrun
    (Machine.run_cons_eq_some.mpr ⟨_, _, answers', hstep, hrun', rfl⟩),
    write_past_end hsize' hfill' hpos' hlt' sevens⟩

end UbloxRead
