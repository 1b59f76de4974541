/-
UbloxRead.Capacity — what the buffers have room for.

`config.h` reckons with about 4800 bytes for all that is polled for. With its whole
payload structure of `ubx.h` for every item it is `completeSize`, 5292 bytes, and
the scratchpad and the ring buffers hold 5000. `control_never_complete`: in no run
does `rbUbxMsg_p` come to hold a full frame of every item, and in no run does one
round find them.

Frames of different items are different frames (`Carries.unique`), so together they
are as long as `completeSize` (`completeSize_le`).
-/
import Mathlib.Algebra.Order.BigOperators.Group.List
import Mathlib.Data.List.Flatten
import UbloxRead.ReceiverTheorems

namespace UbloxRead

open Lib

/-- The size of the payload structure of an item's frames: `ubx_aid_ini`,
`ubx_aid_hui`, `ubx_nav_posllh`, `ubx_aid_alm` or `ubx_aid_eph`. -/
def AckFlag.payloadSize : AckFlag → Nat
  | .ini => 48
  | .hui => 72
  | .posllh => 28
  | .alm _ => 40
  | .eph _ => 104

/-- The frame carries the item, with all of its payload structure. -/
def UbxFrame.Full (f : UbxFrame) (g : AckFlag) : Prop :=
  f.alone.Carries g ∧ g.payloadSize ≤ f.payload.length

/-- Every item has a full frame. -/
def Complete (frames : List UbxFrame) : Prop := ∀ g, ∃ f ∈ frames, f.Full g

/-- The bytes of one full frame of every item. -/
def completeSize : Nat := (allItems.map fun g => UBX_HDR_SIZE + g.payloadSize + 2).sum

theorem completeSize_eq : completeSize = 5292 := by decide

/-- A frame carries one item. -/
theorem Carries.unique {f : AcceptedFrame} {g g' : AckFlag} (h : f.Carries g) (h' : f.Carries g') :
    g = g' :=
  AckFlag.offset_inj (Option.some_inj.mp ((target_of_carries h).symm.trans (target_of_carries h')))

/-- **Frames of every item are as long as all of them together.** -/
theorem completeSize_le {frames : List UbxFrame} (h : Complete frames) :
    completeSize ≤ (frames.flatMap UbxFrame.bytes).length := by
  choose frame hmem hfull using h
  have hinj : Function.Injective frame := fun g g' heq =>
    Carries.unique (hfull g).1 (heq ▸ (hfull g').1)
  have hsubset : allItems.map frame ⊆ frames := by
    intro f hf
    obtain ⟨g, -, rfl⟩ := List.mem_map.mp hf
    exact hmem g
  -- one frame for each item, in some order, among the frames
  obtain ⟨picked, hperm, hsub⟩ := List.subperm_of_subset (allItems_nodup.map hinj) hsubset
  calc completeSize
      ≤ (allItems.map fun g => (frame g).bytes.length).sum := by
        refine List.sum_le_sum fun g _ => ?_
        have := (hfull g).2
        rw [length_bytes, UBX_HDR_SIZE]
        omega
    _ = ((allItems.map frame).flatMap UbxFrame.bytes).length := by
        rw [List.length_flatMap, List.map_map]
        rfl
    _ = (picked.flatMap UbxFrame.bytes).length := (hperm.flatMap_right _).length_eq.symm
    _ ≤ (frames.flatMap UbxFrame.bytes).length := (hsub.flatMap _).length_le

/-- What fits in the buffers is not complete. -/
theorem not_complete {frames : List UbxFrame}
    (h : (frames.flatMap UbxFrame.bytes).length ≤ RINGBUFFER_SIZE) : ¬ Complete frames := by
  intro hcomplete
  have hle := completeSize_le hcomplete
  rw [completeSize_eq] at hle
  unfold RINGBUFFER_SIZE at h
  omega

/-- The frames of a round are no longer than its bytes. -/
theorem length_accepted_le {round : Round} (h : round.accepted = deframe round.bytes) :
    (round.accepted.flatMap UbxFrame.bytes).length ≤ round.rbSize := by
  rw [h]
  exact (ubxCodec.deframe_sublist round.bytes).length_le.trans (by rw [Round.bytes, length_slice])

/-- **The data are never complete.** In every run, whatever is received, the frames
stored in `rbUbxMsg_p` lack a full frame of some item, and so do those of every
single round. -/
theorem control_never_complete (heapIn heapMsg stack : Mem) (events : List ControlEvent) :
    ∃ c answers, ∃ stored : List UbxFrame,
      Machine.run controlMachine (prepMonitoringStruct heapIn heapMsg stack) events
        = some (c, answers) ∧
      slice c.rbUbxMsg.buffer 0 c.rbUbxMsg.fill = stored.flatMap UbxFrame.bytes ∧
      ¬ Complete stored ∧
      ∀ round ∈ roundsOf answers, ¬ Complete round.accepted := by
  obtain ⟨c, answers, hrun⟩ :=
    run_control_total (prepMonitoringStruct heapIn heapMsg stack) events
  have hholds := holdsFrames_run hrun
  refine ⟨c, answers, _, hrun, hholds.slice_eq, not_complete ?_, fun round hround => ?_⟩
  · rw [← hholds.slice_eq, length_slice, ← hholds.wf.size_eq]
    exact hholds.wf.fill_le
  · have hbytes := length_accepted_le (accepted_run hrun round hround)
    exact not_complete (hbytes.trans ((fresh_run hrun).seen round hround).1)

end UbloxRead
