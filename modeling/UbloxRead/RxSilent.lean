/-
UbloxRead.RxSilent — `serialPort_isRxSilent` of `serial.c` against the tick
counter of `serial_f`.

`serial_f` counts the iterations since bytes were last received in the `uint8_t`
`ticksBtwReceive`. `serialPort_isRxSilent` samples it, sleeps, samples it again
and compares; while it sleeps `serial_f` runs on. A run is the list of passes,
each with what `read` returned in the iterations during its two sleeps.

The comparison is of the two samples as `int`s, and the guard before it turns
away a first sample close to the counter's end. `serialPortIsRxSilent_iff` says
for which windows the answer is the right one. Two kinds are not: a silent
window long enough to carry the counter round (the guard leaves room for ten
iterations, `countsRight_of_le_ten`, and at the read timeout that is set forty
fit into the sleep), and a window in which bytes were received, early enough for
the counter to come back past the first sample.
-/
import UbloxRead.Memory

namespace UbloxRead

open Lib

/-- What an iteration of `serial_f` does with `ticksBtwReceive`; `r` is what
`read` returned. -/
def serialTicks (ticks : UInt8) (r : Int) : UInt8 := if 0 < r then 0 else ticks + 1

/-- The counter after some iterations. -/
def ticksAfter (ticks : UInt8) (reads : List Int) : UInt8 := reads.foldl serialTicks ticks

/-- The iterations of `serial_f` during one pass: between the two samples, and
during the sleep of a pass that does not decide. -/
structure RxPass where
  window : List Int
  pause : List Int

/-- `serialPort_isRxSilent`; no outcome while it has not decided. -/
def serialPortIsRxSilent (ticksBtwReceive : UInt8) : List RxPass → Option Int
  | [] => none
  | pass :: passes =>
      let overlapLimit : Int := 255
      let tick1 := ticksBtwReceive
      let ticksBtwReceive := ticksAfter ticksBtwReceive pass.window
      let tick2 := ticksBtwReceive
      if overlapLimit - tick1.toNat > 10 then
        if (tick2.toNat : Int) - tick1.toNat > 5 then some 1 else some (-1)
      else serialPortIsRxSilent (ticksAfter ticksBtwReceive pass.pause) passes

/-- The first sample and the window of the pass that decides. -/
def decidingPass (ticksBtwReceive : UInt8) : List RxPass → Option (UInt8 × List Int)
  | [] => none
  | pass :: passes =>
      if ticksBtwReceive < 245 then some (ticksBtwReceive, pass.window)
      else decidingPass (ticksAfter (ticksAfter ticksBtwReceive pass.window) pass.pause) passes

/-! ## What the answer is for -/

/-- No iteration received bytes. -/
def SilentWindow (window : List Int) : Prop := ∀ r ∈ window, ¬ 0 < r

instance (window : List Int) : Decidable (SilentWindow window) :=
  inferInstanceAs (Decidable (∀ r ∈ window, ¬ 0 < r))

/-- `1` for a silent window of more than 5 iterations, `-1` for any other. -/
def DetectsSilence (window : List Int) (ret : Int) : Prop :=
  (ret = 1 ↔ SilentWindow window ∧ 5 < window.length) ∧
    (¬ (SilentWindow window ∧ 5 < window.length) → ret = -1)

/-- The iterations since bytes were last received, all if none were. -/
def silentTail (reads : List Int) : Nat := (reads.reverse.takeWhile fun r => ¬ 0 < r).length

/-- The window does not mislead the samples: silent, it is short, or its length
is above 5 and does not carry past 255; with bytes received, the iterations
since then do not come back above the first sample by more than 5. -/
def CountsRight (tick1 : UInt8) (window : List Int) : Prop :=
  (SilentWindow window → window.length ≤ 5 ∨
    5 < window.length % 256 ∧ tick1.toNat + window.length % 256 ≤ 255) ∧
  (¬ SilentWindow window → silentTail window % 256 ≤ tick1.toNat + 5)

instance (tick1 : UInt8) (window : List Int) : Decidable (CountsRight tick1 window) :=
  inferInstanceAs (Decidable ((_ → _ ∨ _) ∧ (_ → _)))

/-! ## The counter -/

theorem silentTail_concat (reads : List Int) (r : Int) :
    silentTail (reads ++ [r]) = if 0 < r then 0 else silentTail reads + 1 := by
  rw [silentTail, List.reverse_concat, List.takeWhile_cons]
  by_cases h : 0 < r <;> simp [silentTail, h]

theorem silentWindow_concat (reads : List Int) (r : Int) :
    SilentWindow (reads ++ [r]) ↔ SilentWindow reads ∧ ¬ 0 < r := by
  simp [SilentWindow, or_imp, forall_and]

theorem silentTail_of_silent {reads : List Int} (h : SilentWindow reads) :
    silentTail reads = reads.length := by
  induction reads using List.reverseRecOn with
  | nil => rfl
  | append_singleton reads r ih =>
    obtain ⟨hreads, hr⟩ := (silentWindow_concat reads r).mp h
    rw [silentTail_concat, if_neg hr, ih hreads, List.length_append]
    rfl

/-- **The counter after a window**: it counts on from its start or, once bytes were
received, from 0, modulo 256. -/
theorem ticksAfter_toNat (ticks : UInt8) (reads : List Int) :
    (ticksAfter ticks reads).toNat =
      ((if SilentWindow reads then ticks.toNat else 0) + silentTail reads) % 256 := by
  induction reads using List.reverseRecOn with
  | nil =>
    have hlt := ticks.toNat_lt
    simp only [ticksAfter, List.foldl_nil, SilentWindow, List.not_mem_nil, false_implies,
      implies_true, if_true, silentTail, List.reverse_nil, List.takeWhile_nil, List.length_nil,
      Nat.add_zero]
    omega
  | append_singleton reads r ih =>
    have hfold : ticksAfter ticks (reads ++ [r]) = serialTicks (ticksAfter ticks reads) r := by
      rw [ticksAfter, List.foldl_append]
      rfl
    rw [hfold, serialTicks, silentTail_concat]
    by_cases hr : 0 < r
    · simp only [hr, if_true, silentWindow_concat, not_true_eq_false, and_false, if_false]
      rfl
    · simp only [hr, if_false, silentWindow_concat, not_false_eq_true, and_true]
      rw [UInt8.toNat_add, ih]
      simp only [UInt8.toNat_one]
      omega

/-! ## The answer -/

/-- What the deciding pass answers. -/
theorem serialPortIsRxSilent_eq (ticks : UInt8) (passes : List RxPass) :
    serialPortIsRxSilent ticks passes = (decidingPass ticks passes).map fun (tick1, window) =>
      if tick1.toNat + 5 < (ticksAfter tick1 window).toNat then 1 else -1 := by
  induction passes generalizing ticks with
  | nil => rfl
  | cons pass passes ih =>
    have hguard : (255 : Int) - ticks.toNat > 10 ↔ ticks < 245 := by
      rw [UInt8.lt_iff_toNat_lt]
      simp only [UInt8.reduceToNat]
      omega
    have hsample : ∀ n : Nat, (n : Int) - ticks.toNat > 5 ↔ ticks.toNat + 5 < n := by
      intro n
      omega
    simp only [serialPortIsRxSilent, decidingPass, hguard, hsample]
    split
    · rw [Option.map_some]
      split <;> rfl
    · exact ih _

/-- It returns once a pass starts with the counter below 245. -/
theorem serialPortIsRxSilent_isSome (ticks : UInt8) (passes : List RxPass) :
    (serialPortIsRxSilent ticks passes).isSome = (decidingPass ticks passes).isSome := by
  rw [serialPortIsRxSilent_eq, Option.isSome_map]

theorem decidingPass_lt {ticks tick1 : UInt8} {passes : List RxPass} {window : List Int}
    (h : decidingPass ticks passes = some (tick1, window)) : tick1.toNat < 245 := by
  induction passes generalizing ticks with
  | nil => cases h
  | cons pass passes ih =>
    rw [decidingPass] at h
    split at h
    · next hlt =>
      cases h
      rw [UInt8.lt_iff_toNat_lt] at hlt
      exact hlt
    · exact ih h

theorem detectsSilence_ite (window : List Int) (c : Prop) [Decidable c] :
    DetectsSilence window (if c then 1 else -1) ↔
      (c ↔ SilentWindow window ∧ 5 < window.length) := by
  unfold DetectsSilence
  by_cases hc : c <;> simp [hc]

/-- The samples of a deciding pass tell silence from reception exactly on the
windows that do not mislead them. -/
theorem detectsSilence_iff {tick1 : UInt8} (hlt : tick1.toNat < 245) (window : List Int) :
    DetectsSilence window (if tick1.toNat + 5 < (ticksAfter tick1 window).toNat then 1 else -1) ↔
      CountsRight tick1 window := by
  rw [detectsSilence_ite, ticksAfter_toNat]
  unfold CountsRight
  by_cases hsilent : SilentWindow window
  · rw [silentTail_of_silent hsilent]
    simp only [hsilent, if_true, true_and, forall_const, not_true_eq_false, false_implies, and_true]
    -- `tick1 + length`, less 256 as often as it goes round
    omega
  · simp only [hsilent, if_false, Nat.zero_add, false_and, iff_false, false_implies, true_and,
      not_false_eq_true, forall_const]
    omega

/-- **When the answer is right**: for every start of the counter and all iterations
of `serial_f`, the deciding pass answers `1` for a silent window of more than 5
iterations and `-1` otherwise exactly if the window does not mislead its
samples. -/
theorem serialPortIsRxSilent_iff (ticks : UInt8) (passes : List RxPass) {tick1 : UInt8}
    {window : List Int} (hdecides : decidingPass ticks passes = some (tick1, window)) :
    (∃ ret, serialPortIsRxSilent ticks passes = some ret ∧ DetectsSilence window ret) ↔
      CountsRight tick1 window := by
  rw [serialPortIsRxSilent_eq, hdecides, ← detectsSilence_iff (decidingPass_lt hdecides)]
  simp only [Option.map_some, Option.some.injEq, exists_eq_left']

/-- The guard leaves room for silent windows of ten iterations. -/
theorem countsRight_of_le_ten {tick1 : UInt8} (hlt : tick1.toNat < 245) {window : List Int}
    (hsilent : SilentWindow window) (hlen : window.length ≤ 10) : CountsRight tick1 window :=
  ⟨fun _ => by omega, fun h => absurd hsilent h⟩

/-- Forty silent iterations from 0. -/
theorem serialPortIsRxSilent_iff_forty :
    ∃ ret, serialPortIsRxSilent 0 [⟨List.replicate 40 0, []⟩] = some ret ∧
      DetectsSilence (List.replicate 40 0) ret :=
  (serialPortIsRxSilent_iff 0 [⟨List.replicate 40 0, []⟩] rfl).mpr (by decide)

/-- **Forty silent iterations from 244** carry the counter round to 28: the answer
is `-1`. -/
theorem serialPortIsRxSilent_wraps : ¬ ∀ (ticks : UInt8) (passes : List RxPass) (tick1 : UInt8)
    (window : List Int), decidingPass ticks passes = some (tick1, window) →
      ∃ ret, serialPortIsRxSilent ticks passes = some ret ∧ DetectsSilence window ret := by
  intro h
  obtain ⟨ret, hret, hone, -⟩ := h 244 [⟨List.replicate 40 0, []⟩] 244 (List.replicate 40 0) rfl
  have hminus : serialPortIsRxSilent 244 [⟨List.replicate 40 0, []⟩] = some (-1) := by decide
  rw [hminus] at hret
  cases hret
  exact absurd (hone.mpr (by decide)) (by decide)

-- a byte in the first of seven iterations does not show
example : serialPortIsRxSilent 0 [⟨[1, 0, 0, 0, 0, 0, 0], []⟩] = some 1 := by decide

end UbloxRead
