/-
# How long `nanosleep` sleeps

A request is turned into timer ticks, rounded down, and added to the tick counter in 32 bits.
`task_wake_ready_slots` takes the difference to the counter as a signed number and reads one value
as "never".
-/
import OpenHobbyOS.Kernel.Effects
import OpenHobbyOS.Paging.Isolation
import OpenHobbyOS.Support.Division

namespace OpenHobbyOS

open Paging Support BitVec Option

namespace Kernel

lemma nanosleepTick_divide (k : Kernel) {sec nsec : ℤ} (hn : nsec < 1000000000) :
    k.nanosleepTick sec nsec =
      (let sleepTicks := sec.toNat * pitFrequency.toNat +
        (divideU64U32 (BitVec.ofNat 64 (nsec.toNat * pitFrequency.toNat)) 1000000000).toNat
      k.ticks + BitVec.ofNat 32 (if sleepTicks = 0 ∧ (sec ≠ 0 ∨ nsec ≠ 0) then 1
        else sleepTicks)) := by
  have hf : pitFrequency.toNat = 100 := rfl
  have hwide : nsec.toNat * 100 % 2 ^ 64 = nsec.toNat * 100 := Nat.mod_eq_of_lt (by omega)
  have hdivisor : (1000000000 : U32).toNat = 1000000000 := rfl
  rw [nanosleepTick, hf, toNat_divideU64U32 _ (by decide), toNat_ofNat, hwide, hdivisor,
    Nat.mod_eq_of_lt (by omega)]

/-! ## Sleeping for as long as was asked -/

/-- `m` ticks are at least the requested time. -/
def Elapsed (sec nsec m : ℕ) : Prop :=
  (sec * 1000000000 + nsec) * pitFrequency.toNat ≤ m * 1000000000

/-- The number of ticks it takes. -/
def requestTicks (sec nsec : ℕ) : ℕ :=
  sec * pitFrequency.toNat + (nsec * pitFrequency.toNat + 999999999) / 1000000000

/-- A whole number of ticks, or less than one. -/
def WholeTicks (sec nsec : ℕ) : Prop :=
  nsec * pitFrequency.toNat % 1000000000 = 0 ∨ sec = 0 ∧ nsec * pitFrequency.toNat < 1000000000

/-- While nothing else touches slot `i`, each tick up to the first at which the time has elapsed
makes it runnable exactly if it has. -/
def WakesOnTime (k : Kernel) (i : SlotId) (sec nsec : ℕ) : Prop :=
  ∀ m, (∀ j < m, ¬ Elapsed sec nsec j) → ∀ k' : Kernel, k'.slots i = k.slots i →
    k'.ticks = k.ticks + BitVec.ofNat 32 m →
    ((k'.taskWakeReadySlots.slots i).status = .runnable ↔ Elapsed sec nsec m)

lemma elapsed_iff {sec nsec m : ℕ} : Elapsed sec nsec m ↔ requestTicks sec nsec ≤ m := by
  have hf : pitFrequency.toNat = 100 := rfl
  rw [Elapsed, requestTicks, hf]
  omega

lemma before_iff {sec nsec m : ℕ} :
    (∀ j < m, ¬ Elapsed sec nsec j) ↔ m ≤ requestTicks sec nsec := by
  simp only [elapsed_iff, not_le]
  exact ⟨fun h => not_lt.mp fun hm => (h _ hm).false, fun h j hj => hj.trans_le h⟩

lemma nanosleepTick_eq (k : Kernel) {sec nsec : ℤ} (hs : 0 ≤ sec) (hn : 0 ≤ nsec)
    [Decidable (WholeTicks sec.toNat nsec.toNat)] :
    k.nanosleepTick sec nsec = k.ticks + BitVec.ofNat 32
      (if WholeTicks sec.toNat nsec.toNat then requestTicks sec.toNat nsec.toNat
      else requestTicks sec.toNat nsec.toNat - 1) := by
  have hf : pitFrequency.toNat = 100 := rfl
  rw [nanosleepTick]
  congr 2
  simp only [WholeTicks, requestTicks, hf]
  split_ifs <;> omega

lemma due_iff {k k' : Kernel} {i : SlotId} {t₀ : U32} {s m : ℕ} (hu : (k.slots i).used = true)
    (hst : (k.slots i).status = .sleeping)
    (hwake : (k.slots i).wakeTick = t₀ + BitVec.ofNat 32 s) (hslot : k'.slots i = k.slots i)
    (hticks : k'.ticks = t₀ + BitVec.ofNat 32 m) :
    (k'.taskWakeReadySlots.slots i).status = .runnable ↔
      t₀ + BitVec.ofNat 32 s ≠ taskSleepForever ∧ (2 ^ 32 * s + m - s) % 2 ^ 32 < 2 ^ 31 := by
  have hsub : (t₀ + BitVec.ofNat 32 m - (t₀ + BitVec.ofNat 32 s)).toNat =
      (2 ^ 32 * s + m - s) % 2 ^ 32 := by
    simp only [toNat_sub, toNat_add, toNat_ofNat]
    omega
  have hdue : k'.due (k'.slots i) = true ↔
      t₀ + BitVec.ofNat 32 s ≠ taskSleepForever ∧ (2 ^ 32 * s + m - s) % 2 ^ 32 < 2 ^ 31 := by
    rw [← hsub, due, hslot, hu, hst, hwake, hticks, msb_eq_decide]
    simp
  rw [← hdue, taskWakeReadySlots]
  dsimp only
  split_ifs with h
  · simp [h]
  · refine iff_of_false ?_ h
    rw [hslot, hst]
    decide

lemma sysNanosleep_sleeps {k k' : Kernel} {i : SlotId} {ptr rem : U32} {sec nsec : ℤ}
    {regs : Registers} (hactive : k.activeSlot = some i)
    (h : k.sysNanosleep ptr sec nsec rem regs = some (k', 0)) :
    0 ≤ sec ∧ 0 ≤ nsec ∧ k'.ticks = k.ticks ∧ (k'.slots i).used = true ∧
      (k'.slots i).status = .sleeping ∧ (k'.slots i).wakeTick = k.nanosleepTick sec nsec := by
  have hsleep {k₁ : Kernel} (hio : ∃ s, k₁ = { k with paging := s }) (tick : U32)
      (hk' : k₁.taskSleepCurrent regs tick 0 = k') : k'.ticks = k.ticks ∧
        (k'.slots i).used = true ∧ (k'.slots i).status = .sleeping ∧
        (k'.slots i).wakeTick = tick := by
    obtain ⟨s, rfl⟩ := hio
    have hact : ({ k with paging := s } : Kernel).activeSlot = some i := hactive
    have hused : (k.slots i).used = true := by
      rw [activeSlot] at hactive
      split at hactive
      · split_ifs at hactive with hu
        cases hactive
        exact hu
      · cases hactive
    rw [taskSleepCurrent, hact] at hk'
    subst hk'
    refine ⟨?_, ?_, ?_, ?_⟩
    · change (Kernel.slotSaveState _ i regs).ticks = k.ticks
      rw [slotSaveState_eq]
    all_goals dsimp only; rw [updSlot_slots_self]
    rw [slots_slotSaveState, if_pos rfl, hused]
  rw [sysNanosleep] at h
  split_ifs at h with hrange hneg hrem
  · have := congrArg Prod.snd (some.inj h)
    contradiction
  · have := congrArg Prod.snd (some.inj h)
    contradiction
  · refine ⟨by omega, by omega, ?_⟩
    generalize hcopy : k.copyToUser rem _ = r at h
    cases r with
    | none => cases h
    | some r =>
      obtain ⟨k₁, ok⟩ := r
      cases ok with
      | false =>
        have := congrArg Prod.snd (some.inj h)
        contradiction
      | true =>
        exact hsleep (copyToUser_eq hcopy) _ (congrArg Prod.fst (some.inj h))
  · exact ⟨by omega, by omega, hsleep ⟨k.paging, rfl⟩ _ (congrArg Prod.fst (some.inj h))⟩

/-- **`nanosleep`** is on time exactly for a whole number of ticks, up to `2 ^ 31` of them, that do
not end on the tick that stands for "never". -/
theorem nanosleep_on_time_iff {k k' : Kernel} {i : SlotId} {ptr rem : U32} {sec nsec : ℤ}
    {regs : Registers} (hactive : k.activeSlot = some i)
    (hcall : k.sysNanosleep ptr sec nsec rem regs = some (k', 0)) :
    WakesOnTime k' i sec.toNat nsec.toNat ↔
      WholeTicks sec.toNat nsec.toNat ∧ requestTicks sec.toNat nsec.toNat ≤ 2 ^ 31 ∧
        k.ticks + BitVec.ofNat 32 (requestTicks sec.toNat nsec.toNat) ≠ taskSleepForever := by
  classical
  obtain ⟨hs, hn, hticks, hu, hst, hwake⟩ := sysNanosleep_sleeps hactive hcall
  rw [nanosleepTick_eq k hs hn] at hwake
  rw [WakesOnTime]
  simp only [before_iff]
  simp only [elapsed_iff, hticks]
  generalize hN : requestTicks sec.toNat nsec.toNat = N at hwake ⊢
  -- the state in which the next `m` ticks leave the sleeper alone
  have later (m : ℕ) := @due_iff k' { k' with ticks := k.ticks + BitVec.ofNat 32 m } i k.ticks _ m
    hu hst hwake rfl rfl
  constructor
  · intro h
    have honTime (m : ℕ) (hm : m ≤ N) := (later m).symm.trans
      (h m hm { k' with ticks := k.ticks + BitVec.ofNat 32 m } rfl rfl)
    have hlast := ((honTime N le_rfl).mpr le_rfl).1
    by_cases hw : WholeTicks sec.toNat nsec.toNat
    · rw [if_pos hw] at hlast
      refine ⟨hw, not_lt.mp fun hlong => ?_, hlast⟩
      -- the tick at which the distance is `2 ^ 31 + 1`
      have hearly := (honTime (N - (2 ^ 31 + 1)) (by omega)).mp
      rw [if_pos hw] at hearly
      have := hearly ⟨hlast, by omega⟩
      omega
    · rw [if_neg hw] at hlast
      have hpos : 0 < N := by
        have hf : pitFrequency.toNat = 100 := rfl
        simp only [WholeTicks, requestTicks, hf] at hw hN
        omega
      have hearly := (honTime (N - 1) (by omega)).mp
      rw [if_neg hw] at hearly
      have := hearly ⟨hlast, by omega⟩
      omega
  · rintro ⟨hw, hshort, hnever⟩ m hm k'' hslot hticks'
    rw [if_pos hw] at hwake
    have hmN : (2 ^ 32 * N + m - N) % 2 ^ 32 < 2 ^ 31 ↔ N ≤ m := by
      rcases hm.eq_or_lt with rfl | hlt
      · simp
      · omega
    rw [due_iff hu hst hwake hslot hticks', and_iff_right hnever, hmN]

/-- A booted kernel that runs a task in slot 0. -/
def runningOne : Kernel :=
  { boot MapSystem.smallBoot MapSystem.blank with
    active := some 0
    slots := Function.update (fun _ => .zero) 0
      { TaskSlot.zero with used := true, status := .runnable } }

lemma runningOne_sleeps (sec nsec : ℤ) (hs : 0 ≤ sec) (hn : 0 ≤ nsec) (hlt : nsec < 1000000000) :
    runningOne.sysNanosleep userBase sec nsec 0 .zero =
      some (runningOne.taskSleepCurrent .zero (runningOne.nanosleepTick sec nsec) 0, 0) := by
  have hvalid : ¬ (sec < 0 ∨ nsec < 0 ∨ 1000000000 ≤ nsec) := by omega
  rw [sysNanosleep, if_neg (by decide), if_neg hvalid, if_neg (not_not_intro rfl)]

/-- One second, which is a hundred ticks. -/
theorem nanosleep_on_time_second :
    ∃ k', runningOne.sysNanosleep userBase 1 0 0 .zero = some (k', 0) ∧
      WakesOnTime k' 0 (1 : ℤ).toNat (0 : ℤ).toNat := by
  have hcall := runningOne_sleeps 1 0 (by decide) (by decide) (by decide)
  exact ⟨_, hcall, (nanosleep_on_time_iff rfl hcall).mpr ⟨.inl rfl, by decide, by decide⟩⟩

/-- Fifteen milliseconds are a tick and a half; the task is woken after one tick. -/
theorem nanosleep_early :
    ∃ k', runningOne.sysNanosleep userBase 0 15000000 0 .zero = some (k', 0) ∧
      ¬ WakesOnTime k' 0 (0 : ℤ).toNat (15000000 : ℤ).toNat := by
  have hcall := runningOne_sleeps 0 15000000 (by decide) (by decide) (by decide)
  refine ⟨_, hcall, fun h => ?_⟩
  have hbefore : ∀ j < 1, ¬ Elapsed (0 : ℤ).toNat (15000000 : ℤ).toNat j := by
    rw [before_iff]
    decide +kernel
  have hearly := (h 1 hbefore { runningOne.taskSleepCurrent .zero
    (runningOne.nanosleepTick 0 15000000) 0 with ticks := 1 } rfl (by decide +kernel)).mp
    (by decide +kernel)
  rw [elapsed_iff] at hearly
  exact absurd hearly (by decide +kernel)

end Kernel

end OpenHobbyOS
