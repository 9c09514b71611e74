/-
# Timer descriptors

`ports/newlib/openhobbyos/pseudofd.c` and the part of `poll` in `compat_net.c` for pseudo
descriptors.  A time is not negative and has less than 10^9 nanoseconds; seconds do not overflow.
The clock of an armed timer can be read, and does not move during a call.

Left out are the flags, the clock's number, `errno` apart from the results that show it, and the
waiting: the calls are looked at with timeout 0.
-/
import Mathlib.Data.List.Basic
import Mathlib.Tactic

namespace OpenHobbyOS.Libc

open Nat hiding and_or_distrib_left
open List BitVec Option

/-! ## Times -/

/-- `struct timespec`. -/
@[ext] structure Timespec where
  sec : ℕ
  nsec : ℕ
  lt : nsec < 1000000000
  deriving DecidableEq

namespace Timespec

lemma zero_lt_billion : 0 < 1000000000 := by decide

/-- Whole seconds. -/
def seconds (n : ℕ) : Timespec := ⟨n, 0, zero_lt_billion⟩

/-- No time. -/
def zero : Timespec := seconds 0

/-- The time in nanoseconds. -/
def ns (a : Timespec) : ℕ := 1000000000 * a.sec + a.nsec

/-- `oh_timespec_cmp`. -/
def cmp (a b : Timespec) : ℤ :=
  if a.sec ≠ b.sec then (if a.sec > b.sec then 1 else 0) - (if a.sec < b.sec then 1 else 0)
  else (if a.nsec > b.nsec then 1 else 0) - (if a.nsec < b.nsec then 1 else 0)

/-- `oh_timespec_add`. -/
def add (a b : Timespec) : Timespec :=
  if h : 1000000000 ≤ a.nsec + b.nsec then
    ⟨a.sec + b.sec + 1, a.nsec + b.nsec - 1000000000, by have := a.lt; have := b.lt; omega⟩
  else ⟨a.sec + b.sec, a.nsec + b.nsec, by omega⟩

/-- `oh_timespec_sub`; a negative difference is 0. -/
def sub (a b : Timespec) : Timespec :=
  if h : a.nsec < b.nsec then
    if a.sec < b.sec + 1 then zero
    else ⟨a.sec - b.sec - 1, a.nsec + 1000000000 - b.nsec, by omega⟩
  else if a.sec < b.sec then zero
  else ⟨a.sec - b.sec, a.nsec - b.nsec, by have := a.lt; omega⟩

/-- `tv_sec == 0 && tv_nsec == 0`. -/
def isZero (a : Timespec) : Bool := a.sec = 0 && a.nsec = 0

variable (a b : Timespec)

lemma cmp_neg_iff : cmp a b < 0 ↔ a.ns < b.ns := by
  have := a.lt
  have := b.lt
  simp only [cmp, ns]
  split_ifs <;> omega

@[simp] lemma ns_zero : zero.ns = 0 := rfl

lemma ns_add : (add a b).ns = a.ns + b.ns := by
  simp only [add, ns]
  split_ifs <;> dsimp only <;> omega

lemma ns_sub : (sub a b).ns = a.ns - b.ns := by
  have := a.lt
  have := b.lt
  rw [sub]
  split_ifs <;> simp only [zero, seconds, ns] <;> omega

lemma isZero_iff : a.isZero = true ↔ a.ns = 0 := by
  simp only [isZero, ns, Bool.and_eq_true, decide_eq_true_eq]
  omega

end Timespec

/-! ## Timers -/

/-- `struct oh_timer_state`; `value` and `interval` are the two fields of its `spec`. -/
structure Timer where
  interval : Timespec
  value : Timespec
  armedAt : Timespec
  armed : Bool

/-- The counting loop of `oh_timerfd_expirations`. -/
def countLoop (now interval : Timespec) : ℕ → ℕ → Timespec → ℕ × Timespec
  | 0, expirations, deadline => (expirations, deadline)
  | fuel + 1, expirations, deadline =>
    if now.cmp deadline ≥ 0 then
      countLoop now interval fuel (expirations + 1) (deadline.add interval)
    else (expirations, deadline)

namespace Timer

/-- `first_deadline`. -/
def first (t : Timer) : Timespec := t.armedAt.add t.value

/-- `oh_timerfd_expirations`: the expirations and `*next_remaining`. -/
def expirations (t : Timer) (now : Timespec) : ℕ × Timespec :=
  if !t.armed then (0, .zero)
  else
    if now.cmp t.first < 0 then (0, t.first.sub now)
    else if !t.interval.isZero then
      let r := countLoop now t.interval (now.ns - t.first.ns + 2) 1 t.first
      (r.1 - 1, r.2.sub now)
    else (1, .zero)

/-- `oh_timerfd_settime`. -/
def settime (now value interval : Timespec) : Timer := ⟨interval, value, now, !value.isZero⟩

/-- `it_value` of `oh_timerfd_gettime`. -/
def gettime (t : Timer) (now : Timespec) : Timespec :=
  if t.armed then (t.expirations now).2 else .zero

/-- `oh_pseudofd_read` on a timer: `none` is `EINVAL`, `some 0` is `EAGAIN`. -/
def read (t : Timer) (now : Timespec) (length : ℕ) : Option ℕ × Timer :=
  if length < 8 then (none, t)
  else
    let expirations := (t.expirations now).1
    if expirations = 0 then (some 0, t)
    else (some expirations,
      if t.interval.isZero then { t with armed := false } else { t with armedAt := now })

/-- Reads of 8 bytes: the times and the counts of those that succeed. -/
def readAll (t : Timer) : List Timespec → List (Timespec × ℕ)
  | [] => []
  | now :: times =>
    match t.read now 8 with
    | (some (n + 1), t) => (now, n + 1) :: readAll t times
    | (_, t) => readAll t times

end Timer

lemma countLoop_spec (now interval deadline : Timespec) {k fuel : ℕ} (e : ℕ)
    (hfuel : k < fuel)
    (hle : ∀ j < k, deadline.ns + j * interval.ns ≤ now.ns)
    (hlt : now.ns < deadline.ns + k * interval.ns) :
    (countLoop now interval fuel e deadline).1 = e + k ∧
      (countLoop now interval fuel e deadline).2.ns = deadline.ns + k * interval.ns := by
  induction k generalizing fuel e deadline with
  | zero =>
    obtain ⟨fuel, rfl⟩ := exists_eq_succ_of_ne_zero (by omega : fuel ≠ 0)
    have hahead : ¬now.cmp deadline ≥ 0 := by
      rw [ge_iff_le, not_le, Timespec.cmp_neg_iff]
      omega
    rw [countLoop, if_neg hahead]
    simp
  | succ k ih =>
    obtain ⟨fuel, rfl⟩ := exists_eq_succ_of_ne_zero (by omega : fuel ≠ 0)
    have hreached : now.cmp deadline ≥ 0 := by
      rw [ge_iff_le, ← not_lt, Timespec.cmp_neg_iff]
      have := hle 0 (by omega)
      omega
    have hstep : ∀ j, (deadline.add interval).ns + j * interval.ns =
        deadline.ns + (j + 1) * interval.ns := by
      intro j
      rw [Timespec.ns_add, Nat.succ_mul]
      omega
    rw [countLoop, if_pos hreached]
    obtain ⟨hcount, hdeadline⟩ := ih (deadline.add interval) (e + 1)
      (lt_of_succ_lt_succ hfuel) (fun j hj => by rw [hstep]; exact hle (j + 1) (by omega))
      (by rw [hstep]; exact hlt)
    exact ⟨hcount.trans (by omega), hdeadline.trans (hstep k)⟩

namespace Timer

variable {t : Timer} {now : Timespec}

lemma expirations_disarmed (h : t.armed = false) : t.expirations now = (0, .zero) := by
  rw [expirations, h]
  rfl

lemma expirations_early (harmed : t.armed = true) (h : now.ns < t.first.ns) :
    t.expirations now = (0, t.first.sub now) := by
  rw [expirations, harmed, if_neg (by simp), if_pos ((Timespec.cmp_neg_iff _ _).mpr h)]

lemma expirations_oneShot (harmed : t.armed = true) (h : t.first.ns ≤ now.ns)
    (hp : t.interval.ns = 0) : t.expirations now = (1, .zero) := by
  rw [expirations, harmed, if_neg (by simp), if_neg (by rw [Timespec.cmp_neg_iff]; omega),
    (Timespec.isZero_iff _).mpr hp]
  rfl

/-- **The expirations of a periodic timer that is due**, and the time to the next one. -/
lemma expirations_periodic (harmed : t.armed = true) (h : t.first.ns ≤ now.ns)
    (hp : 0 < t.interval.ns) :
    (t.expirations now).1 = (now.ns - t.first.ns) / t.interval.ns + 1 ∧
      0 < (t.expirations now).2.ns := by
  have hzero : t.interval.isZero = false := by
    rw [Bool.eq_false_iff, ne_eq, Timespec.isZero_iff]
    omega
  rw [expirations, harmed, if_neg (by simp), if_neg (by rw [Timespec.cmp_neg_iff]; omega), hzero,
    if_pos (by simp)]
  have hlt := lt_div_mul_add (a := now.ns - t.first.ns) hp
  have hle := div_le_self (now.ns - t.first.ns) t.interval.ns
  have hmul := div_mul_le_self (now.ns - t.first.ns) t.interval.ns
  generalize (now.ns - t.first.ns) / t.interval.ns = q at *
  have hfuel : q + 1 < now.ns - t.first.ns + 2 := by omega
  obtain ⟨hcount, hdeadline⟩ := countLoop_spec now t.interval t.first 1 hfuel
    (fun j hj => by
      have := mul_le_mul_right t.interval.ns (le_of_lt_succ hj)
      omega)
    (by rw [Nat.succ_mul]; omega)
  refine ⟨?_, ?_⟩
  · show (countLoop _ _ _ _ _).1 - 1 = _
    omega
  · show 0 < ((countLoop _ _ _ _ _).2.sub now).ns
    rw [Timespec.ns_sub, hdeadline, Nat.succ_mul]
    omega

lemma read_early (harmed : t.armed = true) (h : now.ns < t.first.ns) :
    t.read now 8 = (some 0, t) := by
  rw [read, if_neg (by decide), expirations_early harmed h, if_pos rfl]

lemma read_periodic (harmed : t.armed = true) (h : t.first.ns ≤ now.ns)
    (hp : 0 < t.interval.ns) :
    t.read now 8 =
      (some ((now.ns - t.first.ns) / t.interval.ns + 1), { t with armedAt := now }) := by
  have hzero : t.interval.isZero = false := by
    rw [Bool.eq_false_iff, ne_eq, Timespec.isZero_iff]
    omega
  rw [read, if_neg (by decide), (expirations_periodic harmed h hp).1, hzero,
    if_neg (succ_ne_zero _), if_neg Bool.false_ne_true]

end Timer

/-! ## Counting over many reads -/

/-- For each read that finds the timer due, the time since it was armed. -/
def dueGaps (d : ℕ) : ℕ → List Timespec → List ℕ
  | _, [] => []
  | base, now :: times =>
    if base + d ≤ now.ns then (now.ns - base) :: dueGaps d now.ns times
    else dueGaps d base times

lemma readAll_spec {t : Timer} (harmed : t.armed = true) (hp : 0 < t.interval.ns)
    (times : List Timespec) :
    (t.readAll times).map (·.2) = (dueGaps t.value.ns t.armedAt.ns times).map
      (fun g => (g - t.value.ns) / t.interval.ns + 1) ∧
    (∀ s, (t.readAll times).getLast? = some s →
      s.1.ns = t.armedAt.ns + (dueGaps t.value.ns t.armedAt.ns times).sum) ∧
    ∀ g ∈ dueGaps t.value.ns t.armedAt.ns times, t.value.ns ≤ g := by
  induction times generalizing t with
  | nil => exact ⟨rfl, by simp [Timer.readAll], by simp [dueGaps]⟩
  | cons now times ih =>
    have hfirst : t.first.ns = t.armedAt.ns + t.value.ns := Timespec.ns_add _ _
    rw [Timer.readAll, dueGaps]
    by_cases hdue : t.armedAt.ns + t.value.ns ≤ now.ns
    · obtain ⟨hcounts, hlast, hgaps⟩ := ih (t := { t with armedAt := now }) harmed hp
      rw [Timer.read_periodic harmed (by omega) hp, if_pos hdue]
      refine ⟨?_, ?_, ?_⟩
      · rw [map_cons, map_cons, hcounts, hfirst, sub_add_eq]
      · intro s hs
        rw [getLast?_cons, some.injEq] at hs
        rw [sum_cons]
        cases hrest : (Timer.readAll { t with armedAt := now } times).getLast? with
        | none =>
          have hnil : (dueGaps t.value.ns now.ns times).length = 0 := by
            have := congrArg length hcounts
            rw [getLast?_eq_none_iff.mp hrest] at this
            simpa using this.symm
          rw [← hs, hrest, length_eq_zero_iff.mp hnil, sum_nil, getD_none]
          dsimp only
          omega
        | some r =>
          rw [← hs, hrest, getD_some, hlast r hrest]
          dsimp only
          omega
      · rintro g (_ | ⟨_, hg⟩)
        · omega
        · exact hgaps g hg
    · rw [Timer.read_early harmed (by omega), if_neg hdue]
      exact ih harmed hp

/-- What is left of each gap when `d` and whole periods are taken away, in sum. -/
def lateness (d p : ℕ) (gaps : List ℕ) : ℕ := (gaps.map fun g => (g - d) % p).sum

/-- The counts are one for each read and `q` for the whole periods, which with the delays and
the lateness make up the gaps. -/
lemma sum_gaps {d p : ℕ} {gaps : List ℕ} (h : ∀ g ∈ gaps, d ≤ g) :
    ∃ q, (gaps.map fun g => (g - d) / p + 1).sum = q + gaps.length ∧
      gaps.sum = gaps.length * d + p * q + lateness d p gaps := by
  induction gaps with
  | nil => exact ⟨0, rfl, by simp [lateness]⟩
  | cons g gaps ih =>
    obtain ⟨q, hcounts, hsum⟩ := ih fun g' hg' => h g' (mem_cons_of_mem _ hg')
    have hg : d ≤ g := h g mem_cons_self
    have hdiv := div_add_mod (g - d) p
    refine ⟨(g - d) / p + q, ?_, ?_⟩
    · rw [map_cons, sum_cons, hcounts, length_cons]
      omega
    · rw [sum_cons, hsum, length_cons, lateness, lateness, map_cons, sum_cons, Nat.mul_add,
        Nat.succ_mul]
      omega

/-- **Expirations over many reads.**  The `n` successful reads of a periodic timer have counted all
expirations up to the last if and only if the `n - 1` times the first delay was waited for again,
with how late the reads were, make up `n - 1` whole periods. -/
theorem timerfd_conserved_iff (now value interval : Timespec) (hd : 0 < value.ns)
    (hp : 0 < interval.ns) (times : List Timespec) :
    (∀ last, ((Timer.settime now value interval).readAll times).getLast? = some last →
      (((Timer.settime now value interval).readAll times).map (·.2)).sum =
        (last.1.ns - now.ns - value.ns) / interval.ns + 1) ↔
    (((dueGaps value.ns now.ns times).length - 1) * value.ns +
      lateness value.ns interval.ns (dueGaps value.ns now.ns times)) / interval.ns =
        (dueGaps value.ns now.ns times).length - 1 := by
  have harmed : (Timer.settime now value interval).armed = true := by
    rw [Timer.settime, Bool.not_eq_true', Bool.eq_false_iff, ne_eq, Timespec.isZero_iff]
    omega
  obtain ⟨hcounts, hlast, hgaps⟩ := readAll_spec harmed hp times
  have hlen := congrArg length hcounts
  rw [length_map, length_map] at hlen
  rw [hcounts]
  simp only [Timer.settime] at hlast hgaps hlen ⊢
  generalize dueGaps value.ns now.ns times = gaps at hlast hgaps hlen ⊢
  obtain ⟨q, hsum, htotal⟩ := sum_gaps (p := interval.ns) hgaps
  rw [hsum]
  generalize Timer.readAll _ times = reads at hlast hlen ⊢
  cases hget : reads.getLast? with
  | none =>
    -- no read succeeds
    rw [getLast?_eq_none_iff.mp hget] at hlen
    obtain rfl := length_eq_zero_iff.mp hlen.symm
    simp [lateness]
  | some last =>
    obtain ⟨m, hm⟩ : ∃ m, gaps.length = m + 1 := by
      refine exists_eq_succ_of_ne_zero fun h0 => ?_
      rw [length_eq_zero_iff.mp (hlen.trans h0)] at hget
      cases hget
    have hrest : last.1.ns - now.ns - value.ns =
        m * value.ns + lateness value.ns interval.ns gaps + interval.ns * q := by
      rw [hlast last hget, htotal, hm, Nat.succ_mul]
      omega
    simp only [some.injEq, forall_eq', hrest, add_mul_div_left _ _ hp, hm,
      Nat.add_sub_cancel]
    omega

/-- One read that succeeds is always right. -/
theorem timerfd_conserved_once :
    ((Timer.settime .zero (.seconds 2) (.seconds 2)).readAll [.seconds 7]).getLast? =
        some (.seconds 7, 3) ∧
      (((Timer.settime .zero (.seconds 2) (.seconds 2)).readAll [.seconds 7]).map (·.2)).sum =
        ((Timespec.seconds 7).ns - Timespec.zero.ns - (Timespec.seconds 2).ns) /
          (Timespec.seconds 2).ns + 1 := by
  have hlast : ((Timer.settime .zero (.seconds 2) (.seconds 2)).readAll [.seconds 7]).getLast? =
      some (.seconds 7, 3) := by decide +kernel
  refine ⟨hlast, ?_⟩
  have hsum := (timerfd_conserved_iff .zero (.seconds 2) (.seconds 2) (by decide) (by decide)
    [.seconds 7]).mpr (by decide +kernel)
  exact hsum (.seconds 7, 3) hlast

/-- Delay and period of 2 s, read after 3 s and after 6 s: each read counts one expiration, and
three were due. -/
theorem timerfd_loses :
    (Timer.settime .zero (.seconds 2) (.seconds 2)).readAll [.seconds 3, .seconds 6] =
      [(.seconds 3, 1), (.seconds 6, 1)] ∧
    ((Timespec.seconds 6).ns - (Timespec.seconds 2).ns) / (Timespec.seconds 2).ns + 1 = 3 := by
  decide +kernel

/-! ## Readiness -/

/-- `OH_PSEUDOFD_BASE`. -/
def pseudofdBase : ℤ := 0x40000000
/-- `OH_PSEUDOFD_MAX`. -/
def pseudofdMax : ℕ := 64

/-- `POLLIN`. -/
def pollin : BitVec 16 := 0x1
/-- `POLLOUT`. -/
def pollout : BitVec 16 := 0x4
/-- `EPOLLIN`. -/
def epollin : BitVec 32 := 0x1
/-- `EPOLLOUT`. -/
def epollout : BitVec 32 := 0x4
/-- `EPOLLERR`. -/
def epollerr : BitVec 32 := 0x8
/-- `EPOLLHUP`. -/
def epollhup : BitVec 32 := 0x10

/-- `struct oh_pseudofd_entry`; what the other kinds hold is not looked at. -/
inductive Entry where
  | free
  | timer (t : Timer)
  | epoll
  | signal

/-- `oh_entry_from_fd`. -/
def entryFromFd (fd : ℤ) : Option ℕ :=
  if fd < pseudofdBase ∨ pseudofdBase + pseudofdMax ≤ fd then none
  else some (fd - pseudofdBase).toNat

/-- `oh_entry_get(fd, OH_PSEUDOFD_TIMER)`. -/
def timerOf (entries : ℕ → Entry) (fd : ℤ) : Option Timer :=
  (entryFromFd fd).bind fun i =>
    match entries i with
    | .timer t => some t
    | _ => none

/-- What `poll` reports for a pseudo descriptor. -/
def pollRevents (entries : ℕ → Entry) (now : Timespec) (fd : ℤ) (events : BitVec 16) : BitVec 16 :=
  let input :=
    match timerOf entries fd with
    | some t => if events &&& pollin ≠ 0 ∧ (t.gettime now).isZero then pollin else 0
    | none => 0
  if events &&& pollout ≠ 0 then input ||| pollout else input

/-- `poll` with a pseudo descriptor; `native` is what it reports for one of the kernel's. -/
def poll (entries : ℕ → Entry) (now : Timespec) (native : ℤ → BitVec 16 → BitVec 16)
    (fds : List (ℤ × BitVec 16)) : List (BitVec 16) :=
  fds.map fun (fd, events) =>
    if fd < 0 then 0
    else if (entryFromFd fd).isSome then pollRevents entries now fd events
    else native fd events

/-- `struct oh_epoll_watch`. -/
structure Watch where
  used : Bool
  fd : ℤ
  events : BitVec 32

/-- The events of a watch that are there and asked for. -/
def available (entries : ℕ → Entry) (now : Timespec) (native : ℤ → BitVec 32) (w : Watch) :
    BitVec 32 :=
  let found :=
    if (entryFromFd w.fd).isSome then
      match timerOf entries w.fd with
      | some t => if 0 < (t.expirations now).1 then epollin else 0
      | none => 0
    else if w.events &&& epollout ≠ 0 then native w.fd ||| epollout
    else native w.fd
  found &&& (w.events ||| epollerr ||| epollhup)

/-- A pass of `oh_epoll_wait` over its watches. -/
def epollWait (entries : ℕ → Entry) (now : Timespec) (native : ℤ → BitVec 32)
    (watches : List Watch) (maxevents : ℕ) : List (Watch × BitVec 32) :=
  (watches.filterMap fun w =>
    if w.used ∧ available entries now native w ≠ 0 then some (w, available entries now native w)
    else none).take maxevents

/-- `poll` reports input in this entry of its result. -/
def PollsInput (revents : Option (BitVec 16)) : Prop := ∃ r, revents = some r ∧ r &&& pollin ≠ 0

/-- `epoll_wait` reports input on the descriptor. -/
def WaitsInput (fd : ℤ) (events : List (Watch × BitVec 32)) : Prop :=
  ∃ p ∈ events, p.1.fd = fd ∧ p.2 &&& epollin ≠ 0

/-- A read of 8 bytes gives a count. -/
def ReadsCount (t : Timer) (now : Timespec) : Prop := ∃ n, (t.read now 8).1 = some (n + 1)

section Ready

variable {entries : ℕ → Entry} {fd : ℤ} {t : Timer} {now : Timespec}

lemma isSome_of_timerOf (h : timerOf entries fd = some t) :
    (entryFromFd fd).isSome = true ∧ ¬fd < 0 := by
  cases hfd : entryFromFd fd with
  | none =>
    rw [timerOf, hfd] at h
    cases h
  | some i =>
    rw [entryFromFd] at hfd
    split_ifs at hfd with hrange
    simp only [pseudofdBase] at hrange
    exact ⟨rfl, by omega⟩

lemma pollsInput_iff (h : timerOf entries fd = some t) {native : ℤ → BitVec 16 → BitVec 16}
    {fds : List (ℤ × BitVec 16)} {k : ℕ} {events : BitVec 16} (hk : fds[k]? = some (fd, events))
    (hasks : events &&& pollin ≠ 0) :
    PollsInput (poll entries now native fds)[k]? ↔ (t.gettime now).isZero = true := by
  obtain ⟨hsome, hneg⟩ := isSome_of_timerOf h
  simp only [PollsInput, poll, getElem?_map, hk, map_some, some.injEq, if_neg hneg,
    hsome, if_true, exists_eq_left', pollRevents, h, hasks, ne_eq, not_false_eq_true, true_and]
  by_cases hzero : (t.gettime now).isZero = true
  · rw [if_pos hzero]
    exact ⟨fun _ => hzero, fun _ => by split_ifs <;> decide⟩
  · rw [if_neg hzero]
    exact ⟨fun hbit => absurd hbit (by split_ifs <;> decide), fun hz => absurd hz hzero⟩

lemma waitsInput_iff (h : timerOf entries fd = some t) {native : ℤ → BitVec 32}
    {watches : List Watch} {w : Watch} (hw : w ∈ watches) (hused : w.used = true)
    (hfd : w.fd = fd) (hasks : w.events &&& epollin ≠ 0) {maxevents : ℕ}
    (hmax : watches.length ≤ maxevents) :
    WaitsInput fd (epollWait entries now native watches maxevents) ↔
      0 < (t.expirations now).1 := by
  have hall : epollWait entries now native watches maxevents = watches.filterMap fun w =>
      if w.used ∧ available entries now native w ≠ 0 then
        some (w, available entries now native w)
      else none :=
    take_of_length_le ((length_filterMap_le _ _).trans hmax)
  have havail : ∀ w : Watch, w.fd = fd → available entries now native w =
      if 0 < (t.expirations now).1 then w.events &&& epollin else 0 := by
    rintro w rfl
    have hmask : epollin &&& (w.events ||| epollerr ||| epollhup) = w.events &&& epollin := by
      rw [and_or_distrib_left, and_or_distrib_left,
        show epollin &&& epollerr = 0#32 from rfl, show epollin &&& epollhup = 0#32 from rfl,
        BitVec.or_zero, BitVec.or_zero, BitVec.and_comm]
    simp only [available, (isSome_of_timerOf h).1, h, if_true]
    split_ifs
    · exact hmask
    · exact zero_and
  rw [hall]
  constructor
  · rintro ⟨p, hp, hpfd, hbit⟩
    obtain ⟨w', -, hw'⟩ := mem_filterMap.mp hp
    split_ifs at hw'
    cases hw'
    rw [havail w' hpfd] at hbit
    by_contra hnone
    rw [if_neg hnone] at hbit
    exact hbit zero_and
  · intro hready
    have hw' := havail w hfd
    rw [if_pos hready] at hw'
    refine ⟨(w, w.events &&& epollin), mem_filterMap.mpr ⟨w, hw, ?_⟩, hfd, ?_⟩
    · rw [hw', if_pos ⟨hused, hasks⟩]
    · rw [BitVec.and_assoc, BitVec.and_self]
      exact hasks

lemma readsCount_iff : ReadsCount t now ↔ 0 < (t.expirations now).1 := by
  rw [ReadsCount, Timer.read, if_neg (by decide)]
  constructor
  · rintro ⟨n, hn⟩
    by_contra h0
    rw [if_pos (Nat.eq_zero_of_not_pos h0)] at hn
    cases hn
  · intro hpos
    rw [if_neg hpos.ne']
    exact ⟨(t.expirations now).1 - 1, by rw [Nat.sub_add_cancel hpos]⟩

end Ready

/-- **When the three agree on a timer**: `poll`, `epoll_wait` (with room for all watches) and the
read find it ready all together or not at all if and only if it is armed and has no interval or is
not due yet. -/
theorem timer_ready_iff {entries : ℕ → Entry} {fd : ℤ} {t : Timer} (now : Timespec)
    (h : timerOf entries fd = some t) (native₁ : ℤ → BitVec 16 → BitVec 16)
    (native₂ : ℤ → BitVec 32) {fds : List (ℤ × BitVec 16)} {k : ℕ} {events : BitVec 16}
    (hk : fds[k]? = some (fd, events)) (hasks : events &&& pollin ≠ 0) {watches : List Watch}
    {w : Watch} (hw : w ∈ watches) (hused : w.used = true) (hfd : w.fd = fd)
    (hwatch : w.events &&& epollin ≠ 0) {maxevents : ℕ} (hmax : watches.length ≤ maxevents) :
    ((PollsInput (poll entries now native₁ fds)[k]? ↔
        WaitsInput fd (epollWait entries now native₂ watches maxevents)) ∧
      (WaitsInput fd (epollWait entries now native₂ watches maxevents) ↔ ReadsCount t now)) ↔
    t.armed = true ∧ (t.interval.ns = 0 ∨ now.ns < t.first.ns) := by
  rw [pollsInput_iff h hk hasks, waitsInput_iff h hw hused hfd hwatch hmax, readsCount_iff,
    Timespec.isZero_iff, Timer.gettime]
  cases harmed : t.armed with
  | false =>
    -- a disarmed timer has no time left, so `poll` takes it for ready
    rw [Timer.expirations_disarmed harmed]
    simp
  | true =>
    rw [if_pos rfl]
    rcases lt_or_ge now.ns t.first.ns with hearly | hdue
    · rw [Timer.expirations_early harmed hearly, Timespec.ns_sub]
      simp [hearly, sub_ne_zero_of_lt hearly]
    · rcases Nat.eq_zero_or_pos t.interval.ns with hzero | hpos
      · rw [Timer.expirations_oneShot harmed hdue hzero]
        simp [hzero]
      · -- what is left of a period is not 0, although expirations are there to be read
        obtain ⟨hcount, hleft⟩ := Timer.expirations_periodic harmed hdue hpos
        rw [hcount]
        simp only [hleft.ne', hpos.ne', not_lt.mpr hdue]
        simp

/-- A periodic timer, set at 0 s to 2 s and 2 s. -/
def ticking : ℕ → Entry := fun _ => .timer (.settime .zero (.seconds 2) (.seconds 2))

theorem timer_ready_early :
    (PollsInput (poll ticking (.seconds 1) (fun _ _ => 0) [(pseudofdBase, pollin)])[0]? ↔
        WaitsInput pseudofdBase (epollWait ticking (.seconds 1) (fun _ => 0)
          [⟨true, pseudofdBase, epollin⟩] 1)) ∧
      (WaitsInput pseudofdBase (epollWait ticking (.seconds 1) (fun _ => 0)
          [⟨true, pseudofdBase, epollin⟩] 1) ↔
        ReadsCount (.settime .zero (.seconds 2) (.seconds 2)) (.seconds 1)) :=
  (timer_ready_iff (.seconds 1) (show timerOf ticking pseudofdBase = some _ from rfl) _ _ rfl
    (by decide) mem_cons_self rfl rfl (by decide) (by decide)).mpr (by decide +kernel)

/-- After 3 s, `poll` says no, `epoll_wait` yes and the read succeeds; a timer that was never set is
ready for `poll` only. -/
theorem timer_disagrees :
    poll ticking (.seconds 3) (fun _ _ => 0) [(pseudofdBase, pollin)] = [0] ∧
    ((epollWait ticking (.seconds 3) (fun _ => 0) [⟨true, pseudofdBase, epollin⟩] 1).map
      (·.2)) = [epollin] ∧
    ((Timer.settime .zero (.seconds 2) (.seconds 2)).read (.seconds 3) 8).1 = some 1 ∧
    poll (fun _ => .timer (.settime .zero .zero .zero)) (.seconds 3) (fun _ _ => 0)
      [(pseudofdBase, pollin)] = [pollin] ∧
    ((Timer.settime .zero .zero .zero).read (.seconds 3) 8).1 = some 0 := by
  decide +kernel

end OpenHobbyOS.Libc
