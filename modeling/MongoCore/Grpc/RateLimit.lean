import Mathlib.Data.List.Count
import MongoCore.Grpc.TenantQuota

/-!
# The limit of a rate limiter

A rate limiter is documented to use a sliding window.  It counts the calls of a fixed window, which
is reset by the first call that comes at least a second after its start.  The calls that it lets
through at the end of one window and at the start of the next can be more than its limit within a
second.

The main result says for which calls there are never more: each call that is let through must leave
room for those of the window before that are less than a second old.
-/

namespace MongoCore.Grpc.TenantQuota

open MongoCore.Library.TransitionSystem

/-! ## Calls of a limiter -/

/-- A limiter with a record of its calls: the time of the last one, the times of the calls in the
window before and in the current window, and the times of the calls that were let through. -/
structure Observed where
  limiter : RateLimiter
  last : ℕ
  earlier : List ℕ
  current : List ℕ
  granted : List ℕ

/-- A limiter that was set up at some time. -/
def Observed.new (maxPerSecond start : ℕ) : Observed where
  limiter := .new maxPerSecond start
  last := start
  earlier := []
  current := []
  granted := []

/-- The calls of the window before the one that a call at some time falls into. -/
def Observed.before (observed : Observed) (time : ℕ) : List ℕ :=
  if observed.limiter.expired time then observed.current else observed.earlier

/-- The calls so far of the window that a call at some time falls into. -/
def Observed.within (observed : Observed) (time : ℕ) : List ℕ :=
  if observed.limiter.expired time then [] else observed.current

/-- A call, no earlier than the last one. -/
def call (observed : Observed) (time : ℕ) : Option Observed :=
  if time < observed.last then none
  else
    let answer := observed.limiter.tryAcquire time
    some {
      limiter := answer.2
      last := time
      earlier := observed.before time
      current := observed.within time ++ [time]
      granted := if answer.1 then observed.granted ++ [time] else observed.granted }

/-- A time is less than a second before another. -/
def recent (now time : ℕ) : Bool := now < time + nanosPerSecond

/-- The times in a half-open interval of one second. -/
def inSecond (start : ℕ) (times : List ℕ) : ℕ :=
  times.countP fun time ↦ start ≤ time ∧ time < start + nanosPerSecond

/-- In no second more calls were let through than the limit, nor does the counter exceed it. -/
def Limited (observed : Observed) : Prop :=
  (∀ start, inSecond start observed.granted ≤ observed.limiter.maxPerSecond) ∧
    observed.limiter.count ≤ observed.limiter.maxPerSecond

/-- If a call is among those that its window lets through, there is room for it beside the calls of
this window and those calls of the window before that it let through less than a second ago. -/
def Spaced (observed : Observed) (time : ℕ) : Prop :=
  observed.last ≤ time → (observed.within time).length < observed.limiter.maxPerSecond →
    ((observed.before time).take observed.limiter.maxPerSecond).countP (recent time) +
      (observed.within time).length < observed.limiter.maxPerSecond

/-! ## Intervals -/

theorem nanosPerSecond_pos : 0 < nanosPerSecond := Nat.succ_pos 999999999

/-- When a call is added to calls before it, the second that ends with it is the one that counts. -/
theorem inSecond_concat_le_iff {times : List ℕ} {time limit : ℕ} (hlast : ∀ u ∈ times, u ≤ time)
    (htimes : ∀ start, inSecond start times ≤ limit) :
    (∀ start, inSecond start (times ++ [time]) ≤ limit) ↔ times.countP (recent time) < limit := by
  have hpos := nanosPerSecond_pos
  constructor
  · intro h
    have hsecond := h (time + 1 - nanosPerSecond)
    have hnew : inSecond (time + 1 - nanosPerSecond) [time] = 1 := by
      refine List.countP_singleton.trans (if_pos ?_)
      simp only [decide_eq_true_eq]
      omega
    have hle : times.countP (recent time) ≤ inSecond (time + 1 - nanosPerSecond) times := by
      refine List.countP_mono_left fun u hu hrecent ↦ ?_
      have hu := hlast u hu
      simp only [recent, decide_eq_true_eq] at hrecent ⊢
      omega
    rw [inSecond, List.countP_append, ← inSecond, ← inSecond, hnew] at hsecond
    omega
  · intro h start
    rw [inSecond, List.countP_append, ← inSecond, List.countP_singleton]
    split_ifs with hin
    · have hle : inSecond start times ≤ times.countP (recent time) := by
        refine List.countP_mono_left fun u _ hu ↦ ?_
        simp only [recent, decide_eq_true_eq] at hin hu ⊢
        omega
      omega
    · exact htimes start

/-! ## One call -/

/-- What a call does, by the count of its window. -/
theorem tryAcquire_eq (limiter : RateLimiter) (now : ℕ) :
    let count := if limiter.expired now then 0 else limiter.count
    limiter.tryAcquire now =
      (decide (count < limiter.maxPerSecond),
        { maxPerSecond := limiter.maxPerSecond
          count := if count < limiter.maxPerSecond then count + 1 else count
          windowStart := if limiter.expired now then now else limiter.windowStart }) := by
  unfold RateLimiter.tryAcquire
  cases limiter.expired now with
  | true =>
    rcases Nat.eq_zero_or_pos limiter.maxPerSecond with hzero | hpos
    · simp [hzero]
    · simp [hpos, Nat.ne_of_gt hpos]
  | false =>
    rcases Nat.lt_or_ge limiter.count limiter.maxPerSecond with hlt | hge
    · simp [hlt, Nat.not_le_of_lt hlt]
    · simp [hge, Nat.not_lt_of_le hge]

/-- The record agrees with the limiter.  It counts the calls of the window up to the limit, and the
calls that were let through are the first ones of each window; those of the windows before the last
two are at least a second older than the current window. -/
structure Tracked (observed : Observed) : Prop where
  count : observed.limiter.count = min observed.limiter.maxPerSecond observed.current.length
  current : ∀ u ∈ observed.current, observed.limiter.windowStart ≤ u ∧ u ≤ observed.last ∧
    u < observed.limiter.windowStart + nanosPerSecond
  earlier : ∀ u ∈ observed.earlier, u ≤ observed.limiter.windowStart
  start : observed.limiter.windowStart ≤ observed.last
  granted : ∃ older, (∀ u ∈ older, u + nanosPerSecond ≤ observed.limiter.windowStart) ∧
    observed.granted = older ++ observed.earlier.take observed.limiter.maxPerSecond ++
      observed.current.take observed.limiter.maxPerSecond

theorem Tracked.new (maxPerSecond start : ℕ) : Tracked (Observed.new maxPerSecond start) where
  count := (Nat.min_zero maxPerSecond).symm
  current := fun _ h ↦ nomatch h
  earlier := fun _ h ↦ nomatch h
  start := Nat.le_refl start
  granted := ⟨[], fun _ h ↦ (nomatch h), by simp [Observed.new]⟩

/-- The calls that were let through are no later than the last one. -/
theorem Tracked.granted_le {observed : Observed} (h : Tracked observed) :
    ∀ u ∈ observed.granted, u ≤ observed.last := by
  intro u hu
  have hstart := h.start
  obtain ⟨older, holder, hgranted⟩ := h.granted
  rw [hgranted, List.mem_append, List.mem_append] at hu
  rcases hu with (hu | hu) | hu
  · have hu := holder u hu
    omega
  · have hu := h.earlier u (List.mem_of_mem_take hu)
    omega
  · exact (h.current u (List.mem_of_mem_take hu)).2.1

section Call

variable {observed : Observed} {time : ℕ}

/-- The record just before a call, after the window has been reset if it is over. -/
def Observed.rotate (observed : Observed) (time : ℕ) : Observed where
  limiter :=
    if observed.limiter.expired time then
      { observed.limiter with count := 0, windowStart := time }
    else observed.limiter
  last := time
  earlier := observed.before time
  current := observed.within time
  granted := observed.granted

theorem expired_iff {limiter : RateLimiter} :
    limiter.expired time = true ↔ limiter.windowStart + nanosPerSecond ≤ time := by
  have hpos := nanosPerSecond_pos
  unfold RateLimiter.expired
  rw [decide_eq_true_eq, Nat.le_div_iff_mul_le hpos]
  omega

theorem maxPerSecond_rotate (observed : Observed) (time : ℕ) :
    (observed.rotate time).limiter.maxPerSecond = observed.limiter.maxPerSecond := by
  unfold Observed.rotate
  cases observed.limiter.expired time <;> rfl

/-- The clock does not go back. -/
theorem last_le_of_call {next : Observed} (hcall : call observed time = some next) :
    observed.last ≤ time := by
  by_contra hlt
  rw [call, if_pos (Nat.lt_of_not_le hlt)] at hcall
  cases hcall

/-- A reset moves the calls of the current window to the window before. -/
theorem Tracked.rotate (h : Tracked observed) (htime : observed.last ≤ time) :
    Tracked (observed.rotate time) := by
  have hstart := h.start
  obtain ⟨older, holder, hgranted⟩ := h.granted
  by_cases hexpired : observed.limiter.expired time = true
  · have hover := expired_iff.mp hexpired
    refine ⟨?_, ?_, ?_, ?_, older ++ observed.earlier.take observed.limiter.maxPerSecond, ?_, ?_⟩ <;>
      simp only [Observed.rotate, Observed.before, Observed.within, hexpired, if_true]
    · simp
    · simp
    · exact fun u hu ↦ Nat.le_trans (h.current u hu).2.1 htime
    · exact Nat.le_refl time
    · intro u hu
      rcases List.mem_append.mp hu with hu | hu
      · have hu := holder u hu
        omega
      · have hu := h.earlier u (List.mem_of_mem_take hu)
        omega
    · simp [hgranted]
  · have hwithin : time < observed.limiter.windowStart + nanosPerSecond := by
      rw [expired_iff] at hexpired
      omega
    refine ⟨?_, ?_, ?_, ?_, older, ?_, ?_⟩ <;>
      simp only [Observed.rotate, Observed.before, Observed.within, hexpired, if_false,
        Bool.false_eq_true]
    · exact h.count
    · intro u hu
      have hu := h.current u hu
      exact ⟨hu.1, Nat.le_trans hu.2.1 htime, hu.2.2⟩
    · exact h.earlier
    · exact Nat.le_trans hstart htime
    · exact holder
    · exact hgranted

/-- A call falls into the window as it is after a reset. -/
theorem windowStart_rotate (h : Tracked observed) (htime : observed.last ≤ time) :
    (observed.rotate time).limiter.windowStart ≤ time ∧
      time < (observed.rotate time).limiter.windowStart + nanosPerSecond := by
  have hstart := h.start
  have hpos := nanosPerSecond_pos
  unfold Observed.rotate
  dsimp only
  split_ifs with hexpired
  · exact ⟨Nat.le_refl time, Nat.lt_add_of_pos_right hpos⟩
  · rw [expired_iff] at hexpired
    exact ⟨Nat.le_trans hstart htime, Nat.lt_of_not_le hexpired⟩

/-- A call is let through and counted if its window has not reached the limit. -/
theorem call_eq (h : Tracked observed) (htime : observed.last ≤ time) :
    let rotated := observed.rotate time
    let granted := rotated.current.length < rotated.limiter.maxPerSecond
    call observed time = some {
      limiter :=
        { rotated.limiter with
          count := if granted then rotated.limiter.count + 1 else rotated.limiter.count }
      last := time
      earlier := rotated.earlier
      current := rotated.current ++ [time]
      granted := if granted then rotated.granted ++ [time] else rotated.granted } := by
  intro rotated granted
  have hcount : (if observed.limiter.expired time then 0 else observed.limiter.count) =
      rotated.limiter.count := by
    unfold rotated Observed.rotate
    cases observed.limiter.expired time <;> rfl
  have hmax : observed.limiter.maxPerSecond = rotated.limiter.maxPerSecond :=
    (maxPerSecond_rotate observed time).symm
  have hstart : (if observed.limiter.expired time then time else observed.limiter.windowStart) =
      rotated.limiter.windowStart := by
    unfold rotated Observed.rotate
    cases observed.limiter.expired time <;> rfl
  have hgranted : rotated.limiter.count < rotated.limiter.maxPerSecond ↔ granted := by
    have hmin : rotated.limiter.count =
        min rotated.limiter.maxPerSecond rotated.current.length := (h.rotate htime).count
    unfold granted
    omega
  rw [call, if_neg (Nat.not_lt_of_le htime), tryAcquire_eq]
  simp only [hcount, hmax, hstart, hgranted, decide_eq_true_eq]
  rfl

/-- A call keeps the record in agreement. -/
theorem Tracked.call {next : Observed} (h : Tracked observed)
    (hcall : TenantQuota.call observed time = some next) : Tracked next := by
  have htime := last_le_of_call hcall
  rw [call_eq h htime] at hcall
  obtain rfl := Option.some.inj hcall
  have hrotated := h.rotate htime
  obtain ⟨hstart, hwithin⟩ := windowStart_rotate h htime
  obtain ⟨older, holder, hgranted⟩ := hrotated.granted
  have hcount := hrotated.count
  refine ⟨?_, ?_, hrotated.earlier, hstart, older, holder, ?_⟩
  · dsimp only
    rw [List.length_append, List.length_singleton]
    split_ifs <;> omega
  · intro u hu
    rcases List.mem_append.mp hu with hu | hu
    · exact hrotated.current u hu
    · rw [List.mem_singleton.mp hu]
      exact ⟨hstart, Nat.le_refl time, hwithin⟩
  · dsimp only
    split_ifs with hroom
    · have hall : ((observed.rotate time).current ++ [time]).take
          (observed.rotate time).limiter.maxPerSecond = (observed.rotate time).current ++ [time] :=
        List.take_of_length_le (by rwa [List.length_append])
      have hkept : (observed.rotate time).current.take (observed.rotate time).limiter.maxPerSecond =
          (observed.rotate time).current := List.take_of_length_le (Nat.le_of_lt hroom)
      rw [hgranted, hall, hkept, List.append_assoc _ _ [time]]
    · rw [hgranted, List.take_append_of_le_length (Nat.le_of_not_lt hroom)]

/-- The calls that were let through less than a second before a call are those of its window and
some of the window before. -/
theorem countP_recent_granted (h : Tracked observed) (htime : observed.last ≤ time)
    (hroom : (observed.within time).length < observed.limiter.maxPerSecond) :
    observed.granted.countP (recent time) =
      ((observed.before time).take observed.limiter.maxPerSecond).countP (recent time) +
        (observed.within time).length := by
  have hrotated := h.rotate htime
  obtain ⟨hstart, hwithin⟩ := windowStart_rotate h htime
  obtain ⟨older, holder, hgranted⟩ := hrotated.granted
  have hmax := maxPerSecond_rotate observed time
  rw [hmax] at hgranted
  have hold : older.countP (recent time) = 0 := by
    refine List.countP_eq_zero.mpr fun u hu ↦ ?_
    have hu := holder u hu
    simp only [recent, decide_eq_true_eq]
    omega
  have hnew : (observed.within time).countP (recent time) = (observed.within time).length := by
    refine List.countP_eq_length.mpr fun u hu ↦ ?_
    have hu := (hrotated.current u hu).1
    simp only [recent, decide_eq_true_eq]
    omega
  calc observed.granted.countP (recent time)
      = (older ++ (observed.before time).take observed.limiter.maxPerSecond ++
          (observed.within time).take observed.limiter.maxPerSecond).countP (recent time) :=
        congrArg _ hgranted
    _ = _ := by
        rw [List.take_of_length_le (Nat.le_of_lt hroom), List.countP_append, List.countP_append,
          hold, hnew, Nat.zero_add]

/-- A call keeps the limit exactly if it is spaced. -/
theorem limited_call_iff {next : Observed} (h : Tracked observed) (hlimited : Limited observed)
    (hcall : TenantQuota.call observed time = some next) :
    Limited next ↔ Spaced observed time := by
  have htracked := h.call hcall
  have htime := last_le_of_call hcall
  have hmax := maxPerSecond_rotate observed time
  have hbound : next.limiter.count ≤ next.limiter.maxPerSecond := by
    rw [htracked.count]
    exact Nat.min_le_left _ _
  rw [call_eq h htime] at hcall
  obtain rfl := Option.some.inj hcall
  have hbefore : ∀ u ∈ observed.granted, u ≤ time := (h.rotate htime).granted_le
  rw [Limited, and_iff_left hbound]
  by_cases hroom : (observed.within time).length < observed.limiter.maxPerSecond
  · have hspaced : Spaced observed time ↔
        observed.granted.countP (recent time) < observed.limiter.maxPerSecond := by
      rw [countP_recent_granted h htime hroom]
      exact ⟨fun hs ↦ hs htime hroom, fun hs _ _ ↦ hs⟩
    rw [hspaced, ← inSecond_concat_le_iff hbefore hlimited.1]
    dsimp only
    rw [if_pos (by rwa [hmax]), hmax]
    rfl
  · refine iff_of_true ?_ fun _ hlt ↦ absurd hlt hroom
    dsimp only
    rw [if_neg (by rwa [hmax]), hmax]
    exact hlimited.1

end Call

/-! ## All calls -/

/-- The record agrees with the limiter, and the limit has been kept. -/
def Kept (observed : Observed) : Prop := Tracked observed ∧ Limited observed

/-- In no second more calls are let through than the limit, and the counter does not exceed it, if
and only if each call leaves room for the recent calls of the window before. -/
theorem limited_iff_spaced (maxPerSecond start : ℕ) (times : List ℕ) :
    Throughout call Limited (Observed.new maxPerSecond start) times ↔
      StepsMeet call Spaced (Observed.new maxPerSecond start) times := by
  have hinit : Kept (Observed.new maxPerSecond start) :=
    ⟨Tracked.new maxPerSecond start, fun _ ↦ Nat.zero_le maxPerSecond, Nat.zero_le maxPerSecond⟩
  refine throughout_iff_stepsMeet (fun _ h ↦ h.2) ?_ ?_ hinit
  · intro observed time next h hspaced hcall
    exact ⟨h.1.call hcall, (limited_call_iff h.1 h.2 hcall).mpr hspaced⟩
  · intro observed time h hcrowded
    have htime : observed.last ≤ time := by
      by_contra hlt
      exact hcrowded fun htime ↦ absurd htime hlt
    exact ⟨_, call_eq h.1 htime, fun hlimited ↦
      hcrowded ((limited_call_iff h.1 h.2 (call_eq h.1 htime)).mp hlimited)⟩

/-- A limiter that lets one call a second through. -/
theorem burst_across_reset :
    ¬ Throughout call Limited (Observed.new 1 0) [900000000, 1000000000] := by
  intro h
  have hlimited := h [900000000, 1000000000] [] rfl _ rfl
  have htwo := hlimited.1 900000000
  revert htwo
  decide

end MongoCore.Grpc.TenantQuota
