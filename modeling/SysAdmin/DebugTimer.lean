import SysAdmin.Foundation.Machine
import SysAdmin.Foundation.Schedules

/-!
# The timer of tests

A `DebugTimer` has a clock that `AdvanceTime` moves, a millisecond after the other. After each of
them the callbacks of all timers that are due are put on a list, and then called. A callback may
start and stop timers, and advance the time itself.

What the callbacks do is given as events, each of which is a call that is made where the timer is:
outside of all calls of `AdvanceTime`, or in a callback. With `TimerEvent.proceed`, the innermost
call of `AdvanceTime` goes on.

* `OnTime`: callbacks are called when they are due, and not after their timer has been stopped;
* `onTime_run`: they are if the clock never goes on with a callback still on a list, or with a timer
  left that has fired for the only time, and no timer is stopped that is on a list.
-/

namespace SysAdmin

open Machine Schedules

abbrev TimerId := ℕ

/-- A timer. Its callback is known by its id. -/
structure CallbackWrapper where
  timeout : ℤ
  interval : ℤ
  initialTime : ℤ
  initiallyFired : Bool
  lastCalled : ℤ
  deriving DecidableEq

/-- The timers, the time in milliseconds and the number of timers so far. -/
structure DebugTimer where
  timerHandles : TimerId → Option CallbackWrapper
  currentTime : ℤ
  timerCounter : ℕ
  lt_timerCounter : ∀ id w, timerHandles id = some w → id < timerCounter

/-- The largest `int`, which is what the time is. -/
def intMax : ℤ := 2147483647

namespace CallbackWrapper

/-- The timer is due. -/
def isDue (w : CallbackWrapper) (now : ℤ) : Bool :=
  if !w.initiallyFired then now - w.initialTime ≥ w.timeout else now - w.lastCalled ≥ w.interval

/-- The timer has been put on the list. -/
def fired (w : CallbackWrapper) (now : ℤ) : CallbackWrapper :=
  { w with initiallyFired := true, lastCalled := now }

/-- The timer is for one time only, and has fired. -/
def isSpent (w : CallbackWrapper) : Bool := w.initiallyFired && w.interval = 0

/-- The timer after a step of the clock. -/
def processed (w : CallbackWrapper) (now : ℤ) : CallbackWrapper :=
  if w.isDue now then w.fired now else w

end CallbackWrapper

namespace DebugTimer

/-- No timer yet. -/
def new : DebugTimer := ⟨fun _ => none, 0, 0, nofun⟩

/-- Starts a timer, the id of which is the number of timers so far. -/
def start (t : DebugTimer) (timeout interval : ℤ) : DebugTimer where
  timerHandles id :=
    if id = t.timerCounter then some ⟨timeout, interval, t.currentTime, false, 0⟩
    else t.timerHandles id
  currentTime := t.currentTime
  timerCounter := t.timerCounter + 1
  lt_timerCounter id w h := by
    split at h
    · next hid => exact hid ▸ Nat.lt_succ_self _
    · exact Nat.lt_succ_of_lt (t.lt_timerCounter id w h)

/-- Stops a timer, if it is there. -/
def stop (t : DebugTimer) (id : TimerId) : DebugTimer where
  timerHandles id' := if id' = id then none else t.timerHandles id'
  currentTime := t.currentTime
  timerCounter := t.timerCounter
  lt_timerCounter id' w h := by
    split at h
    · cases h
    · exact t.lt_timerCounter id' w h

/-- The clock goes on by a millisecond. -/
def addMillisecond (t : DebugTimer) : DebugTimer := { t with currentTime := t.currentTime + 1 }

/-- The ids of the timers. -/
def ids (t : DebugTimer) : List TimerId :=
  (List.range t.timerCounter).filter fun id => (t.timerHandles id).isSome

/-- Puts the timers that are due on a list. In which order an unordered map goes through the timers
    is not known. -/
def processTimeChange (t : DebugTimer) (order : List TimerId) : DebugTimer × List TimerId where
  fst :=
    { timerHandles := fun id => (t.timerHandles id).map (·.processed t.currentTime)
      currentTime := t.currentTime
      timerCounter := t.timerCounter
      lt_timerCounter := fun id w h => by
        obtain ⟨w', h', _⟩ := Option.map_eq_some_iff.1 h
        exact t.lt_timerCounter id w' h' }
  snd := (if order.Perm t.ids then order else t.ids).filter fun id =>
    (t.timerHandles id).any (·.isDue t.currentTime)

end DebugTimer

/-- A call of `AdvanceTime`: the steps of the clock that are left, the callbacks that are on the
    list of the last one, and whether one of these has been called and not returned. -/
structure AdvanceCall where
  remaining : ℕ
  fireList : List TimerId
  inCallback : Bool
  deriving DecidableEq

/-- What has happened. -/
inductive TimerEntry
  | started (id : TimerId) (timeout interval time : ℤ)
  | stopped (id : TimerId)
  /-- The callback of the timer has been called. -/
  | called (id : TimerId) (time : ℤ)
  deriving DecidableEq

/-- A timer in use: the calls of `AdvanceTime` that have not returned, the innermost one first, what
    has happened so far, the latest first, and whether a time has been too large. -/
structure TimerState where
  timer : DebugTimer
  calls : List AdvanceCall
  log : List TimerEntry
  overflowed : Bool

/-- What is done to a timer. -/
inductive TimerEvent
  | start (timeout interval : ℤ)
  | stop (id : TimerId)
  | advanceTime (delta : ℤ)
  /-- The callback that is running, if any, returns, and `AdvanceTime` goes on. -/
  | proceed (order : List TimerId)
  deriving DecidableEq

namespace TimerState

/-- A new timer. -/
def new : TimerState := ⟨.new, [], [], false⟩

/-- The timer can be called: it is called from nowhere, or a callback is running. -/
def callable (s : TimerState) : Bool := s.calls.head?.all AdvanceCall.inCallback

/-- `Start` -/
def start (s : TimerState) (timeout interval : ℤ) : TimerState :=
  { s with
    timer := s.timer.start timeout interval
    log := .started s.timer.timerCounter timeout interval s.timer.currentTime :: s.log }

/-- `Stop` -/
def stop (s : TimerState) (id : TimerId) : TimerState :=
  { s with timer := s.timer.stop id, log := .stopped id :: s.log }

/-- `AdvanceTime` is called. -/
def advanceTime (s : TimerState) (delta : ℤ) : TimerState :=
  { s with
    calls := ⟨delta.toNat, [], false⟩ :: s.calls
    overflowed := s.overflowed || decide (s.timer.currentTime + delta > intMax) }

/-- A callback is called. -/
def callBack (s : TimerState) (id : TimerId) (call : AdvanceCall) (calls : List AdvanceCall) :
    TimerState :=
  { s with calls := call :: calls, log := .called id s.timer.currentTime :: s.log }

/-- The clock goes on, and the timers that are due are put on the list. -/
def tick (s : TimerState) (order : List TimerId) (remaining : ℕ) (calls : List AdvanceCall) :
    TimerState where
  timer := (s.timer.addMillisecond.processTimeChange order).1
  calls := ⟨remaining, (s.timer.addMillisecond.processTimeChange order).2, false⟩ :: calls
  log := s.log
  overflowed := s.overflowed || decide (s.timer.addMillisecond.currentTime > intMax)

/-- The innermost call of `AdvanceTime` goes on: it calls the next callback on its list, moves the
    clock, or returns. -/
def proceed (s : TimerState) (order : List TimerId) : TimerState :=
  match s.calls with
  | [] => s
  | ⟨remaining, id :: fireList, _⟩ :: calls => s.callBack id ⟨remaining, fireList, true⟩ calls
  | ⟨remaining + 1, [], _⟩ :: calls => s.tick order remaining calls
  | ⟨0, [], _⟩ :: calls => { s with calls := calls }

/-- Only a callback that is running, or whoever uses the timer, can call it. -/
def step (s : TimerState) : TimerEvent → TimerState
  | .start timeout interval => if s.callable then s.start timeout interval else s
  | .stop id => if s.callable then s.stop id else s
  | .advanceTime delta => if s.callable then s.advanceTime delta else s
  | .proceed order => s.proceed order

/-! ## When callbacks are called -/

/-- The callbacks on the lists. -/
def pending (s : TimerState) : List TimerId := s.calls.flatMap AdvanceCall.fireList

end TimerState

namespace TimerEntry

/-- When the callback of a timer has been called. -/
def times (id : TimerId) : List TimerEntry → List ℤ
  | [] => []
  | .called id' time :: log => if id' = id then times id log ++ [time] else times id log
  | .started .. :: log => times id log
  | .stopped _ :: log => times id log

end TimerEntry

open TimerEntry (times)

namespace TimerState

/-- A timer has been started, and not been stopped since. -/
structure Runs (s : TimerState) (id : TimerId) (timeout interval time : ℤ) : Prop where
  started : .started id timeout interval time ∈ s.log
  not_stopped : ¬[.stopped id, .started id timeout interval time].Sublist s.log

/-- When the callback of a timer has been called, and now, if it is on a list: it is called before
    the clock goes on. -/
def firings (s : TimerState) (id : TimerId) : List ℤ :=
  times id s.log ++ List.replicate (s.pending.count id) s.timer.currentTime

/-- Timers that are not stopped fire on time, and stopped ones do not. -/
structure OnTime (s : TimerState) : Prop where
  /-- All times so far fit into an `int`. -/
  defined : s.overflowed = false
  first : ∀ id timeout interval time, s.Runs id timeout interval time →
    (s.firings id).head? =
      if time + timeout ≤ s.timer.currentTime then some (time + timeout) else none
  again : ∀ id timeout interval time, s.Runs id timeout interval time → 0 ≤ interval →
    s.firings id = timesTo time timeout interval s.timer.currentTime
  stopped : ∀ id timeout interval time time',
    ¬[.called id time', .stopped id, .started id timeout interval time].Sublist s.log

/-- Timeouts are at least 1. -/
def Allowed : TimerEvent → Prop
  | .start timeout _ => 1 ≤ timeout
  | .stop _ | .advanceTime _ | .proceed _ => True

instance : DecidablePred Allowed
  | .start .. => inferInstanceAs (Decidable (_ ≤ _))
  | .stop _ | .advanceTime _ | .proceed _ => inferInstanceAs (Decidable True)

/-- The clock goes on by a millisecond. -/
def Ticks (s : TimerState) : Prop :=
  ∃ call ∈ s.calls.head?, 0 < call.remaining ∧ call.fireList = []

/-- What keeps callbacks on time: no timer is stopped that is on a list, and the clock does not go
    on with a callback on a list, or with a timer that has fired for the only time. -/
def Orderly (s : TimerState) : TimerEvent → Prop
  | .start .. => True
  | .stop id => s.callable = true → id ∉ s.pending
  | .advanceTime delta => s.callable = true → s.timer.currentTime + delta ≤ intMax
  | .proceed _ => s.Ticks → s.pending = [] ∧ s.timer.currentTime < intMax ∧
      ∀ id ∈ s.timer.ids, (s.timer.timerHandles id).any CallbackWrapper.isSpent = false

instance (s : TimerState) : Decidable s.Ticks := inferInstanceAs (Decidable (∃ _ ∈ _, _))

instance (s : TimerState) : DecidablePred s.Orderly
  | .start .. => inferInstanceAs (Decidable True)
  | .stop _ | .advanceTime _ | .proceed _ => inferInstanceAs (Decidable (_ → _))

end TimerState

/-! ## The list of a step of the clock -/

namespace DebugTimer

variable {t : DebugTimer} {id : TimerId} {w : CallbackWrapper} {order : List TimerId}

theorem mem_ids : id ∈ t.ids ↔ ∃ w, t.timerHandles id = some w := by
  rw [ids, List.mem_filter, List.mem_range, Option.isSome_iff_exists, and_iff_right_iff_imp]
  exact fun ⟨w, hw⟩ => t.lt_timerCounter id w hw

theorem nodup_ids : t.ids.Nodup := List.nodup_range.filter _

theorem perm_ids : (if order.Perm t.ids then order else t.ids).Perm t.ids := by
  split
  · assumption
  · exact .refl _

/-- The timers that are due are put on the list. -/
theorem mem_processTimeChange : id ∈ (t.processTimeChange order).2 ↔
    ∃ w, t.timerHandles id = some w ∧ w.isDue t.currentTime = true := by
  rw [processTimeChange, List.mem_filter, perm_ids.mem_iff, mem_ids, Option.any_eq_true]
  exact and_iff_right_of_imp fun ⟨w, hw, _⟩ => ⟨w, hw⟩

theorem nodup_processTimeChange : (t.processTimeChange order).2.Nodup :=
  (perm_ids.nodup_iff.2 nodup_ids).filter _

theorem count_processTimeChange (hw : t.timerHandles id = some w) :
    (t.processTimeChange order).2.count id = if w.isDue t.currentTime = true then 1 else 0 := by
  have hmem : id ∈ (t.processTimeChange order).2 ↔ w.isDue t.currentTime = true := by
    rw [mem_processTimeChange, hw]
    simp
  rw [nodup_processTimeChange.count]
  exact if_congr hmem rfl rfl

end DebugTimer

/-! ## A timer and its schedule -/

namespace CallbackWrapper

variable {w : CallbackWrapper} {now : ℤ} {fired : List ℤ}

@[simp] theorem timeout_processed : (w.processed now).timeout = w.timeout := by
  rw [processed]
  split <;> rfl

@[simp] theorem interval_processed : (w.processed now).interval = w.interval := by
  rw [processed]
  split <;> rfl

@[simp] theorem initialTime_processed : (w.processed now).initialTime = w.initialTime := by
  rw [processed]
  split <;> rfl

/-- A timer that has fired at some times, on schedule up to now. -/
structure Scheduled (w : CallbackWrapper) (now : ℤ) (fired : List ℤ) : Prop where
  initialTime_le : w.initialTime ≤ now
  waits : w.initiallyFired = false → now < w.initialTime + w.timeout
  first_le : w.initiallyFired = true → w.initialTime + w.timeout ≤ now
  lastCalled : w.initiallyFired = true → 0 < w.interval →
    IsDue w.initialTime w.timeout w.interval w.lastCalled ∧ w.lastCalled ≤ now ∧
      now < w.lastCalled + w.interval
  first : fired.head? =
    if w.initialTime + w.timeout ≤ now then some (w.initialTime + w.timeout) else none
  again : 0 ≤ w.interval → fired = timesTo w.initialTime w.timeout w.interval now

theorem isDue_of_waiting (h : w.initiallyFired = false) :
    w.isDue now = true ↔ w.timeout ≤ now - w.initialTime := by
  simp [isDue, h]

theorem isDue_of_fired (h : w.initiallyFired = true) :
    w.isDue now = true ↔ w.interval ≤ now - w.lastCalled := by
  simp [isDue, h]

/-- The timer is due when its schedule says so, unless it fires for one time only and has. -/
theorem Scheduled.isDue_iff (h : w.Scheduled now fired) (hspent : w.isSpent = false)
    (hi : 0 ≤ w.interval) :
    w.isDue (now + 1) = true ↔ IsDue w.initialTime w.timeout w.interval (now + 1) := by
  rcases hfired : w.initiallyFired with _ | _
  · rw [isDue_of_waiting hfired, isDue_succ_iff_first (h.waits hfired)]
  · have hpos : 0 < w.interval := by
      rw [isSpent, hfired, Bool.true_and, decide_eq_false_iff_not] at hspent
      omega
    obtain ⟨hlast, hle, hlt⟩ := h.lastCalled hfired hpos
    rw [isDue_of_fired hfired, isDue_succ_iff hpos hlast hle hlt]

theorem processed_of_isDue (h : w.isDue now = true) : w.processed now = w.fired now := if_pos h

theorem processed_of_not_isDue (h : w.isDue now ≠ true) : w.processed now = w := if_neg h

/-- The firings, with that of the next step of the clock. -/
theorem Scheduled.again_succ (h : w.Scheduled now fired) (hspent : w.isSpent = false)
    (hi : 0 ≤ w.interval) : (fired ++ if w.isDue (now + 1) = true then [now + 1] else []) =
      timesTo w.initialTime w.timeout w.interval (now + 1) := by
  rw [timesTo_succ h.initialTime_le, h.again hi]
  simp only [h.isDue_iff hspent hi]

/-- A timer that is due fires. -/
theorem Scheduled.fire (h : w.Scheduled now fired) (hspent : w.isSpent = false)
    (hdue : w.isDue (now + 1) = true) :
    (w.fired (now + 1)).Scheduled (now + 1) (fired ++ [now + 1]) := by
  have hinitial := h.initialTime_le
  -- A timer that has not fired yet is due at its timeout at the earliest.
  have hfirst : w.initialTime + w.timeout ≤ now + 1 := by
    rcases hfired : w.initiallyFired with _ | _
    · rw [isDue_of_waiting hfired] at hdue
      omega
    · have := h.first_le hfired
      omega
  have hhead : (fired ++ [now + 1]).head? = some (w.initialTime + w.timeout) := by
    rw [List.head?_append, h.first]
    split
    · rfl
    · have hnow : now + 1 = w.initialTime + w.timeout := by omega
      rw [Option.none_or, List.head?_singleton, hnow]
  exact {
    initialTime_le := Int.le_add_one hinitial
    waits := nofun
    first_le := fun _ => hfirst
    lastCalled := fun _ hpos =>
      ⟨(h.isDue_iff hspent hpos.le).1 hdue, le_rfl, Int.lt_add_of_pos_right _ hpos⟩
    first := hhead.trans (if_pos hfirst).symm
    again := fun hi => by
      have hsucc := h.again_succ hspent hi
      rwa [if_pos hdue] at hsucc }

/-- A timer that is not due waits. -/
theorem Scheduled.wait (h : w.Scheduled now fired) (hspent : w.isSpent = false)
    (hdue : w.isDue (now + 1) ≠ true) : w.Scheduled (now + 1) fired where
  initialTime_le := Int.le_add_one h.initialTime_le
  waits hfired := by
    rw [ne_eq, isDue_of_waiting hfired] at hdue
    omega
  first_le hfired := Int.le_add_one (h.first_le hfired)
  lastCalled hfired hpos := by
    rw [ne_eq, isDue_of_fired hfired] at hdue
    obtain ⟨hlast, hle, hlt⟩ := h.lastCalled hfired hpos
    exact ⟨hlast, Int.le_add_one hle, by omega⟩
  first := by
    rw [h.first]
    rcases hfired : w.initiallyFired with _ | _
    · have hlt := h.waits hfired
      rw [ne_eq, isDue_of_waiting hfired] at hdue
      rw [if_neg (by omega), if_neg (by omega)]
    · have hle := h.first_le hfired
      rw [if_pos hle, if_pos (by omega)]
  again hi := by
    have hsucc := h.again_succ hspent hi
    rwa [if_neg hdue, List.append_nil] at hsucc

/-- A step of the clock keeps a timer on schedule. -/
theorem Scheduled.processed (h : w.Scheduled now fired) (hspent : w.isSpent = false) :
    (w.processed (now + 1)).Scheduled (now + 1)
      (fired ++ if w.isDue (now + 1) = true then [now + 1] else []) := by
  by_cases hdue : w.isDue (now + 1) = true
  · rw [processed_of_isDue hdue, if_pos hdue]
    exact h.fire hspent hdue
  · rw [processed_of_not_isDue hdue, if_neg hdue, List.append_nil]
    exact h.wait hspent hdue

/-- A new timer. -/
theorem scheduled_new {timeout interval : ℤ} (htimeout : 1 ≤ timeout) :
    (⟨timeout, interval, now, false, 0⟩ : CallbackWrapper).Scheduled now [] where
  initialTime_le := le_rfl
  waits _ := Int.lt_add_of_pos_right _ htimeout
  first_le := nofun
  lastCalled := nofun
  first := (if_neg (Int.lt_add_of_pos_right _ htimeout).not_ge).symm
  again _ := timesTo_self.symm

end CallbackWrapper

namespace TimerState

variable {s : TimerState} {id id' : TimerId} {timeout interval time : ℤ}

/-! ## What a run keeps -/

/-- All timers are on schedule, those on a list are there, and a timer that has been started is
    there until it is stopped. -/
structure Consistent (s : TimerState) : Prop where
  defined : s.overflowed = false
  started_lt : ∀ id timeout interval time, .started id timeout interval time ∈ s.log →
    id < s.timer.timerCounter
  called_lt : ∀ id time, .called id time ∈ s.log → id < s.timer.timerCounter
  live_of_pending : ∀ id ∈ s.pending, s.timer.timerHandles id ≠ none
  live_or_stopped : ∀ id timeout interval time, .started id timeout interval time ∈ s.log →
    (∃ w, s.timer.timerHandles id = some w ∧ w.timeout = timeout ∧ w.interval = interval ∧
      w.initialTime = time) ∨ [.stopped id, .started id timeout interval time].Sublist s.log
  not_stopped : ∀ id timeout interval time, s.timer.timerHandles id ≠ none →
    ¬[.stopped id, .started id timeout interval time].Sublist s.log
  scheduled : ∀ id w, s.timer.timerHandles id = some w →
    w.Scheduled s.timer.currentTime (s.firings id)
  stopped : ∀ id timeout interval time time',
    ¬[.called id time', .stopped id, .started id timeout interval time].Sublist s.log

theorem Consistent.onTime (h : s.Consistent) : s.OnTime where
  defined := h.defined
  first id timeout interval time hruns := by
    obtain ⟨w, hw, rfl, rfl, rfl⟩ :=
      (h.live_or_stopped id timeout interval time hruns.started).resolve_right hruns.not_stopped
    exact (h.scheduled id w hw).first
  again id timeout interval time hruns hi := by
    obtain ⟨w, hw, rfl, rfl, rfl⟩ :=
      (h.live_or_stopped id timeout interval time hruns.started).resolve_right hruns.not_stopped
    exact (h.scheduled id w hw).again hi
  stopped := h.stopped

theorem consistent_new : new.Consistent where
  defined := rfl
  started_lt _ _ _ _ h := absurd h List.not_mem_nil
  called_lt _ _ h := absurd h List.not_mem_nil
  live_of_pending _ h := absurd h List.not_mem_nil
  live_or_stopped _ _ _ _ h := absurd h List.not_mem_nil
  not_stopped _ _ _ _ h := absurd rfl h
  scheduled _ _ h := nomatch h
  stopped _ _ _ _ _ h := nomatch h

theorem times_of_not_called {log : List TimerEntry} (h : ∀ time, .called id time ∉ log) :
    times id log = [] := by
  induction log with
  | nil => rfl
  | cons e log ih =>
    have hlog := ih fun time hmem => h time (List.mem_cons_of_mem e hmem)
    rcases e with _ | _ | ⟨id', time⟩
    · exact hlog
    · exact hlog
    · have hne : id' ≠ id := fun hid => h time (hid ▸ List.mem_cons_self)
      rw [times, if_neg hne, hlog]

@[simp] theorem log_start : (s.start timeout interval).log =
    .started s.timer.timerCounter timeout interval s.timer.currentTime :: s.log := rfl

@[simp] theorem log_stop : (s.stop id).log = .stopped id :: s.log := rfl

/-- What begins with another entry than the last one, is in the entries before. -/
theorem sublist_of_ne {e e' : TimerEntry} {l log : List TimerEntry}
    (h : (e :: l).Sublist (e' :: log)) (hne : e ≠ e') : (e :: l).Sublist log := by
  rw [List.cons_sublist_cons'] at h
  exact h.resolve_right fun h => hne h.1

theorem firings_start : (s.start timeout interval).firings id = s.firings id := rfl

/-- The id of the next timer has not been in use. -/
theorem Consistent.firings_new (h : s.Consistent) : s.firings s.timer.timerCounter = [] := by
  have htimes : times s.timer.timerCounter s.log = [] :=
    times_of_not_called fun time hmem => (h.called_lt _ time hmem).false
  have hcount : s.pending.count s.timer.timerCounter = 0 := by
    refine List.count_eq_zero_of_not_mem fun hmem => ?_
    obtain ⟨w, hw⟩ := Option.ne_none_iff_exists'.1 (h.live_of_pending _ hmem)
    exact (s.timer.lt_timerCounter _ w hw).false
  rw [firings, htimes, hcount]
  rfl

theorem Consistent.start (h : s.Consistent) (htimeout : 1 ≤ timeout) :
    (s.start timeout interval).Consistent where
  defined := h.defined
  started_lt id timeout' interval' time hmem := by
    rcases List.mem_cons.1 hmem with heq | hmem
    · obtain ⟨rfl, _⟩ := TimerEntry.started.inj heq
      exact Nat.lt_succ_self _
    · exact Nat.lt_succ_of_lt (h.started_lt _ _ _ _ hmem)
  called_lt id time hmem := by
    rcases List.mem_cons.1 hmem with heq | hmem
    · cases heq
    · exact Nat.lt_succ_of_lt (h.called_lt _ _ hmem)
  live_of_pending id hid := by
    change ite _ _ _ ≠ none
    split
    · exact nofun
    · exact h.live_of_pending id hid
  live_or_stopped id timeout' interval' time hmem := by
    rcases List.mem_cons.1 hmem with heq | hmem
    · obtain ⟨rfl, rfl, rfl, rfl⟩ := TimerEntry.started.inj heq
      exact .inl ⟨_, if_pos rfl, rfl, rfl, rfl⟩
    · -- The timers from before have other numbers.
      have hne : id ≠ s.timer.timerCounter := (h.started_lt _ _ _ _ hmem).ne
      refine (h.live_or_stopped _ _ _ _ hmem).imp ?_ fun hsub => .cons _ hsub
      rintro ⟨w, hw, hparams⟩
      exact ⟨w, (if_neg hne).trans hw, hparams⟩
  not_stopped id timeout' interval' time hlive hsub := by
    rw [log_start] at hsub
    have hsub := sublist_of_ne hsub nofun
    have hne : id ≠ s.timer.timerCounter :=
      (h.started_lt id timeout' interval' time
        (hsub.subset (List.mem_cons_of_mem _ List.mem_cons_self))).ne
    refine h.not_stopped id _ _ _ ?_ hsub
    exact fun hnone => hlive ((if_neg hne).trans hnone)
  scheduled id w hw := by
    change ite _ _ _ = some w at hw
    rw [firings_start]
    split at hw
    · next hid =>
      -- Nothing has been called under the number before.
      rw [hid, h.firings_new, ← Option.some.inj hw]
      exact CallbackWrapper.scheduled_new htimeout
    · exact h.scheduled id w hw
  stopped id timeout' interval' time time' hsub := by
    rw [log_start] at hsub
    exact h.stopped _ _ _ _ _ (sublist_of_ne hsub nofun)

theorem Consistent.stop (h : s.Consistent) (hid : id ∉ s.pending) : (s.stop id).Consistent where
  defined := h.defined
  started_lt id' timeout interval time hmem := by
    rcases List.mem_cons.1 hmem with heq | hmem
    · cases heq
    · exact h.started_lt _ _ _ _ hmem
  called_lt id' time hmem := by
    rcases List.mem_cons.1 hmem with heq | hmem
    · cases heq
    · exact h.called_lt _ _ hmem
  live_of_pending id' hid' := by
    have hne : id' ≠ id := fun heq => hid (heq ▸ hid')
    change ite _ _ _ ≠ none
    rw [if_neg hne]
    exact h.live_of_pending id' hid'
  live_or_stopped id' timeout interval time hmem := by
    rw [log_stop] at hmem ⊢
    rcases List.mem_cons.1 hmem with heq | hlog
    · cases heq
    · by_cases hne : id' = id
      · -- This one has been stopped after it was started.
        subst hne
        exact .inr ((List.singleton_sublist.2 hlog).cons_cons _)
      · refine (h.live_or_stopped _ _ _ _ hlog).imp ?_ fun hsub => .cons _ hsub
        rintro ⟨w, hw, hparams⟩
        exact ⟨w, (if_neg hne).trans hw, hparams⟩
  not_stopped id' timeout interval time hlive hsub := by
    change ite _ _ _ ≠ none at hlive
    split at hlive
    · exact hlive rfl
    · next hne =>
      refine h.not_stopped id' _ _ _ hlive (sublist_of_ne hsub ?_)
      exact fun heq => hne (TimerEntry.stopped.inj heq)
  scheduled id' w hw := by
    change ite _ _ _ = some w at hw
    split at hw
    · cases hw
    · exact h.scheduled id' w hw
  stopped id' timeout interval time time' hsub := by
    rw [log_stop] at hsub
    exact h.stopped _ _ _ _ _ (sublist_of_ne hsub nofun)

theorem Consistent.advanceTime {delta : ℤ} (h : s.Consistent)
    (hdelta : s.timer.currentTime + delta ≤ intMax) : (s.advanceTime delta).Consistent :=
  { h with
    defined := by
      change (s.overflowed || _) = false
      rw [h.defined, Bool.false_or, decide_eq_false_iff_not, gt_iff_lt, not_lt]
      exact hdelta }

variable {call : AdvanceCall} {calls : List AdvanceCall} {remaining : ℕ} {fireList : List TimerId}
  {inCallback : Bool}

@[simp] theorem log_callBack :
    (s.callBack id call calls).log = .called id s.timer.currentTime :: s.log := rfl

/-- The callback comes off the list. -/
theorem pending_of_calls (hcalls : s.calls = ⟨remaining, id :: fireList, inCallback⟩ :: calls) :
    s.pending = id :: (s.callBack id ⟨remaining, fireList, true⟩ calls).pending := by
  rw [pending, hcalls]
  rfl

theorem firings_callBack (hcalls : s.calls = ⟨remaining, id :: fireList, inCallback⟩ :: calls) :
    (s.callBack id ⟨remaining, fireList, true⟩ calls).firings id' = s.firings id' := by
  rw [firings, firings, pending_of_calls hcalls, log_callBack, times]
  split
  · next hid =>
    rw [hid, List.count_cons_self, List.replicate_succ, List.append_assoc]
    rfl
  · next hid =>
    rw [List.count_cons_of_ne hid]
    rfl

theorem Consistent.callBack (h : s.Consistent)
    (hcalls : s.calls = ⟨remaining, id :: fireList, inCallback⟩ :: calls) :
    (s.callBack id ⟨remaining, fireList, true⟩ calls).Consistent := by
  have hpending := pending_of_calls hcalls
  have hlive := h.live_of_pending id (by rw [hpending]; exact List.mem_cons_self)
  exact {
    defined := h.defined
    started_lt := fun id' timeout interval time hmem => by
      rcases List.mem_cons.1 hmem with heq | hmem
      · cases heq
      · exact h.started_lt _ _ _ _ hmem
    -- A callback on a list is that of a timer there is, so its number has been given.
    called_lt := fun id' time hmem => by
      rcases List.mem_cons.1 hmem with heq | hmem
      · obtain ⟨rfl, _⟩ := TimerEntry.called.inj heq
        obtain ⟨w, hw⟩ := Option.ne_none_iff_exists'.1 hlive
        exact s.timer.lt_timerCounter _ w hw
      · exact h.called_lt _ _ hmem
    live_of_pending := fun id' hid' =>
      h.live_of_pending id' (by rw [hpending]; exact List.mem_cons_of_mem _ hid')
    live_or_stopped := fun id' timeout interval time hmem => by
      rcases List.mem_cons.1 hmem with heq | hmem
      · cases heq
      · exact (h.live_or_stopped _ _ _ _ hmem).imp_right fun hsub => .cons _ hsub
    not_stopped := fun id' timeout interval time hlive hsub => by
      rw [log_callBack] at hsub
      exact h.not_stopped _ _ _ _ hlive (sublist_of_ne hsub nofun)
    scheduled := fun id' w hw => by
      rw [firings_callBack hcalls]
      exact h.scheduled id' w hw
    stopped := fun id' timeout interval time time' hsub => by
      rw [log_callBack, List.cons_sublist_cons'] at hsub
      obtain hsub | ⟨heq, hsub⟩ := hsub
      · exact h.stopped _ _ _ _ _ hsub
      · -- The timer called now is there, hence it has not been stopped.
        obtain ⟨rfl, _⟩ := TimerEntry.called.inj heq
        exact h.not_stopped _ _ _ _ hlive hsub }

/-- Without a callback on a list, those of the next step of the clock are on the list. -/
theorem pending_tick {order : List TimerId}
    (hcalls : s.calls = ⟨remaining + 1, [], inCallback⟩ :: calls) (hpending : s.pending = []) :
    (s.tick order remaining calls).pending =
      (s.timer.addMillisecond.processTimeChange order).2 := by
  rw [pending, hcalls] at hpending
  have hcalls' : calls.flatMap AdvanceCall.fireList = [] := hpending
  change _ ++ calls.flatMap AdvanceCall.fireList = _
  rw [hcalls', List.append_nil]

/-- On a step of the clock, the timers that are due fire. -/
theorem firings_tick {order : List TimerId} {w : CallbackWrapper}
    (hcalls : s.calls = ⟨remaining + 1, [], inCallback⟩ :: calls) (hpending : s.pending = [])
    (hw : s.timer.timerHandles id = some w) :
    (s.tick order remaining calls).firings id = s.firings id ++
      if w.isDue (s.timer.currentTime + 1) = true then [s.timer.currentTime + 1] else [] := by
  have hcount : (s.tick order remaining calls).pending.count id =
      if w.isDue (s.timer.currentTime + 1) = true then 1 else 0 := by
    rw [pending_tick hcalls hpending]
    exact DebugTimer.count_processTimeChange hw
  rw [firings, firings, hcount, hpending, List.count_nil, List.replicate_zero, List.append_nil]
  refine congrArg (times id s.log ++ ·) ?_
  split <;> rfl

theorem Consistent.tick {order : List TimerId} (h : s.Consistent)
    (hcalls : s.calls = ⟨remaining + 1, [], inCallback⟩ :: calls)
    (hpending : s.pending = []) (hnow : s.timer.currentTime < intMax)
    (hspent : ∀ id ∈ s.timer.ids, (s.timer.timerHandles id).any CallbackWrapper.isSpent = false) :
    (s.tick order remaining calls).Consistent where
  defined := by
    change (s.overflowed || _) = false
    rw [h.defined, Bool.false_or, decide_eq_false_iff_not, gt_iff_lt, not_lt]
    exact hnow
  started_lt := h.started_lt
  called_lt := h.called_lt
  live_of_pending id hid := by
    rw [pending_tick hcalls hpending] at hid
    obtain ⟨w, hw, _⟩ := DebugTimer.mem_processTimeChange.1 hid
    exact fun hnone => Option.ne_none_iff_exists'.2 ⟨w, hw⟩ (Option.map_eq_none_iff.1 hnone)
  live_or_stopped id timeout interval time hmem := by
    refine (h.live_or_stopped id timeout interval time hmem).imp_left ?_
    rintro ⟨w, hw, rfl, rfl, rfl⟩
    refine ⟨w.processed (s.timer.currentTime + 1), ?_, CallbackWrapper.timeout_processed,
      CallbackWrapper.interval_processed, CallbackWrapper.initialTime_processed⟩
    exact Option.map_eq_some_iff.2 ⟨w, hw, rfl⟩
  not_stopped id timeout interval time hlive := by
    refine h.not_stopped id timeout interval time fun hnone => hlive ?_
    exact Option.map_eq_none_iff.2 hnone
  scheduled id w' hw' := by
    obtain ⟨w, hw, rfl⟩ := Option.map_eq_some_iff.1 hw'
    have hw : s.timer.timerHandles id = some w := hw
    have hany := hspent id (DebugTimer.mem_ids.2 ⟨w, hw⟩)
    rw [hw] at hany
    rw [firings_tick hcalls hpending hw]
    exact (h.scheduled id w hw).processed hany
  stopped := h.stopped

theorem Consistent.proceed {order : List TimerId} (h : s.Consistent)
    (ho : s.Orderly (.proceed order)) : (s.proceed order).Consistent := by
  rcases hcalls : s.calls with _ | ⟨⟨remaining, fireList, inCallback⟩, calls⟩
  · rw [TimerState.proceed, hcalls]
    exact h
  · rcases fireList with _ | ⟨id, fireList⟩
    · rcases remaining with _ | remaining
      · have hpending : s.pending = pending { s with calls := calls } := by
          rw [pending, hcalls]
          rfl
        rw [TimerState.proceed, hcalls]
        refine { h with live_of_pending := ?_, scheduled := ?_ }
        · rw [← hpending]
          exact h.live_of_pending
        · intro id w hw
          rw [firings, ← hpending]
          exact h.scheduled id w hw
      · obtain ⟨hpending, hnow, hspent⟩ := ho ⟨_, by rw [hcalls]; rfl, Nat.succ_pos _, rfl⟩
        rw [TimerState.proceed, hcalls]
        exact h.tick hcalls hpending hnow hspent
    · rw [TimerState.proceed, hcalls]
      exact h.callBack hcalls

theorem Consistent.step {e : TimerEvent} (h : s.Consistent) (he : Allowed e) (ho : s.Orderly e) :
    (s.step e).Consistent := by
  rcases e with ⟨timeout, interval⟩ | id | delta | order
  · rw [TimerState.step]
    split
    · exact h.start he
    · exact h
  · rw [TimerState.step]
    split
    · next hc => exact h.stop (ho hc)
    · exact h
  · rw [TimerState.step]
    split
    · next hc => exact h.advanceTime (ho hc)
    · exact h
  · exact h.proceed ho

/-- In every run whose steps are all orderly, timers fire on time. -/
theorem onTime_run {es : List TimerEvent} (hes : ∀ e ∈ es, Allowed e)
    (ho : Guarded step Orderly new es) : Always step OnTime new es := by
  have hA : Guarded step (fun _ e => Allowed e) new es := guarded_iff_forall_mem.2 hes
  have hI : Always step Consistent new es :=
    Always.of_step step consistent_new (fun s e hs hg => hs.step hg.1 hg.2) (hA.and ho)
  exact hI.mono fun s hs => hs.onTime

/-- In the callback of a timer, another one is stopped, one is started, and the time is advanced. -/
def nested : List TimerEvent :=
  [.start 1 2, .start 3 0, .advanceTime 3, .proceed [], .proceed [], .stop 1, .start 2 0,
    .advanceTime 1, .proceed [], .proceed [], .proceed [2, 0], .proceed [], .proceed []]

theorem onTime_run_nested : Always step OnTime new nested :=
  onTime_run (by decide) (by decide)

/-- A timer without an interval fires with every step of the clock. -/
theorem not_forall_onTime :
    ¬∀ es : List TimerEvent, (∀ e ∈ es, Allowed e) → Always step OnTime new es := by
  intro h
  have hlast := (h [.start 1 0, .advanceTime 2, .proceed [], .proceed [], .proceed [], .proceed [],
    .proceed []] (by decide)).last
  have hagain := hlast.again 0 1 0 0 ⟨by decide, by decide⟩ (by decide)
  revert hagain
  decide

/-- A callback that is on the list is called, even if its timer has been stopped. -/
example : (run step new [.start 1 5, .start 1 5, .advanceTime 1, .proceed [], .proceed [], .stop 1,
    .proceed []]).log =
      [.called 1 1, .stopped 1, .called 0 1, .started 1 1 5 0, .started 0 1 5 0] := by
  decide

/-- A callback that is on the list waits for one that advances the time. -/
example : (run step new [.start 1 5, .start 1 5, .advanceTime 1, .proceed [], .proceed [],
    .advanceTime 2, .proceed [], .proceed [], .proceed [], .proceed []]).log.head? =
      some (.called 1 3) := by
  decide

end TimerState

end SysAdmin
