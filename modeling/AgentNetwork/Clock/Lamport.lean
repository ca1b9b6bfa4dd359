import AgentNetwork.Library.PythonInt
import AgentNetwork.Library.Traces

namespace AgentNetwork.Clock

open Python Transition

def batchInterval : ℚ := 1

def batchSize : Nat := 100

/-- `_read`: the counter in the file, 0 when there is none. -/
def readCounter (file : Option String) : Int :=
  match file with
  | none => 0
  | some text =>
    match Json.loads text with
    | some (.obj fields) => (toInt? ((fields.lookup "counter").getD (.int 0))).getD 0
    | some _ | none => 0

/-- `_write`: the text that is written. -/
def counterText (value : Int) : String := (Json.obj [("counter", .int value)]).write Json.defaultStyle

theorem readCounter_counterText (value : Int) : readCounter (some (counterText value)) = value := by
  have hread : Json.loads (counterText value) = some (.obj [("counter", .int value)]) :=
    Json.loads_write rfl Json.defaultStyle_readable _ rfl
  simp [readCounter, hread, toInt?]

structure Lamport where
  counter : Int
  dirty : Bool
  lastWriteTime : ℚ
  ticksSinceWrite : Nat

structure Process where
  file : Option String
  clock : Lamport

namespace Process

def start (file : Option String) (now : ℚ) : Process := ⟨file, readCounter file, false, now, 0⟩

def write (s : Process) (now : ℚ) : Process := ⟨some (counterText s.clock.counter), s.clock.counter, false, now, 0⟩

def flushUnsafe (s : Process) (now : ℚ) : Process := if s.clock.dirty then s.write now else s

/-- The readings of the time are the one that is checked and the one after a write. -/
def tick (s : Process) (checked written : ℚ) : Int × Process :=
  let ticked : Process := ⟨s.file, s.clock.counter + 1, true, s.clock.lastWriteTime, s.clock.ticksSinceWrite + 1⟩
  if batchSize ≤ ticked.clock.ticksSinceWrite then (ticked.clock.counter, ticked.flushUnsafe written)
  else if batchInterval ≤ Double.nearest (checked - ticked.clock.lastWriteTime) then
    (ticked.clock.counter, ticked.flushUnsafe written)
  else (ticked.clock.counter, ticked)

def observe (s : Process) (other : Int) (written : ℚ) : Int × Process :=
  let counter := max s.clock.counter other + 1
  (counter, write ⟨s.file, { s.clock with counter := counter }⟩ written)

/-- A crash drops the clock in memory, a restart reads the file. -/
def restart (s : Process) (now : ℚ) : Process := start s.file now

end Process

inductive ClockOp
  | tick (checked written : ℚ)
  | observe (other : Int) (written : ℚ)
  | flush (written : ℚ)
  | restart (now : ℚ)

/-- What an operation returns, and the clock and the file after it. -/
def ClockOp.run (s : Process) : ClockOp → Option Int × Process
  | .tick checked written => ((s.tick checked written).1, (s.tick checked written).2)
  | .observe other written => ((s.observe other written).1, (s.observe other written).2)
  | .flush written => (none, s.flushUnsafe written)
  | .restart now => (none, s.restart now)

/-- A run so far. `lost` is the counter that a crash has dropped before it was written,
as long as nothing has been returned since. -/
structure ClockRun where
  process : Process
  returned : List Int
  lost : Option Int

namespace ClockRun

def start (file : Option String) (now : ℚ) : ClockRun := ⟨.start file now, [], none⟩

def lostAfter (r : ClockRun) : ClockOp → Option Int
  | .tick _ _ | .observe _ _ => none
  | .flush _ => r.lost
  | .restart _ => if r.process.clock.dirty then some r.process.clock.counter else r.lost

def step (r : ClockRun) (op : ClockOp) : ClockRun where
  process := (op.run r.process).2
  returned := r.returned ++ (op.run r.process).1.toList
  lost := r.lostAfter op

/-- After a crash that has dropped a counter the next value is asked for by an
`observe` of at least that counter. -/
def Recovers (r : ClockRun) : ClockOp → Prop
  | .tick _ _ => r.lost = none
  | .observe other _ => ∀ c ∈ r.lost, c ≤ other
  | .flush _ | .restart _ => True

/-- The operation returns more than was returned before. -/
def Exceeds (r : ClockRun) (op : ClockOp) : Prop := ∀ v ∈ (op.run r.process).1, ∀ w ∈ r.returned, w < v

/-- The file is behind the counter just when a tick is not yet written. -/
structure Kept (s : Process) : Prop where
  synced : s.clock.dirty = false → readCounter s.file = s.clock.counter
  behind : s.clock.dirty = true → readCounter s.file < s.clock.counter

/-- The largest value returned is the counter, or the one that was lost. -/
structure Sound (r : ClockRun) : Prop where
  kept : Kept r.process
  unwritten : r.process.clock.dirty = true → r.lost = none ∧ r.process.clock.counter ∈ r.returned
  atMost : r.lost = none → ∀ v ∈ r.returned, v ≤ r.process.clock.counter
  lostOne : ∀ c ∈ r.lost, c ∈ r.returned ∧ r.process.clock.counter < c ∧ ∀ v ∈ r.returned, v ≤ c

theorem kept_start (file : Option String) (now : ℚ) : Kept (.start file now) := ⟨fun _ => rfl, nofun⟩

theorem kept_write (s : Process) (now : ℚ) : Kept (s.write now) := ⟨fun _ => readCounter_counterText _, nofun⟩

theorem Kept.le {s : Process} (h : Kept s) : readCounter s.file ≤ s.clock.counter := by
  cases hdirty : s.clock.dirty with
  | false => exact le_of_eq (h.synced hdirty)
  | true => exact le_of_lt (h.behind hdirty)

theorem tick_spec {s : Process} (h : Kept s) (checked written : ℚ) :
    (s.tick checked written).1 = s.clock.counter + 1 ∧ (s.tick checked written).2.clock.counter = s.clock.counter + 1 ∧
      Kept (s.tick checked written).2 := by
  have hle := h.le
  have hticked : Kept ⟨s.file, s.clock.counter + 1, true, s.clock.lastWriteTime, s.clock.ticksSinceWrite + 1⟩ := by
    refine ⟨nofun, fun _ => ?_⟩
    dsimp only
    omega
  unfold Process.tick
  dsimp only
  split
  · exact ⟨rfl, rfl, kept_write _ _⟩
  · split
    · exact ⟨rfl, rfl, kept_write _ _⟩
    · exact ⟨rfl, rfl, hticked⟩

theorem sound_start (file : Option String) (now : ℚ) : Sound (start file now) where
  kept := kept_start file now
  unwritten := nofun
  atMost := fun _ => nofun
  lostOne := nofun

section Steps

variable {r : ClockRun} {op : ClockOp}

theorem Sound.tick (h : Sound r) (hlost : r.lost = none) (checked written : ℚ) : Sound (r.step (.tick checked written)) := by
  obtain ⟨hvalue, hcounter, hkept⟩ := tick_spec h.kept checked written
  have hatMost := h.atMost hlost
  refine ⟨hkept, fun _ => ⟨rfl, ?_⟩, fun _ v hv => ?_, nofun⟩
  · rw [show (r.step (.tick checked written)).process.clock.counter = _ from hcounter, ← hvalue]
    exact List.mem_append_right _ (List.mem_singleton_self _)
  · rw [show (r.step (.tick checked written)).process.clock.counter = _ from hcounter]
    rcases List.mem_append.mp hv with hv | hv
    · have hle := hatMost v hv
      omega
    · rw [List.mem_singleton.mp hv, hvalue]

theorem Sound.below_observe (h : Sound r) {other : Int} (ok : ∀ c ∈ r.lost, c ≤ other) {v : Int} (hv : v ∈ r.returned) :
    v < max r.process.clock.counter other + 1 := by
  cases hlost : r.lost with
  | none =>
    have hle := h.atMost hlost v hv
    omega
  | some c =>
    have hle := (h.lostOne c hlost).2.2 v hv
    have hother := ok c hlost
    omega

theorem Sound.observe (h : Sound r) {other : Int} (ok : ∀ c ∈ r.lost, c ≤ other) (written : ℚ) :
    Sound (r.step (.observe other written)) := by
  refine ⟨kept_write _ _, nofun, fun _ v hv => ?_, nofun⟩
  change v ≤ max r.process.clock.counter other + 1
  rcases List.mem_append.mp hv with hv | hv
  · exact le_of_lt (h.below_observe ok hv)
  · exact le_of_eq (List.mem_singleton.mp hv)

theorem Sound.flush (h : Sound r) (written : ℚ) : Sound (r.step (.flush written)) := by
  have hreturned : (r.step (.flush written)).returned = r.returned := List.append_nil _
  have hcounter : (r.process.flushUnsafe written).clock.counter = r.process.clock.counter := by
    unfold Process.flushUnsafe
    split <;> rfl
  have hkept : Kept (r.process.flushUnsafe written) := by
    unfold Process.flushUnsafe
    split
    · exact kept_write _ _
    · exact h.kept
  have hclean : (r.process.flushUnsafe written).clock.dirty = false := by
    unfold Process.flushUnsafe
    split
    · rfl
    next hdirty => exact Bool.eq_false_iff.mpr hdirty
  refine ⟨hkept, fun hdirty => ?_, fun hlost v hv => ?_, fun c hc => ?_⟩
  · exact absurd (hclean.symm.trans hdirty) Bool.false_ne_true
  · rw [hreturned] at hv
    exact le_of_le_of_eq (h.atMost hlost v hv) hcounter.symm
  · rw [hreturned]
    obtain ⟨hmem, hlt, hall⟩ := h.lostOne c hc
    exact ⟨hmem, lt_of_eq_of_lt hcounter hlt, hall⟩

/-- A crash with a tick that is not written loses the counter, any other nothing. -/
theorem Sound.restart (h : Sound r) (now : ℚ) : Sound (r.step (.restart now)) := by
  have hreturned : (r.step (.restart now)).returned = r.returned := List.append_nil _
  cases hdirty : r.process.clock.dirty with
  | true =>
    obtain ⟨hnone, hmem⟩ := h.unwritten hdirty
    have hlost : (r.step (.restart now)).lost = some r.process.clock.counter := if_pos hdirty
    refine ⟨kept_start _ _, nofun, fun hnot => ?_, fun c hc => ?_⟩
    · rw [hlost] at hnot
      cases hnot
    · rw [hreturned]
      cases hlost.symm.trans hc
      exact ⟨hmem, h.kept.behind hdirty, h.atMost hnone⟩
  | false =>
    have hlost : (r.step (.restart now)).lost = r.lost := if_neg (by simp [hdirty])
    have hcounter : (r.step (.restart now)).process.clock.counter = r.process.clock.counter := h.kept.synced hdirty
    refine ⟨kept_start _ _, nofun, fun hnot v hv => ?_, fun c hc => ?_⟩
    · rw [hreturned] at hv
      exact le_of_le_of_eq (h.atMost (hlost.symm.trans hnot) v hv) hcounter.symm
    · obtain ⟨hmem, hlt, hall⟩ := h.lostOne c (hlost.symm.trans hc)
      rw [hreturned]
      exact ⟨hmem, lt_of_eq_of_lt hcounter hlt, hall⟩

theorem Sound.step (h : Sound r) (ok : r.Recovers op) : Sound (r.step op) := by
  cases op with
  | tick checked written => exact h.tick ok checked written
  | observe other written => exact h.observe ok written
  | flush written => exact h.flush written
  | restart now => exact h.restart now

theorem Sound.exceeds_iff (h : Sound r) : r.Exceeds op ↔ r.Recovers op := by
  cases op with
  | tick checked written =>
    have hvalue := (tick_spec h.kept checked written).1
    constructor
    · intro hexceeds
      cases hlost : r.lost with
      | none => exact hlost
      | some c =>
        obtain ⟨hmem, hlt, -⟩ := h.lostOne c hlost
        have hc := hexceeds _ rfl c hmem
        rw [hvalue] at hc
        omega
    · intro hlost v hv w hw
      have hle := h.atMost hlost w hw
      have hv' : (r.process.tick checked written).1 = v := Option.some.inj hv
      omega
  | observe other written =>
    constructor
    · intro hexceeds c hlost
      obtain ⟨hmem, hlt, -⟩ := h.lostOne c hlost
      have hc : c < max r.process.clock.counter other + 1 := hexceeds _ rfl c hmem
      omega
    · intro ok v hv w hw
      have hv' : max r.process.clock.counter other + 1 = v := Option.some.inj hv
      have hlt := h.below_observe ok hw
      omega
  | flush | restart => exact ⟨fun _ => trivial, fun _ => nofun⟩

end Steps

/-- Values are returned in increasing order just when each one exceeds those before it. -/
theorem increasing_iff {first last : ClockRun} {steps : List (ClockRun × ClockOp × ClockRun)}
    (h : Trace (fun r op r' => r' = r.step op) first steps last) (hfirst : first.returned = []) :
    last.returned.Pairwise (· < ·) ↔ ∀ e ∈ steps, e.1.Exceeds e.2.1 := by
  induction h with
  | start =>
    rw [hfirst]
    exact ⟨fun _ => List.forall_mem_nil _, fun _ => List.Pairwise.nil⟩
  | @next steps r r' op hrun hstep ih =>
    subst hstep
    rw [List.forall_mem_append, List.forall_mem_singleton, ← ih, ClockRun.step, List.pairwise_append]
    refine and_congr_right fun _ => ?_
    unfold Exceeds
    cases (op.run r.process).1 with
    | none => simp
    | some v => simp

/-- The values of a clock never repeat or go backwards as long as every lost counter is
observed before the next value. -/
theorem values_increase_iff (file : Option String) (now : ℚ) (ops : List ClockOp) :
    (ops.foldl step (start file now)).returned.Pairwise (· < ·) ↔
      ∀ e ∈ stepsOf step (start file now) ops, e.1.Recovers e.2.1 := by
  have hrun : Trace (fun r op r' => r' = r.step op) (start file now) (stepsOf step (start file now) ops)
      (ops.foldl step (start file now)) := Trace.ofCalls stepsOf_call
  rw [increasing_iff hrun rfl]
  refine @Trace.forall_iff _ _ _ _ _ _ Recovers Sound (fun r op _ => r.Exceeds op) hrun (sound_start file now) ?_ ?_
  · intro r op r' hI ok hstep
    rw [hstep]
    exact hI.step ok
  · exact fun hI _ => hI.exceeds_iff

/-- A tick, a crash before it is written, and a tick after the restart: 1 is returned twice. -/
theorem tick_repeats :
    ¬((([.tick 0 0, .restart 0, .tick 0 0] : List ClockOp).foldl step (start none 0)).returned.Pairwise (· < ·)) := by
  decide +kernel

end ClockRun

end AgentNetwork.Clock
