import AgentNetwork.Challenges.Admission
import AgentNetwork.Challenges.Priorities
import AgentNetwork.Library.LockSafety
import Mathlib.Tactic.Linarith
import Mathlib.Tactic.NormNum

/-! Challenge windows behind their lock, and how long they stay open. -/

namespace AgentNetwork.Challenges

open Relational Transactional Transactional.Prog Transition

inductive WindowError
  | valueError (message : String)
  | overflowError (message : String)
  deriving DecidableEq

def defaultWindowDuration : Int := 24 * 60 * 60

namespace WindowManager

def integerError : WindowError := .overflowError "Python int too large to convert to SQLite INTEGER"

/-- `INSERT OR REPLACE`. -/
def replaceRow (taskId : String) (row : WindowInfo) (db : ChallengeWindow) : Except WindowError ChallengeWindow :=
  if FitsInteger row.openedAtNs ∧ FitsInteger row.durationSeconds then .ok (db.upsert taskId row) else .error integerError

def updateRow (taskId : String) (durationSeconds extendedCount : Int) (db : ChallengeWindow) : Except WindowError ChallengeWindow :=
  if FitsInteger durationSeconds ∧ FitsInteger extendedCount then
    .ok (db.modify taskId fun row => { row with durationSeconds, extendedCount })
  else .error integerError

def createWindow (taskId : String) (duration : Option Int) : Prog WindowError ChallengeWindow WindowInfo := do
  let duration := duration.getD defaultWindowDuration
  raiseIf (duration ≤ 0) (.valueError "Duration must be positive")
  let openedAtNs ← timeNs
  withLock <| withConn <| execute (replaceRow taskId ⟨openedAtNs, duration, 0⟩)
  pure ⟨openedAtNs, duration, 0⟩

def getWindow (taskId : String) : Prog WindowError ChallengeWindow (Option WindowInfo) :=
  withLock <| query fun db => db.get? taskId

def isWindowOpen (taskId : String) : Prog WindowError ChallengeWindow Bool := do
  let window ← getWindow taskId
  match window with
  | none => pure false
  | some window => window.isOpen

def extendWindow (taskId : String) (extensionSeconds : Int) : Prog WindowError ChallengeWindow (Option WindowInfo) := do
  raiseIf (extensionSeconds ≤ 0) (.valueError "Extension must be positive")
  withLock do
    let window ← getWindow taskId
    match window with
    | none => pure none
    | some window => do
      let newDuration := window.durationSeconds + extensionSeconds
      let newExtendedCount := window.extendedCount + 1
      withConn <| execute (updateRow taskId newDuration newExtendedCount)
      pure (some ⟨window.openedAtNs, newDuration, newExtendedCount⟩)

def closeWindow (taskId : String) : Prog WindowError ChallengeWindow Bool :=
  withLock <| withConn do
    let found ← query fun db => db.contains taskId
    execute fun db => .ok (db.erase taskId)
    pure found

end WindowManager

inductive WindowCall
  | createWindow (taskId : String) (duration : Option Int)
  | extendWindow (taskId : String) (extensionSeconds : Int)
  | closeWindow (taskId : String)
  | getWindow (taskId : String)
  | isWindowOpen (taskId : String)
  deriving DecidableEq

def WindowCall.run : WindowCall → Prog WindowError ChallengeWindow Unit
  | createWindow taskId duration => do
    let _ ← WindowManager.createWindow taskId duration
  | extendWindow taskId extensionSeconds => do
    let _ ← WindowManager.extendWindow taskId extensionSeconds
  | closeWindow taskId => do
    let _ ← WindowManager.closeWindow taskId
  | getWindow taskId => do
    let _ ← WindowManager.getWindow taskId
  | isWindowOpen taskId => do
    let _ ← WindowManager.isWindowOpen taskId

/-- A window as its users were told: when it was opened, for how long, and by how much
it has been extended since. -/
structure Promise where
  openedAtNs : Int
  durationSeconds : Int
  granted : List Int
  deriving DecidableEq

def Promise.closesAtNs (p : Promise) : Int := p.openedAtNs + (p.durationSeconds + p.granted.sum) * 10 ^ 9

structure WatchedWindows where
  session : Session ChallengeWindow
  promised : String → Option Promise

namespace WatchedWindows

def init (ticks : Nat) : WatchedWindows := ⟨⟨.empty, .empty, false, 0, ticks⟩, fun _ => none⟩

def promise (w : WatchedWindows) (taskId : String) (p : Option Promise) : String → Option Promise :=
  fun id => if id = taskId then p else w.promised id

def call (env : Env) (w : WatchedWindows) : WindowCall → WatchedWindows
  | .createWindow taskId duration =>
    match WindowManager.createWindow taskId duration env w.session with
    | (.returns window, session) => ⟨session, w.promise taskId (some ⟨window.openedAtNs, window.durationSeconds, []⟩)⟩
    | (.raises _, session) | (.blocks, session) => { w with session }
  | .extendWindow taskId extensionSeconds =>
    match WindowManager.extendWindow taskId extensionSeconds env w.session with
    | (.returns (some _), session) =>
      ⟨session, w.promise taskId ((w.promised taskId).map fun p => { p with granted := p.granted ++ [extensionSeconds] })⟩
    | (.returns none, session) | (.raises _, session) | (.blocks, session) => { w with session }
  | .closeWindow taskId =>
    match WindowManager.closeWindow taskId env w.session with
    | (.returns _, session) => ⟨session, w.promise taskId none⟩
    | (.raises _, session) | (.blocks, session) => { w with session }
  | .getWindow taskId => { w with session := (WindowManager.getWindow taskId env w.session).2 }
  | .isWindowOpen taskId => { w with session := (WindowManager.isWindowOpen taskId env w.session).2 }

/-- What `is_window_open` answers at the time `t`. -/
def opensAt (w : WatchedWindows) (taskId : String) (t : Int) : Prop :=
  (WindowManager.isWindowOpen taskId ⟨false, fun _ => t, fun _ => ""⟩ w.session).1 = .returns true

/-- A task is open at the times before its window closes. -/
def KeepsPromises (w : WatchedWindows) : Prop :=
  ∀ taskId t, w.opensAt taskId t ↔ ∃ p, w.promised taskId = some p ∧ t < p.closesAtNs

/-- The call ends with the lock free, and promises are kept after it. -/
structure Serves (env : Env) (w : WatchedWindows) (c : WindowCall) (w' : WatchedWindows) : Prop where
  ends : EndsFree c.run env w.session
  keeps : w'.KeepsPromises

end WatchedWindows

/-- `duration_seconds - elapsed_ns / 1e9`. -/
def remainingTime (durationSeconds elapsedNs : Int) : ℚ :=
  Double.nearest (Double.nearest durationSeconds - Double.nearest (Double.nearest elapsedNs / 1000000000))

/-- For this duration rounding never gets the sign of the remaining time wrong. -/
def RoundsRight (durationSeconds : Int) : Prop :=
  ∀ elapsedNs : Int, 0 < remainingTime durationSeconds elapsedNs ↔ elapsedNs < durationSeconds * 10 ^ 9

/-- No window is extended, and none is created for a duration that rounding gets wrong. -/
def WindowCall.Sound (env : Env) (s : Session ChallengeWindow) : WindowCall → Prop
  | createWindow _ duration =>
    0 < duration.getD defaultWindowDuration → FitsInteger (env.timeNs s.ticks) ∧ FitsInteger (duration.getD defaultWindowDuration) →
      RoundsRight (duration.getD defaultWindowDuration)
  | extendWindow _ extensionSeconds => extensionSeconds ≤ 0
  | closeWindow _ | getWindow _ | isWindowOpen _ => True

/-- Up to 104 days rounding gets it right. -/
theorem roundsRight_of_le {durationSeconds : Int} (hpos : 0 < durationSeconds) (h : durationSeconds ≤ 9007199) :
    RoundsRight durationSeconds := by
  have hduration : Double.nearest (durationSeconds : ℚ) = durationSeconds := Double.nearest_intCast (abs_lt.mpr ⟨by omega, by omega⟩)
  intro elapsedNs
  rw [remainingTime, hduration]
  constructor
  · intro hopen
    by_contra hover
    have hend : Double.nearest ((durationSeconds * 1000000000 : Int) : ℚ) = (durationSeconds * 1000000000 : Int) :=
      Double.nearest_intCast (abs_lt.mpr ⟨by omega, by omega⟩)
    have hreached : (durationSeconds : ℚ) ≤ Double.nearest (Double.nearest elapsedNs / 1000000000) := by
      have hlate : Double.nearest ((durationSeconds * 1000000000 : Int) : ℚ) ≤ Double.nearest elapsedNs :=
        Double.nearest_mono (by exact_mod_cast (by omega : durationSeconds * 1000000000 ≤ elapsedNs))
      rw [hend] at hlate
      push_cast at hlate
      rw [← hduration]
      exact Double.nearest_mono (by linarith)
    exact absurd hopen (not_lt.mpr (Double.nearest_nonpos (by linarith)))
  · intro hearly
    have hlast : Double.nearest ((durationSeconds * 1000000000 - 1 : Int) : ℚ) = (durationSeconds * 1000000000 - 1 : Int) :=
      Double.nearest_intCast (abs_lt.mpr ⟨by omega, by omega⟩)
    have hbefore : Double.nearest elapsedNs ≤ ((durationSeconds * 1000000000 - 1 : Int) : ℚ) := by
      rw [← hlast]
      exact Double.nearest_mono (by exact_mod_cast (by omega : elapsedNs ≤ durationSeconds * 1000000000 - 1))
    have hdivided : Double.nearest (Double.nearest elapsedNs / 1000000000) ≤
        Double.nearest (((durationSeconds * 1000000000 - 1 : Int) : ℚ) / 1000000000) :=
      Double.nearest_mono (by linarith)
    have hone : (1 : ℚ) ≤ durationSeconds := by exact_mod_cast hpos
    have hmany : (durationSeconds : ℚ) ≤ 9007199 := by exact_mod_cast h
    push_cast at hdivided
    have hround := Double.nearest_le (x := ((durationSeconds : ℚ) * 1000000000 - 1) / 1000000000) (by linarith)
    refine Double.nearest_pos ?_
    norm_num at hround
    linarith

section Session

variable {env : Env} {s : Session ChallengeWindow} {taskId : String}

namespace WindowManager

theorem getWindow_free (hs : s.held = false) : getWindow taskId env s = (.returns (s.db.get? taskId), s) := by
  cases s
  cases hs
  rfl

theorem storeRow_overflows (hs : s.held = false) {row : WindowInfo} (h : ¬(FitsInteger row.openedAtNs ∧ FitsInteger row.durationSeconds)) :
    withLock (withConn (execute (replaceRow taskId row))) env s = (.raises integerError, { s with db := s.committed }) := by
  rw [withLock_apply _ (.inl hs), withConn, execute, replaceRow, if_neg h]

theorem storeRow_fits (hs : s.held = false) {row : WindowInfo} (h : FitsInteger row.openedAtNs ∧ FitsInteger row.durationSeconds) :
    withLock (withConn (execute (replaceRow taskId row))) env s =
      (.returns (), { s with db := s.db.upsert taskId row, committed := s.db.upsert taskId row }) := by
  rw [withLock_apply _ (.inl hs), withConn, execute, replaceRow, if_pos h]

theorem createWindow_refused {duration : Option Int} (h : duration.getD defaultWindowDuration ≤ 0) :
    createWindow taskId duration env s = (.raises (.valueError "Duration must be positive"), s) :=
  bind_of_raises (raiseIf_of h)

theorem createWindow_overflows {duration : Option Int} (hs : s.held = false) (h : ¬duration.getD defaultWindowDuration ≤ 0)
    (hfits : ¬(FitsInteger (env.timeNs s.ticks) ∧ FitsInteger (duration.getD defaultWindowDuration))) :
    createWindow taskId duration env s = (.raises integerError, { s with db := s.committed, ticks := s.ticks + 1 }) := by
  rw [createWindow, bind_of_returns (raiseIf_of_not h), bind_of_returns timeNs_apply]
  have hticked : ({ s with ticks := s.ticks + 1 } : Session ChallengeWindow).held = false := hs
  exact bind_of_raises (storeRow_overflows hticked hfits)

theorem createWindow_fits {duration : Option Int} (hs : s.held = false) (h : ¬duration.getD defaultWindowDuration ≤ 0)
    (hfits : FitsInteger (env.timeNs s.ticks) ∧ FitsInteger (duration.getD defaultWindowDuration)) :
    createWindow taskId duration env s = (.returns ⟨env.timeNs s.ticks, duration.getD defaultWindowDuration, 0⟩,
      { s with
        db := s.db.upsert taskId ⟨env.timeNs s.ticks, duration.getD defaultWindowDuration, 0⟩
        committed := s.db.upsert taskId ⟨env.timeNs s.ticks, duration.getD defaultWindowDuration, 0⟩
        ticks := s.ticks + 1 }) := by
  rw [createWindow, bind_of_returns (raiseIf_of_not h), bind_of_returns timeNs_apply]
  have hticked : ({ s with ticks := s.ticks + 1 } : Session ChallengeWindow).held = false := hs
  exact bind_of_returns (storeRow_fits hticked hfits)

theorem extendWindow_refused {extensionSeconds : Int} (h : extensionSeconds ≤ 0) :
    extendWindow taskId extensionSeconds env s = (.raises (.valueError "Extension must be positive"), s) :=
  bind_of_raises (raiseIf_of h)

/-- `get_window` waits for the lock that `extend_window` holds. -/
theorem extendWindow_blocks {extensionSeconds : Int} (henv : env.reentrant = false) (hs : s.held = false) (h : ¬extensionSeconds ≤ 0) :
    (extendWindow taskId extensionSeconds env s).1 = .blocks := by
  have hwaits : getWindow taskId env { s with held := true } = (.blocks, { s with held := true }) := withLock_held henv rfl
  rw [extendWindow, bind_of_returns (raiseIf_of_not h), withLock_apply _ (.inl hs), bind_of_blocks hwaits]

theorem closeWindow_free (hs : s.held = false) : closeWindow taskId env s =
    (.returns (s.db.contains taskId), { s with db := s.db.erase taskId, committed := s.db.erase taskId }) := by
  rw [closeWindow, withLock_apply _ (.inl hs)]
  rfl

theorem isWindowOpen_free (hs : s.held = false) : isWindowOpen taskId env s =
    match s.db.get? taskId with
    | none => (.returns false, s)
    | some window => (.returns (decide (0 < remainingTime window.durationSeconds (env.timeNs s.ticks - window.openedAtNs))),
        { s with ticks := s.ticks + 1 }) := by
  rw [isWindowOpen, bind_of_returns (getWindow_free hs)]
  cases s.db.get? taskId with
  | none => rfl
  | some window =>
    have hmax : ∀ remaining : ℚ, decide (0 < max 0 remaining) = decide (0 < remaining) := fun remaining => by simp
    exact congrArg (fun isOpen => (Outcome.returns isOpen, { s with ticks := s.ticks + 1 })) (hmax _)

end WindowManager

end Session

namespace WatchedWindows

variable {env : Env} {w : WatchedWindows} {c : WindowCall}

/-- What is promised stands in the table, and rounding gets it right. -/
structure Tracked (w : WatchedWindows) : Prop where
  free : w.session.held = false
  clean : w.session.db = w.session.committed
  promised : ∀ taskId, w.promised taskId = (w.session.db.get? taskId).map fun window =>
    ⟨window.openedAtNs, window.durationSeconds, []⟩
  rounds : ∀ taskId window, w.session.db.get? taskId = some window → RoundsRight window.durationSeconds

theorem opensAt_iff (hs : w.session.held = false) (taskId : String) (t : Int) : w.opensAt taskId t ↔
    ∃ window, w.session.db.get? taskId = some window ∧ 0 < remainingTime window.durationSeconds (t - window.openedAtNs) := by
  rw [opensAt, WindowManager.isWindowOpen_free hs]
  cases w.session.db.get? taskId with
  | none => exact iff_of_false (fun h => Bool.false_ne_true (Outcome.returns.inj h)) (fun ⟨_, h, _⟩ => nomatch h)
  | some window => simp

theorem Tracked.keeps (h : Tracked w) : w.KeepsPromises := by
  intro taskId t
  rw [opensAt_iff h.free, h.promised]
  constructor
  · rintro ⟨window, hget, hopen⟩
    have hearly := (h.rounds taskId window hget _).mp hopen
    rw [hget]
    refine ⟨_, rfl, ?_⟩
    rw [Promise.closesAtNs, List.sum_nil]
    dsimp only
    omega
  · rintro ⟨p, hp, ht⟩
    obtain ⟨window, hget, rfl⟩ := Option.map_eq_some_iff.mp hp
    rw [Promise.closesAtNs, List.sum_nil] at ht
    dsimp only at ht
    exact ⟨window, hget, (h.rounds taskId window hget _).mpr (by omega)⟩

/-- A call that serves and after which all stays tracked. -/
def Exact (env : Env) (w : WatchedWindows) (c : WindowCall) : Prop :=
  (Serves env w c (w.call env c) ↔ c.Sound env w.session) ∧ (c.Sound env w.session → Tracked (w.call env c))

theorem exact_of_tracked (hends : EndsFree c.run env w.session) (h : Tracked (w.call env c)) (hsound : c.Sound env w.session) :
    Exact env w c := ⟨iff_of_true ⟨hends, h.keeps⟩ hsound, fun _ => h⟩

theorem endsFree_of_returns {s s' : Session ChallengeWindow} (h : c.run env s = (.returns (), s')) (hfree : s'.held = false) :
    EndsFree c.run env s := by
  rw [EndsFree, h]
  exact ⟨by simp, hfree⟩

theorem endsFree_of_raises {e : WindowError} {s s' : Session ChallengeWindow} (h : c.run env s = (.raises e, s'))
    (hfree : s'.held = false) : EndsFree c.run env s := by
  rw [EndsFree, h]
  exact ⟨by simp, hfree⟩

theorem exact_createWindow (h : Tracked w) (taskId : String) (duration : Option Int) : Exact env w (.createWindow taskId duration) := by
  by_cases hnonpos : duration.getD defaultWindowDuration ≤ 0
  · have hrefused := @WindowManager.createWindow_refused env w.session taskId duration hnonpos
    have hcall : w.call env (.createWindow taskId duration) = w := by rw [call, hrefused]
    refine exact_of_tracked (endsFree_of_raises (bind_of_raises hrefused) h.free) (by rwa [hcall]) fun hpos => ?_
    exact absurd hnonpos (not_le.mpr hpos)
  by_cases hfits : FitsInteger (env.timeNs w.session.ticks) ∧ FitsInteger (duration.getD defaultWindowDuration)
  · have hcreated := @WindowManager.createWindow_fits env w.session taskId duration h.free hnonpos hfits
    have hends : EndsFree (WindowCall.createWindow taskId duration).run env w.session :=
      endsFree_of_returns (bind_of_returns hcreated) h.free
    have hget : ∀ id, (w.call env (.createWindow taskId duration)).session.db.get? id =
        if id = taskId then some ⟨env.timeNs w.session.ticks, duration.getD defaultWindowDuration, 0⟩ else w.session.db.get? id := by
      intro id
      rw [call, hcreated]
      exact Table.get?_upsert ..
    have hpromised : ∀ id, (w.call env (.createWindow taskId duration)).promised id =
        if id = taskId then some ⟨env.timeNs w.session.ticks, duration.getD defaultWindowDuration, []⟩ else w.promised id := by
      intro id
      rw [call, hcreated]
      rfl
    have hfree : (w.call env (.createWindow taskId duration)).session.held = false := by
      rw [call, hcreated]
      exact h.free
    have hclean : (w.call env (.createWindow taskId duration)).session.db = (w.call env (.createWindow taskId duration)).session.committed := by
      rw [call, hcreated]
    have htracked : RoundsRight (duration.getD defaultWindowDuration) → Tracked (w.call env (.createWindow taskId duration)) := by
      intro hrounds
      refine ⟨hfree, hclean, fun id => ?_, fun id window hid => ?_⟩
      · rw [hpromised, hget, h.promised]
        split <;> rfl
      · rw [hget] at hid
        split at hid
        next =>
          cases hid
          exact hrounds
        next => exact h.rounds id window hid
    refine ⟨⟨fun hserves hpos hfits' => ?_, fun hsound => ⟨hends, ?_⟩⟩, fun hsound => htracked (hsound (not_le.mp hnonpos) hfits)⟩
    · -- any time that has elapsed is reached by some instant
      intro elapsedNs
      have hopens := hserves.keeps taskId (env.timeNs w.session.ticks + elapsedNs)
      rw [opensAt_iff hfree, hget, hpromised, if_pos rfl, if_pos rfl] at hopens
      simpa [Promise.closesAtNs] using hopens
    · exact (htracked (hsound (not_le.mp hnonpos) hfits)).keeps
  · have hraised := @WindowManager.createWindow_overflows env w.session taskId duration h.free hnonpos hfits
    have hcall : w.call env (.createWindow taskId duration) =
        { w with session := { w.session with db := w.session.committed, ticks := w.session.ticks + 1 } } := by rw [call, hraised]
    refine exact_of_tracked (endsFree_of_raises (bind_of_raises hraised) h.free) ?_ fun _ hfits' => absurd hfits' hfits
    rw [hcall, ← h.clean]
    exact ⟨h.free, h.clean, h.promised, h.rounds⟩

theorem exact_extendWindow (henv : env.reentrant = false) (h : Tracked w) (taskId : String) (extensionSeconds : Int) :
    Exact env w (.extendWindow taskId extensionSeconds) := by
  by_cases hnonpos : extensionSeconds ≤ 0
  · have hrefused := @WindowManager.extendWindow_refused env w.session taskId extensionSeconds hnonpos
    have hcall : w.call env (.extendWindow taskId extensionSeconds) = w := by rw [call, hrefused]
    exact exact_of_tracked (endsFree_of_raises (bind_of_raises hrefused) h.free) (by rwa [hcall]) hnonpos
  · have hblocks := @WindowManager.extendWindow_blocks env w.session taskId extensionSeconds henv h.free hnonpos
    have hnever : ¬EndsFree (WindowCall.extendWindow taskId extensionSeconds).run env w.session := by
      rw [WindowCall.run, bind_pure_endsFree_iff]
      exact fun hends => hends.1 hblocks
    exact ⟨iff_of_false (fun hserves => hnever hserves.ends) hnonpos, fun hsound => absurd hsound hnonpos⟩

theorem exact_closeWindow (h : Tracked w) (taskId : String) : Exact env w (.closeWindow taskId) := by
  have hclosed := @WindowManager.closeWindow_free env w.session taskId h.free
  refine exact_of_tracked (endsFree_of_returns (bind_of_returns hclosed) h.free) ?_ trivial
  have hcall : w.call env (.closeWindow taskId) = ⟨{ w.session with db := w.session.db.erase taskId, committed := w.session.db.erase taskId },
      w.promise taskId none⟩ := by rw [call, hclosed]
  rw [hcall]
  refine ⟨h.free, rfl, fun id => ?_, fun id window hid => ?_⟩
  · have hpromise : w.promise taskId none id = if id = taskId then none else w.promised id := rfl
    refine hpromise.trans ?_
    rw [Table.get?_erase, h.promised]
    split <;> rfl
  · rw [Table.get?_erase] at hid
    split at hid
    next => cases hid
    next => exact h.rounds id window hid

theorem Tracked.tick (h : Tracked w) (ticks : Nat) : Tracked { w with session := { w.session with ticks } } :=
  ⟨h.free, h.clean, h.promised, h.rounds⟩

theorem exact_getWindow (h : Tracked w) (taskId : String) : Exact env w (.getWindow taskId) := by
  have hgot := @WindowManager.getWindow_free env w.session taskId h.free
  have hcall : w.call env (.getWindow taskId) = w := by rw [call, hgot]
  exact exact_of_tracked (endsFree_of_returns (bind_of_returns hgot) h.free) (by rwa [hcall]) trivial

theorem exact_isWindowOpen (h : Tracked w) (taskId : String) : Exact env w (.isWindowOpen taskId) := by
  have hasked := @WindowManager.isWindowOpen_free env w.session taskId h.free
  cases hget : w.session.db.get? taskId with
  | none =>
    rw [hget] at hasked
    have hcall : w.call env (.isWindowOpen taskId) = w := by rw [call, hasked]
    exact exact_of_tracked (endsFree_of_returns (bind_of_returns hasked) h.free) (by rwa [hcall]) trivial
  | some window =>
    rw [hget] at hasked
    have hcall : w.call env (.isWindowOpen taskId) = { w with session := { w.session with ticks := w.session.ticks + 1 } } := by
      rw [call, hasked]
    exact exact_of_tracked (endsFree_of_returns (bind_of_returns hasked) h.free) (by rw [hcall]; exact h.tick _) trivial

theorem exact_call (henv : env.reentrant = false) (h : Tracked w) (c : WindowCall) : Exact env w c := by
  cases c with
  | createWindow taskId duration => exact exact_createWindow h taskId duration
  | extendWindow taskId extensionSeconds => exact exact_extendWindow henv h taskId extensionSeconds
  | closeWindow taskId => exact exact_closeWindow h taskId
  | getWindow taskId => exact exact_getWindow h taskId
  | isWindowOpen taskId => exact exact_isWindowOpen h taskId

theorem tracked_init (ticks : Nat) : Tracked (init ticks) := ⟨rfl, rfl, fun _ => rfl, fun _ _ h => nomatch h⟩

end WatchedWindows

open WatchedWindows in
/-- Every call of a run ends with the lock free and keeps the promises just when no
window is extended and none is created for a duration that rounding gets wrong. -/
theorem windows_extend_iff {env : Env} (henv : env.reentrant = false) (ticks : Nat) (calls : List WindowCall) :
    (∀ e ∈ stepsOf (call env) (init ticks) calls, Serves env e.1 e.2.1 e.2.2) ↔
      ∀ e ∈ stepsOf (call env) (init ticks) calls, e.2.1.Sound env e.1.session := by
  have htrace : Trace (fun w c w' => w' = w.call env c) (init ticks) (stepsOf (call env) (init ticks) calls)
      (calls.foldl (call env) (init ticks)) := Trace.ofCalls stepsOf_call
  refine @Trace.forall_iff _ _ _ _ _ _ (fun w c => c.Sound env w.session) Tracked _ htrace (tracked_init ticks) ?_ ?_
  · rintro w c w' h hsound rfl
    exact (exact_call henv h c).2 hsound
  · rintro w c w' h rfl
    exact (exact_call henv h c).1

/-- A clock that stands still at 0. -/
def stoppedClock : Env := ⟨false, fun _ => 0, fun _ => ""⟩

open WatchedWindows in
theorem windows_extend_iff_closed :
    (stepsOf (call stoppedClock) (init 0) [.createWindow "task" none, .closeWindow "task"]).length = 2 ∧
    ∀ e ∈ stepsOf (call stoppedClock) (init 0) [.createWindow "task" none, .closeWindow "task"], Serves stoppedClock e.1 e.2.1 e.2.2 := by
  refine ⟨rfl, (windows_extend_iff rfl 0 [.createWindow "task" none, .closeWindow "task"]).mpr ?_⟩
  refine List.forall_mem_cons.mpr ⟨fun _ _ => roundsRight_of_le (by decide) (by decide), ?_⟩
  exact List.forall_mem_singleton.mpr trivial

open WatchedWindows in
/-- An hour more for a window of a day never comes. -/
theorem extension_waits_for_itself :
    ¬∀ e ∈ stepsOf (call stoppedClock) (init 0) [.createWindow "task" none, .extendWindow "task" 3600], Serves stoppedClock e.1 e.2.1 e.2.2 := by
  intro h
  have hends := (h _ (List.mem_cons_of_mem _ (List.mem_singleton_self _))).ends
  exact absurd hends.1 (by decide)

end AgentNetwork.Challenges
