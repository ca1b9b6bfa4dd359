import AgentNetwork.Library.ListSet
import AgentNetwork.Library.Traces
import Mathlib.Logic.Function.Basic

namespace AgentNetwork.Bus

open Transition

/-- Where a task is in the calls of the pool: it sleeps and retries with the lock held. -/
inductive PoolStage (κ : Type)
  | outside
  | acquiring
  | connecting
  | sleeping
  | retrying
  | releasing (conn : κ)
  deriving DecidableEq

/-- Waits for the lock. -/
def PoolStage.waits {κ : Type} : PoolStage κ → Bool
  | .acquiring | .retrying | .releasing _ => true
  | .outside | .connecting | .sleeping => false

/-- A pool and its tasks. `created` are the connections made so far, and `held` those that a
task has got and not given back. -/
structure ConnectionPool (τ κ : Type) where
  pool : List κ
  inUse : ListSet κ
  lock : Option τ
  stage : τ → PoolStage κ
  created : List κ
  held : τ → List κ

/-- What happens between two awaits. -/
inductive PoolAction (τ κ : Type)
  | callGet (t : τ)
  | enter (t : τ)
  | connected (t : τ) (conn : κ)
  | connectFails (t : τ)
  | wake (t : τ)
  | callRelease (t : τ) (conn : κ)
  | leave (t : τ)
  deriving DecidableEq

namespace ConnectionPool

variable {τ κ : Type}

def new : ConnectionPool τ κ := ⟨[], .empty, none, fun _ => .outside, [], fun _ => []⟩

variable [DecidableEq τ] [DecidableEq κ]

def goTo (s : ConnectionPool τ κ) (t : τ) (stage : PoolStage κ) : ConnectionPool τ κ :=
  { s with stage := Function.update s.stage t stage }

/-- `get` returns a connection. -/
def handOut (s : ConnectionPool τ κ) (t : τ) (conn : κ) : ConnectionPool τ κ :=
  { s.goTo t .outside with
    inUse := s.inUse.add conn
    held := Function.update s.held t (conn :: s.held t)
    lock := none }

/-- The body of `get`, from the lock to the next await. -/
def enter (maxSize : Nat) (s : ConnectionPool τ κ) (t : τ) : ConnectionPool τ κ :=
  match s.pool.getLast? with
  | some conn => { s with pool := s.pool.dropLast }.handOut t conn
  | none =>
    if s.inUse.elems.length < maxSize then { s.goTo t .connecting with lock := some t }
    else { s.goTo t .sleeping with lock := some t }

/-- The body of `release`, which has no await. -/
def leave (s : ConnectionPool τ κ) (t : τ) (conn : κ) : ConnectionPool τ κ :=
  let s := { s.goTo t .outside with held := Function.update s.held t ((s.held t).filter (· ≠ conn)) }
  if conn ∈ s.inUse then { s with inUse := s.inUse.filter (· ≠ conn), pool := s.pool ++ [conn] } else s

def next (maxSize : Nat) (s : ConnectionPool τ κ) : PoolAction τ κ → Option (ConnectionPool τ κ)
  | .callGet t => if s.stage t = .outside then some (s.goTo t .acquiring) else none
  -- the lock cannot be taken again by the task that holds it
  | .enter t => if (s.stage t = .acquiring ∨ s.stage t = .retrying) ∧ s.lock = none then some (s.enter maxSize t) else none
  | .connected t conn =>
    if s.stage t = .connecting ∧ conn ∉ s.created then some ({ s with created := conn :: s.created }.handOut t conn) else none
  | .connectFails t => if s.stage t = .connecting then some { s.goTo t .outside with lock := none } else none
  | .wake t => if s.stage t = .sleeping then some (s.goTo t .retrying) else none
  | .callRelease t conn => if s.stage t = .outside then some (s.goTo t (.releasing conn)) else none
  | .leave t =>
    match s.stage t with
    | .releasing conn => if s.lock = none then some (s.leave t conn) else none
    | .outside | .acquiring | .connecting | .sleeping | .retrying => none

/-- A step of some task. -/
def Step (maxSize : Nat) (s : ConnectionPool τ κ) (a : PoolAction τ κ) (s' : ConnectionPool τ κ) : Prop :=
  s.next maxSize a = some s'

end ConnectionPool

end AgentNetwork.Bus
