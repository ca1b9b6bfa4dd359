import AgentNetwork.Challenges.Priorities
import AgentNetwork.Library.JsonWriter
import AgentNetwork.Library.ListSet
import AgentNetwork.Library.Program
import AgentNetwork.Library.PythonValues
import AgentNetwork.Library.StableSort
import AgentNetwork.Library.Table
import AgentNetwork.Policy.Envelope
import Mathlib.Algebra.Order.Ring.Rat
import Mathlib.Data.List.Dedup
import Mathlib.Data.Prod.Lex
import Mathlib.Order.WithBot

/-! The registry of the marketplace: its four tables, the calls that write them and
the search. -/

namespace AgentNetwork.Marketplace

open Relational Transactional Transactional.Prog Python StableSort
open AgentNetwork.Policy (Dict getOr)
open AgentNetwork.Challenges (FitsInteger)

inductive AgentStatus
  | active
  | inactive
  | suspended
  deriving DecidableEq

/-- What a REAL column holds: a number or an infinity. -/
abbrev SqlReal := WithTop (WithBot ℚ)

/-- The float that is bound to a REAL column; NaN is bound as NULL. -/
def SqlReal.ofNumber : Number → Option SqlReal
  | .finite q => some ((q : WithBot ℚ) : SqlReal)
  | .posInf => some ⊤
  | .negInf => some ((⊥ : WithBot ℚ) : SqlReal)
  | .nan => none

/-- The text of a manifest as it is stored, with what it reads back as. -/
structure StoredManifest where
  text : String
  value : Dict
  reads : Json.loads text = some (.obj value)
  deriving DecidableEq

/-- A manifest as a caller gives it. -/
structure Manifest where
  fields : Dict
  wellFormed : Json.wellFormedFields fields = true

def Manifest.stored (m : Manifest) : StoredManifest where
  text := (Json.obj m.fields).write Json.defaultStyle
  value := m.fields
  reads := Json.loads_write rfl Json.defaultStyle_readable (.obj m.fields) m.wellFormed

/-- `agent_registrations`, but for the agent's id. -/
structure Registration where
  registrationId : String
  manifest : StoredManifest
  stake : SqlReal
  status : AgentStatus
  registeredAt : ℚ
  updatedAt : ℚ
  deriving DecidableEq

/-- `agent_stats`, but for the agent's id. -/
structure StatsRow where
  totalTasks : Int
  completedTasks : Int
  failedTasks : Int
  totalResponseTimeMs : SqlReal
  totalEarnings : SqlReal
  reputationScore : Option SqlReal
  lastActive : ℚ
  totalUptimeSeconds : SqlReal
  deriving DecidableEq

structure RegistryDb where
  registrations : Table String Registration
  capabilities : ListSet (String × String)
  tags : ListSet (String × String)
  stats : Table String StatsRow
  deriving DecidableEq

def RegistryDb.empty : RegistryDb := ⟨.empty, .empty, .empty, .empty⟩

inductive RegistryError
  | valueError (message : String)
  | integrityError (message : String)
  | overflowError (message : String)
  | bindingError (parameter : Nat)
  | raised (e : Exn)
  deriving DecidableEq

namespace AgentRegistry

/-- Makes what the connection sees permanent. -/
def commit : Prog RegistryError RegistryDb Unit := fun _ s => (.returns (), { s with committed := s.db })

section Writes

-- The text that SQLite makes of a float; NaN is bound as NULL and has none.
variable (realText : String → Option String)

/-- The text that a TEXT column keeps of the second parameter of a statement. -/
def textOf (column : String) : Json → Except RegistryError String
  | .str s => .ok s
  | .int n => if FitsInteger n then .ok (toString n) else .error (.overflowError "Python int too large to convert to SQLite INTEGER")
  | .bool b => .ok (if b then "1" else "0")
  | .float literal =>
    match realText literal with
    | some text => .ok text
    | none => .error (.integrityError ("NOT NULL constraint failed: " ++ column))
  | .null => .error (.integrityError ("NOT NULL constraint failed: " ++ column))
  | .arr _ | .obj _ => .error (.bindingError 2)

/-- A table of values of the agents, with the field of the manifest that lists them. -/
structure ValueTable where
  table : String
  column : String
  field : String
  rows : RegistryDb → ListSet (String × String)
  withRows : ListSet (String × String) → RegistryDb → RegistryDb
  rows_withRows : ∀ r db, rows (withRows r db) = r
  withRows_rows : ∀ db, withRows (rows db) db = db
  withRows_withRows : ∀ r r' db, withRows r (withRows r' db) = withRows r db

def capabilityTable : ValueTable where
  table := "agent_capabilities"
  column := "capability"
  field := "capabilities"
  rows := RegistryDb.capabilities
  withRows := fun rows db => { db with capabilities := rows }
  rows_withRows := fun _ _ => rfl
  withRows_rows := fun _ => rfl
  withRows_withRows := fun _ _ _ => rfl

def tagTable : ValueTable where
  table := "agent_tags"
  column := "tag"
  field := "tags"
  rows := RegistryDb.tags
  withRows := fun rows db => { db with tags := rows }
  rows_withRows := fun _ _ => rfl
  withRows_rows := fun _ => rfl
  withRows_withRows := fun _ _ _ => rfl

/-- `INSERT` of one value of an agent. -/
def insertValue (t : ValueTable) (agentId : String) (value : Json) : Prog RegistryError RegistryDb Unit :=
  execute fun db => do
    let text ← textOf realText (t.table ++ "." ++ t.column) value
    if (agentId, text) ∈ t.rows db then
      .error (.integrityError s!"UNIQUE constraint failed: {t.table}.agent_id, {t.table}.{t.column}")
    else .ok (t.withRows ((t.rows db).add (agentId, text)) db)

/-- `for value in manifest.get(field, [])`. -/
def insertValues (t : ValueTable) (agentId : String) (manifest : Manifest) : Prog RegistryError RegistryDb Unit :=
  match iterate (getOr manifest.fields t.field (.arr [])) with
  | .ok values => forEach values (insertValue realText t agentId)
  | .error e => raise (.raised e)

/-- `DELETE` of the values of an agent. -/
def deleteValues (t : ValueTable) (agentId : String) : Prog RegistryError RegistryDb Unit :=
  execute fun db => .ok (t.withRows ((t.rows db).filter fun row => row.1 ≠ agentId) db)

def insertRegistration (registrationId agentId : String) (manifest : Manifest) (stake : Number) (now : ℚ)
    (db : RegistryDb) : Except RegistryError RegistryDb :=
  match SqlReal.ofNumber stake with
  | none => .error (.integrityError "NOT NULL constraint failed: agent_registrations.stake")
  | some stake =>
    if db.registrations.entries.any fun e => e.2.registrationId = registrationId then
      .error (.integrityError "UNIQUE constraint failed: agent_registrations.registration_id")
    else
      match db.registrations.insert? agentId ⟨registrationId, manifest.stored, stake, .active, now, now⟩ with
      | some registrations => .ok { db with registrations := registrations }
      | none => .error (.integrityError "UNIQUE constraint failed: agent_registrations.agent_id")

def newStats (now : ℚ) : StatsRow := ⟨0, 0, 0, 0, 0, some ((((8 / 10 : ℚ) : WithBot ℚ)) : SqlReal), now, 0⟩

def insertStats (agentId : String) (now : ℚ) (db : RegistryDb) : Except RegistryError RegistryDb :=
  match db.stats.insert? agentId (newStats now) with
  | some stats => .ok { db with stats := stats }
  | none => .error (.integrityError "UNIQUE constraint failed: agent_stats.agent_id")

def requiredFields : List String := ["capabilities", "pricing"]

/-- `register_agent`, with the registration id that is drawn and the clock. -/
def registerAgent (agentId : String) (manifest : Manifest) (stake : Number) (registrationId : String) (now : ℚ) :
    Prog RegistryError RegistryDb String := do
  forEach requiredFields fun field =>
    raiseIf ((manifest.fields.lookup field).isNone = true) (.valueError ("Manifest missing required field: " ++ field))
  let existing ← query fun db => db.registrations.contains agentId
  raiseIf (existing = true) (.valueError s!"Agent {agentId} already registered")
  execute (insertRegistration registrationId agentId manifest stake now)
  insertValues realText capabilityTable agentId manifest
  insertValues realText tagTable agentId manifest
  execute (insertStats agentId now)
  commit
  pure registrationId

/-- `UPDATE` of the manifest and the time of the update. -/
def setManifest (agentId : String) (manifest : Manifest) (now : ℚ) (db : RegistryDb) : RegistryDb :=
  { db with registrations := db.registrations.modify agentId fun row => { row with manifest := manifest.stored, updatedAt := now } }

/-- `update_manifest`, with the clock. -/
def updateManifest (agentId : String) (manifest : Manifest) (now : ℚ) : Prog RegistryError RegistryDb Bool := do
  let existing ← query fun db => db.registrations.contains agentId
  raiseIf (existing = false) (.valueError s!"Agent {agentId} not found")
  execute fun db => .ok (setManifest agentId manifest now db)
  deleteValues capabilityTable agentId
  insertValues realText capabilityTable agentId manifest
  deleteValues tagTable agentId
  insertValues realText tagTable agentId manifest
  commit
  pure true

end Writes

end AgentRegistry

structure SearchFilters where
  capabilities : Option (List String)
  minReputation : Option Number
  maxPrice : Option Number
  status : Option AgentStatus
  tags : Option (List String)

/-- A row of the search, and the record that is made of it. -/
structure AgentRecord where
  agentId : String
  manifest : Dict
  stake : SqlReal
  status : AgentStatus
  registeredAt : ℚ
  updatedAt : ℚ
  reputationScore : Option SqlReal
  totalTasks : Option Int
  completedTasks : Option Int
  deriving DecidableEq

namespace AgentRegistry

/-- The row of an agent, joined with its stats where it has any. -/
def recordOf (db : RegistryDb) (agentId : String) (row : Registration) : AgentRecord :=
  let stats := db.stats.get? agentId
  { agentId := agentId
    manifest := row.manifest.value
    stake := row.stake
    status := row.status
    registeredAt := row.registeredAt
    updatedAt := row.updatedAt
    reputationScore := stats.bind (·.reputationScore)
    totalTasks := stats.map (·.totalTasks)
    completedTasks := stats.map (·.completedTasks) }

/-- The agents of the rows with one of the values, grouped by agent, in whose group there are
as many values as are asked for. -/
def hasAllOf (rows : ListSet (String × String)) (values : List String) (agentId : String) : Bool :=
  let group := rows.elems.filter fun row => row.1 = agentId ∧ row.2 ∈ values
  group ≠ [] ∧ (group.map Prod.snd).dedup.length = values.length

def hasOneOf (rows : ListSet (String × String)) (values : List String) (agentId : String) : Bool :=
  rows.elems.any fun row => row.1 = agentId ∧ row.2 ∈ values

/-- `a >= b`; false where one of them is NULL. -/
def atLeast (a b : Option SqlReal) : Bool :=
  match a, b with
  | some a, some b => b ≤ a
  | _, _ => false

/-- A list that is given and not empty. -/
def given (values : Option (List String)) : Option (List String) := values.filter (· ≠ [])

/-- The conditions that the query gets from its arguments. -/
def selected (capabilities : Option (List String)) (filters : Option SearchFilters) (db : RegistryDb)
    (agent : AgentRecord) : Bool :=
  (given capabilities).all (fun values => hasAllOf db.capabilities values agent.agentId) &&
  filters.all fun filters =>
    filters.minReputation.all (fun r => atLeast agent.reputationScore (SqlReal.ofNumber r)) &&
    filters.status.all (fun status => agent.status = status) &&
    (given filters.tags).all fun values => hasOneOf db.tags values agent.agentId

/-- `ORDER BY s.reputation_score DESC, r.registered_at DESC`, NULL being less than any score. -/
def searchOrder (agent : AgentRecord) : Lex ((WithBot SqlReal)ᵒᵈ × ℚᵒᵈ) :=
  toLex (OrderDual.toDual (agent.reputationScore : WithBot SqlReal), OrderDual.toDual agent.registeredAt)

def registered (db : RegistryDb) : List AgentRecord := db.registrations.entries.map fun e => recordOf db e.1 e.2

/-- `search_agents`. -/
def searchAgents (capabilities : Option (List String)) (filters : Option SearchFilters) (db : RegistryDb) : List AgentRecord :=
  sortOn searchOrder ((registered db).filter (selected capabilities filters db)).dedup

end AgentRegistry

end AgentNetwork.Marketplace
