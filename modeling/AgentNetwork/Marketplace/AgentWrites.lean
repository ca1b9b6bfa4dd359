import AgentNetwork.Library.Traces
import AgentNetwork.Marketplace.AgentSearch

/-! Calls that write the registry: which of them leave half of their writes behind. -/

namespace AgentNetwork.Marketplace

open Relational Transactional Transactional.Prog Python Transition
open AgentNetwork.Policy (Dict getOr)

namespace AgentRegistry

variable (realText : String → Option String)

/-- The field of a manifest that a table is filled from is a list of values that a TEXT
column takes, and no two of them are kept as one text. -/
def Listed (t : ValueTable) (fields : Dict) (texts : List String) : Prop :=
  (∃ values, iterate (getOr fields t.field (.arr [])) = .ok values ∧
    values.mapM (textOf realText (t.table ++ "." ++ t.column)) = .ok texts) ∧ texts.Nodup

/-- What a manifest lists is inserted to the end. -/
def Whole (fields : Dict) : Prop :=
  (∃ texts, Listed realText capabilityTable fields texts) ∧ ∃ texts, Listed realText tagTable fields texts

section Values

variable {realText} {t : ValueTable} {agentId : String} {env : Env}

theorem insertValue_cases (value : Json) (s : Session RegistryDb) :
    (∃ text, textOf realText (t.table ++ "." ++ t.column) value = .ok text ∧ (agentId, text) ∉ t.rows s.db ∧
      insertValue realText t agentId value env s =
        (.returns (), { s with db := t.withRows ((t.rows s.db).add (agentId, text)) s.db })) ∨
    ((∀ text, textOf realText (t.table ++ "." ++ t.column) value = .ok text → (agentId, text) ∈ t.rows s.db) ∧
      ∃ e, insertValue realText t agentId value env s = (.raises e, s)) := by
  unfold insertValue execute
  cases htext : textOf realText (t.table ++ "." ++ t.column) value with
  | error e =>
    refine .inr ⟨?_, e, rfl⟩
    intro text h
    cases h
  | ok text =>
    by_cases hmem : (agentId, text) ∈ t.rows s.db
    · refine .inr ⟨?_, .integrityError s!"UNIQUE constraint failed: {t.table}.agent_id, {t.table}.{t.column}", ?_⟩
      · intro text' h
        cases h
        exact hmem
      · simp [bind, Except.bind, hmem]
    · exact .inl ⟨text, rfl, hmem, by simp [bind, Except.bind, hmem]⟩

/-- The values of an agent after some more of them. -/
def addTexts (agentId : String) (texts : List String) (rows : ListSet (String × String)) : ListSet (String × String) :=
  rows.addAll (texts.map fun text => (agentId, text))

/-- The loop over the values ends, with all of them inserted, or raises. -/
theorem forEach_insertValue (values : List Json) (s : Session RegistryDb) :
    (∃ texts, values.mapM (textOf realText (t.table ++ "." ++ t.column)) = .ok texts ∧ texts.Nodup ∧
      (∀ text ∈ texts, (agentId, text) ∉ t.rows s.db) ∧
      forEach values (insertValue realText t agentId) env s =
        (.returns (), { s with db := t.withRows (addTexts agentId texts (t.rows s.db)) s.db })) ∨
    ((∀ texts, values.mapM (textOf realText (t.table ++ "." ++ t.column)) = .ok texts → texts.Nodup →
      ∃ text ∈ texts, (agentId, text) ∈ t.rows s.db) ∧
      ∃ e rows, forEach values (insertValue realText t agentId) env s =
        (.raises e, { s with db := t.withRows rows s.db })) := by
  induction values generalizing s with
  | nil =>
    refine .inl ⟨[], rfl, List.nodup_nil, List.forall_mem_nil _, ?_⟩
    rw [addTexts, List.map_nil, ListSet.addAll, List.foldl_nil, t.withRows_rows]
    rfl
  | cons value rest ih =>
    rw [forEach_cons]
    obtain ⟨text, htext, hfresh, hrun⟩ | ⟨hknown, e, hrun⟩ := @insertValue_cases realText t agentId env value s
    · rw [bind_of_returns hrun]
      have hcons : ∀ texts, (value :: rest).mapM (textOf realText (t.table ++ "." ++ t.column)) = .ok texts →
          ∃ others, rest.mapM (textOf realText (t.table ++ "." ++ t.column)) = .ok others ∧ texts = text :: others := by
        intro texts h
        rw [List.mapM_cons, htext] at h
        obtain ⟨text', htext', h⟩ := except_bind_ok.mp h
        cases htext'
        obtain ⟨others, hothers, htexts⟩ := except_bind_ok.mp h
        exact ⟨others, hothers, (Except.ok.inj htexts).symm⟩
      obtain ⟨others, hothers, hnodup, hnew, hrest⟩ | ⟨hclash, e, rows, hrest⟩ := ih
        { s with db := t.withRows ((t.rows s.db).add (agentId, text)) s.db }
      · simp only [t.rows_withRows, t.withRows_withRows] at hnew hrest
        refine .inl ⟨text :: others, ?_, List.nodup_cons.mpr ⟨fun hmem => ?_, hnodup⟩, ?_, hrest⟩
        · rw [List.mapM_cons, htext, hothers]
          rfl
        · exact hnew text hmem (ListSet.mem_add.mpr (.inl rfl))
        · refine List.forall_mem_cons.mpr ⟨hfresh, fun other hmem hold => ?_⟩
          exact hnew other hmem (ListSet.mem_add.mpr (.inr hold))
      · simp only [t.rows_withRows, t.withRows_withRows] at hclash hrest
        refine .inr ⟨fun texts htexts hnodup => ?_, e, rows, hrest⟩
        obtain ⟨others, hothers, rfl⟩ := hcons texts htexts
        obtain ⟨hnot, hnodup'⟩ := List.nodup_cons.mp hnodup
        obtain ⟨other, hmem, hold⟩ := hclash others hothers hnodup'
        rcases ListSet.mem_add.mp hold with hsame | hold
        · cases hsame
          exact absurd hmem hnot
        · exact ⟨other, List.mem_cons_of_mem _ hmem, hold⟩
    · rw [bind_of_raises hrun]
      refine .inr ⟨fun texts htexts _ => ?_, e, t.rows s.db, by rw [t.withRows_rows]⟩
      rw [List.mapM_cons] at htexts
      obtain ⟨text, htext, htexts⟩ := except_bind_ok.mp htexts
      obtain ⟨others, _, htexts⟩ := except_bind_ok.mp htexts
      cases htexts
      exact ⟨text, List.mem_cons_self, hknown text htext⟩

/-- For an agent without values in the table, the insertion of the values of a manifest
goes through just when they are listed. -/
theorem insertValues_cases (m : Manifest) (s : Session RegistryDb) (hnone : ∀ text, (agentId, text) ∉ t.rows s.db) :
    (∃ texts, Listed realText t m.fields texts ∧ insertValues realText t agentId m env s =
        (.returns (), { s with db := t.withRows (addTexts agentId texts (t.rows s.db)) s.db })) ∨
    ((¬∃ texts, Listed realText t m.fields texts) ∧
      ∃ e rows, insertValues realText t agentId m env s = (.raises e, { s with db := t.withRows rows s.db })) := by
  unfold insertValues Listed
  cases hvalues : iterate (getOr m.fields t.field (.arr [])) with
  | error e =>
    refine .inr ⟨?_, .raised e, t.rows s.db, by rw [t.withRows_rows]; rfl⟩
    rintro ⟨_, ⟨_, hok, _⟩, _⟩
    cases hok
  | ok values =>
    obtain ⟨texts, htexts, hnodup, _, hrun⟩ | ⟨hclash, e, rows, hrun⟩ := @forEach_insertValue realText t agentId env values s
    · exact .inl ⟨texts, ⟨⟨values, rfl, htexts⟩, hnodup⟩, hrun⟩
    · refine .inr ⟨?_, e, rows, hrun⟩
      rintro ⟨texts, ⟨values', hok, htexts⟩, hnodup⟩
      cases hok
      obtain ⟨text, _, hmem⟩ := hclash texts htexts hnodup
      exact hnone text hmem

theorem mem_addTexts {texts : List String} {rows : ListSet (String × String)} {row : String × String} :
    row ∈ addTexts agentId texts rows ↔ (row.1 = agentId ∧ row.2 ∈ texts) ∨ row ∈ rows := by
  obtain ⟨agent, text⟩ := row
  rw [addTexts, ListSet.mem_addAll, List.mem_map, or_comm]
  refine or_congr_left ?_
  constructor
  · rintro ⟨text, htext, ⟨⟩⟩
    exact ⟨rfl, htext⟩
  · rintro ⟨rfl, htext⟩
    exact ⟨text, htext, rfl⟩

theorem of_mem_addTexts {other text : String} {texts : List String} {rows : ListSet (String × String)} (hne : other ≠ agentId)
    (h : (other, text) ∈ addTexts agentId texts rows) : (other, text) ∈ rows :=
  (mem_addTexts.mp h).resolve_left fun hown => hne hown.1

end Values

/-- Agents that are not registered have left nothing in the other tables, and every stored
manifest went in whole. -/
structure Clean (db : RegistryDb) : Prop where
  capabilities : ∀ agentId text, db.registrations.contains agentId = false → (agentId, text) ∉ db.capabilities
  tags : ∀ agentId text, db.registrations.contains agentId = false → (agentId, text) ∉ db.tags
  stats : ∀ agentId, db.registrations.contains agentId = false → db.stats.get? agentId = none
  whole : ∀ agentId row, db.registrations.get? agentId = some row → Whole realText row.manifest.value

end AgentRegistry

inductive RegistryCall
  | register (agentId : String) (manifest : Manifest) (stake : Number) (registrationId : String) (now : ℚ)
  | update (agentId : String) (manifest : Manifest) (now : ℚ)

namespace RegistryCall

open AgentRegistry

def agentId : RegistryCall → String
  | register agentId .. | update agentId .. => agentId

def manifest : RegistryCall → Manifest
  | register _ manifest .. | update _ manifest _ => manifest

def run (realText : String → Option String) : RegistryCall → Prog RegistryError RegistryDb Unit
  | register agentId manifest stake registrationId now => do
    let _ ← registerAgent realText agentId manifest stake registrationId now
    pure ()
  | update agentId manifest now => do
    let _ ← updateManifest realText agentId manifest now
    pure ()

/-- The call passes the checks that come before its first write, the constraints of
`agent_registrations` among them. -/
def Admitted (db : RegistryDb) : RegistryCall → Prop
  | register agentId manifest stake registrationId _ =>
    (∀ field ∈ requiredFields, ¬(manifest.fields.lookup field).isNone = true) ∧
      db.registrations.get? agentId = none ∧ (∃ kept, SqlReal.ofNumber stake = some kept) ∧
      ∀ e ∈ db.registrations.entries, e.2.registrationId ≠ registrationId
  | update agentId _ _ => ∃ row, db.registrations.get? agentId = some row

section Effects

variable {realText : String → Option String} {env : Env} {s : Session RegistryDb}

theorem insertRegistration_cases (agentId : String) (m : Manifest) (stake : Number) (registrationId : String) (now : ℚ) (db : RegistryDb) :
    (∃ (kept : SqlReal) (fresh : db.registrations.get? agentId = none), SqlReal.ofNumber stake = some kept ∧
      (∀ e ∈ db.registrations.entries, e.2.registrationId ≠ registrationId) ∧
      insertRegistration registrationId agentId m stake now db =
        .ok { db with registrations := db.registrations.insert agentId ⟨registrationId, m.stored, kept, .active, now, now⟩ fresh }) ∨
    (¬(db.registrations.get? agentId = none ∧ (∃ kept, SqlReal.ofNumber stake = some kept) ∧
        ∀ e ∈ db.registrations.entries, e.2.registrationId ≠ registrationId) ∧
      ∃ e, insertRegistration registrationId agentId m stake now db = .error e) := by
  unfold insertRegistration
  cases hstake : SqlReal.ofNumber stake with
  | none =>
    refine .inr ⟨?_, _, rfl⟩
    rintro ⟨_, ⟨kept, hkept⟩, _⟩
    cases hkept
  | some kept =>
    by_cases hid : db.registrations.entries.any (fun e => e.2.registrationId = registrationId) = true
    · simp only [hid, if_true]
      refine .inr ⟨?_, _, rfl⟩
      rintro ⟨_, _, hfresh⟩
      obtain ⟨e, he, hsame⟩ := List.any_eq_true.mp hid
      exact hfresh e he (of_decide_eq_true hsame)
    · simp only [hid]
      by_cases hagent : db.registrations.get? agentId = none
      · refine .inl ⟨kept, hagent, rfl, ?_, ?_⟩
        · intro e he hsame
          exact hid (List.any_eq_true.mpr ⟨e, he, decide_eq_true hsame⟩)
        · simp [Table.insert?, hagent]
      · refine .inr ⟨fun h => hagent h.1, .integrityError "UNIQUE constraint failed: agent_registrations.agent_id", ?_⟩
        simp [Table.insert?, hagent]

theorem execute_ok (f : RegistryDb → RegistryDb) :
    (execute fun db => .ok (f db) : Prog RegistryError RegistryDb Unit) env s = (.returns (), { s with db := f s.db }) := rfl

theorem insertStats_ok {agentId : String} {db : RegistryDb} (now : ℚ) (fresh : db.stats.get? agentId = none) :
    insertStats agentId now db = .ok { db with stats := db.stats.upsert agentId (newStats now) } := by
  rw [insertStats, Table.insert?, dif_pos fresh, Table.upsert_of_fresh fresh]

/-- What the tables hold after a registration that went through. -/
def registeredDb (db : RegistryDb) (agentId : String) (row : Registration) (fresh : db.registrations.get? agentId = none)
    (capabilities tags : List String) (now : ℚ) : RegistryDb where
  registrations := db.registrations.insert agentId row fresh
  capabilities := addTexts agentId capabilities db.capabilities
  tags := addTexts agentId tags db.tags
  stats := db.stats.upsert agentId (newStats now)

/-- What they hold after an update that went through. -/
def updatedDb (db : RegistryDb) (agentId : String) (m : Manifest) (capabilities tags : List String) (now : ℚ) : RegistryDb where
  registrations := (setManifest agentId m now db).registrations
  capabilities := addTexts agentId capabilities (db.capabilities.filter fun row => row.1 ≠ agentId)
  tags := addTexts agentId tags (db.tags.filter fun row => row.1 ≠ agentId)
  stats := db.stats

theorem clean_registeredDb {db : RegistryDb} (h : Clean realText db) {agentId : String} {row : Registration}
    (fresh : db.registrations.get? agentId = none) (hwhole : Whole realText row.manifest.value) (capabilities tags : List String)
    (now : ℚ) : Clean realText (registeredDb db agentId row fresh capabilities tags now) := by
  have hother : ∀ other, (db.registrations.insert agentId row fresh).contains other = false →
      other ≠ agentId ∧ db.registrations.contains other = false := by
    intro other hno
    rw [Table.contains_insert, Bool.or_eq_false_iff, decide_eq_false_iff_not] at hno
    exact hno
  constructor
  · intro other text hno hmem
    obtain ⟨hne, hbefore⟩ := hother other hno
    exact h.capabilities other text hbefore (of_mem_addTexts hne hmem)
  · intro other text hno hmem
    obtain ⟨hne, hbefore⟩ := hother other hno
    exact h.tags other text hbefore (of_mem_addTexts hne hmem)
  · intro other hno
    obtain ⟨hne, hbefore⟩ := hother other hno
    rw [registeredDb, Table.get?_upsert, if_neg hne]
    exact h.stats other hbefore
  · intro other row' hrow
    rw [registeredDb, Table.get?_insert] at hrow
    split at hrow
    · cases hrow
      exact hwhole
    · exact h.whole other row' hrow

theorem contains_setManifest (agentId other : String) (m : Manifest) (now : ℚ) (db : RegistryDb) :
    (setManifest agentId m now db).registrations.contains other = db.registrations.contains other := by
  rw [Table.contains, setManifest, Table.get?_modify]
  split
  next h =>
    rw [Option.isSome_map, h]
    rfl
  next => rfl

theorem clean_updatedDb {db : RegistryDb} (h : Clean realText db) (agentId : String) {m : Manifest}
    (hwhole : Whole realText m.fields) (hknown : db.registrations.contains agentId = true) (capabilities tags : List String)
    (now : ℚ) : Clean realText (updatedDb db agentId m capabilities tags now) := by
  have hother : ∀ other, (updatedDb db agentId m capabilities tags now).registrations.contains other = false →
      other ≠ agentId ∧ db.registrations.contains other = false := by
    intro other hno
    have hbefore : db.registrations.contains other = false := (contains_setManifest agentId other m now db).symm.trans hno
    refine ⟨?_, hbefore⟩
    rintro rfl
    exact absurd (hknown.symm.trans hbefore) Bool.noConfusion
  constructor
  · intro other text hno hmem
    obtain ⟨hne, hbefore⟩ := hother other hno
    exact h.capabilities other text hbefore (ListSet.mem_filter.mp (of_mem_addTexts hne hmem)).1
  · intro other text hno hmem
    obtain ⟨hne, hbefore⟩ := hother other hno
    exact h.tags other text hbefore (ListSet.mem_filter.mp (of_mem_addTexts hne hmem)).1
  · intro other hno
    exact h.stats other (hother other hno).2
  · intro other row hrow
    rw [updatedDb, setManifest, Table.get?_modify] at hrow
    split at hrow
    · obtain ⟨_, _, rfl⟩ := Option.map_eq_some_iff.mp hrow
      exact hwhole
    · exact h.whole other row hrow

/-- How a call ends: it is refused before its first write, or writes and commits everything,
or stops at a value of the manifest with some of its writes pending. -/
inductive Ends (realText : String → Option String) (c : RegistryCall) (s : Session RegistryDb) {α : Type} :
    Outcome RegistryError α × Session RegistryDb → Prop
  | refused (e : RegistryError) : ¬Admitted s.db c → Ends realText c s (.raises e, s)
  | written (a : α) (db : RegistryDb) : Admitted s.db c → Whole realText c.manifest.fields → Clean realText db →
      (∀ agentId, db.registrations.contains agentId = true → agentId = c.agentId ∨ s.db.registrations.contains agentId = true) →
      Ends realText c s (.returns a, { s with db := db, committed := db })
  | pending (e : RegistryError) (db : RegistryDb) : Admitted s.db c → ¬Whole realText c.manifest.fields → db ≠ s.db →
      Ends realText c s (.raises e, { s with db := db })

theorem ends_insertValues {α : Type} {c : RegistryCall} {s₀ : Session RegistryDb} {t : ValueTable} {agentId : String} {m : Manifest}
    {f : Unit → Prog RegistryError RegistryDb α} (hnone : ∀ text, (agentId, text) ∉ t.rows s.db)
    (hlisted : ∀ texts, Listed realText t m.fields texts →
      Ends realText c s₀ (f () env { s with db := t.withRows (addTexts agentId texts (t.rows s.db)) s.db }))
    (hstopped : (¬∃ texts, Listed realText t m.fields texts) → ∀ e rows,
      Ends realText c s₀ ((.raises e : Outcome RegistryError α), { s with db := t.withRows rows s.db })) :
    Ends realText c s₀ ((insertValues realText t agentId m >>= f) env s) := by
  obtain ⟨texts, htexts, hrun⟩ | ⟨hnot, e, rows, hrun⟩ := insertValues_cases m s hnone
  · rw [bind_of_returns hrun]
    exact hlisted texts htexts
  · rw [bind_of_raises hrun]
    exact hstopped hnot e rows

theorem ends_register (agentId : String) (m : Manifest) (stake : Number) (registrationId : String) (now : ℚ)
    (hclean : Clean realText s.db) :
    Ends realText (.register agentId m stake registrationId now) s
      (registerAgent realText agentId m stake registrationId now env s) := by
  unfold registerAgent
  obtain ⟨hfields, hchecks⟩ | ⟨⟨field, hfield, hmissing⟩, e, hchecks⟩ := @forEach_raiseIf _ _ _ env s requiredFields
    (fun field => (m.fields.lookup field).isNone = true) _ fun field => RegistryError.valueError ("Manifest missing required field: " ++ field)
  · rw [bind_of_returns hchecks, bind_of_returns (query_apply _)]
    by_cases hknown : s.db.registrations.contains agentId = true
    · rw [bind_of_raises (raiseIf_of hknown)]
      refine .refused _ fun h => ?_
      rw [Table.contains_eq_false_iff.mpr h.2.1] at hknown
      exact Bool.noConfusion hknown
    · rw [bind_of_returns (raiseIf_of_not hknown)]
      have hnew : s.db.registrations.contains agentId = false := Bool.eq_false_iff.mpr hknown
      obtain ⟨kept, fresh, hstake, hid, hinsert⟩ | ⟨hnot, e, hinsert⟩ :=
        insertRegistration_cases agentId m stake registrationId now s.db
      · have hadmitted : Admitted s.db (.register agentId m stake registrationId now) := ⟨hfields, fresh, ⟨kept, hstake⟩, hid⟩
        have hwritten : ∀ db : RegistryDb,
            db.registrations = s.db.registrations.insert agentId ⟨registrationId, m.stored, kept, .active, now, now⟩ fresh → db ≠ s.db := by
          rintro db hdb rfl
          have hget := congrArg (·.get? agentId) hdb
          simp [fresh] at hget
        rw [bind_of_returns (execute_of_ok hinsert)]
        refine ends_insertValues (fun text => hclean.capabilities agentId text hnew) (fun capabilities hcapabilities => ?_) fun hnot e rows => ?_
        · refine ends_insertValues (fun text => hclean.tags agentId text hnew) (fun tags htags => ?_) fun hnot e rows => ?_
          · rw [bind_of_returns (execute_of_ok (insertStats_ok now ?stats))]
            case stats => exact hclean.stats agentId hnew
            have hwhole : Whole realText m.fields := ⟨⟨capabilities, hcapabilities⟩, ⟨tags, htags⟩⟩
            refine .written registrationId (registeredDb s.db agentId ⟨registrationId, m.stored, kept, .active, now, now⟩ fresh
              capabilities tags now) hadmitted hwhole (clean_registeredDb hclean fresh hwhole capabilities tags now) fun other hother => ?_
            rwa [registeredDb, Table.contains_insert, Bool.or_eq_true, decide_eq_true_eq] at hother
          · exact .pending e _ hadmitted (fun h => hnot h.2) (hwritten _ rfl)
        · exact .pending e _ hadmitted (fun h => hnot h.1) (hwritten _ rfl)
      · rw [bind_of_raises (execute_raises.mpr ⟨hinsert, rfl⟩)]
        exact .refused e fun h => hnot h.2
  · rw [bind_of_raises hchecks]
    exact .refused e fun h => h.1 field hfield hmissing

theorem ends_update (agentId : String) (m : Manifest) (now : ℚ) (hclean : Clean realText s.db) :
    Ends realText (.update agentId m now) s (updateManifest realText agentId m now env s) := by
  unfold updateManifest
  rw [bind_of_returns (query_apply _)]
  by_cases hknown : s.db.registrations.contains agentId = false
  · rw [bind_of_raises (raiseIf_of hknown)]
    refine .refused _ fun ⟨row, hrow⟩ => ?_
    rw [Table.contains_eq_false_iff.mp hknown] at hrow
    cases hrow
  · rw [bind_of_returns (raiseIf_of_not hknown), bind_of_returns (execute_ok _), deleteValues, bind_of_returns (execute_ok _)]
    have hcontains : s.db.registrations.contains agentId = true := Bool.eq_true_of_not_eq_false hknown
    obtain ⟨row, hrow⟩ := Table.contains_eq_true_iff.mp hcontains
    -- What is stored went in whole, so a manifest that does not is not the stored one.
    have hwritten : ∀ db : RegistryDb, db.registrations = (setManifest agentId m now s.db).registrations →
        ¬Whole realText m.fields → db ≠ s.db := by
      rintro db hdb hnot rfl
      have hget := congrArg (·.get? agentId) hdb
      simp only [setManifest, Table.get?_modify, hrow, if_true, Option.map_some, Option.some.injEq] at hget
      have hwhole := hclean.whole agentId row hrow
      rw [hget] at hwhole
      exact hnot hwhole
    refine ends_insertValues (fun text hmem => ?_) (fun capabilities hcapabilities => ?_) fun hnot e rows => ?_
    · exact absurd rfl (of_decide_eq_true (ListSet.mem_filter.mp hmem).2)
    · rw [deleteValues, bind_of_returns (execute_ok _)]
      refine ends_insertValues (fun text hmem => ?_) (fun tags htags => ?_) fun hnot e rows => ?_
      · exact absurd rfl (of_decide_eq_true (ListSet.mem_filter.mp hmem).2)
      · have hwhole : Whole realText m.fields := ⟨⟨capabilities, hcapabilities⟩, ⟨tags, htags⟩⟩
        refine .written true (updatedDb s.db agentId m capabilities tags now) ⟨row, hrow⟩ hwhole
          (clean_updatedDb hclean agentId hwhole hcontains capabilities tags now) fun other hother => ?_
        exact .inr ((contains_setManifest agentId other m now s.db).symm.trans hother)
      · have hnotWhole : ¬Whole realText m.fields := fun h => hnot h.2
        exact .pending e _ ⟨row, hrow⟩ hnotWhole (hwritten _ rfl hnotWhole)
    · have hnotWhole : ¬Whole realText m.fields := fun h => hnot h.1
      exact .pending e _ ⟨row, hrow⟩ hnotWhole (hwritten _ rfl hnotWhole)

theorem Ends.forget {α : Type} {c : RegistryCall} {x : Prog RegistryError RegistryDb α} (h : Ends realText c s (x env s)) :
    Ends realText c s ((x >>= fun _ => pure ()) env s) := by
  rw [bind_apply]
  generalize x env s = ending at h
  cases h with
  | refused e hnot => exact .refused e hnot
  | written a db hadmitted hwhole hclean honly => exact .written () db hadmitted hwhole hclean honly
  | pending e db hadmitted hnot hne => exact .pending e db hadmitted hnot hne

theorem ends_run (c : RegistryCall) (hclean : Clean realText s.db) : Ends realText c s (run realText c env s) := by
  cases c with
  | register agentId m stake registrationId now => exact (ends_register agentId m stake registrationId now hclean).forget
  | update agentId m now => exact (ends_update agentId m now hclean).forget

end Effects

/-- The call registers the agent. -/
def Registers (c : RegistryCall) (agentId : String) : Prop := ∃ m stake registrationId now, c = register agentId m stake registrationId now

/-- If it passes its checks, what it lists is inserted to the end. -/
def Survives (realText : String → Option String) (db : RegistryDb) (c : RegistryCall) : Prop :=
  c.Admitted db → Whole realText c.manifest.fields

end RegistryCall

/-- A new registry, nothing pending. -/
def emptySession : Session RegistryDb := ⟨.empty, .empty, false, 0, 0⟩

/-- The registry with the calls that have returned. -/
structure WatchedRegistry where
  session : Session RegistryDb
  succeeded : List RegistryCall

namespace WatchedRegistry

open AgentRegistry

def init : WatchedRegistry := ⟨emptySession, []⟩

variable (realText : String → Option String) (env : Env)

def call (w : WatchedRegistry) (c : RegistryCall) : WatchedRegistry where
  session := (c.run realText env w.session).2
  succeeded := if (c.run realText env w.session).1 = .returns () then w.succeeded ++ [c] else w.succeeded

/-- What the calls leave when they are the only ones. -/
def afterOnly (calls : List RegistryCall) : Session RegistryDb := calls.foldl (fun s c => (c.run realText env s).2) emptySession

/-- The tables are those of the calls that have returned; an agent that none of them
registered is never found and may register. -/
structure AllOrNothing (w : WatchedRegistry) : Prop where
  db : w.session.db = (afterOnly realText env w.succeeded).db
  committed : w.session.committed = (afterOnly realText env w.succeeded).committed
  unlisted : ∀ agentId, (∀ c ∈ w.succeeded, ¬c.Registers agentId) → ∀ capabilities filters,
    ∀ agent ∈ searchAgents capabilities filters w.session.db, agent.agentId ≠ agentId
  registers : ∀ agentId, (∀ c ∈ w.succeeded, ¬c.Registers agentId) → ∀ (m : Manifest) stake registrationId now,
    (∀ field ∈ requiredFields, ¬(m.fields.lookup field).isNone = true) → Whole realText m.fields →
    (∃ kept, SqlReal.ofNumber stake = some kept) → (∀ e ∈ w.session.db.registrations.entries, e.2.registrationId ≠ registrationId) →
    ((RegistryCall.register agentId m stake registrationId now).run realText env w.session).1 = .returns ()

/-- As long as every call survives: nothing is pending, nothing is left of failed calls, and
whoever is registered has been registered by a call that returned. -/
structure Sound (w : WatchedRegistry) : Prop where
  session : w.session = afterOnly realText env w.succeeded
  clean : Clean realText w.session.db
  registered : ∀ agentId, w.session.db.registrations.contains agentId = true → ∃ c ∈ w.succeeded, c.Registers agentId

variable {realText env} {w : WatchedRegistry} {c : RegistryCall}

theorem sound_init : Sound realText env init := by
  refine ⟨rfl, ⟨?_, ?_, ?_, ?_⟩, ?_⟩
  · exact fun _ _ _ => ListSet.not_mem_empty _
  · exact fun _ _ _ => ListSet.not_mem_empty _
  · exact fun _ _ => rfl
  · intro _ _ h
    cases h
  · intro _ h
    cases h

theorem Sound.allOrNothing (h : Sound realText env w) : AllOrNothing realText env w := by
  have hunknown : ∀ agentId, (∀ c ∈ w.succeeded, ¬c.Registers agentId) → w.session.db.registrations.contains agentId = false := by
    intro agentId hnever
    refine Bool.eq_false_iff.mpr fun hknown => ?_
    obtain ⟨c, hc, hregisters⟩ := h.registered agentId hknown
    exact hnever c hc hregisters
  refine ⟨by rw [h.session], by rw [h.session], ?_, ?_⟩
  · rintro _ hnever capabilities filters agent hfound rfl
    have hlisted := List.mem_map_of_mem (f := (·.agentId)) (mem_searchAgents.mp hfound).1
    rw [agentIds_registered] at hlisted
    exact Table.get?_eq_none_iff.mp (Table.contains_eq_false_iff.mp (hunknown _ hnever)) hlisted
  · intro agentId hnever m stake registrationId now hfields hwhole hstake hid
    have hadmitted : RegistryCall.Admitted w.session.db (.register agentId m stake registrationId now) :=
      ⟨hfields, Table.contains_eq_false_iff.mp (hunknown agentId hnever), hstake, hid⟩
    have hends := @RegistryCall.ends_run realText env w.session (.register agentId m stake registrationId now) h.clean
    generalize (RegistryCall.register agentId m stake registrationId now).run realText env w.session = ending at hends ⊢
    cases hends with
    | refused e hnot => exact absurd hadmitted hnot
    | written => rfl
    | pending e db _ hnot => exact absurd hwhole hnot

theorem call_of_raises {e : RegistryError} {s : Session RegistryDb} (h : c.run realText env w.session = (.raises e, s)) :
    w.call realText env c = ⟨s, w.succeeded⟩ := by
  rw [call, h]
  rfl

theorem call_of_returns {s : Session RegistryDb} (h : c.run realText env w.session = (.returns (), s)) :
    w.call realText env c = ⟨s, w.succeeded ++ [c]⟩ := by
  rw [call, h, if_pos rfl]

theorem Sound.call (h : Sound realText env w) (hsurvives : c.Survives realText w.session.db) :
    Sound realText env (w.call realText env c) := by
  have hends := @RegistryCall.ends_run realText env w.session c h.clean
  generalize hrun : c.run realText env w.session = ending at hends
  cases hends with
  | refused e hnot =>
    rw [call_of_raises hrun]
    exact h
  | written a db hadmitted hwhole hclean honly =>
    rw [call_of_returns hrun]
    refine ⟨?_, hclean, fun agentId hknown => ?_⟩
    · rw [afterOnly, List.foldl_append, List.foldl_cons, List.foldl_nil]
      have hbefore : (w.succeeded.foldl (fun s c => (c.run realText env s).2) emptySession) = w.session := h.session.symm
      rw [hbefore, hrun]
    · have hbefore : w.session.db.registrations.contains agentId = true → ∃ c' ∈ w.succeeded ++ [c], c'.Registers agentId := by
        intro hold
        obtain ⟨c', hc', hregisters⟩ := h.registered agentId hold
        exact ⟨c', List.mem_append_left _ hc', hregisters⟩
      rcases honly agentId hknown with rfl | hold
      · cases c with
        | register other m stake registrationId now =>
          exact ⟨_, List.mem_append_right _ (List.mem_singleton_self _), m, stake, registrationId, now, rfl⟩
        | update other m now =>
          obtain ⟨row, hrow⟩ := hadmitted
          exact hbefore (Table.contains_eq_true_iff.mpr ⟨row, hrow⟩)
      · exact hbefore hold
  | pending e db hadmitted hnot hne => exact absurd (hsurvives hadmitted) hnot

theorem Sound.allOrNothing_iff (h : Sound realText env w) :
    AllOrNothing realText env (w.call realText env c) ↔ c.Survives realText w.session.db := by
  constructor
  · intro hall hadmitted
    have hends := @RegistryCall.ends_run realText env w.session c h.clean
    generalize hrun : c.run realText env w.session = ending at hends
    cases hends with
    | refused e hnot => exact absurd hadmitted hnot
    | written a db _ hwhole => exact hwhole
    | pending e db _ _ hne =>
      have hdb := hall.db
      rw [call_of_raises hrun, ← h.session] at hdb
      exact absurd hdb hne
  · exact fun hsurvives => (h.call hsurvives).allOrNothing

/-- Writes are all or nothing after every call just when every call that passes its checks
lists capabilities and tags that are inserted to the end. -/
theorem all_or_nothing_iff (realText : String → Option String) (env : Env) (calls : List RegistryCall) :
    (∀ e ∈ stepsOf (call realText env) init calls, AllOrNothing realText env e.2.2) ↔
      ∀ e ∈ stepsOf (call realText env) init calls, e.2.1.Survives realText e.1.session.db := by
  have htrace : Trace (fun w c w' => w' = WatchedRegistry.call realText env w c) init (stepsOf (call realText env) init calls)
      (calls.foldl (call realText env) init) := Trace.ofCalls stepsOf_call
  refine @Trace.forall_iff _ _ _ _ _ _ (fun w c => c.Survives realText w.session.db) (Sound realText env)
    (fun _ _ w' => AllOrNothing realText env w') htrace sound_init ?_ ?_
  · rintro w c _ hsound hsurvives rfl
    exact hsound.call hsurvives
  · rintro w c _ hsound rfl
    exact hsound.allOrNothing_iff

/-- A capability is listed twice. -/
def twiceListed : Manifest where
  fields := [("capabilities", .arr [.str "a", .str "a"]), ("pricing", .obj [])]
  wellFormed := by decide +kernel

def twiceListedCall : RegistryCall := .register "agent1" twiceListed (.finite 0) "registration1" 1

def idleEnv : Env := ⟨true, fun _ => 0, toString⟩

/-- Its registration fails, and yet the agent is found and may not register any more. -/
theorem failed_registration_found :
    (∃ e ∈ stepsOf (call (fun _ => none) idleEnv) init [twiceListedCall], ¬AllOrNothing (fun _ => none) idleEnv e.2.2) ∧
    ((call (fun _ => none) idleEnv init twiceListedCall).call (fun _ => none) idleEnv
      (.register "agent1" sampleManifest (.finite 0) "registration2" 2)).succeeded = [] := by
  constructor
  · refine ⟨_, List.mem_singleton_self _, fun h => ?_⟩
    have hfound : "agent1" ∈ (searchAgents none none (call (fun _ => none) idleEnv init twiceListedCall).session.db).map (·.agentId) := by
      decide +kernel
    have hnever : ∀ c ∈ (call (fun _ => none) idleEnv init twiceListedCall).succeeded, ¬c.Registers "agent1" := by
      have hnone : (call (fun _ => none) idleEnv init twiceListedCall).succeeded = [] := by decide +kernel
      rw [hnone]
      exact List.forall_mem_nil _
    obtain ⟨agent, hagent, hid⟩ := List.mem_map.mp hfound
    exact h.unlisted "agent1" hnever none none agent hagent hid
  · decide +kernel

end WatchedRegistry

end AgentNetwork.Marketplace
