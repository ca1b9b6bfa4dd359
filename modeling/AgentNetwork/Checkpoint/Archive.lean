import AgentNetwork.Checkpoint.Pruning

/-! What a pruning does to each operation: it is read from one tier or the other. -/

namespace AgentNetwork.Checkpoint

open Relational

/-- What the two tiers have under one id. -/
structure Slot where
  hot : Option Op
  indexed : Bool
  file : Option String

def parseCold (text : String) : Option Json := (Json.loads text).filter (· ≠ .null)

/-- What `json.dump` writes of an operation. -/
def Op.text (op : Op) : String := Json.write Json.defaultStyle op.data

theorem parseCold_text (op : Op) : parseCold op.text = some op.data := by
  have hloads : Json.loads op.text = some op.data :=
    Json.loads_write rfl Json.defaultStyle_readable op.data op.wellFormed
  simp [parseCold, hloads, Op.data]

/-- Whether the loop writes it and the write goes through. -/
def Op.isWritten (succeeds : String → Bool) (op : Op) : Bool :=
  match op.opId.filter (· ≠ "") with
  | none => false
  | some id => succeeds id

theorem Op.isWritten_of_named {op : Op} {id : String} (hid : op.opId = some id) (succeeds : String → Bool) :
    op.isWritten succeeds = (decide (id ≠ "") && succeeds id) := by
  unfold isWritten
  rw [hid, Option.filter_some]
  by_cases hne : id = "" <;> simp [hne]

/-- No two of the operations have one `op_id`. -/
def DistinctIds (ops : List Op) : Prop := ops.Pairwise fun a b => ∀ id, a.opId = some id → b.opId ≠ some id

namespace Slot

def cold (slot : Slot) : Option Json := if slot.indexed then slot.file.bind parseCold else none

def read (slot : Slot) : Option Json :=
  match slot.hot.filter (·.fields ≠ []) with
  | some op => some op.data
  | none => slot.cold

/-- The slot of an operation after its write to the cold tier. -/
def archive (slot : Slot) (written : Bool) (op : Op) : Slot :=
  if written then ⟨none, true, some op.text⟩ else { slot with file := none }

def dropHot (slot : Slot) : Slot := { slot with hot := none }

theorem read_of_hot {slot : Slot} {op : Op} (hot : slot.hot = some op) (h : op.fields ≠ []) :
    slot.read = some op.data := by
  have hfilter : slot.hot.filter (·.fields ≠ []) = some op := by rw [hot, Option.filter_some_pos (by simpa using h)]
  rw [read, hfilter]

theorem read_of_not_hot {slot : Slot} (hot : slot.hot = none) : slot.read = slot.cold := by simp [read, hot]

theorem read_archive_written (slot : Slot) (op : Op) : (slot.archive true op).read = some op.data := by
  simp [archive, read, cold, parseCold_text]

theorem cold_archive_failed (slot : Slot) (op : Op) : (slot.archive false op).cold = none := by
  simp [archive, cold]

/-- What the slot of an old operation is after the call: its place in the list may
have it taken out of the hot tier a second time. -/
def prune (slot : Slot) (written leading : Bool) (op : Op) : Slot :=
  if leading then (slot.archive written op).dropHot else slot.archive written op

/-- The data stay readable, and the hot tier gives them up only after a write. -/
structure Keeps (slot after : Slot) (written : Bool) : Prop where
  read : ∀ data, slot.read = some data → after.read = some data
  hot : ∀ op, slot.hot = some op → after.hot = none → written = true

theorem keeps_prune_of_written (slot : Slot) (leading : Bool) (op : Op)
    (h : ∀ data, slot.read = some data → data = op.data) : slot.Keeps (slot.prune true leading op) true := by
  constructor
  · intro data hdata
    rw [h data hdata]
    cases leading with
    | true => exact read_archive_written slot op
    | false => exact read_archive_written slot op
  · exact fun _ _ _ => rfl

theorem keeps_prune_hot {slot : Slot} {op : Op} (hot : slot.hot = some op) (h : op.fields ≠ []) (written leading : Bool) :
    slot.Keeps (slot.prune written leading op) written ↔ (leading = true → written = true) := by
  have hread := read_of_hot hot h
  constructor
  · intro hk hleading
    exact hk.hot op hot (by simp [prune, hleading, dropHot])
  · intro hw
    cases written with
    | true =>
      apply keeps_prune_of_written
      intro data hdata
      exact Option.some.inj (hdata.symm.trans hread)
    | false =>
      -- the write failed, and the list does not name it among the first: it stays where it was
      have hlast : leading = false := by simpa using hw
      have hstays : (slot.prune false leading op).hot = some op := by simp [prune, hlast, archive, hot]
      constructor
      · intro data hdata
        rw [read_of_hot hstays h, ← hread, hdata]
      · intro _ _ hnone
        rw [hstays] at hnone
        cases hnone

theorem keeps_prune_cold {slot : Slot} (hot : slot.hot = none) (op : Op) (written leading : Bool) :
    slot.Keeps (slot.prune written leading op) written ↔
      ∀ data, slot.read = some data → written = true ∧ data = op.data := by
  constructor
  · intro hk data hdata
    have hafter := hk.read data hdata
    cases written with
    | true =>
      have hop : (slot.prune true leading op).read = some op.data := by
        cases leading with
        | true => exact read_archive_written slot op
        | false => exact read_archive_written slot op
      exact ⟨rfl, Option.some.inj (hafter.symm.trans hop)⟩
    | false =>
      have hgone : (slot.prune false leading op).hot = none := by
        cases leading <;> simp [prune, archive, dropHot, hot]
      have hcold : (slot.prune false leading op).cold = none := by
        cases leading with
        | true => exact cold_archive_failed slot op
        | false => exact cold_archive_failed slot op
      rw [read_of_not_hot hgone, hcold] at hafter
      cases hafter
  · intro h
    cases written with
    | true => exact keeps_prune_of_written slot leading op fun data hdata => (h data hdata).2
    | false =>
      constructor
      · exact fun data hdata => absurd (h data hdata).1 Bool.false_ne_true
      · intro op' hop'
        rw [hot] at hop'
        cases hop'

theorem keeps_self (slot : Slot) (written : Bool) : slot.Keeps slot written := by
  constructor
  · exact fun data hdata => hdata
  · intro op hop hnone
    rw [hop] at hnone
    cases hnone

/-- Without a write, leaving the hot tier is a loss. -/
theorem keeps_dropHot {slot : Slot} : slot.Keeps slot.dropHot false ↔ slot.hot = none := by
  constructor
  · intro hk
    cases hot : slot.hot with
    | none => rfl
    | some op => exact absurd (hk.hot op hot rfl) Bool.false_ne_true
  · intro hot
    have hsame : slot.dropHot = slot := by rw [dropHot, ← hot]
    rw [hsame]
    exact keeps_self slot false

end Slot

namespace TieredStorage

def slot (s : TieredStorage) (id : String) : Slot :=
  ⟨s.hotTier.get? id, decide (id ∈ s.coldIndex), s.coldFiles.get? (coldPath id)⟩

theorem getOp_eq (s : TieredStorage) (id : String) : s.getOp id = (s.slot id).read := by
  simp only [getOp, getFromHot, Slot.read, slot, Slot.cold, readFromCold, decide_eq_true_eq]
  rfl

theorem hotTier_get? (s : TieredStorage) (id : String) : s.hotTier.get? id = (s.slot id).hot := rfl

section Moving

variable (succeeds : String → Bool)

theorem slot_moveOp_other {s : TieredStorage} {op : Op} {id : String} (h : op.opId = some id → id = "") :
    (s.moveOp succeeds op).2.slot id = s.slot id := by
  unfold moveOp
  split
  next => rfl
  next opId hop =>
    obtain ⟨hid, hne⟩ := Option.filter_eq_some_iff.mp hop
    have hother : id ≠ opId := by
      rintro rfl
      simp [h hid] at hne
    have hpath : coldPath id ≠ coldPath opId := fun he => hother (coldPath_injective he)
    unfold writeToCold
    by_cases hs : succeeds opId = true
    · simp [hs, slot, hother, hpath]
    · simp [hs, slot, hpath]

theorem moveOp_named {s : TieredStorage} {op : Op} {id : String} (hid : op.opId = some id) (hne : id ≠ "") :
    (s.moveOp succeeds op).1 = succeeds id ∧
      (s.moveOp succeeds op).2.slot id = (s.slot id).archive (succeeds id) op := by
  have hop : op.opId.filter (· ≠ "") = some id := by simp [hid, hne]
  unfold moveOp writeToCold
  rw [hop]
  by_cases hs : succeeds id = true
  · simp [hs, slot, Slot.archive, Op.text]
  · simp [hs, slot, Slot.archive]

theorem moveOp_fst (s : TieredStorage) (op : Op) : (s.moveOp succeeds op).1 = op.isWritten succeeds := by
  unfold moveOp Op.isWritten writeToCold
  cases op.opId.filter (· ≠ "") with
  | none => rfl
  | some id => cases hs : succeeds id <;> simp [hs]

/-- The count of the move says how many were written, not which. -/
theorem moveToCold_fst (s : TieredStorage) (ops : List Op) :
    (s.moveToCold succeeds ops).1 = ops.countP (·.isWritten succeeds) := by
  induction ops generalizing s with
  | nil => rfl
  | cons op rest ih =>
    simp only [moveToCold, ih, moveOp_fst, List.countP_cons]
    cases op.isWritten succeeds <;> rfl

theorem slot_moveToCold_other {ops : List Op} {id : String} (h : ∀ op ∈ ops, op.opId = some id → id = "")
    (s : TieredStorage) : (s.moveToCold succeeds ops).2.slot id = s.slot id := by
  induction ops generalizing s with
  | nil => rfl
  | cons op rest ih =>
    have hrest := ih (fun op hop => h op (List.mem_cons_of_mem _ hop)) (s.moveOp succeeds op).2
    exact hrest.trans (slot_moveOp_other succeeds (h op (List.mem_cons_self ..)))

theorem slot_moveToCold {ops : List Op} (distinct : DistinctIds ops) {op : Op} (hop : op ∈ ops) {id : String}
    (hid : op.opId = some id) (hne : id ≠ "") (s : TieredStorage) :
    (s.moveToCold succeeds ops).2.slot id = (s.slot id).archive (succeeds id) op := by
  induction ops generalizing s with
  | nil => exact absurd hop List.not_mem_nil
  | cons first rest ih =>
    have hfirst := (List.pairwise_cons.mp distinct).1
    have hrest := (List.pairwise_cons.mp distinct).2
    change ((s.moveOp succeeds first).2.moveToCold succeeds rest).2.slot id = _
    rcases List.mem_cons.mp hop with rfl | hlater
    · have hothers : ∀ other ∈ rest, other.opId = some id → id = "" := fun other hother hsame =>
        absurd hsame (hfirst other hother id hid)
      rw [slot_moveToCold_other succeeds hothers]
      exact (moveOp_named succeeds hid hne).2
    · have hother : first.opId = some id → id = "" := fun hsame => absurd hid (hfirst op hlater id hsame)
      rw [ih hrest hlater, slot_moveOp_other succeeds hother]

end Moving

theorem slot_pruneFromHot (s : TieredStorage) (ids : List (Option String)) (id : String) :
    (s.pruneFromHot ids).2.slot id = if some id ∈ ids then (s.slot id).dropHot else s.slot id := by
  induction ids generalizing s with
  | nil => simp [pruneFromHot]
  | cons first rest ih =>
    unfold pruneFromHot
    split
    next hfilter =>
      rw [ih]
      by_cases hsame : first = some id
      · -- it is not in the hot tier: there is nothing to drop
        subst hsame
        have habsent : s.hotTier.get? id = none := by
          rw [← Table.contains_eq_false_iff]
          simpa using hfilter
        have hdrop : (s.slot id).dropHot = s.slot id := by simp [Slot.dropHot, slot, habsent]
        simp [hdrop]
      · have hne : ¬some id = first := fun he => hsame he.symm
        simp [hne]
    next opId hfilter =>
      obtain ⟨rfl, _⟩ := Option.filter_eq_some_iff.mp hfilter
      rw [ih]
      by_cases hsame : id = opId
      · subst hsame
        simp [Slot.dropHot, slot]
      · simp [Slot.dropHot, slot, hsame]

end TieredStorage

/-- Whether an operation is behind the threshold. -/
def isOld (threshold : Int) (op : Op) : Bool :=
  match Python.Number.ofJson? op.epoch with
  | some epoch => epoch.lt (.finite threshold)
  | none => false

/-- Every epoch can be compared. -/
def Comparable (ops : List Op) : Prop := ∀ op ∈ ops, Python.Number.ofJson? op.epoch ≠ none

theorem selectOps_comparable {ops : List Op} (h : Comparable ops) (threshold : Int) :
    ∃ kept, selectOps threshold ops = .ok (ops.filter (isOld threshold), kept) := by
  induction ops with
  | nil => exact ⟨0, rfl⟩
  | cons op rest ih =>
    obtain ⟨kept, hrest⟩ := ih fun op hop => h op (List.mem_cons_of_mem _ hop)
    obtain ⟨epoch, hepoch⟩ := Option.ne_none_iff_exists'.mp (h op (List.mem_cons_self ..))
    have hbefore : isBefore threshold op = .ok (isOld threshold op) := by simp [isBefore, isOld, hepoch]
    cases hold : isOld threshold op with
    | true => exact ⟨kept, by simp [selectOps, hbefore, hrest, hold, bind, Except.bind, pure, Except.pure]⟩
    | false => exact ⟨kept + 1, by simp [selectOps, hbefore, hrest, hold, bind, Except.bind, pure, Except.pure]⟩

theorem selectOps_not_comparable {ops : List Op} (h : ¬Comparable ops) (threshold : Int) :
    ∃ error, selectOps threshold ops = .error error := by
  induction ops with
  | nil => exact absurd (List.forall_mem_nil _) h
  | cons op rest ih =>
    cases hepoch : Python.Number.ofJson? op.epoch with
    | none => exact ⟨_, by simp only [selectOps, isBefore, hepoch]; rfl⟩
    | some epoch =>
      have hrest : ¬Comparable rest := by
        intro hrest
        apply h
        intro other hother
        rcases List.mem_cons.mp hother with rfl | hlater
        · simp [hepoch]
        · exact hrest other hlater
      obtain ⟨error, herror⟩ := ih hrest
      exact ⟨error, by simp [selectOps, isBefore, hepoch, herror, bind, Except.bind]⟩

theorem DistinctIds.eq {ops : List Op} (distinct : DistinctIds ops) {op other : Op} (hop : op ∈ ops) (hother : other ∈ ops)
    {id : String} (hid : op.opId = some id) (hsame : other.opId = some id) : op = other := by
  by_contra hne
  have hsymm : Std.Symm fun a b : Op => ∀ id, a.opId = some id → b.opId ≠ some id := ⟨fun _ _ h id hb ha => h id ha hb⟩
  exact distinct.forall hop hother hne id hid hsame

theorem opId_mem_take {ops : List Op} (distinct : DistinctIds ops) {op : Op} (hop : op ∈ ops) {id : String}
    (hid : op.opId = some id) (n : Nat) : some id ∈ (ops.map Op.opId).take n ↔ op ∈ ops.take n := by
  rw [← List.map_take, List.mem_map]
  constructor
  · rintro ⟨other, hother, hsame⟩
    rwa [distinct.eq hop (List.mem_of_mem_take hother) hid hsame]
  · exact fun h => ⟨op, h, hid⟩

namespace PruningManager

/-- The operations that the policy wants moved. -/
def oldOps (m : PruningManager) (ops : List Op) (currentEpoch : Int) : List Op :=
  ops.filter (isOld (m.policy.getPruningThreshold currentEpoch))

/-- Where the operations of the list are in the hot tier, they are the ones there. -/
def Agrees (m : PruningManager) (ops : List Op) : Prop :=
  ∀ op ∈ ops, ∀ id, op.opId = some id → ∀ hot, m.storage.hotTier.get? id = some hot → hot = op

/-- No operation is lost, and the hot tier gives up only those written to the cold one. -/
structure LosesNothing (m after : PruningManager) (succeeds : String → Bool) (old : List Op) : Prop where
  read : ∀ id data, m.storage.getOp id = some data → after.storage.getOp id = some data
  hot : ∀ id op, m.storage.hotTier.get? id = some op → after.storage.hotTier.get? id = none →
    op ∈ old ∧ op.opId = some id ∧ op.isWritten succeeds = true

/-- An old operation that is only in the cold tier is written again as it is there, and of those in the
hot tier each that comes among as many first ones as there are writes is itself written. -/
structure Archivable (m : PruningManager) (succeeds : String → Bool) (old : List Op) : Prop where
  cold : ∀ op ∈ old, ∀ id, op.opId = some id → id ≠ "" → m.storage.hotTier.get? id = none →
    ∀ data, m.storage.getOp id = some data → op.isWritten succeeds = true ∧ data = op.data
  leading : ∀ op ∈ old.take (old.countP (·.isWritten succeeds)), ∀ id, op.opId = some id →
    m.storage.hotTier.contains id = true → op.isWritten succeeds = true

section Pruned

variable {m : PruningManager} {succeeds : String → Bool} {ops : List Op} {currentEpoch : Int}

theorem pruneBeforeEpoch_not_comparable (h : ¬Comparable ops) : (m.pruneBeforeEpoch succeeds ops currentEpoch).2 = m := by
  obtain ⟨error, herror⟩ := selectOps_not_comparable h (m.policy.getPruningThreshold currentEpoch)
  rw [pruneBeforeEpoch, herror]

theorem pruneBeforeEpoch_storage (h : Comparable ops) :
    (m.pruneBeforeEpoch succeeds ops currentEpoch).2.storage =
      ((m.storage.moveToCold succeeds (m.oldOps ops currentEpoch)).2.pruneFromHot
        (((m.oldOps ops currentEpoch).map Op.opId).take
          ((m.oldOps ops currentEpoch).countP (·.isWritten succeeds)))).2 := by
  obtain ⟨kept, hselect⟩ := selectOps_comparable h (m.policy.getPruningThreshold currentEpoch)
  rw [pruneBeforeEpoch, hselect, ← TieredStorage.moveToCold_fst succeeds m.storage]
  change (if 0 < (m.storage.moveToCold succeeds (m.oldOps ops currentEpoch)).1 then _ else _ : TieredStorage) = _
  split
  next => rfl
  next hzero =>
    have hnone : (m.storage.moveToCold succeeds (m.oldOps ops currentEpoch)).1 = 0 := by omega
    rw [hnone]
    rfl

theorem slot_pruneBeforeEpoch (h : Comparable ops) (id : String) :
    (m.pruneBeforeEpoch succeeds ops currentEpoch).2.storage.slot id =
      let old := m.oldOps ops currentEpoch
      let moved := (m.storage.moveToCold succeeds old).2.slot id
      if some id ∈ (old.map Op.opId).take (old.countP (·.isWritten succeeds)) then moved.dropHot else moved := by
  rw [pruneBeforeEpoch_storage h]
  exact TieredStorage.slot_pruneFromHot _ _ _

theorem slot_of_not_old (h : Comparable ops) {id : String} (hid : ∀ op ∈ m.oldOps ops currentEpoch, op.opId ≠ some id) :
    (m.pruneBeforeEpoch succeeds ops currentEpoch).2.storage.slot id = m.storage.slot id := by
  rw [slot_pruneBeforeEpoch h]
  have habsent : some id ∉ ((m.oldOps ops currentEpoch).map Op.opId).take
      ((m.oldOps ops currentEpoch).countP (·.isWritten succeeds)) := by
    intro hmem
    obtain ⟨op, hop, heq⟩ := List.mem_map.mp (List.mem_of_mem_take hmem)
    exact hid op hop heq
  rw [if_neg habsent]
  exact TieredStorage.slot_moveToCold_other succeeds (fun op hop heq => absurd heq (hid op hop)) m.storage

variable (distinct : DistinctIds ops)
include distinct

theorem distinct_oldOps : DistinctIds (m.oldOps ops currentEpoch) := distinct.sublist List.filter_sublist

theorem slot_of_old (h : Comparable ops) {op : Op} (hop : op ∈ m.oldOps ops currentEpoch) {id : String}
    (hid : op.opId = some id) (hne : id ≠ "") :
    (m.pruneBeforeEpoch succeeds ops currentEpoch).2.storage.slot id =
      (m.storage.slot id).prune (succeeds id)
        (decide (op ∈ (m.oldOps ops currentEpoch).take ((m.oldOps ops currentEpoch).countP (·.isWritten succeeds)))) op := by
  have hold : DistinctIds (m.oldOps ops currentEpoch) := distinct_oldOps distinct
  rw [slot_pruneBeforeEpoch h, Slot.prune, ← TieredStorage.slot_moveToCold succeeds hold hop hid hne m.storage]
  simp only [opId_mem_take hold hop hid, decide_eq_true_eq]

theorem slot_of_unnamed (h : Comparable ops) {op : Op} (hop : op ∈ m.oldOps ops currentEpoch) (hid : op.opId = some "") :
    (m.pruneBeforeEpoch succeeds ops currentEpoch).2.storage.slot "" =
      if op ∈ (m.oldOps ops currentEpoch).take ((m.oldOps ops currentEpoch).countP (·.isWritten succeeds)) then
        (m.storage.slot "").dropHot
      else m.storage.slot "" := by
  have hold : DistinctIds (m.oldOps ops currentEpoch) := distinct_oldOps distinct
  have hmoved : (m.storage.moveToCold succeeds (m.oldOps ops currentEpoch)).2.slot "" = m.storage.slot "" :=
    TieredStorage.slot_moveToCold_other succeeds (fun _ _ _ => rfl) m.storage
  rw [slot_pruneBeforeEpoch h]
  simp only [opId_mem_take hold hop hid, hmoved]

theorem keeps_iff (agrees : m.Agrees ops) (h : Comparable ops) {op : Op} (hop : op ∈ m.oldOps ops currentEpoch)
    {id : String} (hid : op.opId = some id) :
    (m.storage.slot id).Keeps ((m.pruneBeforeEpoch succeeds ops currentEpoch).2.storage.slot id) (op.isWritten succeeds) ↔
      (id ≠ "" → m.storage.hotTier.get? id = none →
        ∀ data, m.storage.getOp id = some data → op.isWritten succeeds = true ∧ data = op.data) ∧
      (op ∈ (m.oldOps ops currentEpoch).take ((m.oldOps ops currentEpoch).countP (·.isWritten succeeds)) →
        m.storage.hotTier.contains id = true → op.isWritten succeeds = true) := by
  by_cases hne : id = ""
  · subst hne
    have hunwritten : op.isWritten succeeds = false := Op.isWritten_of_named hid succeeds
    rw [slot_of_unnamed distinct h hop hid, hunwritten]
    split
    next hlead =>
      rw [Slot.keeps_dropHot, ← TieredStorage.hotTier_get?, ← Table.contains_eq_false_iff]
      simp [hlead]
    next hlead => simp [hlead, Slot.keeps_self]
  · have hwritten : op.isWritten succeeds = succeeds id := by
      simp [Op.isWritten_of_named hid, hne]
    rw [slot_of_old distinct h hop hid hne, hwritten]
    cases hot : m.storage.hotTier.get? id with
    | none =>
      have hcold : m.storage.hotTier.contains id = false := Table.contains_eq_false_iff.mpr hot
      rw [Slot.keeps_prune_cold hot, ← TieredStorage.getOp_eq]
      simp [hne, hcold]
    | some hotOp =>
      have hsame : hotOp = op := agrees op (List.mem_of_mem_filter hop) id hid hotOp hot
      have hcontains : m.storage.hotTier.contains id = true := Table.contains_eq_true_iff.mpr ⟨hotOp, hot⟩
      subst hsame
      rw [Slot.keeps_prune_hot hot (Op.fields_ne_nil hid)]
      simp [hcontains]

theorem losesNothing_iff (agrees : m.Agrees ops) (h : Comparable ops) :
    m.LosesNothing (m.pruneBeforeEpoch succeeds ops currentEpoch).2 succeeds (m.oldOps ops currentEpoch) ↔
      ∀ op ∈ m.oldOps ops currentEpoch, ∀ id, op.opId = some id →
        (m.storage.slot id).Keeps ((m.pruneBeforeEpoch succeeds ops currentEpoch).2.storage.slot id)
          (op.isWritten succeeds) := by
  constructor
  · intro hloses op hop id hid
    constructor
    · intro data hdata
      rw [← TieredStorage.getOp_eq] at hdata ⊢
      exact hloses.read id data hdata
    · intro hotOp hot hnone
      obtain ⟨hold, hhot, hwritten⟩ := hloses.hot id hotOp hot hnone
      rwa [(distinct_oldOps distinct).eq hop hold hid hhot]
  · intro hkeeps
    have hcases : ∀ id, (∃ op ∈ m.oldOps ops currentEpoch, op.opId = some id) ∨
        (m.pruneBeforeEpoch succeeds ops currentEpoch).2.storage.slot id = m.storage.slot id := by
      intro id
      by_cases hnamed : ∃ op ∈ m.oldOps ops currentEpoch, op.opId = some id
      · exact Or.inl hnamed
      · exact Or.inr (slot_of_not_old h fun op hop hid => hnamed ⟨op, hop, hid⟩)
    constructor
    · intro id data hdata
      rw [TieredStorage.getOp_eq] at hdata ⊢
      rcases hcases id with ⟨op, hop, hid⟩ | hsame
      · exact (hkeeps op hop id hid).read data hdata
      · rwa [hsame]
    · intro id hotOp hot hnone
      rcases hcases id with ⟨op, hop, hid⟩ | hsame
      · have hagrees : hotOp = op := agrees op (List.mem_of_mem_filter hop) id hid hotOp hot
        subst hagrees
        exact ⟨hop, hid, (hkeeps hotOp hop id hid).hot hotOp hot hnone⟩
      · rw [TieredStorage.hotTier_get?, hsame] at hnone
        cases hot.symm.trans hnone

end Pruned

/-- A pruning loses no operation exactly when what is only in the cold tier is written again as it is and
no operation whose write failed comes among the first of the list. -/
theorem pruning_loses_no_operation (m : PruningManager) (succeeds : String → Bool) (ops : List Op) (currentEpoch : Int)
    (distinct : DistinctIds ops) (agrees : m.Agrees ops) :
    m.LosesNothing (m.pruneBeforeEpoch succeeds ops currentEpoch).2 succeeds (m.oldOps ops currentEpoch) ↔
      (Comparable ops → m.Archivable succeeds (m.oldOps ops currentEpoch)) := by
  by_cases h : Comparable ops
  · rw [losesNothing_iff distinct agrees h]
    constructor
    · intro hkeeps _
      constructor
      · intro op hop id hid
        exact ((keeps_iff distinct agrees h hop hid).mp (hkeeps op hop id hid)).1
      · intro op hop id hid
        have hold := List.mem_of_mem_take hop
        exact ((keeps_iff distinct agrees h hold hid).mp (hkeeps op hold id hid)).2 hop
    · intro harch op hop id hid
      apply (keeps_iff distinct agrees h hop hid).mpr
      constructor
      · exact (harch h).cold op hop id hid
      · exact fun hlead => (harch h).leading op hlead id hid
  · rw [pruneBeforeEpoch_not_comparable h]
    constructor
    · exact fun _ hcomparable => absurd hcomparable h
    · intro _
      constructor
      · exact fun _ _ hdata => hdata
      · intro id op hot hnone
        cases hot.symm.trans hnone

/-- `alpha` and `beta` are old operations of the hot tier. -/
def sampleOp (id : String) (epoch : Int) : Op :=
  ⟨[("op_id", .str id), ("epoch", .int epoch)], by simp [Json.wellFormed, Json.wellFormedFields], rfl⟩

def sampleOps : List Op := [sampleOp "alpha" 1, sampleOp "beta" 2]

def sampleManager : PruningManager :=
  ⟨⟨10⟩, ⟨(Table.empty.upsert "alpha" (sampleOp "alpha" 1)).upsert "beta" (sampleOp "beta" 2), .empty, .empty⟩⟩

theorem sampleOps_distinct : DistinctIds sampleOps := by
  simp [DistinctIds, sampleOps, sampleOp, Op.opId]

theorem sampleOps_cases {P : Op → Prop} (alpha : P (sampleOp "alpha" 1)) (beta : P (sampleOp "beta" 2)) :
    ∀ op ∈ sampleOps, P op :=
  List.forall_mem_cons.mpr ⟨alpha, List.forall_mem_singleton.mpr beta⟩

/-- The write of `beta` fails, and it stays in the hot tier. -/
theorem pruning_loses_no_operation_sample :
    sampleManager.LosesNothing (sampleManager.pruneBeforeEpoch (fun id => id = "alpha") sampleOps 100).2
      (fun id => id = "alpha") (sampleManager.oldOps sampleOps 100) := by
  have hhot : ∀ op ∈ sampleOps, ∀ id, op.opId = some id → sampleManager.storage.hotTier.get? id = some op := by
    apply sampleOps_cases
    · intro id hid
      cases hid
      decide
    · intro id hid
      cases hid
      decide
  have hagrees : sampleManager.Agrees sampleOps := by
    intro op hop id hid hot hget
    exact Option.some.inj (hget.symm.trans (hhot op hop id hid))
  apply (pruning_loses_no_operation sampleManager (fun id => id = "alpha") sampleOps 100 sampleOps_distinct hagrees).mpr
  intro _
  constructor
  · intro op hop id hid _ hnone
    cases (hhot op (List.mem_of_mem_filter hop) id hid).symm.trans hnone
  · have hleading : ∀ op ∈ (sampleManager.oldOps sampleOps 100).take
        ((sampleManager.oldOps sampleOps 100).countP (·.isWritten fun id => id = "alpha")),
        op.isWritten (fun id => id = "alpha") = true := by decide
    exact fun op hop _ _ _ => hleading op hop

/-- The write of `alpha` fails, that of `beta` counts as one, and the first of the list goes. -/
theorem first_write_fails : ¬sampleManager.LosesNothing
    (sampleManager.pruneBeforeEpoch (fun id => id = "beta") sampleOps 100).2 (fun id => id = "beta")
    (sampleManager.oldOps sampleOps 100) := by
  intro h
  have hbefore : sampleManager.storage.getOp "alpha" = some (sampleOp "alpha" 1).data := by decide
  have hafter : (sampleManager.pruneBeforeEpoch (fun id => id = "beta") sampleOps 100).2.storage.getOp "alpha" = none := by
    decide
  cases hafter.symm.trans (h.read "alpha" _ hbefore)

end PruningManager

end AgentNetwork.Checkpoint
