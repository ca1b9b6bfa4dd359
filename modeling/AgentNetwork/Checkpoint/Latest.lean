import AgentNetwork.Checkpoint.Storage
import AgentNetwork.Library.PythonInt
import AgentNetwork.Library.Traces

/-! The files of a manager after any stores and deletions, or any CHECKPOINT messages, and the one taken for the latest. -/

namespace AgentNetwork.Checkpoints

open Relational

variable (isPrintable : Char → Bool) (zstd : Zstd)

def getCheckpointPath (epoch : Json) : String := "checkpoint_epoch_" ++ Python.str isPrintable epoch ++ ".json"

/-- Whether `checkpoint_epoch_*.json` matches. -/
def matchesPattern (name : String) : Bool :=
  "checkpoint_epoch_".toList.isPrefixOf name.toList &&
    ".json".toList.isSuffixOf (name.toList.drop "checkpoint_epoch_".length)

/-- `path.stem` of a name that ends in `.json`. -/
def stem (name : String) : List Char := name.toList.take (name.length - ".json".length)

/-- `int(path.stem.split("_")[-1])`; `none` where it raises. -/
def epochOf (name : String) : Option Int :=
  ((stem name).splitOn '_').getLast?.bind fun part => Python.parseInt (String.ofList part)

namespace CheckpointManager

def glob (m : CheckpointManager) : List String := m.files.keys.filter matchesPattern

def storeManaged (m : CheckpointManager) (signed : SignedCheckpoint) : CheckpointManager :=
  m.storeCheckpoint zstd signed (getCheckpointPath isPrintable signed.checkpoint.epoch)

def getLatestCheckpoint (m : CheckpointManager) : Option SignedCheckpoint :=
  match m.glob.insertionSort (fun a b => b ≤ a) with
  | [] => none
  | latest :: _ => m.loadCheckpoint zstd latest

def listCheckpoints (m : CheckpointManager) : List Int := (m.glob.filterMap epochOf).insertionSort (· ≤ ·)

def deleteCheckpoint (m : CheckpointManager) (epoch : Int) : Bool × CheckpointManager :=
  let path := getCheckpointPath isPrintable (.int epoch)
  if m.files.contains path then (true, { m with files := m.files.erase path }) else (false, m)

end CheckpointManager

structure EpochCheckpoint where
  signed : SignedCheckpoint
  epoch : Nat
  storable : signed.Storable
  numbered : signed.checkpoint.epoch = .int epoch

inductive Call
  | store (stored : EpochCheckpoint)
  | delete (epoch : Nat)

def apply (m : CheckpointManager) : Call → CheckpointManager
  | .store stored => m.storeManaged isPrintable zstd stored.signed
  | .delete epoch => (m.deleteCheckpoint isPrintable epoch).2

/-- The manager after the calls, on an empty directory. -/
def afterCalls (enableCompression : Bool) (compressionLevel : Int) (calls : List Call) : CheckpointManager :=
  calls.foldl (apply isPrintable zstd) ⟨enableCompression, compressionLevel, .empty⟩

def storedAfter (kept : Option EpochCheckpoint) (epoch : Nat) : Call → Option EpochCheckpoint
  | .store stored => if stored.epoch = epoch then some stored else kept
  | .delete deleted => if deleted = epoch then none else kept

def lastStored (calls : List Call) (epoch : Nat) : Option EpochCheckpoint :=
  calls.foldl (fun kept call => storedAfter kept epoch call) none

def fileName (epoch : Nat) : String := "checkpoint_epoch_" ++ String.ofList (Nat.toDigits 10 epoch) ++ ".json"

variable {isPrintable zstd}

theorem toString_natCast (n : Nat) : toString (n : Int) = String.ofList (Nat.toDigits 10 n) := by
  change toString n = _
  exact Nat.toString_eq_ofList_toDigits

theorem getCheckpointPath_int (epoch : Nat) : getCheckpointPath isPrintable (.int epoch) = fileName epoch := by
  have hstr : Python.str isPrintable (.int epoch) = String.ofList (toString (epoch : Int)).toList := rfl
  unfold getCheckpointPath fileName
  rw [hstr, String.ofList_toList, toString_natCast]

theorem toList_fileName (epoch : Nat) :
    (fileName epoch).toList = "checkpoint_epoch_".toList ++ (Nat.toDigits 10 epoch ++ ".json".toList) := by
  unfold fileName
  simp only [String.toList_append, String.toList_ofList, List.append_assoc]

theorem matchesPattern_fileName (epoch : Nat) : matchesPattern (fileName epoch) = true := by
  have hlen : "checkpoint_epoch_".length = "checkpoint_epoch_".toList.length := String.length_toList.symm
  rw [matchesPattern, toList_fileName, hlen, List.drop_left, Bool.and_eq_true]
  exact ⟨List.isPrefixOf_iff_prefix.mpr (List.prefix_append _ _),
    List.isSuffixOf_iff_suffix.mpr (List.suffix_append _ _)⟩

theorem stem_fileName (epoch : Nat) : stem (fileName epoch) = "checkpoint_epoch".toList ++ '_' :: Nat.toDigits 10 epoch := by
  have hjson : ".json".length = ".json".toList.length := String.length_toList.symm
  have hname : (fileName epoch).toList =
      ("checkpoint_epoch".toList ++ '_' :: Nat.toDigits 10 epoch) ++ ".json".toList := by
    have hprefix : "checkpoint_epoch_".toList = "checkpoint_epoch".toList ++ ['_'] := rfl
    simp only [toList_fileName, hprefix, List.append_assoc, List.cons_append, List.nil_append]
  unfold stem
  rw [← String.length_toList, hname, hjson, List.length_append, Nat.add_sub_cancel, List.take_left]

theorem epochOf_fileName (epoch : Nat) : epochOf (fileName epoch) = some (epoch : Int) := by
  have hdigits : '_' ∉ Nat.toDigits 10 epoch := fun hmem =>
    absurd (Nat.isDigit_of_mem_toDigits (by omega) (by omega) hmem) (by decide)
  unfold epochOf
  rw [stem_fileName, List.splitOn_append_cons_self, List.splitOn_eq_singleton hdigits, List.getLast?_concat,
    Option.bind_some]
  exact Python.parseInt_toDigits epoch

theorem fileName_injective : Function.Injective fileName := by
  intro a b h
  have hepoch := congrArg epochOf h
  rw [epochOf_fileName, epochOf_fileName] at hepoch
  exact Int.natCast_inj.mp (Option.some.inj hepoch)

/-- The files are those of the epochs that are stored, each with the checkpoint stored last. -/
structure Holds (zstd : Zstd) (m : CheckpointManager) (kept : Nat → Option EpochCheckpoint) : Prop where
  text : ∀ epoch, m.files.get? (fileName epoch) =
    (kept epoch).map fun stored => Json.writeIndented 2 (m.storedDict zstd stored.signed)
  named : ∀ name, m.files.get? name ≠ none → ∃ epoch, name = fileName epoch
  numbered : ∀ epoch stored, kept epoch = some stored → stored.epoch = epoch

theorem Holds.store {m : CheckpointManager} {kept : Nat → Option EpochCheckpoint} (h : Holds zstd m kept)
    (stored : EpochCheckpoint) : Holds zstd (m.storeManaged isPrintable zstd stored.signed)
      fun epoch => storedAfter (kept epoch) epoch (.store stored) := by
  have hpath : getCheckpointPath isPrintable stored.signed.checkpoint.epoch = fileName stored.epoch := by
    rw [stored.numbered, getCheckpointPath_int]
  simp only [CheckpointManager.storeManaged, hpath]
  constructor
  · intro epoch
    simp only [CheckpointManager.storeCheckpoint, Table.get?_upsert, storedAfter, fileName_injective.eq_iff]
    by_cases heq : epoch = stored.epoch
    · rw [if_pos heq, if_pos heq.symm]
      rfl
    · rw [if_neg heq, if_neg (Ne.symm heq)]
      exact h.text epoch
  · intro name hname
    by_cases heq : name = fileName stored.epoch
    · exact ⟨_, heq⟩
    · rw [CheckpointManager.storeCheckpoint, Table.get?_upsert, if_neg heq] at hname
      exact h.named name hname
  · intro epoch last hlast
    rw [storedAfter] at hlast
    split at hlast
    next heq => exact Option.some.inj hlast ▸ heq
    next => exact h.numbered epoch last hlast

theorem Holds.delete {m : CheckpointManager} {kept : Nat → Option EpochCheckpoint} (h : Holds zstd m kept)
    (deleted : Nat) : Holds zstd (m.deleteCheckpoint isPrintable deleted).2
      fun epoch => storedAfter (kept epoch) epoch (.delete deleted) := by
  have hnumbered : ∀ epoch last, storedAfter (kept epoch) epoch (.delete deleted) = some last → last.epoch = epoch := by
    intro epoch last hlast
    rw [storedAfter] at hlast
    split at hlast
    next => cases hlast
    next => exact h.numbered epoch last hlast
  simp only [CheckpointManager.deleteCheckpoint, getCheckpointPath_int]
  split
  next =>
    constructor
    · intro epoch
      simp only [Table.get?_erase, storedAfter, fileName_injective.eq_iff]
      by_cases heq : epoch = deleted
      · rw [if_pos heq, if_pos heq.symm]
        rfl
      · rw [if_neg heq, if_neg (Ne.symm heq)]
        exact h.text epoch
    · intro name hname
      rw [Table.get?_erase] at hname
      split at hname
      next => exact absurd rfl hname
      next => exact h.named name hname
    · exact hnumbered
  next hmissing =>
    have hnone : m.files.get? (fileName deleted) = none :=
      Table.contains_eq_false_iff.mp (Bool.eq_false_iff.mpr hmissing)
    constructor
    · intro epoch
      simp only [storedAfter]
      by_cases heq : deleted = epoch
      · rw [if_pos heq, ← heq, hnone]
        rfl
      · rw [if_neg heq]
        exact h.text epoch
    · exact h.named
    · exact hnumbered

theorem Holds.apply {m : CheckpointManager} {kept : Nat → Option EpochCheckpoint} (h : Holds zstd m kept) (call : Call) :
    Holds zstd (apply isPrintable zstd m call) fun epoch => storedAfter (kept epoch) epoch call := by
  cases call with
  | store stored => exact h.store stored
  | delete deleted => exact h.delete deleted

theorem Holds.run {m : CheckpointManager} {kept : Nat → Option EpochCheckpoint} (h : Holds zstd m kept) (calls : List Call) :
    Holds zstd (calls.foldl (Checkpoints.apply isPrintable zstd) m)
      fun epoch => calls.foldl (fun kept call => storedAfter kept epoch call) (kept epoch) := by
  induction calls generalizing m kept with
  | nil => exact h
  | cons call rest ih => exact ih (h.apply call)

theorem holds_afterCalls (enableCompression : Bool) (compressionLevel : Int) (calls : List Call) :
    Holds zstd (afterCalls isPrintable zstd enableCompression compressionLevel calls) (lastStored calls) := by
  refine Holds.run ⟨fun epoch => rfl, fun name hname => absurd rfl hname, fun epoch stored hkept => ?_⟩ calls
  cases hkept

theorem apply_config (m : CheckpointManager) (call : Call) :
    (apply isPrintable zstd m call).enableCompression = m.enableCompression := by
  cases call with
  | store stored => rfl
  | delete deleted =>
    simp only [apply, CheckpointManager.deleteCheckpoint]
    split <;> rfl

theorem afterCalls_enableCompression (enableCompression : Bool) (compressionLevel : Int) (calls : List Call) :
    (afterCalls isPrintable zstd enableCompression compressionLevel calls).enableCompression = enableCompression := by
  unfold afterCalls
  induction calls using List.reverseRecOn with
  | nil => rfl
  | append_singleton calls call ih => rw [List.foldl_append, List.foldl_cons, List.foldl_nil, apply_config, ih]

section Held

variable {m : CheckpointManager} {kept : Nat → Option EpochCheckpoint}

theorem Holds.mem_glob (h : Holds zstd m kept) {name : String} :
    name ∈ m.glob ↔ ∃ epoch stored, kept epoch = some stored ∧ name = fileName epoch := by
  have hkeys : name ∈ m.files.keys ↔ m.files.get? name ≠ none := (not_iff_comm.mp Table.get?_eq_none_iff.symm).symm
  rw [CheckpointManager.glob, List.mem_filter, hkeys]
  constructor
  · rintro ⟨hname, -⟩
    obtain ⟨epoch, rfl⟩ := h.named name hname
    rw [h.text] at hname
    cases hkept : kept epoch with
    | none =>
      rw [hkept] at hname
      exact absurd rfl hname
    | some stored => exact ⟨epoch, stored, hkept, rfl⟩
  · rintro ⟨epoch, stored, hkept, rfl⟩
    refine ⟨?_, matchesPattern_fileName epoch⟩
    rw [h.text, hkept]
    exact Option.some_ne_none _

theorem Holds.mem_listCheckpoints (h : Holds zstd m kept) {k : Int} :
    k ∈ m.listCheckpoints ↔ ∃ (epoch : Nat) (stored : EpochCheckpoint), kept epoch = some stored ∧ k = epoch := by
  rw [CheckpointManager.listCheckpoints, List.mem_insertionSort, List.mem_filterMap]
  constructor
  · rintro ⟨name, hname, hepoch⟩
    obtain ⟨epoch, stored, hkept, rfl⟩ := h.mem_glob.mp hname
    rw [epochOf_fileName] at hepoch
    exact ⟨epoch, stored, hkept, (Option.some.inj hepoch).symm⟩
  · rintro ⟨epoch, stored, hkept, rfl⟩
    exact ⟨fileName epoch, h.mem_glob.mpr ⟨epoch, stored, hkept, rfl⟩, epochOf_fileName epoch⟩

theorem Holds.loadCheckpoint (h : Holds zstd m kept) (lossless : zstd.Lossless) {epoch : Nat} {stored : EpochCheckpoint}
    (hkept : kept epoch = some stored) : m.loadCheckpoint zstd (fileName epoch) =
      some (stored.signed.setState (m.reloadedState zstd stored.signed.checkpoint.stateSummary)) := by
  rw [CheckpointManager.loadCheckpoint, h.text, hkept, Option.map_some, Option.bind_some]
  exact CheckpointManager.loadText_stored lossless stored.storable

theorem getLatestCheckpoint_of_sort {latest : String} {rest : List String}
    (h : m.glob.insertionSort (fun a b => b ≤ a) = latest :: rest) :
    m.getLatestCheckpoint zstd = m.loadCheckpoint zstd latest := by
  rw [CheckpointManager.getLatestCheckpoint, h]

/-- The checkpoint taken for the latest is the one of the greatest file name. -/
theorem Holds.getLatest (h : Holds zstd m kept) (lossless : zstd.Lossless) :
    (m.glob = [] ∧ m.getLatestCheckpoint zstd = none) ∨
    ∃ epoch stored, kept epoch = some stored ∧ (∀ name ∈ m.glob, name ≤ fileName epoch) ∧
      m.getLatestCheckpoint zstd = some (stored.signed.setState (m.reloadedState zstd stored.signed.checkpoint.stateSummary)) := by
  have htrans : IsTrans String fun a b => b ≤ a := ⟨fun _ _ _ hab hbc => String.le_trans hbc hab⟩
  have htotal : Std.Total fun a b : String => b ≤ a := ⟨fun a b => String.le_total b a⟩
  have hsorted := List.pairwise_insertionSort (fun a b : String => b ≤ a) m.glob
  have hmem : ∀ name, name ∈ m.glob.insertionSort (fun a b => b ≤ a) ↔ name ∈ m.glob := fun name => List.mem_insertionSort _
  cases hsort : m.glob.insertionSort (fun a b => b ≤ a) with
  | nil =>
    refine .inl ⟨List.eq_nil_iff_forall_not_mem.mpr fun name hname => ?_, ?_⟩
    · rw [← hmem, hsort] at hname
      exact absurd hname List.not_mem_nil
    · rw [CheckpointManager.getLatestCheckpoint, hsort]
  | cons latest rest =>
    rw [hsort] at hsorted hmem
    obtain ⟨epoch, stored, hkept, rfl⟩ := h.mem_glob.mp ((hmem latest).mp List.mem_cons_self)
    refine .inr ⟨epoch, stored, hkept, fun name hname => ?_, ?_⟩
    · rcases List.mem_cons.mp ((hmem name).mpr hname) with rfl | hrest
      · exact String.le_refl _
      · exact List.rel_of_pairwise_cons hsorted hrest
    · rw [getLatestCheckpoint_of_sort hsort, h.loadCheckpoint lossless hkept]

theorem Holds.eq_of_same (h : Holds zstd m kept) {epoch other : Nat} {stored last : EpochCheckpoint} {state : Json}
    (hstored : kept epoch = some stored) (hlast : kept other = some last)
    (hsame : (stored.signed.setState state).Same last.signed) : epoch = other := by
  have hepoch : stored.signed.checkpoint.epoch = .int epoch := by
    rw [stored.numbered, h.numbered epoch stored hstored]
  have hother : last.signed.checkpoint.epoch = .int other := by
    rw [last.numbered, h.numbered other last hlast]
  have hsorted := hsame.epoch
  rw [SignedCheckpoint.setState, hepoch, hother] at hsorted
  exact Int.natCast_inj.mp (Json.int.inj hsorted)

end Held

/-- `get_latest_checkpoint` returns the checkpoint stored last for the epoch. -/
def LatestIs (zstd : Zstd) (m : CheckpointManager) (calls : List Call) (epoch : Nat) : Prop :=
  ∃ stored loaded, lastStored calls epoch = some stored ∧ m.getLatestCheckpoint zstd = some loaded ∧
    loaded.Same stored.signed

/-- After any calls there is a latest checkpoint exactly if there is one at all, and it is that of the
greatest epoch exactly if that has the greatest file name and no empty state that was compressed. -/
theorem latest_is_greatest_iff (isPrintable : Char → Bool) (lossless : zstd.Lossless) (enableCompression : Bool)
    (compressionLevel : Int) (calls : List Call) :
    let m := afterCalls isPrintable zstd enableCompression compressionLevel calls
    (m.getLatestCheckpoint zstd = none ↔ m.listCheckpoints = []) ∧
    ∀ greatest : Nat, (greatest : Int) ∈ m.listCheckpoints → (∀ k ∈ m.listCheckpoints, k ≤ greatest) →
      (LatestIs zstd m calls greatest ↔
        (∀ epoch : Nat, (epoch : Int) ∈ m.listCheckpoints →
          getCheckpointPath isPrintable (.int epoch) ≤ getCheckpointPath isPrintable (.int greatest)) ∧
        ∀ stored, lastStored calls greatest = some stored →
          ¬(enableCompression = true ∧ stored.signed.checkpoint.stateSummary = .obj [])) := by
  intro m
  have h : Holds zstd m (lastStored calls) := holds_afterCalls enableCompression compressionLevel calls
  have hconfig : m.enableCompression = enableCompression :=
    afterCalls_enableCompression enableCompression compressionLevel calls
  have hlist : ∀ {k : Int}, k ∈ m.listCheckpoints ↔ _ := h.mem_listCheckpoints
  rcases h.getLatest lossless with ⟨hempty, hlatest⟩ | ⟨epoch, stored, hkept, hgreatest, hlatest⟩
  · have hnone : m.listCheckpoints = [] := by
      rw [CheckpointManager.listCheckpoints, hempty]
      rfl
    refine ⟨by simp [hlatest, hnone], fun greatest hmem => ?_⟩
    rw [hnone] at hmem
    exact absurd hmem List.not_mem_nil
  have hepoch : (epoch : Int) ∈ m.listCheckpoints := hlist.mpr ⟨epoch, stored, hkept, rfl⟩
  refine ⟨by simp [hlatest, List.ne_nil_of_mem hepoch], fun greatest hmem hbound => ?_⟩
  simp only [getCheckpointPath_int, ← hconfig]
  constructor
  · rintro ⟨last, loaded, hlast, hsome, hsame⟩
    rw [hlatest] at hsome
    obtain rfl := Option.some.inj hsome
    obtain rfl : epoch = greatest := h.eq_of_same hkept hlast hsame
    obtain rfl : stored = last := Option.some.inj (hkept.symm.trans hlast)
    refine ⟨fun other hother => ?_, fun last hlast => ?_⟩
    · obtain ⟨e, s, hs, he⟩ := hlist.mp hother
      obtain rfl := Int.natCast_inj.mp he
      exact hgreatest _ (h.mem_glob.mpr ⟨other, s, hs, rfl⟩)
    · obtain rfl : stored = last := Option.some.inj (hkept.symm.trans hlast)
      exact (CheckpointManager.reloadedState_sorted stored.storable).mp hsame.state
  · rintro ⟨hnames, hstate⟩
    obtain ⟨e, last, hlast, he⟩ := hlist.mp hmem
    obtain rfl := Int.natCast_inj.mp he
    have heq : epoch = greatest := fileName_injective
      (String.le_antisymm (hnames epoch hepoch) (hgreatest _ (h.mem_glob.mpr ⟨greatest, last, hlast, rfl⟩)))
    subst heq
    obtain rfl : stored = last := Option.some.inj (hkept.symm.trans hlast)
    have hsorted := (@CheckpointManager.reloadedState_sorted zstd m _ stored.storable).mpr (hstate stored hlast)
    exact ⟨stored, _, hkept, hlatest, stored.signed.sorted_setState hsorted⟩

def plainSigned (epoch : Nat) : SignedCheckpoint := ⟨⟨.int epoch, .str "00", .obj [], .int 5, .int 0, .obj []⟩, .arr []⟩

def plainCheckpoint (epoch : Nat) : EpochCheckpoint := ⟨plainSigned epoch, epoch, ⟨rfl, ⟨[], rfl⟩, rfl⟩, rfl⟩

def nineThenTen : List Call := [.store (plainCheckpoint 9), .store (plainCheckpoint 10)]

/-- The manager of a directory with epochs 9 and 10, uncompressed. -/
def nineAndTen : CheckpointManager := afterCalls (fun _ => true) CheckpointManager.sampleZstd false 3 nineThenTen

/-- The file of epoch 9 has the greater name. -/
theorem nine_is_latest : nineAndTen.listCheckpoints = [9, 10] ∧
    nineAndTen.getLatestCheckpoint CheckpointManager.sampleZstd = some (plainSigned 9) ∧
    ¬LatestIs CheckpointManager.sampleZstd nineAndTen nineThenTen 10 := by
  have h : Holds CheckpointManager.sampleZstd nineAndTen (lastStored nineThenTen) := holds_afterCalls false 3 nineThenTen
  have hsort : nineAndTen.glob.insertionSort (fun a b => b ≤ a) = [fileName 9, fileName 10] := by decide +kernel
  have hnine : lastStored nineThenTen 9 = some (plainCheckpoint 9) := rfl
  have hoff : nineAndTen.enableCompression = false := afterCalls_enableCompression false 3 nineThenTen
  have hlatest : nineAndTen.getLatestCheckpoint CheckpointManager.sampleZstd = some (plainSigned 9) := by
    rw [getLatestCheckpoint_of_sort hsort, h.loadCheckpoint CheckpointManager.sampleZstd_lossless hnine,
      CheckpointManager.reloadedState, hoff, if_neg Bool.false_ne_true]
    rfl
  refine ⟨by decide +kernel, hlatest, ?_⟩
  rintro ⟨stored, loaded, hlast, hsome, hsame⟩
  rw [hlatest] at hsome
  obtain rfl := Option.some.inj hsome
  obtain rfl := Option.some.inj hlast
  exact absurd hsame.epoch (by decide)

theorem latest_is_greatest_iff_one :
    LatestIs CheckpointManager.sampleZstd
        (afterCalls (fun _ => true) CheckpointManager.sampleZstd false 3 nineThenTen) nineThenTen 10 ↔
      (∀ epoch : Nat, (epoch : Int) ∈ nineAndTen.listCheckpoints →
        getCheckpointPath (fun _ => true) (.int epoch) ≤ getCheckpointPath (fun _ => true) (.int (10 : Nat))) ∧
      ∀ stored, lastStored nineThenTen 10 = some stored →
        ¬(false = true ∧ stored.signed.checkpoint.stateSummary = .obj []) :=
  (latest_is_greatest_iff (fun _ => true) CheckpointManager.sampleZstd_lossless false 3 nineThenTen).2 10
    (by decide +kernel) (by decide +kernel)

section Messages

/-- Whether `value[:8]` is read without an exception. -/
def sliceable : Json → Bool
  | .str _ | .arr _ => true
  | .null | .bool _ | .int _ | .float _ | .obj _ => false

/-- Whether `len(value)` is. -/
def sized : Json → Bool
  | .str _ | .arr _ | .obj _ => true
  | .null | .bool _ | .int _ | .float _ => false

/-- The checkpoint of a payload, at the time of the clock where it gives none. -/
def payloadCheckpoint (payload : List (String × Json)) (timeNs : Int) : SignedCheckpoint :=
  ⟨⟨getKey payload "epoch", getKey payload "merkle_root", getKey payload "state_summary",
      (payload.lookup "timestamp_ns").getD (.int timeNs), (payload.lookup "op_count").getD (.int 0),
      (payload.lookup "metadata").getD (.obj [])⟩,
    (payload.lookup "signatures").getD (.arr [])⟩

/-- `handle_checkpoint` of a node with a manager; `none` where it raises, which it does in
its log line at the latest. -/
def handleCheckpoint (isPrintable : Char → Bool) (zstd : Zstd) (payload : List (String × Json)) (timeNs : Int)
    (m : CheckpointManager) : Option CheckpointManager :=
  let epoch := getKey payload "epoch"
  let merkleRoot := getKey payload "merkle_root"
  let stateSummary := getKey payload "state_summary"
  let signatures := (payload.lookup "signatures").getD (.arr [])
  if epoch = .null then some m
  else if ¬Python.truthy merkleRoot then some m
  else if ¬Python.truthy stateSummary then some m
  else if sliceable merkleRoot && sized signatures then some (m.storeManaged isPrintable zstd (payloadCheckpoint payload timeNs))
  else none

/-- A CHECKPOINT message whose epoch, where it gives one, is a natural number and whose
state, where it is more than empty, is a dictionary; and the time when it is handled. -/
structure CheckpointMessage where
  payload : List (String × Json)
  timeNs : Int
  wellFormed : Json.wellFormedFields payload = true
  numbered : getKey payload "epoch" = .null ∨ ∃ epoch : Nat, getKey payload "epoch" = .int epoch
  state : Python.truthy (getKey payload "state_summary") = true → ∃ fields, getKey payload "state_summary" = .obj fields

namespace CheckpointMessage

def signed (message : CheckpointMessage) : SignedCheckpoint := payloadCheckpoint message.payload message.timeNs

/-- Whether the message gets through the checks of the handler; none of them is of a signature. -/
structure Accepted (message : CheckpointMessage) : Prop where
  epoch : getKey message.payload "epoch" ≠ .null
  merkleRoot : Python.truthy (getKey message.payload "merkle_root") = true
  stateSummary : Python.truthy (getKey message.payload "state_summary") = true
  logged : (sliceable (getKey message.payload "merkle_root") && sized ((message.payload.lookup "signatures").getD (.arr []))) = true

/-- The message is accepted for the epoch. -/
def AcceptedFor (message : CheckpointMessage) (epoch : Nat) : Prop :=
  message.Accepted ∧ getKey message.payload "epoch" = .int epoch

variable {message : CheckpointMessage}

theorem wellFormed_getD (message : CheckpointMessage) (key : String) {missing : Json} (h : missing.wellFormed = true) :
    ((message.payload.lookup key).getD missing).wellFormed = true := by
  obtain ⟨hkeys, hvalues⟩ := Json.wellFormedFields_iff.mp message.wellFormed
  cases hlookup : message.payload.lookup key with
  | none => exact h
  | some value => exact hvalues (key, value) ((Table.lookup_eq_some_iff_mem hkeys).mp hlookup)

theorem Accepted.numbered (h : message.Accepted) : ∃ epoch : Nat, getKey message.payload "epoch" = .int epoch :=
  message.numbered.resolve_left h.epoch

theorem wellFormed_checkpoint (message : CheckpointMessage) : message.signed.checkpoint.toDict.wellFormed = true := by
  refine Json.wellFormedFields_iff.mpr ⟨by simp only [List.map_cons, List.map_nil]; decide, ?_⟩
  simp only [List.forall_mem_cons]
  exact ⟨message.wellFormed_getD "epoch" rfl, message.wellFormed_getD "merkle_root" rfl, message.wellFormed_getD "state_summary" rfl,
    message.wellFormed_getD "timestamp_ns" rfl, message.wellFormed_getD "op_count" rfl, message.wellFormed_getD "metadata" rfl,
    List.forall_mem_nil _⟩

theorem wellFormed_signed (message : CheckpointMessage) : message.signed.toDict.wellFormed = true := by
  refine Json.wellFormedFields_iff.mpr ⟨by simp only [List.map_cons, List.map_nil]; decide, ?_⟩
  simp only [List.forall_mem_cons]
  exact ⟨message.wellFormed_checkpoint, message.wellFormed_getD "signatures" rfl, List.forall_mem_nil _⟩

theorem Accepted.storable (h : message.Accepted) : message.signed.Storable := by
  obtain ⟨epoch, hepoch⟩ := h.numbered
  refine ⟨message.wellFormed_signed, message.state h.stateSummary, ?_⟩
  show (getKey message.payload "epoch").hashable = true
  rw [hepoch]
  rfl

/-- What an accepted message has stored. -/
def stored (message : CheckpointMessage) (epoch : Nat) (h : message.AcceptedFor epoch) : EpochCheckpoint :=
  ⟨message.signed, epoch, h.1.storable, h.2⟩

end CheckpointMessage

/-- The manager after the messages, from an empty directory; one whose handler raises changes nothing. -/
def handled (isPrintable : Char → Bool) (zstd : Zstd) (enableCompression : Bool) (compressionLevel : Int)
    (messages : List CheckpointMessage) : CheckpointManager :=
  messages.foldl (fun m message => (handleCheckpoint isPrintable zstd message.payload message.timeNs m).getD m)
    ⟨enableCompression, compressionLevel, .empty⟩

variable {m : CheckpointManager} {message : CheckpointMessage}

theorem handle_accepted (h : message.Accepted) : handleCheckpoint isPrintable zstd message.payload message.timeNs m =
    some (m.storeManaged isPrintable zstd message.signed) := by
  unfold handleCheckpoint
  dsimp only
  rw [if_neg h.epoch, if_neg (not_not.mpr h.merkleRoot), if_neg (not_not.mpr h.stateSummary), if_pos h.logged]
  rfl

theorem handle_not_accepted (h : ¬message.Accepted) :
    (handleCheckpoint isPrintable zstd message.payload message.timeNs m).getD m = m := by
  unfold handleCheckpoint
  dsimp only
  split
  next => rfl
  next hepoch =>
    split
    next => rfl
    next hroot =>
      split
      next => rfl
      next hstate =>
        split
        next hlogged => exact absurd ⟨hepoch, not_not.mp hroot, not_not.mp hstate, hlogged⟩ h
        next => rfl

/-- The message is the last that was accepted for the epoch. -/
def LastAccepted (messages : List CheckpointMessage) (epoch : Nat) (message : CheckpointMessage) : Prop :=
  ∃ after, Transition.Since (fun _ m => m = message ∧ m.AcceptedFor epoch) (fun m => m.AcceptedFor epoch) messages after

/-- What is kept of the messages is, for each epoch, the checkpoint of the last accepted. -/
structure Keeps (messages : List CheckpointMessage) (kept : Nat → Option EpochCheckpoint) : Prop where
  last : ∀ epoch message, LastAccepted messages epoch message → ∃ stored, kept epoch = some stored ∧ stored.signed = message.signed
  none : ∀ epoch, kept epoch = none ↔ ∀ message ∈ messages, ¬message.AcceptedFor epoch

variable {messages : List CheckpointMessage} {kept : Nat → Option EpochCheckpoint}

theorem Keeps.accepted (h : Keeps messages kept) {epoch : Nat} (haccepted : message.AcceptedFor epoch) :
    Keeps (messages ++ [message]) fun e => storedAfter (kept e) e (.store (message.stored epoch haccepted)) := by
  have hsame : ∀ e, message.AcceptedFor e ↔ epoch = e := by
    intro e
    constructor
    · intro he
      exact Int.natCast_inj.mp (Json.int.inj (haccepted.2.symm.trans he.2))
    · rintro rfl
      exact haccepted
  have hkept : ∀ e, storedAfter (kept e) e (.store (message.stored epoch haccepted)) =
      if epoch = e then some (message.stored epoch haccepted) else kept e := fun _ => rfl
  constructor
  · rintro e last ⟨after, hsince⟩
    rw [hkept]
    obtain ⟨-, rfl, hlast⟩ | ⟨rest, -, hother, hrest⟩ := Transition.since_concat.mp hsince
    · rw [if_pos ((hsame e).mp hlast)]
      exact ⟨_, rfl, rfl⟩
    · rw [if_neg fun he => hother ((hsame e).mpr he)]
      exact h.last e last ⟨rest, hrest⟩
  · intro e
    rw [hkept, List.forall_mem_append, List.forall_mem_singleton, ← h.none e, hsame e]
    by_cases he : epoch = e
    · rw [if_pos he]
      exact iff_of_false (Option.some_ne_none _) fun hboth => hboth.2 he
    · rw [if_neg he, and_iff_left he]

theorem Keeps.not_accepted (h : Keeps messages kept) (hmessage : ¬message.Accepted) : Keeps (messages ++ [message]) kept := by
  have hnone : ∀ e, ¬message.AcceptedFor e := fun e he => hmessage he.1
  constructor
  · rintro e last ⟨after, hsince⟩
    obtain ⟨-, rfl, hlast⟩ | ⟨rest, -, -, hrest⟩ := Transition.since_concat.mp hsince
    · exact absurd hlast (hnone e)
    · exact h.last e last ⟨rest, hrest⟩
  · intro e
    rw [List.forall_mem_append, List.forall_mem_singleton, ← h.none e, and_iff_left (hnone e)]

theorem holds_handled (enableCompression : Bool) (compressionLevel : Int) (messages : List CheckpointMessage) :
    (handled isPrintable zstd enableCompression compressionLevel messages).enableCompression = enableCompression ∧
    ∃ kept, Holds zstd (handled isPrintable zstd enableCompression compressionLevel messages) kept ∧ Keeps messages kept := by
  induction messages using List.reverseRecOn with
  | nil =>
    refine ⟨rfl, fun _ => none, ⟨fun _ => rfl, fun name hname => absurd rfl hname, nofun⟩, ?_, fun _ => iff_of_true rfl nofun⟩
    rintro epoch message ⟨after, hsince⟩
    exact absurd hsince Transition.not_since_nil
  | append_singleton messages message ih =>
    obtain ⟨hconfig, kept, hholds, hkeeps⟩ := ih
    unfold handled at hconfig hholds ⊢
    rw [List.foldl_append, List.foldl_cons, List.foldl_nil]
    by_cases h : message.Accepted
    · obtain ⟨epoch, hepoch⟩ := h.numbered
      rw [handle_accepted h, Option.getD_some]
      exact ⟨hconfig, _, hholds.store (message.stored epoch ⟨h, hepoch⟩), hkeeps.accepted ⟨h, hepoch⟩⟩
    · rw [handle_not_accepted h]
      exact ⟨hconfig, kept, hholds, hkeeps.not_accepted h⟩

/-- After any CHECKPOINT messages the epochs with a checkpoint are those of the messages
accepted, and what is loaded for an epoch is what the last of them gave, compressed or not
and with whatever signatures it had. -/
theorem handled_checkpoints_exact (isPrintable : Char → Bool) (lossless : zstd.Lossless) (enableCompression : Bool)
    (compressionLevel : Int) (messages : List CheckpointMessage) :
    let m := handled isPrintable zstd enableCompression compressionLevel messages
    (∀ k, k ∈ m.listCheckpoints ↔ ∃ message ∈ messages, ∃ epoch : Nat, message.AcceptedFor epoch ∧ k = epoch) ∧
    ∀ (epoch : Nat) (message : CheckpointMessage), LastAccepted messages epoch message →
      ∃ loaded, m.loadCheckpoint zstd (getCheckpointPath isPrintable (.int epoch)) = some loaded ∧ loaded.Same message.signed ∧
        ∀ sha256, loaded.checkpoint.computeHash sha256 = message.signed.checkpoint.computeHash sha256 := by
  intro m
  obtain ⟨-, kept, hholds, hkeeps⟩ : m.enableCompression = enableCompression ∧ ∃ kept, Holds zstd m kept ∧ Keeps messages kept :=
    holds_handled enableCompression compressionLevel messages
  constructor
  · intro k
    rw [hholds.mem_listCheckpoints]
    constructor
    · rintro ⟨epoch, stored, hkept, rfl⟩
      have hsome : ¬∀ message ∈ messages, ¬message.AcceptedFor epoch := by
        rw [← hkeeps.none, hkept]
        exact Option.some_ne_none _
      push Not at hsome
      obtain ⟨message, hmessage, haccepted⟩ := hsome
      exact ⟨message, hmessage, epoch, haccepted, rfl⟩
    · rintro ⟨message, hmessage, epoch, haccepted, rfl⟩
      have hne : kept epoch ≠ none := fun hnone => (hkeeps.none epoch).mp hnone message hmessage haccepted
      obtain ⟨stored, hkept⟩ := Option.ne_none_iff_exists'.mp hne
      exact ⟨epoch, stored, hkept, rfl⟩
  · intro epoch message hlast
    obtain ⟨stored, hkept, hsigned⟩ := hkeeps.last epoch message hlast
    have haccepted : message.Accepted := by
      obtain ⟨_, before, event, _, ⟨rfl, haccepted⟩, _⟩ := hlast
      exact haccepted.1
    have hstate : ¬(m.enableCompression = true ∧ message.signed.checkpoint.stateSummary = .obj []) := by
      rintro ⟨-, hempty⟩
      have htruthy := haccepted.stateSummary
      rw [show getKey message.payload "state_summary" = .obj [] from hempty] at htruthy
      cases htruthy
    have hsorted := (@CheckpointManager.reloadedState_sorted zstd m _ haccepted.storable).mpr hstate
    rw [getCheckpointPath_int, hholds.loadCheckpoint lossless hkept, hsigned]
    exact ⟨_, rfl, message.signed.sorted_setState hsorted, message.signed.computeHash_setState hsorted⟩

def signedMessage : CheckpointMessage :=
  ⟨[("epoch", .int 1), ("merkle_root", .str "00"), ("state_summary", .obj [("tasks", .int 2)]),
      ("signatures", .arr [.str "signature"])], 5, rfl, Or.inr ⟨1, rfl⟩, fun _ => ⟨_, rfl⟩⟩

def unsignedMessage : CheckpointMessage :=
  ⟨[("epoch", .int 1), ("merkle_root", .str "ff"), ("state_summary", .obj [("tasks", .int 3)])], 6, rfl, Or.inr ⟨1, rfl⟩,
    fun _ => ⟨_, rfl⟩⟩

/-- A message without a signature takes the place of a signed checkpoint. -/
theorem handled_checkpoints_exact_unsigned :
    let m := handled (fun _ => true) CheckpointManager.sampleZstd false 3 [signedMessage, unsignedMessage]
    ∃ loaded, m.loadCheckpoint CheckpointManager.sampleZstd (getCheckpointPath (fun _ => true) (.int 1)) = some loaded ∧
      loaded.Same unsignedMessage.signed ∧
      ∀ sha256, loaded.checkpoint.computeHash sha256 = unsignedMessage.signed.checkpoint.computeHash sha256 := by
  have haccepted : unsignedMessage.AcceptedFor 1 := ⟨⟨nofun, rfl, rfl, rfl⟩, rfl⟩
  have hlast : LastAccepted [signedMessage, unsignedMessage] 1 unsignedMessage :=
    ⟨[], [signedMessage], unsignedMessage, rfl, ⟨rfl, haccepted⟩, nofun⟩
  exact (handled_checkpoints_exact (fun _ => true) CheckpointManager.sampleZstd_lossless false 3 _).2 1 unsignedMessage hlast

end Messages
end AgentNetwork.Checkpoints
