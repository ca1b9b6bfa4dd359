import AgentNetwork.Checkpoint.Merkle
import AgentNetwork.Library.JsonSorted

/-! Checkpoints and the hash that commits to their operations. -/

namespace AgentNetwork.Checkpoints

open MerkleLevels AgentNetwork.Checkpoint AgentNetwork.Checkpoint.MerkleTree

/-- The fields hold what they are given, of any type. -/
structure Checkpoint where
  epoch : Json
  merkleRoot : Json
  stateSummary : Json
  timestampNs : Json
  opCount : Json
  metadata : Json
  deriving DecidableEq

namespace Checkpoint

def toDict (c : Checkpoint) : Json :=
  .obj [("epoch", c.epoch), ("merkle_root", c.merkleRoot), ("state_summary", c.stateSummary),
    ("timestamp_ns", c.timestampNs), ("op_count", c.opCount), ("metadata", c.metadata)]

/-- `cls(**data)`; `none` where it raises. -/
def fromDict : Json → Option Checkpoint
  | .obj data => do
    let known := ["epoch", "merkle_root", "state_summary", "timestamp_ns", "op_count", "metadata"]
    if ¬data.all fun field => known.contains field.1 then none
    else
      let epoch ← data.lookup "epoch"
      let merkleRoot ← data.lookup "merkle_root"
      let stateSummary ← data.lookup "state_summary"
      let timestampNs ← data.lookup "timestamp_ns"
      let opCount ← data.lookup "op_count"
      some ⟨epoch, merkleRoot, stateSummary, timestampNs, opCount, (data.lookup "metadata").getD (.obj [])⟩
  | _ => none

def canonical (c : Checkpoint) : List (String × Json) :=
  [("epoch", c.epoch), ("merkle_root", c.merkleRoot), ("op_count", c.opCount), ("timestamp_ns", c.timestampNs),
    ("state_summary", c.stateSummary)]

def canonicalJson (c : Checkpoint) : String := (Json.obj c.canonical).write Json.sortedStyle

def computeHash (sha256 : String → String) (c : Checkpoint) : String := sha256 c.canonicalJson

end Checkpoint

/-- A checkpoint over the hashes of the operations, at the time of the clock. -/
def createCheckpoint (sha256 : String → String) (epoch : Int) (planState : List (String × Json))
    (opHashes : List String) (timeNs : Int) : Checkpoint :=
  let root := (MerkleTree.new.buildTree sha256 opHashes).1
  ⟨.int epoch, .str root, .obj planState, .int timeNs, .int opHashes.length, .obj []⟩

/-- The texts hashed to create a checkpoint and for its own hash. -/
def hashedTexts (sha256 : String → String) (opHashes : List String) (c : Checkpoint) : List String :=
  c.canonicalJson :: builtTexts sha256 opHashes

variable {sha256 : String → String}

theorem wellFormed_canonical (epoch : Int) {planState : List (String × Json)} (opHashes : List String) (timeNs : Int)
    (h : Json.wellFormedFields planState = true) :
    Json.wellFormed (.obj (createCheckpoint sha256 epoch planState opHashes timeNs).canonical) = true := by
  have hkeys : ["epoch", "merkle_root", "op_count", "timestamp_ns", "state_summary"].Nodup := by decide
  refine Json.wellFormedFields_iff.mpr ⟨hkeys, ?_⟩
  simp only [Checkpoint.canonical, createCheckpoint, List.forall_mem_cons, Json.wellFormed, h, true_and,
    List.not_mem_nil, false_implies, implies_true]

theorem root_and_count_of_canonicalJson_eq {a b : Checkpoint} (ha : Json.wellFormed (.obj a.canonical) = true)
    (hb : Json.wellFormed (.obj b.canonical) = true) (h : a.canonicalJson = b.canonicalJson) :
    a.merkleRoot.sorted = b.merkleRoot.sorted ∧ a.opCount.sorted = b.opCount.sorted := by
  have hreadable : (⟨false, ", ", ": "⟩ : Json.Style).Readable := Json.defaultStyle_readable
  have hleft : Json.loads a.canonicalJson = some (Json.sorted (.obj a.canonical)) := Json.loads_write_sorted hreadable _ ha
  have hright : Json.loads b.canonicalJson = some (Json.sorted (.obj b.canonical)) := Json.loads_write_sorted hreadable _ hb
  rw [h, hright] at hleft
  have hmem : ∀ field ∈ a.canonical, (field.1, Json.sorted field.2) ∈ Json.sortedFields b.canonical :=
    fun field hfield => Json.mem_of_mem_sorted (Option.some.inj hleft).symm hfield
  have hroot := hmem ("merkle_root", a.merkleRoot) (by simp [Checkpoint.canonical])
  have hcount := hmem ("op_count", a.opCount) (by simp [Checkpoint.canonical])
  simp only [Checkpoint.canonical, Json.sortedFields, List.mem_cons, Prod.mk.injEq, String.reduceEq, false_and,
    true_and, false_or, or_false, List.not_mem_nil] at hroot hcount
  exact ⟨hroot, hcount⟩

/-- A root and a count of operations commit to the operations. -/
theorem opHashes_eq_of_root_eq {A B : List String} (hlength : ∀ text, (sha256 text).length = 64)
    (hA : ∀ op ∈ A, op.length = 64) (hB : ∀ op ∈ B, op.length = 64) (hcount : A.length = B.length)
    (commits : ∀ t ∈ builtTexts sha256 A, ∀ u ∈ builtTexts sha256 B, sha256 t = sha256 u → t = u)
    (hroot : (MerkleTree.new.buildTree sha256 A).1 = (MerkleTree.new.buildTree sha256 B).1) : A = B := by
  by_cases hnil : A = []
  · subst hnil
    exact (List.eq_nil_of_length_eq_zero hcount.symm).symm
  have hnil' : B ≠ [] := by
    intro hB
    rw [hB] at hcount
    exact hnil (List.eq_nil_of_length_eq_zero hcount)
  have hhash : ∀ a b, (hashPair sha256 a b).length = 64 := fun a b => hlength (a ++ b)
  have hleft := forall_hashed (P := fun node : String => node.length = 64) hhash hA
  have hright := forall_hashed (P := fun node : String => node.length = 64) hhash hB
  rw [buildTree_of_ne_nil hnil, buildTree_of_ne_nil hnil'] at hroot
  simp only [builtTexts, if_neg hnil, if_neg hnil'] at commits
  refine leaves_eq_of_top?_eq (hashPair sha256) hcount (fun p hp q hq heq => ?_) ?_
  · exact children_eq_of_text_eq (.inl (hleft p hp).1) (hright q hq)
      (commits _ (List.mem_map.mpr ⟨p, hp, rfl⟩) _ (List.mem_map.mpr ⟨q, hq, rfl⟩) heq)
  · rw [top?_eq_some_root hnil, top?_eq_some_root hnil']
    exact congrArg some hroot

/-- The root does not tell an odd last operation from one given twice. -/
theorem buildTree_repeat_last {ops : List String} (hmany : 1 < ops.length) (hodd : ops.length % 2 = 1) {last : String}
    (hlast : ops.getLast? = some last) (merkle other : MerkleTree) :
    (merkle.buildTree sha256 (ops ++ [last])).1 = (other.buildTree sha256 ops).1 := by
  have hops : ops ≠ [] := List.ne_nil_of_length_pos (by omega)
  have hmore : ops ++ [last] ≠ [] := List.append_ne_nil_of_left_ne_nil hops _
  have htop := top?_levels_repeat_last (hashPair sha256) hmany hodd last hlast
  rw [top?_eq_some_root hops, top?_eq_some_root hmore] at htop
  rw [buildTree_of_ne_nil hops, buildTree_of_ne_nil hmore]
  exact Option.some.inj htop

/-- The hash of a checkpoint commits to its operations, though the root alone does not. -/
theorem checkpoint_hash_commits {A B : List String} {epochA epochB timeA timeB : Int}
    {stateA stateB : List (String × Json)} (hlength : ∀ text, (sha256 text).length = 64)
    (hA : ∀ op ∈ A, op.length = 64) (hB : ∀ op ∈ B, op.length = 64)
    (hstateA : Json.wellFormedFields stateA = true) (hstateB : Json.wellFormedFields stateB = true)
    (commits : ∀ t ∈ hashedTexts sha256 A (createCheckpoint sha256 epochA stateA A timeA),
      ∀ u ∈ hashedTexts sha256 B (createCheckpoint sha256 epochB stateB B timeB), sha256 t = sha256 u → t = u) :
    ((createCheckpoint sha256 epochA stateA A timeA).computeHash sha256 =
      (createCheckpoint sha256 epochB stateB B timeB).computeHash sha256 → A = B) ∧
    ∀ (merkle other : MerkleTree) (x y z : String),
      (merkle.buildTree sha256 [x, y, z]).1 = (other.buildTree sha256 [x, y, z, z]).1 := by
  refine ⟨fun hhash => ?_, fun merkle other x y z => ?_⟩
  case refine_2 => exact (@buildTree_repeat_last sha256 [x, y, z] (by simp) (by simp) z rfl other merkle).symm
  have htext := commits _ List.mem_cons_self _ List.mem_cons_self hhash
  obtain ⟨hroot, hcount⟩ := root_and_count_of_canonicalJson_eq (wellFormed_canonical epochA A timeA hstateA)
    (wellFormed_canonical epochB B timeB hstateB) htext
  simp only [createCheckpoint, Json.sorted, Json.str.injEq, Json.int.injEq, Int.natCast_inj] at hroot hcount
  exact opHashes_eq_of_root_eq hlength hA hB hcount
    (fun t ht u hu => commits t (List.mem_cons_of_mem _ ht) u (List.mem_cons_of_mem _ hu)) hroot

def leftCheckpoint : Checkpoint := ⟨.int 1, .str leftLeaf, .obj [], .int 5, .int 1, .obj []⟩

def rightCheckpoint : Checkpoint := ⟨.int 1, .str rightLeaf, .obj [], .int 5, .int 1, .obj []⟩

/-- The digests of the texts of two checkpoints of one operation each. -/
def tableSha256 (text : String) : String :=
  if text = leftCheckpoint.canonicalJson then "00cfb034c44bc70e785bdfd652b1d3ee0e3b9bed51b41e94e4c218d813bf3a53"
  else if text = rightCheckpoint.canonicalJson then "6a8a73e7e4093775b1f68f1c361a1f608586e3dc3cc9e96cc1d8c5999d255b27"
  else "e3b0c44298fc1c149afbf4c8996fb92427ae41e4649b934ca495991b7852b855"

theorem checkpoint_hash_commits_one :
    ((createCheckpoint tableSha256 1 [] [leftLeaf] 5).computeHash tableSha256 =
      (createCheckpoint tableSha256 1 [] [rightLeaf] 5).computeHash tableSha256 → [leftLeaf] = [rightLeaf]) ∧
    (MerkleTree.new.buildTree tableSha256 ["1", "2", "3"]).1 = (MerkleTree.new.buildTree tableSha256 ["1", "2", "3", "3"]).1 := by
  have hlength : ∀ text, (tableSha256 text).length = 64 := by
    intro text
    unfold tableSha256
    split_ifs <;> rfl
  have htold : ∀ t ∈ [leftCheckpoint.canonicalJson], ∀ u ∈ [rightCheckpoint.canonicalJson],
      tableSha256 t = tableSha256 u → t = u := by
    intro t ht u hu heq
    rw [List.mem_singleton] at ht hu
    subst ht hu
    by_contra hne
    rw [tableSha256, if_pos rfl, tableSha256, if_neg (Ne.symm hne), if_pos rfl] at heq
    exact absurd heq (by decide)
  have hcommits := @checkpoint_hash_commits tableSha256 [leftLeaf] [rightLeaf] 1 1 5 5 [] [] hlength (by decide)
    (by decide) rfl rfl htold
  exact ⟨hcommits.1, hcommits.2 .new .new "1" "2" "3"⟩

end AgentNetwork.Checkpoints
