import AgentNetwork.Checkpoint.Merkle
import AgentNetwork.Library.JsonWriter

/-! Merkle proofs that an envelope is in a thread, and that they stand on the same
trees as those of checkpoints. -/

namespace AgentNetwork.Cas

open MerkleLevels

/-- What `build_proof` gives: the path tells on which side the target is. -/
structure InclusionProof where
  targetIndex : Int
  targetHash : String
  root : Option String
  siblings : List String
  path : List String
  treeSize : Int
  deriving DecidableEq

variable (sha256 : String → String)

def hashData (data : String) : String := sha256 data

def hashEnvelope (envelope : List (String × Json)) : String :=
  hashData sha256 ((Json.obj envelope).write Json.sortedStyle)

def hashNodes (left right : String) : String := hashData sha256 (left ++ right)

def buildTree (leaves : List String) : List (List String) :=
  if leaves = [] then [[]] else levels (hashNodes sha256) leaves

def getRoot (tree : List (List String)) : Option String := top? tree

def proofPath : List (List String) → Int → Option (List String × List String)
  | levelNodes :: above :: rest, index => do
    let isLeft : Bool := index % 2 = 0
    let siblingIndex := if isLeft then index + 1 else index - 1
    let sibling ← (if siblingIndex < levelNodes.length then index? levelNodes siblingIndex else index? levelNodes index :)
    let (siblings, path) ← proofPath (above :: rest) (index / 2)
    some (sibling :: siblings, (if isLeft then "left" else "right") :: path)
  | _, _ => some ([], [])

def buildProof (threadEnvelopes : List (List (String × Json))) (targetIndex : Int) :
    Except Python.IndexError InclusionProof :=
  if targetIndex < 0 ∨ targetIndex ≥ threadEnvelopes.length then
    .error ⟨"Invalid target index: " ++ toString targetIndex⟩
  else
    let leaves := threadEnvelopes.map (hashEnvelope sha256)
    let tree := buildTree sha256 leaves
    match proofPath tree targetIndex, index? leaves targetIndex with
    | some (siblings, path), some targetHash =>
      .ok ⟨targetIndex, targetHash, getRoot tree, siblings, path, leaves.length⟩
    | _, _ => .error ⟨"list index out of range"⟩

def verifyProof (rootCid : String) (envelope : List (String × Json)) (proof : InclusionProof) : Bool :=
  let envelopeHash := hashEnvelope sha256 envelope
  if envelopeHash ≠ proof.targetHash then false
  else
    let currentHash := (proof.siblings.zip proof.path).foldl (fun currentHash (sibling, direction) =>
      if direction = "left" then hashNodes sha256 currentHash sibling else hashNodes sha256 sibling currentHash) envelopeHash
    decide (currentHash = rootCid)

def computeRootFromEnvelopes (envelopes : List (List (String × Json))) : String :=
  (getRoot (buildTree sha256 (envelopes.map (hashEnvelope sha256)))).getD ""

variable {sha256}

def direction (isRight : Bool) : String := if isRight then "left" else "right"

/-- The climb with its flags told apart into siblings and directions. -/
theorem proofPath_eq_climb (tree : List (List String)) (index : Int) :
    proofPath tree index = (climb tree index).map fun siblings =>
      (siblings.map Prod.fst, siblings.map fun sibling => direction sibling.2) := by
  fun_induction climb tree index with
  | case1 levelNodes above rest index ih =>
    rw [proofPath, ih]
    by_cases heven : index % 2 = 0
    · simp only [sibling?, heven, decide_true, if_true]
      cases (if index + 1 < levelNodes.length then index? levelNodes (index + 1) else index? levelNodes index) with
      | none => rfl
      | some sibling => cases climb (above :: rest) (index / 2) <;> rfl
    · simp only [sibling?, heven, decide_false, Bool.false_eq_true, if_false]
      cases (if index - 1 < levelNodes.length then index? levelNodes (index - 1) else index? levelNodes index) with
      | none => rfl
      | some sibling => cases climb (above :: rest) (index / 2) <;> rfl
  | case2 tree index hone =>
    cases tree with
    | nil => rfl
    | cons level above =>
      cases above with
      | nil => rfl
      | cons next rest => exact absurd rfl (hone _ _ _)

theorem fold_path_eq_walk (envelopeHash : String) (siblings : List (String × Bool)) :
    ((siblings.map Prod.fst).zip (siblings.map fun sibling => direction sibling.2)).foldl
      (fun currentHash (sibling, direction) =>
        if direction = "left" then hashNodes sha256 currentHash sibling else hashNodes sha256 sibling currentHash)
      envelopeHash = walk (hashNodes sha256) envelopeHash siblings := by
  induction siblings generalizing envelopeHash with
  | nil => rfl
  | cons sibling siblings ih =>
    obtain ⟨sibling, isRight⟩ := sibling
    simp only [List.map_cons, List.zip_cons_cons, List.foldl_cons, ih, walk]
    cases isRight <;> rfl

theorem hashNodes_eq : hashNodes sha256 = Checkpoint.MerkleTree.hashPair sha256 := rfl

theorem getRoot_buildTree {leaves : List String} (h : leaves ≠ []) :
    getRoot (buildTree sha256 leaves) = some (root (hashNodes sha256) leaves h) := by
  rw [getRoot, buildTree, if_neg h]
  exact top?_eq_some_root h

theorem buildProof_verifies {envelopes : List (List (String × Json))} {i : Nat} (h : i < envelopes.length) :
    ∃ proof, buildProof sha256 envelopes i = .ok proof ∧
      proof.root = some (computeRootFromEnvelopes sha256 envelopes) ∧
      verifyProof sha256 (computeRootFromEnvelopes sha256 envelopes) envelopes[i] proof = true := by
  let leaves := envelopes.map (hashEnvelope sha256)
  have hlt : i < leaves.length := by
    rw [List.length_map]
    exact h
  have hne : leaves ≠ [] := List.ne_nil_of_length_pos (by omega)
  have hroot : getRoot (buildTree sha256 leaves) = some (root (hashNodes sha256) leaves hne) := getRoot_buildTree hne
  obtain ⟨siblings, hclimb, hpath⟩ := climb_isPath (hashNodes sha256) hlt
  have htop := hpath.walk_eq (getLast?_levels _ hne)
  rw [top?_eq_some_root hne] at htop
  have hcompute : computeRootFromEnvelopes sha256 envelopes = root (hashNodes sha256) leaves hne := by
    rw [computeRootFromEnvelopes, hroot]
    rfl
  have htree : buildTree sha256 leaves = levels (hashNodes sha256) leaves := if_neg hne
  have hproof : proofPath (buildTree sha256 leaves) i = some (siblings.map Prod.fst, siblings.map fun s => direction s.2) := by
    rw [htree, proofPath_eq_climb, hclimb]
    rfl
  refine ⟨⟨i, leaves[i], getRoot (buildTree sha256 leaves), siblings.map Prod.fst,
    siblings.map fun s => direction s.2, leaves.length⟩, ?_, ?_, ?_⟩
  · have hguard : ¬((i : Int) < 0 ∨ (i : Int) ≥ envelopes.length) := by omega
    unfold buildProof
    rw [if_neg hguard]
    simp only [leaves] at hproof hlt
    simp only [hproof, index?_natCast, List.getElem?_eq_getElem hlt]
    rfl
  · rw [hcompute, hroot]
  · have hhash : hashEnvelope sha256 envelopes[i] = leaves[i] := (List.getElem_map _).symm
    unfold verifyProof
    simp only [hhash, ne_eq, not_true_eq_false, if_false, fold_path_eq_walk, decide_eq_true_eq]
    rw [hcompute]
    exact (Option.some.inj htop).symm

/-- Proofs are complete on both sides, and both compute the same root. -/
theorem proofs_complete (sha256 : String → String) :
    (∀ (merkle : Checkpoint.MerkleTree) (leaves : List String) (i : Fin leaves.length), ∃ proof,
      (merkle.buildTree sha256 leaves).2.getProof i = .ok (some proof) ∧
      Checkpoint.MerkleTree.verifyProof sha256 leaves[i] proof (merkle.buildTree sha256 leaves).1 = true) ∧
    (∀ (envelopes : List (List (String × Json))) (i : Fin envelopes.length), ∃ proof,
      buildProof sha256 envelopes i = .ok proof ∧
      proof.root = some (computeRootFromEnvelopes sha256 envelopes) ∧
      verifyProof sha256 (computeRootFromEnvelopes sha256 envelopes) envelopes[i] proof = true) ∧
    ∀ (merkle : Checkpoint.MerkleTree) (leaf : String) (rest : List String),
      getRoot (buildTree sha256 (leaf :: rest)) = some (merkle.buildTree sha256 (leaf :: rest)).1 := by
  refine ⟨fun merkle leaves i => ?_, fun envelopes i => buildProof_verifies i.isLt, fun merkle leaf rest => ?_⟩
  · exact Checkpoint.MerkleTree.getProof_buildTree i.isLt merkle
  · have hne : leaf :: rest ≠ [] := List.cons_ne_nil _ _
    rw [getRoot_buildTree hne, Checkpoint.MerkleTree.buildTree_of_ne_nil hne, hashNodes_eq]

end AgentNetwork.Cas
