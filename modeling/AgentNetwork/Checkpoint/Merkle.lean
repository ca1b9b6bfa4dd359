import AgentNetwork.Library.MerkleLevels
import AgentNetwork.Library.Awaiting

/-! The Merkle tree of a checkpoint. The hash is the hexadecimal text of the SHA-256
digest of a text. -/

namespace AgentNetwork.Checkpoint

open MerkleLevels

/-- A proof that a leaf is in a tree. A sibling comes with whether it is the right one. -/
structure MerkleProof where
  leafIndex : Int
  leafHash : String
  siblings : List (String × Bool)
  rootHash : Option String
  deriving DecidableEq

structure MerkleTree where
  leaves : List String
  tree : List (List String)
  rootHash : Option String
  deriving DecidableEq

namespace MerkleTree

def new : MerkleTree := ⟨[], [], none⟩

variable (sha256 : String → String)

def hash (data : String) : String := sha256 data

def hashPair (left right : String) : String := sha256 (left ++ right)

/-- The root, and the tree after the call. For no leaves the tree of the call before stays. -/
def buildTree (merkle : MerkleTree) (leaves : List String) : String × MerkleTree :=
  if h : leaves = [] then
    let rootHash := hash sha256 ""
    (rootHash, { merkle with rootHash := some rootHash })
  else
    let rootHash := root (hashPair sha256) leaves h
    (rootHash, ⟨leaves, levels (hashPair sha256) leaves, some rootHash⟩)

def getProof (merkle : MerkleTree) (leafIndex : Int) : Except Python.IndexError (Option MerkleProof) :=
  if merkle.tree = [] ∨ leafIndex ≥ merkle.leaves.length then .ok none
  else
    match climb merkle.tree leafIndex, index? merkle.leaves leafIndex with
    | some siblings, some leafHash => .ok (some ⟨leafIndex, leafHash, siblings, merkle.rootHash⟩)
    | _, _ => .error ⟨"list index out of range"⟩

def verifyProof (leafHash : String) (proof : MerkleProof) (rootHash : String) : Bool :=
  if leafHash ≠ proof.leafHash then false
  else decide (walk (hashPair sha256) leafHash proof.siblings = rootHash)

def getRoot (merkle : MerkleTree) : Option String := merkle.rootHash

variable {sha256}

theorem verifyProof_eq_true_iff {leafHash rootHash : String} {proof : MerkleProof} :
    verifyProof sha256 leafHash proof rootHash = true ↔
      leafHash = proof.leafHash ∧ walk (hashPair sha256) leafHash proof.siblings = rootHash := by
  unfold verifyProof
  split
  next h => simp [h]
  next h => simp [Decidable.not_not.mp h]

theorem buildTree_of_ne_nil {leaves : List String} (h : leaves ≠ []) (merkle : MerkleTree) :
    merkle.buildTree sha256 leaves = (root (hashPair sha256) leaves h,
      ⟨leaves, levels (hashPair sha256) leaves, some (root (hashPair sha256) leaves h)⟩) := by
  rw [buildTree, dif_neg h]

/-- The proof of a leaf of the last tree built, which verifies. -/
theorem getProof_buildTree {leaves : List String} {i : Nat} (h : i < leaves.length) (merkle : MerkleTree) :
    ∃ proof, (merkle.buildTree sha256 leaves).2.getProof i = .ok (some proof) ∧
      verifyProof sha256 leaves[i] proof (merkle.buildTree sha256 leaves).1 = true := by
  have hne : leaves ≠ [] := List.ne_nil_of_length_pos (by omega)
  obtain ⟨siblings, hclimb, hpath⟩ := climb_isPath (hashPair sha256) h
  have htop := hpath.walk_eq (getLast?_levels _ hne)
  rw [top?_eq_some_root hne] at htop
  have htree : levels (hashPair sha256) leaves ≠ [] := hpath.ne_nil
  rw [buildTree_of_ne_nil hne]
  refine ⟨⟨i, leaves[i], siblings, some (root (hashPair sha256) leaves hne)⟩, ?_, ?_⟩
  · have hguard : ¬(levels (hashPair sha256) leaves = [] ∨ (i : Int) ≥ leaves.length) := by
      rw [not_or]
      exact ⟨htree, by omega⟩
    unfold getProof
    rw [if_neg hguard]
    simp only [hclimb, index?_natCast, List.getElem?_eq_getElem h]
  · exact verifyProof_eq_true_iff.mpr ⟨rfl, (Option.some.inj htop).symm⟩

theorem getProof_of_length_le {merkle : MerkleTree} {i : Int} (h : merkle.leaves.length ≤ i) :
    merkle.getProof i = .ok none := if_pos (.inr h)

end MerkleTree

end AgentNetwork.Checkpoint

/-! What a verified proof shows: the value is a node of the tree under the root, and
the siblings are its way up. -/

namespace AgentNetwork.Checkpoint.MerkleTree

open MerkleLevels

/-- The nodes side by side, as they are hashed. -/
def pairTexts (pairs : List (String × String)) : List String := pairs.map fun children => children.1 ++ children.2

theorem append_inj_of_length {a b c d : String} (h : a ++ b = c ++ d) (hlen : a.length = c.length) : a = c ∧ b = d := by
  have hlist := congrArg String.toList h
  rw [String.toList_append, String.toList_append] at hlist
  obtain ⟨hac, hbd⟩ := List.append_inj hlist (by rw [String.length_toList, String.length_toList, hlen])
  exact ⟨String.toList_inj.mp hac, String.toList_inj.mp hbd⟩

variable (sha256 : String → String)

/-- The nodes at the bottom of the tree under a root: the leaves, or the special root alone. -/
def committedLeaves (leaves : List String) : List String := if leaves = [] then [hash sha256 ""] else leaves

def committedLevels (leaves : List String) : List (List String) := levels (hashPair sha256) (committedLeaves sha256 leaves)

/-- The texts hashed for a root. -/
def builtTexts (leaves : List String) : List String :=
  if leaves = [] then [""] else pairTexts (hashed (levels (hashPair sha256) leaves))

/-- The texts hashed to check a proof. -/
def checkedTexts (leafHash : String) (proof : MerkleProof) : List String :=
  pairTexts (walked (hashPair sha256) leafHash proof.siblings)

/-- The hash is 64 characters long, it tells the texts of the check from those of the
tree, and it gives none of the leaves. -/
structure Binds (leaves : List String) (leafHash : String) (proof : MerkleProof) : Prop where
  length : ∀ text, (sha256 text).length = 64
  injective : ∀ t ∈ checkedTexts sha256 leafHash proof, ∀ u ∈ builtTexts sha256 leaves, sha256 t = sha256 u → t = u
  notLeaf : ∀ t ∈ checkedTexts sha256 leafHash proof, sha256 t ∉ leaves

variable {sha256}

theorem committedLeaves_ne_nil (leaves : List String) : committedLeaves sha256 leaves ≠ [] := by
  unfold committedLeaves
  split
  next => exact List.cons_ne_nil _ _
  next h => exact h

theorem buildTree_root (merkle : MerkleTree) (leaves : List String) :
    (merkle.buildTree sha256 leaves).1 = root (hashPair sha256) (committedLeaves sha256 leaves) (committedLeaves_ne_nil leaves) := by
  by_cases h : leaves = []
  · subst h
    rfl
  · rw [buildTree_of_ne_nil h]
    simp only [committedLeaves, if_neg h]

theorem length_committedLeaves (hlength : ∀ text, (sha256 text).length = 64) {leaves : List String}
    (hleaves : ∀ leaf ∈ leaves, leaf.length = 64) : ∀ leaf ∈ committedLeaves sha256 leaves, leaf.length = 64 := by
  unfold committedLeaves
  split
  next => exact List.forall_mem_singleton.mpr (hlength "")
  next => exact hleaves

/-- Two nodes of 64 characters are told from the text that joins them. -/
theorem children_eq_of_text_eq {p q : String × String} (hp : p.1.length = 64 ∨ p.2.length = 64)
    (hq : q.1.length = 64 ∧ q.2.length = 64) (h : p.1 ++ p.2 = q.1 ++ q.2) : p = q := by
  have hlen := congrArg String.length h
  rw [String.length_append, String.length_append] at hlen
  obtain ⟨hleft, hright⟩ := append_inj_of_length h (by omega)
  exact Prod.ext hleft hright

theorem verifyProof_iff_isPath {leaves : List String} {leafHash : String} {proof : MerkleProof}
    (hleaves : ∀ leaf ∈ leaves, leaf.length = 64) (hleaf : leafHash.length = 64)
    (binds : Binds sha256 leaves leafHash proof) (merkle : MerkleTree) :
    verifyProof sha256 leafHash proof (merkle.buildTree sha256 leaves).1 = true ↔
      leafHash = proof.leafHash ∧
        ∃ k i, IsPath (hashPair sha256) ((committedLevels sha256 leaves).drop k) i leafHash proof.siblings := by
  have hhash : ∀ a b, (hashPair sha256 a b).length = 64 := fun a b => binds.length (a ++ b)
  have hchecked := forall_walked (P := fun node : String => node.length = 64) hhash hleaf proof.siblings
  have hbuilt := forall_hashed (P := fun node : String => node.length = 64) hhash (length_committedLeaves binds.length hleaves)
  have hmem : ∀ p ∈ walked (hashPair sha256) leafHash proof.siblings,
      p.1 ++ p.2 ∈ checkedTexts sha256 leafHash proof := fun p hp => List.mem_map.mpr ⟨p, hp, rfl⟩
  rw [verifyProof_eq_true_iff, buildTree_root, committedLevels,
    ← walk_eq_root_iff (committedLeaves_ne_nil leaves), top?_eq_some_root (committedLeaves_ne_nil leaves)]
  · rw [Option.some.injEq, @eq_comm _ (walk _ _ _)]
  · intro p hp q hq heq
    refine children_eq_of_text_eq (hchecked p hp) (hbuilt q hq) (binds.injective _ (hmem p hp) _ ?_ heq)
    by_cases h : leaves = []
    · subst h
      rw [committedLeaves, if_pos rfl, levels_of_le_one (Nat.le_refl _)] at hq
      exact absurd hq List.not_mem_nil
    · rw [committedLeaves, if_neg h] at hq
      rw [builtTexts, if_neg h]
      exact List.mem_map.mpr ⟨q, hq, rfl⟩
  · intro p hp hcommitted
    by_cases h : leaves = []
    · subst h
      have htext := binds.injective _ (hmem p hp) "" List.mem_cons_self (List.mem_singleton.mp hcommitted)
      have hlen := congrArg String.length htext
      rw [String.length_append] at hlen
      have := hchecked p hp
      have : "".length = 0 := rfl
      omega
    · rw [committedLeaves, if_neg h] at hcommitted
      exact binds.notLeaf _ (hmem p hp) hcommitted

/-- A verified proof shows a node of the tree and its way up, a leaf where it has a sibling
for every level. Proofs made from a tree are those of its leaves and verify. -/
theorem verified_proofs_are_paths {leaves : List String} {leafHash : String} {proof : MerkleProof}
    (hleaves : ∀ leaf ∈ leaves, leaf.length = 64) (hleaf : leafHash.length = 64)
    (binds : Binds sha256 leaves leafHash proof) (merkle : MerkleTree) :
    (verifyProof sha256 leafHash proof (merkle.buildTree sha256 leaves).1 = true ↔
      leafHash = proof.leafHash ∧
        ∃ k i, IsPath (hashPair sha256) ((committedLevels sha256 leaves).drop k) i leafHash proof.siblings) ∧
    (leaves ≠ [] → verifyProof sha256 leafHash proof (merkle.buildTree sha256 leaves).1 = true →
      proof.siblings.length + 1 = (committedLevels sha256 leaves).length → leafHash ∈ leaves) ∧
    (leaves ≠ [] → ∀ i : Int, leaves.length ≤ i → (merkle.buildTree sha256 leaves).2.getProof i = .ok none) ∧
    ∀ i : Fin leaves.length, ∃ made, (merkle.buildTree sha256 leaves).2.getProof i = .ok (some made) ∧
      verifyProof sha256 leaves[i] made (merkle.buildTree sha256 leaves).1 = true := by
  have hpaths := verifyProof_iff_isPath hleaves hleaf binds merkle
  refine ⟨hpaths, fun hne hverify hlen => ?_, fun hne i hi => ?_, fun i => getProof_buildTree i.isLt merkle⟩
  · obtain ⟨-, k, i, hpath⟩ := hpaths.mp hverify
    have hmem := List.mem_of_getElem? (hpath.leaf hlen)
    rwa [committedLeaves, if_neg hne] at hmem
  · rw [buildTree_of_ne_nil hne]
    exact getProof_of_length_le hi

def leftLeaf : String := "ca978112ca1bbdcafac231b39a23dc4da786eff8147c4e72b9807785afee48bb"
def rightLeaf : String := "3e23e8160039594a33894f6564e1b1348bbd7a0088d42c4acb73eeaed59c009d"
def pairHash : String := "62af5c3cb8da3e4f25061e829ebeea5c7513c54949115b1acc225930a90154da"

def sampleSha256 (text : String) : String :=
  if text = leftLeaf ++ rightLeaf then pairHash else "e3b0c44298fc1c149afbf4c8996fb92427ae41e4649b934ca495991b7852b855"

def leftProof : MerkleProof := ⟨0, leftLeaf, [(rightLeaf, true)], some pairHash⟩

theorem sample_binds : Binds sampleSha256 [leftLeaf, rightLeaf] leftLeaf leftProof where
  length text := by
    unfold sampleSha256
    split <;> rfl
  injective := by
    intro t ht u hu _
    have hleft : t = leftLeaf ++ rightLeaf := List.mem_singleton.mp ht
    have hright : u = leftLeaf ++ rightLeaf := List.mem_singleton.mp hu
    rw [hleft, hright]
  notLeaf := by
    intro t ht
    obtain rfl : t = leftLeaf ++ rightLeaf := List.mem_singleton.mp ht
    rw [sampleSha256, if_pos rfl]
    decide

theorem verified_proofs_are_paths_pair :
    verifyProof sampleSha256 leftLeaf leftProof (new.buildTree sampleSha256 [leftLeaf, rightLeaf]).1 = true ↔
      leftLeaf = leftProof.leafHash ∧ ∃ k i, IsPath (hashPair sampleSha256)
        ((committedLevels sampleSha256 [leftLeaf, rightLeaf]).drop k) i leftLeaf leftProof.siblings :=
  (verified_proofs_are_paths (by decide) rfl sample_binds new).1

def marked (text : String) : String := "#" ++ text

theorem marked_injective : Function.Injective marked := by
  intro a b h
  exact (append_inj_of_length h rfl).2

theorem head_marked (text : String) : (marked text).toList.head? = some '#' := by
  rw [marked, String.toList_append]
  rfl

def indexBeyond : MerkleProof := ⟨7, "bc", [("a", false)], none⟩
def innerNode : MerkleProof := ⟨0, "#abc", [], none⟩
def cutElsewhere : MerkleProof := ⟨0, "ab", [("c", true)], none⟩

/-- With no two texts of one hash: an index beyond the leaves, an inner node and a text cut
elsewhere verify, a negative index raises, and a tree built on nothing keeps its old proofs. -/
theorem proofs_beyond_leaves :
    Function.Injective marked ∧ (∀ text, marked text ∉ ["a", "bc"]) ∧
    (verifyProof marked "bc" indexBeyond (new.buildTree marked ["a", "bc"]).1 = true ∧
      ¬indexBeyond.leafIndex < ["a", "bc"].length) ∧
    (verifyProof marked "#abc" innerNode (new.buildTree marked ["a", "bc"]).1 = true ∧ "#abc" ∉ ["a", "bc"]) ∧
    (verifyProof marked "ab" cutElsewhere (new.buildTree marked ["a", "bc"]).1 = true ∧ "ab" ∉ ["a", "bc"]) ∧
    (new.buildTree marked ["a", "bc"]).2.getProof (-3) = .error ⟨"list index out of range"⟩ ∧
    ∃ kept, ((new.buildTree marked ["a"]).2.buildTree marked []).2.getProof 0 = .ok (some kept) ∧
      verifyProof marked "a" kept ((new.buildTree marked ["a"]).2.buildTree marked []).1 = false := by
  refine ⟨marked_injective, ?_, by decide, by decide, by decide, by decide, _, rfl, by decide⟩
  intro text htext
  have hhead : ∀ leaf ∈ ["a", "bc"], leaf.toList.head? ≠ some '#' := by decide
  exact hhead _ htext (head_marked text)

end AgentNetwork.Checkpoint.MerkleTree
