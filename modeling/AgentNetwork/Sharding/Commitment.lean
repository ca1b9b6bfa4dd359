import AgentNetwork.Library.ListSet
import AgentNetwork.Library.PythonInt
import AgentNetwork.Library.StableSort
import AgentNetwork.Library.Table
import Mathlib.Data.String.Basic

namespace AgentNetwork.Sharding

open Relational StableSort

/-- A commitment as it is published; its hash has been given or calculated. -/
structure CommitmentArtifact where
  shardId : Int
  needId : String
  artifactHash : String
  timestampNs : Int
  commitmentHash : String
  dependencies : List String
  deriving DecidableEq

namespace CommitmentArtifact

def sortedDependencies (c : CommitmentArtifact) : List String := sortOn id c.dependencies

/-- The text that `_calculate_hash` hashes. -/
def content (c : CommitmentArtifact) : String :=
  let dependencies := ",".intercalate c.sortedDependencies
  s!"{c.shardId}|{c.needId}|{c.artifactHash}|{c.timestampNs}|{dependencies}"

def calculateHash (sha256Hex : String → String) (c : CommitmentArtifact) : String := sha256Hex c.content

/-- `__post_init__`. -/
def postInit (sha256Hex : String → String) (c : CommitmentArtifact) : CommitmentArtifact :=
  if c.commitmentHash = "" then { c with commitmentHash := c.calculateHash sha256Hex } else c

/-- `verify_commitment`; a dependency that is not known is only logged. -/
def verifyCommitment (sha256Hex : String → String) (c : CommitmentArtifact) : Bool :=
  c.commitmentHash = c.calculateHash sha256Hex

/-- The same commitment, but for the order of its dependencies. -/
structure Same (a b : CommitmentArtifact) : Prop where
  shardId : a.shardId = b.shardId
  needId : a.needId = b.needId
  artifactHash : a.artifactHash = b.artifactHash
  timestampNs : a.timestampNs = b.timestampNs
  dependencies : a.dependencies.Perm b.dependencies

end CommitmentArtifact

structure CommitmentProtocol where
  commitments : Table (Int × String) CommitmentArtifact
  commitmentByHash : Table String CommitmentArtifact
  finalized : ListSet String
  pending : Table String (ListSet String)
  deriving DecidableEq

/-- The KeyError of a cascade. `tooDeep` is not an exception of the code: it marks
a recursion that the bound of the model would cut off. -/
inductive CascadeError
  | keyError (commitmentHash : String)
  | tooDeep
  deriving DecidableEq

namespace CommitmentProtocol

def init : CommitmentProtocol := ⟨.empty, .empty, .empty, .empty⟩

/-- The check that all dependencies of a commitment are finalized. -/
def allFinalized (commitment : CommitmentArtifact) (p : CommitmentProtocol) : Bool :=
  commitment.dependencies.all fun depHash => depHash ∈ p.finalized

/-- `finalize_commitment`, which ends in a cascade. -/
def finalizeCommitment (cascade : String → CommitmentProtocol → Except CascadeError Unit × CommitmentProtocol)
    (commitmentHash : String) (p : CommitmentProtocol) : Except CascadeError Bool × CommitmentProtocol :=
  if commitmentHash ∈ p.finalized then (.ok false, p)
  else
    match p.commitmentByHash.get? commitmentHash with
    | none => (.ok false, p)
    | some commitment =>
      if allFinalized commitment p then
        let p := { p with finalized := p.finalized.add commitmentHash, pending := p.pending.erase commitmentHash }
        match cascade commitmentHash p with
        | (.ok (), p) => (.ok true, p)
        | (.error e, p) => (.error e, p)
      else (.ok false, p)

/-- `_try_finalize`. -/
def tryFinalize (cascade : String → CommitmentProtocol → Except CascadeError Unit × CommitmentProtocol)
    (commitmentHash : String) (p : CommitmentProtocol) : Except CascadeError Unit × CommitmentProtocol :=
  if commitmentHash ∈ p.finalized then (.ok (), p)
  else
    match p.commitmentByHash.get? commitmentHash with
    | none => (.ok (), p)
    | some commitment =>
      if allFinalized commitment p then
        match finalizeCommitment cascade commitmentHash p with
        | (.ok _, p) => (.ok (), p)
        | (.error e, p) => (.error e, p)
      else (.ok (), p)

/-- The commitments that wait on this one, in the order in which they became pending. -/
def waiting (finalizedHash : String) (p : CommitmentProtocol) : List String :=
  (p.pending.entries.filter fun entry => finalizedHash ∈ entry.2).map Prod.fst

/-- The loop of `_cascade_finalize`. -/
def visitWaiting (cascade : String → CommitmentProtocol → Except CascadeError Unit × CommitmentProtocol)
    (finalizedHash : String) : List String → CommitmentProtocol → Except CascadeError Unit × CommitmentProtocol
  | [], p => (.ok (), p)
  | commHash :: rest, p =>
    match p.pending.get? commHash with
    | none => (.error (.keyError commHash), p)
    | some deps =>
      let p := { p with pending := p.pending.set commHash (deps.filter fun d => d ≠ finalizedHash) }
      match tryFinalize cascade commHash p with
      | (.ok (), p) => visitWaiting cascade finalizedHash rest p
      | (.error e, p) => (.error e, p)

/-- `_cascade_finalize`, recursing at most `depth` deep. -/
def cascadeFinalize : Nat → String → CommitmentProtocol → Except CascadeError Unit × CommitmentProtocol
  | 0, _, p => (.error .tooDeep, p)
  | depth + 1, finalizedHash, p => visitWaiting (cascadeFinalize depth) finalizedHash (waiting finalizedHash p) p

/-- The dependencies that a new commitment has to wait for. -/
def pendingDeps (commitment : CommitmentArtifact) (p : CommitmentProtocol) : ListSet String :=
  commitment.dependencies.foldl (fun deps depHash => if depHash ∈ p.finalized then deps else deps.add depHash) .empty

/-- The registration of a commitment whose key is new. -/
def register (commitment : CommitmentArtifact) (p : CommitmentProtocol) : CommitmentProtocol :=
  let deps := pendingDeps commitment p
  { p with
    commitments := p.commitments.upsert (commitment.shardId, commitment.needId) commitment
    commitmentByHash := p.commitmentByHash.upsert commitment.commitmentHash commitment
    pending := if deps.elems = [] then p.pending else p.pending.upsert commitment.commitmentHash deps }

/-- `publish_commitment`. Each level of a cascade takes one commitment out of
`pending`, which bounds the recursion. -/
def publishCommitment (commitment : CommitmentArtifact) (p : CommitmentProtocol) :
    Except CascadeError Bool × CommitmentProtocol :=
  if p.commitments.contains (commitment.shardId, commitment.needId) then (.ok false, p)
  else
    let p := register commitment p
    match tryFinalize (cascadeFinalize (p.pending.entries.length + 1)) commitment.commitmentHash p with
    | (.ok (), p) => (.ok true, p)
    | (.error e, p) => (.error e, p)

end CommitmentProtocol

section Joining

variable {α : Type} [DecidableEq α] {sep : α}

/-- Where as many separators come before it, the first one after them is the same. -/
theorem eq_of_append_cons_eq {l m l' m' : List α} (h : l ++ sep :: l' = m ++ sep :: m') (hcount : l.count sep = m.count sep) :
    l = m ∧ l' = m' := by
  induction l generalizing m with
  | nil =>
    cases m with
    | nil => exact ⟨rfl, (List.cons.inj h).2⟩
    | cons a m =>
      obtain ⟨rfl, -⟩ := List.cons.inj h
      simp at hcount
  | cons a l ih =>
    cases m with
    | nil =>
      obtain ⟨rfl, -⟩ := List.cons.inj h
      simp at hcount
    | cons b m =>
      obtain ⟨rfl, hrest⟩ := List.cons.inj h
      have hrest' : l.count sep = m.count sep := by
        rw [List.count_cons, List.count_cons] at hcount
        omega
      obtain ⟨rfl, rfl⟩ := ih hrest hrest'
      exact ⟨rfl, rfl⟩

/-- A joined list is told from others whose parts hold equally many separators. -/
theorem eq_of_intercalate_eq {l m : List (List α)} (h : [sep].intercalate l = [sep].intercalate m)
    (hcounts : l.map (List.count sep) = m.map (List.count sep)) : l = m := by
  induction l generalizing m with
  | nil =>
    cases m with
    | nil => rfl
    | cons b m => simp at hcounts
  | cons a l ih =>
    cases m with
    | nil => simp at hcounts
    | cons b m =>
      obtain ⟨hcount, hcounts'⟩ := List.cons.inj hcounts
      cases l with
      | nil =>
        obtain rfl := List.map_eq_nil_iff.mp hcounts'.symm
        simpa [List.intercalate] using h
      | cons a' l =>
        cases m with
        | nil => simp at hcounts'
        | cons b' m =>
          obtain ⟨rfl, hrest⟩ := @eq_of_append_cons_eq _ _ sep a b ([sep].intercalate (a' :: l)) ([sep].intercalate (b' :: m))
            (by simpa [List.intercalate] using h) hcount
          rw [ih hrest hcounts']

end Joining

namespace CommitmentArtifact

variable {a b : CommitmentArtifact}

/-- The strings of two commitments hold their separators in the same places. -/
structure SeparatedAlike (a b : CommitmentArtifact) : Prop where
  needId : a.needId.toList.count '|' = b.needId.toList.count '|'
  artifactHash : a.artifactHash.toList.count '|' = b.artifactHash.toList.count '|'
  dependencies : a.sortedDependencies.map (fun dep => dep.toList.count ',') =
    b.sortedDependencies.map fun dep => dep.toList.count ','

theorem toList_content (c : CommitmentArtifact) : c.content.toList =
    Json.intText c.shardId ++ '|' :: (c.needId.toList ++ '|' :: (c.artifactHash.toList ++ '|' :: (Json.intText c.timestampNs ++
      '|' :: [','].intercalate (c.sortedDependencies.map String.toList)))) := by
  simp [content, toString, Python.toList_repr]

theorem count_intText (n : Int) : (Json.intText n).count '|' = 0 := by
  rw [List.count_eq_zero]
  intro hmem
  rcases Python.mem_intText hmem with h | h
  · exact absurd h (by decide)
  · exact absurd h (by decide)

theorem sortedDependencies_eq_iff : a.sortedDependencies = b.sortedDependencies ↔ a.dependencies.Perm b.dependencies := by
  constructor
  · intro h
    have hb : a.sortedDependencies.Perm b.dependencies := by
      rw [h]
      exact perm_sortOn id b.dependencies
    exact (perm_sortOn id a.dependencies).symm.trans hb
  · intro h
    have hperm := (perm_sortOn id a.dependencies).trans (h.trans (perm_sortOn id b.dependencies).symm)
    exact hperm.eq_of_pairwise (fun _ _ _ _ hle hge => le_antisymm hle hge) (pairwise_sortOn id _) (pairwise_sortOn id _)

/-- The text determines the commitment where the separators are in the same places. -/
theorem same_of_content_eq (h : a.content = b.content) (halike : SeparatedAlike a b) : Same a b := by
  have htext := congrArg String.toList h
  rw [toList_content, toList_content] at htext
  have hints (m n : Int) : (Json.intText m).count '|' = (Json.intText n).count '|' := by
    rw [count_intText, count_intText]
  obtain ⟨hshard, htext⟩ := eq_of_append_cons_eq htext (hints _ _)
  obtain ⟨hneed, htext⟩ := eq_of_append_cons_eq htext halike.needId
  obtain ⟨hartifact, htext⟩ := eq_of_append_cons_eq htext halike.artifactHash
  obtain ⟨htime, hjoined⟩ := eq_of_append_cons_eq htext (hints _ _)
  have hdependencies : a.sortedDependencies.map String.toList = b.sortedDependencies.map String.toList := by
    refine eq_of_intercalate_eq hjoined ?_
    rw [List.map_map, List.map_map]
    exact halike.dependencies
  refine ⟨Python.intText_injective hshard, String.toList_injective hneed, String.toList_injective hartifact,
    Python.intText_injective htime, sortedDependencies_eq_iff.mp ?_⟩
  exact List.map_injective_iff.mpr (fun _ _ => String.toList_injective) hdependencies

theorem Same.separatedAlike (h : Same a b) : SeparatedAlike a b where
  needId := by rw [h.needId]
  artifactHash := by rw [h.artifactHash]
  dependencies := by rw [sortedDependencies_eq_iff.mpr h.dependencies]

/-- Where the hash does not confuse the two texts, one hash names one commitment exactly if
commitments of the same text have their separators in the same places. -/
theorem hash_names_one_iff {sha256Hex : String → String}
    (commits : sha256Hex a.content = sha256Hex b.content → a.content = b.content) :
    (a.verifyCommitment sha256Hex = true → b.verifyCommitment sha256Hex = true → a.commitmentHash = b.commitmentHash → Same a b) ↔
      (a.verifyCommitment sha256Hex = true → b.verifyCommitment sha256Hex = true → a.content = b.content → SeparatedAlike a b) := by
  have hsame (ha : a.verifyCommitment sha256Hex = true) (hb : b.verifyCommitment sha256Hex = true) :
      a.commitmentHash = b.commitmentHash ↔ a.content = b.content := by
    rw [of_decide_eq_true ha, of_decide_eq_true hb]
    exact ⟨commits, congrArg sha256Hex⟩
  constructor
  · intro h ha hb hcontent
    exact (h ha hb ((hsame ha hb).mpr hcontent)).separatedAlike
  · intro h ha hb hhash
    have hcontent := (hsame ha hb).mp hhash
    exact same_of_content_eq hcontent (h ha hb hcontent)

/-- The digest of a commitment with no dependency, and of the one with the dependency "d". -/
def sampleDigest (text : String) : String :=
  if text = "1|need|artifact|5|" then "a05ed810deb07946654d018c2210751cc7bce99e9e8653735cac2238b81b310e"
  else "b93e69863755e8b3f1bcbcab8f17c7b400b948c0ac5a4e52e62c4cd5c65db33b"

def sampleCommitment (dependencies : List String) : CommitmentArtifact :=
  postInit sampleDigest ⟨1, "need", "artifact", 5, "", dependencies⟩

theorem hash_names_one_iff_sample :
    ((sampleCommitment []).verifyCommitment sampleDigest = true → (sampleCommitment ["d"]).verifyCommitment sampleDigest = true →
        (sampleCommitment []).commitmentHash = (sampleCommitment ["d"]).commitmentHash →
          Same (sampleCommitment []) (sampleCommitment ["d"])) ↔
      ((sampleCommitment []).verifyCommitment sampleDigest = true → (sampleCommitment ["d"]).verifyCommitment sampleDigest = true →
        (sampleCommitment []).content = (sampleCommitment ["d"]).content →
          SeparatedAlike (sampleCommitment []) (sampleCommitment ["d"])) := by
  refine hash_names_one_iff fun h => ?_
  exact absurd h (by decide)

/-- A separator moves from one field to the next, and a list with one empty dependency is
taken for none: different commitments are accepted under one hash. -/
theorem separators_are_ambiguous :
    let left := postInit id ⟨0, "n|x", "y", 1, "", []⟩
    let right := postInit id ⟨0, "n", "x|y", 1, "", [""]⟩
    left.verifyCommitment id = true ∧ right.verifyCommitment id = true ∧
      left.commitmentHash = right.commitmentHash ∧ ¬Same left right := by
  intro left right
  have hcontent : (⟨0, "n|x", "y", 1, "", []⟩ : CommitmentArtifact).content =
      (⟨0, "n", "x|y", 1, "", [""]⟩ : CommitmentArtifact).content := by decide
  refine ⟨decide_eq_true rfl, decide_eq_true rfl, hcontent, fun hsame => ?_⟩
  have hneed : "n|x" = "n" := hsame.needId
  exact absurd hneed (by decide)

end CommitmentArtifact

end AgentNetwork.Sharding
