import AgentNetwork.Library.PythonBytes
import Mathlib.Algebra.Order.Group.Int
import Mathlib.Data.Nat.Prime.Basic
import Mathlib.Tactic.Ring

/-! The assignment of needs to shards and the ranges of hash values of the shards. -/

namespace AgentNetwork.Sharding

structure ShardTopology where
  numShards : Int
  deriving DecidableEq

/-- The first four bytes of the digest. -/
def hashValue (sha256 : List UInt8 → List UInt8) (needId : String) : Int :=
  Python.intFromBytes ((sha256 (Python.encodeUtf8 needId)).take 4)

namespace ShardTopology

def getShardForNeed (sha256 : List UInt8 → List UInt8) (needId : String) (t : ShardTopology) : Int :=
  hashValue sha256 needId % t.numShards

def getBucketRange (shardId : Int) (t : ShardTopology) : Int × Int :=
  let bucketSize := 2 ^ 32 / t.numShards
  (shardId * bucketSize, (shardId + 1) * bucketSize - 1)

/-- The hash value lies in the range of the shard. -/
def Holds (t : ShardTopology) (shardId hash : Int) : Prop := (t.getBucketRange shardId).1 ≤ hash ∧ hash ≤ (t.getBucketRange shardId).2

/-- A need goes to the shard in whose range its hash value lies, and the ranges of the
shards are disjoint and cover the 32-bit values. -/
structure MapsAgree (sha256 : List UInt8 → List UInt8) (t : ShardTopology) (needId : String) : Prop where
  assigned : t.Holds (t.getShardForNeed sha256 needId) (hashValue sha256 needId)
  disjoint : ∀ i j hash, 0 ≤ i → i < t.numShards → 0 ≤ j → j < t.numShards → t.Holds i hash → t.Holds j hash → i = j
  covers : ∀ hash, 0 ≤ hash → hash < 2 ^ 32 → ∃ i, 0 ≤ i ∧ i < t.numShards ∧ t.Holds i hash

theorem hashValue_lt (sha256 : List UInt8 → List UInt8) (needId : String) :
    0 ≤ hashValue sha256 needId ∧ hashValue sha256 needId < 2 ^ 32 := by
  have hlt := Python.intFromBytes_lt ((sha256 (Python.encodeUtf8 needId)).take 4)
  have hfour : 256 ^ ((sha256 (Python.encodeUtf8 needId)).take 4).length ≤ 256 ^ 4 :=
    Nat.pow_le_pow_right (by decide) (List.length_take_le 4 _)
  have hbound : Python.intFromBytes ((sha256 (Python.encodeUtf8 needId)).take 4) < 2 ^ 32 := hlt.trans_le hfour
  refine ⟨Int.natCast_nonneg _, ?_⟩
  rw [hashValue]
  exact_mod_cast hbound

section Ranges

variable {t : ShardTopology} {shardId hash : Int}

theorem holds_iff (hsize : 0 < 2 ^ 32 / t.numShards) : t.Holds shardId hash ↔ hash / (2 ^ 32 / t.numShards) = shardId := by
  rw [Holds, getBucketRange]
  dsimp only
  rw [← Int.lt_add_one_iff (a := hash), Int.sub_add_cancel, ← Int.le_ediv_iff_mul_le hsize, ← Int.ediv_lt_iff_lt_mul hsize]
  omega

/-- Without a size there are no values to hold. -/
theorem not_holds (hsize : ¬0 < 2 ^ 32 / t.numShards) (hshards : 1 ≤ t.numShards) : ¬t.Holds shardId hash := by
  have hzero : 2 ^ 32 / t.numShards = 0 := by
    have hnonneg : 0 ≤ 2 ^ 32 / t.numShards := Int.ediv_nonneg (by norm_num) (by omega)
    omega
  rw [Holds, getBucketRange, hzero]
  dsimp only
  omega

/-- The ranges reach the last value just when they leave no rest. -/
theorem dvd_of_covers (hshards : 1 ≤ t.numShards)
    (h : ∃ i, 0 ≤ i ∧ i < t.numShards ∧ t.Holds i (2 ^ 32 - 1)) : t.numShards ∣ 2 ^ 32 := by
  obtain ⟨i, _, hi, hholds⟩ := h
  by_cases hsize : 0 < 2 ^ 32 / t.numShards
  · have hlast : (2 ^ 32 - 1) / (2 ^ 32 / t.numShards) + 1 ≤ t.numShards := by
      rw [(holds_iff hsize).mp hholds]
      omega
    have hover : 2 ^ 32 - 1 < t.numShards * (2 ^ 32 / t.numShards) := by
      rw [← Int.ediv_lt_iff_lt_mul hsize]
      omega
    have hrest := Int.mul_ediv_add_emod (2 ^ 32) t.numShards
    have hnonneg : 0 ≤ (2 ^ 32 : Int) % t.numShards := Int.emod_nonneg _ (by omega)
    exact Int.dvd_of_emod_eq_zero (by omega)
  · exact absurd hholds (not_holds hsize hshards)

theorem numShards_dvd_iff (hshards : 1 ≤ t.numShards) : t.numShards ∣ 2 ^ 32 ↔ ∃ k ≤ 32, t.numShards = 2 ^ k := by
  obtain ⟨n, hn⟩ := Int.eq_ofNat_of_zero_le (show 0 ≤ t.numShards by omega)
  have hcast : t.numShards ∣ 2 ^ 32 ↔ n ∣ 2 ^ 32 := by
    rw [hn]
    exact_mod_cast Iff.rfl
  rw [hcast, Nat.dvd_prime_pow Nat.prime_two, hn]
  exact exists_congr fun k => and_congr_right fun _ => by exact_mod_cast Iff.rfl

end Ranges

theorem bucketSize_eq {t : ShardTopology} {k : Nat} (hk : k ≤ 32) (hshards : t.numShards = 2 ^ k) :
    (2 ^ 32 : Int) / t.numShards = 2 ^ (32 - k) := by
  have hsplit : (2 ^ 32 : Int) = 2 ^ (32 - k) * 2 ^ k := by
    rw [← pow_add]
    congr 1
    omega
  rw [hshards, hsplit, Int.mul_ediv_cancel _ (pow_ne_zero k (by norm_num))]

/-- The maps agree on a need just when the number of shards is a power of two and the
upper bits of the hash value that the ranges go by are its lower ones. -/
theorem shard_maps_agree_iff (sha256 : List UInt8 → List UInt8) {t : ShardTopology} (hshards : 1 ≤ t.numShards) (needId : String) :
    MapsAgree sha256 t needId ↔ ∃ k ≤ 32, t.numShards = 2 ^ k ∧
      hashValue sha256 needId / 2 ^ (32 - k) = hashValue sha256 needId % 2 ^ k := by
  constructor
  · intro h
    obtain ⟨k, hk, hpower⟩ := (numShards_dvd_iff hshards).mp (dvd_of_covers hshards (h.covers _ (by norm_num) (by norm_num)))
    have hsize : 0 < 2 ^ 32 / t.numShards := by
      rw [bucketSize_eq hk hpower]
      exact pow_pos (by norm_num) _
    have hassigned := (holds_iff hsize).mp h.assigned
    rw [bucketSize_eq hk hpower, getShardForNeed, hpower] at hassigned
    exact ⟨k, hk, hpower, hassigned⟩
  · rintro ⟨k, hk, hpower, hbits⟩
    have hbucket := bucketSize_eq hk hpower
    have hsize : 0 < 2 ^ 32 / t.numShards := by
      rw [hbucket]
      exact pow_pos (by norm_num) _
    have hall : t.numShards * (2 ^ 32 / t.numShards) = 2 ^ 32 :=
      Int.mul_ediv_cancel' ((numShards_dvd_iff hshards).mpr ⟨k, hk, hpower⟩)
    refine ⟨?_, fun i j hash _ _ _ _ hi hj => ?_, fun hash hnonneg hlt => ?_⟩
    · rw [holds_iff hsize, getShardForNeed, hbucket, hpower]
      exact hbits
    · exact ((holds_iff hsize).mp hi).symm.trans ((holds_iff hsize).mp hj)
    · refine ⟨hash / (2 ^ 32 / t.numShards), Int.ediv_nonneg hnonneg hsize.le, ?_, (holds_iff hsize).mpr rfl⟩
      rw [Int.ediv_lt_iff_lt_mul hsize, hall]
      exact hlt

/-- The digest of the empty text. -/
def emptyDigest : List UInt8 :=
  [0xe3, 0xb0, 0xc4, 0x42, 0x98, 0xfc, 0x1c, 0x14, 0x9a, 0xfb, 0xf4, 0xc8, 0x99, 0x6f, 0xb9, 0x24,
    0x27, 0xae, 0x41, 0xe4, 0x64, 0x9b, 0x93, 0x4c, 0xa4, 0x95, 0x99, 0x1b, 0x78, 0x52, 0xb8, 0x55]

theorem hashValue_empty : hashValue (fun _ => emptyDigest) "" = 3820012610 := by decide

theorem shard_maps_agree_iff_default :
    MapsAgree (fun _ => emptyDigest) ⟨256⟩ "" ↔ ∃ k ≤ 32, (⟨256⟩ : ShardTopology).numShards = 2 ^ k ∧
      hashValue (fun _ => emptyDigest) "" / 2 ^ (32 - k) = hashValue (fun _ => emptyDigest) "" % 2 ^ k :=
  shard_maps_agree_iff (fun _ => emptyDigest) (by decide) ""

/-- Of 256 shards the empty need goes to shard 66, and its hash value is in the range of shard 227. -/
theorem empty_need_in_other_range : ¬MapsAgree (fun _ => emptyDigest) ⟨256⟩ "" := by
  intro h
  have hassigned := h.assigned
  rw [getShardForNeed, hashValue_empty] at hassigned
  exact absurd hassigned (by norm_num [Holds, getBucketRange])

end ShardTopology

end AgentNetwork.Sharding
