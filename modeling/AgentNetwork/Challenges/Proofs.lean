import AgentNetwork.Library.JsonText
import Mathlib.Tactic.Common

namespace AgentNetwork.Challenges

def maxProofSizeBytes : Int := 10 * 1024

def maxGasEstimate : Int := 100000

inductive ProofType
  | schemaViolation
  | missingCitation
  | semanticContradiction
  | outputMismatch
  | policyBreach
  deriving DecidableEq

def ProofType.value : ProofType → String
  | .schemaViolation => "SCHEMA_VIOLATION"
  | .missingCitation => "MISSING_CITATION"
  | .semanticContradiction => "SEMANTIC_CONTRADICTION"
  | .outputMismatch => "OUTPUT_MISMATCH"
  | .policyBreach => "POLICY_BREACH"

/-- `ProofType(value)`. -/
def ProofType.ofValue (value : String) : Option ProofType :=
  [ProofType.schemaViolation, .missingCitation, .semanticContradiction, .outputMismatch, .policyBreach].find? (·.value = value)

/-- Complexity multipliers for bond calculation. -/
inductive ComplexityLevel
  | simple
  | moderate
  | complex
  deriving DecidableEq

def ComplexityLevel.name : ComplexityLevel → String
  | .simple => "SIMPLE"
  | .moderate => "MODERATE"
  | .complex => "COMPLEX"

def ComplexityLevel.value : ComplexityLevel → Int
  | .simple => 1
  | .moderate => 2
  | .complex => 5

/-- `ComplexityLevel[name]`. -/
def ComplexityLevel.ofName (name : String) : Option ComplexityLevel :=
  [ComplexityLevel.simple, .moderate, .complex].find? (·.name = name)

structure ProofSchema where
  proofType : ProofType
  evidenceHash : String
  sizeBytes : Int
  gasEstimate : Int
  metadata : List (String × Json)
  deriving DecidableEq

/-- `validate`: the message of the first check that fails. -/
def ProofSchema.validate (p : ProofSchema) : Option String :=
  if p.sizeBytes > maxProofSizeBytes then some s!"Proof size {p.sizeBytes} exceeds max {maxProofSizeBytes} bytes"
  else if p.sizeBytes ≤ 0 then some "Proof size must be positive"
  else if p.gasEstimate > maxGasEstimate then some s!"Gas estimate {p.gasEstimate} exceeds max {maxGasEstimate}"
  else if p.gasEstimate < 0 then some "Gas estimate must be non-negative"
  else if p.evidenceHash.length ≠ 64 then some "Evidence hash must be 64-character SHA256 hex string"
  else none

def ProofSchema.toDict (p : ProofSchema) : Json :=
  .obj [("proof_type", .str p.proofType.value), ("evidence_hash", .str p.evidenceHash), ("size_bytes", .int p.sizeBytes),
    ("gas_estimate", .int p.gasEstimate), ("metadata", .obj p.metadata)]

def baseBondAmounts : ProofType → Int
  | .schemaViolation => 10
  | .missingCitation => 25
  | .semanticContradiction => 50
  | .outputMismatch => 100
  | .policyBreach => 75

def calculateBond (proofType : ProofType) (complexity : ComplexityLevel) : Int := baseBondAmounts proofType * complexity.value

end AgentNetwork.Challenges
