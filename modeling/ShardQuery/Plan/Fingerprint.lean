import ShardQuery.Plan.Codec
import ShardQuery.Sha256
import ShardQuery.Text.Hex

/-!
# Plan Fingerprints

A plan is identified by the hash of its canonical text, so plans that are written alike
are one plan.
-/

namespace ShardQuery.Plan

/-- The hash of the canonical text of a plan, thirty-two octets. -/
def digest (plan : Plan) : List UInt8 :=
  Sha256.hash (utf8Octets plan.render)

/-- The hash of the canonical text in hexadecimal digits. -/
def fingerprint (plan : Plan) : String :=
  Hex.encode plan.digest

end ShardQuery.Plan
