import ShardQuery.Error
import ShardQuery.Plan.Fingerprint

/-!
# Prepared Statements

A query is written as a statement; its plan has been made before and is looked up by the
text of the statement.
-/

namespace ShardQuery

/-- The plans of statements, as they have been prepared by somebody else. -/
structure Statements where
  /-- The statements, the latest first. -/
  entries : List (String × Plan)

namespace Statements

/-- No statements, so that none can be prepared. -/
def empty : Statements :=
  ⟨[]⟩

/-- Adds a statement, in the place of an equal one. -/
def insert (statements : Statements) (statement : String) (plan : Plan) : Statements :=
  ⟨(statement, plan) :: statements.entries⟩

/-- The plan of a statement. A statement without a plan is the fault of the caller. -/
def prepare (statements : Statements) (statement : String) : Except QueryError Plan :=
  match statements.entries.find? (·.1 == statement) with
  | some (_, plan) => .ok plan
  | none => .error (.unprepared statement)

end Statements

end ShardQuery
