import LiquidPetProject.ErrorCode

namespace LiquidPetProject.Repository

inductive PqxxException
  | brokenConnection | uniqueViolation | foreignKeyViolation | checkViolation | inDoubtError | other
  deriving DecidableEq, Repr

def mapPqxxException : PqxxException → ErrorCode
  | .brokenConnection => .repository .connectionFailure
  | .uniqueViolation => .repository .constraintViolation
  | .foreignKeyViolation => .repository .constraintViolation
  | .checkViolation => .repository .constraintViolation
  | .inDoubtError => .repository .timeout
  | .other => .repository .serializationFailure

theorem mapPqxxException_ne_notFound (e : PqxxException) : mapPqxxException e ≠ .repository .notFound := by
  cases e <;> decide

/-- How a transaction ends: an exception may also follow a commit that was applied. -/
inductive CommitOutcome
  | committed
  | failed (e : PqxxException)
  | inDoubt (e : PqxxException)
  deriving DecidableEq, Repr

end LiquidPetProject.Repository
