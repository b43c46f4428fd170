import Mathlib.Tactic

namespace LiquidPetProject

inductive OffsetTrackerError
  | outOfOrderRegistration | unknownOffset | commitBeyondWatermark
  deriving DecidableEq, Repr

inductive PartitionRegistryError
  | partitionNotAssigned
  deriving DecidableEq, Repr

inductive EventPublisherError
  | connectionFailure | timeout | serializationFailure | brokerRejected
  deriving DecidableEq, Repr

inductive RepositoryError
  | notFound | connectionFailure | timeout | constraintViolation | serializationFailure
  deriving DecidableEq, Repr

inductive JsonParseError
  | invalidFormat | invalidPath | fileAccessDenied | sectionNotFound | keyNotFound | unknownError
  deriving DecidableEq, Repr

inductive StrongIdError
  | emptyId | invalidFormat
  deriving DecidableEq, Repr

inductive CurrencyError
  | emptyCurrency | negativeAmount
  deriving DecidableEq, Repr

inductive MoneyError
  | negativeAmount | differentCurrencies | underflow | overflow
  deriving DecidableEq, Repr

inductive OrderItemError
  | invalidQuantity | priceOverflow
  deriving DecidableEq, Repr

inductive OrderError
  | emptyItems | invalidItems | unknownStatus | invalidStatusTransition
  deriving DecidableEq, Repr

inductive ProcessingError
  | reservationFailed
  deriving DecidableEq, Repr

inductive DatabaseConfigurationError
  | emptyHost | emptyDatabaseName | emptyUser | invalidPort | invalidUrl
  deriving DecidableEq, Repr

inductive NetworkAddressError
  | emptyAddress | invalidFormat
  deriving DecidableEq, Repr

inductive HostError
  | emptyHost | invalidFormat
  deriving DecidableEq, Repr

/-- `std::error_code`: an enumerator together with the category it belongs to. -/
inductive ErrorCode
  | offsetTracker (e : OffsetTrackerError)
  | partitionRegistry (e : PartitionRegistryError)
  | eventPublisher (e : EventPublisherError)
  | repository (e : RepositoryError)
  | jsonParse (e : JsonParseError)
  | strongId (e : StrongIdError)
  | currency (e : CurrencyError)
  | money (e : MoneyError)
  | orderItem (e : OrderItemError)
  | order (e : OrderError)
  | processing (e : ProcessingError)
  | databaseConfiguration (e : DatabaseConfigurationError)
  | networkAddress (e : NetworkAddressError)
  | host (e : HostError)
  | invalidArgument
  deriving DecidableEq, Repr

end LiquidPetProject
