import LiquidPetProject.ErrorCode

namespace LiquidPetProject

def OffsetTrackerError.message : OffsetTrackerError → String
  | .outOfOrderRegistration => "offset registered out of order"
  | .unknownOffset => "unknown offset"
  | .commitBeyondWatermark => "commit position is beyond watermark"

def PartitionRegistryError.message : PartitionRegistryError → String
  | .partitionNotAssigned => "partition is not assigned"

def EventPublisherError.message : EventPublisherError → String
  | .connectionFailure => "connection failure"
  | .timeout => "timeout"
  | .serializationFailure => "serialization failure"
  | .brokerRejected => "broker rejected message"

def RepositoryError.message : RepositoryError → String
  | .notFound => "not found"
  | .connectionFailure => "connection failure"
  | .timeout => "timeout"
  | .constraintViolation => "constraint violation failure"
  | .serializationFailure => "serialization failure"

def JsonParseError.message : JsonParseError → String
  | .invalidFormat => "invalid json format"
  | .invalidPath => "invalid path"
  | .fileAccessDenied => "file access denied"
  | .sectionNotFound => "section not found"
  | .keyNotFound => "key not found"
  | .unknownError => "unknown error"

def StrongIdError.message : StrongIdError → String
  | .emptyId => "empty id"
  | .invalidFormat => "invalid format"

def CurrencyError.message : CurrencyError → String
  | .emptyCurrency => "empty currency"
  | .negativeAmount => "negative amount"

def MoneyError.message : MoneyError → String
  | .negativeAmount => "negative amount"
  | .differentCurrencies => "different currencies"
  | .underflow => "underflow"
  | .overflow => "overflow"

def OrderItemError.message : OrderItemError → String
  | .invalidQuantity => "invalid quantity"
  | .priceOverflow => "price overflow"

/-- The category has no text for an unknown status. -/
def OrderError.message : OrderError → String
  | .emptyItems => "empty items"
  | .invalidItems => "invalid items"
  | .unknownStatus => "unknown order error"
  | .invalidStatusTransition => "invalid status transition"

def ProcessingError.message : ProcessingError → String
  | .reservationFailed => "reservation failed"

def DatabaseConfigurationError.message : DatabaseConfigurationError → String
  | .emptyHost => "empty host"
  | .emptyDatabaseName => "empty database name"
  | .emptyUser => "empty user"
  | .invalidPort => "invalid port"
  | .invalidUrl => "invalid url"

def NetworkAddressError.message : NetworkAddressError → String
  | .emptyAddress => "empty address"
  | .invalidFormat => "invalid format"

def HostError.message : HostError → String
  | .emptyHost => "empty host"
  | .invalidFormat => "invalid format"

def ErrorCode.message : ErrorCode → String
  | .offsetTracker e => e.message
  | .partitionRegistry e => e.message
  | .eventPublisher e => e.message
  | .repository e => e.message
  | .jsonParse e => e.message
  | .strongId e => e.message
  | .currency e => e.message
  | .money e => e.message
  | .orderItem e => e.message
  | .order e => e.message
  | .processing e => e.message
  | .databaseConfiguration e => e.message
  | .networkAddress e => e.message
  | .host e => e.message
  | .invalidArgument => "Invalid argument"

end LiquidPetProject
