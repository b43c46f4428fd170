import LiquidPetProject.StrongID

namespace LiquidPetProject.Messaging

open Models

structure MessageMetadata where
  eventId : OutboxEventId
  eventType : String
  deriving DecidableEq, Repr

structure PublishRequest (π : Type) where
  topic : String
  key : String
  payload : π
  metadata : MessageMetadata

end LiquidPetProject.Messaging
