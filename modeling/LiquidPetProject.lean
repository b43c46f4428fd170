import LiquidPetProject.OffsetTrackerSpec
import LiquidPetProject.RegistryIsolation
import LiquidPetProject.RecordProtocol
import LiquidPetProject.PipelineConservation
import LiquidPetProject.PipelineExceptions
import LiquidPetProject.AtLeastOnce
import LiquidPetProject.OrderAgreement
import LiquidPetProject.OutboxStarvation
import LiquidPetProject.ReservationRaces
import LiquidPetProject.OrderPipelineConsistency
import LiquidPetProject.OrderEvents
import LiquidPetProject.RegistryTotality
import LiquidPetProject.TotalAmount
import LiquidPetProject.ConnectionString
import LiquidPetProject.EventAgreement
import LiquidPetProject.UpstreamExecutions
import LiquidPetProject.ReservationDeliveries
import LiquidPetProject.OrderRoundTrip
import LiquidPetProject.OutageSurvival
import LiquidPetProject.MoneyExpressions
import LiquidPetProject.OrderDocuments
import LiquidPetProject.RoutingOrder
import LiquidPetProject.Configurations
import LiquidPetProject.PortExactness
import LiquidPetProject.PoolContract
import LiquidPetProject.BackPressure
import LiquidPetProject.GracefulShutdown
import LiquidPetProject.OrderSystemContract
import LiquidPetProject.GatewayServerContract
import LiquidPetProject.OrderPlatformContract
