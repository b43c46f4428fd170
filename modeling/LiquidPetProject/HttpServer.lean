import LiquidPetProject.HttpMessage

namespace LiquidPetProject.Http

open Models

structure Route (H : Type) where
  method : Method
  pathPrefix : String
  handler : H

inductive HandlerAnswer
  | returned (response : Response)
  | threw
  deriving DecidableEq, Repr

inductive SessionPc (H : Type)
  | reading
  | handling (message : BeastRequest) (handler : H)
  | writing (response : BeastResponse)
  | closed
  deriving DecidableEq, Repr

inductive SessionAction
  | read (message : BeastRequest)
  | handled (answer : HandlerAnswer)
  | written
  | failed
  deriving DecidableEq, Repr

namespace HttpServer

variable {H : Type}

def findHandler (handlers : List (Route H)) (method : Method) (path : String) : Option H :=
  (handlers.find? (fun route => route.method = method && route.pathPrefix.toList.isPrefixOf path.toList)).map
    Route.handler

def handlerResponse : HandlerAnswer → Response
  | .returned response => response
  | .threw => ⟨.internalServerError, "internal server error"⟩

/-- `handleSession` lets the client decide whether the connection stays open. -/
def sessionResponse (message : BeastRequest) (response : Response) : BeastResponse :=
  { HttpMessageConverter.toBeastResponse response with keepAlive := message.keepAlive }

def afterRead (handlers : List (Route H)) (message : BeastRequest) : SessionPc H :=
  match findHandler handlers (HttpMessageConverter.toHttpRequest message).method
      (HttpMessageConverter.toHttpRequest message).path with
  | none => .writing (sessionResponse message { status := .notFound })
  | some handler => .handling message handler

def sessionStep (handlers : List (Route H)) : SessionPc H → SessionAction → Option (SessionPc H)
  | .reading, .read message => some (afterRead handlers message)
  | .reading, .failed => some .closed
  | .handling message _, .handled answer => some (.writing (sessionResponse message (handlerResponse answer)))
  | .writing response, .written => some (if response.keepAlive then .reading else .closed)
  | .writing _, .failed => some .closed
  | _, _ => none

theorem toHttpResponse_sessionResponse (message : BeastRequest) (response : Response) :
    HttpMessageConverter.toHttpResponse (sessionResponse message response) = response :=
  HttpMessageConverter.toHttpResponse_toBeastResponse response

end HttpServer

end LiquidPetProject.Http
