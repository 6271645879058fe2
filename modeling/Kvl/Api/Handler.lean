import Kvl.Lib.Action
import Kvl.Api.Dialogue
import Kvl.Api.Generate

/-!
# The request handler

`KimiRequestHandler` of `kvl_api.py`, on the two ends of a connection: the bytes the
client sends and what is written to it. Any write may fail after some of its bytes,
and the buffer of headers is only cleared once it has been written.
-/

namespace Kvl

set_option autoImplicit false

open PyText

abbrev Octets := List UInt8

def ascii (s : Str) : Octets := s.map UInt8.ofNat

/-- What the handler writes in one piece. -/
inductive Content
  | head (status : Nat) (headers : List (Str × Str))
  | json (doc : Json)
  | event (name : Option Str) (doc : Json)
  | done

structure Piece where
  content : Content
  bytes : Octets

/-- How a write ends: an error comes after some of the bytes were sent. -/
inductive WriteReply
  | ok
  | raised (e : Exc) (sent : Nat)

structure Conn where
  rfile : Octets
  wire : List Piece
  headersBuffer : List Piece
  closeConnection : Bool
  /-- How the next writes end; all later ones succeed. -/
  writes : List WriteReply

/-- An action stops with an exception, or it is still waiting for the generator. -/
inductive Stop
  | exc (e : Exc)
  | waiting

abbrev Handler := Action Conn Stop

structure Request where
  path : Str
  headers : List (Str × Str)

/-- The server, its runtime, and the parts of the standard library it calls. -/
structure Api (δ F : Type) where
  apiKey : Option Str
  modelId : Str
  pyEnv : PyEnv
  kimi : KimiEncoding
  codec : Codec δ
  planConfig : Plan.PlanConfig
  /-- `json.loads(raw.decode("utf-8"))` -/
  loads : Octets → Except Exc Json
  /-- `json.dumps(...)`, encoded as UTF-8 -/
  dumps : Json → Except Exc Octets
  toInt : Json → Except Exc Int
  toFloat : Json → Except Exc F
  isNegative : F → Bool
  /-- The status line after the version, and the headers that `http.server` adds. -/
  statusText : Nat → Str
  uuidHex : Str
  now : Int
  busy : Bool

def MAX_REQUEST_BYTES : Int := 16 * 1024 * 1024

def raiseExc {α : Type} (e : Exc) : Handler α := Action.raise (.exc e)

def liftExc {α : Type} (r : Except Exc α) : Handler α :=
  Action.lift (match r with | .ok a => .ok a | .error e => .error (.exc e))

/-! ### Writing -/

/-- The first bytes of some pieces. -/
def cutPieces : Nat → List Piece → List Piece
  | _, [] => []
  | n, p :: ps =>
    if n = 0 then []
    else if n < p.bytes.length then [{ p with bytes := p.bytes.take n }]
    else p :: cutPieces (n - p.bytes.length) ps

/-- `self.wfile.write` -/
def writePieces (pieces : List Piece) : Handler Unit := fun c =>
  match c.writes with
  | [] => (.ok (), { c with wire := c.wire ++ pieces })
  | .ok :: rest => (.ok (), { c with wire := c.wire ++ pieces, writes := rest })
  | .raised e n :: rest =>
    (.error (.exc e), { c with wire := c.wire ++ cutPieces n pieces, writes := rest })

/-- `end_headers`: the buffer is written and then cleared. -/
def endHeaders : Handler Unit := do
  let c ← Action.get
  writePieces c.headersBuffer
  Action.modify fun c => { c with headersBuffer := [] }

variable {δ F : Type}

def headBytes (api : Api δ F) (status : Nat) (headers : List (Str × Str)) : Octets :=
  ascii (text "HTTP/1.1 " ++ api.statusText status ++
    headers.flatMap (fun h => h.1 ++ text ": " ++ h.2 ++ text "\r\n") ++ text "\r\n")

/-- `send_response` and `send_header`; a `Connection: close` header closes. -/
def sendHead (api : Api δ F) (status : Nat) (headers : List (Str × Str)) : Handler Unit :=
  Action.modify fun c =>
    { c with
      headersBuffer := c.headersBuffer ++ [⟨.head status headers, headBytes api status headers⟩]
      closeConnection := c.closeConnection || headers.contains (text "Connection", text "close") }

def corsHeaders : List (Str × Str) :=
  [(text "Access-Control-Allow-Origin", text "*"),
    (text "Access-Control-Allow-Headers",
      text "authorization, content-type, x-api-key, anthropic-version, anthropic-beta"),
    (text "Access-Control-Allow-Methods", text "GET, POST, OPTIONS")]

def jsonHeaders (length : Nat) : List (Str × Str) :=
  [(text "Content-Type", text "application/json; charset=utf-8"),
    (text "Content-Length", strNat length)] ++ corsHeaders

def streamHeaders : List (Str × Str) :=
  [(text "Content-Type", text "text/event-stream; charset=utf-8"),
    (text "Cache-Control", text "no-cache"), (text "Connection", text "close")] ++ corsHeaders

/-- `_json` -/
def sendJson (api : Api δ F) (status : Nat) (payload : Json) : Handler Unit := do
  let body ← liftExc (api.dumps payload)
  sendHead api status (jsonHeaders body.length)
  endHeaders
  writePieces [⟨.json payload, body⟩]

/-! ### Reading -/

/-- `self.headers.get(name)` -/
def Request.header (req : Request) (name : String) : Option Str :=
  (req.headers.find? fun h => h.1.map Plan.lowerAscii = text name).map Prod.snd

/-- Whether the request has the key of the server, if that has one. -/
def isAuthorized (api : Api δ F) (req : Request) : Bool :=
  match api.apiKey with
  | none => true
  | some expected =>
    expected = [] || req.header "x-api-key" = some expected ||
      (req.header "authorization").getD [] = text "Bearer " ++ expected

def errorDoc (kind message : Str) : Json :=
  .obj [(text "type", .str (text "error")),
    (text "error", .obj [(text "type", .str kind), (text "message", .str message)])]

def notFoundDoc : Json :=
  .obj [(text "error",
    .obj [(text "message", .str (text "not found")), (text "type", .str (text "not_found"))])]

/-- `_authorized` -/
def authorized (api : Api δ F) (req : Request) : Handler Bool :=
  if isAuthorized api req then pure true
  else do
    sendJson api 401 (errorDoc (text "authentication_error") (text "invalid local API key"))
    pure false

/-- `self.rfile.read(length)`: fewer bytes only at the end of the stream. -/
def readBytes (length : Nat) : Handler Octets := fun c =>
  (.ok (c.rfile.take length), { c with rfile := c.rfile.drop length })

/-- The length that `_read_json` reads. -/
def contentLength (req : Request) : Except Exc Nat :=
  match req.header "content-length" with
  | none => .error (valueError "missing Content-Length")
  | some rawLen =>
    match pyInt rawLen with
    | none => .error (valueError "invalid literal for int() with base 10")
    | some length =>
      if length < 0 ∨ length > MAX_REQUEST_BYTES then
        .error (valueError "request body too large (limit 16777216 bytes)")
      else .ok length.toNat

/-- A body has to be an object. -/
def objectFields (data : Json) : Handler (List (Str × Json)) :=
  match data with
  | .obj fields => pure fields
  | _ => raiseExc (valueError "JSON body must be an object")

/-- `_read_json`: the fields of the body. -/
def readJson (api : Api δ F) (req : Request) : Handler (List (Str × Json)) := do
  let length ← liftExc (contentLength req)
  let raw ← readBytes length
  let data ← liftExc (api.loads raw)
  objectFields data

def validateModel (api : Api δ F) (body : List (Str × Json)) : Except Exc Unit :=
  let requested := getField body "model" (.str api.modelId)
  match requested with
  | .str s =>
    if s = api.modelId then .ok ()
    else .error ⟨.value, text "unknown model '" ++ s ++ text "'; configured model is '" ++
      api.modelId ++ text "'"⟩
  | j => .error ⟨.value, text "unknown model '" ++ strOf api.pyEnv j ++
      text "'; configured model is '" ++ api.modelId ++ text "'"⟩

/-! ### The generator, one call at a time -/

/-- Whether `on_delta` returned or what it raised. -/
def attempt (m : Handler Unit) : Handler Reply := fun c =>
  match m c with
  | (.ok (), c') => (.ok .ok, c')
  | (.error (.exc e), c') => (.ok (.raised e), c')
  | (.error .waiting, c') => (.error .waiting, c')

/-- The call after `on_delta` has ended. -/
def afterDelta (api : Api δ F) (call : GenCall δ) (reply : Reply) : Handler (GenCall δ) :=
  match call.resume api.codec reply with
  | none => Action.raise .waiting
  | some next => pure next.1

/-- The call after a piece of text has been passed to `on_delta`, if there is one to pass. -/
def passDelta (api : Api δ F) (onDelta : Str → Handler Unit) (call : GenCall δ) :
    Handler (GenCall δ) :=
  match call.pc with
  | .onDelta delta | .onTail delta => do
    let reply ← attempt (onDelta delta)
    afterDelta api call reply
  | _ => pure call

/-- `generate`, where the lock and the child give these replies. -/
def followCall (api : Api δ F) (onDelta : Str → Handler Unit) :
    List Reply → GenCall δ → Handler GenerationResult
  | replies, call =>
    match call.pc with
    | .finished r => liftExc r
    | _ =>
      match replies with
      | [] => Action.raise .waiting
      | r :: rest =>
        match call.resume api.codec r with
        | none => Action.raise .waiting
        | some next => do
          let passed ← passDelta api onDelta next.1
          followCall api onDelta rest passed

def generate (api : Api δ F) (replies : List Reply) (prepared : List Nat) (maxTokens : Int)
    (temperature : F) (onDelta : Option (Str → Handler Unit)) : Handler GenerationResult := do
  let call ← liftExc (generateStart api.codec api.planConfig prepared.length maxTokens
    (api.isNegative temperature = false) onDelta.isSome)
  followCall api (onDelta.getD fun _ => pure ()) replies call

/-- `preflight` -/
def preflight (api : Api δ F) (prepared : List Nat) (maxTokens : Int) (temperature : F) :
    Except Exc Unit :=
  if api.isNegative temperature then .error (valueError "temperature must be >= 0")
  else (Plan.plan api.planConfig prepared.length maxTokens).map fun _ => ()

/-! ### Documents -/

def messageId (api : Api δ F) (pre : String) : Str :=
  text pre ++ text "_" ++ api.uuidHex.take 24

def num (n : Nat) : Json := .int n

def anthropicStopReason (r : GenerationResult) : Str :=
  if r.stoppedByEos then text "end_turn" else text "max_tokens"

def openaiFinishReason (r : GenerationResult) : Str :=
  if r.stoppedByEos then text "stop" else text "length"

def anthropicResponse (api : Api δ F) (prepared : List Nat) (r : GenerationResult) : Json :=
  .obj [(text "id", .str (messageId api "msg")), (text "type", .str (text "message")),
    (text "role", .str (text "assistant")), (text "model", .str api.modelId),
    (text "content", .arr [.obj [(text "type", .str (text "text")), (text "text", .str r.text)]]),
    (text "stop_reason", .str (anthropicStopReason r)), (text "stop_sequence", .null),
    (text "usage", .obj [(text "input_tokens", num prepared.length),
      (text "output_tokens", num r.outputTokens)])]

def openaiResponse (api : Api δ F) (prepared : List Nat) (r : GenerationResult) : Json :=
  .obj [(text "id", .str (messageId api "chatcmpl")),
    (text "object", .str (text "chat.completion")), (text "created", .int api.now),
    (text "model", .str api.modelId),
    (text "choices", .arr [.obj [(text "index", num 0),
      (text "message", .obj [(text "role", .str (text "assistant")),
        (text "content", .str r.text)]),
      (text "finish_reason", .str (openaiFinishReason r))]]),
    (text "usage", .obj [(text "prompt_tokens", num prepared.length),
      (text "completion_tokens", num r.outputTokens),
      (text "total_tokens", num (prepared.length + r.outputTokens))])]

def messageStartDoc (api : Api δ F) (prepared : List Nat) : Json :=
  .obj [(text "type", .str (text "message_start")),
    (text "message", .obj [(text "id", .str (messageId api "msg")),
      (text "type", .str (text "message")), (text "role", .str (text "assistant")),
      (text "model", .str api.modelId), (text "content", .arr []), (text "stop_reason", .null),
      (text "stop_sequence", .null),
      (text "usage", .obj [(text "input_tokens", num prepared.length),
        (text "output_tokens", num 0)])])]

def blockStartDoc : Json :=
  .obj [(text "type", .str (text "content_block_start")), (text "index", num 0),
    (text "content_block", .obj [(text "type", .str (text "text")), (text "text", .str [])])]

def blockDeltaDoc (delta : Str) : Json :=
  .obj [(text "type", .str (text "content_block_delta")), (text "index", num 0),
    (text "delta", .obj [(text "type", .str (text "text_delta")), (text "text", .str delta)])]

def blockStopDoc : Json :=
  .obj [(text "type", .str (text "content_block_stop")), (text "index", num 0)]

def messageDeltaDoc (r : GenerationResult) : Json :=
  .obj [(text "type", .str (text "message_delta")),
    (text "delta", .obj [(text "stop_reason", .str (anthropicStopReason r)),
      (text "stop_sequence", .null)]),
    (text "usage", .obj [(text "output_tokens", num r.outputTokens)])]

def messageStopDoc : Json := .obj [(text "type", .str (text "message_stop"))]

def chunkDoc (api : Api δ F) (delta : List (Str × Json)) (finishReason : Option Str) : Json :=
  .obj [(text "id", .str (messageId api "chatcmpl")),
    (text "object", .str (text "chat.completion.chunk")), (text "created", .int api.now),
    (text "model", .str api.modelId),
    (text "choices", .arr [.obj [(text "index", num 0), (text "delta", .obj delta),
      (text "finish_reason", match finishReason with | none => .null | some s => .str s)]])]

/-! ### The streams -/

/-- The headers of a stream; from here on the connection closes after the request. -/
def startStream (api : Api δ F) : Handler Unit := do
  sendHead api 200 streamHeaders
  endHeaders
  Action.modify fun c => { c with closeConnection := true }

def eventBytes (name : Option Str) (payload : Octets) : Octets :=
  (match name with
    | none => []
    | some s => ascii (text "event: " ++ s ++ text "\n")) ++
    ascii (text "data: ") ++ payload ++ ascii (text "\n\n")

/-- `send_event` and `send_chunk` -/
def sendEvent (api : Api δ F) (name : Option Str) (doc : Json) : Handler Unit := do
  let payload ← liftExc (api.dumps doc)
  writePieces [⟨.event name doc, eventBytes name payload⟩]

def anthropicStream (api : Api δ F) (replies : List Reply) (prepared : List Nat)
    (maxTokens : Int) (temperature : F) : Handler Unit := do
  startStream api
  sendEvent api (text "message_start") (messageStartDoc api prepared)
  sendEvent api (text "content_block_start") blockStartDoc
  let result ← generate api replies prepared maxTokens temperature
    (some fun delta => sendEvent api (text "content_block_delta") (blockDeltaDoc delta))
  sendEvent api (text "content_block_stop") blockStopDoc
  sendEvent api (text "message_delta") (messageDeltaDoc result)
  sendEvent api (text "message_stop") messageStopDoc

def openaiStream (api : Api δ F) (replies : List Reply) (prepared : List Nat)
    (maxTokens : Int) (temperature : F) : Handler Unit := do
  startStream api
  sendEvent api none
    (chunkDoc api [(text "role", .str (text "assistant")), (text "content", .str [])] none)
  let result ← generate api replies prepared maxTokens temperature
    (some fun delta => sendEvent api none (chunkDoc api [(text "content", .str delta)] none))
  sendEvent api none (chunkDoc api [] (openaiFinishReason result))
  writePieces [⟨.done, ascii (text "data: [DONE]\n\n")⟩]

/-! ### The endpoints -/

structure GenArgs (F : Type) where
  prepared : List Nat
  maxTokens : Int
  temperature : F

/-- The arguments of a generation, each of which may be refused. -/
def genArgs (api : Api δ F) (body : List (Str × Json)) (system maxTokens : Json) :
    Except Exc (GenArgs F) :=
  match validateModel api body with
  | .error e => .error e
  | .ok () =>
    match prepare api.pyEnv api.kimi (getField body "messages" .null) system
        (getField body "tools" .null) with
    | .error e => .error e
    | .ok prepared =>
      match api.toInt maxTokens with
      | .error e => .error e
      | .ok maxTokens =>
        match api.toFloat (getField body "temperature" (.float (text "0.2"))) with
        | .error e => .error e
        | .ok temperature =>
          match api.toInt (getField body "seed" (.int 1)) with
          | .error e => .error e
          | .ok _ => .ok ⟨prepared, maxTokens, temperature⟩

/-- What the two generation endpoints share: a stream after the preflight, or one document. -/
def respond (api : Api δ F) (replies : List Reply) (body : List (Str × Json)) (args : GenArgs F)
    (stream : List Reply → List Nat → Int → F → Handler Unit)
    (document : List Nat → GenerationResult → Json) : Handler Unit :=
  if (getField body "stream" (.bool false)).truthy then do
    liftExc (preflight api args.prepared args.maxTokens args.temperature)
    stream replies args.prepared args.maxTokens args.temperature
  else do
    let result ← generate api replies args.prepared args.maxTokens args.temperature none
    sendJson api 200 (document args.prepared result)

def anthropicMessages (api : Api δ F) (replies : List Reply) (body : List (Str × Json)) :
    Handler Unit := do
  let args ← liftExc (genArgs api body (getField body "system" .null)
    (getField body "max_tokens" (.int 128)))
  respond api replies body args (anthropicStream api) (anthropicResponse api)

def openaiChat (api : Api δ F) (replies : List Reply) (body : List (Str × Json)) :
    Handler Unit := do
  let args ← liftExc (genArgs api body .null
    (getField body "max_tokens" (getField body "max_completion_tokens" (.int 128))))
  respond api replies body args (openaiStream api) (openaiResponse api)

def anthropicCount (api : Api δ F) (body : List (Str × Json)) : Handler Unit := do
  liftExc (validateModel api body)
  let prepared ← liftExc (prepare api.pyEnv api.kimi (getField body "messages" .null)
    (getField body "system" .null) (getField body "tools" .null))
  sendJson api 200 (.obj [(text "input_tokens", num prepared.length)])

def Request.route (req : Request) : Str := req.path.takeWhile (· ≠ 63)

/-! ### The methods -/

/-- The exceptions that say that the client has gone. -/
def isDisconnect (e : Exc) : Bool :=
  e.kind = .brokenPipe || e.kind = .connectionReset

/-- `_safe_error` -/
def safeError (api : Api δ F) (status : Nat) (kind : String) (message : Str) : Handler Unit :=
  (sendJson api status (errorDoc (text kind) message)).rescue fun stop =>
    match stop with
    | .exc e => if isDisconnect e then pure () else Action.raise stop
    | .waiting => Action.raise stop

/-- The `except` clauses of `do_POST`. -/
def answerExc (api : Api δ F) (stop : Stop) : Handler Unit :=
  match stop with
  | .waiting => Action.raise .waiting
  | .exc e =>
    match e.kind with
    | .brokenPipe | .connectionReset => pure ()
    | .value => safeError api 400 "invalid_request_error" e.text
    | .base => raiseExc e
    | _ => safeError api 500 "backend_error" e.text

/-- The `try` block of `do_POST`. -/
def postBody (api : Api δ F) (replies : List Reply) (req : Request) : Handler Unit := do
  let body ← readJson api req
  if req.route = text "/v1/messages" then anthropicMessages api replies body
  else if req.route = text "/v1/messages/count_tokens" then anthropicCount api body
  else if req.route = text "/v1/chat/completions" then openaiChat api replies body
  else sendJson api 404 notFoundDoc

/-- `do_POST` -/
def doPost (api : Api δ F) (replies : List Reply) (req : Request) : Handler Unit := do
  let ok ← authorized api req
  if ok then (postBody api replies req).rescue (answerExc api)
  else pure ()

def healthDoc (api : Api δ F) : Json :=
  .obj [(text "status", .str (text "ok")), (text "model", .str api.modelId),
    (text "backend", .str (text "serialized-process-v1")), (text "busy", .bool api.busy)]

def modelsDoc (api : Api δ F) : Json :=
  .obj [(text "object", .str (text "list")),
    (text "data", .arr [.obj [(text "id", .str api.modelId), (text "object", .str (text "model")),
      (text "created", num 0), (text "owned_by", .str (text "local-kimi"))]])]

/-- `do_GET` -/
def doGet (api : Api δ F) (req : Request) : Handler Unit := do
  let ok ← authorized api req
  if ok then
    if req.route = text "/healthz" then sendJson api 200 (healthDoc api)
    else if req.route = text "/v1/models" then sendJson api 200 (modelsDoc api)
    else sendJson api 404 notFoundDoc
  else pure ()

/-- `do_OPTIONS` -/
def doOptions (api : Api δ F) : Handler Unit := do
  sendHead api 204 (corsHeaders ++ [(text "Content-Length", text "0")])
  endHeaders

end Kvl
