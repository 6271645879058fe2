import Kvl.Api.Response
import Kvl.Lib.Machine

/-!
# A connection that is kept open

The request loop of `http.server`: a head is read, its method is called, and the
next head is read where the handler has left the stream, unless the connection is
to be closed. How a head is parsed is a parameter.
-/

namespace Kvl

set_option autoImplicit false

open PyText Machine

/-- A request line with its headers. -/
structure Head where
  command : Str
  /-- HTTP/1.1 without `Connection: close`, or an older version with `keep-alive` -/
  keepAlive : Bool
  req : Request

/-- Reads a head off the stream, and nothing at its end. -/
structure HeadReader where
  read : Octets → Option (Head × Octets)
  read_nil : read [] = none

/-- A request as a client sends it. -/
structure Sent (R : HeadReader) where
  raw : Octets
  head : Head
  body : Octets
  reads : ∀ rest, R.read (raw ++ rest) = some (head, rest)

def wireOf {R : HeadReader} (sent : List (Sent R)) : Octets :=
  sent.flatMap fun r => r.raw ++ r.body

structure Session where
  conn : Conn
  isOpen : Bool
  /-- The heads that were taken for requests. -/
  handled : List Head

variable {δ F : Type}

/-- The methods of the handler; `http.server` answers any other one and closes. -/
def handleHead (api : Api δ F) (replies : List Reply) (head : Head) : Handler Unit :=
  if head.command = text "GET" then doGet api head.req
  else if head.command = text "POST" then doPost api replies head.req
  else if head.command = text "OPTIONS" then doOptions api
  else Action.modify fun c => { c with closeConnection := true }

def isOk {α ε : Type} (r : Except ε α) : Bool :=
  match r with
  | .ok _ => true
  | .error _ => false

/-- `handle_one_request`. An exception that leaves the handler ends the connection. -/
def Session.step (R : HeadReader) (api : Api δ F) (s : Session) (replies : List Reply) :
    Option Session :=
  if s.isOpen then
    match R.read s.conn.rfile with
    | none => some { s with isOpen := false }
    | some (head, rest) =>
      let run := handleHead api replies head
        { s.conn with rfile := rest, closeConnection := head.keepAlive = false }
      some ⟨run.2, isOk run.1 && run.2.closeConnection = false, s.handled ++ [head]⟩
  else none

/-- The next head is read where the next request begins, and only the heads that were sent
have been handled. -/
structure InFrame {R : HeadReader} (sent : List (Sent R)) (s : Session) : Prop where
  handled : s.handled = (sent.map Sent.head).take s.handled.length
  stream : s.isOpen = true → s.conn.rfile = wireOf (sent.drop s.handled.length)

def startSession {R : HeadReader} (sent : List (Sent R)) (writes : List WriteReply) : Session :=
  ⟨⟨wireOf sent, [], [], false, writes⟩, true, []⟩

/-! ### What a request makes of the stream -/

/-- The bytes that the handler reads after a head. -/
def bodyRead (api : Api δ F) (head : Head) : Nat :=
  if head.command = text "POST" ∧ isAuthorized api head.req = true then
    match contentLength head.req with
    | .ok length => length
    | .error _ => 0
  else 0

/-- The arguments of a generation for the path of the request. -/
def routeArgs (api : Api δ F) (req : Request) (body : List (Str × Json)) :
    Option (Except Exc (GenArgs F)) :=
  if req.route = text "/v1/messages" then
    some (genArgs api body (getField body "system" .null) (getField body "max_tokens" (.int 128)))
  else if req.route = text "/v1/messages/count_tokens" then none
  else if req.route = text "/v1/chat/completions" then
    some (genArgs api body .null
      (getField body "max_tokens" (getField body "max_completion_tokens" (.int 128))))
  else none

/-- The body asks for a stream, and everything before its headers is accepted. -/
def bodyStreams (api : Api δ F) (req : Request) (body : List (Str × Json)) : Bool :=
  match routeArgs api req body with
  | some (.ok args) =>
    (getField body "stream" (.bool false)).truthy &&
      isOk (preflight api args.prepared args.maxTokens args.temperature)
  | _ => false

def startsStream (api : Api δ F) (req : Request) (raw : Octets) : Bool :=
  match api.loads raw with
  | .ok (.obj body) => bodyStreams api req body
  | _ => false

/-- The request ends the connection: its head says so, its method is not known, or it starts a
stream. -/
def EndsConnection (api : Api δ F) (head : Head) (stream : Octets) : Prop :=
  head.keepAlive = false ∨
    (head.command ≠ text "GET" ∧ head.command ≠ text "POST" ∧ head.command ≠ text "OPTIONS") ∨
    (head.command = text "POST" ∧ isAuthorized api head.req = true ∧
      ∃ length, contentLength head.req = .ok length ∧
        startsStream api head.req (stream.take length) = true)

/-- The request ends the connection, or the handler reads its body and no more. -/
def Framed (api : Api δ F) (head : Head) (body rest : Octets) : Prop :=
  EndsConnection api head (body ++ rest) ∨ bodyRead api head = body.length ∨
    (rest = [] ∧ body.length ≤ bodyRead api head)

section Reading

/-- The stream and whether the connection is to be closed. -/
def At (stream : Octets) (close : Bool) (c : Conn) : Prop :=
  c.rfile = stream ∧ c.closeConnection = close

variable {stream : Octets} {close : Bool}

theorem writePieces_at (pieces : List Piece) : (writePieces pieces).Preserves (At stream close) := by
  intro c hc
  obtain ⟨rest, ⟨-, hrun⟩ | ⟨e, n, -, hrun⟩⟩ := writePieces_cases pieces c
  all_goals
    rw [hrun]
    exact hc

theorem endHeaders_at : endHeaders.Preserves (At stream close) := by
  intro c hc
  obtain ⟨rest, ⟨-, hrun⟩ | ⟨e, n, -, hrun⟩⟩ := endHeaders_cases c
  all_goals
    rw [hrun]
    exact hc

/-- Headers without `Connection: close` leave the connection as it is. -/
theorem sendHead_at (api : Api δ F) (status : Nat) {headers : List (Str × Str)}
    (h : headers.contains (text "Connection", text "close") = false) :
    (sendHead api status headers).Preserves (At stream close) := by
  rintro c ⟨hstream, hclose⟩
  refine ⟨hstream, ?_⟩
  change (c.closeConnection || headers.contains (text "Connection", text "close")) = close
  rw [h, Bool.or_false, hclose]

theorem sendJson_at (api : Api δ F) (status : Nat) (payload : Json) :
    (sendJson api status payload).Preserves (At stream close) := by
  apply Action.Preserves.bind (liftExc_preserves _ _)
  intro body
  apply Action.Preserves.bind (sendHead_at api status rfl)
  intro _
  apply Action.Preserves.bind endHeaders_at
  intro _
  exact writePieces_at _

theorem authorized_at (api : Api δ F) (req : Request) :
    (authorized api req).Preserves (At stream close) := by
  unfold authorized
  split
  · exact Action.Preserves.pure true _
  · apply Action.Preserves.bind (sendJson_at api 401 _)
    intro _
    exact Action.Preserves.pure false _

theorem doGet_at (api : Api δ F) (req : Request) : (doGet api req).Preserves (At stream close) := by
  apply Action.Preserves.bind (authorized_at api req)
  intro ok
  split
  · split
    · exact sendJson_at api 200 _
    · split
      · exact sendJson_at api 200 _
      · exact sendJson_at api 404 _
  · exact Action.Preserves.pure () _

theorem doOptions_at (api : Api δ F) : (doOptions api).Preserves (At stream close) := by
  apply Action.Preserves.bind (sendHead_at api 204 rfl)
  intro _
  exact endHeaders_at

theorem sendEvent_at (api : Api δ F) (name : Option Str) (doc : Json) :
    (sendEvent api name doc).Preserves (At stream close) := by
  apply Action.Preserves.bind (liftExc_preserves _ _)
  intro payload
  exact writePieces_at _

/-- A stream closes the connection, also when its headers cannot be written. -/
theorem startStream_at (api : Api δ F) :
    (startStream api).Ensures (fun c => c.rfile = stream) fun _ c => At stream true c := by
  have hhead : (sendHead api 200 streamHeaders).Ensures (fun c => c.rfile = stream)
      fun _ c => At stream true c := by
    intro c hc
    exact ⟨hc, Bool.or_true _⟩
  refine Action.Ensures.bind hhead ?_ fun _ _ hc => hc
  intro _
  apply Action.Preserves.bind endHeaders_at
  intro _
  exact fun c hc => ⟨hc.1, rfl⟩

theorem startStream_then_at (api : Api δ F) {events : Handler Unit}
    (h : events.Preserves (At stream true)) :
    (startStream api >>= fun _ => events).Ensures (fun c => c.rfile = stream)
      fun _ c => At stream true c :=
  Action.Ensures.bind (startStream_at api) (fun _ => h) fun _ _ hc => hc

theorem respond_at (api : Api δ F) (replies : List Reply) (body : List (Str × Json))
    (args : GenArgs F) {respondStream : List Reply → List Nat → Int → F → Handler Unit}
    (document : List Nat → GenerationResult → Json)
    (hstream : ∀ replies prepared maxTokens temperature,
      (respondStream replies prepared maxTokens temperature).Ensures (fun c => c.rfile = stream)
        fun _ c => At stream true c) :
    (respond api replies body args respondStream document).Ensures (At stream close)
      fun _ c => At stream (close || ((getField body "stream" (.bool false)).truthy &&
        isOk (preflight api args.prepared args.maxTokens args.temperature))) c := by
  unfold respond
  cases (getField body "stream" (.bool false)).truthy with
  | true =>
    rw [if_pos rfl, Bool.true_and]
    cases preflight api args.prepared args.maxTokens args.temperature with
    | error e =>
      intro c hc
      rw [isOk, Bool.or_false]
      exact hc
    | ok _ =>
      rw [isOk, Bool.or_true]
      exact (hstream replies args.prepared args.maxTokens args.temperature).mono
        (fun c hc => hc.1) fun _ _ hc => hc
  | false =>
    rw [if_neg Bool.false_ne_true, Bool.false_and, Bool.or_false]
    refine Action.Preserves.bind ?_ fun _ => sendJson_at api 200 _
    apply generate_preserves
    intro f hf
    cases hf

/-- The `try` block after the body has been read. -/
theorem routed_at (api : Api δ F) (replies : List Reply) (req : Request)
    (body : List (Str × Json)) :
    (if req.route = text "/v1/messages" then anthropicMessages api replies body
      else if req.route = text "/v1/messages/count_tokens" then anthropicCount api body
      else if req.route = text "/v1/chat/completions" then openaiChat api replies body
      else sendJson api 404 notFoundDoc : Handler Unit).Ensures (At stream close)
        fun _ c => At stream (close || bodyStreams api req body) c := by
  have hargs : ∀ (r : Except Exc (GenArgs F)) {f : GenArgs F → Handler Unit},
      (∀ args, (f args).Ensures (At stream close) fun _ c =>
        At stream (close || ((getField body "stream" (.bool false)).truthy &&
          isOk (preflight api args.prepared args.maxTokens args.temperature))) c) →
      (liftExc r >>= f).Ensures (At stream close) fun _ c =>
        At stream (close || (match some r with
          | some (.ok args) => (getField body "stream" (.bool false)).truthy &&
              isOk (preflight api args.prepared args.maxTokens args.temperature)
          | _ => false)) c := by
    intro r f hf
    cases r with
    | error e =>
      intro c hc
      rw [Bool.or_false]
      exact hc
    | ok args => exact hf args
  unfold bodyStreams routeArgs
  by_cases hmessages : req.route = text "/v1/messages"
  · rw [if_pos hmessages, if_pos hmessages]
    apply hargs
    intro args
    exact respond_at api replies body args _ fun replies prepared maxTokens temperature =>
      anthropicStream_ensures api replies prepared maxTokens temperature (sendEvent_at api)
        fun _ h => startStream_then_at api h
  · rw [if_neg hmessages, if_neg hmessages]
    by_cases hcount : req.route = text "/v1/messages/count_tokens"
    · rw [if_pos hcount, if_pos hcount, Bool.or_false]
      apply Action.Preserves.bind (liftExc_preserves _ _)
      intro _
      apply Action.Preserves.bind (liftExc_preserves _ _)
      intro prepared
      exact sendJson_at api 200 _
    · rw [if_neg hcount, if_neg hcount]
      by_cases hchat : req.route = text "/v1/chat/completions"
      · rw [if_pos hchat, if_pos hchat]
        apply hargs
        intro args
        exact respond_at api replies body args _ fun replies prepared maxTokens temperature =>
          openaiStream_ensures api replies prepared maxTokens temperature (sendEvent_at api)
            (fun _ => writePieces_at _) fun _ h => startStream_then_at api h
      · rw [if_neg hchat, if_neg hchat, Bool.or_false]
        exact sendJson_at api 404 _

/-- `_read_json` takes the declared length off the stream, whatever the body is. -/
theorem readJson_eq (api : Api δ F) (req : Request) {length : Nat} {c : Conn}
    (hlength : contentLength req = .ok length) :
    (∀ fields, api.loads (c.rfile.take length) = .ok (.obj fields) →
        readJson api req c = (.ok fields, { c with rfile := c.rfile.drop length })) ∧
      ((∀ fields, api.loads (c.rfile.take length) ≠ .ok (.obj fields)) →
        ∃ stop, readJson api req c = (.error stop, { c with rfile := c.rfile.drop length })) := by
  have hrun : readJson api req c =
      (liftExc (api.loads (c.rfile.take length)) >>= objectFields)
        { c with rfile := c.rfile.drop length } := by
    unfold readJson
    rw [hlength]
    rfl
  rw [hrun]
  cases api.loads (c.rfile.take length) with
  | error e =>
    constructor
    · intro fields h
      cases h
    · intro _
      exact ⟨_, rfl⟩
  | ok data =>
    cases data with
    | obj body =>
      constructor
      · intro fields h
        cases h
        rfl
      · intro h
        exact absurd rfl (h body)
    | _ =>
      constructor
      · intro fields h
        cases h
      · intro _
        exact ⟨_, rfl⟩

theorem startsStream_of_ne {api : Api δ F} {req : Request} {raw : Octets}
    (h : ∀ fields, api.loads raw ≠ .ok (.obj fields)) : startsStream api req raw = false := by
  unfold startsStream
  split
  · next body hbody => exact absurd hbody (h body)
  · rfl

/-- The `try` block reads the declared length, and closes the connection if it starts a stream. -/
theorem postBody_at (api : Api δ F) (replies : List Reply) (req : Request) {length : Nat}
    (hlength : contentLength req = .ok length) :
    (postBody api replies req).Ensures (At stream close) fun _ c =>
      At (stream.drop length) (close || startsStream api req (stream.take length)) c := by
  rintro c ⟨hstream, hclose⟩
  obtain ⟨hobj, hother⟩ := readJson_eq api req (c := c) hlength
  rw [hstream] at hobj hother
  by_cases h : ∀ fields, api.loads (stream.take length) ≠ .ok (.obj fields)
  · obtain ⟨stop, hread⟩ := hother h
    rw [startsStream_of_ne h, Bool.or_false, postBody, Action.bind_error hread]
    exact ⟨rfl, hclose⟩
  · simp only [not_forall, not_not] at h
    obtain ⟨body, hbody⟩ := h
    have hstarts : startsStream api req (stream.take length) = bodyStreams api req body := by
      unfold startsStream
      rw [hbody]
    rw [hstarts, postBody, Action.bind_ok (hobj body hbody)]
    exact routed_at api replies req body _ ⟨rfl, hclose⟩

theorem postBody_of_error (api : Api δ F) (replies : List Reply) (req : Request) {e : Exc}
    (hlength : contentLength req = .error e) :
    (postBody api replies req).Preserves (At stream close) := by
  intro c hc
  have hread : readJson api req c = (.error (.exc e), c) := by
    unfold readJson
    rw [hlength]
    rfl
  rw [postBody, Action.bind_error hread]
  exact hc

theorem answerExc_at (api : Api δ F) (stop : Stop) :
    (answerExc api stop).Preserves (At stream close) := by
  have hsafe : ∀ status kind message,
      (safeError api status kind message).Preserves (At stream close) := by
    intro status kind message
    apply Action.Preserves.rescue (sendJson_at api _ _)
    intro stop
    cases stop with
    | exc e =>
      simp only
      split
      · exact Action.Preserves.pure () _
      · exact Action.Preserves.raise _ _
    | waiting => exact Action.Preserves.raise _ _
  cases stop with
  | waiting => exact Action.Preserves.raise _ _
  | exc e =>
    obtain ⟨kind, message⟩ := e
    cases kind with
    | brokenPipe => exact Action.Preserves.pure () _
    | connectionReset => exact Action.Preserves.pure () _
    | base => exact Action.Preserves.raise _ _
    | value => exact hsafe _ _ _
    | fileNotFound => exact hsafe _ _ _
    | key => exact hsafe _ _ _
    | exception => exact hsafe _ _ _

end Reading

/-! ### One request -/

section Requests

variable {R : HeadReader} {api : Api δ F} {sent : List (Sent R)}

/-- A request that neither reads nor streams leaves the connection as its head has it. -/
theorem at_of_unread {head : Head} {stream : Octets} {c : Conn}
    (hat : At stream (head.keepAlive = false) c) (hread : bodyRead api head = 0)
    (hmethod : head.command = text "GET" ∨ head.command = text "POST" ∨
      head.command = text "OPTIONS")
    (hstream : head.command = text "POST" → isAuthorized api head.req = true →
      ∀ length, contentLength head.req = .ok length →
        startsStream api head.req (stream.take length) = false) :
    c.rfile = stream.drop (bodyRead api head) ∧
      (c.closeConnection = true ↔ EndsConnection api head stream) := by
  rw [hread, hat.2, decide_eq_true_iff]
  refine ⟨hat.1, ?_⟩
  constructor
  · exact Or.inl
  · rintro (hclose | ⟨hget, hpost, hoptions⟩ | ⟨hpost, hauth, length, hlength, hstarts⟩)
    · exact hclose
    · rcases hmethod with h | h | h
      · exact absurd h hget
      · exact absurd h hpost
      · exact absurd h hoptions
    · rw [hstream hpost hauth length hlength] at hstarts
      cases hstarts

theorem bodyRead_of_ne {head : Head} (h : head.command ≠ text "POST") : bodyRead api head = 0 := by
  unfold bodyRead
  rw [if_neg fun hpost => h hpost.1]

theorem doPost_unauthorized_at {req : Request} {stream : Octets} {close : Bool}
    (replies : List Reply) (hauth : isAuthorized api req = false) :
    (doPost api replies req).Preserves (At stream close) := by
  have hok : (authorized api req).Ensures (At stream close) fun r c =>
      At stream close c ∧ r ≠ .ok true := by
    unfold authorized
    rw [if_neg (by rw [hauth]; exact Bool.false_ne_true)]
    refine Action.Ensures.bind (sendJson_at api 401 _) ?_ ?_
    · intro _ c hc
      refine ⟨hc, ?_⟩
      intro h
      cases h
    · intro e c hc
      refine ⟨hc, ?_⟩
      intro h
      cases h
  refine Action.Ensures.bind hok ?_ fun _ _ hc => hc.1
  rintro (_ | _) c ⟨hc, hne⟩
  · exact hc
  · exact absurd rfl hne

theorem doPost_authorized {req : Request} (replies : List Reply)
    (hauth : isAuthorized api req = true) :
    doPost api replies req = (postBody api replies req).rescue (answerExc api) := by
  unfold doPost authorized
  rw [if_pos hauth]
  rfl

theorem rescue_at (api : Api δ F) {m : Handler Unit} {P : Conn → Prop} {stream : Octets} {close : Bool}
    (hm : m.Ensures P fun _ c => At stream close c) :
    (m.rescue (answerExc api)).Ensures P fun _ c => At stream close c := by
  intro c hc
  have hafter := hm c hc
  rcases hrun : m c with ⟨r, c'⟩
  rw [hrun] at hafter
  cases r with
  | ok _ =>
    rw [Action.rescue_ok hrun]
    exact hafter
  | error stop =>
    rw [Action.rescue_error hrun]
    exact answerExc_at api stop c' hafter

/-- What the stream is after a request, and whether the connection is to be closed. -/
theorem handleHead_at (api : Api δ F) (replies : List Reply) (head : Head) (stream : Octets) :
    (handleHead api replies head).Ensures (At stream (head.keepAlive = false)) fun _ c =>
      c.rfile = stream.drop (bodyRead api head) ∧
        (c.closeConnection = true ↔ EndsConnection api head stream) := by
  intro c hc
  unfold handleHead
  by_cases hget : head.command = text "GET"
  · rw [if_pos hget]
    have hpost : head.command ≠ text "POST" := by
      rw [hget]
      decide
    exact at_of_unread (doGet_at api head.req c hc) (bodyRead_of_ne hpost) (Or.inl hget)
      fun h => absurd h hpost
  · rw [if_neg hget]
    by_cases hpost : head.command = text "POST"
    · rw [if_pos hpost]
      cases hauth : isAuthorized api head.req with
      | false =>
        have hread : bodyRead api head = 0 := by
          unfold bodyRead
          rw [if_neg]
          rintro ⟨-, h⟩
          rw [hauth] at h
          cases h
        refine at_of_unread (doPost_unauthorized_at replies hauth c hc) hread
          (Or.inr (Or.inl hpost)) ?_
        intro _ h
        rw [hauth] at h
        cases h
      | true =>
        rw [doPost_authorized replies hauth]
        cases hlength : contentLength head.req with
        | error e =>
          have hread : bodyRead api head = 0 := by
            unfold bodyRead
            rw [if_pos ⟨hpost, hauth⟩, hlength]
          have hat := rescue_at api (postBody_of_error api replies head.req hlength) c hc
          refine at_of_unread hat hread (Or.inr (Or.inl hpost)) ?_
          intro _ _ length h
          rw [hlength] at h
          cases h
        | ok length =>
          have hread : bodyRead api head = length := by
            unfold bodyRead
            rw [if_pos ⟨hpost, hauth⟩, hlength]
          have hat := rescue_at api (postBody_at api replies head.req hlength) c hc
          rw [hread, hat.2]
          refine ⟨hat.1, ?_⟩
          rw [Bool.or_eq_true, decide_eq_true_iff]
          constructor
          · rintro (hclose | hstarts)
            · exact Or.inl hclose
            · exact Or.inr (Or.inr ⟨hpost, hauth, length, hlength, hstarts⟩)
          · rintro (hclose | ⟨-, hne, -⟩ | ⟨-, -, length', hlength', hstarts⟩)
            · exact Or.inl hclose
            · exact absurd hpost hne
            · rw [hlength, Except.ok.injEq] at hlength'
              rw [hlength']
              exact Or.inr hstarts
    · rw [if_neg hpost]
      by_cases hoptions : head.command = text "OPTIONS"
      · rw [if_pos hoptions]
        exact at_of_unread (doOptions_at api c hc) (bodyRead_of_ne hpost)
          (Or.inr (Or.inr hoptions)) fun h => absurd h hpost
      · rw [if_neg hoptions, bodyRead_of_ne hpost]
        exact ⟨hc.1, iff_of_true rfl (Or.inr (Or.inl ⟨hget, hpost, hoptions⟩))⟩

/-- One request, sent with its body and followed by the rest of the stream. -/
theorem step_sent {s u : Session} {replies : List Reply} (r : Sent R) (rest : Octets)
    (hopen : s.isOpen = true) (hstream : s.conn.rfile = r.raw ++ (r.body ++ rest))
    (hstep : s.step R api replies = some u) :
    u.handled = s.handled ++ [r.head] ∧
      (u.isOpen = true → u.conn.rfile = (r.body ++ rest).drop (bodyRead api r.head) ∧
        ¬ EndsConnection api r.head (r.body ++ rest)) := by
  unfold Session.step at hstep
  rw [if_pos hopen, hstream, r.reads] at hstep
  simp only [Option.some.injEq] at hstep
  have hat := handleHead_at api replies r.head (r.body ++ rest)
    { s.conn with rfile := r.body ++ rest, closeConnection := r.head.keepAlive = false } ⟨rfl, rfl⟩
  rw [← hstep]
  refine ⟨rfl, ?_⟩
  intro hok
  obtain ⟨-, hclose⟩ := Bool.and_eq_true_iff.mp hok
  refine ⟨hat.1, ?_⟩
  intro hends
  rw [hat.2.mpr hends] at hclose
  cases hclose

/-- After a request that is answered on an open connection, the next head is read where the next
request begins, exactly if the body was framed. -/
theorem step_framed_iff {s u : Session} {replies : List Reply} (r : Sent R) (rest : Octets)
    (hopen : s.isOpen = true) (hstream : s.conn.rfile = r.raw ++ (r.body ++ rest))
    (hstep : s.step R api replies = some u) (hopen' : u.isOpen = true) :
    u.conn.rfile = rest ↔ Framed api r.head r.body rest := by
  obtain ⟨hrfile, hends⟩ := (step_sent r rest hopen hstream hstep).2 hopen'
  rw [hrfile]
  constructor
  · intro h
    have hlen := congrArg List.length h
    rw [List.length_drop, List.length_append] at hlen
    by_cases hrest : rest = []
    · rw [hrest, List.length_nil] at hlen
      exact Or.inr (Or.inr ⟨hrest, by omega⟩)
    · have hpos := List.length_pos_iff.mpr hrest
      exact Or.inr (Or.inl (by omega))
  · rintro (h | h | ⟨hrest, hle⟩)
    · exact absurd h hends
    · rw [h, List.drop_left]
    · rw [hrest, List.append_nil]
      exact List.drop_of_length_le hle

/-! ### A whole connection -/

/-- The request that is handled next is framed. -/
def NextFramed (api : Api δ F) (sent : List (Sent R)) (s : Session) (_ : List Reply) : Prop :=
  ∀ r rest, sent.drop s.handled.length = r :: rest → Framed api r.head r.body (wireOf rest)

theorem inFrame_start (sent : List (Sent R)) (writes : List WriteReply) :
    InFrame sent (startSession sent writes) := ⟨rfl, fun _ => rfl⟩

theorem InFrame.step {s u : Session} {replies : List Reply} (hs : InFrame sent s)
    (hframed : NextFramed api sent s replies) (hstep : s.step R api replies = some u) :
    InFrame sent u := by
  cases hopen : s.isOpen with
  | false =>
    unfold Session.step at hstep
    rw [hopen] at hstep
    cases hstep
  | true =>
    have hstream := hs.stream hopen
    cases hdrop : sent.drop s.handled.length with
    | nil =>
      rw [hdrop] at hstream
      unfold Session.step at hstep
      rw [if_pos hopen, hstream, show wireOf ([] : List (Sent R)) = [] from rfl, R.read_nil] at hstep
      cases hstep
      refine ⟨hs.handled, ?_⟩
      intro h
      cases h
    | cons r rest =>
      have hwire : s.conn.rfile = r.raw ++ (r.body ++ wireOf rest) := by
        rw [hstream, hdrop, wireOf, List.flatMap_cons, List.append_assoc]
        rfl
      have hhandled := (step_sent r (wireOf rest) hopen hwire hstep).1
      have hlen : u.handled.length = s.handled.length + 1 := by
        rw [hhandled, List.length_append, List.length_singleton]
      have hget : sent[s.handled.length]? = some r := by
        rw [← List.head?_drop, hdrop]
        rfl
      constructor
      · rw [hlen, List.take_add_one, List.getElem?_map, hget, ← hs.handled, hhandled]
        rfl
      · intro hopen'
        rw [hlen, ← List.drop_drop, hdrop]
        exact (step_framed_iff r (wireOf rest) hopen hwire hstep hopen').mpr (hframed r rest hdrop)

/-- A connection stays in frame as long as its requests are framed, and no longer. -/
theorem session_inFrame (R : HeadReader) (api : Api δ F) (sent : List (Sent R))
    (writes : List WriteReply) :
    (∀ s, Reach (Session.step R api) (NextFramed api sent) (startSession sent writes) s →
        InFrame sent s) ∧
      ∀ s u replies r rest,
        Reach (Session.step R api) (NextFramed api sent) (startSession sent writes) s →
        s.isOpen = true → sent.drop s.handled.length = r :: rest →
        s.step R api replies = some u → u.isOpen = true →
        (InFrame sent u ↔ Framed api r.head r.body (wireOf rest)) := by
  have hrun : ∀ s, Reach (Session.step R api) (NextFramed api sent) (startSession sent writes) s →
      InFrame sent s := fun s h =>
    h.invariant (fun _ _ _ hs hframed hstep => hs.step hframed hstep) (inFrame_start sent writes)
  refine ⟨hrun, ?_⟩
  intro s u replies r rest hreach hopen hdrop hstep hopen'
  have hs := hrun s hreach
  have hwire : s.conn.rfile = r.raw ++ (r.body ++ wireOf rest) := by
    rw [hs.stream hopen, hdrop, wireOf, List.flatMap_cons, List.append_assoc]
    rfl
  constructor
  · intro hu
    have hlen : u.handled.length = s.handled.length + 1 := by
      rw [(step_sent r (wireOf rest) hopen hwire hstep).1, List.length_append,
        List.length_singleton]
    have hrfile := hu.stream hopen'
    rw [hlen, ← List.drop_drop, hdrop] at hrfile
    exact (step_framed_iff r (wireOf rest) hopen hwire hstep hopen').mp hrfile
  · intro hframed
    refine hs.step ?_ hstep
    intro r' rest' hdrop'
    rw [hdrop, List.cons.injEq] at hdrop'
    rw [← hdrop'.1, ← hdrop'.2]
    exact hframed

end Requests

/-! ### A body that is taken for a request -/

/-- The bytes up to the empty line, and what follows it. -/
def cutHead : Octets → Option (Octets × Octets)
  | [] => none
  | 13 :: 10 :: 13 :: 10 :: rest => some ([], rest)
  | b :: rest => (cutHead rest).map fun cut => (b :: cut.1, cut.2)

/-- The lines of a head, without their ends. -/
def headLines : Octets → List Str
  | [] => [[]]
  | 13 :: 10 :: rest => [] :: headLines rest
  | b :: rest =>
    match headLines rest with
    | [] => [[b.toNat]]
    | line :: lines => (b.toNat :: line) :: lines

def headerOf (line : Str) : Str × Str :=
  (line.takeWhile (· ≠ 58), strip ((line.dropWhile (· ≠ 58)).drop 1))

/-- A well-formed HTTP/1.1 head. -/
def parseHead (lines : List Str) : Option Head :=
  match lines with
  | [] => none
  | requestLine :: headerLines =>
    match split requestLine with
    | [command, path, version] =>
      let req : Request := ⟨path, headerLines.map headerOf⟩
      some ⟨command, version = text "HTTP/1.1" ∧ req.header "connection" ≠ some (text "close"), req⟩
    | _ => none

def plainReader : HeadReader where
  read stream :=
    match cutHead stream with
    | none => none
    | some (head, rest) => (parseHead (headLines head)).map fun head => (head, rest)
  read_nil := rfl

def keyedApi : Api Unit Unit := { plainApi with apiKey := some (text "local-kimi") }

def healthBytes : Octets := ascii (text "GET /healthz HTTP/1.1\r\n\r\n")

def healthSent : Sent plainReader where
  raw := healthBytes
  head := ⟨text "GET", true, ⟨text "/healthz", []⟩⟩
  body := []
  reads _ := rfl

/-- A request without the key, whose body reads like a request. -/
def smuggler : Sent plainReader where
  raw := ascii (text "POST /v1/messages HTTP/1.1\r\nContent-Length: 25\r\n\r\n")
  head := ⟨text "POST", true, ⟨text "/v1/messages", [(text "Content-Length", text "25")]⟩⟩
  body := healthBytes
  reads _ := rfl

theorem session_inFrame_health :
    ∃ s, Session.step plainReader plainApi (startSession [healthSent] []) [] = some s ∧
      InFrame [healthSent] s := by
  refine ⟨_, rfl, ?_⟩
  apply (session_inFrame plainReader plainApi [healthSent] []).1
  refine .tail (.refl _) ?_ rfl
  intro r rest h
  cases h
  exact Or.inr (Or.inl rfl)

theorem not_inFrame_of_smuggler :
    ¬ ∀ s, Reach (Session.step plainReader keyedApi) anyStep (startSession [smuggler] []) s →
      InFrame [smuggler] s := by
  intro h
  have hrun : (follow (Session.step plainReader keyedApi) (startSession [smuggler] [])
      [[], []]).map (fun s => s.handled.length) = some 2 := by
    decide +kernel
  obtain ⟨s, hs, hlen⟩ := Option.map_eq_some_iff.mp hrun
  have hhandled := congrArg List.length (h s (reach_of_follow (fun _ _ _ => trivial) hs)).handled
  rw [List.length_take, hlen] at hhandled
  exact absurd hhandled (by decide)

end Kvl
