import Kvl.Api.Handler

/-!
# One response for a request

What a request writes is followed from a connection on which nothing was written
yet. Whatever `do_POST` does in its `try` block is one response; the error answer of
its `except` clauses is the only thing that can add a second one.
-/

namespace Kvl

set_option autoImplicit false

open PyText

/-! ### Responses on the wire -/

inductive BodyKind
  | json
  | events
  deriving DecidableEq, Repr

/-- The kind of body that the headers of a response announce. -/
def announced (headers : List (Str × Str)) : Option BodyKind :=
  match headers.find? fun h => h.1 = text "Content-Type" with
  | none => none
  | some h =>
    if (text "text/event-stream").isPrefixOf h.2 then some .events
    else if (text "application/json").isPrefixOf h.2 then some .json
    else none

def Content.isEvent : Content → Bool
  | .event .. | .done => true
  | _ => false

/-- A body of the announced kind, or as much of it as was written. -/
def BodyFits (headers : List (Str × Str)) (body : List Piece) : Prop :=
  match announced headers with
  | some .events => ∀ p ∈ body, p.content.isEvent = true
  | some .json => body = [] ∨ ∃ p doc, body = [p] ∧ p.content = .json doc
  | none => body = []

/-- At most one status line with its headers, and after it a body of the kind they announce. -/
def OneResponse (wire : List Piece) : Prop :=
  wire = [] ∨ ∃ p body status headers, wire = p :: body ∧ p.content = .head status headers ∧
    BodyFits headers body

/-- Nothing was written for the request yet. -/
def Fresh (c : Conn) : Prop := c.wire = [] ∧ c.headersBuffer = []

/-- The headers of an event stream were written. -/
def Streaming (c : Conn) : Prop :=
  c.headersBuffer = [] ∧ ∃ p body status headers, c.wire = p :: body ∧
    p.content = .head status headers ∧ announced headers = some .events ∧
    ∀ q ∈ body, q.content.isEvent = true

/-- The headers could not be written as a whole, and are still in the buffer. -/
def Stuck (c : Conn) : Prop :=
  ∃ p status headers, c.headersBuffer = [p] ∧ p.content = .head status headers ∧
    (c.wire = [] ∨ ∃ q, c.wire = [q] ∧ q.content = p.content)

/-- Where a request that writes one response at most can be. -/
def Stage (c : Conn) : Prop :=
  Fresh c ∨ Stuck c ∨ (c.headersBuffer = [] ∧ c.wire ≠ [] ∧ OneResponse c.wire)

section Pieces

theorem cutPieces_zero (ps : List Piece) : cutPieces 0 ps = [] := by
  cases ps <;> rfl

theorem mem_cutPieces {n : Nat} {ps : List Piece} {q : Piece} (h : q ∈ cutPieces n ps) :
    ∃ p ∈ ps, q.content = p.content := by
  induction ps generalizing n with
  | nil => cases h
  | cons p ps ih =>
    rw [cutPieces] at h
    split at h
    · cases h
    · split at h
      · rw [List.mem_singleton.mp h]
        exact ⟨p, List.mem_cons_self, rfl⟩
      · rcases List.mem_cons.mp h with rfl | h
        · exact ⟨q, List.mem_cons_self, rfl⟩
        · obtain ⟨p', hp', hq⟩ := ih h
          exact ⟨p', List.mem_cons_of_mem p hp', hq⟩

/-- A cut that sends something sends a part of the first piece. -/
theorem cutPieces_cons {n : Nat} (hn : n ≠ 0) (p : Piece) (ps : List Piece) :
    ∃ q, q.content = p.content ∧
      cutPieces n (p :: ps) = q :: (if n < p.bytes.length then [] else
        cutPieces (n - p.bytes.length) ps) := by
  rw [cutPieces, if_neg hn]
  by_cases hlt : n < p.bytes.length
  · rw [if_pos hlt, if_pos hlt]
    exact ⟨{ p with bytes := p.bytes.take n }, rfl, rfl⟩
  · rw [if_neg hlt, if_neg hlt]
    exact ⟨p, rfl, rfl⟩

theorem cutPieces_singleton (n : Nat) (p : Piece) :
    cutPieces n [p] = [] ∨ ∃ q, cutPieces n [p] = [q] ∧ q.content = p.content := by
  by_cases hn : n = 0
  · rw [hn]
    exact Or.inl (cutPieces_zero _)
  · obtain ⟨q, hq, hcut⟩ := cutPieces_cons hn p []
    right
    refine ⟨q, ?_, hq⟩
    rw [hcut]
    split <;> rfl

end Pieces

section Stages

variable {c : Conn}

theorem bodyFits_nil (headers : List (Str × Str)) : BodyFits headers [] := by
  unfold BodyFits
  rcases announced headers with _ | _ | _
  · rfl
  · exact Or.inl rfl
  · intro p hp
    cases hp

theorem Streaming.stage (h : Streaming c) : Stage c := by
  obtain ⟨hbuffer, p, body, status, headers, hwire, hhead, hkind, hbody⟩ := h
  refine Or.inr (Or.inr ⟨hbuffer, by rw [hwire]; exact List.cons_ne_nil _ _, ?_⟩)
  refine Or.inr ⟨p, body, status, headers, hwire, hhead, ?_⟩
  unfold BodyFits
  rw [hkind]
  exact hbody

theorem Fresh.oneResponse (h : Fresh c) : OneResponse c.wire := Or.inl h.1

theorem Stage.oneResponse (h : Stage c) : OneResponse c.wire := by
  rcases h with h | ⟨p, status, headers, -, hhead, hwire | ⟨q, hwire, hq⟩⟩ | ⟨-, -, h⟩
  · exact h.oneResponse
  · exact Or.inl hwire
  · exact Or.inr ⟨q, [], status, headers, hwire, hq.trans hhead, bodyFits_nil headers⟩
  · exact h

end Stages

section Writing

variable {δ F : Type}

theorem announced_jsonHeaders (length : Nat) : announced (jsonHeaders length) = some .json := rfl

theorem announced_streamHeaders : announced streamHeaders = some .events := rfl

/-- The next write raises an error after so many bytes. -/
def NextRaises (c : Conn) (e : Exc) (n : Nat) : Prop := c.writes.head? = some (.raised e n)

theorem writePieces_cases (pieces : List Piece) (c : Conn) :
    ∃ rest, ((∀ e n, ¬ NextRaises c e n) ∧
        writePieces pieces c = (.ok (), { c with wire := c.wire ++ pieces, writes := rest })) ∨
      ∃ e n, NextRaises c e n ∧ writePieces pieces c =
        (.error (.exc e), { c with wire := c.wire ++ cutPieces n pieces, writes := rest }) := by
  unfold writePieces NextRaises
  cases hw : c.writes with
  | nil =>
    refine ⟨[], Or.inl ⟨?_, rfl⟩⟩
    intro e n h
    cases h
  | cons r rest =>
    cases r with
    | ok =>
      refine ⟨rest, Or.inl ⟨?_, rfl⟩⟩
      intro e n h
      cases h
    | raised e n => exact ⟨rest, Or.inr ⟨e, n, rfl, rfl⟩⟩

/-- `end_headers` writes the buffer; it is empty afterwards only if the write succeeded. -/
theorem endHeaders_cases (c : Conn) :
    ∃ rest, ((∀ e n, ¬ NextRaises c e n) ∧ endHeaders c = (.ok (),
        { c with wire := c.wire ++ c.headersBuffer, headersBuffer := [], writes := rest })) ∨
      ∃ e n, NextRaises c e n ∧ endHeaders c =
        (.error (.exc e), { c with wire := c.wire ++ cutPieces n c.headersBuffer, writes := rest }) := by
  obtain ⟨rest, ⟨hno, hok⟩ | ⟨e, n, hw, hraised⟩⟩ := writePieces_cases c.headersBuffer c
  · refine ⟨rest, Or.inl ⟨hno, ?_⟩⟩
    change (writePieces c.headersBuffer >>= _) c = _
    rw [Action.bind_ok hok]
    rfl
  · refine ⟨rest, Or.inr ⟨e, n, hw, ?_⟩⟩
    change (writePieces c.headersBuffer >>= _) c = _
    rw [Action.bind_error hraised]

def headPiece (api : Api δ F) (status : Nat) (headers : List (Str × Str)) : Piece :=
  ⟨.head status headers, headBytes api status headers⟩

/-- How `_json` can end: without a body, in the headers, or with them written. -/
inductive SendsJson (api : Api δ F) (status : Nat) (payload : Json) (c c' : Conn) : Prop
  | unwritten (e) : api.dumps payload = .error e → c' = c → SendsJson api status payload c c'
  | stuck (body e n) : api.dumps payload = .ok body → NextRaises c e n →
    c'.headersBuffer = c.headersBuffer ++ [headPiece api status (jsonHeaders body.length)] →
    c'.wire = c.wire ++
      cutPieces n (c.headersBuffer ++ [headPiece api status (jsonHeaders body.length)]) →
    SendsJson api status payload c c'
  | sent (body tail) : api.dumps payload = .ok body → (∀ e n, ¬ NextRaises c e n) →
    c'.headersBuffer = [] →
    c'.wire = c.wire ++ c.headersBuffer ++
      [headPiece api status (jsonHeaders body.length)] ++ tail →
    (tail = [] ∨ ∃ q, tail = [q] ∧ q.content = .json payload) → SendsJson api status payload c c'

theorem sendJson_cases (api : Api δ F) (status : Nat) (payload : Json) (c : Conn) :
    SendsJson api status payload c (sendJson api status payload c).2 := by
  cases hdumps : api.dumps payload with
  | error e =>
    apply SendsJson.unwritten e hdumps
    unfold sendJson
    rw [hdumps]
    rfl
  | ok body =>
    let head := headPiece api status (jsonHeaders body.length)
    let c₁ : Conn :=
      { c with
        headersBuffer := c.headersBuffer ++ [head]
        closeConnection := c.closeConnection ||
          (jsonHeaders body.length).contains (text "Connection", text "close") }
    have hrun : sendJson api status payload c =
        (endHeaders >>= fun _ => writePieces [⟨.json payload, body⟩]) c₁ := by
      unfold sendJson
      rw [hdumps]
      rfl
    rw [hrun]
    obtain ⟨rest, ⟨hno, hok⟩ | ⟨e, n, hw, hraised⟩⟩ := endHeaders_cases c₁
    · rw [Action.bind_ok hok]
      obtain ⟨rest', ⟨-, hbody⟩ | ⟨e, n, -, hbody⟩⟩ := writePieces_cases [⟨.json payload, body⟩]
        { c₁ with wire := c₁.wire ++ c₁.headersBuffer, headersBuffer := [], writes := rest }
      · rw [hbody]
        refine .sent body [⟨.json payload, body⟩] hdumps hno rfl ?_ (Or.inr ⟨_, rfl, rfl⟩)
        simp only [c₁, head, List.append_assoc]
      · rw [hbody]
        refine .sent body (cutPieces n [⟨.json payload, body⟩]) hdumps hno rfl ?_
          (cutPieces_singleton n _)
        simp only [c₁, head, List.append_assoc]
    · rw [Action.bind_error hraised]
      exact .stuck body e n hdumps hw rfl rfl

/-- From a fresh connection `_json` writes one response at most. -/
theorem sendJson_stage (api : Api δ F) (status : Nat) (payload : Json) :
    (sendJson api status payload).Ensures Fresh fun _ c => Stage c := by
  rintro c ⟨hwire, hbuffer⟩
  cases sendJson_cases api status payload c with
  | unwritten e hdumps hc =>
    rw [hc]
    exact Or.inl ⟨hwire, hbuffer⟩
  | stuck body e n hdumps hw hb hout =>
    rw [hbuffer, List.nil_append] at hb
    rw [hwire, hbuffer, List.nil_append, List.nil_append] at hout
    refine Or.inr (Or.inl ⟨_, _, _, hb, rfl, ?_⟩)
    rw [hout]
    exact cutPieces_singleton n _
  | sent body tail hdumps hno hb hout htail =>
    rw [hwire, hbuffer, List.nil_append, List.nil_append, List.singleton_append] at hout
    refine Or.inr (Or.inr ⟨hb, by rw [hout]; exact List.cons_ne_nil _ _, ?_⟩)
    refine Or.inr ⟨_, tail, _, _, hout, rfl, ?_⟩
    unfold BodyFits
    rw [announced_jsonHeaders]
    exact htail.imp id fun ⟨q, hq, hcontent⟩ => ⟨q, payload, hq, hcontent⟩

/-! ### Streams -/

theorem startStream_stage (api : Api δ F) :
    (startStream api).Ensures Fresh fun r c => Stage c ∧ (r = .ok () → Streaming c) := by
  rintro c ⟨hwire, hbuffer⟩
  let head := headPiece api 200 streamHeaders
  let c₁ : Conn :=
    { c with
      headersBuffer := c.headersBuffer ++ [head]
      closeConnection := c.closeConnection ||
        streamHeaders.contains (text "Connection", text "close") }
  have hrun : startStream api c =
      (endHeaders >>= fun _ => Action.modify fun c => { c with closeConnection := true }) c₁ := rfl
  have hbuffer₁ : c₁.headersBuffer = [head] := by
    simp only [c₁, hbuffer, List.nil_append]
  have hwire₁ : c₁.wire = [] := hwire
  rw [hrun]
  obtain ⟨rest, ⟨-, hok⟩ | ⟨e, n, -, hraised⟩⟩ := endHeaders_cases c₁
  · rw [Action.bind_ok hok]
    have hstream : Streaming { c₁ with
        wire := c₁.wire ++ c₁.headersBuffer, headersBuffer := [], writes := rest,
        closeConnection := true } := by
      refine ⟨rfl, head, [], 200, streamHeaders, ?_, rfl, announced_streamHeaders, ?_⟩
      · simp only [hwire₁, hbuffer₁, List.nil_append]
      · intro q hq
        cases hq
    exact ⟨hstream.stage, fun _ => hstream⟩
  · rw [Action.bind_error hraised]
    constructor
    · refine Or.inr (Or.inl ⟨head, 200, streamHeaders, hbuffer₁, rfl, ?_⟩)
      simp only [hwire₁, hbuffer₁, List.nil_append]
      exact cutPieces_singleton n head
    · intro h
      cases h

theorem writePieces_streaming {pieces : List Piece}
    (hevents : ∀ p ∈ pieces, p.content.isEvent = true) :
    (writePieces pieces).Preserves Streaming := by
  rintro c ⟨hbuffer, p, body, status, headers, hwire, hhead, hkind, hbody⟩
  have hadd : ∀ (ps : List Piece) (rest : List WriteReply),
      (∀ q ∈ ps, q.content.isEvent = true) →
        Streaming { c with wire := c.wire ++ ps, writes := rest } := by
    intro ps rest hps
    refine ⟨hbuffer, p, body ++ ps, status, headers, ?_, hhead, hkind, ?_⟩
    · rw [hwire, List.cons_append]
    · intro q hq
      rcases List.mem_append.mp hq with hq | hq
      · exact hbody q hq
      · exact hps q hq
  obtain ⟨rest, ⟨-, hok⟩ | ⟨e, n, -, hraised⟩⟩ := writePieces_cases pieces c
  · rw [hok]
    exact hadd pieces rest hevents
  · rw [hraised]
    apply hadd
    intro q hq
    obtain ⟨p', hp', hcontent⟩ := mem_cutPieces hq
    rw [hcontent]
    exact hevents p' hp'

theorem liftExc_preserves {α : Type} (r : Except Exc α) (P : Conn → Prop) :
    (liftExc r).Preserves P := Action.Preserves.lift _ P

theorem sendEvent_streaming (api : Api δ F) (name : Option Str) (doc : Json) :
    (sendEvent api name doc).Preserves Streaming := by
  apply Action.Preserves.bind (liftExc_preserves _ _)
  intro payload
  apply writePieces_streaming
  intro p hp
  rw [List.mem_singleton.mp hp]
  rfl

section Generation

variable {P : Conn → Prop} {onDelta : Str → Handler Unit}

theorem attempt_preserves {m : Handler Unit} (h : m.Preserves P) : (attempt m).Preserves P := by
  intro c hc
  have hm := h c hc
  unfold attempt
  rcases hrun : m c with ⟨(e | e) | a, c'⟩
  all_goals
    rw [hrun] at hm
    exact hm

theorem passDelta_preserves (api : Api δ F) (h : ∀ delta, (onDelta delta).Preserves P)
    (call : GenCall δ) : (passDelta api onDelta call).Preserves P := by
  have hpass : ∀ delta, (attempt (onDelta delta) >>= afterDelta api call).Preserves P := by
    intro delta
    apply Action.Preserves.bind (attempt_preserves (h delta))
    intro reply
    unfold afterDelta
    cases call.resume api.codec reply with
    | none => exact Action.Preserves.raise _ P
    | some next => exact Action.Preserves.pure next.1 P
  unfold passDelta
  split
  · exact hpass _
  · exact hpass _
  · exact Action.Preserves.pure call P

/-- What every call of `on_delta` keeps, the generation keeps. -/
theorem followCall_preserves (api : Api δ F) (h : ∀ delta, (onDelta delta).Preserves P)
    (replies : List Reply) (call : GenCall δ) :
    (followCall api onDelta replies call).Preserves P := by
  induction replies generalizing call with
  | nil =>
    unfold followCall
    split
    · exact liftExc_preserves _ P
    · exact Action.Preserves.raise _ P
  | cons r rest ih =>
    unfold followCall
    split
    · exact liftExc_preserves _ P
    · simp only
      cases call.resume api.codec r with
      | none => exact Action.Preserves.raise _ P
      | some next => exact Action.Preserves.bind (passDelta_preserves api h next.1) ih

theorem generate_preserves (api : Api δ F) (replies : List Reply) (prepared : List Nat)
    (maxTokens : Int) (temperature : F) {onDelta : Option (Str → Handler Unit)}
    (h : ∀ f ∈ onDelta, ∀ delta, (f delta).Preserves P) :
    (generate api replies prepared maxTokens temperature onDelta).Preserves P := by
  apply Action.Preserves.bind (liftExc_preserves _ P)
  intro call
  apply followCall_preserves
  intro delta
  cases onDelta with
  | none => exact Action.Preserves.pure () P
  | some f => exact h f rfl delta

end Generation

/-- A stream is its headers and, if they could be written, events. -/
theorem startStream_then (api : Api δ F) {events : Handler Unit}
    (h : events.Preserves Streaming) :
    (startStream api >>= fun _ => events).Ensures Fresh fun _ c => Stage c := by
  refine Action.Ensures.bind (startStream_stage api) ?_ ?_
  · intro _
    exact h.mono (fun c hc => hc.2 rfl) fun _ c hc => hc.stage
  · intro e c hc
    exact hc.1

section Events

variable {P : Conn → Prop} {pre : Conn → Prop} {Q : Except Stop Unit → Conn → Prop}

/-- After its headers a stream does nothing but send events. -/
theorem anthropicStream_ensures (api : Api δ F) (replies : List Reply) (prepared : List Nat)
    (maxTokens : Int) (temperature : F)
    (hevent : ∀ name doc, (sendEvent api name doc).Preserves P)
    (hthen : ∀ events : Handler Unit, events.Preserves P →
      (startStream api >>= fun _ => events).Ensures pre Q) :
    (anthropicStream api replies prepared maxTokens temperature).Ensures pre Q := by
  apply hthen
  apply Action.Preserves.bind (hevent _ _)
  intro _
  apply Action.Preserves.bind (hevent _ _)
  intro _
  apply Action.Preserves.bind
  · apply generate_preserves
    rintro f hf delta
    cases hf
    exact hevent _ _
  · intro result
    apply Action.Preserves.bind (hevent _ _)
    intro _
    apply Action.Preserves.bind (hevent _ _)
    intro _
    exact hevent _ _

theorem openaiStream_ensures (api : Api δ F) (replies : List Reply) (prepared : List Nat)
    (maxTokens : Int) (temperature : F)
    (hevent : ∀ name doc, (sendEvent api name doc).Preserves P)
    (hdone : ∀ bytes, (writePieces [⟨.done, bytes⟩]).Preserves P)
    (hthen : ∀ events : Handler Unit, events.Preserves P →
      (startStream api >>= fun _ => events).Ensures pre Q) :
    (openaiStream api replies prepared maxTokens temperature).Ensures pre Q := by
  apply hthen
  apply Action.Preserves.bind (hevent _ _)
  intro _
  apply Action.Preserves.bind
  · apply generate_preserves
    rintro f hf delta
    cases hf
    exact hevent _ _
  · intro result
    apply Action.Preserves.bind (hevent _ _)
    intro _
    exact hdone _

end Events

theorem anthropicStream_stage (api : Api δ F) (replies : List Reply) (prepared : List Nat)
    (maxTokens : Int) (temperature : F) :
    (anthropicStream api replies prepared maxTokens temperature).Ensures Fresh
      fun _ c => Stage c :=
  anthropicStream_ensures api replies prepared maxTokens temperature (sendEvent_streaming api)
    fun _ h => startStream_then api h

theorem openaiStream_stage (api : Api δ F) (replies : List Reply) (prepared : List Nat)
    (maxTokens : Int) (temperature : F) :
    (openaiStream api replies prepared maxTokens temperature).Ensures Fresh
      fun _ c => Stage c := by
  refine openaiStream_ensures api replies prepared maxTokens temperature (sendEvent_streaming api)
    ?_ fun _ h => startStream_then api h
  · intro bytes
    apply writePieces_streaming
    intro p hp
    rw [List.mem_singleton.mp hp]
    rfl

/-! ### The endpoints -/

/-- Before it writes, an action leaves the connection fresh. -/
theorem fresh_then {α : Type} {m : Handler α} {f : α → Handler Unit} (hm : m.Preserves Fresh)
    (hf : ∀ a, (f a).Ensures Fresh fun _ c => Stage c) :
    (m >>= f).Ensures Fresh fun _ c => Stage c :=
  Action.Ensures.bind hm hf fun _ _ hc => Or.inl hc

theorem respond_stage (api : Api δ F) (replies : List Reply) (body : List (Str × Json))
    (args : GenArgs F) {stream : List Reply → List Nat → Int → F → Handler Unit}
    (document : List Nat → GenerationResult → Json)
    (hstream : ∀ replies prepared maxTokens temperature,
      (stream replies prepared maxTokens temperature).Ensures Fresh fun _ c => Stage c) :
    (respond api replies body args stream document).Ensures Fresh fun _ c => Stage c := by
  unfold respond
  split
  · apply fresh_then (liftExc_preserves _ Fresh)
    intro _
    exact hstream _ _ _ _
  · apply fresh_then
    · apply generate_preserves
      intro f hf
      cases hf
    · intro result
      exact sendJson_stage api _ _

theorem readJson_fresh (api : Api δ F) (req : Request) : (readJson api req).Preserves Fresh := by
  apply Action.Preserves.bind (liftExc_preserves _ Fresh)
  intro length
  apply Action.Preserves.bind (show (readBytes length).Preserves Fresh from fun c hc => hc)
  intro raw
  apply Action.Preserves.bind (liftExc_preserves _ Fresh)
  intro data
  cases data with
  | obj fields => exact Action.Preserves.pure fields Fresh
  | _ => exact Action.Preserves.raise _ Fresh

/-- The `try` block of `do_POST` writes one response at most. -/
theorem postBody_stage (api : Api δ F) (replies : List Reply) (req : Request) :
    (postBody api replies req).Ensures Fresh fun _ c => Stage c := by
  apply fresh_then (readJson_fresh api req)
  intro body
  split
  · apply fresh_then (liftExc_preserves _ Fresh)
    intro args
    exact respond_stage api replies body args _ fun _ _ _ _ => anthropicStream_stage api _ _ _ _
  · split
    · apply fresh_then (liftExc_preserves _ Fresh)
      intro _
      apply fresh_then (liftExc_preserves _ Fresh)
      intro prepared
      exact sendJson_stage api _ _
    · split
      · apply fresh_then (liftExc_preserves _ Fresh)
        intro args
        exact respond_stage api replies body args _ fun _ _ _ _ => openaiStream_stage api _ _ _ _
      · exact sendJson_stage api _ _

/-! ### The error answer -/

/-- The answer of the `except` clauses to an exception, if they give one. -/
def answerTo (e : Exc) : Option (Nat × String) :=
  match e.kind with
  | .brokenPipe | .connectionReset | .base => none
  | .value => some (400, "invalid_request_error")
  | _ => some (500, "backend_error")

/-- No byte of an answer gets past the headers that are still in the buffer, and none at all
after something was written. -/
def Unheard (api : Api δ F) (payload : Json) (c : Conn) : Prop :=
  (∃ e, api.dumps payload = .error e) ∨ ∃ e n, NextRaises c e n ∧
    n ≤ if c.wire = [] then (c.headersBuffer.map fun p => p.bytes.length).sum else 0

/-- The `try` block raises an exception that is answered after it has handed a response to the
socket, and the socket takes bytes of that answer. -/
def LateAnswer (api : Api δ F) (replies : List Reply) (req : Request) (c : Conn) : Prop :=
  ∃ e c' status kind, postBody api replies req c = (.error (.exc e), c') ∧
    answerTo e = some (status, kind) ∧ ¬ Fresh c' ∧
    ¬ Unheard api (errorDoc (text kind) e.text) c'

theorem not_bodyFits_of_head {headers headers' : List (Str × Str)} {body : List Piece} {q : Piece}
    {status : Nat} (hq : q ∈ body) (hhead : q.content = .head status headers') :
    ¬ BodyFits headers body := by
  intro h
  unfold BodyFits at h
  rcases hk : announced headers with _ | _ | _
  · rw [hk] at h
    rw [h] at hq
    cases hq
  · rw [hk] at h
    rcases h with h | ⟨p, doc, h, hdoc⟩
    · rw [h] at hq
      cases hq
    · rw [h] at hq
      rw [List.mem_singleton.mp hq, hdoc] at hhead
      cases hhead
  · rw [hk] at h
    have hevent := h q hq
    rw [hhead] at hevent
    cases hevent

/-- A status line after something else was written is a second response. -/
theorem not_oneResponse_of_head {w x : List Piece} {q : Piece} {status : Nat}
    {headers : List (Str × Str)} (hw : w ≠ []) (hq : q ∈ x)
    (hhead : q.content = .head status headers) : ¬ OneResponse (w ++ x) := by
  obtain ⟨p, w, rfl⟩ := List.exists_cons_of_ne_nil hw
  rintro (h | ⟨p', body, status', headers', h, -, hfits⟩)
  · cases h
  · rw [List.cons_append, List.cons.injEq] at h
    apply not_bodyFits_of_head _ hhead hfits
    rw [← h.2]
    exact List.mem_append_right w hq

theorem cutPieces_two {n : Nat} (p q : Piece) (hn : n ≤ p.bytes.length) :
    cutPieces n [p, q] = [] ∨ ∃ r, cutPieces n [p, q] = [r] ∧ r.content = p.content := by
  by_cases h0 : n = 0
  · rw [h0]
    exact Or.inl (cutPieces_zero _)
  · obtain ⟨r, hr, hcut⟩ := cutPieces_cons h0 p [q]
    right
    refine ⟨r, ?_, hr⟩
    rw [hcut]
    split
    · rfl
    · rw [show n - p.bytes.length = 0 by omega, cutPieces_zero]

/-- After a response has begun, an answer is a second one unless nothing of it is heard. -/
theorem sendJson_oneResponse_iff (api : Api δ F) (status : Nat) (payload : Json) {c : Conn}
    (hstage : Stage c) (hfresh : ¬ Fresh c) :
    OneResponse (sendJson api status payload c).2.wire ↔ Unheard api payload c := by
  have hheard : ∀ body, api.dumps payload = .ok body → (∀ e n, NextRaises c e n → False) →
      ¬ Unheard api payload c := by
    rintro body hbody hno (⟨e, he⟩ | ⟨e, n, hnext, -⟩)
    · rw [hbody] at he
      cases he
    · exact hno e n hnext
  have hbound : ∀ body e n, api.dumps payload = .ok body → NextRaises c e n →
      (Unheard api payload c ↔
        n ≤ if c.wire = [] then (c.headersBuffer.map fun p => p.bytes.length).sum else 0) := by
    intro body e n hbody hnext
    constructor
    · rintro (⟨e', he'⟩ | ⟨e', n', hnext', hle⟩)
      · rw [hbody] at he'
        cases he'
      · unfold NextRaises at hnext hnext'
        rw [hnext] at hnext'
        cases hnext'
        exact hle
    · intro hle
      exact Or.inr ⟨e, n, hnext, hle⟩
  cases sendJson_cases api status payload c with
  | unwritten e hdumps hc =>
    rw [hc]
    exact iff_of_true hstage.oneResponse (Or.inl ⟨e, hdumps⟩)
  | stuck body e n hdumps hnext hb hout =>
    rw [hbound body e n hdumps hnext, hout]
    have hlate : ∀ ps : List Piece, (∃ p ∈ ps.head?, ∃ status headers,
        p.content = .head status headers) → c.wire ≠ [] →
        (OneResponse (c.wire ++ cutPieces n ps) ↔ n ≤ 0) := by
      rintro ps ⟨p, hp, status', headers', hhead⟩ hwire
      obtain ⟨ps, rfl⟩ : ∃ qs, ps = p :: qs := by
        cases ps with
        | nil => cases hp
        | cons p' qs =>
          cases hp
          exact ⟨qs, rfl⟩
      by_cases h0 : n = 0
      · rw [h0, cutPieces_zero, List.append_nil]
        exact iff_of_true hstage.oneResponse (Nat.le_refl 0)
      · obtain ⟨r, hr, hcut⟩ := cutPieces_cons h0 p ps
        refine iff_of_false ?_ (by omega)
        exact not_oneResponse_of_head hwire (by rw [hcut]; exact List.mem_cons_self)
          (hr.trans hhead)
    rcases hstage with h | ⟨p, status', headers', hbuffer, hhead, hwire⟩ | ⟨hbuffer, hwire, -⟩
    · exact absurd h hfresh
    · rw [hbuffer, List.singleton_append]
      rcases hwire with hwire | ⟨q, hwire, hq⟩
      · rw [if_pos hwire, hwire, List.nil_append, List.map_cons, List.map_nil, List.sum_singleton]
        by_cases hle : n ≤ p.bytes.length
        · refine iff_of_true ?_ hle
          rcases cutPieces_two p (headPiece api status (jsonHeaders body.length)) hle with
            hcut | ⟨r, hcut, hr⟩
          · exact Or.inl hcut
          · exact Or.inr ⟨r, [], status', headers', hcut, hr.trans hhead, bodyFits_nil _⟩
        · refine iff_of_false ?_ hle
          obtain ⟨r, hr, hcut⟩ := cutPieces_cons (show n ≠ 0 by omega) p
            [headPiece api status (jsonHeaders body.length)]
          obtain ⟨r', hr', hcut'⟩ := cutPieces_cons (show n - p.bytes.length ≠ 0 by omega)
            (headPiece api status (jsonHeaders body.length)) []
          rw [hcut, if_neg (by omega), hcut', ← List.singleton_append]
          exact not_oneResponse_of_head (List.cons_ne_nil _ _) List.mem_cons_self hr'
      · have hne : c.wire ≠ [] := by
          rw [hwire]
          exact List.cons_ne_nil _ _
        rw [if_neg hne]
        exact hlate _ ⟨p, rfl, status', headers', hhead⟩ hne
    · rw [if_neg hwire, hbuffer, List.nil_append]
      exact hlate _ ⟨_, rfl, _, _, rfl⟩ hwire
  | sent body tail hdumps hno hb hout htail =>
    refine iff_of_false ?_ (hheard body hdumps hno)
    rw [hout, List.append_assoc]
    have hne : c.wire ++ c.headersBuffer ≠ [] := by
      intro h
      obtain ⟨hwire, hbuffer⟩ := List.append_eq_nil_iff.mp h
      exact hfresh ⟨hwire, hbuffer⟩
    exact not_oneResponse_of_head hne (List.mem_append_left tail List.mem_cons_self) rfl

theorem safeError_wire (api : Api δ F) (status : Nat) (kind : String) (message : Str) (c : Conn) :
    (safeError api status kind message c).2 =
      (sendJson api status (errorDoc (text kind) message) c).2 := by
  unfold safeError
  rcases hrun : sendJson api status (errorDoc (text kind) message) c with ⟨r, c'⟩
  cases r with
  | ok _ => rw [Action.rescue_ok hrun]
  | error stop =>
    rw [Action.rescue_error hrun]
    cases stop with
    | exc e =>
      simp only
      split <;> rfl
    | waiting => rfl

theorem answerExc_wire (api : Api δ F) (e : Exc) (c : Conn) :
    (answerExc api (.exc e) c).2 =
      match answerTo e with
      | none => c
      | some answer => (sendJson api answer.1 (errorDoc (text answer.2) e.text) c).2 := by
  obtain ⟨kind, message⟩ := e
  cases kind with
  | brokenPipe => rfl
  | connectionReset => rfl
  | base => rfl
  | value => exact safeError_wire api 400 "invalid_request_error" message c
  | fileNotFound => exact safeError_wire api 500 "backend_error" message c
  | key => exact safeError_wire api 500 "backend_error" message c
  | exception => exact safeError_wire api 500 "backend_error" message c

/-- Exactly one response, exactly if no answered exception comes too late. -/
theorem doPost_oneResponse_iff (api : Api δ F) (replies : List Reply) (req : Request) (c : Conn)
    (hauth : isAuthorized api req = true) (hfresh : Fresh c) :
    OneResponse (doPost api replies req c).2.wire ↔ ¬ LateAnswer api replies req c := by
  have hrun : doPost api replies req c = (postBody api replies req).rescue (answerExc api) c := by
    unfold doPost authorized
    rw [if_pos hauth]
    rfl
  have hstage := postBody_stage api replies req c hfresh
  rw [hrun]
  rcases hbody : postBody api replies req c with ⟨r, c'⟩
  rw [hbody] at hstage
  have hnone : (∀ e status kind, r = .error (.exc e) → answerTo e = some (status, kind) → False) →
      ¬ LateAnswer api replies req c := by
    rintro hno ⟨e, c'', status, kind, hlate, hanswer, -⟩
    rw [hbody] at hlate
    exact hno e status kind (Prod.mk.inj hlate).1 hanswer
  cases r with
  | ok _ =>
    rw [Action.rescue_ok hbody]
    refine iff_of_true hstage.oneResponse (hnone ?_)
    intro e status kind h
    cases h
  | error stop =>
    rw [Action.rescue_error hbody]
    cases stop with
    | waiting =>
      refine iff_of_true hstage.oneResponse (hnone ?_)
      intro e status kind h
      cases h
    | exc e =>
      rw [answerExc_wire]
      cases hanswer : answerTo e with
      | none =>
        refine iff_of_true hstage.oneResponse (hnone ?_)
        intro e' status kind h h'
        cases h
        rw [hanswer] at h'
        cases h'
      | some answer =>
        by_cases hf : Fresh c'
        · refine iff_of_true (sendJson_stage api _ _ c' hf).oneResponse ?_
          rintro ⟨e', c'', status, kind, hlate, -, hnot, -⟩
          rw [hbody] at hlate
          rw [← (Prod.mk.inj hlate).2] at hnot
          exact hnot hf
        · refine (sendJson_oneResponse_iff api _ _ hstage hf).trans ?_
          constructor
          · rintro hun ⟨e', c'', status, kind, hlate, hanswer', -, hheard⟩
            rw [hbody] at hlate
            cases hlate
            rw [hanswer] at hanswer'
            cases hanswer'
            exact hheard hun
          · intro hnot
            by_contra hheard
            exact hnot ⟨e, c', answer.1, answer.2, hbody, hanswer, hf, hheard⟩

end Writing

/-! ### A generator that fails after its first token -/

def dumpStr (s : Str) : Str :=
  [34] ++ s.flatMap (fun c => if c = 34 ∨ c = 92 then [92, c] else if c = 10 then text "\\n" else [c]) ++
    [34]

mutual

/-- `json.dumps` on texts without other control characters. -/
def dumpJson : Json → Str
  | .null => text "null"
  | .bool b => if b then text "true" else text "false"
  | .int n => strInt n
  | .float r => r
  | .str s => dumpStr s
  | .arr items => text "[" ++ dumpItems items ++ text "]"
  | .obj fields => text "\x7b" ++ dumpFields fields ++ text "\x7d"
termination_by structural j => j

def dumpItems : List Json → Str
  | [] => []
  | j :: js => dumpJson j ++ (if js.isEmpty then [] else text ",") ++ dumpItems js
termination_by structural js => js

def dumpFields : List (Str × Json) → Str
  | [] => []
  | f :: fs => dumpField f ++ (if fs.isEmpty then [] else text ",") ++ dumpFields fs
termination_by structural fs => fs

def dumpField : Str × Json → Str
  | (k, j) => dumpStr k ++ text ":" ++ dumpJson j
termination_by structural f => f

end

/-- The body of a request for a stream, the only one that `plainApi` can read. -/
def streamBody : Json := .obj [(text "stream", .bool true), (text "messages", greeting)]

def plainApi : Api Unit Unit where
  apiKey := none
  modelId := text "kimi"
  pyEnv := plainEnv
  kimi := plainEncoding
  codec := plainCodec
  planConfig := plainPlan
  loads raw :=
    if raw = ascii (dumpJson streamBody) then .ok streamBody
    else .error (valueError "Expecting value")
  dumps doc := .ok (ascii (dumpJson doc))
  toInt j := match j with
    | .int n => .ok n
    | _ => .error (valueError "not an integer")
  toFloat _ := .ok ()
  isNegative _ := false
  statusText status := strNat status ++ text " \r\n"
  uuidHex := text "0123456789abcdef0123456789abcdef"
  now := 0
  busy := false

def streamRequest : Request :=
  ⟨text "/v1/messages", [(text "Content-Length", strNat (dumpJson streamBody).length)]⟩

/-- One token, then the end of the output, and exit code 1. -/
def failingReplies : List Reply :=
  [.ok, .ok, .spawned 0, .line (text "TOKEN 5\n"), .eof, .eof, .exited 1, .exited 1, .ok, .ok]

def freshConn (body : Octets) : Conn := ⟨body, [], [], false, []⟩

/-- The status of a status line. -/
def Piece.status (p : Piece) : Option Nat :=
  match p.content with
  | .head status _ => some status
  | _ => none

theorem doPost_oneResponse_iff_stream :
    OneResponse (doPost plainApi failingReplies streamRequest
        (freshConn (ascii (dumpJson streamBody)))).2.wire ↔
      ¬ LateAnswer plainApi failingReplies streamRequest
        (freshConn (ascii (dumpJson streamBody))) :=
  doPost_oneResponse_iff plainApi failingReplies streamRequest _ rfl ⟨rfl, rfl⟩

theorem not_oneResponse_of_failing :
    ¬ ∀ (replies : List Reply) (req : Request) (body : Octets), isAuthorized plainApi req = true →
      OneResponse (doPost plainApi replies req (freshConn body)).2.wire := by
  intro h
  have hone := h failingReplies streamRequest (ascii (dumpJson streamBody)) rfl
  have hstatus : (doPost plainApi failingReplies streamRequest
      (freshConn (ascii (dumpJson streamBody)))).2.wire.map Piece.status =
        [some 200, none, none, none, some 500, none] := by
    decide +kernel
  have htail := congrArg (List.drop 1) hstatus
  rw [← List.map_drop] at htail
  have hmem : some 500 ∈ ((doPost plainApi failingReplies streamRequest
      (freshConn (ascii (dumpJson streamBody)))).2.wire.drop 1).map Piece.status := by
    rw [htail]
    decide
  obtain ⟨q, hq, hstat⟩ := List.mem_map.mp hmem
  obtain ⟨headers, hhead⟩ : ∃ headers, q.content = .head 500 headers := by
    unfold Piece.status at hstat
    split at hstat
    · next status headers hcontent =>
      cases hstat
      exact ⟨headers, hcontent⟩
    · cases hstat
  rw [← List.take_append_drop 1 (doPost plainApi failingReplies streamRequest
    (freshConn (ascii (dumpJson streamBody)))).2.wire] at hone
  refine not_oneResponse_of_head ?_ hq hhead hone
  intro hnil
  have hhead := congrArg (List.take 1) hstatus
  rw [← List.map_take, hnil] at hhead
  cases hhead

end Kvl
