import Kvl.Api.Plan

/-!
# One call of the generator

`KimiRuntime.generate` as a machine. The program counter is the operation that
the call performs next, and a reply is how that operation ended; the lock, the
child process and the client are outside. The command line, the environment of
the child and the file of prompt ids are left out.
-/

namespace Kvl

set_option autoImplicit false

open PyText

def EOS_ID : Int := 163585
def IM_END_ID : Int := 163586
def STOP_IDS : List Int := [EOS_ID, IM_END_ID]

structure GenerationResult where
  text : Str
  outputTokens : Nat
  stoppedByEos : Bool
  deriving DecidableEq, Repr

/-- The tokenizer and the incremental decoder, whose states are `δ`. -/
structure Codec (δ : Type*) where
  start : δ
  decode : δ → List UInt8 → δ × Str
  finish : δ → Str
  decodeSingleTokenBytes : Int → Except Exc (List UInt8)
  decodeTokens : List Int → Except Exc Str

inductive GenPc
  | acquire
  | writeIds
  | popen
  | readLine
  | onDelta (delta : Str)
  | drain
  | wait
  | onTail (tail : Str)
  | poll (e : Exc)
  | terminate (e : Exc)
  | waitTimeout (e : Exc)
  | kill (e : Exc)
  | unlink (r : Except Exc GenerationResult)
  | release (r : Except Exc GenerationResult)
  | finished (r : Except Exc GenerationResult)

structure GenCall (δ : Type*) where
  pc : GenPc
  proc : Option Nat
  decoder : δ
  textParts : List Str
  outputTokens : Nat
  stoppedByEos : Bool
  /-- `on_delta is not None` -/
  streaming : Bool

/-- How an operation ended. -/
inductive Reply
  | ok
  | raised (e : Exc)
  | spawned (pid : Nat)
  | line (raw : Str)
  | eof
  | exited (rc : Int)
  | running
  | expired
  deriving DecidableEq, Repr

/-- What an operation does to the lock and to the child. -/
inductive Effect
  | none
  | acquire
  | release
  | spawn
  | terminate
  | kill
  deriving DecidableEq, Repr

variable {δ : Type*}

/-- Up to the lock. `nonneg` is `temperature >= 0`. -/
def generateStart (codec : Codec δ) (cfg : Plan.PlanConfig) (promptTokens : Nat) (maxTokens : Int)
    (nonneg streaming : Bool) : Except Exc (GenCall δ) :=
  if nonneg = false then .error (valueError "temperature must be >= 0")
  else
    match Plan.plan cfg promptTokens maxTokens with
    | .error e => .error e
    | .ok _ => .ok
        { pc := .acquire
          proc := none
          decoder := codec.start
          textParts := []
          outputTokens := 0
          stoppedByEos := false
          streaming := streaming }

/-- `except BaseException`: with no process, or else its `poll`. -/
def GenCall.fail (c : GenCall δ) (e : Exc) : GenCall δ :=
  match c.proc with
  | none => { c with pc := .unlink (.error e) }
  | some _ => { c with pc := .poll e }

/-- A piece of text is kept, and passed to the client if there is one. -/
def GenCall.deliver (c : GenCall δ) (delta : Str) : GenCall δ :=
  if delta = [] then c
  else if c.streaming then
    { c with textParts := c.textParts ++ [delta], pc := .onDelta delta }
  else { c with textParts := c.textParts ++ [delta] }

/-- `int(line.split()[1])` for the lines that carry a token. -/
def parseTokenLine (raw : Str) : Option (Except Exc Int) :=
  let line := strip raw
  if (text "TOKEN ").isPrefixOf line = false then none
  else
    match (split line)[1]? with
    | none => some (.error ⟨.exception, text "list index out of range"⟩)
    | some field =>
      match pyInt field with
      | none => some (.error (valueError "invalid literal for int() with base 10"))
      | some token => some (.ok token)

/-- The text of a token, and the decoder after it. -/
def decodeToken (codec : Codec δ) (decoder : δ) (token : Int) : Except Exc (δ × Str) :=
  match codec.decodeSingleTokenBytes token with
  | .ok bytes => .ok (codec.decode decoder bytes)
  | .error e =>
    if e.kind = .key then (codec.decodeTokens [token]).map fun delta => (decoder, delta)
    else .error e

/-- One line of the child's output. -/
def GenCall.consume (codec : Codec δ) (c : GenCall δ) (raw : Str) : GenCall δ :=
  match parseTokenLine raw with
  | none => c
  | some (.error e) => c.fail e
  | some (.ok token) =>
    let counted := { c with outputTokens := c.outputTokens + 1 }
    if token ∈ STOP_IDS then { counted with stoppedByEos := true, pc := .drain }
    else
      match decodeToken codec c.decoder token with
      | .error e => counted.fail e
      | .ok read => { counted with decoder := read.1 }.deliver read.2

def GenCall.result (c : GenCall δ) : GenerationResult :=
  ⟨c.textParts.flatten, c.outputTokens, c.stoppedByEos⟩

def GenCall.succeed (c : GenCall δ) : GenCall δ := { c with pc := .unlink (.ok c.result) }

/-- After `proc.wait()` has returned `rc`. -/
def GenCall.afterWait (codec : Codec δ) (c : GenCall δ) (rc : Int) : GenCall δ :=
  if rc ≠ 0 then c.fail ⟨.exception, text "C generator exited with code " ++ strInt rc⟩
  else
    let tail := codec.finish c.decoder
    if tail = [] then c.succeed
    else
      let kept := { c with textParts := c.textParts ++ [tail] }
      if c.streaming then { kept with pc := .onTail tail } else kept.succeed

/-- The call after its operation has ended with `r`. -/
def GenCall.resume (codec : Codec δ) (c : GenCall δ) (r : Reply) : Option (GenCall δ × Effect) :=
  match c.pc, r with
  | .acquire, .ok => some ({ c with pc := .writeIds }, .acquire)
  | .writeIds, .ok => some ({ c with pc := .popen }, .none)
  | .writeIds, .raised e => some ({ c with pc := .release (.error e) }, .none)
  | .popen, .spawned pid => some ({ c with pc := .readLine, proc := some pid }, .spawn)
  | .popen, .raised e => some (c.fail e, .none)
  | .readLine, .line raw => some (c.consume codec raw, .none)
  | .readLine, .eof => some ({ c with pc := .drain }, .none)
  | .readLine, .raised e => some (c.fail e, .none)
  | .onDelta _, .ok => some ({ c with pc := .readLine }, .none)
  | .onDelta _, .raised e => some (c.fail e, .none)
  | .drain, .line _ => some (c, .none)
  | .drain, .eof => some ({ c with pc := .wait }, .none)
  | .drain, .raised e => some (c.fail e, .none)
  | .wait, .exited rc => some (c.afterWait codec rc, .none)
  | .wait, .raised e => some (c.fail e, .none)
  | .onTail _, .ok => some (c.succeed, .none)
  | .onTail _, .raised e => some (c.fail e, .none)
  | .poll e, .exited _ => some ({ c with pc := .unlink (.error e) }, .none)
  | .poll e, .running => some ({ c with pc := .terminate e }, .none)
  | .terminate e, .ok => some ({ c with pc := .waitTimeout e }, .terminate)
  | .waitTimeout e, .exited _ => some ({ c with pc := .unlink (.error e) }, .none)
  | .waitTimeout e, .expired => some ({ c with pc := .kill e }, .none)
  | .kill e, .ok => some ({ c with pc := .unlink (.error e) }, .kill)
  | .unlink r, .ok => some ({ c with pc := .release r }, .none)
  | .release r, .ok => some ({ c with pc := .finished r }, .release)
  | _, _ => none

/-- Every token is the letter `a`. -/
def plainCodec : Codec Unit where
  start := ()
  decode _ _ := ((), text "a")
  finish _ := []
  decodeSingleTokenBytes _ := .ok [97]
  decodeTokens _ := .ok (text "a")

def plainPlan : Plan.PlanConfig := ⟨512, .str (text "auto"), 4096, fun _ => []⟩

end Kvl
