import HeaterLink.Config
import HeaterLink.Session.Effect
import HeaterLink.Wire.Command

/-!
# Plans of calls

A call runs link operations one after another: connect, ask for a status,
send, disconnect. Its plan says what becomes of the result of the operation
that is running. Every command goes out behind a hello that was answered or
timed out, so the clock of the element is set first.
-/

set_option autoImplicit false

namespace HeaterLink

inductive Request
  | ensureConnected
  | send (frame : Bytes)
  | ask (frame : Bytes) (limit : Nat)
  | disconnect
  | updateStatus
  | turnOn (temperature : Float)
  | turnOff
  | noOp
  | setMode (mode : Mode)
  | setTemperature (temperature : Float)
  deriving DecidableEq

inductive Purpose
  | report
  /-- Send a frame, and return the outcome once it is written. -/
  | command (frame : Bytes) (outcome : Outcome)
  /-- Switch on at the target of the reading. -/
  | resume
  /-- Bring a temperature within the limits of the reading. -/
  | adjust (temperature : Float)
  deriving DecidableEq

inductive Plan
  | finish
  | greet (purpose : Purpose)
  | use (purpose : Purpose)
  | confirm (outcome : Outcome)
  deriving DecidableEq

inductive Verdict
  | finished (outcome : Outcome)
  | run (operation : Operation) (plan : Plan)
  deriving DecidableEq

namespace Verdict

def command (c : Command) (outcome : Outcome) : Verdict :=
  .run .connect (.greet (.command c.frame outcome))

/-- A temperature that cannot be encoded ends the call before anything is sent. -/
def turnOnAt (temperature : Float) (outcome : Outcome) : Verdict :=
  match Command.turnOnAt temperature with
  | .ok c => command c outcome
  | .error f => .finished (.fault (.frame f))

/-- The clamped temperature is sent only to an element that is on. -/
def adjust (temperature : Float) (r : Reading) : Verdict :=
  let applied := r.clamp temperature
  match r.mode with
  | .on => turnOnAt applied (.temperature applied)
  | .off => .finished (.temperature applied)

end Verdict

def Request.start (last : Option Reading) : Request → Verdict
  | .ensureConnected => .run .connect .finish
  | .send frame => .run (.send frame) .finish
  | .ask frame limit => .run (.ask frame limit) .finish
  | .disconnect => .run .disconnect .finish
  | .updateStatus => .run .connect (.greet .report)
  | .turnOn t => .turnOnAt t .done
  | .turnOff => .command .turnOff .done
  | .noOp => .command .noOp .done
  | .setMode .off => .command .turnOff .done
  | .setMode .on => .run .connect (.greet .resume)
  | .setTemperature t =>
    if t.isFinite then
      match last with
      | some r => .adjust t r
      | none => .run .connect (.greet (.adjust t))
    else .finished (.fault (.frame (.temperatureOutOfRange t)))

def Purpose.next (limit : Nat) (response : Response) : Purpose → Verdict
  | .report => .finished (.response response)
  | .command frame outcome => .run (.send frame) (.confirm outcome)
  | .resume =>
    match response.reading? with
    | none => .finished (.fault (.responseTimeout (Fault.stated limit)))
    | some r =>
      match Command.turnOnAt r.target with
      | .ok c => .run (.send c.frame) (.confirm .done)
      | .error f => .finished (.fault (.frame f))
  | .adjust t =>
    match response.reading? with
    | none => .finished (.temperature t)
    | some r => .adjust t r

/-- What follows the result of an operation. A fault ends every plan. -/
def Plan.next (config : Config) (clock : Clock) (plan : Plan) : Outcome → Verdict
  | .fault f => .finished (.fault f)
  | .done =>
    match plan with
    | .finish => .finished .done
    | .greet p => .run (.ask (Command.hello clock).frame config.responseLimit) (.use p)
    | .use _ => .finished .done
    | .confirm outcome => .finished outcome
  | .response r =>
    match plan with
    | .use p => p.next config.responseLimit r
    | _ => .finished (.response r)
  | .temperature t => .finished (.temperature t)

end HeaterLink
