import ShellTranscript.Echo.QuietTimer
import ShellTranscript.Text.Width

-- Prediction of the echo. Printable keys are shown at the cursor before the shell echoes them. The
-- cursor's row then confirms them from left to right; a character that differs makes its prediction
-- and all later ones invalid, and predictions that are never echoed become invalid after a time.
namespace ShellTranscript

inductive PredictionState where
  | pending
  | confirmed
  | invalidated
deriving DecidableEq, Repr

def PredictionState.name : PredictionState → String
  | pending => "Pending"
  | confirmed => "Confirmed"
  | invalidated => "Invalidated"

structure Prediction where
  token : Nat
  char : Char
  column : Nat
  state : PredictionState := .pending
  createdAt : Nat
deriving DecidableEq, Repr

def Prediction.isPending (p : Prediction) : Bool := p.state == .pending

-- A pending prediction becomes invalid; a settled one stays as it is.
def Prediction.drop (p : Prediction) : Prediction :=
  if p.isPending then { p with state := .invalidated } else p

structure EchoPredictor where
  enabled : Bool
  predictions : List Prediction := []
  nextToken : Nat := 0
  timer : QuietTimer
deriving DecidableEq, Repr

namespace EchoPredictor

def new (enabled : Bool) (delay longest : Nat) : EchoPredictor where
  enabled
  timer := .new delay longest

def hasPending (p : EchoPredictor) : Bool := p.predictions.any Prediction.isPending

-- The predictions to draw over the screen.
def overlay (p : EchoPredictor) : List Prediction := p.predictions.filter Prediction.isPending

-- Nothing is expected any more.
def clear (p : EchoPredictor) : EchoPredictor :=
  { p with predictions := p.predictions.map Prediction.drop, timer := p.timer.stop }

-- Forgets what is settled.
def prune (p : EchoPredictor) : EchoPredictor := { p with predictions := p.overlay }

-- Predictions for characters one after the other, from a token and a column on.
def predict (token column now : Nat) : Text → List Prediction
  | [] => []
  | c :: rest =>
    { token, char := c, column, createdAt := now } :: predict (token + 1) (column + 1) now rest

-- Predicts the echo of typed text and tells the new tokens. A key that does not just print moves the
-- cursor in other ways, so it clears the predictions.
def type (p : EchoPredictor) (typed : Text) (cursor now : Nat) : List Nat × EchoPredictor :=
  if !p.enabled then ([], p)
  else if typed.isEmpty || typed.any Text.isControl then ([], p.clear)
  else
    let p := p.prune
    let column := match p.predictions.getLast? with
      | some last => last.column + 1
      | none => cursor
    let added := predict p.nextToken column now typed
    (added.map Prediction.token,
      { p with
        predictions := p.predictions ++ added
        nextToken := p.nextToken + typed.length
        timer := p.timer.schedule now })

-- Checks predictions against a row, oldest first. `broken` tells that one was wrong.
def check (row : Text) (cursor : Nat) : Bool → List Prediction → List Prediction
  | _, [] => []
  | broken, p :: rest =>
    if !p.isPending then p :: check row cursor broken rest
    else if broken then { p with state := .invalidated } :: check row cursor broken rest
    else if p.column ≥ cursor then p :: check row cursor broken rest
    else if row[p.column]? = some p.char then
      { p with state := .confirmed } :: check row cursor broken rest
    else
      { p with state := .invalidated } :: check row cursor true rest

-- Columns left of the cursor have been written by the shell; the others are still to come.
def reconcile (p : EchoPredictor) (row : Text) (cursor : Nat) : EchoPredictor :=
  let p := { p with predictions := check row cursor false p.predictions }
  if p.hasPending then p else { p with timer := p.timer.stop }

-- Drops what was not echoed in time, and tells whether there was anything.
def expire (p : EchoPredictor) (now : Nat) : Bool × EchoPredictor :=
  if p.timer.isDue now then (p.hasPending, p.clear) else (false, p)

end EchoPredictor

end ShellTranscript
