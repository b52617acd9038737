import NetworkOptimization.SequentialCode
import NetworkOptimization.Verbs

namespace NetworkOptimization.Calls

open SequentialCode Verbs ControlMessages

/-- The points at which the code of either side meets the outside world.
`readMessage` is the access to the receive buffer behind `remote_control_message`. -/
inductive Verb where
  | ibvPostSend (wr : WorkRequest)
  | pollNSendWc
  | pollNextReceiveWc (blocking : Bool)
  | readMessage
  | ibvDeregMr

abbrev Verb.Answer : Verb → Type
  | .readMessage => ControlMessage
  | .ibvPostSend _ | .pollNSendWc | .pollNextReceiveWc _ | .ibvDeregMr => Int

abbrev Code (σ α : Type) := Routine σ Verb Verb.Answer α

variable {σ α : Type}

def ibvPostSend (wr : WorkRequest) : Code σ Int := request (Verb.ibvPostSend wr)

/-- `pp_post_send`; its callers ignore the result. -/
def ppPostSend : Code σ Int := do
  if (← ibvPostSend .send) ≠ 0 then return 1 else return 0

def pollNSendWc : Code σ Int := request Verb.pollNSendWc

def readMessage : Code σ ControlMessage := request Verb.readMessage

def pollReceive (blocking : Bool) : Code σ Int := request (Verb.pollNextReceiveWc blocking)

def getRemoteControlMessage (blocking : Bool) : Code σ Int := do
  if (← pollReceive blocking) ≠ 0 then return 1 else return 0

/-- Post the control message, wait for its completion and go on; the pattern that
every sender of the program follows. -/
def sendThen (rest : Code σ Int) : Code σ Int := do
  let _ ← ppPostSend
  if (← pollNSendWc) ≠ 0 then return 1 else rest

def receiveThen (rest : ControlMessage → Code σ Int) : Code σ Int := do
  if (← getRemoteControlMessage true) ≠ 0 then return 1
  else
    let remoteControlMessage ← readMessage
    rest remoteControlMessage

def confirm (rest : Code σ Int) : Code σ Int := do
  if (← pollNSendWc) ≠ 0 then return 1 else rest

def afterPost (rest : Code σ Int) (r : Int) : Code σ Int := do
  let _ ← (if r ≠ 0 then return 1 else return 0 : Code σ Int)
  confirm rest

def afterConfirm (rest : Code σ Int) (r : Int) : Code σ Int :=
  if r ≠ 0 then return 1 else rest

def afterReceive (rest : ControlMessage → Code σ Int) (r : Int) : Code σ Int := do
  if (← (if r ≠ 0 then return 1 else return 0 : Code σ Int)) ≠ 0 then return 1
  else
    let remoteControlMessage ← readMessage
    rest remoteControlMessage

theorem settle_afterPost (rest : Code σ Int) (r : Int) (f : Int → Code σ α) (s : σ) :
    settle (afterPost rest r >>= f) s =
      some (s, .waiting .pollNSendWc (fun r => afterConfirm rest r >>= f)) := by
  by_cases hr : r = 0 <;> simp [afterPost, hr] <;> rfl

theorem afterConfirm_zero (rest : Code σ Int) : afterConfirm rest 0 = rest := rfl

theorem settle_afterConfirm_failed (rest : Code σ Int) {r : Int} (hr : r ≠ 0)
    (f : Int → Code σ α) (s : σ) : settle (afterConfirm rest r >>= f) s = settle (f 1) s := by
  rw [afterConfirm, if_pos hr]
  rfl

theorem settle_afterReceive_zero (rest : ControlMessage → Code σ Int) (s : σ) :
    settle (afterReceive rest 0) s = some (s, .waiting .readMessage rest) := rfl

end NetworkOptimization.Calls
