import NetworkOptimization.Dependencies
import NetworkOptimization.Exchange
import NetworkOptimization.SequentialCode
import NetworkOptimization.Verbs

namespace NetworkOptimization.Devices

open SequentialCode Verbs Dependencies
open Exchange (Gid gidLength)
open Exchange.LowLatency (PingpongDest msgSize)
open Function (update)

inductive Kind where
  | block
  | deviceList
  | addrInfo
  | context
  | compChannel
  | pd
  | mr
  | cq
  | qp
  deriving DecidableEq

inductive QpState where
  | reset
  | init
  | rtr
  | rts
  deriving DecidableEq

/-- `struct ibv_ah_attr`. `grh` is there when `is_global` is set. -/
structure AhAttr where
  dlid : UInt32
  sl : Nat
  srcPathBits : Nat
  portNum : Nat
  grh : Option (Gid × Int)

/-- The attributes of a queue pair, and how many receive requests were put into it. -/
structure QueuePair where
  state : QpState
  pkeyIndex : Nat
  portNum : Nat
  remoteRead : Bool
  remoteWrite : Bool
  ah : AhAttr
  pathMtu : Int
  destQpNum : UInt32
  rqPsn : UInt32
  maxDestRdAtomic : Nat
  minRnrTimer : Nat
  timeout : Nat
  retryCnt : Nat
  rnrRetry : Nat
  sqPsn : UInt32
  maxRdAtomic : Nat
  receives : Nat

def QueuePair.created : QueuePair where
  state := .reset
  pkeyIndex := 0
  portNum := 0
  remoteRead := false
  remoteWrite := false
  ah := ⟨0, 0, 0, 0, none⟩
  pathMtu := 0
  destQpNum := 0
  rqPsn := 0
  maxDestRdAtomic := 0
  minRnrTimer := 0
  timeout := 0
  retryCnt := 0
  rnrRetry := 0
  sqPsn := 0
  maxRdAtomic := 0
  receives := 0

/-- The host of a process: its port, the numbers that its adapter gives to queue pairs, the
numbers of `lrand48`, how many addresses `getaddrinfo` finds, what uninitialised memory holds,
and `answers k`, whether the `k`-th library call of the process does its work. -/
structure Host where
  devices : Bool
  lid : UInt16
  infiniband : Bool
  qpNum : Nat → UInt32
  qpNum_lt : ∀ id, (qpNum id).toNat < 2 ^ 24
  rand : Nat → UInt32
  addresses : Nat
  msg : List UInt8
  msg_length : msg.length = msgSize
  wgid : List UInt8
  wgid_length : wgid.length = gidLength
  dest : PingpongDest
  answers : Nat → Bool

structure Process where
  host : Host
  registry : Registry Kind
  queuePairs : Nat → QueuePair
  calls : Nat
  draws : Nat

namespace Process

def willing (s : Process) : Bool := s.host.answers s.calls

def next (s : Process) : Process := { s with calls := s.calls + 1 }

def setRegistry (s : Process) (r : Registry Kind) : Process := { s with registry := r }

def setQueuePair (s : Process) (id : Nat) (q : QueuePair) : Process :=
  { s with queuePairs := update s.queuePairs id q }

end Process

section Library

variable {V : Type} {R : V → Type}

abbrev Code (V : Type) (R : V → Type) (α : Type) := Routine Process V R α

/-- A library call that makes an object; `none` is its null result. It is undefined with
arguments that are not there. -/
def acquire (kind : Kind) (uses : List Nat) : Code V R (Option Nat) :=
  locally (fun s =>
    if s.willing then
      (s.registry.create kind uses).map (fun p => (some p.1, s.next.setRegistry p.2))
    else some (none, s.next))

/-- A library call that gives an object back. It fails while the object is in use. -/
def release (id : Nat) : Code V R Int :=
  locally (fun s =>
    if (s.registry.live id).isSome then
      match s.registry.destroy id with
      | some r => some (if s.willing then (0, s.next.setRegistry r) else (1, s.next))
      | none => some (1, s.next)
    else none)

def free (id : Nat) : Code V R Unit :=
  locally (fun s => (s.registry.destroy id).map (fun r => ((), s.setRegistry r)))

def attempt : Code V R Bool := locally (fun s => some (s.willing, s.next))

/-- `ibv_modify_qp`. A queue pair goes from one state to the next only. -/
def ibvModifyQp (id : Nat) (since : QpState) (f : QueuePair → QueuePair) : Code V R Int :=
  locally (fun s =>
    if s.willing ∧ (s.queuePairs id).state = since then
      some (0, s.next.setQueuePair id (f (s.queuePairs id)))
    else some (1, s.next))

end Library

/-- The handles in a `struct pingpong_context`, and the count of its receive requests. -/
structure Context where
  block : Nat
  context : Nat
  channel : Option Nat
  pd : Nat
  buffer : Nat
  mrControlSend : Nat
  mrControlReceive : Nat
  sendCq : Nat
  receiveCq : Nat
  qp : Nat
  queue : ReceiveQueue

def Context.base (ctx : Context) : List (Nat × Object Kind) :=
  (ctx.pd, ⟨.pd, [ctx.context]⟩) ::
    (ctx.channel.toList.map (fun c => (c, ⟨.compChannel, [ctx.context]⟩)) ++
      [(ctx.context, ⟨.context, []⟩), (ctx.block, ⟨.block, []⟩)])

/-- The objects of a context in the order in which it is closed. -/
def Context.objects (ctx : Context) : List (Nat × Object Kind) :=
  (ctx.qp, ⟨.qp, [ctx.pd, ctx.sendCq, ctx.receiveCq]⟩) ::
    (ctx.sendCq, ⟨.cq, ctx.context :: ctx.channel.toList⟩) ::
    (ctx.receiveCq, ⟨.cq, ctx.context :: ctx.channel.toList⟩) ::
    (ctx.mrControlSend, ⟨.mr, [ctx.pd, ctx.buffer]⟩) ::
    (ctx.mrControlReceive, ⟨.mr, [ctx.pd, ctx.buffer]⟩) ::
    (ctx.buffer, ⟨.block, []⟩) :: ctx.base

def Context.handles (ctx : Context) : List Nat := ctx.objects.map Prod.fst

section Code

variable {V : Type} {R : V → Type}

def toInit (port : Nat) (q : QueuePair) : QueuePair :=
  { q with state := .init, pkeyIndex := 0, portNum := port, remoteRead := true, remoteWrite := true }

/-- `ibv_create_comp_channel`, where events are wanted. -/
def createChannel (useEvent : Bool) (context : Nat) : Code V R (Option (Option Nat)) := do
  if useEvent then
    let some channel ← acquire .compChannel [context] | return none
    return some (some channel)
  else return some none

def noReceives (rxDepth : Int) : ReceiveQueue := ⟨rxDepth, 0⟩

/-- `pp_init_ctx`. Whatever fails, it returns a null pointer at once. -/
def ppInitCtx (rxDepth : Int) (port : Nat) (useEvent : Bool) : Code V R (Option Context) := do
  let some block ← acquire .block [] | return none
  let some context ← acquire .context [] | return none
  let some channel ← createChannel useEvent context | return none
  let some pd ← acquire .pd [context] | return none
  let some buffer ← acquire .block [] | return none
  let some mrControlSend ← acquire .mr [pd, buffer] | return none
  let some mrControlReceive ← acquire .mr [pd, buffer] | return none
  let some sendCq ← acquire .cq (context :: channel.toList) | return none
  let some receiveCq ← acquire .cq (context :: channel.toList) | return none
  let some qp ← acquire .qp [pd, sendCq, receiveCq] | return none
  modify (fun s => s.setQueuePair qp .created)
  if (← ibvModifyQp qp .reset (toInit port)) ≠ 0 then return none
  -- `ibv_query_qp`
  if !(← attempt) then return none
  return some ⟨block, context, channel, pd, buffer, mrControlSend, mrControlReceive, sendCq, receiveCq,
    qp, noReceives rxDepth⟩

def ppCloseCtx (ctx : Context) : Code V R Int := do
  if (← release ctx.qp) ≠ 0 then return 1
  if (← release ctx.sendCq) ≠ 0 then return 1
  if (← release ctx.receiveCq) ≠ 0 then return 1
  if (← release ctx.mrControlSend) ≠ 0 then return 1
  if (← release ctx.mrControlReceive) ≠ 0 then return 1
  free ctx.buffer
  if (← release ctx.pd) ≠ 0 then return 1
  if let some channel := ctx.channel then
    if (← release channel) ≠ 0 then return 1
  if (← release ctx.context) ≠ 0 then return 1
  free ctx.block
  return 0

/-- The address of the peer, global where its gid has an interface id. -/
def ahAttr (port sl : Nat) (dest : PingpongDest) (sgidIdx : Int) : AhAttr where
  dlid := dest.lid
  sl := sl
  srcPathBits := 0
  portNum := port
  grh := if dest.gid.raw.drop 8 = List.replicate 8 0 then none else some (dest.gid, sgidIdx)

def toRtr (port : Nat) (mtu : Int) (sl : Nat) (dest : PingpongDest) (sgidIdx : Int)
    (q : QueuePair) : QueuePair :=
  { q with
    state := .rtr
    ah := ahAttr port sl dest sgidIdx
    pathMtu := mtu
    destQpNum := dest.qpn
    rqPsn := dest.psn
    maxDestRdAtomic := 1
    minRnrTimer := 12 }

def toRts (myPsn : UInt32) (q : QueuePair) : QueuePair :=
  { q with state := .rts, timeout := 14, retryCnt := 7, rnrRetry := 7, sqPsn := myPsn, maxRdAtomic := 1 }

def ppConnectCtx (ctx : Context) (port : Nat) (myPsn : UInt32) (mtu : Int) (sl : Nat) (dest : PingpongDest)
    (sgidIdx : Int) : Code V R Int := do
  if (← ibvModifyQp ctx.qp .init (toRtr port mtu sl dest sgidIdx)) ≠ 0 then return 1
  if (← ibvModifyQp ctx.qp .rtr (toRts myPsn)) ≠ 0 then return 1
  return 0

end Code

end NetworkOptimization.Devices
