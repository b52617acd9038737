import NetworkOptimization.Client
import NetworkOptimization.Resources

namespace NetworkOptimization.Network

open Words Memory ControlMessages DynamicArray Verbs SequentialCode Calls Server Handlers ServerLoop
open Client (ClientMemory)

variable {n : Nat}

/-- One side of a connection. `moved` are the bytes that the RDMA request at the head of
the send queue has transferred so far, `inbound` the messages under way to this side. -/
structure Port where
  sendQueue : List WorkRequest
  sendCq : List Wc
  moved : Finset Nat
  inbound : List ControlMessage
  receive : ControlMessage
  receiveCq : List Wc
  queue : ReceiveQueue

namespace Port

/-- What the verbs give to the code on this side; `none` while a call blocks. -/
def answer (p : Port) (dereg : Int) : (verb : Verb) → Option (verb.Answer × Port)
  | .ibvPostSend wr => some ((0 : Int), { p with sendQueue := p.sendQueue ++ [wr] })
  | .pollNSendWc =>
    match p.sendCq with
    | [] => none
    | wc :: wcs => some (sendResult wc, { p with sendCq := wcs })
  | .pollNextReceiveWc blocking =>
    let polls := match p.receiveCq with
      | [] => [.empty]
      | wc :: _ => [.completion wc]
    (pollNextReceiveWc blocking (fun _ => true) p.queue polls).map
      (fun r => (r.1.1, { p with receiveCq := p.receiveCq.tail, queue := r.1.2 }))
  | .readMessage => some (p.receive, p)
  | .ibvDeregMr => some (dereg, p)

def conclude (p : Port) (wc : Wc) : Port :=
  { p with sendQueue := p.sendQueue.tail, sendCq := p.sendCq ++ [wc], moved := ∅ }

def arrive (p : Port) (msg : ControlMessage) : Port := { p with inbound := p.inbound ++ [msg] }

/-- A message goes into the receive buffer that all posted receives share. No post of a receive
fails here, so that `routs` is the number of receives in the queue (`Receives.kvOpen_exact`). -/
def deliver (p : Port) : Option Port :=
  match p.inbound with
  | [] => none
  | msg :: msgs =>
    if (p.receiveCq.length : Int) < p.queue.routs then
      some { p with
        inbound := msgs
        receive := msg
        receiveCq := p.receiveCq ++ [⟨.success, .recv⟩] }
    else none

structure Fresh (p : Port) : Prop where
  sendQueue : p.sendQueue = []
  sendCq : p.sendCq = []
  moved : p.moved = ∅
  inbound : p.inbound = []
  receiveCq : p.receiveCq = []
  queue : p.queue = ⟨rxDepth, rxDepth⟩

end Port

inductive Request where
  | kvSet (key value : CString)
  | kvGet (key : CString)
  deriving DecidableEq

namespace Request

def call : Request → Client.Call
  | .kvSet key value => .kvSet key value
  | .kvGet key => .kvGet key

def key : Request → CString
  | .kvSet key _ => key
  | .kvGet key => key

end Request

/-- The `j`-th call of client `c`: its program, and `shut_down_server` behind it. -/
def callAt (programs : Fin n → List Request) (c : Fin n) (j : Nat) : Option Client.Call :=
  ((programs c).map Request.call ++ [.shutDownServer])[j]?

/-- What can be observed of a run: a message is set for sending, a message is read in
a receive buffer, a call returns. `call` counts the calls of the client. -/
inductive Event (n : Nat) where
  | asked (c : Fin n) (call : Nat) (request : ControlMessage)
  | answered (c : Fin n) (request reply : ControlMessage)
  | took (c : Fin n) (call : Nat) (reply : ControlMessage)
  | returned (c : Fin n) (call : Nat) (result : Int) (value : Option (List UInt8))
  deriving DecidableEq

/-- A client process. `thread` is where its current call rests. -/
structure ClientState where
  mem : ClientMemory
  thread : Option (Stop ClientMemory Verb Verb.Answer Int)
  index : Nat
  port : Port

/-- The clients, the server and their connections; `history` has the newest event first. -/
structure World (n : Nat) where
  client : Fin n → ClientState
  mem : ServerMemory n
  thread : Option (Fin n × Stop (ServerMemory n) Verb Verb.Answer LoopExit)
  port : Fin n → Port
  history : List (Event n)

namespace World

def setClient (S : World n) (c : Fin n) (s : ClientState) : World n :=
  { S with client := Function.update S.client c s }

def setPort (S : World n) (c : Fin n) (p : Port) : World n :=
  { S with port := Function.update S.port c p }

def log (S : World n) (events : List (Event n)) : World n :=
  { S with history := events ++ S.history }

end World

def sends {σ α : Type} : Stop σ Verb Verb.Answer α → Bool
  | .waiting (.ibvPostSend .send) _ => true
  | _ => false

inductive Side where
  | client
  | server
  deriving DecidableEq

/-- What becomes of a posted message: it arrives and is confirmed, it is lost, or it
arrives although its completion reports a failure. -/
inductive Fate where
  | ok
  | lost
  | late
  deriving DecidableEq

namespace Fate

def status : Fate → WcStatus
  | .ok => .success
  | .lost | .late => .failure

def Arrives : Fate → Prop
  | .ok | .late => True
  | .lost => False

instance : DecidablePred Arrives
  | .ok | .late => .isTrue trivial
  | .lost => .isFalse id

end Fate

/-- The steps of a run. `client` and `server` let a side go on to its next call of a
verb, `dereg` is what `ibv_dereg_mr` answers then. -/
inductive Label (n : Nat) where
  | call (c : Fin n)
  | client (c : Fin n) (dereg : Int)
  | ret (c : Fin n)
  | server (dereg : Int)
  | next
  | send (side : Side) (c : Fin n) (fate : Fate)
  | deliver (side : Side) (c : Fin n)
  | copy (c : Fin n) (mr : Mr) (i : Nat)
  | complete (c : Fin n) (ok : Bool)

def asks (c : Fin n) (call : Nat) (m : ClientMemory)
    (stop : Stop ClientMemory Verb Verb.Answer Int) : List (Event n) :=
  if sends stop then [.asked c call m.send] else []

def takes (c : Fin n) (call : Nat) (p : Port) : Verb → List (Event n)
  | .readMessage => [.took c call p.receive]
  | .ibvPostSend _ | .pollNSendWc | .pollNextReceiveWc _ | .ibvDeregMr => []

def result (m : ClientMemory) : Option (List UInt8) := m.var.bind (cstr m.heap)

def stepCall (programs : Fin n → List Request) (S : World n) (c : Fin n) : Option (World n) :=
  match (S.client c).thread with
  | some _ => none
  | none => do
    let call ← callAt programs c (S.client c).index
    let (m, stop) ← settle call.code (S.client c).mem
    some ((S.setClient c { S.client c with mem := m, thread := some stop }).log
      (asks c (S.client c).index m stop))

def stepClient (S : World n) (c : Fin n) (dereg : Int) : Option (World n) :=
  match (S.client c).thread with
  | some (.waiting verb k) => do
    let (a, p) ← (S.client c).port.answer dereg verb
    let (m, stop) ← settle (k a) (S.client c).mem
    some ((S.setClient c { S.client c with mem := m, thread := some stop, port := p }).log
      (asks c (S.client c).index m stop ++ takes c (S.client c).index p verb))
  | _ => none

def stepRet (S : World n) (c : Fin n) : Option (World n) :=
  match (S.client c).thread with
  | some (.done r) =>
    some ((S.setClient c { S.client c with thread := none, index := (S.client c).index + 1 }).log
      [.returned c (S.client c).index r (result (S.client c).mem)])
  | _ => none

def stepServer (S : World n) (dereg : Int) : Option (World n) :=
  match S.thread with
  | some (c, .waiting verb k) => do
    let (a, p) ← (S.port c).answer dereg verb
    let (m, stop) ← settle (k a) S.mem
    some (({ S with mem := m, thread := some (c, stop) }.setPort c p).log
      (if sends stop then [.answered c p.receive (m.send c)] else []))
  | _ => none

def stepNext (S : World n) : Option (World n) :=
  match S.thread with
  | some (c, .done .continue) =>
    (settle (runServerPass (Loop.following c)) S.mem).map
      (fun p => { S with mem := p.1, thread := some (Loop.following c, p.2) })
  | _ => none

/-- The adapter sends what stands in the send buffer at this moment. -/
def stepSend (S : World n) (side : Side) (c : Fin n) (fate : Fate) : Option (World n) :=
  match side with
  | .client =>
    match (S.client c).port.sendQueue with
    | .send :: _ =>
      let S' := S.setClient c { S.client c with
        port := (S.client c).port.conclude ⟨fate.status, .send⟩ }
      some (if fate.Arrives then S'.setPort c ((S.port c).arrive (S.client c).mem.send) else S')
    | _ => none
  | .server =>
    match (S.port c).sendQueue with
    | .send :: _ =>
      let S' := S.setPort c ((S.port c).conclude ⟨fate.status, .send⟩)
      some (if fate.Arrives then
          S'.setClient c { S.client c with port := (S.client c).port.arrive (S.mem.send c) }
        else S')
    | _ => none

def stepDeliver (S : World n) (side : Side) (c : Fin n) : Option (World n) :=
  match side with
  | .client => (S.client c).port.deliver.map (fun p => S.setClient c { S.client c with port := p })
  | .server => (S.port c).deliver.map (S.setPort c)

def access : RdmaOpcode → Access
  | .write => .remoteWrite
  | .read => .remoteRead

/-- The adapters let byte `i` of the request pass: both keys are registered for it and
the byte lies in both regions. -/
def Permits (S : World n) (c : Fin n) (r : RdmaRequest) (mr : Mr) (i : Nat) : Prop :=
  mr ∈ S.mem.regions ∧ mr.rkey = r.rkey ∧ mr.access = access r.opcode ∧
    mr.addr.toNat ≤ r.remoteAddr.toNat ∧
    r.remoteAddr.toNat - mr.addr.toNat + i < mr.length.toNat ∧
    r.lkey ∈ (S.client c).mem.regions ∧ r.lkey.start = r.addr ∧ i < r.lkey.size.toNat ∧
    i < r.length.toNat

instance (S : World n) (c : Fin n) (r : RdmaRequest) (mr : Mr) (i : Nat) :
    Decidable (Permits S c r mr i) := by
  unfold Permits
  infer_instance

def localBytes (m : ClientMemory) : Buffer → Option (List UInt8)
  | .caller bytes => some bytes
  | .block a => m.heap.blocks a

def setLocal (m : ClientMemory) (bytes : List UInt8) : Buffer → Option ClientMemory
  | .caller _ => none
  | .block a => some (m.setHeap (write m.heap a bytes))

def move (s : ClientState) (i : Nat) : ClientState :=
  { s with port := { s.port with moved := insert i s.port.moved } }

/-- One byte of an RDMA transfer, in any order and also more than once. -/
def stepCopy (S : World n) (c : Fin n) (mr : Mr) (i : Nat) : Option (World n) :=
  match (S.client c).port.sendQueue with
  | .rdma r :: _ =>
    if Permits S c r mr i then do
      let there ← S.mem.heap.blocks mr.addr
      let here ← localBytes (S.client c).mem r.addr
      let off := r.remoteAddr.toNat - mr.addr.toNat + i
      match r.opcode with
      | .write =>
        let byte ← here[i]?
        some ({ S with mem := S.mem.setHeap (write S.mem.heap mr.addr (there.set off byte)) }.setClient
          c (move (S.client c) i))
      | .read =>
        let byte ← there[off]?
        let m ← setLocal (S.client c).mem (here.set i byte) r.addr
        some (S.setClient c (move { S.client c with mem := m } i))
    else none
  | _ => none

/-- An RDMA request completes; successfully only when every byte has been moved. -/
def stepComplete (S : World n) (c : Fin n) (ok : Bool) : Option (World n) :=
  match (S.client c).port.sendQueue with
  | .rdma r :: _ =>
    if ok = true → ∀ i < r.length.toNat, i ∈ (S.client c).port.moved then
      some (S.setClient c { S.client c with
        port := (S.client c).port.conclude ⟨if ok then .success else .failure, r.opcode.wc⟩ })
    else none
  | _ => none

def step (programs : Fin n → List Request) (S : World n) : Label n → Option (World n)
  | .call c => stepCall programs S c
  | .client c dereg => stepClient S c dereg
  | .ret c => stepRet S c
  | .server dereg => stepServer S dereg
  | .next => stepNext S
  | .send side c fate => stepSend S side c fate
  | .deliver side c => stepDeliver S side c
  | .copy c mr i => stepCopy S c mr i
  | .complete c ok => stepComplete S c ok

def Step (programs : Fin n → List Request) (S : World n) (l : Label n) (S' : World n) : Prop :=
  step programs S l = some S'

def polling (c : Fin n) : Stop (ServerMemory n) Verb Verb.Answer LoopExit :=
  .waiting (.pollNextReceiveWc false) (afterTake c)

/-- All connections stand, no call has been made and the server enters its loop. -/
structure Start (S : World n) : Prop where
  client : ∀ c, (S.client c).thread = none ∧ (S.client c).index = 0 ∧ (S.client c).port.Fresh
  mem : ∃ place junk rkeys records reallocs send,
    S.mem = runServerInit place junk rkeys records reallocs send
  thread : S.thread = if h : 0 < n then some (⟨0, h⟩, polling ⟨0, h⟩) else none
  port : ∀ c, (S.port c).Fresh
  history : S.history = []

/-- Every verbs call succeeds and every message arrives. -/
def Succeeds : Label n → Prop
  | .client _ dereg => dereg = 0
  | .server dereg => dereg = 0
  | .send _ _ fate => fate = .ok
  | .complete _ ok => ok = true
  | .call _ | .ret _ | .next | .deliver _ _ | .copy _ _ _ => True

end NetworkOptimization.Network
