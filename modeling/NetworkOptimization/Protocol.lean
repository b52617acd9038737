import NetworkOptimization.Network

namespace NetworkOptimization.Protocol

open Words ControlMessages DynamicArray Handlers Tables Network
open Function (update)

variable {n : Nat}

/-- What a client wants of the server: a request of its program, the end of a transfer
through the region it was granted, or the end of the service. -/
inductive Query where
  | request (r : Request)
  | fin (r : Request) (mr : Mr)
  | shutDown

namespace Query

def ofCall : Client.Call → Query
  | .kvSet key value => .request (.kvSet key value)
  | .kvGet key => .request (.kvGet key)
  | .shutDownServer => .shutDown

def call : Query → Client.Call
  | .request r | .fin r _ => r.call
  | .shutDown => .shutDownServer

def key : Query → List UInt8
  | .request r | .fin r _ => r.key.chars
  | .shutDown => []

def operation : Query → Operation
  | .request r => r.call.operation
  | .fin (.kvSet _ _) _ => .clientKvSetRendezvousFin
  | .fin (.kvGet _) _ => .clientKvGetRendezvousFin
  | .shutDown => .shutDownServer

def arguments : Query → List Argument
  | .request r => r.call.arguments
  | .fin r _ => [.string r.key]
  | .shutDown => []

def region : Query → Option Mr
  | .fin _ mr => some mr
  | .request _ | .shutDown => none

end Query

inductive Reply where
  | inProgress
  | setSuccessful
  | getSuccessful
  | keyNotFound
  | value (v : CString)
  | setRendezvous (mr : Mr)
  | getRendezvous (mr : Mr)

namespace Reply

def operation : Reply → Operation
  | .inProgress => .serverInProgress
  | .setSuccessful => .serverKvSetSuccessful
  | .getSuccessful => .serverKvGetSuccessful
  | .keyNotFound => .serverKvGetKeyNotFound
  | .value _ => .serverKvGetEager
  | .setRendezvous _ => .serverKvSetRendezvous
  | .getRendezvous _ => .serverKvGetRendezvous

def arguments : Reply → List Argument
  | .inProgress | .setSuccessful | .getSuccessful | .keyNotFound => []
  | .value v => [.string v]
  | .setRendezvous mr => regionArguments mr
  | .getRendezvous mr => .word64 mr.length :: regionArguments mr

def region : Reply → Option Mr
  | .setRendezvous mr | .getRendezvous mr => some mr
  | .inProgress | .setSuccessful | .getSuccessful | .keyNotFound | .value _ => none

end Reply

inductive Proper : Query → Reply → Prop
  | refused {r} : Proper (.request r) .inProgress
  | stored {key value} (he : Client.Eager key value) :
      Proper (.request (.kvSet key value)) .setSuccessful
  | granted_set {key value mr} (he : ¬ Client.Eager key value) (hlength : mr.length = value.size)
      (haccess : mr.access = .remoteWrite) :
      Proper (.request (.kvSet key value)) (.setRendezvous mr)
  | not_found {key} : Proper (.request (.kvGet key)) .keyNotFound
  | value {key v} : Proper (.request (.kvGet key)) (.value v)
  | granted_get {key mr} (haccess : mr.access = .remoteRead) :
      Proper (.request (.kvGet key)) (.getRendezvous mr)
  | closed_set {key value mr} : Proper (.fin (.kvSet key value) mr) .setSuccessful
  | closed_get {key mr} : Proper (.fin (.kvGet key) mr) .getSuccessful

structure Letter where
  query : Query
  message : ControlMessage
  carries : Carries message query.operation query.arguments

structure Exchange where
  letter : Letter
  reply : Reply
  message : ControlMessage
  carries : Carries message reply.operation reply.arguments
  proper : Proper letter.query reply

def lock (mr : Mr) : Slot := ⟨mr.addr, mr.length, some ⟨mr, mr.addr, mr.length⟩⟩

/-- The entry that an answer makes once it is sent. -/
def Exchange.offer (e : Exchange) : Option (List UInt8 × Slot) :=
  e.reply.region.map (fun mr => (e.letter.query.key, lock mr))

/-- How far a client and the server are with the client's current call. -/
inductive Session where
  | idle
  | going (l : Letter)
  | pending (l : Letter)
  | served (e : Exchange)
  | replied (e : Exchange)
  | holding (r : Request) (mr : Mr) (moved : Finset Nat)
  | finished (call : Client.Call) (success : Bool)
  | stranded (l : Letter)
  | leaving (l : Letter)
  | gone

/-- The key and the region that the client was granted and has not given back. -/
def Session.grant : Session → Option (List UInt8 × Mr)
  | .going l | .pending l => l.query.region.map (fun mr => (l.query.key, mr))
  | .replied e => e.reply.region.map (fun mr => (e.letter.query.key, mr))
  | .holding r mr _ => some (r.key.chars, mr)
  | .idle | .served _ | .finished _ _ | .stranded _ | .leaving _ | .gone => none

def Session.call : Session → Option Client.Call
  | .going l | .pending l | .stranded l => some l.query.call
  | .served e | .replied e => some e.letter.query.call
  | .holding r _ _ => some r.call
  | .finished call _ => some call
  | .idle | .leaving _ | .gone => none

/-- What the server is at: it gives a region back or has an answer to send. -/
inductive Work (n : Nat) where
  | free
  | releasing (c : Fin n) (mr : Mr)
  | answering (c : Fin n) (e : Exchange)
  | returned

def Work.offer : Work n → Option (List UInt8 × Slot)
  | .answering _ e => e.offer
  | .free | .releasing _ _ | .returned => none

/-- The protocol without its messages' ways: sessions, and a store of values with one
lock for each key. `buffer` is what the caller's variable of a client leads to. -/
structure State (n : Nat) where
  session : Fin n → Session
  index : Fin n → Nat
  buffer : Fin n → Option (List UInt8)
  work : Work n
  table : List UInt8 → Option Slot
  cells : UInt64 → Option (List UInt8)
  count : Nat
  history : List (Event n)

/-- No value of the key is open to a client. -/
def State.Free (P : State n) (key : List UInt8) : Prop :=
  ∀ sl, P.table key = some sl → sl.mrRdma = none

/-- The steps of the protocol. With `lossy` a message can get lost, but no FIN. -/
inductive Step (programs : Fin n → List Request) (lossy : Prop) : State n → State n → Prop
  | ask {P c call l} (hs : P.session c = .idle)
      (hcall : callAt programs c (P.index c) = some call) (hq : l.query = .ofCall call) :
      Step programs lossy P { P with
        session := update P.session c (.going l)
        history := .asked c (P.index c) l.message :: P.history }
  | transmit {P c l} (hs : P.session c = .going l) (hq : l.query ≠ .shutDown) :
      Step programs lossy P { P with session := update P.session c (.pending l) }
  | transmit_last {P c l} (hs : P.session c = .going l) (hq : l.query = .shutDown) :
      Step programs lossy P { P with session := update P.session c (.leaving l) }
  | lose {P c l} (hlossy : lossy) (hs : P.session c = .going l) (hq : l.query.region = none) :
      Step programs lossy P { P with session := update P.session c (.finished l.query.call false) }
  | close {P c e success b} (hs : P.session c = .replied e) (hg : e.reply.region = none)
      (hv : ∀ v, e.reply ≠ .value v)
      (hsuccess : success = true ↔ e.reply = .setSuccessful ∨ e.reply = .getSuccessful)
      (hb : success = true → b = P.buffer c) :
      Step programs lossy P { P with
        session := update P.session c (.finished e.letter.query.call success)
        buffer := update P.buffer c b
        history := .took c (P.index c) e.message :: P.history }
  | take_value {P c e v} (hs : P.session c = .replied e) (hv : e.reply = .value v) :
      Step programs lossy P { P with
        session := update P.session c (.finished e.letter.query.call true)
        buffer := update P.buffer c (some v.bytes)
        history := .took c (P.index c) e.message :: P.history }
  | take_set {P c e r mr} (hs : P.session c = .replied e) (hq : e.letter.query = .request r)
      (hx : e.reply = .setRendezvous mr) :
      Step programs lossy P { P with
        session := update P.session c (.holding r mr ∅)
        history := .took c (P.index c) e.message :: P.history }
  | take_get {P c e r mr buf} (hs : P.session c = .replied e) (hq : e.letter.query = .request r)
      (hx : e.reply = .getRendezvous mr) (hbuf : buf.length = mr.length.toNat) :
      Step programs lossy P { P with
        session := update P.session c (.holding r mr ∅)
        buffer := update P.buffer c (some buf)
        history := .took c (P.index c) e.message :: P.history }
  | write {P c key v mr moved i byte block} (hs : P.session c = .holding (.kvSet key v) mr moved)
      (hbyte : v.bytes[i]? = some byte) (hblock : P.cells mr.addr = some block) :
      Step programs lossy P { P with
        session := update P.session c (.holding (.kvSet key v) mr (insert i moved))
        cells := update P.cells mr.addr (some (block.set i byte)) }
  | read {P c key mr moved i byte block buf} (hs : P.session c = .holding (.kvGet key) mr moved)
      (hblock : P.cells mr.addr = some block) (hbyte : block[i]? = some byte)
      (hbuf : P.buffer c = some buf) :
      Step programs lossy P { P with
        session := update P.session c (.holding (.kvGet key) mr (insert i moved))
        buffer := update P.buffer c (some (buf.set i byte)) }
  | fin {P c r mr moved l} (hs : P.session c = .holding r mr moved)
      (hall : ∀ i < mr.length.toUInt32.toNat, i ∈ moved) (hq : l.query = .fin r mr) :
      Step programs lossy P { P with
        session := update P.session c (.going l)
        history := .asked c (P.index c) l.message :: P.history }
  | ret {P c call success result} (hs : P.session c = .finished call success)
      (hresult : result = 0 ↔ success = true) :
      Step programs lossy P { P with
        session := update P.session c .idle
        index := update P.index c (P.index c + 1)
        history := .returned c (P.index c) result ((P.buffer c).bind cstring) :: P.history }
  | leave {P c result} (hs : P.session c = .gone ∨ ∃ l, P.session c = .leaving l)
      (hcall : callAt programs c (P.index c) = some .shutDownServer) :
      Step programs lossy P { P with
        index := update P.index c (P.index c + 1)
        history := .returned c (P.index c) result ((P.buffer c).bind cstring) :: P.history }
  | refuse {P c e r sl} (hw : P.work = .free) (hs : P.session c = .pending e.letter)
      (hq : e.letter.query = .request r) (hx : e.reply = .inProgress)
      (hsl : P.table r.key.chars = some sl) (hlocked : sl.mrRdma.isSome) :
      Step programs lossy P { P with
        session := update P.session c (.served e)
        work := .answering c e
        history := .answered c e.letter.message e.message :: P.history }
  | store {P c e key v a b x} (hw : P.work = .free) (hs : P.session c = .pending e.letter)
      (hq : e.letter.query = .request (.kvSet key v)) (hx : e.reply = .setSuccessful)
      (hfree : P.Free key.chars) (ha : P.cells a = none) (hb : P.cells b = none) (hab : a ≠ b) :
      Step programs lossy P { P with
        session := update P.session c (.served e)
        work := .answering c e
        table := update P.table key.chars (some ⟨b, v.size, none⟩)
        cells := update (update P.cells a (some x)) b (some v.bytes)
        history := .answered c e.letter.message e.message :: P.history }
  | grant_set {P c e key v mr a x y} (hw : P.work = .free) (hs : P.session c = .pending e.letter)
      (hq : e.letter.query = .request (.kvSet key v)) (hx : e.reply = .setRendezvous mr)
      (hfree : P.Free key.chars) (ha : P.cells a = none) (hb : P.cells mr.addr = none)
      (hab : a ≠ mr.addr) (hy : y.length = mr.length.toNat) :
      Step programs lossy P { P with
        session := update P.session c (.served e)
        work := .answering c e
        cells := update (update P.cells a (some x)) mr.addr (some y)
        history := .answered c e.letter.message e.message :: P.history }
  | not_found {P c e key} (hw : P.work = .free) (hs : P.session c = .pending e.letter)
      (hq : e.letter.query = .request (.kvGet key)) (hx : e.reply = .keyNotFound)
      (hsl : P.table key.chars = none) :
      Step programs lossy P { P with
        session := update P.session c (.served e)
        work := .answering c e
        history := .answered c e.letter.message e.message :: P.history }
  | value {P c e key v sl rest} (hw : P.work = .free) (hs : P.session c = .pending e.letter)
      (hq : e.letter.query = .request (.kvGet key)) (hx : e.reply = .value v)
      (hsl : P.table key.chars = some sl) (hfree : sl.mrRdma = none)
      (hblock : P.cells sl.address = some (v.bytes ++ rest)) :
      Step programs lossy P { P with
        session := update P.session c (.served e)
        work := .answering c e
        history := .answered c e.letter.message e.message :: P.history }
  | grant_get {P c e key mr sl} (hw : P.work = .free) (hs : P.session c = .pending e.letter)
      (hq : e.letter.query = .request (.kvGet key)) (hx : e.reply = .getRendezvous mr)
      (hsl : P.table key.chars = some sl) (hfree : sl.mrRdma = none)
      (haddr : mr.addr = sl.address) (hlength : mr.length = sl.size) :
      Step programs lossy P { P with
        session := update P.session c (.served e)
        work := .answering c e
        history := .answered c e.letter.message e.message :: P.history }
  | release {P c l r mr} (hw : P.work = .free) (hs : P.session c = .pending l)
      (hq : l.query = .fin r mr) :
      Step programs lossy P { P with work := .releasing c mr }
  | finish {P c e r mr} (hw : P.work = .releasing c mr) (hs : P.session c = .pending e.letter)
      (hq : e.letter.query = .fin r mr) :
      Step programs lossy P { P with
        session := update P.session c (.served e)
        work := .answering c e
        table := update P.table r.key.chars (some ⟨mr.addr, mr.length, none⟩)
        history := .answered c e.letter.message e.message :: P.history }
  | count {P c l} (hw : P.work = .free) (hs : P.session c = .leaving l) :
      Step programs lossy P { P with
        session := update P.session c .gone
        work := if P.count + 1 = n then .returned else .free
        count := P.count + 1 }
  | reply {P c e} (hw : P.work = .answering c e) :
      Step programs lossy P { P with
        session := update P.session c (.replied e)
        work := .free
        table := record P.table e.offer }
  | lose_reply {P c e} (hlossy : lossy) (hw : P.work = .answering c e) :
      Step programs lossy P { P with
        session := update P.session c (.stranded e.letter)
        work := .free }

structure Start (P : State n) : Prop where
  session : ∀ c, P.session c = .idle
  index : ∀ c, P.index c = 0
  work : P.work = .free
  table : ∀ key, P.table key = none
  count : P.count = 0
  history : P.history = []

end NetworkOptimization.Protocol
