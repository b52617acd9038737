import Mathlib.Data.Finset.Image
import NetworkOptimization.Calls
import NetworkOptimization.DynamicArray

namespace NetworkOptimization.Server

open Words Memory ControlMessages DynamicArray Verbs SequentialCode Calls

variable {n : Nat}

/-- The server's memory. `send i` is the send buffer of the connection to client `i`;
`regions` are the memory regions registered for remote access, and `rkeys` stands for
the keys that successive registrations get. `records k` says whether there is memory for the
`struct MRInfo` of the `k`-th region, and `reallocs k` whether an array of `k` entries can be
doubled. -/
structure ServerMemory (n : Nat) where
  heap : Heap
  regions : Finset Mr
  regCount : Nat
  rkeys : Nat → UInt32
  records : Nat → Bool
  reallocs : Nat → Bool
  kvMalloc : Nat
  database : KeyValueAddressArray
  numShutDownServerRequest : Nat
  send : Fin n → ControlMessage

abbrev ServerCode (n : Nat) (α : Type) := Code (ServerMemory n) α

/-- `set_kv_malloc` compares the flag with 1 and drops the result. -/
def setKvMalloc (s : ServerMemory n) : ServerMemory n := s

def ServerMemory.insertRegion (s : ServerMemory n) (mr : Mr) : ServerMemory n :=
  { s with regions := insert mr s.regions, regCount := s.regCount + 1 }

/-- The `malloc` of a `struct MRInfo`. The handlers write through its result. -/
def mallocMrInfo : ServerCode n Unit :=
  locally (fun s => if s.records s.regCount then some ((), s) else none)

/-- `ibv_reg_mr`. A key that another region still has stands for the null result,
which the callers dereference. -/
def ibvRegMr (start size : UInt64) (access : Access) (s : ServerMemory n) : Option (Mr × ServerMemory n) :=
  let mr := ⟨start, size, s.rkeys s.regCount, access⟩
  if mr.rkey ∈ s.regions.image Mr.rkey then none
  else some (mr, s.insertRegion mr)

def ServerMemory.eraseRegion (s : ServerMemory n) (mr : Mr) : ServerMemory n :=
  { s with regions := s.regions.erase mr }

def ibvDeregMr (mr : Mr) : ServerCode n Int := do
  let failed : Int ← request Verb.ibvDeregMr
  if failed = 0 then
    modify (fun s => s.eraseRegion mr)
    return 0
  else return failed

def ServerMemory.setHeap (s : ServerMemory n) (h : Heap) : ServerMemory n := { s with heap := h }

def ServerMemory.setDatabase (s : ServerMemory n) (array : KeyValueAddressArray) :
    ServerMemory n :=
  { s with database := array }

def ServerMemory.setSend (s : ServerMemory n) (i : Fin n) (m : ControlMessage) : ServerMemory n :=
  { s with send := Function.update s.send i m }

def onHeap {α : Type} (f : Heap → Option (α × Heap)) : ServerCode n α :=
  locally (fun s => (f s.heap).map (fun p => (p.1, s.setHeap p.2)))

def setMessage (i : Fin n) (operation : Operation) (messages : List (List UInt8)) :
    ServerCode n Unit :=
  locally (fun s => (setControlMessage operation messages (s.send i)).map
    (fun m => ((), s.setSend i m)))

/-- Set the message, send it and go on once it is confirmed. -/
def reply (i : Fin n) (operation : Operation) (messages : List (List UInt8))
    (rest : ServerCode n Int) : ServerCode n Int := do
  setMessage i operation messages
  sendThen rest

def lookup (key : List UInt8) : ServerCode n (Option Nat) := do
  let found ← gets (fun s => getKeyValueAddressPair s.heap s.database key)
  require found

def pairAt (idx : Nat) : ServerCode n KeyValueAddressPair := do
  let slot ← gets (fun s => s.database.head[idx]?)
  require slot.join

def setMrRdma (idx : Nat) (info : Option MrInfo) : ServerCode n Unit := do
  let pair ← pairAt idx
  modify (fun s => s.setDatabase (s.database.set idx { pair with mrRdma := info }))

/-- `insert_to_array` on the database. It writes through the result of `realloc`, too. -/
def insertEntry (entry : KeyValueAddressPair) : ServerCode n Unit :=
  locally (fun s => (insertToArray s.kvMalloc s.heap s.database entry).bind (fun p =>
    if s.database.totalLength < p.2.totalLength ∧ s.reallocs s.database.totalLength = false then none
    else some ((), (s.setHeap p.1).setDatabase p.2)))

/-- The test `get_kv_pair != NULL` and `get_kv_pair->mr_rdma != NULL`. -/
def inProgress (found : Option Nat) : ServerCode n Bool :=
  match found with
  | none => return false
  | some idx => do
    let pair ← pairAt idx
    return pair.mrRdma.isSome

def handleEagerKvSet (i : Fin n) (msg : ControlMessage) : ServerCode n Int := do
  let ptrs ← require (decodeControlMessageBuffer .clientKvSetEager msg.buf)
  let bufKey ← require (ptrs[0]?.bind (stringAt msg.buf))
  let getKvPair ← lookup bufKey
  let busy ← inProgress getKvPair
  if busy then reply i .serverInProgress [] (return 0)
  else
    let localKeyAddress ← onHeap (fun h => strdup h (bufKey.length + 1) bufKey)
    let valueLength ← require (ptrs[1]?.bind (word64At msg.buf))
    let bufValue ← require (ptrs[2]?.bind (stringAt msg.buf))
    let localValueAddress ← onHeap (fun h => strdup h valueLength.toNat bufValue)
    insertEntry ⟨localKeyAddress, localValueAddress, valueLength, none⟩
    reply i .serverKvSetSuccessful [] (return 0)

def regionMessages (mr : Mr) : List (List UInt8) :=
  [u64Bytes (bswap64 mr.addr), u32Bytes (htonl mr.rkey)]

def handleRendezvousKvSetKey (i : Fin n) (msg : ControlMessage) : ServerCode n Int := do
  let ptrs ← require (decodeControlMessageBuffer .clientKvSetRendezvous msg.buf)
  let bufKey ← require (ptrs[0]?.bind (stringAt msg.buf))
  let getKvPair ← lookup bufKey
  let busy ← inProgress getKvPair
  if busy then reply i .serverInProgress [] (return 0)
  else
    let localKeyAddress ← onHeap (fun h => strdup h (bufKey.length + 1) bufKey)
    let valueLength ← require (ptrs[1]?.bind (word64At msg.buf))
    let localValueAddress ← onHeap (fun h => malloc h valueLength.toNat)
    mallocMrInfo
    let mr ← locally (ibvRegMr localValueAddress valueLength .remoteWrite)
    -- the region is registered from here on, the entry is made only after the send
    reply i .serverKvSetRendezvous (regionMessages mr) (do
      insertEntry ⟨localKeyAddress, localValueAddress, valueLength,
        some ⟨mr, localValueAddress, valueLength⟩⟩
      return 0)

def handleClientKvGet (i : Fin n) (msg : ControlMessage) : ServerCode n Int := do
  let ptrs ← require (decodeControlMessageBuffer .clientKvGet msg.buf)
  let bufKey ← require (ptrs[0]?.bind (stringAt msg.buf))
  let getKvPair ← lookup bufKey
  match getKvPair with
  | none => reply i .serverKvGetKeyNotFound [] (return 0)
  | some idx =>
    let pair ← pairAt idx
    if pair.mrRdma.isSome then reply i .serverInProgress [] (return 0)
    else if pair.valueSize.toNat < controlMessageBufferSize then
      let block ← gets (fun s => s.heap.blocks pair.valueAddress)
      let value ← require block
      reply i .serverKvGetEager [value] (return 0)
    else
      mallocMrInfo
      let mr ← locally (ibvRegMr pair.valueAddress pair.valueSize .remoteRead)
      reply i .serverKvGetRendezvous (u64Bytes pair.valueSize :: regionMessages mr) (do
        setMrRdma idx (some ⟨mr, pair.valueAddress, pair.valueSize⟩)
        return 0)

/-- `deregister_rdma_mr` uses the pair it looked up without a null check. -/
def deregisterRdmaMr (key : List UInt8) : ServerCode n Int := do
  let found ← lookup key
  let idx ← require found
  let pair ← pairAt idx
  match pair.mrRdma with
  | none => return 0
  | some mrRdma =>
    if (← ibvDeregMr mrRdma.mr) ≠ 0 then return 1
    else
      setMrRdma idx none
      return 0

/-- The two FIN handlers; they ignore what `deregister_rdma_mr` returns. -/
def handleRendezvousFin (fin successful : Operation) (i : Fin n) (msg : ControlMessage) :
    ServerCode n Int := do
  let ptrs ← require (decodeControlMessageBuffer fin msg.buf)
  let bufKey ← require (ptrs[0]?.bind (stringAt msg.buf))
  let _ ← deregisterRdmaMr bufKey
  reply i successful [] (return 0)

def handleClientKvSetRendezvousFin : Fin n → ControlMessage → ServerCode n Int :=
  handleRendezvousFin .clientKvSetRendezvousFin .serverKvSetSuccessful

def handleClientKvGetRendezvousFin : Fin n → ControlMessage → ServerCode n Int :=
  handleRendezvousFin .clientKvGetRendezvousFin .serverKvGetSuccessful

inductive LoopExit where
  | continue
  | return
  deriving DecidableEq

def ServerMemory.countShutDown (s : ServerMemory n) : ServerMemory n :=
  { s with numShutDownServerRequest := s.numShutDownServerRequest + 1 }

/-- The choice of the handler in `run_server`. No handler's result is used. -/
def dispatch (i : Fin n) (msg : ControlMessage) : ServerCode n LoopExit :=
  match msg.operation with
  | .shutDownServer => do
    modify ServerMemory.countShutDown
    let count ← gets ServerMemory.numShutDownServerRequest
    if count = n then
      locally (fun s => (freeArray s.kvMalloc s.heap s.database).map (fun h => ((), s.setHeap h)))
      return .return
    else return .continue
  | .clientKvSetEager => do let _ ← handleEagerKvSet i msg; return .continue
  | .clientKvSetRendezvous => do let _ ← handleRendezvousKvSetKey i msg; return .continue
  | .clientKvGetRendezvousFin => do let _ ← handleClientKvGetRendezvousFin i msg; return .continue
  | .clientKvGet => do let _ ← handleClientKvGet i msg; return .continue
  | .clientKvSetRendezvousFin => do let _ ← handleClientKvSetRendezvousFin i msg; return .continue
  | .serverKvSetRendezvous | .serverKvGetEager | .serverKvGetRendezvous
  | .serverKvGetKeyNotFound | .serverInProgress | .serverKvSetSuccessful
  | .serverKvGetSuccessful => return .continue

/-- One pass of the `for` loop of `run_server`, for client `i`. -/
def runServerPass (i : Fin n) : ServerCode n LoopExit := do
  if (← getRemoteControlMessage false) = 1 then return .continue
  else
    let remoteControlMessage ← readMessage
    dispatch i remoteControlMessage

/-- The memory with which `run_server` enters its loop. -/
def runServerInit (place : Nat → UInt64) (junk : Nat → Nat → UInt8) (rkeys : Nat → UInt32)
    (records reallocs : Nat → Bool) (send : Fin n → ControlMessage) : ServerMemory n :=
  let s := setKvMalloc
    { heap := ⟨fun _ => none, 0, place, junk⟩
      regions := ∅
      regCount := 0
      rkeys := rkeys
      records := records
      reallocs := reallocs
      kvMalloc := 0
      database := initializeKeyValueAddressArray 0
      numShutDownServerRequest := 0
      send := send }
  { s with database := initializeKeyValueAddressArray 20 }

end NetworkOptimization.Server
