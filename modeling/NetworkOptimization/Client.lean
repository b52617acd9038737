import Mathlib.Data.Finset.Erase
import Mathlib.Data.Finset.Insert
import NetworkOptimization.Calls
import NetworkOptimization.Memory

namespace NetworkOptimization.Client

open Words Memory ControlMessages Verbs SequentialCode Calls

/-- The memory of one client. `var` is what the caller's `*var` points to. -/
structure ClientMemory where
  heap : Heap
  send : ControlMessage
  ctx : RdmaContext
  regions : Finset LocalMr
  regCount : Nat
  var : Option UInt64

abbrev ClientCode (α : Type) := Code ClientMemory α

namespace ClientMemory

def setSend (m : ClientMemory) (msg : ControlMessage) : ClientMemory := { m with send := msg }

def setHeap (m : ClientMemory) (h : Heap) : ClientMemory := { m with heap := h }

def setContext (m : ClientMemory) (ctx : RdmaContext) : ClientMemory := { m with ctx := ctx }

def setVar (m : ClientMemory) (var : Option UInt64) : ClientMemory := { m with var := var }

def insertRegion (m : ClientMemory) (mr : LocalMr) : ClientMemory :=
  { m with regions := insert mr m.regions, regCount := m.regCount + 1 }

def eraseRegion (m : ClientMemory) (mr : LocalMr) : ClientMemory :=
  { m with regions := m.regions.erase mr }

end ClientMemory

def ibvRegMr (start : Buffer) (size : UInt64) (m : ClientMemory) : LocalMr × ClientMemory :=
  let mr := ⟨m.regCount, start, size⟩
  (mr, m.insertRegion mr)

def regMr (start : Buffer) (size : UInt64) : ClientCode LocalMr :=
  locally (fun m => some (ibvRegMr start size m))

def ibvDeregMr (mr : LocalMr) : ClientCode Int := do
  let failed : Int ← request Verb.ibvDeregMr
  if failed = 0 then
    modify (fun m => m.eraseRegion mr)
    return 0
  else return failed

def setMessage (operation : Operation) (messages : List (List UInt8)) : ClientCode Unit :=
  locally (fun m => (setControlMessage operation messages m.send).map
    (fun msg => ((), m.setSend msg)))

/-- `pp_post_rdma`; its callers ignore the result. -/
def ppPostRdma (opcode : RdmaOpcode) : ClientCode Int := do
  let ctx ← gets ClientMemory.ctx
  let mrRdma ← require ctx.mrRdma
  let start ← require ctx.mrRdmaStartPtr
  ibvPostSend (.rdma (rdmaRequest ctx mrRdma start opcode))

def rdmaThen (opcode : RdmaOpcode) (rest : ClientCode Int) : ClientCode Int := do
  let _ ← ppPostRdma opcode
  confirm rest

theorem rdmaThen_code (opcode : RdmaOpcode) (rest : ClientCode Int) : rdmaThen opcode rest = (do
    let ctx ← gets ClientMemory.ctx
    let mrRdma ← require ctx.mrRdma
    let start ← require ctx.mrRdmaStartPtr
    let _ ← (ibvPostSend (.rdma (rdmaRequest ctx mrRdma start opcode)) : ClientCode Int)
    confirm rest) := by
  simp only [rdmaThen, ppPostRdma, bind_bind]

def setResult (msg : ControlMessage) : ClientCode Int :=
  if msg.operation = .serverKvSetSuccessful then return 0 else return 1

/-- The end of a rendezvous set, from the deregistration of its region on. -/
def closeSet (mr : LocalMr) : ClientCode Int := do
  if (← ibvDeregMr mr) ≠ 0 then return 1
  else
    modify (fun m => m.setContext ⟨none, none, 0, 0, 0⟩)
    receiveThen setResult

def finSet (key : CString) (mr : LocalMr) : ClientCode Int := do
  setMessage .clientKvSetRendezvousFin [key.bytes]
  sendThen (closeSet mr)

def grantedSet (key : CString) (mr : LocalMr) (msg : ControlMessage) : ClientCode Int := do
  let ptrs ← require (decodeControlMessageBuffer .serverKvSetRendezvous msg.buf)
  let va ← require (ptrs[0]?.bind (word64At msg.buf))
  let rkey ← require (ptrs[1]?.bind (word32At msg.buf))
  modify (fun m => m.setContext ⟨some mr, some mr.start, mr.size, va, rkey⟩)
  rdmaThen .write (finSet key mr)

def refusedSet (mr : LocalMr) : ClientCode Int := do
  if (← ibvDeregMr mr) ≠ 0 then return 3 else return 2

def eagerReply (msg : ControlMessage) : ClientCode Int :=
  if msg.operation = .serverInProgress then return 2 else setResult msg

def rendezvousReply (key : CString) (mr : LocalMr) (msg : ControlMessage) : ClientCode Int :=
  if msg.operation = .serverInProgress then refusedSet mr else grantedSet key mr msg

def kvSet (key value : CString) : ClientCode Int := do
  if key.strlen + value.strlen + 2 ≤ controlMessageBufferSize then
    setMessage .clientKvSetEager [key.bytes, u64Bytes value.size, value.bytes]
    sendThen (receiveThen eagerReply)
  else
    setMessage .clientKvSetRendezvous [key.bytes, u64Bytes value.size]
    sendThen do
      let mr ← regMr (.caller value.bytes) value.size
      receiveThen (rendezvousReply key mr)

def getResult (msg : ControlMessage) : ClientCode Int :=
  if msg.operation = .serverKvGetSuccessful then return 0 else return 1

def closeGet : ClientCode Int := do
  let ctx ← gets ClientMemory.ctx
  let mrRdma ← require ctx.mrRdma
  if (← ibvDeregMr mrRdma) ≠ 0 then return 1
  else
    modify (fun m => m.setContext { m.ctx with mrRdmaStartPtr := none, mrRdmaSize := 0 })
    receiveThen getResult

def finGet (key : CString) : ClientCode Int := do
  setMessage .clientKvGetRendezvousFin [key.bytes]
  sendThen closeGet

def grantedGet (key : CString) (msg : ControlMessage) : ClientCode Int := do
  let ptrs ← require (decodeControlMessageBuffer .serverKvGetRendezvous msg.buf)
  let size ← require (ptrs[0]?.bind (word64At msg.buf))
  let va ← require (ptrs[1]?.bind (word64At msg.buf))
  let rkey ← require (ptrs[2]?.bind (word32At msg.buf))
  let var ← locally (fun m => (malloc m.heap size.toNat).map (fun p => (p.1, m.setHeap p.2)))
  modify (fun m => m.setVar (some var))
  let mr ← regMr (.block var) size
  modify (fun m => m.setContext ⟨some mr, some (.block var), size, va, rkey⟩)
  rdmaThen .read (finGet key)

def valueReply (msg : ControlMessage) : ClientCode Int := do
  let ptrs ← require (decodeControlMessageBuffer .serverKvGetEager msg.buf)
  let value ← require (ptrs[0]?.bind (stringAt msg.buf))
  let var ← locally (fun m => (strdup m.heap (value.length + 1) value).map
    (fun p => (p.1, m.setHeap p.2)))
  modify (fun m => m.setVar (some var))
  return 0

def noValue : ClientCode Int := do
  modify (fun m => m.setVar none)
  return 1

def getReply (key : CString) (msg : ControlMessage) : ClientCode Int :=
  match msg.operation with
  | .serverKvGetEager => valueReply msg
  | .serverKvGetRendezvous => grantedGet key msg
  | .shutDownServer | .clientKvSetEager | .clientKvSetRendezvous | .serverKvSetRendezvous
  | .clientKvGet | .serverKvGetKeyNotFound | .serverInProgress | .clientKvGetRendezvousFin
  | .clientKvSetRendezvousFin | .serverKvSetSuccessful | .serverKvGetSuccessful => noValue

def kvGet (key : CString) : ClientCode Int := do
  setMessage .clientKvGet [key.bytes]
  sendThen (receiveThen (getReply key))

def shutDownServer : ClientCode Int := do
  setMessage .shutDownServer []
  sendThen (return 0)

inductive Call where
  | kvSet (key value : CString)
  | kvGet (key : CString)
  | shutDownServer
  deriving DecidableEq

def Call.code : Call → ClientCode Int
  | .kvSet key value => Client.kvSet key value
  | .kvGet key => Client.kvGet key
  | .shutDownServer => Client.shutDownServer

/-- The test with which `kv_set` picks the eager path. -/
def Eager (key value : CString) : Prop :=
  key.strlen + value.strlen + 2 ≤ controlMessageBufferSize

instance (key value : CString) : Decidable (Eager key value) := Nat.decLe _ _

variable {α : Type}

theorem settle_setMessage (operation : Operation) (messages : List (List UInt8))
    (f : Unit → ClientCode α) (m : ClientMemory) :
    settle (setMessage operation messages >>= f) m =
      (setControlMessage operation messages m.send).bind (fun msg => settle (f ()) (m.setSend msg)) := by
  rw [setMessage, settle_locally_bind, Option.bind_map]
  rfl

def Call.arguments : Call → List Argument
  | .kvSet key value =>
    if Eager key value then [.string key, .word64 value.size, .string value]
    else [.string key, .word64 value.size]
  | .kvGet key => [.string key]
  | .shutDownServer => []

def Call.operation : Call → Operation
  | .kvSet key value => if Eager key value then .clientKvSetEager else .clientKvSetRendezvous
  | .kvGet _ => .clientKvGet
  | .shutDownServer => .shutDownServer

def Call.rest : Call → ClientCode Int
  | .kvSet key value =>
    if Eager key value then receiveThen eagerReply
    else do
      let mr ← regMr (.caller value.bytes) value.size
      receiveThen (rendezvousReply key mr)
  | .kvGet key => receiveThen (getReply key)
  | .shutDownServer => return 0

theorem Call.kinds (call : Call) : call.arguments.map Argument.kind = call.operation.fields := by
  cases call with
  | kvSet key value => by_cases h : Eager key value <;> simp [Call.arguments, Call.operation, h] <;> rfl
  | kvGet key => rfl
  | shutDownServer => rfl

theorem points_bytes (args : List Argument) : Points args (args.map Argument.bytes) := by
  induction args with
  | nil => exact List.Forall₂.nil
  | cons a args ih => exact List.Forall₂.cons (List.prefix_refl _) ih

theorem Call.code_eq (call : Call) : call.code = (do
    setMessage call.operation (call.arguments.map Argument.bytes)
    sendThen call.rest) := by
  cases call with
  | kvSet key value =>
    by_cases h : Eager key value
    · have h' : key.strlen + value.strlen + 2 ≤ controlMessageBufferSize := h
      simp only [Call.code, Client.kvSet, Call.operation, Call.arguments, Call.rest, h, h', ↓reduceIte]
      rfl
    · have h' : ¬ key.strlen + value.strlen + 2 ≤ controlMessageBufferSize := h
      simp only [Call.code, Client.kvSet, Call.operation, Call.arguments, Call.rest, h, h', ↓reduceIte]
      rfl
  | kvGet key => rfl
  | shutDownServer => rfl

theorem Call.settle_code (call : Call) (m : ClientMemory) :
    settle call.code m =
      (setControlMessage call.operation (call.arguments.map Argument.bytes) m.send).map
        (fun msg => (m.setSend msg, .waiting (.ibvPostSend .send) (afterPost call.rest))) := by
  rw [Call.code_eq, settle_setMessage, Option.map_eq_bind]
  rfl

def Call.Fits (call : Call) : Prop := (encode call.arguments).length ≤ controlMessageBufferSize

theorem Call.settle_fits {call : Call} (hf : call.Fits) (m : ClientMemory) :
    ∃ msg, Carries msg call.operation call.arguments ∧ settle call.code m =
      some (m.setSend msg, .waiting (.ibvPostSend .send) (afterPost call.rest)) := by
  obtain ⟨msg, hs, hc⟩ := setControlMessage_carries call.kinds (points_bytes call.arguments) m.send hf
  exact ⟨msg, hc, by rw [Call.settle_code, hs]; rfl⟩

theorem Call.settle_overruns {call : Call} (hf : ¬ call.Fits) (m : ClientMemory) :
    settle call.code m = none := by
  rw [Call.settle_code, setControlMessage_none call.kinds (points_bytes call.arguments) m.send
    (Nat.lt_of_not_le hf)]
  rfl

/-- The server finds key, size and, in an eager message, the value in its own copy of
the message and nowhere else. -/
def Conveys (msg : ControlMessage) (key value : CString) : Prop :=
  (msg.operation = .clientKvSetEager ∧ ∃ p q r,
      decodeControlMessageBuffer .clientKvSetEager msg.buf = some [p, q, r] ∧
      stringAt msg.buf p = some key.chars ∧ word64At msg.buf q = some value.size ∧
      stringAt msg.buf r = some value.chars) ∨
    (msg.operation = .clientKvSetRendezvous ∧ ∃ p q,
      decodeControlMessageBuffer .clientKvSetRendezvous msg.buf = some [p, q] ∧
      stringAt msg.buf p = some key.chars ∧ word64At msg.buf q = some value.size)

theorem conveys_of_carries {msg : ControlMessage} {key value : CString}
    (hc : Carries msg (Call.kvSet key value).operation (Call.kvSet key value).arguments) :
    Conveys msg key value := by
  have hd := hc.decode (Call.kvSet key value).kinds
  obtain ⟨ho, stale, hb⟩ := hc
  have hr := offsets_readAt (Call.kvSet key value).arguments [] stale
  rw [List.nil_append, ← hb] at hr
  by_cases h : Eager key value
  · simp only [Call.operation, Call.arguments, h, ↓reduceIte] at ho hd hr
    cases hr with
    | cons hkey hr =>
      cases hr with
      | cons hsize hr =>
        cases hr with
        | cons hvalue hr => exact .inl ⟨ho, _, _, _, hd, hkey, hsize, hvalue⟩
  · simp only [Call.operation, Call.arguments, h, ↓reduceIte] at ho hd hr
    cases hr with
    | cons hkey hr =>
      cases hr with
      | cons hsize hr => exact .inr ⟨ho, _, _, hd, hkey, hsize⟩

/-- The size test of `kv_set` forgets the eight bytes between key and value. -/
theorem fits_kvSet_iff {key value : CString}
    (hkey : key.strlen + 1 + 8 ≤ controlMessageBufferSize) :
    (Call.kvSet key value).Fits ↔
      ¬ (4088 < key.strlen + value.strlen + 2 ∧ key.strlen + value.strlen + 2 ≤ 4096) := by
  by_cases h : Eager key value
  · have h' : key.strlen + value.strlen + 2 ≤ 4096 := h
    simp only [Call.Fits, Call.arguments, h, ↓reduceIte, encode_cons, encode_nil, Argument.bytes,
      List.length_append, CString.bytes_length, u64Bytes_length, List.length_nil,
      controlMessageBufferSize]
    omega
  · have h' : ¬ key.strlen + value.strlen + 2 ≤ 4096 := h
    simp only [controlMessageBufferSize] at hkey
    simp only [Call.Fits, Call.arguments, h, ↓reduceIte, encode_cons, encode_nil, Argument.bytes,
      List.length_append, CString.bytes_length, u64Bytes_length, List.length_nil,
      controlMessageBufferSize]
    omega

/-- The message of `kv_set` stays in its buffer and conveys the request to the server
for all lengths but eight. -/
theorem kv_set_conveys_iff (key value : CString)
    (hkey : key.strlen + 1 + 8 ≤ controlMessageBufferSize) (m : ClientMemory) :
    (∃ m' stop, settle (kvSet key value) m = some (m', stop) ∧ Conveys m'.send key value) ↔
      ¬ (4088 < key.strlen + value.strlen + 2 ∧ key.strlen + value.strlen + 2 ≤ 4096) := by
  rw [← fits_kvSet_iff hkey]
  constructor
  · rintro ⟨m', stop, hs, -⟩
    by_contra hf
    have hn := Call.settle_overruns hf m
    rw [Call.code] at hn
    rw [hn] at hs
    cases hs
  · intro hf
    obtain ⟨msg, hc, hs⟩ := Call.settle_fits hf m
    exact ⟨m.setSend msg, _, hs, conveys_of_carries hc⟩

def bare : ClientMemory where
  heap := ⟨fun _ => none, 0, fun k => UInt64.ofNat (k + 1), fun _ _ => 0⟩
  send := blank
  ctx := ⟨none, none, 0, 0, 0⟩
  regions := ∅
  regCount := 0
  var := none

theorem kv_set_conveys_short :
    ∃ m' stop, settle (kvSet (CString.repeated 97 (by decide) 1 (by decide))
      (CString.repeated 98 (by decide) 4085 (by decide))) bare = some (m', stop) ∧
      Conveys m'.send (CString.repeated 97 (by decide) 1 (by decide))
        (CString.repeated 98 (by decide) 4085 (by decide)) :=
  (kv_set_conveys_iff _ _ (by rw [CString.strlen_repeated]; decide) bare).mpr
    (by rw [CString.strlen_repeated, CString.strlen_repeated]; decide)

/-- A key of one character and a value of 4093: the eager path is taken and the copy
leaves `buf` by eight bytes. -/
theorem kv_set_overruns :
    ¬ ∃ m' stop, settle (kvSet (CString.repeated 97 (by decide) 1 (by decide))
      (CString.repeated 98 (by decide) 4093 (by decide))) bare = some (m', stop) ∧
      Conveys m'.send (CString.repeated 97 (by decide) 1 (by decide))
        (CString.repeated 98 (by decide) 4093 (by decide)) := by
  have hf : ¬ (Call.kvSet (CString.repeated 97 (by decide) 1 (by decide))
      (CString.repeated 98 (by decide) 4093 (by decide))).Fits := by
    rw [fits_kvSet_iff (by rw [CString.strlen_repeated]; decide), CString.strlen_repeated,
      CString.strlen_repeated]
    decide
  have hn := Call.settle_overruns hf bare
  rintro ⟨m', stop, hs, -⟩
  rw [Call.code] at hn
  rw [hn] at hs
  cases hs

end NetworkOptimization.Client
