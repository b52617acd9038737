import Mathlib.Data.Finset.Basic
import NetworkOptimization.Client

namespace NetworkOptimization.Returns

open Words Memory ControlMessages Verbs SequentialCode Calls Client

variable {α β : Type}

/-- Everything the environment decides during a call: the results of its calls of the
verbs and of the polls in their order, the messages that it reads, and what an RDMA read
leaves in its memory. -/
structure Outcomes where
  posted : Nat → Int
  sent : Nat → Int
  received : Nat → Int
  reply : Nat → ControlMessage
  dereg : Nat → Int
  fetch : RdmaRequest → Heap → Heap

namespace Outcomes

def answer (o : Outcomes) : (v : Verb) → v.Answer × Outcomes
  | .ibvPostSend _ => (o.posted 0, { o with posted := fun k => o.posted (k + 1) })
  | .pollNSendWc => (o.sent 0, { o with sent := fun k => o.sent (k + 1) })
  | .pollNextReceiveWc _ => (o.received 0, { o with received := fun k => o.received (k + 1) })
  | .readMessage => (o.reply 0, { o with reply := fun k => o.reply (k + 1) })
  | .ibvDeregMr => (o.dereg 0, { o with dereg := fun k => o.dereg (k + 1) })

def effect (o : Outcomes) (m : ClientMemory) : Verb → ClientMemory
  | .ibvPostSend (.rdma r) => match r.opcode with
    | .read => m.setHeap (o.fetch r m.heap)
    | .write => m
  | .ibvPostSend .send | .pollNSendWc | .pollNextReceiveWc _ | .readMessage | .ibvDeregMr => m

def afterSend (o : Outcomes) : Outcomes :=
  { o with posted := fun k => o.posted (k + 1), sent := fun k => o.sent (k + 1) }

def afterReceive (o : Outcomes) : Outcomes :=
  { o with received := fun k => o.received (k + 1), reply := fun k => o.reply (k + 1) }

def afterDereg (o : Outcomes) : Outcomes := { o with dereg := fun k => o.dereg (k + 1) }

end Outcomes

/-- Run code of the client to its end; `none` where its behaviour is undefined. -/
def play : ClientCode α → ClientMemory → Outcomes → Option (ClientMemory × α)
  | .ret a, m, _ => some (m, a)
  | .load k, m, o => play (k m) m o
  | .store m k, _, o => play k m o
  | .fault, _, _ => none
  | .call v k, m, o => play (k (o.answer v).1) (o.effect m v) (o.answer v).2

variable {m m' : ClientMemory} {o : Outcomes}

@[simp] theorem play_return (a : α) : play (return a) m o = some (m, a) := rfl

@[simp] theorem play_gets_bind (g : ClientMemory → α) (f : α → ClientCode β) :
    play (gets g >>= f) m o = play (f (g m)) m o := rfl

@[simp] theorem play_modify_bind (g : ClientMemory → ClientMemory) (f : Unit → ClientCode β) :
    play (modify g >>= f) m o = play (f ()) (g m) o := rfl

theorem play_require_bind (x : Option α) (f : α → ClientCode β) :
    play (require x >>= f) m o = x.bind (fun a => play (f a) m o) := by
  cases x <;> rfl

theorem play_locally_bind (g : ClientMemory → Option (α × ClientMemory)) (f : α → ClientCode β) :
    play (locally g >>= f) m o = (g m).bind (fun p => play (f p.1) p.2 o) := by
  change play (SequentialCode.bind (locally g) f) m o = _
  cases hg : g m <;> simp [locally, SequentialCode.bind, play, hg]

theorem play_setMessage_bind (operation : Operation) (messages : List (List UInt8))
    (f : Unit → ClientCode β) : play (setMessage operation messages >>= f) m o =
      (setControlMessage operation messages m.send).bind (fun msg => play (f ()) (m.setSend msg) o) := by
  rw [setMessage, play_locally_bind, Option.bind_map]
  rfl

theorem play_confirm (rest : ClientCode Int) : play (confirm rest) m o =
    if o.sent 0 ≠ 0 then some (m, 1)
    else play rest m { o with sent := fun k => o.sent (k + 1) } := by
  change play (if o.sent 0 ≠ 0 then return 1 else rest) m _ = _
  split_ifs <;> rfl

theorem play_sendThen (rest : ClientCode Int) : play (sendThen rest) m o =
    if o.sent 0 ≠ 0 then some (m, 1) else play rest m o.afterSend := by
  have hpost : play (sendThen rest) m o =
      play (confirm rest) m { o with posted := fun k => o.posted (k + 1) } := by
    change play (SequentialCode.bind (if o.posted 0 ≠ 0 then return 1 else return 0) fun _ => confirm rest)
      m _ = _
    split_ifs <;> rfl
  rw [hpost, play_confirm]
  rfl

theorem play_receiveThen (rest : ControlMessage → ClientCode Int) : play (receiveThen rest) m o =
    if o.received 0 ≠ 0 then some (m, 1) else play (rest (o.reply 0)) m o.afterReceive := by
  change play (SequentialCode.bind (if o.received 0 ≠ 0 then return 1 else return 0) _) m _ = _
  split_ifs <;> rfl

theorem play_dereg_bind (mr : LocalMr) (f : Int → ClientCode β) :
    play (Client.ibvDeregMr mr >>= f) m o =
      if o.dereg 0 = 0 then play (f 0) (m.eraseRegion mr) o.afterDereg
      else play (f (o.dereg 0)) m o.afterDereg := by
  change play (SequentialCode.bind (if o.dereg 0 = 0 then do
      modify (fun m => m.eraseRegion mr); return 0 else return o.dereg 0) f) m _ = _
  split_ifs <;> rfl

section Regions

variable {r : Int}

theorem play_setResult {msg : ControlMessage} : play (setResult msg) m o =
    some (m, if msg.operation = .serverKvSetSuccessful then 0 else 1) := by
  rw [setResult]
  split_ifs <;> rfl

theorem play_getResult {msg : ControlMessage} : play (getResult msg) m o =
    some (m, if msg.operation = .serverKvGetSuccessful then 0 else 1) := by
  rw [getResult]
  split_ifs <;> rfl

theorem closeSet_regions {mr : LocalMr} (hd : o.dereg 0 = 0)
    (h : play (closeSet mr) m o = some (m', r)) : m'.regions = m.regions.erase mr := by
  rw [closeSet, play_dereg_bind, if_pos hd, if_neg (by simp), play_modify_bind, play_receiveThen] at h
  split_ifs at h with hr
  · cases h
    rfl
  · rw [play_setResult] at h
    cases h
    rfl

theorem finSet_regions {key : CString} {mr : LocalMr} (hd : o.dereg 0 = 0)
    (h : play (finSet key mr) m o = some (m', r)) :
    m'.regions = if o.sent 0 = 0 then m.regions.erase mr else m.regions := by
  rw [finSet, play_setMessage_bind] at h
  obtain ⟨msg, -, h⟩ := Option.bind_eq_some_iff.mp h
  rw [play_sendThen] at h
  by_cases hs : o.sent 0 = 0
  · rw [if_neg (not_not.mpr hs)] at h
    rw [if_pos hs, closeSet_regions (o := o.afterSend) hd h]
    rfl
  · rw [if_pos hs] at h
    cases h
    rw [if_neg hs]
    rfl

theorem play_rdmaThen {opcode : RdmaOpcode} {rest : ClientCode Int}
    (h : play (rdmaThen opcode rest) m o = some (m', r)) :
    ∃ mr start, m.ctx.mrRdma = some mr ∧ m.ctx.mrRdmaStartPtr = some start ∧
      (if o.sent 0 ≠ 0 then
          some (o.effect m (.ibvPostSend (.rdma (rdmaRequest m.ctx mr start opcode))), 1)
        else play rest (o.effect m (.ibvPostSend (.rdma (rdmaRequest m.ctx mr start opcode))))
          o.afterSend) = some (m', r) := by
  rw [rdmaThen_code, play_gets_bind, play_require_bind] at h
  obtain ⟨mr, hmr, h⟩ := Option.bind_eq_some_iff.mp h
  rw [play_require_bind] at h
  obtain ⟨start, hstart, h⟩ := Option.bind_eq_some_iff.mp h
  refine ⟨mr, start, hmr, hstart, ?_⟩
  have hconfirm : play (confirm rest)
      (o.effect m (.ibvPostSend (.rdma (rdmaRequest m.ctx mr start opcode))))
      { o with posted := fun k => o.posted (k + 1) } = some (m', r) := h
  rw [play_confirm] at hconfirm
  exact hconfirm

theorem effect_regions (v : Verb) : (o.effect m v).regions = m.regions := by
  cases v with
  | ibvPostSend wr =>
    cases wr with
    | send => rfl
    | rdma r =>
      simp only [Outcomes.effect]
      split <;> rfl
  | pollNSendWc | pollNextReceiveWc blocking | readMessage | ibvDeregMr => rfl

theorem grantedSet_regions {key : CString} {mr : LocalMr} {msg : ControlMessage} (hd : o.dereg 0 = 0)
    (h : play (grantedSet key mr msg) m o = some (m', r)) :
    m'.regions = if o.sent 0 = 0 ∧ o.sent 1 = 0 then m.regions.erase mr else m.regions := by
  rw [grantedSet, play_require_bind] at h
  obtain ⟨ptrs, -, h⟩ := Option.bind_eq_some_iff.mp h
  rw [play_require_bind] at h
  obtain ⟨va, -, h⟩ := Option.bind_eq_some_iff.mp h
  rw [play_require_bind] at h
  obtain ⟨rkey, -, h⟩ := Option.bind_eq_some_iff.mp h
  rw [play_modify_bind] at h
  obtain ⟨mr', start, -, -, h⟩ := play_rdmaThen h
  by_cases hs : o.sent 0 = 0
  · rw [if_neg (not_not.mpr hs)] at h
    have hfin := finSet_regions (o := o.afterSend) hd h
    rw [effect_regions] at hfin
    rw [hfin]
    simp [hs, ClientMemory.setContext, Outcomes.afterSend]
  · rw [if_pos hs] at h
    obtain ⟨rfl, -⟩ := Prod.mk.inj (Option.some.inj h)
    rw [effect_regions, if_neg (fun hc => hs hc.1)]
    rfl

theorem refusedSet_regions {mr : LocalMr} (hd : o.dereg 0 = 0)
    (h : play (refusedSet mr) m o = some (m', r)) : m'.regions = m.regions.erase mr := by
  rw [refusedSet, play_dereg_bind, if_pos hd, if_neg (by simp)] at h
  cases h
  rfl

/-- No region has the handle that the next registration gets. -/
def Unused (m : ClientMemory) : Prop := ∀ mr ∈ m.regions, mr.handle < m.regCount

theorem Unused.erase_insert (hm : Unused m) (start : Buffer) (size : UInt64) :
    (insert ⟨m.regCount, start, size⟩ m.regions).erase ⟨m.regCount, start, size⟩ = m.regions :=
  Finset.erase_insert (fun hmem => lt_irrefl _ (hm _ hmem))

theorem Unused.insert_ne (hm : Unused m) (start : Buffer) (size : UInt64) :
    insert ⟨m.regCount, start, size⟩ m.regions ≠ m.regions := by
  intro heq
  have hmem : ⟨m.regCount, start, size⟩ ∈ m.regions := heq ▸ Finset.mem_insert_self _ _
  exact lt_irrefl _ (hm _ hmem)

/-- A rendezvous set that registered its value and then returned early. -/
def SetLeaves (key value : CString) (o : Outcomes) : Prop :=
  ¬ Eager key value ∧ o.sent 0 = 0 ∧ (o.received 0 ≠ 0 ∨
    ((o.reply 0).operation ≠ .serverInProgress ∧ (o.sent 1 ≠ 0 ∨ o.sent 2 ≠ 0)))

/-- A rendezvous get that registered its buffer and then returned early. -/
def GetLeaves (o : Outcomes) : Prop :=
  o.sent 0 = 0 ∧ o.received 0 = 0 ∧ (o.reply 0).operation = .serverKvGetRendezvous ∧
    (o.sent 1 ≠ 0 ∨ o.sent 2 ≠ 0)

theorem play_regMr_bind (start : Buffer) (size : UInt64) (f : LocalMr → ClientCode β) :
    play (regMr start size >>= f) m o =
      play (f ⟨m.regCount, start, size⟩) (m.insertRegion ⟨m.regCount, start, size⟩) o := by
  rw [regMr, play_locally_bind, Option.bind_some]
  rfl

theorem eagerSet_regions {msg : ControlMessage} (h : play (eagerReply msg) m o = some (m', r)) :
    m'.regions = m.regions := by
  rw [eagerReply] at h
  split_ifs at h
  · cases h
    rfl
  · rw [play_setResult] at h
    cases h
    rfl

/-- The region of a set is there again as long as nothing fails between its
registration and the end of the FIN. -/
theorem kvSet_regions {key value : CString} (hm : Unused m) (hd : ∀ k, o.dereg k = 0)
    (h : play (kvSet key value) m o = some (m', r)) :
    m'.regions = m.regions ↔ ¬ SetLeaves key value o := by
  by_cases he : Eager key value
  · refine iff_of_true ?_ (fun hl => hl.1 he)
    rw [kvSet, if_pos (show _ ≤ _ from he), play_setMessage_bind] at h
    obtain ⟨msg, -, h⟩ := Option.bind_eq_some_iff.mp h
    rw [play_sendThen, play_receiveThen] at h
    split_ifs at h
    · cases h
      rfl
    · cases h
      rfl
    · exact (eagerSet_regions h : m'.regions = (m.setSend msg).regions)
  · rw [kvSet, if_neg (show ¬ _ ≤ _ from he), play_setMessage_bind] at h
    obtain ⟨msg, -, h⟩ := Option.bind_eq_some_iff.mp h
    rw [play_sendThen] at h
    by_cases hs : o.sent 0 = 0
    · rw [if_neg (not_not.mpr hs), play_regMr_bind, play_receiveThen] at h
      by_cases hr : o.received 0 = 0
      · rw [if_neg (show ¬ o.afterSend.received 0 ≠ 0 from not_not.mpr hr), rendezvousReply] at h
        by_cases hp : (o.reply 0).operation = .serverInProgress
        · rw [if_pos (show (o.afterSend.reply 0).operation = _ from hp)] at h
          rw [refusedSet_regions (o := o.afterSend.afterReceive) (hd 0) h]
          refine iff_of_true (hm.erase_insert _ _) ?_
          rintro ⟨-, -, hl | hl⟩
          · exact hl hr
          · exact hl.1 hp
        · rw [if_neg (show ¬ (o.afterSend.reply 0).operation = _ from hp)] at h
          rw [grantedSet_regions (o := o.afterSend.afterReceive) (hd 0) h]
          change (if o.sent 1 = 0 ∧ o.sent 2 = 0 then _ else _) = _ ↔ _
          by_cases hc : o.sent 1 = 0 ∧ o.sent 2 = 0
          · rw [if_pos hc]
            refine iff_of_true (hm.erase_insert _ _) ?_
            rintro ⟨-, -, hl | ⟨-, hl | hl⟩⟩
            · exact hl hr
            · exact hl hc.1
            · exact hl hc.2
          · rw [if_neg hc]
            refine iff_of_false (hm.insert_ne _ _) (not_not.mpr ⟨he, hs, .inr ⟨hp, ?_⟩⟩)
            exact not_and_or.mp hc
      · rw [if_pos (show o.afterSend.received 0 ≠ 0 from hr)] at h
        cases h
        exact iff_of_false (hm.insert_ne _ _) (not_not.mpr ⟨he, hs, .inl hr⟩)
    · rw [if_pos hs] at h
      cases h
      exact iff_of_true rfl (fun hl => hs hl.2.1)

theorem closeGet_regions {mr : LocalMr} (hmr : m.ctx.mrRdma = some mr) (hd : o.dereg 0 = 0)
    (h : play closeGet m o = some (m', r)) : m'.regions = m.regions.erase mr := by
  rw [closeGet, play_gets_bind, hmr, play_require_bind, Option.bind_some, play_dereg_bind, if_pos hd,
    if_neg (by simp), play_modify_bind, play_receiveThen] at h
  split_ifs at h with hr
  · cases h
    rfl
  · rw [play_getResult] at h
    cases h
    rfl

theorem finGet_regions {key : CString} {mr : LocalMr} (hmr : m.ctx.mrRdma = some mr)
    (hd : o.dereg 0 = 0) (h : play (finGet key) m o = some (m', r)) :
    m'.regions = if o.sent 0 = 0 then m.regions.erase mr else m.regions := by
  rw [finGet, play_setMessage_bind] at h
  obtain ⟨msg, -, h⟩ := Option.bind_eq_some_iff.mp h
  rw [play_sendThen] at h
  by_cases hs : o.sent 0 = 0
  · rw [if_neg (not_not.mpr hs)] at h
    rw [if_pos hs, closeGet_regions (o := o.afterSend) (m := m.setSend msg) hmr hd h]
    rfl
  · rw [if_pos hs] at h
    cases h
    rw [if_neg hs]
    rfl

def fetched (m : ClientMemory) (o : Outcomes) (size va : UInt64) (rkey : UInt32) (a : UInt64)
    (heap : Heap) : ClientMemory :=
  let mr : LocalMr := ⟨m.regCount, .block a, size⟩
  let ctx : RdmaContext := ⟨some mr, some (.block a), size, va, rkey⟩
  o.effect ((((m.setHeap heap).setVar (some a)).insertRegion mr).setContext ctx)
    (.ibvPostSend (.rdma (rdmaRequest ctx mr (.block a) .read)))

theorem play_grantedGet {key : CString} {msg : ControlMessage}
    (h : play (grantedGet key msg) m o = some (m', r)) :
    ∃ size va rkey a heap, word64At msg.buf 0 = some size ∧
      malloc m.heap size.toNat = some (a, heap) ∧
      (if o.sent 0 ≠ 0 then some (fetched m o size va rkey a heap, 1)
        else play (finGet key) (fetched m o size va rkey a heap) o.afterSend) = some (m', r) := by
  have hd : decodeControlMessageBuffer .serverKvGetRendezvous msg.buf = some [0, 8, 16] := rfl
  rw [grantedGet, hd, play_require_bind, Option.bind_some, play_require_bind] at h
  obtain ⟨size, hsize, h⟩ := Option.bind_eq_some_iff.mp h
  rw [play_require_bind] at h
  obtain ⟨va, -, h⟩ := Option.bind_eq_some_iff.mp h
  rw [play_require_bind] at h
  obtain ⟨rkey, -, h⟩ := Option.bind_eq_some_iff.mp h
  rw [play_locally_bind, Option.bind_map] at h
  obtain ⟨⟨a, heap⟩, hm, h⟩ := Option.bind_eq_some_iff.mp h
  simp only [Function.comp_apply, play_modify_bind, play_regMr_bind] at h
  obtain ⟨mr, start, hmr, hstart, h⟩ := play_rdmaThen h
  cases hmr
  cases hstart
  exact ⟨size, va, rkey, a, heap, hsize, hm, h⟩

theorem valueReply_returns {msg : ControlMessage} (h : play (valueReply msg) m o = some (m', r)) :
    ∃ value a heap, stringAt msg.buf 0 = some value ∧
      strdup m.heap (value.length + 1) value = some (a, heap) ∧
      m' = (m.setHeap heap).setVar (some a) ∧ r = 0 := by
  have hd : decodeControlMessageBuffer .serverKvGetEager msg.buf = some [0] := rfl
  rw [valueReply, hd, play_require_bind, Option.bind_some, play_require_bind] at h
  obtain ⟨value, hv, h⟩ := Option.bind_eq_some_iff.mp h
  rw [play_locally_bind, Option.bind_map] at h
  obtain ⟨⟨a, heap⟩, hm, h⟩ := Option.bind_eq_some_iff.mp h
  cases h
  exact ⟨value, a, heap, hv, hm, rfl, rfl⟩

theorem play_kvGet {key : CString} (h : play (kvGet key) m o = some (m', r)) :
    ∃ msg, if o.sent 0 ≠ 0 ∨ o.received 0 ≠ 0 then m' = m.setSend msg ∧ r = 1
      else play (getReply key (o.reply 0)) (m.setSend msg) o.afterSend.afterReceive = some (m', r) := by
  rw [kvGet, play_setMessage_bind] at h
  obtain ⟨msg, -, h⟩ := Option.bind_eq_some_iff.mp h
  refine ⟨msg, ?_⟩
  rw [play_sendThen, play_receiveThen] at h
  by_cases hs : o.sent 0 = 0
  · rw [if_neg (not_not.mpr hs)] at h
    by_cases hr : o.received 0 = 0
    · rw [if_neg (show ¬ o.afterSend.received 0 ≠ 0 from not_not.mpr hr)] at h
      rw [if_neg (by simp [hs, hr])]
      exact h
    · rw [if_pos (show o.afterSend.received 0 ≠ 0 from hr)] at h
      cases h
      rw [if_pos (.inr hr)]
      exact ⟨rfl, rfl⟩
  · rw [if_pos hs] at h
    cases h
    rw [if_pos (.inl hs)]
    exact ⟨rfl, rfl⟩

theorem grantedGet_regions {key : CString} {msg : ControlMessage} (hm : Unused m) (hd : o.dereg 0 = 0)
    (h : play (grantedGet key msg) m o = some (m', r)) :
    m'.regions = m.regions ↔ o.sent 0 = 0 ∧ o.sent 1 = 0 := by
  obtain ⟨size, va, rkey, a, heap, -, -, h⟩ := play_grantedGet h
  have hreg : (fetched m o size va rkey a heap).regions =
      insert ⟨m.regCount, .block a, size⟩ m.regions := effect_regions _
  have hctx : (fetched m o size va rkey a heap).ctx.mrRdma = some ⟨m.regCount, .block a, size⟩ := rfl
  by_cases hs : o.sent 0 = 0
  · rw [if_neg (not_not.mpr hs)] at h
    rw [finGet_regions (o := o.afterSend) hctx hd h, hreg]
    change (if o.sent 1 = 0 then _ else _) = _ ↔ _
    by_cases hs' : o.sent 1 = 0
    · rw [if_pos hs']
      exact iff_of_true (hm.erase_insert _ _) ⟨hs, hs'⟩
    · rw [if_neg hs']
      exact iff_of_false (hm.insert_ne _ _) (fun hc => hs' hc.2)
  · rw [if_pos hs] at h
    obtain ⟨rfl, -⟩ := Prod.mk.inj (Option.some.inj h)
    rw [hreg]
    exact iff_of_false (hm.insert_ne _ _) (fun hc => hs hc.1)

theorem noValue_returns (h : play noValue m o = some (m', r)) : m' = m.setVar none ∧ r = 1 := by
  cases h
  exact ⟨rfl, rfl⟩

theorem kvGet_regions {key : CString} (hm : Unused m) (hd : ∀ k, o.dereg k = 0)
    (h : play (kvGet key) m o = some (m', r)) : m'.regions = m.regions ↔ ¬ GetLeaves o := by
  obtain ⟨msg, h⟩ := play_kvGet h
  by_cases hfail : o.sent 0 ≠ 0 ∨ o.received 0 ≠ 0
  · rw [if_pos hfail] at h
    rw [h.1]
    refine iff_of_true rfl (fun hl => ?_)
    obtain hs | hr := hfail
    · exact hs hl.1
    · exact hr hl.2.1
  · rw [if_neg hfail] at h
    push Not at hfail
    have hother : (o.reply 0).operation ≠ .serverKvGetRendezvous → ¬ GetLeaves o :=
      fun hop hl => hop hl.2.2.1
    cases hop : (o.reply 0).operation with
    | serverKvGetRendezvous =>
      rw [getReply, hop] at h
      refine (grantedGet_regions (m := m.setSend msg) (o := o.afterSend.afterReceive) hm (hd 0) h).trans ?_
      change o.sent 1 = 0 ∧ o.sent 2 = 0 ↔ _
      rw [GetLeaves, not_and, not_and, not_and, not_or, not_not, not_not]
      exact ⟨fun hc _ _ _ => hc, fun hc => hc hfail.1 hfail.2 hop⟩
    | serverKvGetEager =>
      rw [getReply, hop] at h
      obtain ⟨value, a, heap, -, -, rfl, -⟩ := valueReply_returns h
      exact iff_of_true rfl (hother (by simp [hop]))
    | shutDownServer | clientKvSetEager | clientKvSetRendezvous | serverKvSetRendezvous | clientKvGet
    | serverKvGetKeyNotFound | serverInProgress | clientKvGetRendezvousFin
    | clientKvSetRendezvousFin | serverKvSetSuccessful | serverKvGetSuccessful =>
      rw [getReply, hop] at h
      obtain ⟨rfl, -⟩ := noValue_returns h
      exact iff_of_true rfl (hother (by simp [hop]))

end Regions

/-- A call that returns leaves a registration behind exactly when it made one and a
completion or a receive failed before the FIN was confirmed. -/
theorem registrations_restored_iff (m m' : ClientMemory) (o : Outcomes) (hm : Unused m)
    (hd : ∀ k, o.dereg k = 0) (key value : CString) (r : Int) :
    (play (kvSet key value) m o = some (m', r) →
        (m'.regions = m.regions ↔ ¬ SetLeaves key value o)) ∧
      (play (kvGet key) m o = some (m', r) → (m'.regions = m.regions ↔ ¬ GetLeaves o)) :=
  ⟨kvSet_regions hm hd, kvGet_regions hm hd⟩

def smooth (reply : ControlMessage) : Outcomes :=
  ⟨fun _ => 0, fun _ => 0, fun _ => 0, fun _ => reply, fun _ => 0, fun _ h => h⟩

theorem unused_bare : Unused bare := fun mr hmr => absurd hmr (Finset.notMem_empty mr)

def granting : Outcomes :=
  { smooth (zeroed .serverKvSetSuccessful [] (Nat.zero_le _)) with
    reply := fun k => zeroed (if k = 0 then .serverKvSetRendezvous else .serverKvSetSuccessful) []
      (Nat.zero_le _) }

theorem play_rdmaThen_eq {opcode : RdmaOpcode} {rest : ClientCode Int} {mr : LocalMr} {start : Buffer}
    (hmr : m.ctx.mrRdma = some mr) (hstart : m.ctx.mrRdmaStartPtr = some start) (hs : o.sent 0 = 0) :
    play (rdmaThen opcode rest) m o =
      play rest (o.effect m (.ibvPostSend (.rdma (rdmaRequest m.ctx mr start opcode)))) o.afterSend := by
  rw [rdmaThen_code, play_gets_bind, hmr, play_require_bind, Option.bind_some, hstart, play_require_bind,
    Option.bind_some]
  change play (confirm rest) (o.effect m _) { o with posted := fun k => o.posted (k + 1) } = _
  rw [play_confirm, if_neg (show ¬ o.sent 0 ≠ 0 from not_not.mpr hs)]
  rfl

theorem kvSet_message {key value : CString} (he : ¬ Eager key value) (hf : (Call.kvSet key value).Fits)
    (m : ClientMemory) : ∃ msg,
      setControlMessage .clientKvSetRendezvous [key.bytes, u64Bytes value.size] m.send = some msg := by
  obtain ⟨msg, hmsg, -⟩ := setControlMessage_carries (Call.kvSet key value).kinds
    (points_bytes (Call.kvSet key value).arguments) m.send hf
  simp only [Call.operation, Call.arguments, he, ↓reduceIte, List.map_cons, List.map_nil,
    Argument.bytes] at hmsg
  exact ⟨msg, hmsg⟩

theorem grantedSet_code (key : CString) (mr : LocalMr) (msg : ControlMessage) : grantedSet key mr msg = (do
    let va ← require (word64At msg.buf 0)
    let rkey ← require (word32At msg.buf 8)
    modify (fun m => m.setContext ⟨some mr, some mr.start, mr.size, va, rkey⟩)
    rdmaThen .write (finSet key mr)) := by
  have hptrs : decodeControlMessageBuffer .serverKvSetRendezvous msg.buf = some [0, 8] := rfl
  rw [grantedSet, hptrs]
  rfl

theorem play_finSet {key : CString} {mr : LocalMr}
    (hkey : (encode [.string key]).length ≤ controlMessageBufferSize)
    (hs : o.sent 0 = 0) (hd : o.dereg 0 = 0) (hr : o.received 0 = 0)
    (hop : (o.reply 0).operation = .serverKvSetSuccessful) (m : ClientMemory) :
    ∃ m', play (finSet key mr) m o = some (m', 0) := by
  have hfields : [Argument.string key].map Argument.kind = Operation.clientKvSetRendezvousFin.fields := rfl
  obtain ⟨msg, hmsg, -⟩ := setControlMessage_carries hfields (points_bytes _) m.send hkey
  rw [finSet, play_setMessage_bind, show setControlMessage _ [key.bytes] m.send = some msg from hmsg,
    Option.bind_some, play_sendThen, if_neg (not_not.mpr hs), closeSet, play_dereg_bind,
    if_pos (show o.afterSend.dereg 0 = 0 from hd), if_neg (not_not.mpr rfl), play_modify_bind,
      play_receiveThen,
    if_neg (show ¬ o.afterSend.afterDereg.received 0 ≠ 0 from not_not.mpr hr), play_setResult,
    if_pos (show (o.afterSend.afterDereg.reply 0).operation = _ from hop)]
  exact ⟨_, rfl⟩

theorem play_kvSet_granted {key value : CString} {va : UInt64} {rkey : UInt32} (he : ¬ Eager key value)
    (hf : (Call.kvSet key value).Fits) (hs : ∀ k, o.sent k = 0) (hd : o.dereg 0 = 0)
    (hr : ∀ k, o.received k = 0) (hgrant : (o.reply 0).operation ≠ .serverInProgress)
    (hva : word64At (o.reply 0).buf 0 = some va) (hrkey : word32At (o.reply 0).buf 8 = some rkey)
    (hdone : (o.reply 1).operation = .serverKvSetSuccessful) (m : ClientMemory) :
    ∃ m', play (kvSet key value) m o = some (m', 0) := by
  obtain ⟨msg, hmsg⟩ := kvSet_message he hf m
  have hkey : (encode [.string key]).length ≤ controlMessageBufferSize := by
    refine Nat.le_trans ?_ hf
    simp [Call.arguments, he]
  rw [kvSet, if_neg (show ¬ _ ≤ _ from he), play_setMessage_bind, hmsg, Option.bind_some, play_sendThen,
    if_neg (not_not.mpr (hs 0)), play_regMr_bind, play_receiveThen,
    if_neg (show ¬ o.afterSend.received 0 ≠ 0 from not_not.mpr (hr 0)), rendezvousReply,
    if_neg (show (o.afterSend.reply 0).operation ≠ _ from hgrant), grantedSet_code,
    show word64At (o.afterSend.reply 0).buf 0 = some va from hva, play_require_bind, Option.bind_some,
    show word32At (o.afterSend.reply 0).buf 8 = some rkey from hrkey, play_require_bind, Option.bind_some,
    play_modify_bind, play_rdmaThen_eq rfl rfl (show o.afterSend.afterReceive.sent 0 = 0 from hs 1)]
  exact play_finSet (o := o.afterSend.afterReceive.afterSend) hkey (hs 2) hd (hr 1) hdone _

theorem granting_returns {key value : CString} (he : ¬ Eager key value) (hf : (Call.kvSet key value).Fits)
    (m : ClientMemory) : ∃ m', play (kvSet key value) m granting = some (m', 0) := by
  have hva : word64At (granting.reply 0).buf 0 = some 0 := by decide +kernel
  have hrkey : word32At (granting.reply 0).buf 8 = some 0 := by decide +kernel
  exact play_kvSet_granted he hf (fun _ => rfl) rfl (fun _ => rfl) (by decide) hva hrkey rfl m

theorem long_rendezvous (len : Nat) (hl : len + 1 < 2 ^ 63) (hlong : 4096 ≤ len) :
    ¬ Eager (CString.repeated 97 (by decide) 1 (by decide)) (CString.repeated 98 (by decide) len hl) ∧
      (Call.kvSet (CString.repeated 97 (by decide) 1 (by decide))
        (CString.repeated 98 (by decide) len hl)).Fits := by
  refine ⟨?_, (fits_kvSet_iff (by rw [CString.strlen_repeated]; decide)).mpr ?_⟩
  · rw [Eager, CString.strlen_repeated, CString.strlen_repeated, controlMessageBufferSize]
    omega
  · rw [CString.strlen_repeated, CString.strlen_repeated]
    omega

/-- A value of 5000 characters is registered and deregistered. -/
theorem registrations_restored_granted :
    ∃ m', play (kvSet (CString.repeated 97 (by decide) 1 (by decide))
        (CString.repeated 98 (by decide) 5000 (by decide))) bare granting = some (m', 0) ∧
      m'.regions = bare.regions := by
  obtain ⟨he, hf⟩ := long_rendezvous 5000 (by decide) (by decide)
  obtain ⟨m', h⟩ := granting_returns he hf bare
  refine ⟨m', h, ((registrations_restored_iff bare m' _ unused_bare (fun _ => rfl) _ _ 0).1 h).mpr ?_⟩
  rintro ⟨-, -, hr | ⟨-, hs | hs⟩⟩
  · exact hr rfl
  · exact hs rfl
  · exact hs rfl

theorem play_kvSet_unanswered {key value : CString} (he : ¬ Eager key value)
    (hf : (Call.kvSet key value).Fits) (hs : o.sent 0 = 0) (hr : o.received 0 ≠ 0) :
    ∃ m', play (kvSet key value) m o = some (m', 1) := by
  obtain ⟨msg, hmsg⟩ := kvSet_message he hf m
  rw [kvSet, if_neg (show ¬ _ ≤ _ from he), play_setMessage_bind, hmsg, Option.bind_some,
    play_sendThen, if_neg (not_not.mpr hs), play_regMr_bind, play_receiveThen,
    if_pos (show o.afterSend.received 0 ≠ 0 from hr)]
  exact ⟨_, rfl⟩

/-- A value of 5000 characters is registered and the poll for the answer fails. -/
theorem registration_left :
    ¬ ∀ m' r, play (kvSet (CString.repeated 97 (by decide) 1 (by decide))
        (CString.repeated 98 (by decide) 5000 (by decide))) bare
        { smooth blank with received := fun _ => 1 } = some (m', r) → m'.regions = bare.regions := by
  intro hkept
  obtain ⟨he, hf⟩ := long_rendezvous 5000 (by decide) (by decide)
  obtain ⟨m', h⟩ := play_kvSet_unanswered (m := bare)
    (o := { smooth blank with received := fun _ => 1 }) he hf rfl (by simp)
  exact (kvSet_regions unused_bare (fun _ => rfl) h).mp (hkept m' 1 h)
    ⟨he, rfl, .inl (by simp)⟩

/-- The length of an RDMA read has 32 bits; it covers every value below four gigabytes. -/
theorem covers_value {v : CString} (hv : v.bytes.length < 2 ^ 32) (h : Heap) :
    v.bytes.take v.size.toUInt32.toNat ++
      (Memory.fresh h v.size.toNat).drop v.size.toUInt32.toNat = v.bytes := by
  have hsize : v.size.toNat = v.bytes.length := by
    rw [CString.size_toNat, CString.bytes_length]
  have hlen : v.size.toUInt32.toNat = v.bytes.length := by
    rw [UInt64.toNat_toUInt32, hsize, Nat.mod_eq_of_lt hv]
  rw [hlen, List.take_length, List.drop_eq_nil_of_le (by rw [Memory.fresh_length, hsize]),
    List.append_nil]

/-- A server that stores `v` and gives one answer: every verb succeeds, and an RDMA read
brings the bytes of `v`. -/
def storing (v : CString) (reply : ControlMessage) : Outcomes :=
  { smooth reply with
    fetch := fun r h => match r.addr with
      | .block a => ((h.blocks a).map (fun block =>
          write h a (v.bytes.take r.length.toNat ++ block.drop r.length.toNat))).getD h
      | .caller _ => h }

end NetworkOptimization.Returns
