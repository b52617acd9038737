import NetworkOptimization.Values

namespace NetworkOptimization.Seats

open Words Memory ControlMessages DynamicArray Verbs SequentialCode Calls Client Network Protocol
open Function (update)

variable {n : Nat} {programs : Fin n → List Request} {lossy : Prop}

def content (m : ClientMemory) : Option (List UInt8) := m.var.bind m.heap.blocks

theorem result_eq (m : ClientMemory) : result m = (content m).bind cstring := by
  rw [result, content, Option.bind_assoc]
  rfl

/-- The requests and the completions that are on a side's way out. -/
structure Outbox (p : Port) (wrs : List WorkRequest) (wcs : List Wc) (moved : Finset Nat) : Prop where
  sendQueue : p.sendQueue = wrs
  sendCq : p.sendCq = wcs
  moved : p.moved = moved

inductive Inbox (p : Port) : Option ControlMessage → Prop
  | empty (hi : p.inbound = []) (hr : p.receiveCq = []) : Inbox p none
  | flying {m} (hi : p.inbound = [m]) (hr : p.receiveCq = []) : Inbox p (some m)
  | landed (hi : p.inbound = []) (hr : p.receiveCq = [⟨.success, .recv⟩]) : Inbox p (some p.receive)

inductive Rest : Query → ClientCode Int → Prop
  | request (r : Request) : Rest (.request r) r.call.rest
  | fin_set (key value mr lmr) : Rest (.fin (.kvSet key value) mr) (closeSet lmr)
  | fin_get (key mr) : Rest (.fin (.kvGet key) mr) closeGet
  | shutDown : Rest .shutDown (Call.rest .shutDownServer)

inductive Reader : Query → (ControlMessage → ClientCode Int) → Prop
  | eager {key value} (he : Eager key value) : Reader (.request (.kvSet key value)) eagerReply
  | rendezvous {key value lmr} (he : ¬ Eager key value) (hstart : lmr.start = .caller value.bytes)
      (hsize : lmr.size = value.size) :
      Reader (.request (.kvSet key value)) (rendezvousReply key lmr)
  | get {key} : Reader (.request (.kvGet key)) (getReply key)
  | fin_set {key value mr} : Reader (.fin (.kvSet key value) mr) setResult
  | fin_get {key mr} : Reader (.fin (.kvGet key) mr) getResult

inductive Transfer (m : ClientMemory) : Request → Mr → RdmaRequest → ClientCode Int → Prop
  | write {key value mr lmr} (h : lmr.start = .caller value.bytes) :
      Transfer m (.kvSet key value) mr
        ⟨.write, .caller value.bytes, mr.length.toUInt32, lmr, mr.addr, mr.rkey⟩ (finSet key lmr)
  | read {key mr lmr a} (h : m.var = some a) :
      Transfer m (.kvGet key) mr
        ⟨.read, .block a, mr.length.toUInt32, lmr, mr.addr, mr.rkey⟩ (finGet key)

/-- A client whose message is out, until it reads the answer. -/
inductive Sent (s : ClientState) (q : Query) : Prop
  | confirming {rest} (hr : Rest q rest)
      (ht : s.thread = some (.waiting .pollNSendWc (afterConfirm rest)))
      (ho : Outbox s.port [] [⟨.success, .send⟩] ∅)
  | closing {k reader} (hr : Reader q reader) (hfin : ∃ r mr, q = .fin r mr)
      (ht : s.thread = some (.waiting .ibvDeregMr k))
      (hk : ∀ m m' stop, settle (k (0 : Int)) m = some (m', stop) →
        stop = .waiting (.pollNextReceiveWc true) (afterReceive reader) ∧ content m' = content m)
      (ho : Outbox s.port [] [] ∅)
  | awaiting {reader} (hr : Reader q reader)
      (ht : s.thread = some (.waiting (.pollNextReceiveWc true) (afterReceive reader)))
      (ho : Outbox s.port [] [] ∅)

/-- The program points of a client in each of its sessions. -/
inductive Seat (programs : Fin n → List Request) (c : Fin n) (s : ClientState) : Session → Prop
  | idle (ht : s.thread = none) (ho : Outbox s.port [] [] ∅) (hi : Inbox s.port none) :
      Seat programs c s .idle
  | posting {l rest} (hr : Rest l.query rest)
      (ht : s.thread = some (.waiting (.ibvPostSend .send) (afterPost rest)))
      (ho : Outbox s.port [] [] ∅) (hi : Inbox s.port none) (hm : s.mem.send = l.message)
      (hlast : l.query = .shutDown → callAt programs c s.index = some .shutDownServer) :
      Seat programs c s (.going l)
  | posted {l rest} (hr : Rest l.query rest)
      (ht : s.thread = some (.waiting .pollNSendWc (afterConfirm rest)))
      (ho : Outbox s.port [.send] [] ∅) (hi : Inbox s.port none) (hm : s.mem.send = l.message)
      (hlast : l.query = .shutDown → callAt programs c s.index = some .shutDownServer) :
      Seat programs c s (.going l)
  | pending {l} (hq : l.query ≠ .shutDown) (hs : Sent s l.query) (hi : Inbox s.port none) :
      Seat programs c s (.pending l)
  | served {e} (hs : Sent s e.letter.query) (hi : Inbox s.port none) : Seat programs c s (.served e)
  | stranded {l} (hq : l.query ≠ .shutDown) (hs : Sent s l.query) (hi : Inbox s.port none) :
      Seat programs c s (.stranded l)
  | replied {e} (hs : Sent s e.letter.query) (hi : Inbox s.port (some e.message)) :
      Seat programs c s (.replied e)
  | reading {e reader} (hr : Reader e.letter.query reader)
      (ht : s.thread = some (.waiting .readMessage reader)) (ho : Outbox s.port [] [] ∅)
      (hi : Inbox s.port none) (hm : s.port.receive = e.message) : Seat programs c s (.replied e)
  | aiming {r mr wr rest} (hr : Transfer s.mem r mr wr rest)
      (ht : s.thread = some (.waiting (.ibvPostSend (.rdma wr)) (fun _ => confirm rest)))
      (ho : Outbox s.port [] [] ∅) (hi : Inbox s.port none) : Seat programs c s (.holding r mr ∅)
  | moving {r mr wr rest moved} (hr : Transfer s.mem r mr wr rest)
      (ht : s.thread = some (.waiting .pollNSendWc (afterConfirm rest)))
      (ho : Outbox s.port [.rdma wr] [] moved) (hi : Inbox s.port none) :
      Seat programs c s (.holding r mr moved)
  | moved {r mr wr rest moved} (hr : Transfer s.mem r mr wr rest)
      (ht : s.thread = some (.waiting .pollNSendWc (afterConfirm rest)))
      (ho : Outbox s.port [] [⟨.success, wr.opcode.wc⟩] ∅) (hi : Inbox s.port none)
      (hall : ∀ i < mr.length.toUInt32.toNat, i ∈ moved) : Seat programs c s (.holding r mr moved)
  | finished {call success r} (ht : s.thread = some (.done r)) (hr : r = 0 ↔ success = true)
      (ho : Outbox s.port [] [] ∅) (hi : Inbox s.port none) : Seat programs c s (.finished call success)
  | refusing {call k} (ht : s.thread = some (.waiting .ibvDeregMr k))
      (hk : ∀ (d : Int) m m' stop, settle (k d) m = some (m', stop) →
        (∃ r : Int, r ≠ 0 ∧ stop = .done r) ∧ content m' = content m)
      (ho : Outbox s.port [] [] ∅) (hi : Inbox s.port none) : Seat programs c s (.finished call false)
  | failed {call rest} (ht : s.thread = some (.waiting .pollNSendWc (afterConfirm rest)))
      (ho : Outbox s.port [] [⟨.failure, .send⟩] ∅) (hi : Inbox s.port none) :
      Seat programs c s (.finished call false)
  | parting {x} (hx : x = .gone ∨ ∃ l, x = .leaving l ∧ l.query = .shutDown)
      (ht : s.thread = some (.waiting .pollNSendWc (afterConfirm (Call.rest .shutDownServer))))
      (ho : Outbox s.port [] [⟨.success, .send⟩] ∅) (hi : Inbox s.port none)
      (hlast : callAt programs c s.index = some .shutDownServer) : Seat programs c s x
  | parted {x r} (hx : x = .gone ∨ ∃ l, x = .leaving l ∧ l.query = .shutDown)
      (ht : s.thread = some (.done r)) (ho : Outbox s.port [] [] ∅) (hi : Inbox s.port none)
      (hlast : callAt programs c s.index = some .shutDownServer) : Seat programs c s x
  | left {x} (hx : x = .gone ∨ ∃ l, x = .leaving l ∧ l.query = .shutDown) (ht : s.thread = none)
      (ho : Outbox s.port [] [] ∅) (hi : Inbox s.port none)
      (hlast : callAt programs c s.index = none) : Seat programs c s x

theorem callAt_last {c : Fin n} {j : Nat} (h : callAt programs c j = some .shutDownServer) :
    callAt programs c (j + 1) = none := by
  have hlen : ((programs c).map Request.call).length ≤ j := by
    by_contra hlt
    have hlt' : j < ((programs c).map Request.call).length := Nat.lt_of_not_le hlt
    rw [callAt, List.getElem?_append_left hlt', List.getElem?_map] at h
    obtain ⟨r, -, hr⟩ := Option.map_eq_some_iff.mp h
    cases r <;> cases hr
  rw [callAt, List.getElem?_eq_none_iff, List.length_append, List.length_singleton]
  omega

section Answers

variable {p p' : Port} {d : Int}

structure SameIn (p p' : Port) : Prop where
  inbound : p'.inbound = p.inbound
  receive : p'.receive = p.receive
  receiveCq : p'.receiveCq = p.receiveCq

theorem SameIn.inbox (h : SameIn p p') {x : Option ControlMessage} (hi : Inbox p x) : Inbox p' x := by
  cases hi with
  | empty hi hr => exact .empty (h.inbound.trans hi) (h.receiveCq.trans hr)
  | flying hi hr => exact .flying (h.inbound.trans hi) (h.receiveCq.trans hr)
  | landed hi hr =>
    rw [← h.receive]
    exact .landed (h.inbound.trans hi) (h.receiveCq.trans hr)

theorem answer_post {wr : WorkRequest} {moved : Finset Nat} {a : Int}
    (ho : Outbox p [] [] moved) (h : p.answer d (.ibvPostSend wr) = some (a, p')) :
    Outbox p' [wr] [] moved ∧ SameIn p p' := by
  cases h
  exact ⟨⟨by rw [ho.sendQueue]; rfl, ho.sendCq, ho.moved⟩, rfl, rfl, rfl⟩

theorem answer_poll_none {wrs : List WorkRequest} {moved : Finset Nat} {a : Int}
    (ho : Outbox p wrs [] moved) : p.answer d .pollNSendWc ≠ some (a, p') := by
  rw [Port.answer, ho.sendCq]
  simp

theorem answer_poll {wc : Wc} {wrs : List WorkRequest} {moved : Finset Nat} {a : Int}
    (ho : Outbox p wrs [wc] moved) (h : p.answer d .pollNSendWc = some (a, p')) :
    a = sendResult wc ∧ Outbox p' wrs [] moved ∧ SameIn p p' := by
  rw [Port.answer, ho.sendCq] at h
  cases h
  exact ⟨rfl, ⟨ho.sendQueue, rfl, ho.moved⟩, rfl, rfl, rfl⟩

theorem answer_receive {blocking : Bool} {x : Option ControlMessage} {a : Int} (hi : Inbox p x)
    (h : p.answer d (.pollNextReceiveWc blocking) = some (a, p')) :
    (∀ wrs wcs moved, Outbox p wrs wcs moved → Outbox p' wrs wcs moved) ∧ p'.receive = p.receive ∧
      ((a = 0 ∧ x = some p.receive ∧ Inbox p' none) ∨ (blocking = false ∧ a ≠ 0 ∧ SameIn p p')) := by
  have hempty : p.receiveCq = [] → blocking = false ∧ a ≠ 0 ∧ SameIn p p' ∧
      ∀ wrs wcs moved, Outbox p wrs wcs moved → Outbox p' wrs wcs moved := by
    intro hr
    simp only [Port.answer, hr, pollNextReceiveWc] at h
    cases blocking with
    | true => cases h
    | false =>
      cases h
      exact ⟨rfl, by simp [afterPoll], ⟨rfl, rfl, hr.symm⟩,
        fun _ _ _ ho => ⟨ho.sendQueue, ho.sendCq, ho.moved⟩⟩
  cases hi with
  | empty hi hr | flying hi hr =>
    obtain ⟨hb, ha, hsame, ho⟩ := hempty hr
    exact ⟨ho, hsame.receive, .inr ⟨hb, ha, hsame⟩⟩
  | landed hi hr =>
    have hzero := @afterPoll_recv (fun _ => true) (fun _ => rfl) p.queue
    simp only [Port.answer, hr, pollNextReceiveWc] at h
    have htaken : ∀ b, (if b = true then
        (pollUntil [.completion ⟨.success, .recv⟩]).map
          (fun q => (afterPoll (fun _ => true) p.queue q.1, q.2))
        else some (afterPoll (fun _ => true) p.queue (.completion ⟨.success, .recv⟩), [])) =
        some (afterPoll (fun _ => true) p.queue (.completion ⟨.success, .recv⟩),
          ([] : List PollResult)) := by
      intro b
      cases b <;> rfl
    rw [htaken] at h
    cases h
    exact ⟨fun _ _ _ ho => ⟨ho.sendQueue, ho.sendCq, ho.moved⟩, rfl, .inl ⟨hzero, rfl, .empty hi rfl⟩⟩

end Answers

theorem settle_rest {q : Query} {rest : ClientCode Int} (hr : Rest q rest) (hq : q ≠ .shutDown)
    {m m' : ClientMemory} {stop : Stop ClientMemory Verb Verb.Answer Int}
    (h : settle rest m = some (m', stop)) :
    content m' = content m ∧
      ((∃ reader, Reader q reader ∧ stop = .waiting (.pollNextReceiveWc true) (afterReceive reader)) ∨
        ∃ k reader, Reader q reader ∧ (∃ r mr, q = .fin r mr) ∧ stop = .waiting .ibvDeregMr k ∧
          ∀ m m' stop, settle (k (0 : Int)) m = some (m', stop) →
            stop = .waiting (.pollNextReceiveWc true) (afterReceive reader) ∧ content m' = content m) := by
  cases hr with
  | request r =>
    cases r with
    | kvSet key value =>
      by_cases he : Eager key value
      · simp only [Request.call, Call.rest, he, ↓reduceIte] at h
        cases h
        exact ⟨rfl, .inl ⟨_, .eager he, rfl⟩⟩
      · simp only [Request.call, Call.rest, he, ↓reduceIte] at h
        cases h
        exact ⟨rfl, .inl ⟨_, .rendezvous he rfl rfl, rfl⟩⟩
    | kvGet key =>
      cases h
      exact ⟨rfl, .inl ⟨_, .get, rfl⟩⟩
  | fin_set key value mr lmr =>
    cases h
    refine ⟨rfl, .inr ⟨_, setResult, .fin_set, ⟨_, _, rfl⟩, rfl, fun m m' stop h => ?_⟩⟩
    cases h
    exact ⟨rfl, rfl⟩
  | fin_get key mr =>
    change settle (require m.ctx.mrRdma >>= _) m = _ at h
    rw [settle_require_bind] at h
    obtain ⟨lmr, -, h⟩ := Option.bind_eq_some_iff.mp h
    cases h
    refine ⟨rfl, .inr ⟨_, getResult, .fin_get, ⟨_, _, rfl⟩, rfl, fun m m' stop h => ?_⟩⟩
    cases h
    exact ⟨rfl, rfl⟩
  | shutDown => exact absurd rfl hq

theorem Sent.go {s : ClientState} {q : Query} (h : Sent s q) (hq : q ≠ .shutDown)
    {x : Option ControlMessage} (hi : Inbox s.port x) {verb : Verb}
    {k : verb.Answer → ClientCode Int} {d : Int} {a : verb.Answer} {p : Port} {m : ClientMemory}
    {stop : Stop ClientMemory Verb Verb.Answer Int} (ht : s.thread = some (.waiting verb k))
    (ha : s.port.answer d verb = some (a, p)) (hd : (∃ r mr, q = .fin r mr) → d = 0)
    (hm : settle (k a) s.mem = some (m, stop)) :
    content m = content s.mem ∧ sends stop = false ∧ (∀ c : Fin n, ∀ j, takes c j p verb = []) ∧
      ((Sent { s with mem := m, thread := some stop, port := p } q ∧ Inbox p x) ∨
        ∃ reader, Reader q reader ∧ stop = .waiting .readMessage reader ∧ Outbox p [] [] ∅ ∧
          x = some p.receive ∧ Inbox p none) := by
  cases h with
  | @confirming rest hr ht' ho =>
    rw [ht'] at ht
    cases ht
    obtain ⟨rfl, hp, hsame⟩ := answer_poll ho ha
    obtain ⟨hc, ⟨reader, hreader, rfl⟩ | ⟨k, reader, hreader, hfin, rfl, hk⟩⟩ := settle_rest hr hq hm
    · exact ⟨hc, rfl, fun _ _ => rfl, .inl ⟨.awaiting hreader rfl hp, hsame.inbox hi⟩⟩
    · exact ⟨hc, rfl, fun _ _ => rfl, .inl ⟨.closing hreader hfin rfl hk hp, hsame.inbox hi⟩⟩
  | @closing k reader hr hfin ht' hk ho =>
    rw [ht'] at ht
    cases ht
    cases ha
    obtain rfl := hd hfin
    obtain ⟨rfl, hc⟩ := hk _ _ _ hm
    exact ⟨hc, rfl, fun _ _ => rfl, .inl ⟨.awaiting hr rfl ho, hi⟩⟩
  | @awaiting reader hr ht' ho =>
    rw [ht'] at ht
    cases ht
    obtain ⟨hout, hrec, ⟨rfl, hx, hin⟩ | ⟨hb, -⟩⟩ := answer_receive hi ha
    · rw [settle_afterReceive_zero] at hm
      cases hm
      exact ⟨rfl, rfl, fun _ _ => rfl, .inr ⟨reader, hr, rfl, hout _ _ _ ho, by rw [hx, hrec], hin⟩⟩
    · cases hb

inductive Taken (m m' : ClientMemory) (e : Exchange) (stop : Stop ClientMemory Verb Verb.Answer Int) : Prop
  | close (success : Bool) (hg : e.reply.region = none) (hv : ∀ v, e.reply ≠ .value v)
      (hsuccess : success = true ↔ e.reply = .setSuccessful ∨ e.reply = .getSuccessful)
      (hb : success = true → content m' = content m)
      (hstop : (∃ r : Int, stop = .done r ∧ (r = 0 ↔ success = true)) ∨
        (success = false ∧ ∃ k, stop = .waiting .ibvDeregMr k ∧
          ∀ (d : Int) m m' stop, settle (k d) m = some (m', stop) →
            (∃ r : Int, r ≠ 0 ∧ stop = .done r) ∧ content m' = content m))
  | value {v} (hv : e.reply = .value v) (hb : content m' = some v.bytes) (hstop : stop = .done 0)
  | set {r mr wr rest} (hq : e.letter.query = .request r) (hx : e.reply = .setRendezvous mr)
      (hb : content m' = content m) (hr : Transfer m' r mr wr rest)
      (hstop : stop = .waiting (.ibvPostSend (.rdma wr)) (fun _ => confirm rest))
  | get {r mr wr rest buf} (hq : e.letter.query = .request r) (hx : e.reply = .getRendezvous mr)
      (hb : content m' = some buf) (hbuf : buf.length = mr.length.toNat) (hr : Transfer m' r mr wr rest)
      (hstop : stop = .waiting (.ibvPostSend (.rdma wr)) (fun _ => confirm rest))

theorem carries_word64 {m : ControlMessage} {operation : Operation} {x : UInt64}
    {args : List Argument} (h : Carries m operation (.word64 x :: args)) :
    word64At m.buf 0 = some x := h.readAt

theorem region_readAt (mr : Mr) (pre rest : List UInt8) :
    word64At (pre ++ (encode (Handlers.regionArguments mr) ++ rest)) pre.length =
        some (bswap64 mr.addr) ∧
      word32At (pre ++ (encode (Handlers.regionArguments mr) ++ rest)) (pre.length + 8) =
        some (htonl mr.rkey) := by
  have h := offsets_readAt (Handlers.regionArguments mr) pre rest
  cases h with
  | cons h₁ h =>
    cases h with
    | cons h₂ h => exact ⟨h₁, h₂⟩

theorem rdmaThen_eq {opcode : RdmaOpcode} {rest : ClientCode Int} {m : ClientMemory}
    {lmr : LocalMr} {start : Buffer} {size va : UInt64} {rkey : UInt32} :
    settle (rdmaThen opcode rest) (m.setContext ⟨some lmr, some start, size, va, rkey⟩) =
      some (m.setContext ⟨some lmr, some start, size, va, rkey⟩,
        .waiting (.ibvPostSend (.rdma
          (rdmaRequest ⟨some lmr, some start, size, va, rkey⟩ lmr start opcode)))
          (fun _ => confirm rest)) := rfl

theorem rdmaRequest_swapped {opcode : RdmaOpcode} {lmr : LocalMr} {start : Buffer} {size va : UInt64}
    {rkey : UInt32} :
    rdmaRequest ⟨some lmr, some start, size, bswap64 va, htonl rkey⟩ lmr start opcode =
      ⟨opcode, start, size.toUInt32, lmr, va, rkey⟩ := by
  simp [rdmaRequest]

theorem settle_grantedSet {key : CString} {lmr : LocalMr} {mr : Mr} {msg : ControlMessage}
    (hc : Carries msg .serverKvSetRendezvous (Handlers.regionArguments mr)) (m : ClientMemory) :
    settle (grantedSet key lmr msg) m =
      some (m.setContext ⟨some lmr, some lmr.start, lmr.size, bswap64 mr.addr, htonl mr.rkey⟩,
        .waiting (.ibvPostSend (.rdma
          ⟨.write, lmr.start, lmr.size.toUInt32, lmr, mr.addr, mr.rkey⟩))
          (fun _ => confirm (finSet key lmr))) := by
  have hd : decodeControlMessageBuffer .serverKvSetRendezvous msg.buf = some [0, 8] := hc.decode rfl
  obtain ⟨-, stale, hb⟩ := hc
  obtain ⟨hva, hrkey⟩ := region_readAt mr [] stale
  rw [List.nil_append, ← hb] at hva hrkey
  simp only [grantedSet, hd, settle_require_some, List.getElem?_cons_zero, List.getElem?_cons_succ,
    Option.bind_some]
  rw [show word64At msg.buf 0 = _ from hva, show word32At msg.buf 8 = _ from hrkey]
  simp only [settle_require_some, settle_modify_bind]
  rw [rdmaThen_eq, rdmaRequest_swapped]

theorem settle_grantedGet {key : CString} {mr : Mr} {msg : ControlMessage} {m m' : ClientMemory}
    {stop : Stop ClientMemory Verb Verb.Answer Int}
    (hc : Carries msg .serverKvGetRendezvous (.word64 mr.length :: Handlers.regionArguments mr))
    (h : settle (grantedGet key msg) m = some (m', stop)) :
    ∃ a buf lmr, m'.var = some a ∧ content m' = some buf ∧ buf.length = mr.length.toNat ∧
      stop = .waiting (.ibvPostSend (.rdma
        ⟨.read, .block a, mr.length.toUInt32, lmr, mr.addr, mr.rkey⟩))
        (fun _ => confirm (finGet key)) := by
  have hsize := carries_word64 hc
  have hd : decodeControlMessageBuffer .serverKvGetRendezvous msg.buf = some [0, 8, 16] := hc.decode rfl
  obtain ⟨-, stale, hb⟩ := hc
  obtain ⟨hva, hrkey⟩ := region_readAt mr (u64Bytes mr.length) stale
  have hb' : msg.buf = u64Bytes mr.length ++ (encode (Handlers.regionArguments mr) ++ stale) := by
    rw [hb, encode_cons, List.append_assoc]
    rfl
  rw [← hb', u64Bytes_length] at hva hrkey
  simp only [grantedGet, hd, settle_require_some, List.getElem?_cons_zero, List.getElem?_cons_succ,
    Option.bind_some, hsize] at h
  rw [show word64At msg.buf 8 = _ from hva, show word32At msg.buf 16 = _ from hrkey] at h
  simp only [settle_require_some, settle_locally_bind] at h
  obtain ⟨⟨a, m₁⟩, hm, h⟩ := Option.bind_eq_some_iff.mp h
  obtain ⟨⟨b, heap⟩, hmalloc, heq⟩ := Option.map_eq_some_iff.mp hm
  cases heq
  obtain ⟨-, -, hblocks⟩ := malloc_eq_some hmalloc
  rw [settle_modify_bind, regMr, settle_locally_bind, Option.bind_some, settle_modify_bind, rdmaThen_eq,
    rdmaRequest_swapped] at h
  obtain ⟨rfl, rfl⟩ := Prod.mk.inj (Option.some.inj h)
  refine ⟨b, Memory.fresh m.heap mr.length.toNat, _, rfl, ?_, Memory.fresh_length _ _, rfl⟩
  change heap.blocks b = _
  rw [hblocks, Function.update_self]

theorem settle_valueReply {v : CString} {msg : ControlMessage} {m m' : ClientMemory}
    {stop : Stop ClientMemory Verb Verb.Answer Int} (hc : Carries msg .serverKvGetEager [.string v])
    (h : settle (valueReply msg) m = some (m', stop)) :
    content m' = some v.bytes ∧ stop = .done 0 := by
  have hv := Records.carries_string hc
  have hd : decodeControlMessageBuffer .serverKvGetEager msg.buf = some [0] := rfl
  rw [valueReply, hd, settle_require_some, List.getElem?_cons_zero, Option.bind_some, hv,
    settle_require_some, settle_locally_bind] at h
  obtain ⟨⟨a, m₁⟩, hm, h⟩ := Option.bind_eq_some_iff.mp h
  obtain ⟨⟨b, heap⟩, hdup, heq⟩ := Option.map_eq_some_iff.mp hm
  cases heq
  cases h
  obtain ⟨-, -, -, rest, hrest, hblocks⟩ := strdup_eq_some hdup
  obtain rfl : rest = [] := List.length_eq_zero_iff.mp (by omega)
  refine ⟨?_, rfl⟩
  change heap.blocks b = _
  rw [hblocks, Function.update_self]
  rfl

theorem settle_result {operation : Operation} {msg : ControlMessage} {m m' : ClientMemory}
    {stop : Stop ClientMemory Verb Verb.Answer Int}
    (h : settle (if msg.operation = operation then return 0 else return 1 : ClientCode Int) m =
      some (m', stop)) :
    m' = m ∧ ∃ r : Int, stop = .done r ∧ (r = 0 ↔ msg.operation = operation) := by
  by_cases ho : msg.operation = operation
  · rw [if_pos ho] at h
    cases h
    exact ⟨rfl, 0, rfl, by simp [ho]⟩
  · rw [if_neg ho] at h
    cases h
    exact ⟨rfl, 1, rfl, by simp [ho]⟩

theorem settle_refusedSet {lmr : LocalMr} {m m' : ClientMemory}
    {stop : Stop ClientMemory Verb Verb.Answer Int} (h : settle (refusedSet lmr) m = some (m', stop)) :
    m' = m ∧ ∃ k, stop = .waiting .ibvDeregMr k ∧
      ∀ (d : Int) m m' stop, settle (k d) m = some (m', stop) →
        (∃ r : Int, r ≠ 0 ∧ stop = .done r) ∧ content m' = content m := by
  cases h
  refine ⟨rfl, _, rfl, fun d m m' stop h => ?_⟩
  change settle ((if d = 0 then do modify (fun m => m.eraseRegion lmr); return 0
    else return d : ClientCode Int) >>= fun failed => if failed ≠ 0 then return 3 else return 2) m = _ at h
  by_cases hd : d = 0
  · rw [if_pos hd] at h
    cases h
    exact ⟨⟨2, by decide, rfl⟩, rfl⟩
  · rw [if_neg hd, return_bind, if_pos hd] at h
    cases h
    exact ⟨⟨3, by decide, rfl⟩, rfl⟩

theorem Taken.done {m m' : ClientMemory} {e : Exchange}
    {stop : Stop ClientMemory Verb Verb.Answer Int} {r : Int} (hg : e.reply.region = none)
    (hv : ∀ v, e.reply ≠ .value v)
    (hr : r = 0 ↔ e.reply = .setSuccessful ∨ e.reply = .getSuccessful)
    (hb : r = 0 → content m' = content m) (hstop : stop = .done r) : Taken m m' e stop := by
  refine .close (decide (r = 0)) hg hv ?_ ?_ (.inl ⟨r, hstop, by simp⟩)
  · rw [decide_eq_true_iff]
    exact hr
  · intro hz
    exact hb (of_decide_eq_true hz)

theorem taken_eager {e : Exchange} {key value : CString} (he : Eager key value)
    (hq : e.letter.query = .request (.kvSet key value)) {m m' : ClientMemory}
    {stop : Stop ClientMemory Verb Verb.Answer Int}
    (h : settle (eagerReply e.message) m = some (m', stop)) : Taken m m' e stop := by
  have ho := e.carries.1
  have hp := e.proper
  rw [hq] at hp
  generalize hx : e.reply = x at hp ho
  cases hp with
  | refused =>
    rw [eagerReply, if_pos (show e.message.operation = .serverInProgress from ho)] at h
    cases h
    exact .done (r := 2) (by rw [hx]; rfl) (by simp [hx]) (by simp [hx]) (fun _ => rfl) rfl
  | stored =>
    have hne : e.message.operation ≠ .serverInProgress := by simp [ho, Reply.operation]
    rw [eagerReply, if_neg hne] at h
    obtain ⟨rfl, r, rfl, hr⟩ := settle_result h
    exact .done (by rw [hx]; rfl) (by simp [hx]) (by simp [hr, hx, ho, Reply.operation]) (fun _ => rfl) rfl
  | granted_set he' => exact absurd he he'

theorem taken_rendezvous {e : Exchange} {key value : CString} {lmr : LocalMr}
    (he : ¬ Eager key value) (hstart : lmr.start = .caller value.bytes) (hsize : lmr.size = value.size)
    (hq : e.letter.query = .request (.kvSet key value)) {m m' : ClientMemory}
    {stop : Stop ClientMemory Verb Verb.Answer Int}
    (h : settle (rendezvousReply key lmr e.message) m = some (m', stop)) : Taken m m' e stop := by
  have hc := e.carries
  have hp := e.proper
  rw [hq] at hp
  generalize hx : e.reply = x at hp hc
  cases hp with
  | refused =>
    rw [rendezvousReply, if_pos (show e.message.operation = .serverInProgress from hc.1)] at h
    obtain ⟨rfl, k, rfl, hk⟩ := settle_refusedSet h
    exact .close false (by rw [hx]; rfl) (by simp [hx]) (by simp [hx]) (fun h => by cases h)
      (.inr ⟨rfl, k, rfl, hk⟩)
  | stored he' => exact absurd he' he
  | granted_set _ hlength =>
    have hne : e.message.operation ≠ .serverInProgress := by simp [hc.1, Reply.operation]
    rw [rendezvousReply, if_neg hne, settle_grantedSet hc] at h
    obtain ⟨rfl, rfl⟩ := Prod.mk.inj (Option.some.inj h)
    rw [hstart, hsize, ← hlength]
    exact .set hq hx rfl (.write hstart) rfl

theorem taken_get {e : Exchange} {key : CString} (hq : e.letter.query = .request (.kvGet key))
    {m m' : ClientMemory} {stop : Stop ClientMemory Verb Verb.Answer Int}
    (h : settle (getReply key e.message) m = some (m', stop)) : Taken m m' e stop := by
  have hc := e.carries
  have hp := e.proper
  rw [hq] at hp
  generalize hx : e.reply = x at hp hc
  have ho := hc.1
  cases hp with
  | refused | not_found =>
    rw [getReply, ho] at h
    cases h
    exact .done (r := 1) (by rw [hx]; rfl) (by simp [hx]) (by simp [hx]) (fun h => by cases h) rfl
  | value =>
    rw [getReply, ho] at h
    obtain ⟨hb, rfl⟩ := settle_valueReply hc h
    exact .value hx hb rfl
  | granted_get =>
    rw [getReply, ho] at h
    obtain ⟨a, buf, lmr, hvar, hb, hbuf, rfl⟩ := settle_grantedGet hc h
    exact .get hq hx hb hbuf (.read hvar) rfl

/-- Every answer that a query can get is taken as the protocol says. -/
theorem taken {e : Exchange} {reader : ControlMessage → ClientCode Int}
    (hr : Reader e.letter.query reader) {m m' : ClientMemory}
    {stop : Stop ClientMemory Verb Verb.Answer Int}
    (h : settle (reader e.message) m = some (m', stop)) : Taken m m' e stop := by
  have ho := e.carries.1
  have hp := e.proper
  generalize hq : e.letter.query = q at hr hp
  cases hr with
  | eager he => exact taken_eager he hq h
  | rendezvous he hstart hsize => exact taken_rendezvous he hstart hsize hq h
  | get => exact taken_get hq h
  | fin_set | fin_get =>
    generalize hx : e.reply = x at hp ho
    cases hp
    obtain ⟨rfl, r, rfl, hr⟩ := settle_result h
    exact .done (by rw [hx]; rfl) (by simp [hx]) (by simp [hr, hx, ho, Reply.operation]) (fun _ => rfl) rfl

theorem settle_transfer {m m₀ m' : ClientMemory} {r : Request} {mr : Mr} {wr : RdmaRequest}
    {rest : ClientCode Int} (hr : Transfer m₀ r mr wr rest)
    {stop : Stop ClientMemory Verb Verb.Answer Int} (h : settle rest m = some (m', stop)) :
    ∃ l : Letter, l.query = .fin r mr ∧ content m' = content m ∧ m'.send = l.message ∧
      ∃ rest', Rest l.query rest' ∧ stop = .waiting (.ibvPostSend .send) (afterPost rest') := by
  cases hr with
  | @write key value mr lmr hstart =>
    rw [finSet, settle_setMessage] at h
    obtain ⟨msg, hmsg, h⟩ := Option.bind_eq_some_iff.mp h
    cases h
    have hc : Carries msg .clientKvSetRendezvousFin [.string key] :=
      carries_of_set rfl (points_bytes [.string key]) hmsg
    exact ⟨⟨.fin (.kvSet key value) mr, msg, hc⟩, rfl, rfl, rfl, _, .fin_set key value mr lmr, rfl⟩
  | @read key mr lmr a hvar =>
    rw [finGet, settle_setMessage] at h
    obtain ⟨msg, hmsg, h⟩ := Option.bind_eq_some_iff.mp h
    cases h
    have hc : Carries msg .clientKvGetRendezvousFin [.string key] :=
      carries_of_set rfl (points_bytes [.string key]) hmsg
    exact ⟨⟨.fin (.kvGet key) mr, msg, hc⟩, rfl, rfl, rfl, _, .fin_get key mr, rfl⟩

theorem settle_call {call : Call} {m m' : ClientMemory}
    {stop : Stop ClientMemory Verb Verb.Answer Int} (h : settle call.code m = some (m', stop)) :
    ∃ l : Letter, l.query = .ofCall call ∧ content m' = content m ∧ m'.send = l.message ∧
      ∃ rest, Rest l.query rest ∧ stop = .waiting (.ibvPostSend .send) (afterPost rest) := by
  have hf : call.Fits := by
    by_contra hf
    rw [Call.settle_overruns hf m] at h
    cases h
  obtain ⟨msg, hc, hs⟩ := Call.settle_fits hf m
  rw [hs] at h
  cases h
  cases call with
  | kvSet key value =>
    exact ⟨⟨.request (.kvSet key value), msg, hc⟩, rfl, rfl, rfl, _, .request (.kvSet key value), rfl⟩
  | kvGet key => exact ⟨⟨.request (.kvGet key), msg, hc⟩, rfl, rfl, rfl, _, .request (.kvGet key), rfl⟩
  | shutDownServer => exact ⟨⟨.shutDown, msg, hc⟩, rfl, rfl, rfl, _, .shutDown, rfl⟩

end NetworkOptimization.Seats
