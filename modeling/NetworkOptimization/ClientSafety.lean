import NetworkOptimization.Service
import NetworkOptimization.Waiting

namespace NetworkOptimization.ClientSafety

open Words Memory ControlMessages DynamicArray Verbs SequentialCode Calls Client Runs
open Network Steps Protocol Records Seats Refinement Correspondence Conversation
open Store (storing)
open Function (update)

variable {n : Nat} {programs : Fin n → List Request} {S S' : World n} {P : State n} {c : Fin n}
  {m : ClientMemory} {key : CString} {e : Exchange}

section Code

/-- Where verbs succeed the code goes on without a fault to its next message, whatever an RDMA read
writes into the blocks meanwhile. -/
inductive Clear : ClientMemory → Stop ClientMemory Verb Verb.Answer Int → Prop
  | done {m r} : Clear m (.done r)
  | receiving {m reader} : Clear m (.waiting (.pollNextReceiveWc true) (afterReceive reader))
  | reading {m reader} : Clear m (.waiting .readMessage reader)
  | posting {m wr k rest}
      (hk : ∀ s, settle (k (0 : Int)) s = some (s, .waiting .pollNSendWc (afterConfirm rest)))
      (h : Clear m (.waiting .pollNSendWc (afterConfirm rest))) : Clear m (.waiting (.ibvPostSend wr) k)
  | confirming {m rest} (m' : Heap → ClientMemory) (stop' : Heap → Stop ClientMemory Verb Verb.Answer Int)
      (hs : ∀ heap, settle rest (m.setHeap heap) = some (m' heap, stop' heap))
      (h : ∀ heap, Clear (m' heap) (stop' heap)) : Clear m (.waiting .pollNSendWc (afterConfirm rest))
  | releasing {m k} (m' : Heap → ClientMemory) (stop' : Heap → Stop ClientMemory Verb Verb.Answer Int)
      (hs : ∀ heap, settle (k (0 : Int)) (m.setHeap heap) = some (m' heap, stop' heap))
      (h : ∀ heap, Clear (m' heap) (stop' heap)) : Clear m (.waiting .ibvDeregMr k)

theorem Clear.setHeap {stop : Stop ClientMemory Verb Verb.Answer Int} (h : Clear m stop) (heap : Heap) :
    Clear (m.setHeap heap) stop := by
  induction h with
  | done => exact .done
  | receiving => exact .receiving
  | reading => exact .reading
  | posting hk _ ih => exact .posting hk ih
  | confirming m' stop' hs h => exact .confirming m' stop' hs h
  | releasing m' stop' hs h => exact .releasing m' stop' hs h

def Proceeds (m : ClientMemory) (code : ClientCode Int) : Prop :=
  ∀ heap, ∃ m' stop, settle code (m.setHeap heap) = some (m', stop) ∧ Clear m' stop

theorem Proceeds.confirming {rest : ClientCode Int} (h : Proceeds m rest) :
    Clear m (.waiting .pollNSendWc (afterConfirm rest)) := by
  choose m' stop' hs hc using h
  exact .confirming m' stop' hs hc

theorem proceeds_receive (m : ClientMemory) (reader : ControlMessage → ClientCode Int) :
    Proceeds m (receiveThen reader) :=
  fun heap => ⟨m.setHeap heap, _, rfl, .receiving⟩

theorem Proceeds.sending {rest : ClientCode Int} (h : Proceeds m rest) :
    Clear m (.waiting (.ibvPostSend .send) (afterPost rest)) :=
  .posting (fun _ => rfl) h.confirming

theorem proceeds_send {operation : Operation} {args : List Argument}
    (hk : args.map Argument.kind = operation.fields) (hl : (encode args).length ≤ controlMessageBufferSize)
    {rest : ClientCode Int} (h : ∀ msg, Proceeds (m.setSend msg) rest) :
    Proceeds m (setMessage operation (args.map Argument.bytes) >>= fun _ => sendThen rest) := by
  intro heap
  obtain ⟨msg, hmsg, -⟩ := setControlMessage_carries hk (points_bytes args) m.send hl
  refine ⟨(m.setSend msg).setHeap heap, .waiting (.ibvPostSend .send) (afterPost rest), ?_,
    ((h msg).sending).setHeap heap⟩
  rw [settle_setMessage]
  change Option.bind (setControlMessage operation _ m.send) _ = _
  rw [hmsg]
  rfl

theorem proceeds_closeSet (m : ClientMemory) (lmr : LocalMr) : Proceeds m (closeSet lmr) :=
  fun heap => ⟨m.setHeap heap, _, rfl, .releasing _ _ (fun _ => rfl) fun _ => .receiving⟩

theorem proceeds_closeGet {lmr : LocalMr} (hctx : m.ctx.mrRdma = some lmr) : Proceeds m closeGet := by
  intro heap
  have hlmr : (m.setHeap heap).ctx.mrRdma = some lmr := hctx
  rw [closeGet, settle_gets_bind, hlmr]
  exact ⟨m.setHeap heap, _, rfl, .releasing _ _ (fun _ => rfl) fun _ => .receiving⟩

def Fitting (key : CString) : Prop := (encode [.string key]).length ≤ controlMessageBufferSize

theorem proceeds_finSet (hf : Fitting key) (m : ClientMemory) (lmr : LocalMr) :
    Proceeds m (finSet key lmr) :=
  @proceeds_send m .clientKvSetRendezvousFin [.string key] rfl hf (closeSet lmr)
    fun msg => proceeds_closeSet (m.setSend msg) lmr

theorem proceeds_finGet (hf : Fitting key) {lmr : LocalMr} (hctx : m.ctx.mrRdma = some lmr) :
    Proceeds m (finGet key) :=
  @proceeds_send m .clientKvGetRendezvousFin [.string key] rfl hf closeGet fun _ => proceeds_closeGet hctx

theorem Proceeds.transferring {wr : WorkRequest} {rest : ClientCode Int} (h : Proceeds m rest) :
    Clear m (.waiting (.ibvPostSend wr) (fun _ => confirm rest)) :=
  .posting (fun _ => rfl) h.confirming

theorem proceeds_rest (call : Call) (m : ClientMemory) : Proceeds m call.rest := by
  cases call with
  | kvSet key value =>
    by_cases he : Eager key value
    · simp only [Call.rest, he, ↓reduceIte]
      exact proceeds_receive m eagerReply
    · simp only [Call.rest, he, ↓reduceIte]
      exact fun heap => ⟨_, _, rfl, .receiving⟩
  | kvGet key => exact proceeds_receive m (getReply key)
  | shutDownServer => exact fun heap => ⟨m.setHeap heap, _, rfl, .done⟩

theorem clear_refusedSet (m : ClientMemory) (lmr : LocalMr) :
    ∃ stop, settle (refusedSet lmr) m = some (m, stop) ∧ Clear m stop :=
  ⟨_, rfl, .releasing _ _ (fun _ => rfl) fun _ => .done⟩

theorem settle_grantedGet_eq {mr : Mr} {msg : ControlMessage}
    (hc : Carries msg .serverKvGetRendezvous (.word64 mr.length :: Handlers.regionArguments mr))
    (m : ClientMemory) :
    ∃ (m' : UInt64 × Heap → ClientMemory) (wr : UInt64 × Heap → WorkRequest),
      settle (grantedGet key msg) m = (malloc m.heap mr.length.toNat).map (fun p =>
        (m' p, .waiting (.ibvPostSend (wr p)) (fun _ => confirm (finGet key)))) ∧
      ∀ p, ∃ lmr, (m' p).ctx.mrRdma = some lmr := by
  have hsize := carries_word64 hc
  have hd : decodeControlMessageBuffer .serverKvGetRendezvous msg.buf = some [0, 8, 16] := hc.decode rfl
  obtain ⟨-, stale, hb⟩ := hc
  obtain ⟨hva, hrkey⟩ := region_readAt mr (u64Bytes mr.length) stale
  have hb' : msg.buf = u64Bytes mr.length ++ (encode (Handlers.regionArguments mr) ++ stale) := by
    rw [hb, encode_cons, List.append_assoc]
    rfl
  rw [← hb', u64Bytes_length] at hva hrkey
  have hva' : word64At msg.buf 8 = some (bswap64 mr.addr) := hva
  have hrkey' : word32At msg.buf 16 = some (htonl mr.rkey) := hrkey
  simp only [grantedGet, hd, settle_require_some, List.getElem?_cons_zero, List.getElem?_cons_succ,
    Option.bind_some, hsize, hva', hrkey', settle_locally_bind, Option.bind_map]
  refine ⟨_, _, Option.map_eq_bind.symm, fun p => ⟨_, rfl⟩⟩

theorem fitting_of_letter (l : Letter) {r : Request} (hq : l.query = .request r) : Fitting r.key := by
  have hc := l.carries
  rw [hq] at hc
  obtain ⟨-, stale, hb⟩ := hc
  have hlength : (encode r.call.arguments).length ≤ controlMessageBufferSize := by
    rw [← l.message.length_buf, hb, List.length_append]
    exact Nat.le_add_right _ _
  refine Nat.le_trans ?_ hlength
  cases r with
  | kvSet key value =>
    by_cases he : Eager key value <;>
      simp only [Request.key, Request.call, Call.arguments, he, ↓reduceIte, encode_cons, encode_nil,
        List.append_nil, List.length_append] <;> omega
  | kvGet key => exact Nat.le_refl _

theorem clear_result {operation : Operation} {msg : ControlMessage} {m' : ClientMemory}
    {stop : Stop ClientMemory Verb Verb.Answer Int}
    (h : settle (if msg.operation = operation then return 0 else return 1 : ClientCode Int) m =
      some (m', stop)) :
    Clear m' stop := by
  obtain ⟨-, r, rfl, -⟩ := settle_result h
  exact .done

theorem clear_reader {reader : ControlMessage → ClientCode Int} (hr : Reader e.letter.query reader)
    {m' : ClientMemory} {stop : Stop ClientMemory Verb Verb.Answer Int}
    (h : settle (reader e.message) m = some (m', stop)) : Clear m' stop := by
  have hc := e.carries
  have hp := e.proper
  have hfits : ∀ r, e.letter.query = .request r → Fitting r.key :=
    fun r hq => fitting_of_letter e.letter hq
  generalize e.letter.query = q at hr hp hfits
  cases hr with
  | fin_set => exact clear_result h
  | fin_get => exact clear_result h
  | eager he =>
    rw [eagerReply] at h
    by_cases ho : e.message.operation = .serverInProgress
    · rw [if_pos ho] at h
      cases h
      exact .done
    · rw [if_neg ho] at h
      exact clear_result h
  | @rendezvous key value lmr he =>
    rw [rendezvousReply] at h
    by_cases ho : e.message.operation = .serverInProgress
    · obtain ⟨stop', hs, hclear⟩ := clear_refusedSet m lmr
      rw [if_pos ho, hs] at h
      cases h
      exact hclear
    · rw [if_neg ho] at h
      generalize hx : e.reply = x at hp hc
      cases hp with
      | refused => exact absurd hc.1 ho
      | stored he' => exact absurd he' he
      | granted_set =>
        rw [settle_grantedSet hc] at h
        cases h
        exact (proceeds_finSet (hfits _ rfl) _ lmr).transferring
  | @get key =>
    generalize hx : e.reply = x at hp hc
    have ho := hc.1
    cases hp with
    | refused | not_found =>
      rw [getReply, ho] at h
      cases h
      exact .done
    | value =>
      rw [getReply, ho] at h
      obtain ⟨-, rfl⟩ := settle_valueReply hc h
      exact .done
    | granted_get =>
      obtain ⟨m', wr, hs, hctx⟩ := settle_grantedGet_eq hc m
      rw [getReply, ho] at h
      change settle (grantedGet key e.message) m = _ at h
      rw [hs] at h
      obtain ⟨p, -, hp⟩ := Option.map_eq_some_iff.mp h
      cases hp
      obtain ⟨lmr, hlmr⟩ := hctx p
      exact (proceeds_finGet (hfits _ rfl) hlmr).transferring

def Supplied (m : ClientMemory) : Prop :=
  m.heap.place m.heap.count ≠ 0 ∧ m.heap.blocks (m.heap.place m.heap.count) = none

instance (m : ClientMemory) : Decidable (Supplied m) :=
  inferInstanceAs (Decidable (_ ∧ _))

/-- Every answer is read without a fault. -/
theorem reader_defined (hs : Supplied m) {reader : ControlMessage → ClientCode Int}
    (hr : Reader e.letter.query reader) : (settle (reader e.message) m).isSome = true := by
  have hc := e.carries
  have hp := e.proper
  generalize e.letter.query = q at hr hp
  cases hr with
  | fin_set =>
    rw [setResult]
    by_cases ho : e.message.operation = .serverKvSetSuccessful <;> simp only [ho, ↓reduceIte] <;> rfl
  | fin_get =>
    rw [getResult]
    by_cases ho : e.message.operation = .serverKvGetSuccessful <;> simp only [ho, ↓reduceIte] <;> rfl
  | eager he =>
    rw [eagerReply, setResult]
    by_cases ho : e.message.operation = .serverInProgress
    · rw [if_pos ho]
      rfl
    · rw [if_neg ho]
      by_cases ho : e.message.operation = .serverKvSetSuccessful <;> simp only [ho, ↓reduceIte] <;> rfl
  | @rendezvous key value lmr he =>
    rw [rendezvousReply]
    by_cases ho : e.message.operation = .serverInProgress
    · rw [if_pos ho]
      rfl
    · rw [if_neg ho]
      generalize hx : e.reply = x at hp hc
      cases hp with
      | refused => exact absurd hc.1 ho
      | stored he' => exact absurd he' he
      | granted_set =>
        rw [settle_grantedSet hc]
        rfl
  | @get key =>
    generalize hx : e.reply = x at hp hc
    have ho := hc.1
    cases hp with
    | refused | not_found =>
      rw [getReply, ho]
      rfl
    | @value _ v =>
      have hd : decodeControlMessageBuffer .serverKvGetEager e.message.buf = some [0] := rfl
      have hv := Records.carries_string hc
      obtain ⟨h', hdup, -⟩ := Service.strdup_new hs.1 hs.2 (Nat.le_refl (v.chars.length + 1))
      rw [getReply, ho]
      change (settle (valueReply e.message) m).isSome = true
      rw [valueReply, hd, settle_require_some, List.getElem?_cons_zero, Option.bind_some, hv,
        settle_require_some,
        settle_locally_bind, hdup]
      rfl
    | @granted_get _ mr =>
      obtain ⟨m', wr, hsettle, -⟩ := settle_grantedGet_eq hc m
      rw [getReply, ho]
      change (settle (grantedGet key e.message) m).isSome = true
      rw [hsettle, Service.malloc_new hs.1 hs.2]
      rfl

end Code

section Worlds

def AllClear (S : World n) : Prop :=
  ∀ c stop, (S.client c).thread = some stop → Clear (S.client c).mem stop

theorem AllClear.client (h : AllClear S) {s : ClientState}
    (hs : ∀ stop, s.thread = some stop → Clear s.mem stop) :
    AllClear (S.setClient c s) := by
  intro d stop ht
  by_cases hd : d = c
  · subst hd
    simp only [World.setClient, Function.update_self] at ht ⊢
    exact hs stop ht
  · simp only [World.setClient, Function.update_of_ne hd] at ht ⊢
    exact h d stop ht

theorem at_reading {s : ClientState} {x : Session} (h : Seat programs c s x)
    {reader : ControlMessage → ClientCode Int}
    (ht : s.thread = some (.waiting .readMessage reader)) :
    ∃ e : Exchange, Reader e.letter.query reader ∧ s.port.receive = e.message := by
  cases h with
  | @reading e reader' hr ht' _ _ hm =>
    rw [ht] at ht'
    cases ht'
    exact ⟨e, hr, hm⟩
  | pending _ hs | served hs | stranded _ hs | replied hs =>
    cases hs with
    | confirming _ ht' | closing _ _ ht' | awaiting _ ht' =>
      rw [ht] at ht'
      cases ht'
  | idle ht' | posting _ ht' | posted _ ht' | aiming _ ht' | moving _ ht' | moved _ ht' | finished ht'
  | refusing ht' | failed ht' | parting _ ht' | parted _ ht' | left _ ht' =>
    rw [ht] at ht'
    cases ht'

theorem settle_afterReceive_failed (reader : ControlMessage → ClientCode Int) {r : Int} (hr : r ≠ 0)
    (m : ClientMemory) : settle (afterReceive reader r) m = some (m, .done 1) := by
  rw [afterReceive, if_pos hr]
  rfl

/-- What a client does next is clear. -/
theorem clear_step {s : ClientState} {x : Session} (h : Seat programs c s x) {verb : Verb}
    {k : verb.Answer → ClientCode Int} (hclear : Clear s.mem (.waiting verb k))
    (ht : s.thread = some (.waiting verb k)) {a : verb.Answer} {p : Port}
    (ha : s.port.answer 0 verb = some (a, p)) {m : ClientMemory}
    {stop : Stop ClientMemory Verb Verb.Answer Int}
    (hm : settle (k a) s.mem = some (m, stop)) : Clear m stop := by
  cases hclear with
  | @receiving _ reader =>
    by_cases hzero : a = 0
    · subst hzero
      rw [settle_afterReceive_zero] at hm
      cases hm
      exact .reading
    · rw [settle_afterReceive_failed reader hzero] at hm
      cases hm
      exact .done
  | reading =>
    obtain ⟨e, hr, hreceive⟩ := at_reading h ht
    cases ha
    rw [hreceive] at hm
    exact clear_reader hr hm
  | posting hk hc =>
    cases ha
    rw [hk] at hm
    cases hm
    exact hc
  | @confirming _ rest m' stop' hs hc =>
    by_cases hzero : a = 0
    · subst hzero
      have hsame : settle rest s.mem = some (m' s.mem.heap, stop' s.mem.heap) := hs s.mem.heap
      rw [afterConfirm_zero, hsame] at hm
      cases hm
      exact hc s.mem.heap
    · rw [afterConfirm, if_pos hzero] at hm
      cases hm
      exact .done
  | @releasing _ k m' stop' hs hc =>
    cases ha
    have hsame : settle (k (0 : Int)) s.mem = some (m' s.mem.heap, stop' s.mem.heap) := hs s.mem.heap
    rw [hsame] at hm
    cases hm
    exact hc s.mem.heap

theorem allClear_step {l : Label n} (h : AllClear S) (href : Refines programs S P) (hl : Succeeds l)
    (hs : Network.Step programs S l S') : AllClear S' := by
  cases l with
  | call c =>
    obtain ⟨call, m, stop, -, -, hm, rfl⟩ := stepCall_eq_some hs
    refine h.client fun stop' ht => ?_
    cases ht
    rw [Call.settle_code] at hm
    obtain ⟨msg, -, hp⟩ := Option.map_eq_some_iff.mp hm
    cases hp
    exact (proceeds_rest call _).sending
  | client c dereg =>
    obtain rfl : dereg = 0 := hl
    obtain ⟨verb, k, a, p, m, stop, ht, ha, hm, rfl⟩ := ClientSteps.stepClient_eq_some hs
    refine h.client fun stop' ht' => ?_
    cases ht'
    exact clear_step (href.seat c) (h c _ ht) ht ha hm
  | ret c =>
    obtain ⟨r, -, rfl⟩ := stepRet_eq_some hs
    exact h.client fun stop ht => by cases ht
  | server dereg =>
    obtain ⟨c, verb, k, a, p, m, stop, -, -, -, rfl⟩ := ServerSteps.stepServer_eq_some hs
    exact h
  | next =>
    obtain ⟨c, -, rfl⟩ := stepNext_eq_some hs
    exact h
  | send side c fate =>
    cases side with
    | client =>
      obtain ⟨wrs, -, rfl⟩ := stepSend_client_eq_some hs
      by_cases hf : fate.Arrives <;> simp only [hf, ↓reduceIte]
      · exact h.client (h c)
      · exact h.client (h c)
    | server =>
      obtain ⟨wrs, -, rfl⟩ := stepSend_server_eq_some hs
      by_cases hf : fate.Arrives <;> simp only [hf, ↓reduceIte]
      · exact AllClear.client (S := S.setPort c _) h (h c)
      · exact h
  | deliver side c =>
    cases side with
    | client =>
      obtain ⟨p, hp, rfl⟩ := Option.map_eq_some_iff.mp hs
      exact h.client (h c)
    | server =>
      obtain ⟨p, hp, rfl⟩ := Option.map_eq_some_iff.mp hs
      exact h
  | copy c mr i =>
    obtain ⟨r, wrs, there, here, byte, -, -, -, -, ⟨-, -, rfl⟩ | ⟨-, -, m, hm, rfl⟩⟩ := stepCopy_eq_some hs
    · exact AllClear.client (S := { S with mem := _ }) h (h c)
    · refine h.client fun stop ht => ?_
      cases hbuf : r.addr with
      | caller bytes =>
        rw [hbuf] at hm
        cases hm
      | block a =>
        rw [hbuf] at hm
        cases hm
        exact (h c stop ht).setHeap _
  | complete c ok =>
    obtain ⟨r, wrs, -, -, rfl⟩ := stepComplete_eq_some hs
    exact h.client (h c)

theorem allClear (h : Reached programs S) :
    ∃ P, Refines programs S P ∧ Reliable programs P ∧ AllClear S := by
  refine h.invariant (P := fun S => ∃ P, Refines programs S P ∧ Reliable programs P ∧ AllClear S)
    (fun S hS => ?_) ?_
  · obtain ⟨P, hP, href⟩ := @refines_start n programs S hS
    refine ⟨P, href, reliable_start hP, fun c stop ht => ?_⟩
    rw [(hS.client c).1] at ht
    cases ht
  · rintro S l S' ⟨P, href, hP, hc⟩ hl hs
    obtain ⟨P', href', hP', -⟩ := hP.simulate href hl hs
    exact ⟨P', href', hP', allClear_step hc href hl hs⟩

end Worlds

section Clients

/-- What can happen next to a client that is not done: it makes its next call or goes on, its call
returns, the adapter sends or moves what it waits for, or the message it waits for is on its connection. -/
inductive Lively (programs : Fin n → List Request) (S : World n) (c : Fin n) : Prop
  | calls (h : (stepCall programs S c).isSome = true)
  | goes (h : (stepClient S c 0).isSome = true)
  | returns (h : (stepRet S c).isSome = true)
  | sends {k} (ht : (S.client c).thread = some (.waiting .pollNSendWc k))
      (h : (stepSend S .client c .ok).isSome = true)
  | moves {k wr wrs} (ht : (S.client c).thread = some (.waiting .pollNSendWc k))
      (h : (S.client c).port.sendQueue = .rdma wr :: wrs)
  | awaits {k} (ht : (S.client c).thread = some (.waiting (.pollNextReceiveWc true) k))
      (h : toServer S c + toClient S c = 1)

theorem goes_client {verb : Verb} {k : verb.Answer → ClientCode Int} {a : verb.Answer} {p : Port}
    (ht : (S.client c).thread = some (.waiting verb k))
    (ha : (S.client c).port.answer 0 verb = some (a, p))
    (hk : (settle (k a) (S.client c).mem).isSome = true) : Lively programs S c := by
  obtain ⟨⟨m, stop⟩, hm⟩ := Option.isSome_iff_exists.mp hk
  refine .goes ?_
  simp only [stepClient, ht, ha, hm, Option.bind_eq_bind, Option.bind_some, Option.isSome_some]

theorem lively_confirming {rest : ClientCode Int} (hseat : Seat programs c (S.client c) (P.session c))
    (ht : (S.client c).thread = some (.waiting .pollNSendWc (afterConfirm rest)))
    (hrest : (settle rest (S.client c).mem).isSome = true) : Lively programs S c := by
  have hone := Waiting.client_pending hseat ht
  cases hcq : (S.client c).port.sendCq with
  | cons wc wcs =>
    have ha : (S.client c).port.answer 0 .pollNSendWc =
        some (sendResult wc, { (S.client c).port with sendCq := wcs }) := by
      rw [Port.answer, hcq]
    refine goes_client ht ha ?_
    by_cases hzero : sendResult wc = 0
    · rw [hzero, afterConfirm_zero]
      exact hrest
    · rw [afterConfirm, if_pos hzero]
      rfl
  | nil =>
    cases hqueue : (S.client c).port.sendQueue with
    | nil => simp [Waiting.pending, hcq, hqueue] at hone
    | cons w wrs =>
      cases w with
      | send =>
        refine .sends ht ?_
        simp [stepSend, hqueue]
      | rdma wr => exact .moves ht hqueue

theorem lively_thread (href : Refines programs S P) (hP : Reliable programs P)
    (hs : Supplied (S.client c).mem) {stop : Stop ClientMemory Verb Verb.Answer Int}
    (hclear : Clear (S.client c).mem stop) (ht : (S.client c).thread = some stop) :
    Lively programs S c := by
  cases hclear with
  | done =>
    refine .returns ?_
    simp [stepRet, ht]
  | receiving => exact .awaits ht (Waiting.reply_under_way href hP ht)
  | @reading _ reader =>
    obtain ⟨e, hr, hreceive⟩ := at_reading (href.seat c) ht
    refine goes_client (a := (S.client c).port.receive) ht rfl ?_
    rw [hreceive]
    exact reader_defined hs hr
  | posting hk =>
    refine goes_client (a := (0 : Int)) ht rfl ?_
    rw [hk]
    rfl
  | @confirming _ rest m' stop' hsettle =>
    have hsame : settle rest (S.client c).mem = _ := hsettle (S.client c).mem.heap
    refine lively_confirming (href.seat c) ht ?_
    rw [hsame]
    rfl
  | @releasing _ k m' stop' hsettle =>
    have hsame : settle (k (0 : Int)) (S.client c).mem = _ := hsettle (S.client c).mem.heap
    refine goes_client (a := (0 : Int)) ht rfl ?_
    rw [hsame]
    rfl

/-- No call of a client goes wrong, and none is stuck: a client with memory for a value whose calls
fit their messages is done with its program, or goes on, or is served. -/
theorem client_never_stuck (h : Reached programs S)
    (hfits : ∀ call, callAt programs c (S.client c).index = some call → call.Fits)
    (hs : Supplied (S.client c).mem) :
    ((S.client c).thread = none ∧ callAt programs c (S.client c).index = none) ∨ Lively programs S c := by
  obtain ⟨P, href, hP, hclear⟩ := allClear h
  cases ht : (S.client c).thread with
  | some stop => exact .inr (lively_thread href hP hs (hclear c stop ht) ht)
  | none =>
    cases hcall : callAt programs c (S.client c).index with
    | none => exact .inl ⟨rfl, rfl⟩
    | some call =>
      obtain ⟨msg, -, hsettle⟩ := Call.settle_fits (hfits call hcall) (S.client c).mem
      refine .inr (.calls ?_)
      simp only [stepCall, ht, hcall, hsettle, Option.bind_eq_bind, Option.bind_some, Option.isSome_some]

theorem client_never_stuck_get : ∃ S, Reached storing S ∧ (S.client 0).index = 1 ∧
    (((S.client 0).thread = none ∧ callAt storing 0 (S.client 0).index = none) ∨ Lively storing S 0) := by
  have hrun : (run (step storing) pair (readBack.take 42)).map
      (fun S => ((S.client 0).index, decide (Supplied (S.client 0).mem))) = some (1, true) := by
    decide +kernel
  obtain ⟨S, hS, hfields⟩ := Option.map_eq_some_iff.mp hrun
  obtain ⟨hindex, hsupplied⟩ := Prod.mk.inj hfields
  have hreached : Reached storing S :=
    Reach.run (.start pair_start) (fun l hl => Store.readBack_succeeds l (List.mem_of_mem_take hl)) hS
  have hfits : ∀ call, callAt storing 0 (S.client 0).index = some call → call.Fits := by
    intro call hcall
    rw [hindex] at hcall
    cases hcall
    rw [Call.Fits]
    decide
  exact ⟨S, hreached, hindex, client_never_stuck hreached hfits (of_decide_eq_true hsupplied)⟩

end Clients

end NetworkOptimization.ClientSafety
