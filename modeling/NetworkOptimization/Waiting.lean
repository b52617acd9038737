import NetworkOptimization.Conversation

namespace NetworkOptimization.Waiting

open Verbs SequentialCode Calls Runs
open Network Steps Protocol Exclusion Seats Refinement ServerSteps Correspondence Conversation

variable {n : Nat} {programs : Fin n → List Request} {S S' : World n} {P : State n} {c : Fin n}

section Credits

/-- There are receives, and refilling makes receives. -/
def Stocked (q : ReceiveQueue) : Prop := 0 < q.routs ∧ 0 < q.rxDepth

theorem afterPoll_stocked {q : ReceiveQueue} (h : Stocked q) (r : PollResult) :
    Stocked (afterPoll (fun _ => true) q r).2 := by
  obtain ⟨hrouts, hdepth⟩ := h
  cases r with
  | empty | error => exact ⟨hrouts, hdepth⟩
  | completion wc =>
    by_cases hs : wc.status = .success
    · by_cases ho : wc.opcode = .recv
      · by_cases hr : q.routs - 1 ≤ refillRwrThres
        · simpa [Stocked, afterPoll, hs, ho, hr, ppPostRecv, postLoop_true] using hdepth
        · have htaken : (afterPoll (fun _ => true) q (.completion wc)).2 =
            { q with routs := q.routs - 1 } := by
            simp [afterPoll, hs, ho, hr]
          have hthres : (0 : Int) < refillRwrThres := by decide
          rw [htaken]
          refine ⟨?_, hdepth⟩
          change 0 < q.routs - 1
          omega
      · simpa [Stocked, afterPoll, hs, ho] using ⟨hrouts, hdepth⟩
    · simpa [Stocked, afterPoll, hs] using ⟨hrouts, hdepth⟩

theorem poll_stocked {q : ReceiveQueue} {blocking : Bool} {polls : List PollResult}
    {r : (Int × ReceiveQueue) × List PollResult}
    (hr : pollNextReceiveWc blocking (fun _ => true) q polls = some r)
    (h : Stocked q) : Stocked r.1.2 := by
  unfold pollNextReceiveWc at hr
  cases blocking with
  | true =>
    obtain ⟨x, -, rfl⟩ := Option.map_eq_some_iff.mp hr
    exact afterPoll_stocked h x.1
  | false =>
    cases polls with
    | nil => cases hr
    | cons x polls =>
      cases hr
      exact afterPoll_stocked h x

theorem answer_stocked {p p' : Port} {d : Int} {verb : Verb} {a : verb.Answer}
    (ha : p.answer d verb = some (a, p')) (h : Stocked p.queue) : Stocked p'.queue := by
  cases verb with
  | ibvPostSend wr | readMessage | ibvDeregMr =>
    cases ha
    exact h
  | pollNSendWc =>
    cases hq : p.sendCq with
    | nil => simp [Port.answer, hq] at ha
    | cons wc wcs =>
      simp only [Port.answer, hq] at ha
      cases ha
      exact h
  | pollNextReceiveWc blocking =>
    obtain ⟨r, hr, hp⟩ := Option.map_eq_some_iff.mp ha
    cases hp
    exact poll_stocked hr h

def Ready (S : World n) : Prop := ∀ c, Stocked (S.port c).queue ∧ Stocked (S.client c).port.queue

theorem ready_client {s : ClientState} (h : Ready S) (hs : Stocked s.port.queue) :
    Ready (S.setClient c s) := by
  intro d
  refine ⟨(h d).1, ?_⟩
  by_cases hd : d = c
  · subst hd
    simpa [World.setClient] using hs
  · simpa [World.setClient, hd] using (h d).2

theorem ready_port {p : Port} (h : Ready S) (hp : Stocked p.queue) : Ready (S.setPort c p) := by
  intro d
  refine ⟨?_, (h d).2⟩
  by_cases hd : d = c
  · subst hd
    simpa [World.setPort] using hp
  · simpa [World.setPort, hd] using (h d).1

theorem deliver_queue {p p' : Port} (h : p.deliver = some p') : p'.queue = p.queue := by
  unfold Port.deliver at h
  split at h
  · cases h
  · obtain ⟨-, h⟩ := Option.ite_none_right_eq_some.mp h
    cases h
    rfl

theorem ready_start (h : Network.Start S) : Ready S := by
  have hfull : Stocked ⟨rxDepth, rxDepth⟩ := by
    constructor <;> decide
  exact fun c => ⟨(h.port c).queue ▸ hfull, (h.client c).2.2.queue ▸ hfull⟩

theorem ready_step {l : Label n} (h : Ready S) (hs : Network.Step programs S l S') : Ready S' := by
  cases l with
  | call c =>
    obtain ⟨call, m, stop, -, -, -, rfl⟩ := stepCall_eq_some hs
    exact ready_client h (h c).2
  | client c dereg =>
    obtain ⟨verb, k, a, p, m, stop, -, ha, -, rfl⟩ := ClientSteps.stepClient_eq_some hs
    exact ready_client h (answer_stocked ha (h c).2)
  | ret c =>
    obtain ⟨r, -, rfl⟩ := stepRet_eq_some hs
    exact ready_client h (h c).2
  | server dereg =>
    obtain ⟨c, verb, k, a, p, m, stop, -, ha, -, rfl⟩ := stepServer_eq_some hs
    exact ready_port (S := { S with mem := m, thread := some (c, stop) }) h (answer_stocked ha (h c).1)
  | next =>
    obtain ⟨c, -, rfl⟩ := stepNext_eq_some hs
    exact h
  | send side c fate =>
    cases side with
    | client =>
      obtain ⟨wrs, -, rfl⟩ := stepSend_client_eq_some hs
      by_cases hf : fate.Arrives <;> simp only [hf, ↓reduceIte]
      · exact ready_port (ready_client h (h c).2) (h c).1
      · exact ready_client h (h c).2
    | server =>
      obtain ⟨wrs, -, rfl⟩ := stepSend_server_eq_some hs
      by_cases hf : fate.Arrives <;> simp only [hf, ↓reduceIte]
      · exact ready_client (ready_port h (h c).1) (h c).2
      · exact ready_port h (h c).1
  | deliver side c =>
    cases side with
    | client =>
      obtain ⟨p, hp, rfl⟩ := Option.map_eq_some_iff.mp hs
      exact ready_client h (deliver_queue hp ▸ (h c).2)
    | server =>
      obtain ⟨p, hp, rfl⟩ := Option.map_eq_some_iff.mp hs
      exact ready_port h (deliver_queue hp ▸ (h c).1)
  | copy c mr i =>
    obtain ⟨r, wrs, there, here, byte, -, -, -, -, ⟨-, -, rfl⟩ | ⟨-, -, m, hm, rfl⟩⟩ := stepCopy_eq_some hs
    · exact ready_client h (h c).2
    · exact ready_client h (h c).2
  | complete c ok =>
    obtain ⟨r, wrs, -, -, rfl⟩ := stepComplete_eq_some hs
    exact ready_client h (h c).2

theorem ready (h : Reached programs S) : Ready S :=
  h.invariant (P := Ready) (fun _ hS => ready_start hS) fun _ _ _ hS _ hs => ready_step hS hs

end Credits

section Messages

/-- A request that waits for its completion, and the completion of a request that is over. -/
def pending (p : Port) : Nat := p.sendQueue.length + p.sendCq.length

theorem pending_outbox {p : Port} {wrs : List WorkRequest} {wcs : List Wc} {moved : Finset Nat}
    (h : Outbox p wrs wcs moved) : pending p = wrs.length + wcs.length := by
  rw [pending, h.sendQueue, h.sendCq]

theorem client_pending {s : ClientState} {x : Session} (h : Seat programs c s x) {k}
    (ht : s.thread = some (.waiting .pollNSendWc k)) : pending s.port = 1 := by
  cases h with
  | pending _ hs | served hs | stranded _ hs | replied hs =>
    cases hs with
    | confirming _ _ ho => exact pending_outbox ho
    | closing _ _ ht' | awaiting _ ht' =>
      rw [ht] at ht'
      cases ht'
  | posted _ _ ho | moving _ _ ho | moved _ _ ho | failed _ ho | parting _ _ ho => exact pending_outbox ho
  | idle ht' | posting _ ht' | reading _ ht' | aiming _ ht' | finished ht' | refusing ht' | parted _ ht'
  | left _ ht' =>
    rw [ht] at ht'
    cases ht'

theorem server_pending (h : Refines programs S P) {k} (ht : S.thread = some (c, .waiting .pollNSendWc k)) :
    pending (S.port c) = 1 := by
  obtain ⟨es, -, hserving⟩ := serving_at h ht
  generalize hstop : (Stop.waiting .pollNSendWc k : Stop _ Verb Verb.Answer _) = stop at hserving
  generalize P.table = t at hserving
  generalize P.work = w at hserving
  cases hserving with
  | posted _ ho | recording _ ho | failing _ ho => exact pending_outbox ho
  | polling ht' | reading ht' | posting ht' | releasing ht' | between ht' | returned ht' =>
    rw [ht'] at hstop
    cases hstop

def receiving (s : ClientState) : Bool :=
  match s.thread with
  | some (.waiting (.pollNextReceiveWc _) _) => true
  | some (.waiting .readMessage _) => false
  | some (.waiting .ibvDeregMr _) => false
  | some (.waiting (.ibvPostSend _) _) => false
  | some (.waiting .pollNSendWc _) => false
  | some (.done _) => false
  | none => false

theorem thread_of_receiving {s : ClientState} (h : receiving s = true) :
    ∃ b k, s.thread = some (.waiting (.pollNextReceiveWc b) k) := by
  unfold receiving at h
  cases ht : s.thread with
  | none =>
    rw [ht] at h
    cases h
  | some stop =>
    rw [ht] at h
    cases stop with
    | done r => cases h
    | waiting verb k =>
      cases verb with
      | pollNextReceiveWc b => exact ⟨b, k, rfl⟩
      | ibvPostSend wr | pollNSendWc | readMessage | ibvDeregMr => cases h

theorem inbox_some {p : Port} {m} (h : Inbox p (some m)) : p.inbound.length + p.receiveCq.length = 1 := by
  cases h with
  | flying hi hr | landed hi hr => simp [hi, hr]

theorem awaiting_silent {s : ClientState} {q : Query} (h : Sent s q) {b k}
    (ht : s.thread = some (.waiting (.pollNextReceiveWc b) k)) : unsent s.port = 0 ∧ reading s = 0 := by
  cases h with
  | awaiting _ _ ho => exact ⟨unsent_outbox ho (by simp), by simp [reading, ht]⟩
  | confirming _ ht' | closing _ _ ht' =>
    rw [ht] at ht'
    cases ht'

theorem toServer_pending (h : Refines programs S P) (hl : Linked P) {l : Letter}
    (hx : P.session c = .pending l) :
    toServer S c = 1 := by
  refine Nat.le_antisymm (toServer_le h hl c) ?_
  have hd := h.delivered c
  rw [hx] at hd
  rw [toServer]
  obtain hd | hd := hd
  · have hone := inbox_some hd
    omega
  · rw [serving_inHand hd]
    omega

theorem served_under_way (h : Refines programs S P) (hl : Linked P) {e : Exchange}
    (hx : P.session c = .served e) :
    serving S c + unsent (S.port c) = 1 := by
  have hw := hl.served c e hx
  obtain ⟨es, -, ⟨-, hfree, -⟩ | ⟨d, stop, ht, hserving⟩⟩ := h.serving
  · rw [hw] at hfree
    cases hfree
  · rw [hw] at hserving
    generalize P.table = t at hserving
    cases hserving with
    | posting ht' ho => simp [serving, ht, ht', Handlers.posting, unsent, ho.sendQueue]
    | posted ht' ho => simp [serving, ht, ht', unsent, ho.sendQueue]

/-- A client that waits for a message waits for the only one on its connection. -/
theorem reply_under_way (h : Refines programs S P) (hP : Reliable programs P) {b k}
    (ht : (S.client c).thread = some (.waiting (.pollNextReceiveWc b) k)) :
    toServer S c + toClient S c = 1 := by
  have hseat := h.seat c
  have hdelivered := h.delivered c
  generalize hx : P.session c = x at hseat hdelivered
  cases hseat with
  | pending hq hs hi =>
    obtain ⟨-, hread⟩ := awaiting_silent hs ht
    have hnone := inbox_none hi
    have hunsent : unsent (S.port c) = 0 := by
      obtain hzero | ⟨-, ⟨e, he⟩, -⟩ := unsent_server h hP.linked c
      · exact hzero
      · rw [hx] at he
        cases he
    rw [toServer_pending h hP.linked hx, toClient]
    omega
  | served hs hi =>
    obtain ⟨hout, hread⟩ := awaiting_silent hs ht
    have hnone := inbox_none hi
    have hin := inbox_none hdelivered
    have hone := served_under_way h hP.linked hx
    rw [toServer, toClient]
    omega
  | replied hs hi =>
    obtain ⟨hout, hread⟩ := awaiting_silent hs ht
    have hone := inbox_some hi
    have hin := inbox_none hdelivered
    have hle := toClient_le h hP.linked c
    have hserving : serving S c = 0 := by
      obtain hzero | ⟨-, ⟨l, hw⟩ | ⟨e, he⟩⟩ := serving_inbox h hP.linked c
      · exact hzero
      · rw [hx] at hw
        obtain hw | hw := hw <;> cases hw
      · rw [hx] at he
        cases he
    rw [toClient] at hle
    rw [toServer, toClient]
    omega
  | stranded => exact absurd hx (hP.not_stranded _)
  | idle ht' | posting _ ht' | posted _ ht' | reading _ ht' | aiming _ ht' | moving _ ht' | moved _ ht'
  | finished ht' | refusing ht' | failed ht' | parting _ ht' | parted _ ht' | left _ ht' =>
    rw [ht] at ht'
    cases ht'

end Messages

structure Owed (S : World n) : Prop where
  client : ∀ c k, (S.client c).thread = some (.waiting .pollNSendWc k) → pending (S.client c).port = 1
  server : ∀ c k, S.thread = some (c, .waiting .pollNSendWc k) → pending (S.port c) = 1
  reply : ∀ c b k, (S.client c).thread = some (.waiting (.pollNextReceiveWc b) k) →
    toServer S c + toClient S c = 1
  delivery : ∀ c, ((S.port c).inbound ≠ [] → (S.port c).deliver.isSome = true) ∧
    ((S.client c).port.inbound ≠ [] → (S.client c).port.deliver.isSome = true)

theorem deliver_isSome {p : Port} (hq : Stocked p.queue) (hr : p.receiveCq = []) (hi : p.inbound ≠ []) :
    p.deliver.isSome = true := by
  cases hin : p.inbound with
  | nil => exact absurd hin hi
  | cons m ms =>
    have hlt : ((p.receiveCq.length : Nat) : Int) < p.queue.routs := by
      rw [hr]
      exact hq.1
    simp [Port.deliver, hin, hlt]

/-- Nobody waits for what does not come: who polls for a completion has one request that is not
confirmed yet, who waits for an answer has one message on its connection, on the way to the server,
with the server or on the way back, and a message that has come finds a receive. -/
theorem nobody_waits_in_vain (h : Reached programs S) : Owed S := by
  obtain ⟨P, href, hP⟩ := followed_reliable h
  have hready := ready h
  have htoServer := toServer_le href hP.linked
  have htoClient := toClient_le href hP.linked
  refine ⟨fun c k ht => client_pending (href.seat c) ht, fun c k ht => server_pending href ht,
    fun c b k ht => reply_under_way href hP ht, fun c => ⟨fun hi => ?_, fun hi => ?_⟩⟩
  · have hlen := List.length_pos_iff.mpr hi
    have hle := htoServer c
    rw [toServer] at hle
    exact deliver_isSome (hready c).1 (List.length_eq_zero_iff.mp (by omega)) hi
  · have hlen := List.length_pos_iff.mpr hi
    have hle := htoClient c
    rw [toClient] at hle
    exact deliver_isSome (hready c).2 (List.length_eq_zero_iff.mp (by omega)) hi

theorem nobody_waits_in_vain_reply : ∃ S, Reached Store.storing S ∧
    (∃ b k, (S.client 0).thread = some (.waiting (.pollNextReceiveWc b) k)) ∧ Owed S := by
  have hrun : (run (step Store.storing) pair ((asking 0).take 9)).map (fun S => receiving (S.client 0)) =
      some true := by
    decide +kernel
  obtain ⟨S, hS, hwaits⟩ := Option.map_eq_some_iff.mp hrun
  have hreached : Reached Store.storing S :=
    Reach.run (.start pair_start) (by simp [asking, handing, Succeeds]) hS
  exact ⟨S, hreached, thread_of_receiving hwaits, nobody_waits_in_vain hreached⟩

end NetworkOptimization.Waiting
