import NetworkOptimization.Store

namespace NetworkOptimization.Conversation

open Words Memory ControlMessages DynamicArray Verbs SequentialCode Calls Server Handlers Tables
open Runs
open Client (ClientMemory)
open Network Steps Protocol Histories Exclusion Records Seats Refinement Transfers ServerSteps
open Correspondence Store

variable {n : Nat} {programs : Fin n → List Request} {S S' : World n} {P P' : State n} {c : Fin n}

section Histories

def lastAsked (c : Fin n) : List (Event n) → Option (Nat × ControlMessage)
  | [] => none
  | .asked d j request :: H => if d = c then some (j, request) else lastAsked c H
  | .answered _ _ _ :: H => lastAsked c H
  | .took _ _ _ :: H => lastAsked c H
  | .returned _ _ _ _ :: H => lastAsked c H

variable {H : List (Event n)} {e : Event n} {j : Nat} {q r : ControlMessage}

theorem lastAsked_other (h : Event.client e ≠ c) : lastAsked c (e :: H) = lastAsked c H := by
  cases e with
  | asked d j q => exact if_neg h
  | answered d q r => rfl
  | took d j r => rfl
  | returned d j r v => rfl

theorem author_lastAsked (c : Fin n) (H : List (Event n)) : author c H = (lastAsked c H).map Prod.fst := by
  induction H with
  | nil => rfl
  | cons e H ih =>
    cases e with
    | asked d k q =>
      by_cases hd : d = c
      · simp [author, lastAsked, hd]
      · simp [author, lastAsked, hd, ih]
    | answered d q r | took d k r | returned d k r v => exact ih

inductive Speaks (c : Fin n) : Event n → Talk → Talk → Prop
  | other {e t} (h : Event.client e ≠ c) : Speaks c e t t
  | ask {j request} (h : request.operation ≠ .shutDownServer) :
      Speaks c (.asked c j request) .quiet (.waiting j request)
  | leave {j request} (h : request.operation = .shutDownServer) :
      Speaks c (.asked c j request) .quiet .left
  | answer {j request reply} :
      Speaks c (.answered c request reply) (.waiting j request) (.told j request reply)
  | take {j request reply} : Speaks c (.took c j reply) (.told j request reply) .quiet
  | ret {j result value} : Speaks c (.returned c j result value) .quiet .quiet
  | ret_last {j result value} : Speaks c (.returned c j result value) .left .left

theorem talk_cons {t : Talk} (h : talk c (e :: H) = some t) : ∃ u, talk c H = some u ∧ Speaks c e u t := by
  by_cases hd : Event.client e = c
  · cases ht : talk c H with
    | none => cases e <;> simp only [Event.client] at hd <;> simp [talk, hd, ht] at h
    | some u =>
      refine ⟨u, rfl, ?_⟩
      cases e with
      | asked d k request =>
        obtain rfl : d = c := hd
        cases u <;> simp only [talk, ht, ↓reduceIte] at h
        case quiet =>
          by_cases hop : request.operation = .shutDownServer
          · rw [if_pos hop] at h
            cases h
            exact .leave hop
          · rw [if_neg hop] at h
            cases h
            exact .ask hop
        all_goals cases h
      | answered d request reply =>
        obtain rfl : d = c := hd
        cases u <;> simp only [talk, ht, ↓reduceIte] at h
        case waiting k asked =>
          by_cases hsame : request = asked
          · subst hsame
            rw [if_pos rfl] at h
            cases h
            exact .answer
          · rw [if_neg hsame] at h
            cases h
        all_goals cases h
      | took d k reply =>
        obtain rfl : d = c := hd
        cases u <;> simp only [talk, ht, ↓reduceIte] at h
        case told k' asked told =>
          by_cases hsame : k = k' ∧ reply = told
          · rw [if_pos hsame] at h
            obtain ⟨rfl, rfl⟩ := hsame
            cases h
            exact .take
          · rw [if_neg hsame] at h
            cases h
        all_goals cases h
      | returned d k result value =>
        obtain rfl : d = c := hd
        cases u <;> simp only [talk, ht, ↓reduceIte] at h <;> cases h
        · exact .ret
        · exact .ret_last
  · rw [talk_other hd] at h
    exact ⟨t, h, .other hd⟩

theorem talk_append {later : List (Event n)} {t : Talk} (h : talk c (later ++ H) = some t) :
    ∃ u, talk c H = some u := by
  induction later generalizing t with
  | nil => exact ⟨t, h⟩
  | cons e later ih =>
    obtain ⟨u, hu, -⟩ := talk_cons h
    exact ih hu

/-- What a conversation says of the last request and its answer. -/
def Says (c : Fin n) (H : List (Event n)) : Talk → Prop
  | .waiting j request => lastAsked c H = some (j, request)
  | .told j request reply =>
    lastAsked c H = some (j, request) ∧ lastAnswer c H = some (some j, request, reply)
  | .quiet | .left => True

theorem talk_says {t : Talk} (h : talk c H = some t) : Says c H t := by
  induction H generalizing t with
  | nil =>
    cases h
    trivial
  | cons e H ih =>
    obtain ⟨u, hu, hspeaks⟩ := talk_cons h
    have hbefore := ih hu
    cases hspeaks with
    | other hd =>
      cases t with
      | quiet | left => trivial
      | waiting k q => exact (lastAsked_other hd).trans hbefore
      | told k q r => exact ⟨(lastAsked_other hd).trans hbefore.1, (lastAnswer_other hd).trans hbefore.2⟩
    | ask => exact if_pos rfl
    | answer =>
      have hlast : lastAsked c H = some _ := hbefore
      refine ⟨hlast, ?_⟩
      simp [lastAnswer, author_lastAsked, hlast]
    | leave | take | ret | ret_last => trivial

theorem talk_taken {t : Talk} (h : talk c (.took c j r :: H) = some t) :
    ∃ q, talk c H = some (.told j q r) := by
  obtain ⟨u, hu, hspeaks⟩ := talk_cons h
  cases hspeaks with
  | other hd => exact absurd rfl hd
  | take => exact ⟨_, hu⟩

/-- In a conversation every request has its answer, but for the one that waits and for the
request to shut down. -/
theorem talk_answers {t : Talk} {later earlier : List (Event n)}
    (h : talk c (later ++ .asked c j q :: earlier) = some t) (hq : q.operation ≠ .shutDownServer) :
    (∃ reply, Event.answered c q reply ∈ later) ∨ t = .waiting j q := by
  induction later generalizing t with
  | nil =>
    obtain ⟨u, -, hspeaks⟩ := talk_cons h
    cases hspeaks with
    | other hd => exact absurd rfl hd
    | ask => exact .inr rfl
    | leave hop => exact absurd hop hq
  | cons e later ih =>
    obtain ⟨u, hu, hspeaks⟩ := talk_cons h
    obtain ⟨reply, hm⟩ | rfl := ih hu
    · exact .inl ⟨reply, List.mem_cons_of_mem e hm⟩
    · cases hspeaks with
      | other => exact .inr rfl
      | answer => exact .inl ⟨_, List.mem_cons_self ..⟩

theorem talk_left (h : talk c H = some .left) :
    ∃ j request, Event.asked c j request ∈ H ∧ request.operation = .shutDownServer := by
  induction H with
  | nil => cases h
  | cons e H ih =>
    obtain ⟨u, hu, hspeaks⟩ := talk_cons h
    have hlater : u = .left →
        ∃ j request, Event.asked c j request ∈ e :: H ∧ request.operation = .shutDownServer := by
      rintro rfl
      obtain ⟨j, request, hm, hop⟩ := ih hu
      exact ⟨j, request, List.mem_cons_of_mem e hm, hop⟩
    cases hspeaks with
    | leave hop => exact ⟨_, _, List.mem_cons_self .., hop⟩
    | other | ret_last => exact hlater rfl

end Histories

section Ports

def unsent (p : Port) : Nat := p.sendQueue.count .send

def serving (S : World n) (c : Fin n) : Nat :=
  match S.thread with
  | some (d, .waiting .readMessage _) => if d = c then 1 else 0
  | some (d, .waiting .ibvDeregMr _) => if d = c then 1 else 0
  | some (d, .waiting (.ibvPostSend _) _) => if d = c then 1 else 0
  | some (_, .waiting .pollNSendWc _) => 0
  | some (_, .waiting (.pollNextReceiveWc _) _) => 0
  | some (_, .done _) => 0
  | none => 0

def reading (s : ClientState) : Nat :=
  match s.thread with
  | some (.waiting .readMessage _) => 1
  | some (.waiting .ibvDeregMr _) => 0
  | some (.waiting (.ibvPostSend _) _) => 0
  | some (.waiting .pollNSendWc _) => 0
  | some (.waiting (.pollNextReceiveWc _) _) => 0
  | some (.done _) => 0
  | none => 0

/-- The messages to the server that it has not used up. -/
def toServer (S : World n) (c : Fin n) : Nat :=
  unsent (S.client c).port + (S.port c).inbound.length + (S.port c).receiveCq.length + serving S c

def toClient (S : World n) (c : Fin n) : Nat :=
  unsent (S.port c) + (S.client c).port.inbound.length + (S.client c).port.receiveCq.length +
    reading (S.client c)

theorem inbox_none {p : Port} (h : Inbox p none) : p.inbound.length + p.receiveCq.length = 0 := by
  cases h with
  | empty hi hr => simp [hi, hr]

theorem inbox_le {p : Port} {x : Option ControlMessage} (h : Inbox p x) :
    p.inbound.length + p.receiveCq.length ≤ 1 := by
  cases h with
  | empty hi hr | flying hi hr | landed hi hr => simp [hi, hr]

theorem serving_le (S : World n) (c : Fin n) : serving S c ≤ 1 := by
  unfold serving
  split <;> first | exact Nat.zero_le 1 | (split <;> simp)

theorem unsent_outbox {p : Port} {wrs : List WorkRequest} {wcs : List Wc} {moved : Finset Nat}
    (h : Outbox p wrs wcs moved) (hno : .send ∉ wrs) : unsent p = 0 := by
  rw [unsent, h.sendQueue]
  exact List.count_eq_zero.mpr hno

theorem unsent_client {s : ClientState} {x : Session} (h : Seat programs c s x) :
    unsent s.port = 0 ∨ (unsent s.port = 1 ∧ (∃ l, x = .going l) ∧
      ∃ k, s.thread = some (.waiting .pollNSendWc k) ∧ s.port.sendCq = []) := by
  cases h with
  | posted hr ht ho => exact .inr ⟨by simp [unsent, ho.sendQueue], ⟨_, rfl⟩, _, ht, ho.sendCq⟩
  | moving _ _ ho => exact .inl (unsent_outbox ho (by simp))
  | pending _ hs | served hs | stranded _ hs | replied hs =>
    cases hs with
    | confirming _ _ ho | closing _ _ _ _ ho | awaiting _ _ ho => exact .inl (unsent_outbox ho (by simp))
  | idle _ ho | posting _ _ ho | reading _ _ ho | aiming _ _ ho | moved _ _ ho | finished _ _ ho
  | refusing _ _ ho | failed _ ho | parting _ _ ho | parted _ _ ho | left _ _ ho =>
    exact .inl (unsent_outbox ho (by simp))

theorem quiet_or_serving (h : Refines programs S P) (c : Fin n) :
    (∀ stop, S.thread ≠ some (c, stop)) ∨ ∃ stop es, S.thread = some (c, stop) ∧
      Serving S.mem es c stop (S.port c) (P.session c) P.work P.table := by
  by_cases hquiet : ∀ stop, S.thread ≠ some (c, stop)
  · exact .inl hquiet
  · obtain ⟨stop, ht⟩ := not_forall.mp hquiet
    rw [ne_eq, not_not] at ht
    obtain ⟨es, -, hserving⟩ := serving_at h ht
    exact .inr ⟨stop, es, ht, hserving⟩

theorem unsent_server (h : Refines programs S P) (hl : Linked P) (c : Fin n) :
    unsent (S.port c) = 0 ∨ (unsent (S.port c) = 1 ∧ (∃ e, P.session c = .served e) ∧
      ∃ k, S.thread = some (c, .waiting .pollNSendWc k) ∧ (S.port c).sendCq = []) := by
  obtain hquiet | ⟨stop, es, ht, hserving⟩ := quiet_or_serving h c
  · exact .inl (unsent_outbox (h.quiet c hquiet) (by simp))
  · generalize P.table = t at hserving
    generalize hw : P.work = w at hserving
    cases hserving with
    | @posted e rec ht' ho =>
      exact .inr ⟨by simp [unsent, ho.sendQueue], ⟨e, hl.answering c e hw⟩, _, ht' ▸ ht, ho.sendCq⟩
    | polling _ ho | reading _ ho | posting _ ho | recording _ ho | failing _ ho | releasing _ ho
    | between _ ho | returned _ ho => exact .inl (unsent_outbox ho (by simp))

theorem serving_quiet (hquiet : ∀ stop, S.thread ≠ some (c, stop)) : serving S c = 0 := by
  rw [serving]
  cases ht : S.thread with
  | none => rfl
  | some t =>
    obtain ⟨d, stop⟩ := t
    have hd : d ≠ c := by
      rintro rfl
      exact hquiet stop ht
    cases stop with
    | done r => rfl
    | waiting verb k =>
      cases verb with
      | readMessage | ibvDeregMr | ibvPostSend wr => exact if_neg hd
      | pollNSendWc | pollNextReceiveWc blocking => rfl

/-- While the server works with a message of a client no other one comes. -/
theorem serving_inbox (h : Refines programs S P) (hl : Linked P) (c : Fin n) :
    serving S c = 0 ∨ (Inbox (S.port c) none ∧
      ((∃ l, Waits (P.session c) l) ∨ ∃ e, P.session c = .served e)) := by
  obtain hquiet | ⟨stop, es, ht, hserving⟩ := quiet_or_serving h c
  · exact .inl (serving_quiet hquiet)
  · generalize P.table = t at hserving
    generalize hw : P.work = w at hserving
    cases hserving with
    | reading _ _ hx hi => exact .inr ⟨hi, .inl ⟨_, hx⟩⟩
    | releasing _ _ hx _ hi => exact .inr ⟨hi, .inl ⟨_, .inl hx⟩⟩
    | @posting e rec =>
      have hx := hl.answering c e hw
      refine .inr ⟨?_, .inr ⟨e, hx⟩⟩
      have hd := h.delivered c
      rw [hx] at hd
      exact hd
    | polling ht' | posted ht' | recording ht' | failing ht' | between ht' | returned ht' =>
      refine .inl ?_
      simp only [serving, ht, ht', polling]

theorem serving_inHand (h : InHand S c) : serving S c = 1 := by
  cases h with
  | reading ht | releasing ht => simp [serving, ht]

theorem toServer_le (h : Refines programs S P) (hl : Linked P) (c : Fin n) : toServer S c ≤ 1 := by
  have hdelivered := h.delivered c
  have hserving := serving_le S c
  rw [toServer]
  obtain h₀ | ⟨h₁, ⟨l, hx⟩, -⟩ := unsent_client (h.seat c)
  · obtain hs | ⟨hi, -⟩ := serving_inbox h hl c
    · have hhand : ¬ InHand S c := fun hd => by
        rw [serving_inHand hd] at hs
        cases hs
      obtain ⟨y, hi, -⟩ := delivered_inbox hdelivered hhand
      have hle := inbox_le hi
      omega
    · have hnone := inbox_none hi
      omega
  · rw [hx] at hdelivered
    have hnone := inbox_none hdelivered
    obtain hs | ⟨-, ⟨k, hw⟩ | ⟨e, hserved⟩⟩ := serving_inbox h hl c
    · omega
    · rw [hx] at hw
      obtain hw | hw := hw <;> cases hw
    · rw [hx] at hserved
      cases hserved

theorem reading_inbox {s : ClientState} {x : Session} (h : Seat programs c s x) :
    ∃ y, Inbox s.port y ∧ reading s ≤ 1 ∧ (reading s = 0 ∨ y = none) ∧
      (∀ e, x = .served e → reading s = 0 ∧ y = none) := by
  cases h with
  | reading _ ht _ hi =>
    exact ⟨none, hi, by simp [reading, ht], .inr rfl, fun e he => by cases he⟩
  | served hs hi =>
    refine ⟨none, hi, ?_⟩
    cases hs with
    | confirming _ ht | closing _ _ ht | awaiting _ ht => simp [reading, ht]
  | pending _ hs hi | stranded _ hs hi | replied hs hi =>
    refine ⟨_, hi, ?_⟩
    cases hs with
    | confirming _ ht | closing _ _ ht | awaiting _ ht => simp [reading, ht]
  | parting hx ht _ hi | parted hx ht _ hi | left hx ht _ hi =>
    refine ⟨none, hi, by simp [reading, ht], .inr rfl, fun e he => ?_⟩
    subst he
    obtain hx | ⟨l, hx, -⟩ := hx <;> cases hx
  | idle ht _ hi | posting _ ht _ hi | posted _ ht _ hi | aiming _ ht _ hi | moving _ ht _ hi
  | moved _ ht _ hi | finished ht _ _ hi | refusing ht _ _ hi | failed ht _ hi =>
    exact ⟨none, hi, by simp [reading, ht], .inr rfl, fun e he => by cases he⟩

theorem toClient_le (h : Refines programs S P) (hl : Linked P) (c : Fin n) : toClient S c ≤ 1 := by
  obtain ⟨y, hi, hle, hread, hserved⟩ := reading_inbox (h.seat c)
  have hin := inbox_le hi
  rw [toClient]
  obtain h₀ | ⟨h₁, ⟨e, hx⟩, -⟩ := unsent_server h hl c
  · obtain hr | rfl := hread
    · omega
    · have hnone := inbox_none hi
      omega
  · obtain ⟨hr, rfl⟩ := hserved e hx
    have hnone := inbox_none hi
    omega

end Ports

section SendBuffers

theorem client_log {s : ClientState} {events : List (Event n)} {d : Fin n} (hd : d ≠ c) :
    ((S.setClient d s).log events).client c = S.client c :=
  Function.update_of_ne (Ne.symm hd) _ _

theorem send_setClient {s : ClientState} {d : Fin n} (hs : s.mem.send = (S.client d).mem.send) :
    ((S.setClient d s).client c).mem.send = (S.client c).mem.send := by
  by_cases hd : c = d
  · subst hd
    simpa [World.setClient] using hs
  · simp [World.setClient, hd]

theorem send_setLocal {m m' : ClientMemory} {bytes : List UInt8} {b : Buffer}
    (h : setLocal m bytes b = some m') : m'.send = m.send := by
  cases b with
  | caller _ => cases h
  | block a =>
    obtain rfl := Option.some.inj h
    rfl

theorem send_client (hwait : ∃ k, (S.client c).thread = some (.waiting .pollNSendWc k))
    (hcq : (S.client c).port.sendCq = []) {l : Label n} (hs : Network.Step programs S l S') :
    (S'.client c).mem.send = (S.client c).mem.send := by
  obtain ⟨k, hwait⟩ := hwait
  cases l with
  | call d =>
    obtain ⟨call, m, stop, ht, -, -, rfl⟩ := stepCall_eq_some hs
    have hd : d ≠ c := by
      rintro rfl
      rw [ht] at hwait
      cases hwait
    rw [client_log hd]
  | client d dereg =>
    obtain ⟨verb, k', a, p, m, stop, ht, ha, -, rfl⟩ := ClientSteps.stepClient_eq_some hs
    have hd : d ≠ c := by
      rintro rfl
      rw [ht] at hwait
      cases hwait
      simp [Port.answer, hcq] at ha
    rw [client_log hd]
  | ret d =>
    obtain ⟨r, -, rfl⟩ := stepRet_eq_some hs
    exact send_setClient rfl
  | server d =>
    obtain ⟨d, verb, k, a, p, m, stop, -, -, -, rfl⟩ := stepServer_eq_some hs
    rfl
  | next =>
    obtain ⟨d, -, rfl⟩ := stepNext_eq_some hs
    rfl
  | send side d fate =>
    cases side with
    | client =>
      obtain ⟨wrs, -, rfl⟩ := stepSend_client_eq_some hs
      by_cases hf : fate.Arrives <;> simp only [hf, ↓reduceIte] <;> exact send_setClient rfl
    | server =>
      obtain ⟨wrs, -, rfl⟩ := stepSend_server_eq_some hs
      by_cases hf : fate.Arrives <;> simp only [hf, ↓reduceIte]
      · exact send_setClient (S := S.setPort d _) rfl
      · rfl
  | deliver side d =>
    cases side with
    | client =>
      obtain ⟨p, -, rfl⟩ := Option.map_eq_some_iff.mp hs
      exact send_setClient rfl
    | server =>
      obtain ⟨p, -, rfl⟩ := Option.map_eq_some_iff.mp hs
      rfl
  | copy d mr i =>
    obtain ⟨r, wrs, there, here, byte, -, -, -, -, ⟨-, -, rfl⟩ | ⟨-, -, m, hm, rfl⟩⟩ := stepCopy_eq_some hs
    · exact send_setClient rfl
    · exact send_setClient (send_setLocal hm)
  | complete d ok =>
    obtain ⟨r, wrs, -, -, rfl⟩ := stepComplete_eq_some hs
    exact send_setClient rfl

theorem send_server (hwait : ∃ k, S.thread = some (c, .waiting .pollNSendWc k))
    (hcq : (S.port c).sendCq = []) {l : Label n} (hs : Network.Step programs S l S') :
    S'.mem.send = S.mem.send := by
  have hbeside : Beside S S' → S'.mem.send = S.mem.send := by
    intro hb
    cases hb.mem with
    | same hm => rw [hm]
    | bytes _ _ _ _ _ hm =>
      rw [hm]
      rfl
  cases l with
  | server d =>
    obtain ⟨k, hwait⟩ := hwait
    obtain ⟨d, verb, k', a, p, m, stop, ht, ha, -, rfl⟩ := stepServer_eq_some hs
    rw [hwait] at ht
    cases ht
    simp [Port.answer, hcq] at ha
  | call | client | ret | next | send | deliver | copy | complete =>
    exact hbeside (beside_step hs (fun d => by simp))

end SendBuffers

/-- The conversations on all connections keep to the rules. `taken` is about all answers
so far, `returned` about the end of the service. -/
structure Disciplined (programs : Fin n → List Request) (S : World n) : Prop where
  single : ∀ c, toServer S c ≤ 1 ∧ toClient S c ≤ 1
  unread : ∀ c, ((S.port c).inbound ≠ [] → (S.port c).receiveCq = [] ∧ serving S c = 0) ∧
    ((S.client c).port.inbound ≠ [] → (S.client c).port.receiveCq = [] ∧ reading (S.client c) = 0)
  unsent : ∀ l S' c, Network.Step programs S l S' →
    (.send ∈ (S.client c).port.sendQueue → (S'.client c).mem.send = (S.client c).mem.send) ∧
      (.send ∈ (S.port c).sendQueue → S'.mem.send c = S.mem.send c)
  taken : ∀ later c j reply earlier, S.history = later ++ .took c j reply :: earlier →
    ∃ request, lastAsked c earlier = some (j, request) ∧
      lastAnswer c earlier = some (some j, request, reply)
  returned : ∀ c, S.thread = some (c, .done .return) →
    (∀ d, (∃ j request, Event.asked d j request ∈ S.history ∧ request.operation = .shutDownServer) ∧
      ∀ later j request earlier, S.history = later ++ .asked d j request :: earlier →
        request.operation ≠ .shutDownServer → ∃ reply, Event.answered d request reply ∈ later) ∧
    ∀ key sl, entry S.mem key = some sl → sl.mrRdma = none

theorem left_of_return (h : Refines programs S P) (hP : Reliable programs P)
    (ht : S.thread = some (c, .done .return)) :
    (∀ d, talk d S.history = some .left) ∧
      ∀ key sl, entry S.mem key = some sl → sl.mrRdma = none := by
  have hw : P.work = .returned := by
    obtain ⟨es, -, hserving⟩ := serving_at h ht
    generalize P.table = t at hserving
    generalize P.work = w at hserving ⊢
    generalize hstop : (Stop.done .return : Stop (ServerMemory n) Verb Verb.Answer LoopExit) = stop
      at hserving
    cases hserving with
    | returned => rfl
    | polling ht' | reading ht' | posting ht' | posted ht' | recording ht' | failing ht'
    | releasing ht' | between ht' =>
      rw [ht'] at hstop
      cases hstop
  have hgone := hP.counted.all_gone hw
  refine ⟨fun d => ?_, fun key sl hsl => ?_⟩
  · obtain ⟨-, htalk⟩ := hP.conversed d
    rw [hgone d] at htalk
    rw [h.history]
    exact htalk
  · by_contra hlocked
    have htable : P.table key = some sl := by
      rw [table_eq h (fun d k hd => by rw [ht] at hd; cases hd)]
      exact hsl
    obtain ⟨d, mr, hg⟩ := hP.locks.owned key sl htable (Option.isSome_iff_ne_none.mpr hlocked)
    rw [hgone d] at hg
    cases hg

/-- One message at a time is on the way on every connection in each direction, no buffer is
overwritten before its content was used, every answer that a client takes is the one to its
last request, and the server returns only when all is answered. -/
theorem one_message (h : Reached programs S) : Disciplined programs S := by
  obtain ⟨P, href, hP⟩ := followed_reliable h
  have hserver := toServer_le href hP.linked
  have hclient := toClient_le href hP.linked
  have htalk : ∀ c, ∃ t, talk c S.history = some t := by
    intro c
    obtain ⟨hne, ht⟩ := hP.conversed c
    rw [href.history, ht]
    exact Option.ne_none_iff_exists'.mp hne
  refine ⟨fun c => ⟨hserver c, hclient c⟩, fun c => ⟨fun hne => ?_, fun hne => ?_⟩,
    fun l S' c hs => ⟨fun hm => ?_, fun hm => ?_⟩, fun later c j reply earlier heq => ?_, fun c ht => ?_⟩
  · have hlen := List.length_pos_iff.mpr hne
    have hle := hserver c
    rw [toServer] at hle
    exact ⟨List.length_eq_zero_iff.mp (by omega), by omega⟩
  · have hlen := List.length_pos_iff.mpr hne
    have hle := hclient c
    rw [toClient] at hle
    exact ⟨List.length_eq_zero_iff.mp (by omega), by omega⟩
  · obtain hzero | ⟨-, -, k, ht, hcq⟩ := unsent_client (href.seat c)
    · exact absurd hm (List.count_eq_zero.mp hzero)
    · exact send_client ⟨k, ht⟩ hcq hs
  · obtain hzero | ⟨-, -, k, ht, hcq⟩ := unsent_server href hP.linked c
    · exact absurd hm (List.count_eq_zero.mp hzero)
    · rw [send_server ⟨k, ht⟩ hcq hs]
  · obtain ⟨t, ht⟩ := htalk c
    rw [heq] at ht
    obtain ⟨u, hu⟩ := talk_append ht
    obtain ⟨request, htold⟩ := talk_taken hu
    exact ⟨request, talk_says htold⟩
  · obtain ⟨hleft, hunlocked⟩ := left_of_return href hP ht
    refine ⟨fun d => ⟨talk_left (hleft d), fun later j request earlier heq hop => ?_⟩, hunlocked⟩
    obtain hanswered | hwaiting := talk_answers (heq ▸ hleft d) hop
    · exact hanswered
    · cases hwaiting

def leaving (c : Fin n) : List (Label n) :=
  [.call c, .client c 0, .send .client c .ok, .deliver .server c, .server 0, .server 0]

def passing : Fin 2 → List Request
  | 0 => [.kvSet letter letter]
  | 1 => [.kvGet letter]

def exit? (S : World n) : Option LoopExit :=
  S.thread.bind (fun t => match t.2 with
    | .done exit => some exit
    | .waiting _ _ => none)

theorem thread_of_exit? {S : World n} {exit : LoopExit} (h : exit? S = some exit) :
    ∃ c, S.thread = some (c, .done exit) := by
  obtain ⟨⟨c, stop⟩, ht, hstop⟩ := Option.bind_eq_some_iff.mp h
  cases stop with
  | waiting verb k => cases hstop
  | done exit' =>
    cases hstop
    exact ⟨c, ht⟩

theorem one_message_returned :
    ∃ S c, Reached passing S ∧ S.thread = some (c, .done .return) ∧ Disciplined passing S := by
  have hrun : (run (step passing) pair (asking 0 ++ [.ret 0] ++ (asking 1 ++ [.ret 1]) ++
      leaving 0 ++ [.next] ++ leaving 1)).map exit? = some (some .return) := by
    decide +kernel
  obtain ⟨S, hS, hexit⟩ := Option.map_eq_some_iff.mp hrun
  have hreached : Reached passing S :=
    Reach.run (.start pair_start) (by simp [asking, handing, leaving, Succeeds]) hS
  obtain ⟨c, ht⟩ := thread_of_exit? hexit
  exact ⟨S, c, hreached, ht, one_message hreached⟩

end NetworkOptimization.Conversation
