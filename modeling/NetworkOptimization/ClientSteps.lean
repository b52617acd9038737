import NetworkOptimization.Refinement

namespace NetworkOptimization.ClientSteps

open Words ControlMessages DynamicArray Verbs SequentialCode Calls
open Client (ClientMemory ClientCode Call)
open Network Protocol Histories Records Seats Refinement
open Function (update)

variable {n : Nat} {programs : Fin n → List Request} {lossy : Prop} {S S' : World n} {P P' : State n}
  {c : Fin n} {d : Int}

def resume (s : ClientState) (m : ClientMemory) (stop : Stop ClientMemory Verb Verb.Answer Int)
    (p : Port) : ClientState :=
  { s with mem := m, thread := some stop, port := p }

theorem stepClient_eq_some (hs : stepClient S c d = some S') :
    ∃ verb k a p m stop, (S.client c).thread = some (.waiting verb k) ∧
      (S.client c).port.answer d verb = some (a, p) ∧ settle (k a) (S.client c).mem = some (m, stop) ∧
      S' = (S.setClient c (resume (S.client c) m stop p)).log
        (asks c (S.client c).index m stop ++ takes c (S.client c).index p verb) := by
  rw [stepClient] at hs
  cases ht : (S.client c).thread with
  | none => simp [ht] at hs
  | some stop =>
    cases stop with
    | done r => simp [ht] at hs
    | waiting verb k =>
      simp only [ht] at hs
      obtain ⟨⟨a, p⟩, ha, hs⟩ := Option.bind_eq_some_iff.mp hs
      obtain ⟨⟨m, stop⟩, hm, hs⟩ := Option.bind_eq_some_iff.mp hs
      exact ⟨verb, k, a, p, m, stop, rfl, ha, hm, (Option.some.inj hs).symm⟩

theorem not_shutDown (e : Exchange) : e.letter.query ≠ .shutDown := by
  intro h
  have hp := e.proper
  rw [h] at hp
  cases hp

theorem asks_silent {stop : Stop ClientMemory Verb Verb.Answer Int} (h : sends stop = false)
    (c : Fin n) (j : Nat) (m : ClientMemory) : asks c j m stop = [] := by
  rw [asks, h]
  rfl

theorem simulate_unseen (h : Refines programs S P) {m : ClientMemory} {p : Port}
    {stop : Stop ClientMemory Verb Verb.Answer Int} {verb : Verb}
    (hasks : sends stop = false) (htakes : takes c (S.client c).index p verb = [])
    (hc : content m = content (S.client c).mem)
    (hseat : Seat programs c (resume (S.client c) m stop p) (P.session c)) :
    Simulates programs lossy ((S.setClient c (resume (S.client c) m stop p)).log
      (asks c (S.client c).index m stop ++ takes c (S.client c).index p verb)) P := by
  rw [asks_silent hasks, htakes]
  exact ⟨P, h.within hseat rfl hc, .inl rfl⟩

theorem simulate_sent (h : Refines programs S P) {q : Query} {x : Option ControlMessage}
    (hsent : Sent (S.client c) q) (hi : Inbox (S.client c).port x) (hq : q ≠ .shutDown) {verb : Verb}
    {k : verb.Answer → ClientCode Int} {a : verb.Answer} {p : Port} {m : ClientMemory}
    {stop : Stop ClientMemory Verb Verb.Answer Int} (ht : (S.client c).thread = some (.waiting verb k))
    (ha : (S.client c).port.answer d verb = some (a, p)) (hd : (∃ r mr, q = .fin r mr) → d = 0)
    (hm : settle (k a) (S.client c).mem = some (m, stop))
    (hwait : Sent (resume (S.client c) m stop p) q → Inbox p x →
      Seat programs c (resume (S.client c) m stop p) (P.session c))
    (hread : ∀ reader, Reader q reader → stop = .waiting .readMessage reader → Outbox p [] [] ∅ →
      x = some p.receive → Inbox p none → Seat programs c (resume (S.client c) m stop p) (P.session c)) :
    Simulates programs lossy ((S.setClient c (resume (S.client c) m stop p)).log
      (asks c (S.client c).index m stop ++ takes c (S.client c).index p verb)) P := by
  obtain ⟨hc, hsends, htakes, ⟨hs, hin⟩ | ⟨reader, hr, hstop, ho, hx, hin⟩⟩ :=
    @Sent.go n _ _ hsent hq _ hi _ _ _ _ _ _ _ ht ha hd hm
  · exact simulate_unseen h hsends (htakes _ _) hc (hwait hs hin)
  · exact simulate_unseen h hsends (htakes _ _) hc (hread reader hr hstop ho hx hin)

theorem simulate_taken (h : Refines programs S P) {e : Exchange} (hx : P.session c = .replied e)
    {m : ClientMemory} {stop : Stop ClientMemory Verb Verb.Answer Int}
    (ho : Outbox (S.client c).port [] [] ∅) (hi : Inbox (S.client c).port none)
    (hmsg : (S.client c).port.receive = e.message) (htaken : Taken (S.client c).mem m e stop) :
    Simulates programs lossy ((S.setClient c (resume (S.client c) m stop (S.client c).port)).log
      (asks c (S.client c).index m stop ++ takes c (S.client c).index (S.client c).port
        .readMessage)) P := by
  have hevents : asks c (S.client c).index m stop ++
      takes c (S.client c).index (S.client c).port .readMessage = [.took c (P.index c) e.message] := by
    rw [takes, hmsg, h.index]
    cases htaken with
    | close success hg hv hsuccess hb hstop =>
      obtain ⟨r, rfl, -⟩ | ⟨-, k, rfl, -⟩ := hstop <;> rfl
    | value hv hb hstop | set hq hx hb hr hstop | get hq hx hb hbuf hr hstop =>
      rw [hstop]
      rfl
  have hi' : P.index = update P.index c (S.client c).index := by
    rw [h.index, Function.update_eq_self]
  have hb' : content m = content (S.client c).mem → P.buffer = update P.buffer c (content m) := by
    intro hc
    rw [hc, h.buffer, Function.update_eq_self]
  have hwait : ∀ l, ¬ Waits (P.session c) l := by
    rw [hx]
    rintro l (hl | hl) <;> cases hl
  rw [hevents]
  cases htaken with
  | close success hg hv hsuccess hb hstop =>
    refine ⟨_, ?_, .inr (@Step.close n programs lossy P c e success (content m) hx hg hv hsuccess ?_)⟩
    · refine h.client _ _ ?_ (.inr ⟨hwait, ?_⟩) rfl hi' rfl rfl rfl rfl rfl rfl
      · obtain ⟨r, rfl, hr⟩ | ⟨rfl, k, rfl, hk⟩ := hstop
        · exact .finished rfl hr ho hi
        · exact .refusing rfl hk ho hi
      · rintro l (hl | hl) <;> cases hl
    · intro hs
      rw [hb hs, h.buffer]
  | @value v hv hb hstop =>
    subst hstop
    refine ⟨_, ?_, .inr (.take_value hx hv)⟩
    refine h.client _ _ (.finished rfl (by simp) ho hi) (.inr ⟨hwait, ?_⟩) rfl hi' ?_ rfl rfl rfl rfl rfl
    · rintro l (hl | hl) <;> cases hl
    · exact congrArg (update P.buffer c) hb.symm
  | @set r mr wr rest hq hset hb hr hstop =>
    subst hstop
    refine ⟨_, ?_, .inr (.take_set hx hq hset)⟩
    refine h.client _ _ (.aiming hr rfl ho hi) (.inr ⟨hwait, ?_⟩) rfl hi' (hb' hb) rfl rfl rfl rfl rfl
    rintro l (hl | hl) <;> cases hl
  | @get r mr wr rest buf hq hget hb hbuf hr hstop =>
    subst hstop
    refine ⟨_, ?_, .inr (.take_get hx hq hget hbuf)⟩
    refine h.client _ _ (.aiming hr rfl ho hi) (.inr ⟨hwait, ?_⟩) rfl hi' ?_ rfl rfl rfl rfl rfl
    · rintro l (hl | hl) <;> cases hl
    · exact congrArg (update P.buffer c) hb.symm

theorem simulate_fin (h : Refines programs S P) {r : Request} {mr : Mr} {moved : Finset Nat}
    (hx : P.session c = .holding r mr moved) (hall : ∀ i < mr.length.toUInt32.toNat, i ∈ moved)
    {wr : RdmaRequest} {rest : ClientCode Int} (hr : Transfer (S.client c).mem r mr wr rest)
    {m : ClientMemory} {stop : Stop ClientMemory Verb Verb.Answer Int} {p : Port}
    (ho : Outbox p [] [] ∅) (hi : Inbox p none)
    (hm : settle rest (S.client c).mem = some (m, stop)) :
    Simulates programs lossy ((S.setClient c (resume (S.client c) m stop p)).log
      (asks c (S.client c).index m stop ++ takes c (S.client c).index p .pollNSendWc)) P := by
  obtain ⟨l, hq, hc, hsend, rest', hrest, rfl⟩ := settle_transfer hr hm
  have hevents : asks c (S.client c).index m (.waiting (.ibvPostSend .send) (afterPost rest')) ++
      takes c (S.client c).index p .pollNSendWc = [.asked c (P.index c) l.message] := by
    rw [asks, h.index, hsend]
    rfl
  have hi' : P.index = update P.index c (S.client c).index := by
    rw [h.index, Function.update_eq_self]
  have hb' : P.buffer = update P.buffer c (content m) := by
    rw [hc, h.buffer, Function.update_eq_self]
  rw [hevents]
  refine ⟨_, ?_, .inr (.fin hx hall hq)⟩
  refine h.client _ _ (.posting hrest rfl ho hi hsend ?_)
    (.inr ⟨?_, not_waits_ofCall (.inl rfl)⟩) rfl hi' hb' rfl rfl rfl rfl rfl
  · intro hlast
    rw [hq] at hlast
    cases hlast
  · rw [hx]
    rintro l (hl | hl) <;> cases hl

/-- What a client does between two calls of a verb is unseen or a step of the protocol. -/
theorem simulate_client (h : Refines programs S P)
    (hd : (∃ r mr, query (P.session c) = some (.fin r mr)) → d = 0) (hs : stepClient S c d = some S') :
    Simulates programs lossy S' P := by
  obtain ⟨verb, k, a, p, m, stop, ht, ha, hm, rfl⟩ := stepClient_eq_some hs
  have hseat := h.seat c
  generalize hx : P.session c = x at hseat hd
  cases hseat with
  | idle ht' | finished ht' | parted _ ht' | left _ ht' =>
    rw [ht'] at ht
    cases ht
  | @posting l rest hr ht' ho hi hmsg hlast =>
    rw [ht'] at ht
    cases ht
    obtain ⟨hout, hsame⟩ := answer_post ho ha
    have hstop : (m, stop) = ((S.client c).mem, .waiting .pollNSendWc (afterConfirm rest)) := by
      cases ha
      exact (Option.some.inj hm).symm
    cases hstop
    apply simulate_unseen h rfl rfl rfl
    rw [hx]
    exact .posted hr rfl hout (hsame.inbox hi) hmsg hlast
  | posted _ ht' ho =>
    rw [ht'] at ht
    cases ht
    exact absurd ha (answer_poll_none ho)
  | @pending l hq hsent hi =>
    refine simulate_sent h hsent hi hq ht ha (fun ⟨r, mr, hf⟩ => hd ⟨r, mr, by rw [← hf]; rfl⟩) hm
      (fun hs hin => ?_) (fun _ _ _ _ hnone => by cases hnone)
    rw [hx]
    exact .pending hq hs hin
  | @served e hsent hi =>
    refine simulate_sent h hsent hi (not_shutDown e) ht ha
      (fun ⟨r, mr, hf⟩ => hd ⟨r, mr, by rw [← hf]; rfl⟩)
      hm (fun hs hin => ?_) (fun _ _ _ _ hnone => by cases hnone)
    rw [hx]
    exact .served hs hin
  | @stranded l hq hsent hi =>
    refine simulate_sent h hsent hi hq ht ha (fun ⟨r, mr, hf⟩ => hd ⟨r, mr, by rw [← hf]; rfl⟩) hm
      (fun hs hin => ?_) (fun _ _ _ _ hnone => by cases hnone)
    rw [hx]
    exact .stranded hq hs hin
  | @replied e hsent hi =>
    refine simulate_sent h hsent hi (not_shutDown e) ht ha
      (fun ⟨r, mr, hf⟩ => hd ⟨r, mr, by rw [← hf]; rfl⟩)
      hm (fun hs hin => ?_) (fun reader hr hstop ho hmsg hin => ?_)
    · rw [hx]
      exact .replied hs hin
    · rw [hx]
      exact .reading hr (congrArg some hstop) ho hin (Option.some.inj hmsg).symm
  | @reading e reader hr ht' ho hi hmsg =>
    rw [ht'] at ht
    cases ht
    cases ha
    rw [hmsg] at hm
    exact simulate_taken h hx ho hi hmsg (taken hr hm)
  | @aiming r mr wr rest hr ht' ho hi =>
    rw [ht'] at ht
    cases ht
    obtain ⟨hout, hsame⟩ := answer_post ho ha
    have hstop : (m, stop) = ((S.client c).mem, .waiting .pollNSendWc (afterConfirm rest)) := by
      cases ha
      exact (Option.some.inj hm).symm
    cases hstop
    apply simulate_unseen h rfl rfl rfl
    rw [hx]
    exact .moving hr rfl hout (hsame.inbox hi)
  | moving _ ht' ho =>
    rw [ht'] at ht
    cases ht
    exact absurd ha (answer_poll_none ho)
  | @moved r mr wr rest moved hr ht' ho hi hall =>
    rw [ht'] at ht
    cases ht
    obtain ⟨rfl, hout, hsame⟩ := answer_poll ho ha
    have hzero : sendResult ⟨.success, wr.opcode.wc⟩ = 0 := by
      cases wr.opcode <;> rfl
    rw [hzero, afterConfirm_zero] at hm
    exact simulate_fin h hx hall hr hout (hsame.inbox hi) hm
  | @refusing call k ht' hk ho hi =>
    rw [ht'] at ht
    cases ht
    cases ha
    obtain ⟨⟨r, hr, rfl⟩, hc⟩ := hk _ _ _ _ hm
    apply simulate_unseen h rfl rfl hc
    rw [hx]
    exact .finished rfl (by simp [hr]) ho hi
  | @failed call rest ht' ho hi =>
    rw [ht'] at ht
    cases ht
    obtain ⟨rfl, hout, hsame⟩ := answer_poll ho ha
    cases hm
    apply simulate_unseen h rfl rfl rfl
    rw [hx]
    exact .finished rfl (by simp) hout (hsame.inbox hi)
  | parting hgone ht' ho hi hlast =>
    rw [ht'] at ht
    cases ht
    obtain ⟨rfl, hout, hsame⟩ := answer_poll ho ha
    cases hm
    apply simulate_unseen h rfl rfl rfl
    rw [hx]
    exact .parted hgone rfl hout (hsame.inbox hi) hlast

end NetworkOptimization.ClientSteps
