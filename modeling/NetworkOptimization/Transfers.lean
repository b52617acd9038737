import NetworkOptimization.ClientSteps

namespace NetworkOptimization.Transfers

open Words Memory ControlMessages DynamicArray Verbs SequentialCode Calls Server Handlers Tables
open Client (ClientMemory ClientCode Call)
open Network Steps Protocol Histories Exclusion Records Seats Refinement ClientSteps
open Function (update)

variable {n : Nat} {programs : Fin n → List Request} {lossy : Prop} {S S' : World n} {P P' : State n}
  {c : Fin n}

theorem setClient_self (S : World n) (c : Fin n) : S.setClient c (S.client c) = S := by
  rw [World.setClient, Function.update_eq_self]

theorem setPort_self (S : World n) (c : Fin n) : S.setPort c (S.port c) = S := by
  rw [World.setPort, Function.update_eq_self]

theorem reconnected (h : Refines programs S P) {s : ClientState} {p : Port} {x : Session} {w : Work n}
    {t : List UInt8 → Option Slot} (hseat : Seat programs c s x)
    (hindex : s.index = (S.client c).index) (hbuffer : content s.mem = content (S.client c).mem)
    (hdelivered : Delivered ((S.setClient c s).setPort c p) c x)
    (hquiet : (∀ stop, S.thread ≠ some (c, stop)) → Outbox p [] [] ∅)
    (hserving : ∃ es, Valid S.mem es ∧
      ((S.thread = none ∧ w = .free ∧ t = slots S.mem.heap es) ∨
        ∃ d stop, S.thread = some (d, stop) ∧
          Serving S.mem es d stop (update S.port c p d) (update P.session c x d) w t)) :
    Refines programs ((S.setClient c s).setPort c p)
      { P with session := update P.session c x, work := w, table := t } := by
  refine ⟨fun d => ?_, fun d => ?_, fun d => ?_, h.history, h.cells, h.count, fun d => ?_,
    fun d hd => ?_, hserving⟩
  · by_cases hdc : d = c
    · subst hdc
      simpa [World.setClient, World.setPort] using hseat
    · simpa [World.setClient, World.setPort, hdc] using h.seat d
  · by_cases hdc : d = c
    · subst hdc
      simpa [World.setClient, World.setPort, hindex] using h.index d
    · simpa [World.setClient, World.setPort, hdc] using h.index d
  · by_cases hdc : d = c
    · subst hdc
      simpa [World.setClient, World.setPort, hbuffer] using h.buffer d
    · simpa [World.setClient, World.setPort, hdc] using h.buffer d
  · by_cases hdc : d = c
    · subst hdc
      simpa using hdelivered
    · refine delivered_congr (S := S) rfl (by simp [World.setClient, World.setPort, hdc]) ?_
      simpa [hdc] using h.delivered d
  · by_cases hdc : d = c
    · subst hdc
      simpa [World.setClient, World.setPort] using hquiet hd
    · simpa [World.setClient, World.setPort, hdc] using h.quiet d hd

theorem serving_away (h : Refines programs S P) {p : Port} {x : Session}
    (hold : ∀ l, ¬ Waits (P.session c) l)
    (hout : ∀ wrs wcs moved, Outbox (S.port c) wrs wcs moved → Outbox p wrs wcs moved) :
    ∃ es, Valid S.mem es ∧
      ((S.thread = none ∧ P.work = .free ∧ P.table = slots S.mem.heap es) ∨
        ∃ d stop, S.thread = some (d, stop) ∧
          Serving S.mem es d stop (update S.port c p d) (update P.session c x d) P.work P.table) := by
  obtain ⟨es, hv, hnone | ⟨d, stop, ht, hserving⟩⟩ := h.serving
  · exact ⟨es, hv, .inl hnone⟩
  · refine ⟨es, hv, .inr ⟨d, stop, ht, ?_⟩⟩
    by_cases hdc : d = c
    · subst hdc
      rw [Function.update_self, Function.update_self]
      exact hserving.away hold hout x
    · rw [Function.update_of_ne hdc, Function.update_of_ne hdc]
      exact hserving

theorem outbox_arrive {p : Port} {wrs : List WorkRequest} {wcs : List Wc} {moved : Finset Nat}
    (ho : Outbox p wrs wcs moved) (msg : ControlMessage) : Outbox (p.arrive msg) wrs wcs moved :=
  ⟨ho.sendQueue, ho.sendCq, ho.moved⟩

theorem inbox_arrive {p : Port} (hi : Inbox p none) (msg : ControlMessage) :
    Inbox (p.arrive msg) (some msg) := by
  cases hi with
  | empty hi hr => exact .flying (congrArg (· ++ [msg]) hi) hr

theorem inbox_conclude {p : Port} {x : Option ControlMessage} (hi : Inbox p x) (wc : Wc) :
    Inbox (p.conclude wc) x := by
  cases hi with
  | empty hi hr => exact .empty hi hr
  | flying hi hr => exact .flying hi hr
  | landed hi hr => exact @Inbox.landed (p.conclude wc) hi hr

theorem outbox_conclude {p : Port} {wr : WorkRequest} {moved : Finset Nat} (ho : Outbox p [wr] [] moved)
    (wc : Wc) : Outbox (p.conclude wc) [] [wc] ∅ :=
  ⟨congrArg List.tail ho.sendQueue, congrArg (· ++ [wc]) ho.sendCq, rfl⟩

theorem sent_sendQueue {s : ClientState} {q : Query} (h : Sent s q) : s.port.sendQueue = [] := by
  cases h with
  | confirming _ _ ho | closing _ _ _ _ ho | awaiting _ _ ho => exact ho.sendQueue

theorem at_send {s : ClientState} {x : Session} (h : Seat programs c s x) {wrs : List WorkRequest}
    (hq : s.port.sendQueue = .send :: wrs) :
    ∃ l rest, x = .going l ∧ Rest l.query rest ∧
      s.thread = some (.waiting .pollNSendWc (afterConfirm rest)) ∧ Outbox s.port [.send] [] ∅ ∧
      Inbox s.port none ∧ s.mem.send = l.message ∧
      (l.query = .shutDown → callAt programs c s.index = some .shutDownServer) := by
  cases h with
  | posted hr ht ho hi hm hlast => exact ⟨_, _, rfl, hr, ht, ho, hi, hm, hlast⟩
  | pending _ hs | served hs | stranded _ hs | replied hs =>
    rw [sent_sendQueue hs] at hq
    cases hq
  | idle _ ho | posting _ _ ho | reading _ _ ho | aiming _ _ ho | moving _ _ ho | moved _ _ ho
  | finished _ _ ho | refusing _ _ ho | failed _ ho | parting _ _ ho | parted _ _ ho | left _ _ ho =>
    rw [ho.sendQueue] at hq
    cases hq

theorem simulate_send (h : Refines programs S P) {fate : Fate}
    (hfate : fate = .ok ∨ (fate = .lost ∧ lossy ∧ ∀ l, P.session c = .going l → l.query.region = none))
    (hs : stepSend S .client c fate = some S') : Simulates programs lossy S' P := by
  obtain ⟨wrs, hq, rfl⟩ := stepSend_client_eq_some hs
  obtain ⟨l, rest, hx, hrest, ht, ho, hi, hm, hlast⟩ := at_send (h.seat c) hq
  have haway : ∀ k, ¬ Waits (P.session c) k := by
    rw [hx]
    exact not_waits_ofCall (.inl rfl)
  have hin : Inbox (S.port c) none := delivered_none (h.delivered c) haway
  have hout := outbox_conclude ho ⟨fate.status, .send⟩
  obtain rfl | ⟨rfl, hlossy, hfin⟩ := hfate
  · have hquiet : (∀ stop, S.thread ≠ some (c, stop)) →
        Outbox ((S.port c).arrive (S.client c).mem.send) [] [] ∅ := fun hno =>
      outbox_arrive (h.quiet c hno) _
    have harrive := inbox_arrive hin (S.client c).mem.send
    rw [hm] at harrive
    rw [if_pos (by trivial)]
    by_cases hshut : l.query = .shutDown
    · refine ⟨_, ?_, .inr (.transmit_last hx hshut)⟩
      refine reconnected h ?_ rfl rfl ?_ hquiet
        (serving_away h haway (fun _ _ _ ho => outbox_arrive ho _))
      · rw [hshut] at hrest
        cases hrest
        exact .parting (.inr ⟨l, rfl, hshut⟩) ht hout (inbox_conclude hi _) (hlast hshut)
      · refine .inl ?_
        simpa [World.setPort, hm] using harrive
    · refine ⟨_, ?_, .inr (.transmit hx hshut)⟩
      refine reconnected h ?_ rfl rfl ?_ hquiet
        (serving_away h haway (fun _ _ _ ho => outbox_arrive ho _))
      · exact .pending hshut (.confirming hrest ht hout) (inbox_conclude hi _)
      · refine .inl ?_
        simpa [World.setPort, hm] using harrive
  · rw [if_neg (by exact id)]
    refine ⟨_, ?_, .inr (.lose hlossy hx (hfin l hx))⟩
    rw [← setPort_self (S.setClient c _) c]
    refine reconnected h (.failed ht hout (inbox_conclude hi _)) rfl rfl ?_ (h.quiet c)
      (serving_away h haway (fun _ _ _ ho => ho))
    exact delivered_of_none (by simpa [World.setPort, World.setClient] using hin)
      (fun k hk => by obtain hk | hk := hk <;> cases hk)

theorem serving_at_send {es : List KeyValueAddressPair} {m : ServerMemory n}
    {stop : Stop (ServerMemory n) Verb Verb.Answer LoopExit} {p : Port} {x : Session} {w : Work n}
    {t : List UInt8 → Option Slot} (h : Serving m es c stop p x w t) {wrs : List WorkRequest}
    (hq : p.sendQueue = .send :: wrs) :
    ∃ e rec, stop = .waiting .pollNSendWc (fun r => afterConfirm rec.code r >>= next) ∧
      w = .answering c e ∧ t = slots m.heap es ∧ Outbox p [.send] [] ∅ ∧ m.send c = e.message ∧
      Ready m.heap m.regions es rec e.offer := by
  cases h with
  | posted ht ho hm hr => exact ⟨_, _, ht, rfl, rfl, ho, hm, hr⟩
  | polling _ ho | reading _ ho | posting _ ho | recording _ ho | failing _ ho | releasing _ ho
  | between _ ho | returned _ ho =>
    rw [ho.sendQueue] at hq
    cases hq

theorem sent_port {s : ClientState} {q : Query} (h : Sent s q) {p : Port}
    (hout : ∀ wrs wcs moved, Outbox s.port wrs wcs moved → Outbox p wrs wcs moved) :
    Sent { s with port := p } q := by
  cases h with
  | confirming hr ht ho => exact .confirming hr ht (hout _ _ _ ho)
  | closing hr hfin ht hk ho => exact .closing hr hfin ht hk (hout _ _ _ ho)
  | awaiting hr ht ho => exact .awaiting hr ht (hout _ _ _ ho)

theorem Seat.at_served {s : ClientState} {e : Exchange} (h : Seat programs c s (.served e)) :
    Sent s e.letter.query ∧ Inbox s.port none := by
  cases h with
  | served hs hi => exact ⟨hs, hi⟩
  | parting hx | parted hx | left hx => obtain hx | ⟨l, hx, -⟩ := hx <;> cases hx

/-- The server's answer arrives at the client, or it is lost. One that arrives although
the server counts it as lost must not be a grant. -/
theorem simulate_reply (h : Refines programs S P) (hl : Linked P) (hlocks : Locks P) {fate : Fate}
    (hfate : fate = .ok ∨ (lossy ∧
      (fate = .late → ∀ e, P.session c = .served e → e.reply.region = none)))
    (hs : stepSend S .server c fate = some S') : Simulates programs lossy S' P := by
  obtain ⟨wrs, hq, rfl⟩ := stepSend_server_eq_some hs
  obtain ⟨es, hv, hserving⟩ := h.serving
  have hthread : ∃ stop, S.thread = some (c, stop) := by
    by_contra hno
    have ho := h.quiet c (fun stop hstop => hno ⟨stop, hstop⟩)
    rw [ho.sendQueue] at hq
    cases hq
  obtain ⟨stop, hstop⟩ := hthread
  have hat : Serving S.mem es c stop (S.port c) (P.session c) P.work P.table := by
    obtain ⟨hnone, -⟩ | ⟨d, stop', ht, hserving⟩ := hserving
    · rw [hnone] at hstop
      cases hstop
    · rw [ht] at hstop
      cases hstop
      exact hserving
  obtain ⟨e, rec, rfl, hw, htable, ho, hm, hready⟩ := serving_at_send hat hq
  have hx := hl.answering c e hw
  have hseat := h.seat c
  rw [hx] at hseat
  obtain ⟨hsent, hin⟩ := Seat.at_served hseat
  have hbox : Inbox ((S.port c).conclude ⟨fate.status, .send⟩) none := by
    refine inbox_conclude (delivered_none (h.delivered c) ?_) _
    rw [hx]
    rintro l (hk | hk) <;> cases hk
  have hout := outbox_conclude ho ⟨fate.status, .send⟩
  have hquiet : (∀ stop, S.thread ≠ some (c, stop)) →
      Outbox ((S.port c).conclude ⟨fate.status, .send⟩) [] [] ∅ := fun hno =>
    absurd hstop (hno _)
  have hreplied : Seat programs c
      { S.client c with port := (S.client c).port.arrive (S.mem.send c) } (.replied e) := by
    refine .replied (sent_port hsent fun _ _ _ ho => outbox_arrive ho _) ?_
    rw [← hm]
    exact inbox_arrive hin _
  have hboxed : ∀ s y, (∀ k, ¬ Waits y k) → Delivered ((S.setClient c s).setPort c
      ((S.port c).conclude ⟨fate.status, .send⟩)) c y := by
    intro s y hy
    exact delivered_of_none (by simpa [World.setPort] using hbox) hy
  have hfailing : fate.status = .failure → ∀ y, ∃ es, Valid S.mem es ∧
      ((S.thread = none ∧ (Work.free : Work n) = .free ∧ P.table = slots S.mem.heap es) ∨
        ∃ d stop, S.thread = some (d, stop) ∧
          Serving S.mem es d stop (update S.port c ((S.port c).conclude ⟨fate.status, .send⟩) d)
            (update P.session c y d) .free P.table) := by
    intro hstatus y
    refine ⟨es, hv, .inr ⟨c, _, hstop, ?_⟩⟩
    rw [Function.update_self, Function.update_self, htable]
    refine .failing rfl ?_
    rw [← hstatus]
    exact hout
  have hgone : ∀ k, ¬ Waits (.replied e) k := by
    rintro k (hk | hk) <;> cases hk
  cases fate with
  | ok =>
    refine ⟨_, ?_, .inr (.reply hw)⟩
    refine reconnected h hreplied rfl rfl (hboxed _ _ hgone) hquiet ⟨es, hv, .inr ⟨c, _, hstop, ?_⟩⟩
    rw [Function.update_self, Function.update_self, htable]
    refine .recording rfl hout hready fun key sl hoffer => ⟨offer_locked hoffer, fun sl' hsl' => ?_⟩
    apply hlocks.offer key sl (by rw [hw]; exact hoffer) sl'
    rw [htable]
    exact hsl'
  | late =>
    obtain ⟨hlossy, hlate⟩ := hfate.resolve_left (by simp)
    have hoffer : record P.table e.offer = P.table := by
      rw [Exchange.offer, hlate rfl e hx]
      rfl
    refine ⟨_, ?_, .inr (.reply hw)⟩
    rw [hoffer]
    exact reconnected h hreplied rfl rfl (hboxed _ _ hgone) hquiet (hfailing rfl _)
  | lost =>
    obtain ⟨hlossy, -⟩ := hfate.resolve_left (by simp)
    refine ⟨_, ?_, .inr (.lose_reply hlossy hw)⟩
    rw [← setClient_self S c]
    refine reconnected h (.stranded (not_shutDown e) hsent hin) rfl rfl (hboxed _ _ ?_) hquiet
      (hfailing rfl _)
    rintro k (hk | hk) <;> cases hk

theorem inbox_deliver {p p' : Port} {x : Option ControlMessage} (hi : Inbox p x)
    (h : p.deliver = some p') :
    ∃ msg, x = some msg ∧ Inbox p' (some msg) ∧
      ∀ wrs wcs moved, Outbox p wrs wcs moved → Outbox p' wrs wcs moved := by
  cases hi with
  | empty hi hr | landed hi hr =>
    rw [Port.deliver, hi] at h
    cases h
  | @flying msg hi hr =>
    simp only [Port.deliver, hi] at h
    by_cases hroom : (p.receiveCq.length : Int) < p.queue.routs
    · rw [if_pos hroom] at h
      obtain rfl := Option.some.inj h
      refine ⟨msg, rfl, ?_, fun _ _ _ ho => ⟨ho.sendQueue, ho.sendCq, ho.moved⟩⟩
      exact Inbox.landed rfl (congrArg (· ++ [⟨.success, .recv⟩]) hr)
    · rw [if_neg hroom] at h
      cases h

theorem Seat.at_inbound {s : ClientState} {x : Session} (h : Seat programs c s x) {p : Port}
    (hp : s.port.deliver = some p) :
    ∃ e, x = .replied e ∧ Sent s e.letter.query ∧ Inbox s.port (some e.message) := by
  have hnone : ¬ Inbox s.port none := by
    intro hi
    obtain ⟨msg, hmsg, -⟩ := inbox_deliver hi hp
    cases hmsg
  cases h with
  | replied hs hi => exact ⟨_, rfl, hs, hi⟩
  | idle _ _ hi | posting _ _ _ hi | posted _ _ _ hi | pending _ _ hi | served _ hi | stranded _ _ hi
  | reading _ _ _ hi | aiming _ _ _ hi | moving _ _ _ hi | moved _ _ _ hi | finished _ _ _ hi
  | refusing _ _ _ hi | failed _ _ hi | parting _ _ _ hi | parted _ _ _ hi | left _ _ _ hi =>
    exact absurd hi hnone

theorem simulate_deliver_client (h : Refines programs S P) (hs : stepDeliver S .client c = some S') :
    Simulates programs lossy S' P := by
  obtain ⟨p, hp, rfl⟩ := Option.map_eq_some_iff.mp hs
  obtain ⟨e, hx, hsent, hi⟩ := Seat.at_inbound (h.seat c) hp
  obtain ⟨msg, hmsg, hin, hout⟩ := inbox_deliver hi hp
  refine ⟨P, h.within ?_ rfl rfl, .inl rfl⟩
  rw [hx]
  rw [← hmsg] at hin
  exact .replied (sent_port hsent hout) hin

section Serving

variable {m : ServerMemory n} {es : List KeyValueAddressPair}
  {stop : Stop (ServerMemory n) Verb Verb.Answer LoopExit} {p p' : Port} {x : Session} {w : Work n}
  {t : List UInt8 → Option Slot}

theorem serving_inbox (h : Serving m es c stop p x w t)
    (hstop : stop = .waiting .readMessage (dispatch c) ∨ ∃ k, stop = .waiting .ibvDeregMr k) :
    Inbox p none := by
  cases h with
  | reading _ _ _ hi | releasing _ _ _ _ hi => exact hi
  | polling ht | posting ht | posted ht | recording ht | failing ht | between ht | returned ht =>
    rw [ht] at hstop
    obtain hstop | ⟨k, hstop⟩ := hstop <;> cases hstop

theorem serving_port (h : Serving m es c stop p x w t) (hi : ¬ Inbox p none)
    (hout : ∀ wrs wcs moved, Outbox p wrs wcs moved → Outbox p' wrs wcs moved) :
    Serving m es c stop p' x w t := by
  cases h with
  | polling ht ho => exact .polling ht (hout _ _ _ ho)
  | reading _ _ _ h | releasing _ _ _ _ h => exact absurd h hi
  | posting ht ho hm hr => exact .posting ht (hout _ _ _ ho) hm hr
  | posted ht ho hm hr => exact .posted ht (hout _ _ _ ho) hm hr
  | recording ht ho hr hold => exact .recording ht (hout _ _ _ ho) hr hold
  | failing ht ho => exact .failing ht (hout _ _ _ ho)
  | between ht ho => exact .between ht (hout _ _ _ ho)
  | returned ht ho => exact .returned ht (hout _ _ _ ho)

end Serving

theorem inHand_inbox (h : Refines programs S P) (hhand : InHand S c) : Inbox (S.port c) none := by
  obtain ⟨stop, ht, hstop⟩ : ∃ stop, S.thread = some (c, stop) ∧
      (stop = .waiting .readMessage (dispatch c) ∨ ∃ k, stop = .waiting .ibvDeregMr k) := by
    cases hhand with
    | reading ht => exact ⟨_, ht, .inl rfl⟩
    | releasing ht => exact ⟨_, ht, .inr ⟨_, rfl⟩⟩
  obtain ⟨es, -, ⟨hnone, -⟩ | ⟨d, stop', ht', hserving⟩⟩ := h.serving
  · rw [hnone] at ht
    cases ht
  · rw [ht'] at ht
    cases ht
    exact serving_inbox hserving hstop

theorem simulate_deliver_server (h : Refines programs S P) (hs : stepDeliver S .server c = some S') :
    Simulates programs lossy S' P := by
  obtain ⟨p, hp, rfl⟩ := Option.map_eq_some_iff.mp hs
  have hnone : ¬ Inbox (S.port c) none := by
    intro hi
    obtain ⟨msg, hmsg, -⟩ := inbox_deliver hi hp
    cases hmsg
  obtain ⟨l, hwait⟩ : ∃ l, Waits (P.session c) l := by
    by_contra hno
    exact hnone (delivered_none (h.delivered c) fun l hl => hno ⟨l, hl⟩)
  have hi : Inbox (S.port c) (some l.message) := by
    have hd := h.delivered c
    obtain hx | hx := hwait
    · rw [hx] at hd
      exact hd.resolve_right fun hhand => hnone (inHand_inbox h hhand)
    · rw [hx] at hd
      exact hd.resolve_right fun hhand => hnone (inHand_inbox h hhand)
  obtain ⟨msg, hmsg, hin, hout⟩ := inbox_deliver hi hp
  cases hmsg
  refine ⟨P, ?_, .inl rfl⟩
  have hlink := @reconnected n programs S P c h (S.client c) p (P.session c) P.work P.table
  rw [setClient_self, Function.update_eq_self] at hlink
  refine hlink (h.seat c) rfl rfl ?_ (fun hno => hout _ _ _ (h.quiet c hno)) ?_
  · have hport : (S.setPort c p).port c = p := by simp [World.setPort]
    obtain hx | hx := hwait
    · rw [hx]
      exact .inl (by rw [hport]; exact hin)
    · rw [hx]
      exact .inl (by rw [hport]; exact hin)
  · obtain ⟨es, hv, hfree | ⟨d, stop, ht, hserving⟩⟩ := h.serving
    · exact ⟨es, hv, .inl hfree⟩
    · refine ⟨es, hv, .inr ⟨d, stop, ht, ?_⟩⟩
      by_cases hdc : d = c
      · subst hdc
        rw [Function.update_self]
        exact serving_port hserving hnone hout
      · rw [Function.update_of_ne hdc]
        exact hserving

section Regions

variable {m : ServerMemory n} {es : List KeyValueAddressPair} {key : List UInt8} {mr : Mr}
  {block block' : List UInt8}

theorem slots_region (hv : Valid m es) (hs : slots m.heap es key = some (lock mr)) : mr ∈ m.regions := by
  obtain ⟨idx, e, -, he, hslot, -⟩ := find_of_slots hs
  have hlock : e.mrRdma = some ⟨mr, mr.addr, mr.length⟩ := congrArg Slot.mrRdma hslot
  exact (hv.sound.recorded e (List.mem_of_getElem? he) _ hlock).1

theorem record_region (hv : Valid m es) {rec : Recording} {pending : Option (List UInt8 × Slot)}
    (hr : Ready m.heap m.regions es rec pending)
    (hs : record (slots m.heap es) pending key = some (lock mr)) : mr ∈ m.regions := by
  cases hr with
  | nothing => exact slots_region hv hs
  | @insert e k hf =>
    by_cases hk : key = k
    · subst hk
      rw [record, Function.update_self] at hs
      exact (hf.recorded ⟨mr, mr.addr, mr.length⟩ (congrArg Slot.mrRdma (Option.some.inj hs))).1
    · rw [record, Function.update_of_ne hk] at hs
      exact slots_region hv hs
  | @mark idx e k info he hk hrec haccess =>
    by_cases hkk : key = k
    · subst hkk
      rw [record, Function.update_self] at hs
      have hinfo : some info = some ⟨mr, mr.addr, mr.length⟩ :=
        congrArg Slot.mrRdma (Option.some.inj hs)
      cases hinfo
      exact hrec.1
    · rw [record, Function.update_of_ne hkk] at hs
      exact slots_region hv hs

theorem serving_region {stop : Stop (ServerMemory n) Verb Verb.Answer LoopExit} {p : Port} {x : Session}
    {w : Work n} {t : List UInt8 → Option Slot} (h : Serving m es c stop p x w t) (hv : Valid m es)
    (ht : t key = some (lock mr)) : mr ∈ m.regions := by
  cases h with
  | recording _ _ hr => exact record_region hv hr ht
  | polling | reading | posting | posted | failing | releasing | between | returned =>
    exact slots_region hv ht

theorem serving_write {stop : Stop (ServerMemory n) Verb Verb.Answer LoopExit} {p : Port} {x : Session}
    {w : Work n} {t : List UInt8 → Option Slot} (h : Serving m es c stop p x w t) (hv : Valid m es)
    (hr : mr ∈ m.regions) (hb : m.heap.blocks mr.addr = some block) (hl : block'.length = block.length) :
    Serving (m.setHeap (write m.heap mr.addr block')) es c stop p x w t := by
  have hslots : slots m.heap es = slots (m.setHeap (write m.heap mr.addr block')).heap es :=
    (hv.slots_write hr block').symm
  cases h with
  | polling ht ho =>
    rw [hslots]
    exact .polling ht ho
  | reading ht ho hx hi hm =>
    rw [hslots]
    exact .reading ht ho hx hi hm
  | posting ht ho hm hready =>
    rw [hslots]
    exact .posting ht ho hm (hready.write hv.sound hr hb hl)
  | posted ht ho hm hready =>
    rw [hslots]
    exact .posted ht ho hm (hready.write hv.sound hr hb hl)
  | recording ht ho hready hold =>
    rw [hslots] at hold ⊢
    exact .recording ht ho (hready.write hv.sound hr hb hl) hold
  | failing ht ho =>
    rw [hslots]
    exact .failing ht ho
  | @releasing l r mr' idx e ht ho hx hq hi hm he hk hslot =>
    rw [hslots]
    refine .releasing ht ho hx hq hi hm he ?_ hslot
    have hne := hv.sound.apart mr hr e (List.mem_of_getElem? he)
    exact (cstr_write_other hne.symm block').trans hk
  | between ht ho =>
    rw [hslots]
    exact .between ht ho
  | returned ht ho =>
    rw [hslots]
    exact .returned ht ho

end Regions

theorem granted_region (h : Refines programs S P) {key : List UInt8} {mr : Mr}
    (ht : P.table key = some (lock mr)) : mr ∈ S.mem.regions := by
  obtain ⟨es, hv, ⟨-, -, htable⟩ | ⟨d, stop, -, hserving⟩⟩ := h.serving
  · rw [htable] at ht
    exact slots_region hv ht
  · exact serving_region hserving hv ht

theorem refines_write (h : Refines programs S P) {mr : Mr} {block block' : List UInt8}
    (hr : mr ∈ S.mem.regions) (hb : S.mem.heap.blocks mr.addr = some block)
    (hl : block'.length = block.length) :
    Refines programs { S with mem := S.mem.setHeap (write S.mem.heap mr.addr block') }
      { P with cells := update P.cells mr.addr (some block') } := by
  refine ⟨h.seat, h.index, h.buffer, h.history, ?_, h.count,
    fun d => delivered_congr (S := S) rfl rfl (h.delivered d), h.quiet, ?_⟩
  · exact congrArg (fun cells => update cells mr.addr (some block')) h.cells
  · obtain ⟨es, hv, ⟨hnone, hw, htable⟩ | ⟨d, stop, ht, hserving⟩⟩ := h.serving
    · exact ⟨es, hv.write hr hb hl, .inl ⟨hnone, hw, htable.trans (hv.slots_write hr block').symm⟩⟩
    · exact ⟨es, hv.write hr hb hl, .inr ⟨d, stop, ht, serving_write hserving hv hr hb hl⟩⟩

theorem at_rdma {s : ClientState} {x : Session} (h : Seat programs c s x) {wr : RdmaRequest}
    {wrs : List WorkRequest} (hq : s.port.sendQueue = .rdma wr :: wrs) :
    ∃ r mr rest moved, x = .holding r mr moved ∧ Transfer s.mem r mr wr rest ∧
      s.thread = some (.waiting .pollNSendWc (afterConfirm rest)) ∧
      Outbox s.port [.rdma wr] [] moved ∧ Inbox s.port none := by
  cases h with
  | moving hr ht ho hi =>
    have hwr := ho.sendQueue
    rw [hq] at hwr
    cases hwr
    exact ⟨_, _, _, _, rfl, hr, ht, ho, hi⟩
  | pending _ hs | served hs | stranded _ hs | replied hs =>
    rw [sent_sendQueue hs] at hq
    cases hq
  | idle _ ho | posting _ _ ho | posted _ _ ho | reading _ _ ho | aiming _ _ ho | moved _ _ ho
  | finished _ _ ho | refusing _ _ ho | failed _ ho | parting _ _ ho | parted _ _ ho | left _ _ ho =>
    rw [ho.sendQueue] at hq
    cases hq

theorem outbox_move {s : ClientState} {wrs : List WorkRequest} {wcs : List Wc} {moved : Finset Nat}
    (ho : Outbox s.port wrs wcs moved) (i : Nat) : Outbox (move s i).port wrs wcs (insert i moved) :=
  ⟨ho.sendQueue, ho.sendCq, congrArg (insert i) ho.moved⟩

theorem inbox_move {s : ClientState} (hi : Inbox s.port none) (i : Nat) : Inbox (move s i).port none := by
  cases hi with
  | empty hi hr => exact .empty hi hr

/-- The adapters let bytes pass only into and out of the region that the client holds. -/
theorem holding_of_permits (h : Refines programs S P) (hlocks : Locks P) {wr : RdmaRequest}
    {wrs : List WorkRequest} (hq : (S.client c).port.sendQueue = .rdma wr :: wrs) {mr : Mr} {i : Nat}
    (hpermits : Permits S c wr mr i) :
    ∃ r rest moved, P.session c = .holding r mr moved ∧ Transfer (S.client c).mem r mr wr rest ∧
      (S.client c).thread = some (.waiting .pollNSendWc (afterConfirm rest)) ∧
      Outbox (S.client c).port [.rdma wr] [] moved ∧ Inbox (S.client c).port none ∧
      mr ∈ S.mem.regions := by
  obtain ⟨r, mr', rest, moved, hx, htransfer, ht, ho, hi⟩ := at_rdma (h.seat c) hq
  have hgranted := granted_region h (hlocks.held c r.key.chars mr' (by rw [hx]; rfl))
  obtain ⟨hregion, hrkey, -⟩ := hpermits
  have hmr : mr = mr' := by
    obtain ⟨es, hv, -⟩ := h.serving
    refine hv.sound.rkeys mr hregion mr' hgranted (hrkey.trans ?_)
    cases htransfer <;> rfl
  subst hmr
  exact ⟨r, rest, moved, hx, htransfer, ht, ho, hi, hgranted⟩

theorem simulate_copy (h : Refines programs S P) (hlocks : Locks P) {mr : Mr} {i : Nat}
    (hs : stepCopy S c mr i = some S') : Simulates programs lossy S' P := by
  obtain ⟨wr, wrs, there, here, byte, hq, hpermits, hthere, hhere, hmoved⟩ := stepCopy_eq_some hs
  obtain ⟨r, rest, moved, hx, htransfer, ht, ho, hi, hgranted⟩ :=
    holding_of_permits h hlocks hq hpermits
  have hwait : (∀ l, ¬ Waits (P.session c) l) ∧
      ∀ l, ¬ Waits (.holding r mr (insert i moved)) l := by
    rw [hx]
    constructor <;> rintro l (hl | hl) <;> cases hl
  have hi' : P.index = update P.index c (S.client c).index := by
    rw [h.index, Function.update_eq_self]
  cases htransfer with
  | @write key value _ lmr hstart =>
    simp only [Nat.sub_self, Nat.zero_add, reduceCtorEq, false_and, or_false, true_and] at hmoved
    obtain ⟨hbyte, rfl⟩ := hmoved
    cases hhere
    have hwritten := refines_write h hgranted hthere (List.length_set (a := byte) (i := i))
    refine ⟨_, ?_, .inr (.write hx hbyte (h.cells ▸ hthere))⟩
    refine hwritten.client [] _ ?_ (.inr hwait) rfl hi' ?_ rfl rfl rfl rfl rfl
    · exact .moving (.write hstart) ht (outbox_move ho i) (inbox_move hi i)
    · exact (h.buffer c ▸ Function.update_eq_self c P.buffer).symm
  | @read key _ lmr a hvar =>
    simp only [Nat.sub_self, Nat.zero_add, reduceCtorEq, false_and, false_or, true_and] at hmoved
    obtain ⟨hbyte, m, hm, rfl⟩ := hmoved
    cases hm
    have hbuf : P.buffer c = some here := by
      rw [← h.buffer, content, hvar]
      exact hhere
    refine ⟨_, ?_, .inr (.read hx (h.cells ▸ hthere) hbyte hbuf)⟩
    refine h.client [] _ ?_ (.inr hwait) rfl hi' ?_ rfl rfl rfl rfl rfl
    · exact .moving (.read hvar) ht (outbox_move ho i) (inbox_move hi i)
    · have hc : content ((S.client c).mem.setHeap (write (S.client c).mem.heap a (here.set i byte))) =
          some (here.set i byte) := by
        rw [content]
        exact (congrArg (fun v => Option.bind v _) hvar).trans (write_self _ a _)
      exact congrArg (update P.buffer c) hc.symm

theorem simulate_complete (h : Refines programs S P) (hs : stepComplete S c true = some S') :
    Simulates programs lossy S' P := by
  obtain ⟨wr, wrs, hq, hall, rfl⟩ := stepComplete_eq_some hs
  obtain ⟨r, mr, rest, moved, hx, htransfer, ht, ho, hi⟩ := at_rdma (h.seat c) hq
  refine ⟨P, h.within ?_ rfl rfl, .inl rfl⟩
  rw [hx]
  refine .moved htransfer ht (outbox_conclude ho _) (inbox_conclude hi _) fun i hlt => ?_
  rw [← ho.moved]
  apply hall rfl i
  cases htransfer <;> exact hlt

theorem holding_of_copy (h : Refines programs S P) (hlocks : Locks P) {mr : Mr} {i : Nat}
    (hs : stepCopy S c mr i = some S') : ∃ r moved, P.session c = .holding r mr moved := by
  obtain ⟨wr, wrs, -, -, -, hq, hpermits, -⟩ := stepCopy_eq_some hs
  obtain ⟨r, rest, moved, hx, -⟩ := holding_of_permits h hlocks hq hpermits
  exact ⟨r, moved, hx⟩

end NetworkOptimization.Transfers
