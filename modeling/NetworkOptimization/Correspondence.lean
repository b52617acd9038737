import NetworkOptimization.ServerSteps

namespace NetworkOptimization.Correspondence

open Words Memory ControlMessages DynamicArray Verbs SequentialCode Calls Server Handlers Tables
open ServerLoop Runs
open Client (ClientMemory)
open Network Steps Protocol Histories Exclusion Records Values Seats Refinement ClientSteps Transfers
open ServerSteps
open Function (update)

variable {n : Nat} {programs : Fin n → List Request} {lossy : Prop} {S S' : World n} {P P' : State n}
  {c : Fin n}

theorem simulate_next (h : Refines programs S P) (hs : stepNext S = some S') :
    Simulates programs lossy S' P := by
  obtain ⟨c, ht, rfl⟩ := stepNext_eq_some hs
  obtain ⟨es, hv, hserving⟩ := serving_at h ht
  have hhand : ∀ d, ¬ InHand S d := by
    rintro d (hd | hd) <;> rw [ht] at hd <;> cases hd
  generalize hw : P.work = w at hserving
  generalize htable : P.table = t at hserving
  cases hserving with
  | between _ ho =>
    have hout : ∀ d, Outbox (S.port d) [] [] ∅ := by
      intro d
      by_cases hdc : d = c
      · rw [hdc]
        exact ho
      · refine h.quiet d fun stop hstop => hdc ?_
        rw [ht] at hstop
        cases hstop
        rfl
    refine ⟨P, ⟨h.seat, h.index, h.buffer, h.history, h.cells, h.count, fun d => ?_,
      fun d _ => hout d, es, hv, .inr ⟨Loop.following c, _, rfl, ?_⟩⟩, .inl rfl⟩
    · exact delivered_port (h.delivered d) (fun hd => absurd hd (hhand d)) fun y hy => hy
    · rw [hw, htable]
      exact .polling rfl (hout _)
  | reading ht' | posting ht' | posted ht' | recording ht' | failing ht' | releasing ht' | polling ht'
  | returned ht' => cases ht'

theorem outbox_fresh {p : Port} (h : p.Fresh) : Outbox p [] [] ∅ := ⟨h.sendQueue, h.sendCq, h.moved⟩

theorem inbox_fresh {p : Port} (h : p.Fresh) : Inbox p none := .empty h.inbound h.receiveCq

theorem refines_start (h : Network.Start S) : ∃ P, Protocol.Start P ∧ Refines programs S P := by
  obtain ⟨place, junk, rkeys, records, reallocs, send, hmem⟩ := h.mem
  refine ⟨⟨fun _ => .idle, fun _ => 0, fun c => content (S.client c).mem, .free, fun _ => none,
    S.mem.heap.blocks, 0, []⟩, ⟨fun _ => rfl, fun _ => rfl, rfl, fun _ => rfl, rfl, rfl⟩, ?_⟩
  refine ⟨fun c => ?_, fun c => (h.client c).2.1, fun _ => rfl, h.history, rfl, ?_, fun c => ?_,
    fun c _ => outbox_fresh (h.port c), [], ?_, ?_⟩
  · exact .idle (h.client c).1 (outbox_fresh (h.client c).2.2) (inbox_fresh (h.client c).2.2)
  · rw [hmem]
    rfl
  · exact inbox_fresh (h.port c)
  · rw [hmem]
    exact Resources.valid_start place junk rkeys records reallocs send
  · have hthread := h.thread
    by_cases hn : 0 < n
    · rw [dif_pos hn] at hthread
      exact .inr ⟨_, _, hthread, .polling rfl (outbox_fresh (h.port _))⟩
    · rw [dif_neg hn] at hthread
      exact .inl ⟨hthread, rfl, rfl⟩

/-- The outcomes of a step with which the system keeps to the protocol. -/
def Admits (lossy : Prop) (P : State n) : Label n → Prop
  | .client c dereg => (∃ r mr, query (P.session c) = some (.fin r mr)) → dereg = 0
  | .server dereg => dereg = 0
  | .send .client c fate => fate = .ok ∨
      (fate = .lost ∧ lossy ∧ ∀ l, P.session c = .going l → l.query.region = none)
  | .send .server c fate => fate = .ok ∨
      (lossy ∧ (fate = .late → ∀ e, P.session c = .served e → e.reply.region = none))
  | .complete _ ok => ok = true
  | .call _ | .ret _ | .next | .deliver _ _ | .copy _ _ _ => True

/-- Every step of the system is one of the protocol, or none. -/
theorem simulate (h : Refines programs S P) (hl : Linked P) (hlocks : Locks P) {l : Label n}
    (hadmits : Admits lossy P l) (hs : Network.Step programs S l S') : Simulates programs lossy S' P := by
  cases l with
  | call c => exact simulate_call h hs
  | client c dereg => exact simulate_client h hadmits hs
  | ret c => exact simulate_ret h hs
  | server dereg =>
    obtain rfl : dereg = 0 := hadmits
    exact simulate_server h hlocks hs
  | next => exact simulate_next h hs
  | send side c fate =>
    cases side with
    | client => exact simulate_send h hadmits hs
    | server => exact simulate_reply h hl hlocks hadmits hs
  | deliver side c =>
    cases side with
    | client => exact simulate_deliver_client h hs
    | server => exact simulate_deliver_server h hs
  | copy c mr i => exact simulate_copy h hlocks hs
  | complete c ok =>
    obtain rfl : ok = true := hadmits
    exact simulate_complete h hs

/-- What every run of the protocol keeps. -/
structure Orderly (programs : Fin n → List Request) (P : State n) : Prop where
  linked : Linked P
  locks : Locks P
  placed : Placed P
  current : Current programs P
  told : Told P
  counted : Counted P

theorem Orderly.step (h : Orderly programs P) (hs : Protocol.Step programs lossy P P') :
    Orderly programs P' where
  linked := h.linked.step hs
  locks := h.locks.step h.linked hs
  placed := h.placed.step h.locks hs
  current := h.current.step h.linked hs
  told := h.told.step h.current h.linked hs
  counted := h.counted.step h.linked hs

theorem orderly_start (h : Protocol.Start P) : Orderly programs P := by
  have hgrant : ∀ c, (P.session c).grant = none := by
    intro c
    rw [h.session]
    rfl
  have hoffer : P.work.offer = none := by
    rw [h.work]
    rfl
  refine ⟨⟨?_, ?_, ?_⟩, ⟨?_, ?_, ?_, ?_⟩, ⟨?_, ?_, ?_⟩, ?_, ?_, ⟨?_, ?_⟩⟩
  · simp [h.work]
  · simp [h.session]
  · simp [h.work]
  · simp [hgrant]
  · simp [h.table]
  · simp [hgrant]
  · simp [hoffer]
  · simp [h.table]
  · simp [h.table]
  · simp [hoffer]
  · intro c call hc
    rw [h.session] at hc
    cases hc
  · intro c
    rw [h.session, h.history]
    intro j request reply mr ha
    cases ha
  · rw [h.count, eq_comm, Finset.card_eq_zero, Finset.filter_eq_empty_iff]
    simp [h.session, isGone]
  · simp [h.work]

/-- A run whose steps the protocol admits is a run of the protocol, with all that the
protocol keeps. -/
theorem followed {allowed : World n → Label n → Prop} {I : State n → Prop}
    (hallowed : ∀ S P l, Refines programs S P → Orderly programs P → allowed S l → Admits lossy P l)
    (hstart : ∀ P, Protocol.Start P → I P)
    (hstep : ∀ P P', Orderly programs P → I P → Protocol.Step programs lossy P P' → I P')
    (h : Reach Network.Start (Network.Step programs) allowed S) :
    ∃ P, Refines programs S P ∧ Orderly programs P ∧ I P := by
  refine h.invariant (P := fun S => ∃ P, Refines programs S P ∧ Orderly programs P ∧ I P) ?_ ?_
  · intro S hS
    obtain ⟨P, hP, href⟩ := @refines_start n programs S hS
    exact ⟨P, href, orderly_start hP, hstart P hP⟩
  · rintro S l S' ⟨P, href, hord, hI⟩ hl hs
    obtain ⟨P', href', rfl | hstep'⟩ :=
      simulate href hord.linked hord.locks (hallowed S P l href hord hl) hs
    · exact ⟨P', href', hord, hI⟩
    · exact ⟨P', href', hord.step hstep', hstep P P' hord hI hstep'⟩

def entry (m : ServerMemory n) (key : List UInt8) : Option Slot :=
  ((getKeyValueAddressPair m.heap m.database key).bind
    (fun found => found.bind (fun idx => (m.database.head[idx]?).join))).map slot

section Entries

variable {m : ServerMemory n} {es : List KeyValueAddressPair} {key : List UInt8} {sl : Slot}

theorem entry_eq (hv : Valid m es) (key : List UInt8) : entry m key = slots m.heap es key := by
  have hg : getKeyValueAddressPair m.heap m.database key = some (find m.heap es key) :=
    getKeyValueAddressPair_eq hv.holds hv.wellFormed.keys key
  rw [entry, hg, Option.bind_some]
  cases hf : find m.heap es key with
  | none => rw [slots_of_none hf, Option.bind_none, Option.map_none]
  | some idx =>
    obtain ⟨e, he, -⟩ := find_some hf
    rw [slots_of_find hf he, Option.bind_some, hv.holds.get he]
    rfl

theorem record_other {t : List UInt8 → Option Slot} {pending : Option (List UInt8 × Slot)}
    (h : ∀ sl, pending ≠ some (key, sl)) : record t pending key = t key := by
  cases pending with
  | none => rfl
  | some p => exact Function.update_of_ne (fun hk => h p.2 (by rw [hk])) _ _

theorem entry_locked (h : Refines programs S P) (he : entry S.mem key = some sl)
    (hm : sl.mrRdma.isSome) : P.table key = some sl := by
  obtain ⟨es, hv, ⟨-, -, htable⟩ | ⟨c, stop, -, hserving⟩⟩ := h.serving
  · rw [htable, ← entry_eq hv]
    exact he
  · rw [entry_eq hv] at he
    generalize htable : P.table = t at hserving
    generalize P.work = w at hserving
    cases hserving with
    | recording _ _ _ hold =>
      rw [record_other, he]
      intro sl' hpending
      rw [(hold key sl' hpending).2 sl he] at hm
      cases hm
    | polling | reading | posting | posted | failing | releasing | between | returned => exact he

/-- Unless an answer may still have to be recorded, the database is the table of the protocol. -/
theorem table_eq (h : Refines programs S P)
    (hrest : ∀ c k, S.thread ≠ some (c, .waiting .pollNSendWc k)) (key : List UInt8) :
    P.table key = entry S.mem key := by
  obtain ⟨es, hv, ⟨-, -, htable⟩ | ⟨c, stop, ht, hserving⟩⟩ := h.serving
  · rw [htable, entry_eq hv]
  · rw [entry_eq hv]
    generalize htable : P.table = t at hserving
    generalize P.work = w at hserving
    cases hserving with
    | recording hstop =>
      rw [hstop] at ht
      exact absurd ht (hrest _ _)
    | polling | reading | posting | posted | failing | releasing | between | returned => rfl

end Entries

theorem serving_sendCq {m : ServerMemory n} {es : List KeyValueAddressPair}
    {stop : Stop (ServerMemory n) Verb Verb.Answer LoopExit} {p : Port} {x : Session} {w : Work n}
    {t : List UInt8 → Option Slot} (h : Serving m es c stop p x w t) :
    p.sendCq.length ≤ 1 ∧ (p.sendCq ≠ [] → ∃ k, stop = .waiting .pollNSendWc k) := by
  cases h with
  | polling _ ho | reading _ ho | posting _ ho | posted _ ho | releasing _ ho | between _ ho
  | returned _ ho =>
    rw [ho.sendCq]
    exact ⟨Nat.zero_le 1, fun hne => absurd rfl hne⟩
  | recording ht ho | failing ht ho =>
    rw [ho.sendCq]
    exact ⟨le_refl 1, fun _ => ⟨_, ht⟩⟩

theorem answer_sendCq {p p' : Port} {d : Int} {verb : Verb} {a : verb.Answer}
    (h : p.answer d verb = some (a, p')) (hlen : p.sendCq.length ≤ 1)
    (hpoll : p.sendCq ≠ [] → verb = .pollNSendWc) : p'.sendCq = [] := by
  cases verb with
  | pollNSendWc =>
    cases hq : p.sendCq with
    | nil => simp [Port.answer, hq] at h
    | cons wc wcs =>
      simp only [Port.answer, hq] at h
      cases h
      rw [hq] at hlen
      simp at hlen
      exact hlen
  | ibvPostSend wr | readMessage | ibvDeregMr =>
    cases h
    by_contra hne
    cases hpoll hne
  | pollNextReceiveWc blocking =>
    obtain ⟨r, -, hr⟩ := Option.map_eq_some_iff.mp h
    cases hr
    by_contra hne
    cases hpoll hne

theorem server_table (h : Refines programs S P) {d : Int} (hs : stepServer S d = some S')
    (h' : Refines programs S' P') (key : List UInt8) : P'.table key = entry S'.mem key := by
  obtain ⟨c, verb, k, a, p, m, stop, ht, ha, hm, rfl⟩ := stepServer_eq_some hs
  obtain ⟨es, -, hserving⟩ := serving_at h ht
  obtain ⟨hlen, hpoll⟩ := serving_sendCq hserving
  have hempty : p.sendCq = [] := by
    refine answer_sendCq ha hlen fun hne => ?_
    obtain ⟨k', hk⟩ := hpoll hne
    cases hk
    rfl
  obtain ⟨es', hv', hserving'⟩ := serving_at h' (show _ = some (c, stop) from rfl)
  rw [entry_eq hv']
  generalize P'.table = t at hserving'
  generalize P'.work = w at hserving'
  generalize P'.session c = x at hserving'
  cases hserving' with
  | recording _ ho =>
    have hcq : ((resume S c m stop p).port c).sendCq = [⟨.success, .send⟩] := ho.sendCq
    rw [resume_port, hempty] at hcq
    cases hcq
  | polling | reading | posting | posted | failing | releasing | between | returned => rfl

/-- What remote bytes do to the memory of the server. -/
inductive Rewritten (S : World n) (m : ServerMemory n) : Prop
  | same (h : m = S.mem)
  | bytes {c wr wrs mr i block block'} (hq : (S.client c).port.sendQueue = .rdma wr :: wrs)
      (hpermits : Permits S c wr mr i) (haccess : mr.access = .remoteWrite)
      (hb : S.mem.heap.blocks mr.addr = some block) (hl : block'.length = block.length)
      (h : m = S.mem.setHeap (write S.mem.heap mr.addr block')) : Rewritten S m

theorem rewritten_copy {mr : Mr} {i : Nat} (hs : stepCopy S c mr i = some S') :
    Rewritten S S'.mem ∧ S'.history = S.history := by
  obtain ⟨r, wrs, there, here, byte, hq, hpermits, hthere, -, ⟨hop, -, rfl⟩ | ⟨-, -, m, -, rfl⟩⟩ :=
    stepCopy_eq_some hs
  · have haccess := hpermits.2.2.1
    rw [hop] at haccess
    exact ⟨.bytes hq hpermits haccess hthere List.length_set rfl, rfl⟩
  · exact ⟨.same rfl, rfl⟩

structure Beside (S S' : World n) : Prop where
  mem : Rewritten S S'.mem
  history : ∃ events, S'.history = events ++ S.history ∧
    ∀ e ∈ events, ∀ c request reply, e ≠ .answered c request reply

theorem beside_silent (hmem : Rewritten S S'.mem) (hh : S'.history = S.history) : Beside S S' :=
  ⟨hmem, [], hh, fun e he => by cases he⟩

theorem asks_no_answer {j : Nat} {m : ClientMemory}
    {stop : Stop ClientMemory Verb Verb.Answer Int} {e : Event n} (he : e ∈ asks c j m stop)
    (d : Fin n) (request reply : ControlMessage) : e ≠ .answered d request reply := by
  rw [asks] at he
  cases hs : sends stop <;> rw [hs] at he <;> simp at he
  simp [he]

theorem takes_no_answer {j : Nat} {p : Port} {verb : Verb} {e : Event n} (he : e ∈ takes c j p verb)
    (d : Fin n) (request reply : ControlMessage) : e ≠ .answered d request reply := by
  cases verb <;> simp [takes] at he
  simp [he]

theorem beside_step {l : Label n} (hs : Network.Step programs S l S') (hl : ∀ d, l ≠ .server d) :
    Beside S S' := by
  cases l with
  | server d => exact absurd rfl (hl d)
  | copy c mr i => exact beside_silent (rewritten_copy hs).1 (rewritten_copy hs).2
  | call c =>
    obtain ⟨call, m, stop, -, -, -, rfl⟩ := stepCall_eq_some hs
    exact ⟨.same rfl, _, rfl, fun e he => asks_no_answer he⟩
  | client c d =>
    obtain ⟨verb, k, a, p, m, stop, -, -, -, rfl⟩ := ClientSteps.stepClient_eq_some hs
    refine ⟨.same rfl, _, rfl, fun e he => ?_⟩
    obtain he | he := List.mem_append.mp he
    · exact asks_no_answer he
    · exact takes_no_answer he
  | ret c =>
    obtain ⟨r, -, rfl⟩ := stepRet_eq_some hs
    exact ⟨.same rfl, [_], rfl, fun e he => by simp at he; simp [he]⟩
  | next =>
    obtain ⟨c, -, rfl⟩ := stepNext_eq_some hs
    exact beside_silent (.same rfl) rfl
  | send side c fate =>
    cases side with
    | client =>
      obtain ⟨wrs, -, rfl⟩ := stepSend_client_eq_some hs
      by_cases ha : fate.Arrives <;> simp only [ha, ↓reduceIte] <;> exact beside_silent (.same rfl) rfl
    | server =>
      obtain ⟨wrs, -, rfl⟩ := stepSend_server_eq_some hs
      by_cases ha : fate.Arrives <;> simp only [ha, ↓reduceIte] <;> exact beside_silent (.same rfl) rfl
  | deliver side c =>
    cases side with
    | client =>
      obtain ⟨p, -, rfl⟩ := Option.map_eq_some_iff.mp hs
      exact beside_silent (.same rfl) rfl
    | server =>
      obtain ⟨p, -, rfl⟩ := Option.map_eq_some_iff.mp hs
      exact beside_silent (.same rfl) rfl
  | complete c ok =>
    obtain ⟨r, wrs, -, -, rfl⟩ := stepComplete_eq_some hs
    exact beside_silent (.same rfl) rfl

theorem entry_rewritten {m : ServerMemory n} {es : List KeyValueAddressPair} (hv : Valid S.mem es)
    (h : Rewritten S m) (key : List UInt8) : entry m key = entry S.mem key := by
  cases h with
  | same h => rw [h]
  | @bytes c wr wrs mr i block block' hq hpermits haccess hb hl h =>
    rw [h, entry_eq hv, entry_eq (hv.write hpermits.1 hb hl)]
    exact congrFun (hv.slots_write hpermits.1 block') key

theorem valid_at (h : Refines programs S P) : ∃ es, Valid S.mem es := by
  obtain ⟨es, hv, -⟩ := h.serving
  exact ⟨es, hv⟩

theorem entry_step (h : Refines programs S P) {l : Label n} (hs : Network.Step programs S l S')
    (hl : ∀ d, l ≠ .server d) (key : List UInt8) : entry S'.mem key = entry S.mem key := by
  obtain ⟨es, hv⟩ := valid_at h
  exact entry_rewritten hv (beside_step hs hl).mem key

section Succeeding

theorem admits_of_succeeds {l : Label n} (hl : Succeeds l) : Admits lossy P l := by
  cases l with
  | client c dereg => exact fun _ => hl
  | send side c fate => cases side <;> exact .inl hl
  | server dereg | complete c ok => exact hl
  | call c | ret c | next | deliver side c | copy c mr i => trivial

/-- The worlds of runs in which every verbs call succeeds. -/
abbrev Reached (programs : Fin n → List Request) (S : World n) : Prop :=
  Reach Network.Start (Network.Step programs) (fun _ l => Succeeds l) S

/-- What a run of the protocol keeps when no message is lost. -/
structure Reliable (programs : Fin n → List Request) (P : State n) : Prop extends
    Orderly programs P where
  conversed : Conversed P
  kept : Kept programs P

theorem reliable_start (h : Protocol.Start P) : Reliable programs P := by
  refine ⟨orderly_start h, fun c => ?_, fun key ha => ?_⟩
  · rw [h.session, h.history]
    exact ⟨by simp [spoken], rfl⟩
  · rw [h.history] at ha
    cases ha

theorem Reliable.step (h : Reliable programs P) (hs : Protocol.Step programs False P P') :
    Reliable programs P' :=
  ⟨h.toOrderly.step hs, h.conversed.step h.linked hs, h.kept.step h.current hs⟩

theorem followed_reliable (h : Reached programs S) : ∃ P, Refines programs S P ∧ Reliable programs P := by
  obtain ⟨P, href, -, hP⟩ := followed (fun _ _ _ _ _ hl => admits_of_succeeds hl)
    (fun P => reliable_start) (fun P P' _ hP hs => Reliable.step hP hs) h
  exact ⟨P, href, hP⟩

theorem Reliable.not_stranded (h : Reliable programs P) (l : Letter) : P.session c ≠ .stranded l := by
  intro hx
  obtain ⟨hno, -⟩ := h.conversed c
  rw [hx] at hno
  exact hno rfl

/-- A step of the system after which the protocol is where it was, or one step further. -/
theorem Reliable.simulate (h : Reliable programs P) (href : Refines programs S P) {l : Label n}
    (hl : Succeeds l) (hs : Network.Step programs S l S') :
    ∃ P', Refines programs S' P' ∧ Reliable programs P' ∧
      (P' = P ∨ Protocol.Step programs False P P') := by
  obtain ⟨P', href', rfl | hstep⟩ :=
    Correspondence.simulate href h.linked h.locks (admits_of_succeeds hl) hs
  · exact ⟨P', href', h, .inl rfl⟩
  · exact ⟨P', href', h.step hstep, .inr hstep⟩

end Succeeding

def sole : Fin 1 := ⟨0, Nat.one_pos⟩

def alone : World 1 where
  client := fun _ => ⟨Client.bare, none, 0, ⟨[], [], ∅, [], blank, [], ⟨rxDepth, rxDepth⟩⟩⟩
  mem := runServerInit (fun k => UInt64.ofNat (k + 1)) (fun _ _ => 0) UInt32.ofNat (fun _ => true)
    (fun _ => true)
    (fun _ => blank)
  thread := some (sole, polling sole)
  port := fun _ => ⟨[], [], ∅, [], blank, [], ⟨rxDepth, rxDepth⟩⟩
  history := []

theorem alone_start : Network.Start alone where
  client _ := ⟨rfl, rfl, rfl, rfl, rfl, rfl, rfl, rfl⟩
  mem := ⟨_, _, _, _, _, _, rfl⟩
  thread := rfl
  port _ := ⟨rfl, rfl, rfl, rfl, rfl, rfl⟩
  history := rfl

def pair : World 2 where
  client := fun _ => alone.client sole
  mem := runServerInit (fun k => UInt64.ofNat (k + 1)) (fun _ _ => 0) UInt32.ofNat (fun _ => true)
    (fun _ => true)
    (fun _ => blank)
  thread := some (0, polling 0)
  port := fun _ => alone.port sole
  history := []

theorem pair_start : Network.Start pair where
  client _ := alone_start.client sole
  mem := ⟨_, _, _, _, _, _, rfl⟩
  thread := rfl
  port _ := alone_start.port sole
  history := rfl

def letter : CString := ⟨[97], by decide, by decide⟩

def other : CString := ⟨[98], by decide, by decide⟩

theorem letter_ne_nul : (98 : UInt8) ≠ 0 := by
  decide

def long : CString := CString.repeated 98 letter_ne_nul 4100 (by decide)

def handing (c : Fin n) : List (Label n) :=
  [.call c, .client c 0, .send .client c .ok, .deliver .server c, .client c 0, .server 0, .server 0]

def asking (c : Fin n) : List (Label n) :=
  handing c ++ [.server 0, .send .server c .ok, .deliver .client c, .server 0, .next, .client c 0,
    .client c 0]

def readBack : List (Label 2) := asking 0 ++ [.ret 0] ++ asking 1 ++ (asking 0 ++ [.ret 0])

end NetworkOptimization.Correspondence
