import NetworkOptimization.Correspondence

namespace NetworkOptimization.Locking

open Words Memory ControlMessages DynamicArray Verbs SequentialCode Calls Server Handlers Tables
open Runs
open Network Protocol Histories Exclusion Records Values Seats Refinement Transfers ServerSteps
  Correspondence
open Function (update)

variable {n : Nat} {programs : Fin n → List Request} {lossy : Prop} {S S' : World n} {P P' : State n}
  {c : Fin n}

theorem granted_of_grant (ho : Orderly programs P) {key : List UInt8} {mr : Mr}
    (hg : (P.session c).grant = some (key, mr)) : Granted P.history c (P.index c) key mr := by
  have htold := ho.told c
  have hfin : ∀ l : Letter, l.query.region.map (fun mr => (l.query.key, mr)) = some (key, mr) →
      ∃ r, l.query = .fin r mr ∧ r.key.chars = key := by
    intro l hl
    obtain ⟨mr', hr, heq⟩ := Option.map_eq_some_iff.mp hl
    cases hq : l.query with
    | request r | shutDown =>
      rw [hq] at hr
      cases hr
    | fin r mr'' =>
      rw [hq] at hr heq
      cases hr
      cases heq
      exact ⟨r, rfl, rfl⟩
  generalize P.session c = x at hg htold
  cases x with
  | going l | pending l =>
    obtain ⟨r, hq, rfl⟩ := hfin l hg
    rw [Tells, hq] at htold
    exact htold
  | replied e =>
    obtain ⟨mr', hr, heq⟩ := Option.map_eq_some_iff.mp hg
    cases heq
    exact ⟨_, _, htold, Letter.key_eq e.letter (ClientSteps.not_shutDown e), Exchange.announces hr⟩
  | holding r mr' moved =>
    cases hg
    exact htold
  | idle | served e | finished call success | stranded l | leaving l | gone => cases hg

theorem access_of_granted (ho : Orderly programs P) (hx : ∀ l, P.session c ≠ .stranded l) {j : Nat}
    {key : List UInt8} {mr : Mr} (hg : Granted P.history c j key mr) :
    ∃ mr', Values.access (P.session c) = some (key, mr') := by
  obtain ⟨request, reply, hlast, hkey, hannounces⟩ := hg
  have htold := ho.told c
  rw [hlast] at htold
  have hexchange : ∀ e : Exchange, e.letter.message = request → e.message = reply →
      ∃ mr', e.reply.region = some mr' ∧ e.letter.query.key = key := by
    rintro e rfl rfl
    cases hr : e.reply.region with
    | none => exact absurd hannounces (Exchange.not_announces hr mr)
    | some mr' =>
      rw [Letter.key_eq e.letter (ClientSteps.not_shutDown e)] at hkey
      exact ⟨mr', rfl, Option.some.inj hkey⟩
  have hfin : ∀ l : Letter, Tells (.going l) (P.index c) (some (some j, request, reply)) →
      ∃ mr', l.query.region.map (fun mr => (l.query.key, mr)) = some (key, mr') := by
    intro l hl
    cases hq : l.query with
    | request r | shutDown =>
      rw [Tells, hq] at hl
      exact absurd hannounces (hl _ _ _ _ rfl)
    | fin r mr' =>
      rw [Tells, hq] at hl
      obtain ⟨request', reply', heq, hkey', -⟩ := hl
      cases heq
      rw [hkey'] at hkey
      cases hkey
      exact ⟨mr', rfl⟩
  generalize hs : P.session c = x at htold
  cases x with
  | going l | pending l => exact hfin l htold
  | served e | replied e =>
    cases htold
    obtain ⟨mr', hr, hk⟩ := hexchange e rfl rfl
    exact ⟨mr', by simp [Values.access, Session.grant, hr, hk]⟩
  | holding r mr' moved =>
    obtain ⟨request', reply', heq, hkey', -⟩ := htold
    cases heq
    rw [hkey'] at hkey
    cases hkey
    exact ⟨mr', rfl⟩
  | stranded l => exact absurd hs (hx l)
  | idle | finished call success | leaving l | gone => exact absurd hannounces (htold _ _ _ _ rfl)

theorem access_served (hl : Linked P) {key : List UInt8} {mr : Mr}
    (h : Values.access (P.session c) = some (key, mr)) :
    (P.session c).grant = some (key, mr) ∨ ∃ e, P.work = .answering c e := by
  cases hs : P.session c with
  | served e => exact .inr ⟨e, hl.served c e hs⟩
  | idle | going l | pending l | replied e | holding r m moved | finished call success | stranded l
  | leaving l | gone =>
    rw [hs] at h
    exact .inl h

theorem access_sole (ho : Orderly programs P) {c' : Fin n} {key : List UInt8} {mr mr' : Mr}
    (hc : Values.access (P.session c) = some (key, mr))
    (hc' : Values.access (P.session c') = some (key, mr')) : c = c' := by
  by_contra hne
  obtain hg | ⟨e, hw⟩ := access_served ho.linked hc
  · exact (access_apart ho.locks ho.linked ho.placed (Ne.symm hne) hg hc').1 rfl
  · obtain hg' | ⟨e', hw'⟩ := access_served ho.linked hc'
    · exact (access_apart ho.locks ho.linked ho.placed hne hg' hc).1 rfl
    · rw [hw] at hw'
      cases hw'
      exact hne rfl

theorem locked_step (ho : Orderly programs P) (hs : Protocol.Step programs lossy P P')
    {key : List UInt8} {sl : Slot} (ht : P.table key = some sl) (hm : sl.mrRdma.isSome) :
    P'.table key = some sl ∨ ∃ c mr, P.work = .releasing c mr ∧ (P.session c).grant = some (key, mr) := by
  have hnot : ¬ P.Free key := by
    intro hfree
    rw [hfree sl ht] at hm
    cases hm
  cases hs with
  | @store c e k v a b x _ _ _ _ hfree =>
    refine .inl ?_
    rw [← ht]
    refine Function.update_of_ne ?_ _ _
    rintro rfl
    exact hnot hfree
  | @finish c e r mr hw hx hq =>
    by_cases hk : key = r.key.chars
    · refine .inr ⟨c, mr, hw, ?_⟩
      rw [hx, Session.grant, hq, hk]
      rfl
    · refine .inl ?_
      rw [← ht]
      exact Function.update_of_ne hk _ _
  | @reply c e hw =>
    refine .inl ?_
    rw [← ht]
    refine record_other fun sl' hoffer => hnot (ho.locks.offer key sl' ?_)
    rw [hw]
    exact hoffer
  | ask | transmit | transmit_last | lose | close | take_value | take_set | take_get | write | read | fin
  | ret | leave | refuse | grant_set | not_found | value | grant_get | release | count | lose_reply =>
    exact .inl ht

theorem working_thread (h : Refines programs S P) (hw : P.work ≠ .free) :
    ∃ es d stop, S.thread = some (d, stop) ∧
      Serving S.mem es d stop (S.port d) (P.session d) P.work P.table := by
  obtain ⟨es, -, ⟨-, hfree, -⟩ | ⟨d, stop, ht, hserving⟩⟩ := h.serving
  · exact absurd hfree hw
  · exact ⟨es, d, stop, ht, hserving⟩

theorem releasing_thread (h : Refines programs S P) {mr : Mr} (hw : P.work = .releasing c mr) :
    ∃ op idx, S.thread = some (c, releasing c op idx mr next) := by
  obtain ⟨es, d, stop, ht, hserving⟩ := working_thread h (by simp [hw])
  rw [hw] at hserving
  generalize P.table = t at hserving
  generalize P.session d = x at hserving
  cases hserving with
  | releasing hstop =>
    rw [hstop] at ht
    exact ⟨_, _, ht⟩

theorem releasing_granted (h : Refines programs S P) (ho : Orderly programs P)
    {k : Int → ServerCode n LoopExit} (ht : S.thread = some (c, .waiting .ibvDeregMr k)) :
    ∃ op idx mr key, k = afterDereg c op idx mr next ∧
      stringAt (S.port c).receive.buf 0 = some key ∧ entry S.mem key = some (lock mr) ∧
      Granted S.history c (S.client c).index key mr := by
  obtain ⟨es, hv, hserving⟩ := serving_at h ht
  have hheld := fun key mr => ho.locks.held c key mr
  have hgranted := fun key mr => @granted_of_grant n programs P c ho key mr
  have htable := fun key => table_eq h (fun d k hd => by rw [ht] at hd; cases hd) key
  generalize P.table = t at hserving hheld htable
  generalize P.session c = x at hserving hheld hgranted
  generalize P.work = w at hserving
  cases hserving with
  | @releasing l r mr idx e hstop _ hpending hq _ hmsg =>
    cases hstop
    have hgrant : x.grant = some (r.key.chars, mr) := by
      rw [hpending, Session.grant, hq]
      rfl
    refine ⟨_, idx, mr, r.key.chars, rfl, ?_, ?_, ?_⟩
    · rw [hmsg, Letter.key_eq l (by simp [hq]), hq]
      rfl
    · rw [← htable]
      exact hheld _ _ hgrant
    · rw [h.history, h.index]
      exact hgranted _ _ hgrant
  | polling hstop | reading hstop | posting hstop | posted hstop | recording hstop | failing hstop
  | between hstop | returned hstop => cases hstop

theorem fin_granted (h : Refines programs S P) (ho : Orderly programs P)
    (ht : S.thread = some (c, .waiting .readMessage (dispatch c)))
    (hop : (S.port c).receive.operation = .clientKvSetRendezvousFin ∨
      (S.port c).receive.operation = .clientKvGetRendezvousFin) :
    ∃ key mr, stringAt (S.port c).receive.buf 0 = some key ∧ entry S.mem key = some (lock mr) ∧
      Granted S.history c (S.client c).index key mr := by
  obtain ⟨es, hv, hserving⟩ := serving_at h ht
  have hwaits := fun l => @waits_cases n programs S P c l h
  have hheld := fun key mr => ho.locks.held c key mr
  have hgranted := fun key mr => @granted_of_grant n programs P c ho key mr
  have htable := fun key => table_eq h (fun d k hd => by rw [ht] at hd; cases hd) key
  generalize P.table = t at hserving hheld htable
  generalize P.session c = x at hserving hheld hgranted hwaits
  generalize P.work = w at hserving
  cases hserving with
  | @reading l _ _ hwait _ hmsg =>
    rw [hmsg] at hop
    obtain ⟨r, mr, hq⟩ : ∃ r mr, l.query = .fin r mr := by
      obtain hop | hop := hop
      · obtain ⟨r, mr, hq, -⟩ := letter_fin (.inl ⟨hop, rfl⟩)
        exact ⟨r, mr, hq⟩
      · obtain ⟨r, mr, hq, -⟩ := letter_fin (.inr ⟨hop, rfl⟩)
        exact ⟨r, mr, hq⟩
    have hpending : x = .pending l := by
      obtain ⟨hx, -⟩ | ⟨-, hlast⟩ := hwaits l hwait
      · exact hx
      · rw [hq] at hlast
        cases hlast
    have hgrant : x.grant = some (r.key.chars, mr) := by
      rw [hpending, Session.grant, hq]
      rfl
    refine ⟨r.key.chars, mr, ?_, ?_, ?_⟩
    · rw [hmsg, Letter.key_eq l (by simp [hq]), hq]
      rfl
    · rw [← htable]
      exact hheld _ _ hgrant
    · rw [h.history, h.index]
      exact hgranted _ _ hgrant
  | polling hstop | posting hstop | posted hstop | recording hstop | failing hstop | releasing hstop
  | between hstop | returned hstop => cases hstop

def handling : Stop (ServerMemory n) Verb Verb.Answer LoopExit → Bool
  | .waiting (.pollNextReceiveWc _) _ => false
  | .waiting (.ibvPostSend _) _ | .waiting .pollNSendWc _ | .waiting .readMessage _
  | .waiting .ibvDeregMr _ => true
  | .done _ => false

def Between (S : World n) : Prop := ∀ t, S.thread = some t → handling t.2 = false

theorem Between.table (h : Refines programs S P) (hb : Between S) (key : List UInt8) :
    P.table key = entry S.mem key := by
  refine table_eq h (fun c k ht => ?_) key
  cases hb _ ht

theorem Between.idle (h : Refines programs S P) (hb : Between S) (e : Exchange) :
    P.work ≠ .answering c e := by
  intro hw
  obtain ⟨es, d, stop, ht, hserving⟩ := working_thread h (by simp [hw])
  rw [hw] at hserving
  generalize P.table = t at hserving
  generalize P.session d = x at hserving
  cases hserving with
  | posting hstop | posted hstop =>
    rw [hstop] at ht
    cases hb _ ht

/-- Between two handlers the open grants are the locked entries. -/
theorem locked_iff (h : Refines programs S P) (hr : Reliable programs P) (hb : Between S)
    {key : List UInt8} {sl : Slot} (he : entry S.mem key = some sl) :
    sl.mrRdma.isSome ↔ ∃ c j mr, Granted S.history c j key mr := by
  rw [← hb.table h] at he
  constructor
  · intro hm
    obtain ⟨c, mr, hg⟩ := hr.locks.owned key sl he hm
    refine ⟨c, P.index c, mr, ?_⟩
    rw [h.history]
    exact granted_of_grant hr.toOrderly hg
  · rintro ⟨c, j, mr, hg⟩
    rw [h.history] at hg
    obtain ⟨mr', haccess⟩ := access_of_granted hr.toOrderly hr.not_stranded hg
    have hgrant : (P.session c).grant = some (key, mr') := by
      obtain hg | ⟨e, hw⟩ := access_served hr.linked haccess
      · exact hg
      · exact absurd hw (hb.idle h e)
    have hheld := hr.locks.held c key mr' hgrant
    rw [he] at hheld
    obtain rfl := Option.some.inj hheld
    rfl

theorem granted_sole (h : Refines programs S P) (hr : Reliable programs P) {c' : Fin n} {j j' : Nat}
    {key : List UInt8} {mr mr' : Mr} (hg : Granted S.history c j key mr)
    (hg' : Granted S.history c' j' key mr') : c = c' := by
  rw [h.history] at hg hg'
  obtain ⟨_, haccess⟩ := access_of_granted hr.toOrderly hr.not_stranded hg
  obtain ⟨_, haccess'⟩ := access_of_granted hr.toOrderly hr.not_stranded hg'
  exact access_sole hr.toOrderly haccess haccess'

/-- For every key one client at a time has its entry locked: between two handlers the
locked entries are those with an open grant; no key has two; a locked entry changes
only when its client's FIN is processed, and only this client accesses the value; and a
FIN finds the entry and gives back the region that its sender was granted. -/
theorem one_owner (h : Reached programs S) :
    (Between S → ∀ key sl, entry S.mem key = some sl →
      (sl.mrRdma.isSome ↔ ∃! c, ∃ j mr, Granted S.history c j key mr) ∧
      (sl.mrRdma = none ↔ ∀ c j mr, ¬ Granted S.history c j key mr)) ∧
    (∀ c c' j j' key mr mr', Granted S.history c j key mr → Granted S.history c' j' key mr' → c = c') ∧
    (∀ l S' key sl, Succeeds l → Network.Step programs S l S' → entry S.mem key = some sl →
      sl.mrRdma.isSome → entry S'.mem key ≠ some sl →
      ∃ c op idx mr, S.thread = some (c, releasing c op idx mr next) ∧
        Granted S.history c (S.client c).index key mr) ∧
    (∀ c mr i S' key sl, Network.Step programs S (.copy c mr i) S' → entry S.mem key = some sl →
      sl.mrRdma.isSome → mr.addr = sl.address → Granted S.history c (S.client c).index key mr) ∧
    (∀ c, S.thread = some (c, .waiting .readMessage (dispatch c)) →
      (S.port c).receive.operation = .clientKvSetRendezvousFin ∨
        (S.port c).receive.operation = .clientKvGetRendezvousFin →
      ∃ key mr, stringAt (S.port c).receive.buf 0 = some key ∧ entry S.mem key = some (lock mr) ∧
        Granted S.history c (S.client c).index key mr) ∧
    ∀ c k, S.thread = some (c, .waiting .ibvDeregMr k) →
      ∃ op idx mr key, k = afterDereg c op idx mr next ∧
        stringAt (S.port c).receive.buf 0 = some key ∧ entry S.mem key = some (lock mr) ∧
        Granted S.history c (S.client c).index key mr := by
  obtain ⟨P, href, hr⟩ := followed_reliable h
  refine ⟨fun hb key sl he => ⟨?_, ?_⟩, fun c c' j j' key mr mr' => granted_sole href hr,
    fun l S' key sl hl hs he hm hne => ?_, fun c mr i S' key sl hs he hm haddr => ?_,
    fun c => fin_granted href hr.toOrderly, fun c k => releasing_granted href hr.toOrderly⟩
  · rw [locked_iff href hr hb he]
    constructor
    · rintro ⟨c, j, mr, hg⟩
      refine ⟨c, ⟨j, mr, hg⟩, ?_⟩
      rintro d ⟨j', mr', hg'⟩
      exact granted_sole href hr hg' hg
    · rintro ⟨c, hg, -⟩
      exact ⟨c, hg⟩
  · have hiff := (locked_iff href hr hb he).not
    rw [Option.not_isSome_iff_eq_none] at hiff
    rw [hiff]
    exact ⟨fun hno c j mr hg => hno ⟨c, j, mr, hg⟩, fun hno ⟨c, j, mr, hg⟩ => hno c j mr hg⟩
  · have hserver : ∃ d, l = .server d := by
      by_contra hno
      apply hne
      rw [entry_step href hs (fun d hd => hno ⟨d, hd⟩) key]
      exact he
    obtain ⟨d, rfl⟩ := hserver
    obtain ⟨P', href', -, hsame⟩ := hr.simulate href hl hs
    have hlocked := entry_locked href he hm
    rw [← server_table href hs href'] at hne
    obtain rfl | hstep := hsame
    · exact absurd hlocked hne
    · obtain hsame | ⟨c, mr, hw, hgrant⟩ := locked_step hr.toOrderly hstep hlocked hm
      · exact absurd hsame hne
      · obtain ⟨op, idx, ht⟩ := releasing_thread href hw
        refine ⟨c, op, idx, mr, ht, ?_⟩
        rw [href.history, href.index]
        exact granted_of_grant hr.toOrderly hgrant
  · obtain ⟨r, moved, hx⟩ := holding_of_copy href hr.locks hs
    have hgrant : (P.session c).grant = some (r.key.chars, mr) := by
      rw [hx]
      rfl
    have hkey : key = r.key.chars :=
      hr.placed.apart key r.key.chars sl (lock mr) (entry_locked href he hm) (hr.locks.held c _ _ hgrant)
        haddr.symm
    rw [href.history, href.index, hkey]
    exact granted_of_grant hr.toOrderly hgrant

def sharing : Fin 2 → List Request
  | 0 => [.kvSet letter long]
  | 1 => [.kvGet letter]

theorem between_of {S : World n} {t : Option Bool} (ht : S.thread.map (fun t => handling t.2) = t)
    (hne : t ≠ some true) : Between S := by
  intro u hu
  rw [hu, Option.map_some] at ht
  by_contra hh
  rw [Bool.not_eq_false] at hh
  rw [hh] at ht
  exact hne ht.symm

theorem one_owner_granted :
    ∃ S, Reached sharing S ∧ ∃ sl, entry S.mem [97] = some sl ∧ sl.mrRdma.isSome ∧
      ∃! c, ∃ j mr, Granted S.history c j [97] mr := by
  have hrun : ((run (step sharing) pair (asking 0 ++ asking 1)).map (fun S =>
      ((entry S.mem [97]).map (fun sl => sl.mrRdma.isSome), S.thread.map (fun t => handling t.2)))) =
        some (some true, some false) := by
    decide +kernel
  obtain ⟨S, hS, hfields⟩ := Option.map_eq_some_iff.mp hrun
  obtain ⟨hentry, hthread⟩ := Prod.mk.inj hfields
  obtain ⟨sl, hsl, hlocked⟩ := Option.map_eq_some_iff.mp hentry
  have hreached : Reached sharing S :=
    Reach.run (.start pair_start) (by simp [asking, handing, Succeeds]) hS
  refine ⟨S, hreached, sl, hsl, hlocked, ?_⟩
  exact (((one_owner hreached).1 (between_of hthread (by decide)) [97] sl hsl).1).mp hlocked

/-- The outcomes under which no key is left locked: the client's releases succeed, unless
the server refused the call; the server's releases and the transfers succeed; a client's
message arrives, or it is lost and no FIN; a grant does not arrive at the client while its
completion fails at the server. -/
def Tolerable (S : World n) : Label n → Prop
  | .client c dereg => Refused c S.history ∨ dereg = 0
  | .server dereg => dereg = 0
  | .send .client c fate => fate = .ok ∨ (fate = .lost ∧
      (S.client c).mem.send.operation ≠ .clientKvSetRendezvousFin ∧
      (S.client c).mem.send.operation ≠ .clientKvGetRendezvousFin)
  | .send .server c fate => fate = .late →
      (S.mem.send c).operation ≠ .serverKvSetRendezvous ∧
      (S.mem.send c).operation ≠ .serverKvGetRendezvous
  | .complete _ ok => ok = true
  | .call _ | .ret _ | .next | .deliver _ _ | .copy _ _ _ => True

def Underway (S : World n) (c : Fin n) : Prop :=
  .send ∈ (S.client c).port.sendQueue ∨ (S.port c).inbound ≠ [] ∨ (S.port c).receiveCq ≠ []

/-- Between two handlers every locked entry is locked for a call that was granted it and
has had no other answer since, and that has not returned or still has messages underway. -/
def Held (S : World n) : Prop :=
  Between S → ∀ key sl, entry S.mem key = some sl → sl.mrRdma.isSome →
    ∃ c j mr, Granted S.history c j key mr ∧
      ((∀ result value, Event.returned c j result value ∉ S.history) ∨ Underway S c)

/-- A step that answers a client with success leaves the client's key unlocked. -/
def Unlocks (S S' : World n) : Prop :=
  ∀ c request reply key, S'.history = .answered c request reply :: S.history →
    reply.operation = .serverKvSetSuccessful ∨ reply.operation = .serverKvGetSuccessful →
    stringAt request.buf 0 = some key → ∀ sl, entry S'.mem key = some sl → sl.mrRdma = none

theorem message_of_going (h : Refines programs S P) {l : Letter} (hx : P.session c = .going l) :
    (S.client c).mem.send = l.message := by
  have hseat := h.seat c
  rw [hx] at hseat
  cases hseat with
  | posting _ _ _ _ hm | posted _ _ _ _ hm => exact hm
  | parting hx | parted hx | left hx => obtain hx | ⟨l, hx, -⟩ := hx <;> cases hx

theorem message_of_answering (h : Refines programs S P) {e : Exchange} (hw : P.work = .answering c e) :
    S.mem.send c = e.message := by
  obtain ⟨es, d, stop, -, hserving⟩ := working_thread h (by simp [hw])
  rw [hw] at hserving
  generalize P.table = t at hserving
  generalize P.session d = x at hserving
  cases hserving with
  | posting _ _ hm | posted _ _ hm => exact hm

theorem admits_of_tolerable (h : Refines programs S P) (ho : Orderly programs P) {l : Label n}
    (hl : Tolerable S l) : Admits True P l := by
  cases l with
  | client c dereg =>
    rintro ⟨r, mr, hq⟩
    apply hl.resolve_left
    rw [h.history]
    exact ho.told.not_refused hq
  | send side c fate =>
    cases side with
    | client =>
      refine hl.imp id fun ⟨hlost, hset, hget⟩ => ⟨hlost, trivial, fun l hx => ?_⟩
      rw [message_of_going h hx, l.carries.1] at hset hget
      cases hq : l.query with
      | request r | shutDown => rfl
      | fin r mr =>
        rw [hq] at hset hget
        cases r with
        | kvSet key value => exact absurd rfl hset
        | kvGet key => exact absurd rfl hget
    | server =>
      refine .inr ⟨trivial, fun hlate e hx => ?_⟩
      obtain ⟨hset, hget⟩ := hl hlate
      rw [message_of_answering h (ho.linked.served c e hx), e.carries.1] at hset hget
      cases hr : e.reply with
      | setRendezvous mr =>
        rw [hr] at hset
        exact absurd rfl hset
      | getRendezvous mr =>
        rw [hr] at hget
        exact absurd rfl hget
      | inProgress | setSuccessful | getSuccessful | keyNotFound | value v => rfl
  | server dereg | complete c ok => exact hl
  | call c | ret c | next | deliver side c | copy c mr i => trivial

def Past (P : State n) : Prop :=
  ∀ c j result value, Event.returned c j result value ∈ P.history → j < P.index c

theorem Past.step (h : Past P) (hs : Protocol.Step programs lossy P P') : Past P' := by
  have hreturn : ∀ c result value (d : Fin n) (j : Nat) (r : Int) (v : Option (List UInt8)),
      Event.returned d j r v ∈ .returned c (P.index c) result value :: P.history →
        j < update P.index c (P.index c + 1) d := by
    intro c result value d j r v hm
    by_cases hd : d = c
    · subst hd
      rw [Function.update_self]
      obtain heq | hm := List.mem_cons.mp hm
      · cases heq
        exact Nat.lt_succ_self _
      · exact Nat.lt_succ_of_lt (h d j r v hm)
    · rw [Function.update_of_ne hd]
      obtain heq | hm := List.mem_cons.mp hm
      · cases heq
        exact absurd rfl hd
      · exact h d j r v hm
  cases hs with
  | ret hs => exact fun d j r v => hreturn _ _ _ d j r v
  | leave hs => exact fun d j r v => hreturn _ _ _ d j r v
  | transmit | transmit_last | lose | write | read | release | count | reply | lose_reply => exact h
  | ask | close | take_value | take_set | take_get | fin | refuse | store | grant_set | not_found | value
  | grant_get | finish =>
    intro d j r v hm
    obtain heq | hm := List.mem_cons.mp hm
    · cases heq
    · exact h d j r v hm

theorem success_unlocks (hs : Protocol.Step programs lossy P P') {request reply : ControlMessage}
    {key : List UInt8} (hh : P'.history = .answered c request reply :: P.history)
    (hop : reply.operation = .serverKvSetSuccessful ∨ reply.operation = .serverKvGetSuccessful)
    (hkey : stringAt request.buf 0 = some key) {sl : Slot} (ht : P'.table key = some sl) :
    sl.mrRdma = none := by
  have hreply : ∀ (d : Fin n) (e : Exchange), Event.answered d e.letter.message e.message =
      .answered c request reply → e.reply.operation = .serverKvSetSuccessful ∨
        e.reply.operation = .serverKvGetSuccessful := by
    intro d e heq
    cases heq
    rw [← e.carries.1]
    exact hop
  have hletter : ∀ (d : Fin n) (e : Exchange), Event.answered d e.letter.message e.message =
      .answered c request reply → key = e.letter.query.key := by
    intro d e heq
    cases heq
    rw [Letter.key_eq e.letter (ClientSteps.not_shutDown e)] at hkey
    exact (Option.some.inj hkey).symm
  have hself : ∀ H : List (Event n), H ≠ .answered c request reply :: H := fun H heq =>
    absurd (congrArg List.length heq) (by simp)
  cases hs with
  | ask | close | take_value | take_set | take_get | fin | ret | leave => cases (List.cons.inj hh).1
  | transmit | transmit_last | lose | write | read | release | count | reply | lose_reply =>
    exact absurd hh (hself _)
  | @store d e k v a b x hw hx hq =>
    have hk := hletter d e (List.cons.inj hh).1
    rw [hq] at hk
    subst hk
    cases (Function.update_self _ _ _).symm.trans ht
    rfl
  | @finish d e r mr hw hx hq =>
    have hk := hletter d e (List.cons.inj hh).1
    rw [hq] at hk
    subst hk
    cases (Function.update_self _ _ _).symm.trans ht
    rfl
  | @refuse d e r sl' hw hx hq hr | @grant_set d e k v mr a x y hw hx hq hr | @not_found d e k hw hx hq hr
  | @value d e k v sl' rest hw hx hq hr | @grant_get d e k mr sl' hw hx hq hr =>
    have hop := hreply d e (List.cons.inj hh).1
    rw [hr] at hop
    obtain hop | hop := hop <;> cases hop

/-- In a run of tolerable outcomes no key stays locked for a call that is over. -/
theorem keys_released (h : Reach Network.Start (Network.Step programs) Tolerable S) :
    Held S ∧ ∀ l S', Tolerable S l → Network.Step programs S l S' → Unlocks S S' := by
  obtain ⟨P, href, ho, hpast⟩ := followed
    (fun _ _ _ href ho hl => admits_of_tolerable href ho hl)
    (fun P hP c j r v hm => by rw [hP.history] at hm; cases hm)
      (fun P P' _ hpast hs => Past.step hpast hs) h
  refine ⟨fun hb key sl he hm => ?_, fun l S' hl hs c request reply key hh hop hkey sl he => ?_⟩
  · obtain ⟨c, mr, hg⟩ := ho.locks.owned key sl (entry_locked href he hm) hm
    refine ⟨c, P.index c, mr, ?_, .inl fun result value hr => ?_⟩
    · rw [href.history]
      exact granted_of_grant ho hg
    · rw [href.history] at hr
      exact Nat.lt_irrefl _ (hpast c _ result value hr)
  · obtain ⟨P', href', hsame⟩ :=
      simulate href ho.linked ho.locks (admits_of_tolerable href ho hl) hs
    by_contra hm
    have ht := entry_locked href' he (Option.ne_none_iff_isSome.mp hm)
    rw [href'.history, href.history] at hh
    obtain rfl | hstep := hsame
    · exact absurd (congrArg List.length hh) (by simp)
    · exact hm (success_unlocks hstep hh hop hkey ht)

theorem keys_released_granted :
    ∃ S, Reach Network.Start (Network.Step (fun _ : Fin 1 => [.kvSet letter long])) Tolerable S ∧
      (∃ sl, entry S.mem [97] = some sl ∧ sl.mrRdma.isSome) ∧ Held S ∧
      ∀ l S', Tolerable S l → Network.Step (fun _ : Fin 1 => [.kvSet letter long]) S l S' →
        Unlocks S S' := by
  have hrun : (run (step (fun _ : Fin 1 => [.kvSet letter long])) alone (asking sole)).map (fun S =>
      (entry S.mem [97]).map (fun sl => sl.mrRdma.isSome)) = some (some true) := by
    decide +kernel
  obtain ⟨S, hS, hentry⟩ := Option.map_eq_some_iff.mp hrun
  have hreached := @Reach.run _ _ _ Tolerable _ (asking sole) _ _ (.start alone_start)
    (by simp [asking, handing, Tolerable]) hS
  exact ⟨S, hreached, Option.map_eq_some_iff.mp hentry, keys_released hreached⟩

/-- The server grants a region, the RDMA write of the client fails, and `kv_set` returns
without a FIN. The entry stays locked for a call that is over. -/
theorem key_stuck :
    ¬ ∀ S, Reach Network.Start (Network.Step (fun _ : Fin 1 => [.kvSet letter long]))
      (fun _ _ => True) S → Held S := by
  intro hall
  have hrun : (run (step (fun _ : Fin 1 => [.kvSet letter long])) alone
      (asking sole ++ [.client 0 0, .complete 0 false, .client 0 0, .ret 0])).map (fun S =>
        decide ((entry S.mem [97]).map (fun sl => sl.mrRdma.isSome) = some true ∧
          S.thread.map (fun t => handling t.2) = some false ∧
          S.history.head? = some (.returned 0 0 1 none) ∧
          (lastAnswer 0 S.history).map Prod.fst = some (some 0) ∧
          (S.client 0).port.sendQueue = [] ∧ (S.port 0).inbound = [] ∧ (S.port 0).receiveCq = [])) =
      some true := by
    decide +kernel
  obtain ⟨S, hS, hfields⟩ := Option.map_eq_some_iff.mp hrun
  obtain ⟨hentry, hthread, hhead, hlast, hsend, hinbound, hcq⟩ := of_decide_eq_true hfields
  obtain ⟨sl, hsl, hlocked⟩ := Option.map_eq_some_iff.mp hentry
  have hreached := @Reach.run _ _ _ (fun _ _ => True) _ _ _ _ (.start alone_start)
    (fun _ _ _ => trivial) hS
  obtain ⟨c, j, mr, ⟨request, reply, hanswer, -⟩, hopen⟩ :=
    hall S hreached (between_of hthread (by decide)) [97] sl hsl hlocked
  obtain rfl : c = 0 := Subsingleton.elim c 0
  rw [hanswer] at hlast
  cases hlast
  obtain hno | hsq | hin | hr := hopen
  · exact hno 1 none (List.mem_of_mem_head? hhead)
  · rw [hsend] at hsq
    cases hsq
  · exact hin hinbound
  · exact hr hcq

end NetworkOptimization.Locking
