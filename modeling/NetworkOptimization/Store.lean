import NetworkOptimization.Correspondence

namespace NetworkOptimization.Store

open Words Memory ControlMessages DynamicArray Verbs SequentialCode Calls Server Handlers Tables
open Runs
open Network Protocol Histories Exclusion Records Values Seats Refinement Transfers ServerSteps
open Correspondence
open Function (update)

variable {n : Nat} {programs : Fin n → List Request} {lossy : Prop} {S S' : World n} {P P' : State n}
  {c : Fin n} {key : List UInt8}

/-- A `kv_get` that returned 0 has the value that was committed last when it was handled. -/
def Gets (programs : Fin n → List Request) (H : List (Event n)) : Prop :=
  ∀ c j value key, Event.returned c j 0 value ∈ H → callAt programs c j = some (.kvGet key) →
    ∃ v : CString, value = some v.chars ∧ Promised programs H c j key.chars v

/-- A key that was not found had no set accepted before. -/
def Misses (programs : Fin n → List Request) (H : List (Event n)) : Prop :=
  ∀ later c request reply earlier key, H = later ++ .answered c request reply :: earlier →
    reply.operation = .serverKvGetKeyNotFound → stringAt request.buf 0 = some key →
    ¬ Accepted programs key earlier

theorem Gets.push {H : List (Event n)} (h : Gets programs H) (e : Event n)
    (he : ∀ c j value key, e = .returned c j 0 value → callAt programs c j = some (.kvGet key) →
      ∃ v : CString, value = some v.chars ∧ Promised programs (e :: H) c j key.chars v) :
    Gets programs (e :: H) := by
  intro c j value key hm hcall
  obtain heq | hm := List.mem_cons.mp hm
  · exact he c j value key heq.symm hcall
  · obtain ⟨v, hv, hp⟩ := h c j value key hm hcall
    exact ⟨v, hv, hp.later e⟩

theorem Misses.push {H : List (Event n)} (h : Misses programs H) (e : Event n)
    (he : ∀ c request reply key, e = .answered c request reply →
      reply.operation = .serverKvGetKeyNotFound → stringAt request.buf 0 = some key →
      ¬ Accepted programs key H) : Misses programs (e :: H) := by
  intro later c request reply earlier key heq hop hkey
  cases later with
  | nil =>
    obtain ⟨rfl, rfl⟩ := List.cons.inj heq
    exact he c request reply key rfl hop hkey
  | cons e' later =>
    obtain ⟨-, heq⟩ := List.cons.inj heq
    exact h later c request reply earlier key heq hop hkey

/-- What a run of the protocol keeps when no message is lost and every value fits its transfer. -/
structure Exact (programs : Fin n → List Request) (P : State n) : Prop extends
    Reliable programs P where
  values : Consistent programs P
  gets : Gets programs P.history
  misses : Misses programs P.history

theorem Gets.step (h : Gets programs P.history) (hcur : Current programs P)
    (hval : Consistent programs P) (hs : Protocol.Step programs False P P') :
    Gets programs P'.history := by
  cases hs with
  | transmit | transmit_last | lose | write | read | release | count | reply | lose_reply => exact h
  | ask | close | take_value | take_set | take_get | fin | refuse | store | grant_set | not_found | value
  | grant_get | finish => exact h.push _ (fun c j value key heq => by cases heq)
  | @ret c call success result hx hresult =>
    refine h.push _ fun d j value key heq hcall => ?_
    cases heq
    obtain ⟨hcall', -⟩ := hcur c call (by rw [hx]; rfl)
    rw [hcall] at hcall'
    cases hcall'
    obtain rfl : success = true := hresult.mp rfl
    have hc := hval.session c
    rw [hx] at hc
    obtain ⟨v, hv, hp⟩ := hc
    refine ⟨v, ?_, hp.later _⟩
    rw [hv, Option.bind_some]
    have hbytes := v.cstring_bytes []
    rwa [List.append_nil] at hbytes
  | leave hx hlast =>
    refine h.push _ fun d j value key heq hcall => ?_
    cases heq
    rw [hlast] at hcall
    cases hcall

theorem Misses.step (h : Misses programs P.history) (hkept : Kept programs P)
    (hs : Protocol.Step programs False P P') : Misses programs P'.history := by
  have hother : ∀ (c : Fin n) (e : Exchange), e.reply ≠ .keyNotFound →
      Misses programs (.answered c e.letter.message e.message :: P.history) := by
    intro c e hx
    refine h.push _ fun d request reply key heq hop => ?_
    cases heq
    rw [e.carries.1] at hop
    cases hr : e.reply with
    | keyNotFound => exact absurd hr hx
    | inProgress | setSuccessful | getSuccessful | value v | setRendezvous mr | getRendezvous mr =>
      rw [hr] at hop
      cases hop
  cases hs with
  | transmit | transmit_last | lose | write | read | release | count | reply | lose_reply => exact h
  | ask | close | take_value | take_set | take_get | fin | ret | leave =>
    exact h.push _ (fun c request reply key heq => by cases heq)
  | refuse _ _ _ hx | store _ _ _ hx | grant_set _ _ _ hx | value _ _ _ hx | grant_get _ _ _ hx =>
    exact hother _ _ (by simp [hx])
  | @finish c e r mr hw hs hq =>
    refine hother _ _ fun hx => ?_
    have hp := e.proper
    rw [hq, hx] at hp
    cases hp
  | @not_found c e k hw hs hq hx hsl =>
    refine h.push _ fun d request reply key heq _ hkey ha => ?_
    cases heq
    rw [Letter.key_eq e.letter (ClientSteps.not_shutDown e), hq] at hkey
    obtain rfl := Option.some.inj hkey
    obtain ht | ⟨sl, ho⟩ := hkept _ ha
    · exact ht hsl
    · rw [hw] at ho
      cases ho

theorem exact_start (h : Protocol.Start P) : Exact programs P := by
  refine ⟨reliable_start h, ⟨fun key sl hsl => ?_, fun c => ?_⟩, fun c j value key hm => ?_,
    fun later c request reply earlier key heq => ?_⟩
  · rw [h.table] at hsl
    cases hsl
  · rw [h.session]
    trivial
  · rw [h.history] at hm
    cases hm
  · rw [h.history] at heq
    simp at heq

theorem Exact.step (h : Exact programs P) (hcov : Covered programs)
    (hs : Protocol.Step programs False P P') : Exact programs P' where
  toReliable := h.toReliable.step hs
  values := h.values.step hcov h.current h.locks h.linked h.placed hs
  gets := h.gets.step h.current h.values hs
  misses := h.misses.step h.kept hs

/-- Every entry that is not in progress holds the value that was committed last for its key. -/
def Intact (programs : Fin n → List Request) (S : World n) : Prop :=
  ∀ key sl, entry S.mem key = some sl → sl.mrRdma = none →
    ∃ v : CString, S.mem.heap.blocks sl.address = some v.bytes ∧ sl.size = v.size ∧
      committed programs key S.history = some v

theorem committed_append {key : List UInt8} {events H : List (Event n)}
    (h : ∀ e ∈ events, ∀ c request reply, e ≠ .answered c request reply) :
    committed programs key (events ++ H) = committed programs key H := by
  induction events with
  | nil => rfl
  | cons e events ih =>
    have hrest := ih fun e' he' => h e' (List.mem_cons_of_mem e he')
    cases e with
    | answered c request reply => exact absurd rfl (h _ (List.mem_cons_self ..) c request reply)
    | asked c j request | took c j reply | returned c j result value => exact hrest

section Entries

variable {m : ServerMemory n} {es : List KeyValueAddressPair} {k key : List UInt8} {mr : Mr} {sl : Slot}

theorem slots_apart (hv : Valid m es) (hk : slots m.heap es k = some (lock mr))
    (hs : slots m.heap es key = some sl) (hu : sl.mrRdma = none) : mr.addr ≠ sl.address := by
  intro haddr
  obtain ⟨i, e, -, he, hslot, -⟩ := find_of_slots hk
  obtain ⟨i', e', -, he', hslot', -⟩ := find_of_slots hs
  have hsame : e = e' := by
    refine hv.sound.same_value (List.mem_of_getElem? he) (List.mem_of_getElem? he') ?_
    have h₁ : e.valueAddress = mr.addr := congrArg Slot.address hslot
    have h₂ : e'.valueAddress = sl.address := congrArg Slot.address hslot'
    rw [h₁, h₂, haddr]
  subst hsame
  rw [← hslot', hslot] at hu
  cases hu

theorem slots_refs (hs : slots m.heap es key = some sl) : sl.address ∈ refs es := by
  obtain ⟨i, e, -, he, hslot, -⟩ := find_of_slots hs
  rw [← hslot]
  exact mem_refs.mpr (.inr ⟨e, List.mem_of_getElem? he, rfl⟩)

theorem serving_apart {stop : Stop (ServerMemory n) Verb Verb.Answer LoopExit} {p : Port} {x : Session}
    {w : Work n} {t : List UInt8 → Option Slot} (h : Serving m es c stop p x w t) (hv : Valid m es)
    (ht : t k = some (lock mr)) (haccess : mr.access = .remoteWrite)
    (hs : slots m.heap es key = some sl) (hu : sl.mrRdma = none) : mr.addr ≠ sl.address := by
  cases h with
  | polling | reading | posting | posted | failing | releasing | between | returned =>
    exact slots_apart hv ht hs hu
  | @recording rec pending hstop ho hready hold =>
    cases hready with
    | nothing => exact slots_apart hv ht hs hu
    | @insert e k' hf =>
      by_cases hk : k = k'
      · subst hk
        have hslot := (Function.update_self k _ (slots m.heap es)).symm.trans ht
        have haddr : e.valueAddress = mr.addr := congrArg Slot.address (Option.some.inj hslot)
        rw [← haddr]
        rintro heq
        exact hf.valueRef (heq ▸ slots_refs hs)
      · exact slots_apart hv ((Function.update_of_ne hk _ _).symm.trans ht) hs hu
    | @mark idx e k' info he hcstr hrec hread =>
      by_cases hk : k = k'
      · subst hk
        have hslot := (Function.update_self k _ (slots m.heap es)).symm.trans ht
        have hinfo : some info = some ⟨mr, mr.addr, mr.length⟩ :=
          congrArg Slot.mrRdma (Option.some.inj hslot)
        cases hinfo
        rw [haccess] at hread
        cases hread
      · exact slots_apart hv ((Function.update_of_ne hk _ _).symm.trans ht) hs hu

end Entries

theorem write_apart (h : Refines programs S P) {k key : List UInt8} {mr : Mr} {sl : Slot}
    (ht : P.table k = some (lock mr)) (haccess : mr.access = .remoteWrite)
    (hs : entry S.mem key = some sl) (hu : sl.mrRdma = none) : mr.addr ≠ sl.address := by
  obtain ⟨es, hv, ⟨-, -, htable⟩ | ⟨d, stop, -, hserving⟩⟩ := h.serving
  · rw [htable] at ht
    exact slots_apart hv ht (entry_eq hv key ▸ hs) hu
  · exact serving_apart hserving hv ht haccess (entry_eq hv key ▸ hs) hu

theorem Intact.beside (h : Intact programs S) (href : Refines programs S P) (hlocks : Locks P)
    (hb : Beside S S') : Intact programs S' := by
  obtain ⟨es, hv⟩ := valid_at href
  obtain ⟨events, hh, hno⟩ := hb.history
  intro key sl he hu
  rw [entry_rewritten hv hb.mem] at he
  obtain ⟨v, hblock, hsize, hcommitted⟩ := h key sl he hu
  refine ⟨v, ?_, hsize, ?_⟩
  · cases hb.mem with
    | same hm =>
      rw [hm]
      exact hblock
    | @bytes c wr wrs mr i block block' hq hpermits haccess _ _ hm =>
      obtain ⟨r, rest, moved, hx, -⟩ := holding_of_permits href hlocks hq hpermits
      have hheld := hlocks.held c r.key.chars mr (by rw [hx]; rfl)
      have hapart := (write_apart href hheld haccess he hu).symm
      rw [hm]
      exact (write_other hapart _ _).trans hblock
  · rw [hh, committed_append hno]
    exact hcommitted

theorem intact_server (h : Refines programs S P) {d : Int} (hs : stepServer S d = some S')
    (h' : Refines programs S' P') (hval : Consistent programs P') : Intact programs S' := by
  intro key sl he hu
  rw [← server_table h hs h'] at he
  obtain ⟨v, hblock, hsize, -, hcommitted⟩ := hval.entry key sl he hu
  exact ⟨v, h'.cells ▸ hblock, hsize, h'.history ▸ hcommitted⟩

theorem intact_start (h : Network.Start S) : Intact programs S := by
  obtain ⟨place, junk, rkeys, records, reallocs, send, hmem⟩ := h.mem
  intro key sl he
  rw [hmem, entry_eq (Resources.valid_start place junk rkeys records reallocs send)] at he
  cases he

theorem Exact.simulate (h : Exact programs P) (hcov : Covered programs) (href : Refines programs S P)
    {l : Label n} (hl : Succeeds l) (hs : Network.Step programs S l S') :
    ∃ P', Refines programs S' P' ∧ Exact programs P' := by
  obtain ⟨P', href', hrel, rfl | hstep⟩ := h.toReliable.simulate href hl hs
  · exact ⟨P', href', h⟩
  · exact ⟨P', href', h.step hcov hstep⟩

theorem Intact.step (h : Intact programs S) (href : Refines programs S P) (hlocks : Locks P)
    (href' : Refines programs S' P') (hval : Consistent programs P') {l : Label n}
    (hs : Network.Step programs S l S') : Intact programs S' := by
  cases l with
  | server d => exact intact_server href hs href' hval
  | call | client | ret | next | send | deliver | copy | complete =>
    exact h.beside href hlocks (beside_step hs (fun d => by simp))

/-- Every world that a successful run reaches has the values that the answers promised. -/
theorem followed_exact (hcov : Covered programs) (h : Reached programs S) :
    ∃ P, Refines programs S P ∧ Exact programs P ∧ Intact programs S := by
  refine h.invariant (P := fun S => ∃ P, Refines programs S P ∧ Exact programs P ∧ Intact programs S)
    (fun S hS => ?_) ?_
  · obtain ⟨P, hP, href⟩ := @refines_start n programs S hS
    exact ⟨P, href, exact_start hP, intact_start hS⟩
  · rintro S l S' ⟨P, href, hP, hin⟩ hl hs
    obtain ⟨P', href', hP'⟩ := hP.simulate hcov href hl hs
    exact ⟨P', href', hP', hin.step href hP.locks href' hP'.values hs⟩

@[simp] theorem send_setSend (s : ServerMemory n) (c : Fin n) (m : ControlMessage) :
    (s.setSend c m).send c = m := Function.update_self ..

theorem answered_sends {d : Fin n} {m : ServerMemory n} {p : Port}
    {stop : Stop (ServerMemory n) Verb Verb.Answer LoopExit} {request reply : ControlMessage}
    {H : List (Event n)} (h : (if sends stop then [Event.answered d p.receive (m.send d)] else []) ++ H =
      .answered c request reply :: H) :
    sends stop = true ∧ c = d ∧ request = p.receive ∧ reply = m.send d := by
  cases hsends : sends stop with
  | false =>
    rw [hsends] at h
    exact absurd h.symm (List.cons_ne_self _ _)
  | true =>
    rw [hsends] at h
    obtain ⟨heq, -⟩ := List.cons.inj h
    cases heq
    exact ⟨rfl, rfl, rfl, rfl⟩

/-- What the server does when it has an answer: a request for a key ends in one of its
ways, or a transfer is over. -/
theorem answered_step (h : Refines programs S P) (hs : stepServer S 0 = some S')
    {request reply : ControlMessage} (hh : S'.history = .answered c request reply :: S.history) :
    ∃ es, Valid S.mem es ∧
      ((∃ rec, Served c request S.mem es S'.mem rec ∧ S'.thread = some (c, posting rec next) ∧
          S'.mem.send c = reply) ∨
        reply.operation = .serverKvSetSuccessful ∨ reply.operation = .serverKvGetSuccessful) := by
  obtain ⟨d, verb, k, a, p, m, stop, ht, ha, hm, rfl⟩ := stepServer_eq_some hs
  obtain ⟨es, hv, hserving⟩ := serving_at h ht
  refine ⟨es, hv, ?_⟩
  obtain ⟨hsends, rfl, rfl, rfl⟩ := answered_sends hh
  generalize hstop : (Stop.waiting verb k : Stop (ServerMemory n) Verb Verb.Answer LoopExit) = stop₀
    at hserving ht
  generalize P.session c = x at hserving
  generalize P.work = w at hserving
  generalize P.table = t at hserving
  cases hserving with
  | polling ht' ho =>
    rw [ht'] at hstop
    cases hstop
    by_cases hr : a = (0 : Int)
    · rw [hr] at hm
      cases hm
      cases hsends
    · rw [afterTake, if_neg hr] at hm
      cases hm
      cases hsends
  | reading ht' ho hwait hi hmsg =>
    rw [ht'] at hstop
    cases hstop
    cases ha
    cases dispatch_eq_some hv.wellFormed hm with
    | served hserved =>
      exact .inl ⟨_, hserved, rfl, rfl⟩
    | @unlocked key idx e successful r hop hkey hf he hfree hr =>
      obtain ⟨-, rfl⟩ | ⟨-, rfl⟩ := hop
      · exact .inr (.inl (by rw [send_setSend]; exact hr.1))
      · exact .inr (.inr (by rw [send_setSend]; exact hr.1))
    | release | shut_down | last_shut_down | ignored => cases hsends
  | posting ht' ho =>
    rw [ht'] at hstop
    cases hstop
    rw [settle_afterPost] at hm
    cases hm
    cases hsends
  | posted ht' ho =>
    rw [ht'] at hstop
    cases hstop
    exact absurd ha (answer_poll_none ho)
  | @recording rec pending ht' ho hready =>
    rw [ht'] at hstop
    cases hstop
    obtain ⟨rfl, hout, hsame⟩ := answer_poll ho ha
    obtain ⟨database, hsettle, -⟩ := hready.settle hv (next (n := n))
    have hcode : settle (afterConfirm rec.code (sendResult ⟨.success, .send⟩) >>= next) S.mem =
        settle (rec.code >>= next) S.mem := rfl
    rw [hcode] at hm
    cases hsettle _ hm
    cases hsends
  | @failing rec ht' ho =>
    rw [ht'] at hstop
    cases hstop
    obtain ⟨rfl, hout, hsame⟩ := answer_poll ho ha
    rw [settle_afterConfirm_failed rec.code (by decide)] at hm
    cases hm
    cases hsends
  | @releasing l r mr idx e ht' ho hx hq hi hmsg he hk hslot =>
    rw [ht'] at hstop
    cases hstop
    cases ha
    have hfields : (closed r).operation.fields = [] := by
      cases r <;> rfl
    obtain ⟨msg, hr, rfl, rfl⟩ := afterDereg_zero hfields hv.wellFormed he hm
    have hop : msg.operation = (closed r).operation := hr.1
    refine .inr ?_
    rw [send_setSend, hop]
    cases r with
    | kvSet key value => exact .inl rfl
    | kvGet key => exact .inr rfl
  | between ht' | returned ht' =>
    rw [ht'] at hstop
    cases hstop

theorem refusal (h : Refines programs S P) (hs : stepServer S 0 = some S')
    {request reply : ControlMessage} (hh : S'.history = .answered c request reply :: S.history)
    (hop : reply.operation = .serverInProgress) :
    S'.mem = S.mem.setSend c reply ∧ S'.thread = some (c, posting .nothing next) := by
  obtain ⟨es, hv, ⟨rec, hserved, ht, rfl⟩ | hsuccess | hsuccess⟩ := answered_step h hs hh
  · generalize hm : S'.mem = m at hserved hop
    cases hserved with
    | refused =>
      rw [send_setSend]
      exact ⟨rfl, ht⟩
    | stored _ _ _ _ _ _ _ _ hr | granted_set _ _ _ _ _ _ _ hr | not_found _ _ _ hr
    | granted_get _ _ _ _ _ _ _ hr =>
      rw [send_setSend, hr.1] at hop
      cases hop
    | value _ _ _ he _ hsmall hblock hr =>
      obtain ⟨v, rest, -, hcarries⟩ := carries_value (value_fits hv he hsmall hblock) hr
      rw [send_setSend, hcarries.1] at hop
      cases hop
  · rw [hsuccess] at hop
    cases hop
  · rw [hsuccess] at hop
    cases hop

def Untouched (P : State n) (key : List UInt8) : Prop :=
  ∀ c r, (P.session c).call = some (Request.call r) → r.key.chars ≠ key

theorem query_call {q : Query} (h : q ≠ .shutDown) :
    ∃ r : Request, q.call = r.call ∧ q.key = r.key.chars := by
  cases q with
  | request r | fin r mr => exact ⟨r, rfl, rfl⟩
  | shutDown => exact absurd rfl h

theorem Untouched.query (h : Untouched P key) {x : Session} (hx : P.session c = x) {q : Query}
    (hcall : x.call = some q.call) (hq : q ≠ .shutDown) : q.key ≠ key := by
  obtain ⟨r, hr, hk⟩ := query_call hq
  rw [hk]
  exact h c r (by rw [hx, hcall, hr])

theorem Untouched.grant (h : Untouched P key) {mr : Mr} : (P.session c).grant ≠ some (key, mr) := by
  intro hg
  have hletter : ∀ l : Letter, l.query.region.map (fun mr => (l.query.key, mr)) = some (key, mr) →
      l.query ≠ .shutDown ∧ l.query.key = key := by
    intro l hl
    obtain ⟨mr', hr, heq⟩ := Option.map_eq_some_iff.mp hl
    cases heq
    refine ⟨fun hq => ?_, rfl⟩
    rw [hq] at hr
    cases hr
  cases hx : P.session c with
  | going l | pending l =>
    rw [hx] at hg
    obtain ⟨hq, hk⟩ := hletter l hg
    exact h.query hx rfl hq hk
  | replied e =>
    rw [hx] at hg
    obtain ⟨mr', -, heq⟩ := Option.map_eq_some_iff.mp hg
    exact h.query hx rfl (ClientSteps.not_shutDown e) (congrArg Prod.fst heq)
  | holding r mr' moved =>
    rw [hx] at hg
    cases hg
    exact h c r (by rw [hx]; rfl) rfl
  | idle | served e | finished call success | stranded l | leaving l | gone =>
    rw [hx] at hg
    cases hg

theorem Untouched.step (h : Untouched P key) (hcur : Current programs P) (hl : Linked P)
    (hs : Protocol.Step programs lossy P P') :
    P'.table key = P.table key ∧ committed programs key P'.history = committed programs key P.history := by
  have hsets : ∀ {c : Fin n} {x : Session} {r : Request}, P.session c = x → x.call = some r.call →
      setBy programs c key P.history = none := by
    intro c x r hx hcall
    rw [setBy_current hcur hx hcall]
    have hk := h c r (by rw [hx]; exact hcall)
    cases r with
    | kvSet k v => exact if_neg hk
    | kvGet k => rfl
  have hother : ∀ {c : Fin n} {e : Exchange}, e.reply ≠ .setSuccessful →
      committed programs key (.answered c e.letter.message e.message :: P.history) =
        committed programs key P.history := by
    intro c e hx
    apply committed_answered
    rw [e.carries.1]
    cases hr : e.reply <;> first | exact absurd hr hx | simp [Reply.operation]
  cases hs with
  | transmit | transmit_last | lose | write | read | release | count | lose_reply | ask | close
  | take_value | take_set | take_get | fin | ret | leave => exact ⟨rfl, rfl⟩
  | refuse _ _ _ hx | grant_set _ _ _ hx | not_found _ _ _ hx | value _ _ _ hx | grant_get _ _ _ hx =>
    exact ⟨rfl, hother (by simp [hx])⟩
  | @store c e k v a b x hw hs hq =>
    have hcall : (Session.pending e.letter).call = some (Request.kvSet k v).call := by
      rw [Session.call, hq]
      rfl
    have hk : key ≠ k.chars := Ne.symm (h c (.kvSet k v) (by rw [hs]; exact hcall))
    exact ⟨Function.update_of_ne hk _ _, committed_other (hsets hs hcall)⟩
  | @finish c e r mr hw hs hq =>
    have hcall : (Session.pending e.letter).call = some r.call := by
      rw [Session.call, hq]
      rfl
    have hk : key ≠ r.key.chars := Ne.symm (h c _ (by rw [hs]; exact hcall))
    exact ⟨Function.update_of_ne hk _ _, committed_other (hsets hs hcall)⟩
  | @reply c e hw =>
    refine ⟨record_other fun sl hoffer => ?_, rfl⟩
    exact h.query (hl.answering c e hw) rfl (ClientSteps.not_shutDown e)
      (offer_request (c := c) hoffer).symm

theorem Seat.busy {s : ClientState} {x : Session} (h : Seat programs c s x) {call : Client.Call}
    (hx : x.call = some call) : s.thread ≠ none := by
  intro hnone
  obtain ⟨rfl, -, -⟩ | hlast := Seat.at_none h hnone
  · cases hx
  · cases h with
    | left hgone =>
      obtain rfl | ⟨l, rfl, -⟩ := hgone <;> cases hx
    | idle => cases hx
    | pending _ hs | served hs | stranded _ hs | replied hs => cases hs <;> simp_all
    | posting | posted | reading | aiming | moving | moved | finished | refusing | failed | parting
    | parted => simp_all

def Elsewhere (programs : Fin n → List Request) (S : World n) (key : List UInt8) : Prop :=
  ∀ c r, (S.client c).thread ≠ none →
    callAt programs c (S.client c).index = some (Request.call r) → r.key.chars ≠ key

theorem untouched_of_elsewhere (h : Elsewhere programs S key) (href : Refines programs S P)
    (hcur : Current programs P) : Untouched P key := by
  intro c r hr
  apply h c r (Seat.busy (href.seat c) hr)
  rw [href.index]
  exact (hcur c _ hr).1

theorem Untouched.table_eq (h : Untouched P key) (href : Refines programs S P) (hlocks : Locks P) :
    P.table key = entry S.mem key := by
  obtain ⟨es, hv, ⟨-, -, htable⟩ | ⟨d, stop, -, hserving⟩⟩ := href.serving
  · rw [htable, entry_eq hv]
  · have howned : ∀ sl, P.table key = some sl → ¬ sl.mrRdma.isSome := by
      intro sl hsl hm
      obtain ⟨c, mr, hg⟩ := hlocks.owned key sl hsl hm
      exact h.grant hg
    rw [entry_eq hv]
    generalize P.table = t at hserving howned
    generalize P.work = w at hserving
    cases hserving with
    | @recording rec pending hstop ho hready hold =>
      refine record_other fun sl hpending => ?_
      subst hpending
      exact howned sl (Function.update_self _ _ _) (hold key sl rfl).1
    | polling | reading | posting | posted | failing | releasing | between | returned => rfl

theorem Elsewhere.step (h : Elsewhere programs S key) (hP : Exact programs P)
    (href : Refines programs S P) (hin : Intact programs S) (hin' : Intact programs S') {l : Label n}
    (hl : Succeeds l) (hs : Network.Step programs S l S') :
    entry S'.mem key = entry S.mem key ∧ ∀ sl, entry S.mem key = some sl → sl.mrRdma = none →
      S'.mem.heap.blocks sl.address = S.mem.heap.blocks sl.address := by
  have hun := untouched_of_elsewhere h href hP.current
  obtain ⟨P', href', hP', hsame⟩ := hP.toReliable.simulate href hl hs
  have hkeep : P'.table key = P.table key ∧
      committed programs key P'.history = committed programs key P.history := by
    obtain rfl | hstep := hsame
    · exact ⟨rfl, rfl⟩
    · exact hun.step hP.current hP.linked hstep
  have hentry : entry S'.mem key = entry S.mem key := by
    cases l with
    | server d => rw [← server_table href hs href', hkeep.1, hun.table_eq href hP.locks]
    | call | client | ret | next | send | deliver | copy | complete =>
      exact entry_step href hs (fun d => by simp) key
  refine ⟨hentry, fun sl hsl hu => ?_⟩
  obtain ⟨v, hblock, -, hv⟩ := hin key sl hsl hu
  obtain ⟨v', hblock', -, hv'⟩ := hin' key sl (hentry.trans hsl) hu
  rw [href'.history, hkeep.2, ← href.history, hv] at hv'
  cases hv'
  rw [hblock, hblock']

theorem committed_step {l : Label n} (hs : Network.Step programs S l S')
    (hno : ∀ c request reply, S'.history = .answered c request reply :: S.history →
      setBy programs c key S.history = none) :
    committed programs key S'.history = committed programs key S.history := by
  cases l with
  | server d =>
    obtain ⟨c, verb, k, a, p, m, stop, -, -, -, rfl⟩ := stepServer_eq_some hs
    change committed programs key ((if sends stop then [Event.answered c p.receive (m.send c)] else []) ++
      S.history) = _
    cases hsends : sends stop with
    | false => rfl
    | true =>
      refine committed_other (hno c p.receive (m.send c) ?_)
      simp [World.log, resume, World.setPort, hsends]
  | call | client | ret | next | send | deliver | copy | complete =>
    obtain ⟨events, hh, he⟩ := (beside_step hs (fun d => by simp)).history
    rw [hh, committed_append he]

/-- What the store promises in the world of a run, whatever its next step is. `gets` and
`misses` are about all answers so far. -/
structure Atomic (programs : Fin n → List Request) (S : World n) : Prop where
  gets : ∀ c j value key, Event.returned c j 0 value ∈ S.history →
    callAt programs c j = some (.kvGet key) →
      ∃ v : CString, value = some v.chars ∧ Promised programs S.history c j key.chars v
  misses : ∀ later c request reply earlier key,
    S.history = later ++ .answered c request reply :: earlier →
      reply.operation = .serverKvGetKeyNotFound → stringAt request.buf 0 = some key →
        ¬ Accepted programs key earlier
  refuses : ∀ S' c request reply, stepServer S 0 = some S' →
    S'.history = .answered c request reply :: S.history → reply.operation = .serverInProgress →
      S'.mem = S.mem.setSend c reply ∧ S'.thread = some (c, posting .nothing next)
  whole : Intact programs S
  spares : ∀ l S' key, Succeeds l → Network.Step programs S l S' →
    (∀ c request reply, S'.history = .answered c request reply :: S.history →
      setBy programs c key S.history = none) →
    ∀ sl sl', entry S.mem key = some sl → sl.mrRdma = none →
      entry S'.mem key = some sl' → sl'.mrRdma = none →
        S'.mem.heap.blocks sl'.address = S.mem.heap.blocks sl.address ∧ sl'.size = sl.size
  stays : ∀ l S' key, Succeeds l → Network.Step programs S l S' → Elsewhere programs S key →
    entry S'.mem key = entry S.mem key ∧ ∀ sl, entry S.mem key = some sl → sl.mrRdma = none →
      S'.mem.heap.blocks sl.address = S.mem.heap.blocks sl.address

/-- The database is an atomic store: a `kv_get` that returns 0 returns the value that was
committed last when it was handled, a key is not found only before its first set, a call
that was refused changes nothing, and no step changes the value of another key. -/
theorem atomic_store (hcov : Covered programs) (h : Reached programs S) : Atomic programs S := by
  obtain ⟨P, href, hP, hin⟩ := followed_exact hcov h
  have hafter : ∀ l S', Succeeds l → Network.Step programs S l S' → Intact programs S' := by
    intro l S' hl hs
    obtain ⟨-, -, -, hin'⟩ := followed_exact hcov (h.next hl hs)
    exact hin'
  refine ⟨?_, ?_, fun S' c request reply hs hh hop => refusal href hs hh hop, hin, ?_, ?_⟩
  · rw [href.history]
    exact hP.gets
  · rw [href.history]
    exact hP.misses
  · intro l S' key hl hs hno sl sl' hsl hu hsl' hu'
    obtain ⟨v, hblock, hsize, hv⟩ := hin key sl hsl hu
    obtain ⟨v', hblock', hsize', hv'⟩ := hafter l S' hl hs key sl' hsl' hu'
    rw [committed_step hs hno, hv] at hv'
    cases hv'
    exact ⟨hblock'.trans hblock.symm, hsize'.trans hsize.symm⟩
  · intro l S' key hl hs helse
    exact helse.step hP href hin (hafter l S' hl hs) hl hs

def storing : Fin 2 → List Request
  | 0 => [.kvSet letter letter, .kvGet letter]
  | 1 => [.kvSet other long]

theorem covered_storing : Covered storing := by
  refine Fin.forall_fin_two.mpr ⟨fun key v hm he => ?_, fun key v hm he => ?_⟩
  · simp only [storing, List.mem_cons, List.not_mem_nil, or_false, reduceCtorEq] at hm
    cases hm
    exact absurd (by decide) he
  · cases List.mem_singleton.mp hm
    rw [Short]
    decide +kernel

theorem readBack_succeeds : ∀ l ∈ readBack, World 2 → Succeeds l := by
  simp [readBack, asking, handing, Succeeds]

theorem atomic_store_read :
    ∃ S, Reached storing S ∧ S.history.head? = some (.returned 0 1 0 (some [97])) ∧
      Atomic storing S := by
  have hrun : ((run (step storing) pair readBack).map (fun S => S.history.head?)) =
      some (some (.returned 0 1 0 (some [97]))) := by
    decide +kernel
  obtain ⟨S, hS, hhead⟩ := Option.map_eq_some_iff.mp hrun
  have hreached : Reached storing S := Reach.run (.start pair_start) readBack_succeeds hS
  exact ⟨S, hreached, hhead, atomic_store covered_storing hreached⟩

end NetworkOptimization.Store
