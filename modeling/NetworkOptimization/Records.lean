import Mathlib.Data.Fintype.Card
import NetworkOptimization.Exclusion
import NetworkOptimization.Histories

namespace NetworkOptimization.Records

open Words ControlMessages DynamicArray Handlers Tables Network Protocol Histories Exclusion
open Function (update)

variable {n : Nat} {programs : Fin n → List Request} {lossy : Prop} {P P' : State n}

/-- Every open call is the client's current one, and the client has asked in it. -/
def Current (programs : Fin n → List Request) (P : State n) : Prop :=
  ∀ c call, (P.session c).call = some call →
    callAt programs c (P.index c) = some call ∧ author c P.history = some (P.index c)

theorem Current.move (h : Current programs P) {c : Fin n} {s : Session}
    (hsession : P'.session = update P.session c s) (hindex : P'.index = P.index)
    (hcall : s.call = none ∨ s.call = (P.session c).call)
    (hauthor : ∀ d, author d P'.history = author d P.history) : Current programs P' := by
  intro d call hd
  rw [hauthor, hindex]
  rw [hsession] at hd
  by_cases hdc : d = c
  · subst hdc
    rw [Function.update_self] at hd
    obtain hn | hsame := hcall
    · rw [hn] at hd
      cases hd
    · exact h d call (hsame ▸ hd)
  · rw [Function.update_of_ne hdc] at hd
    exact h d call hd

theorem call_ofCall (call : Client.Call) : (Query.ofCall call).call = call := by
  cases call <;> rfl

theorem Current.ask (h : Current programs P) {c : Fin n} {l : Letter}
    (hcall : callAt programs c (P.index c) = some l.query.call) :
    Current programs { P with
      session := update P.session c (.going l)
      history := .asked c (P.index c) l.message :: P.history } := by
  intro d call hd
  by_cases hdc : d = c
  · subst hdc
    simp only [Function.update_self, Session.call, Option.some.injEq] at hd
    subst hd
    exact ⟨hcall, if_pos rfl⟩
  · simp only [Function.update_of_ne hdc] at hd
    have hdc' : c ≠ d := fun h => hdc h.symm
    obtain ⟨h₁, h₂⟩ := h d call hd
    exact ⟨h₁, (author_other (e := .asked c (P.index c) l.message) hdc').trans h₂⟩

theorem Current.step (h : Current programs P) (hl : Linked P) (hs : Step programs lossy P P') :
    Current programs P' := by
  cases hs with
  | @ask c call l hs hcall hq => exact h.ask (by rw [hq, call_ofCall]; exact hcall)
  | transmit hs | close hs | take_value hs | refuse _ hs | store _ hs | grant_set _ hs
  | not_found _ hs | value _ hs | grant_get _ hs | finish _ hs | lose _ hs =>
    exact h.move rfl rfl (.inr (by rw [hs]; rfl)) (fun d => rfl)
  | transmit_last | count => exact h.move rfl rfl (.inl rfl) (fun d => rfl)
  | take_set hs hq | take_get hs hq =>
    exact h.move rfl rfl (.inr (by rw [hs, Session.call, Session.call, hq]; rfl)) (fun d => rfl)
  | write hs | read hs => exact h.move rfl rfl (.inr (by rw [hs]; rfl)) (fun d => rfl)
  | @fin c r mr moved l hs hall hq =>
    apply h.ask
    obtain ⟨hcall, -⟩ := h c r.call (by rw [hs]; rfl)
    rw [hq]
    exact hcall
  | @ret c call success result hs =>
    intro d call' hd
    by_cases hdc : d = c
    · subst hdc
      simp only [Function.update_self] at hd
      cases hd
    · simp only [Function.update_of_ne hdc] at hd ⊢
      exact h d call' hd
  | @leave c result hs hcall =>
    intro d call' hd
    by_cases hdc : d = c
    · subst hdc
      obtain hs | ⟨l, hs⟩ := hs <;> rw [hs] at hd <;> cases hd
    · simp only [Function.update_of_ne hdc]
      exact h d call' hd
  | release => exact h
  | reply hw | lose_reply _ hw =>
    exact h.move rfl rfl (.inr (by rw [hl.answering _ _ hw]; rfl)) (fun d => rfl)

def NoGrant (a : Option (Option Nat × ControlMessage × ControlMessage)) : Prop :=
  ∀ j request reply mr, a = some (j, request, reply) → ¬ Announces reply mr

def Grant (r : Request) (mr : Mr) (j : Nat)
    (a : Option (Option Nat × ControlMessage × ControlMessage)) : Prop :=
  ∃ request reply, a = some (some j, request, reply) ∧
    stringAt request.buf 0 = some r.key.chars ∧ Announces reply mr

def Heeded (a : Option (Option Nat × ControlMessage × ControlMessage)) : Prop :=
  ∀ j request reply, a = some (j, request, reply) → reply.operation ≠ .serverInProgress

/-- What the last answer to a client says of its session. -/
def Tells : Session → Nat → Option (Option Nat × ControlMessage × ControlMessage) → Prop
  | .served e, j, a | .replied e, j, a => a = some (some j, e.letter.message, e.message)
  | .holding r mr _, j, a => Grant r mr j a
  | .going l, j, a | .pending l, j, a =>
    match l.query with
    | .fin r mr => Grant r mr j a
    | .request _ | .shutDown => NoGrant a
  | .stranded l, _, a => (∃ r mr, l.query = .fin r mr) → Heeded a
  | .idle, _, a | .finished _ _, _, a | .leaving _, _, a | .gone, _, a => NoGrant a

def Told (P : State n) : Prop :=
  ∀ c, Tells (P.session c) (P.index c) (lastAnswer c P.history)

theorem Told.move (h : Told P) {c : Fin n} {s : Session} (hsession : P'.session = update P.session c s)
    (hindex : ∀ d ≠ c, P'.index d = P.index d)
    (hlast : ∀ d ≠ c, lastAnswer d P'.history = lastAnswer d P.history)
    (hc : Tells s (P'.index c) (lastAnswer c P'.history)) : Told P' := by
  intro d
  rw [hsession]
  by_cases hdc : d = c
  · subst hdc
    rw [Function.update_self]
    exact hc
  · rw [Function.update_of_ne hdc, hindex d hdc, hlast d hdc]
    exact h d

theorem carries_string {m : ControlMessage} {operation : Operation} {s : CString}
    {args : List Argument} (h : Carries m operation (.string s :: args)) :
    stringAt m.buf 0 = some s.chars := h.readAt

theorem Letter.key_eq (l : Letter) (hq : l.query ≠ .shutDown) :
    stringAt l.message.buf 0 = some l.query.key := by
  have hc := l.carries
  cases hquery : l.query with
  | request r =>
    rw [hquery] at hc
    cases r with
    | kvSet key value =>
      by_cases he : Client.Eager key value <;>
        simp only [Query.arguments, Request.call, Client.Call.arguments, he, ↓reduceIte] at hc <;>
        exact carries_string hc
    | kvGet key => exact carries_string hc
  | fin r mr =>
    rw [hquery] at hc
    exact carries_string hc
  | shutDown => exact absurd hquery hq

theorem Exchange.announces {e : Exchange} {mr : Mr} (h : e.reply.region = some mr) :
    Announces e.message mr := by
  have hc := e.carries
  cases hx : e.reply with
  | setRendezvous mr' =>
    rw [hx] at h hc
    cases h
    exact .inl hc
  | getRendezvous mr' =>
    rw [hx] at h hc
    cases h
    exact .inr ⟨_, hc⟩
  | inProgress | setSuccessful | getSuccessful | keyNotFound | value v =>
    rw [hx] at h
    cases h

theorem Exchange.not_announces {e : Exchange} (h : e.reply.region = none) (mr : Mr) :
    ¬ Announces e.message mr := by
  have hc := e.carries.1
  have hno : e.reply.operation ≠ .serverKvSetRendezvous ∧ e.reply.operation ≠ .serverKvGetRendezvous := by
    cases hx : e.reply <;> simp_all [Reply.region, Reply.operation]
  rintro (⟨ho, -⟩ | ⟨-, ho, -⟩)
  · exact hno.1 (hc.symm.trans ho)
  · exact hno.2 (hc.symm.trans ho)

theorem noGrant_of_exchange {e : Exchange} (h : e.reply.region = none) (j : Option Nat)
    (request : ControlMessage) : NoGrant (some (j, request, e.message)) := by
  intro j' request' reply mr ha
  cases ha
  exact Exchange.not_announces h mr

theorem heeded_grant {r : Request} {mr : Mr} {j : Nat}
    {a : Option (Option Nat × ControlMessage × ControlMessage)} (h : Grant r mr j a) : Heeded a := by
  obtain ⟨request, reply, rfl, -, hannounces⟩ := h
  intro j' request' reply' ha
  cases ha
  obtain ⟨ho, -⟩ | ⟨size, ho, -⟩ := hannounces <;> simp [ho]

theorem heeded_fin {e : Exchange} {r : Request} {mr : Mr} (hq : e.letter.query = .fin r mr)
    (j : Option Nat) (request : ControlMessage) : Heeded (some (j, request, e.message)) := by
  intro j' request' reply ha
  cases ha
  have hp := e.proper
  have ho := e.carries.1
  rw [hq] at hp
  generalize hx : e.reply = x at hp ho
  cases hp <;> simp [ho, Reply.operation]

theorem Told.serve (h : Told P) (hcur : Current programs P) {c : Fin n} {e : Exchange}
    (hs : P.session c = .pending e.letter) {w : Work n} {t : List UInt8 → Option Slot}
    {cells : UInt64 → Option (List UInt8)} :
    Told { P with
      session := update P.session c (.served e)
      work := w
      table := t
      cells := cells
      history := .answered c e.letter.message e.message :: P.history } := by
  obtain ⟨-, ha⟩ := hcur c e.letter.query.call (by rw [hs]; rfl)
  refine h.move rfl (fun d _ => rfl) (fun d hd => lastAnswer_other fun hdc => hd hdc.symm) ?_
  change (if c = c then some (author c P.history, e.letter.message, e.message) else _) = _
  rw [if_pos rfl, ha]

theorem Told.step (h : Told P) (hcur : Current programs P) (hl : Linked P)
    (hs : Step programs lossy P P') : Told P' := by
  cases hs with
  | @ask c call l hs hcall hq =>
    have hc := h c
    rw [hs] at hc
    refine h.move rfl (fun d _ => rfl) (fun d _ => rfl) ?_
    cases call <;> rw [Tells, hq] <;> exact hc
  | @transmit c l hs =>
    have hc := h c
    rw [hs] at hc
    exact h.move rfl (fun d _ => rfl) (fun d _ => rfl) hc
  | @transmit_last c l hs hq =>
    have hc := h c
    rw [hs, Tells, hq] at hc
    exact h.move rfl (fun d _ => rfl) (fun d _ => rfl) hc
  | @lose c l _ hs hq =>
    have hc := h c
    refine h.move rfl (fun d _ => rfl) (fun d _ => rfl) ?_
    cases hquery : l.query with
    | request r => rw [hs, Tells, hquery] at hc; exact hc
    | shutDown => rw [hs, Tells, hquery] at hc; exact hc
    | fin r mr => rw [hquery] at hq; cases hq
  | @close c e success b hs hg =>
    have hc := h c
    rw [hs] at hc
    refine h.move rfl (fun d _ => rfl) (fun d _ => rfl) ?_
    change NoGrant (lastAnswer c P.history)
    rw [hc]
    exact noGrant_of_exchange hg _ _
  | @take_value c e v hs hv =>
    have hc := h c
    rw [hs] at hc
    refine h.move rfl (fun d _ => rfl) (fun d _ => rfl) ?_
    change NoGrant (lastAnswer c P.history)
    rw [hc]
    exact noGrant_of_exchange (by rw [hv]; rfl) _ _
  | @take_set c e r mr hs hq hx =>
    have hc := h c
    rw [hs] at hc
    have hkey := Letter.key_eq e.letter (by rw [hq]; simp)
    rw [hq] at hkey
    exact h.move rfl (fun d _ => rfl) (fun d _ => rfl)
      ⟨_, _, hc, hkey, Exchange.announces (by rw [hx]; rfl)⟩
  | @take_get c e r mr buf hs hq hx =>
    have hc := h c
    rw [hs] at hc
    have hkey := Letter.key_eq e.letter (by rw [hq]; simp)
    rw [hq] at hkey
    exact h.move rfl (fun d _ => rfl) (fun d _ => rfl)
      ⟨_, _, hc, hkey, Exchange.announces (by rw [hx]; rfl)⟩
  | @write c _ _ _ _ _ _ _ hs =>
    have hc := h c
    rw [hs] at hc
    exact h.move rfl (fun d _ => rfl) (fun d _ => rfl) hc
  | @read c _ _ _ _ _ _ _ hs =>
    have hc := h c
    rw [hs] at hc
    exact h.move rfl (fun d _ => rfl) (fun d _ => rfl) hc
  | @fin c r mr moved l hs hall hq =>
    have hc := h c
    rw [hs] at hc
    refine h.move rfl (fun d _ => rfl) (fun d _ => rfl) ?_
    rw [Tells, hq]
    exact hc
  | @ret c call success result hs =>
    have hc := h c
    rw [hs] at hc
    exact h.move rfl (fun d hd => Function.update_of_ne hd _ _) (fun d _ => rfl) hc
  | @leave c result hs hcall =>
    have hc := h c
    intro d
    by_cases hdc : d = c
    · subst hdc
      obtain hs | ⟨l, hs⟩ := hs <;> rw [hs] at hc ⊢ <;> exact hc
    · simp only [Function.update_of_ne hdc]
      exact h d
  | refuse _ hs | store _ hs | grant_set _ hs | not_found _ hs | value _ hs | grant_get _ hs
  | finish _ hs => exact h.serve hcur hs
  | release => exact h
  | @count c l _ hs =>
    have hc := h c
    rw [hs] at hc
    exact h.move rfl (fun d _ => rfl) (fun d _ => rfl) hc
  | @reply c e hw =>
    have hc := h c
    rw [hl.answering c e hw] at hc
    exact h.move rfl (fun d _ => rfl) (fun d _ => rfl) hc
  | @lose_reply c e _ hw =>
    have hc := h c
    rw [hl.answering c e hw] at hc
    refine h.move rfl (fun d _ => rfl) (fun d _ => rfl) ?_
    rintro ⟨r, mr, hq⟩
    change Heeded (lastAnswer c P.history)
    rw [hc]
    exact heeded_fin hq _ _

def query : Session → Option Query
  | .going l | .pending l | .stranded l => some l.query
  | .served e | .replied e => some e.letter.query
  | .idle | .holding _ _ _ | .finished _ _ | .leaving _ | .gone => none

theorem Told.not_refused (h : Told P) {c : Fin n} {r : Request} {mr : Mr}
    (hq : query (P.session c) = some (.fin r mr)) : ¬ Refused c P.history := by
  have hc := h c
  rintro ⟨j, request, reply, ha, ho⟩
  refine (?_ : Heeded (lastAnswer c P.history)) j request reply ha ho
  cases hs : P.session c with
  | going l | pending l =>
    rw [hs] at hq hc
    rw [Tells, Option.some.inj hq] at hc
    exact heeded_grant hc
  | served e | replied e =>
    rw [hs] at hq hc
    rw [show lastAnswer c P.history = _ from hc]
    exact heeded_fin (Option.some.inj hq) _ _
  | stranded l =>
    rw [hs] at hq hc
    exact hc ⟨r, mr, Option.some.inj hq⟩
  | idle | holding r mr moved | finished call success | leaving l | gone =>
    rw [hs] at hq
    cases hq

def isGone : Session → Bool
  | .gone => true
  | .idle | .going _ | .pending _ | .served _ | .replied _ | .holding _ _ _ | .finished _ _
  | .stranded _ | .leaving _ => false

structure Counted (P : State n) : Prop where
  count : P.count = (Finset.univ.filter (fun c => isGone (P.session c) = true)).card
  returned : P.work = .returned → P.count = n

theorem Counted.move (h : Counted P) {c : Fin n} {s : Session}
    (hsession : P'.session = update P.session c s) (hcount : P'.count = P.count)
    (hs : isGone s = isGone (P.session c)) (hwork : P'.work = .returned → P.work = .returned) :
    Counted P' := by
  refine ⟨?_, fun hw => ?_⟩
  · rw [hcount, h.count, hsession]
    congr 1
    refine Finset.filter_congr fun d _ => ?_
    by_cases hdc : d = c
    · subst hdc
      rw [Function.update_self, hs]
    · rw [Function.update_of_ne hdc]
  · rw [hcount]
    exact h.returned (hwork hw)

theorem Counted.step (h : Counted P) (hl : Linked P) (hs : Step programs lossy P P') :
    Counted P' := by
  cases hs with
  | ask hs | transmit hs | transmit_last hs | lose _ hs | close hs | take_value hs | take_set hs
  | take_get hs | write hs | read hs | fin hs | ret hs =>
    exact h.move rfl rfl (by rw [hs]; rfl) id
  | leave => exact ⟨h.count, h.returned⟩
  | refuse _ hs | store _ hs | grant_set _ hs | not_found _ hs | value _ hs | grant_get _ hs
  | finish _ hs => exact h.move rfl rfl (by rw [hs]; rfl) (fun hw => by cases hw)
  | release => exact ⟨h.count, fun hw => (by cases hw)⟩
  | @count c l hw hs =>
    refine ⟨?_, fun hr => ?_⟩
    · have hnew : Finset.univ.filter (fun d => isGone (update P.session c .gone d) = true) =
          insert c (Finset.univ.filter (fun d => isGone (P.session d) = true)) := by
        ext d
        by_cases hdc : d = c
        · subst hdc
          simp only [Finset.mem_filter, Finset.mem_univ, Function.update_self, Finset.mem_insert,
            true_and, true_or, iff_true]
          rfl
        · simp [hdc]
      have hold : c ∉ Finset.univ.filter (fun d => isGone (P.session d) = true) := by
        rw [Finset.mem_filter, hs]
        rintro ⟨-, hg⟩
        cases hg
      simp only [hnew]
      rw [Finset.card_insert_of_notMem hold, h.count]
    · by_cases hc : P.count + 1 = n
      · exact hc
      · simp only [hc, if_false] at hr
        cases hr
  | reply hw | lose_reply _ hw =>
    exact h.move rfl rfl (by rw [hl.answering _ _ hw]; rfl) (fun hw => by cases hw)

theorem Counted.all_gone (h : Counted P) (hw : P.work = .returned) (c : Fin n) :
    P.session c = .gone := by
  have hcard : (Finset.univ.filter (fun c => isGone (P.session c) = true)).card =
    Fintype.card (Fin n) := by
    rw [← h.count, h.returned hw, Fintype.card_fin]
  have hmem := Finset.mem_univ c
  rw [← Finset.eq_univ_of_card _ hcard] at hmem
  have hg := (Finset.mem_filter.mp hmem).2
  cases hs : P.session c <;> rw [hs] at hg <;> first | rfl | cases hg

/-- Where the conversation with a client stands, by its session. -/
def spoken (j : Nat) : Session → Option Talk
  | .idle | .holding _ _ _ | .finished _ _ => some .quiet
  | .going l | .pending l =>
    if l.message.operation = .shutDownServer then some .left else some (.waiting j l.message)
  | .served e | .replied e => some (.told j e.letter.message e.message)
  | .leaving _ | .gone => some .left
  | .stranded _ => none

/-- Nothing got lost, and every conversation follows the rules. -/
def Conversed (P : State n) : Prop :=
  ∀ c, spoken (P.index c) (P.session c) ≠ none ∧ talk c P.history = spoken (P.index c) (P.session c)

theorem Conversed.move (h : Conversed P) {c : Fin n} {s : Session}
    (hsession : P'.session = update P.session c s) (hindex : ∀ d ≠ c, P'.index d = P.index d)
    (htalk : ∀ d ≠ c, talk d P'.history = talk d P.history) (hno : spoken (P'.index c) s ≠ none)
    (hc : talk c P'.history = spoken (P'.index c) s) : Conversed P' := by
  intro d
  rw [hsession]
  by_cases hdc : d = c
  · subst hdc
    rw [Function.update_self]
    exact ⟨hno, hc⟩
  · rw [Function.update_of_ne hdc, hindex d hdc, htalk d hdc]
    exact h d

theorem talk_asked {c : Fin n} {j : Nat} {q : ControlMessage} {H : List (Event n)}
    (h : talk c H = some .quiet) : talk c (.asked c j q :: H) =
      if q.operation = .shutDownServer then some .left else some (.waiting j q) := by
  simp [talk, h]

theorem talk_answered {c : Fin n} {j : Nat} {q r : ControlMessage} {H : List (Event n)}
    (h : talk c H = some (.waiting j q)) : talk c (.answered c q r :: H) = some (.told j q r) := by
  simp [talk, h]

theorem talk_took {c : Fin n} {j : Nat} {q r : ControlMessage} {H : List (Event n)}
    (h : talk c H = some (.told j q r)) : talk c (.took c j r :: H) = some .quiet := by
  simp [talk, h]

inductive Asks : Query → Operation → Prop
  | eager {key value} (he : Client.Eager key value) : Asks (.request (.kvSet key value)) .clientKvSetEager
  | rendezvous {key value} (he : ¬ Client.Eager key value) :
      Asks (.request (.kvSet key value)) .clientKvSetRendezvous
  | get {key} : Asks (.request (.kvGet key)) .clientKvGet
  | fin_set {key value mr} : Asks (.fin (.kvSet key value) mr) .clientKvSetRendezvousFin
  | fin_get {key mr} : Asks (.fin (.kvGet key) mr) .clientKvGetRendezvousFin
  | shutDown : Asks .shutDown .shutDownServer

theorem letter_asks (l : Letter) : Asks l.query l.message.operation := by
  rw [l.carries.1]
  cases l.query with
  | shutDown => exact .shutDown
  | fin r mr =>
    cases r with
    | kvSet key value => exact .fin_set
    | kvGet key => exact .fin_get
  | request r =>
    cases r with
    | kvGet key => exact .get
    | kvSet key value =>
      by_cases he : Client.Eager key value
      · have hop : (Query.request (.kvSet key value)).operation = .clientKvSetEager := if_pos he
        rw [hop]
        exact .eager he
      · have hop : (Query.request (.kvSet key value)).operation = .clientKvSetRendezvous := if_neg he
        rw [hop]
        exact .rendezvous he

theorem Letter.shutDown_iff (l : Letter) :
    l.message.operation = .shutDownServer ↔ l.query = .shutDown := by
  have hasks := letter_asks l
  generalize l.query = q at hasks
  generalize l.message.operation = operation at hasks
  cases hasks <;> simp

theorem Conversed.serve (h : Conversed P) {c : Fin n} {e : Exchange}
    (hs : P.session c = .pending e.letter) {w : Work n} {t : List UInt8 → Option Slot}
    {cells : UInt64 → Option (List UInt8)} :
    Conversed { P with
      session := update P.session c (.served e)
      work := w
      table := t
      cells := cells
      history := .answered c e.letter.message e.message :: P.history } := by
  obtain ⟨-, ht⟩ := h c
  have hq : e.letter.message.operation ≠ .shutDownServer := by
    rw [Ne, Letter.shutDown_iff]
    intro hq
    have hp := e.proper
    rw [hq] at hp
    cases hp
  rw [hs, spoken, if_neg hq] at ht
  exact h.move rfl (fun d _ => rfl) (fun d hd => talk_other fun hdc => hd hdc.symm) (by simp [spoken])
    (talk_answered ht)

theorem Conversed.take (h : Conversed P) {c : Fin n} {e : Exchange} (hs : P.session c = .replied e)
    {s : Session} (hquiet : spoken (P.index c) s = some .quiet)
    {buffer : Fin n → Option (List UInt8)} :
    Conversed { P with
      session := update P.session c s
      buffer := buffer
      history := .took c (P.index c) e.message :: P.history } := by
  obtain ⟨-, ht⟩ := h c
  rw [hs, spoken] at ht
  refine h.move rfl (fun d _ => rfl) (fun d hd => talk_other fun hdc => hd hdc.symm) ?_ ?_
  · rw [hquiet]
    simp
  · rw [hquiet]
    exact talk_took ht

theorem Conversed.step (h : Conversed P) (hl : Linked P) (hs : Step programs False P P') :
    Conversed P' := by
  cases hs with
  | @ask c call l hs | @fin c _ _ _ l hs =>
    obtain ⟨-, ht⟩ := h c
    rw [hs] at ht
    refine h.move rfl (fun d _ => rfl) (fun d hd => talk_other fun hdc => hd hdc.symm) ?_ (talk_asked ht)
    by_cases ho : l.message.operation = .shutDownServer <;> simp [spoken, ho]
  | @transmit c l hs hq =>
    have hc := h c
    rw [hs] at hc
    exact h.move rfl (fun d _ => rfl) (fun d _ => rfl) hc.1 hc.2
  | @transmit_last c l hs hq =>
    have hc := h c
    rw [hs, spoken, if_pos ((Letter.shutDown_iff l).mpr hq)] at hc
    exact h.move rfl (fun d _ => rfl) (fun d _ => rfl) (by simp [spoken]) hc.2
  | lose hlossy => exact hlossy.elim
  | close hs | take_value hs | take_set hs | take_get hs => exact h.take hs rfl
  | @write c _ _ _ _ _ _ _ hs | @read c _ _ _ _ _ _ _ hs | @count c _ _ hs =>
    have hc := h c
    rw [hs] at hc
    exact h.move rfl (fun d _ => rfl) (fun d _ => rfl) hc.1 hc.2
  | @ret c call success result hs =>
    obtain ⟨-, ht⟩ := h c
    rw [hs, spoken] at ht
    refine h.move rfl (fun d hd => Function.update_of_ne hd _ _)
      (fun d hd => talk_other fun hdc => hd hdc.symm) (by simp [spoken]) ?_
    simp [talk, ht, spoken]
  | @leave c result hs hcall =>
    obtain ⟨-, ht⟩ := h c
    have hleft : ∀ j, spoken j (P.session c) = some .left := by
      obtain hs | ⟨l, hs⟩ := hs <;> rw [hs] <;> exact fun _ => rfl
    rw [hleft] at ht
    intro d
    by_cases hdc : d = c
    · subst hdc
      simp [hleft, talk, ht]
    · simp only [Function.update_of_ne hdc]
      rw [talk_other fun hcd => hdc hcd.symm]
      exact h d
  | refuse _ hs | store _ hs | grant_set _ hs | not_found _ hs | value _ hs | grant_get _ hs
  | finish _ hs => exact h.serve hs
  | release => exact h
  | @reply c e hw =>
    have hc := h c
    rw [hl.answering c e hw] at hc
    exact h.move rfl (fun d _ => rfl) (fun d _ => rfl) hc.1 hc.2
  | lose_reply hlossy => exact hlossy.elim

/-- A key that was accepted has an entry, or the entry is about to be made. -/
def Kept (programs : Fin n → List Request) (P : State n) : Prop :=
  ∀ key, Accepted programs key P.history →
    P.table key ≠ none ∨ ∃ sl, P.work.offer = some (key, sl)

theorem setBy_current (hcur : Current programs P) {c : Fin n} {s : Session} {call : Client.Call}
    (hs : P.session c = s) (hcall : s.call = some call) (key : List UInt8) :
    setBy programs c key P.history = sets key call := by
  obtain ⟨hc, ha⟩ := hcur c call (by rw [hs]; exact hcall)
  rw [setBy, ha, Option.bind_some, hc, Option.bind_some]

theorem Kept.frame (h : Kept programs P)
    (hhistory : ∀ key, Accepted programs key P'.history → Accepted programs key P.history)
    (htable : ∀ key, P.table key ≠ none → P'.table key ≠ none)
    (hoffer : P.work.offer = none ∨ P'.work.offer = P.work.offer) : Kept programs P' := by
  intro key ha
  obtain ht | ⟨sl, ho⟩ := h key (hhistory key ha)
  · exact .inl (htable key ht)
  · obtain hn | hsame := hoffer
    · rw [hn] at ho
      cases ho
    · exact .inr ⟨sl, hsame.trans ho⟩

theorem update_ne_none {t : List UInt8 → Option Slot} {k : List UInt8} {sl : Slot} (key : List UInt8)
    (h : t key ≠ none) : update t k (some sl) key ≠ none := by
  by_cases hk : key = k
  · simp [hk]
  · rwa [Function.update_of_ne hk]

theorem accepted_answered {c : Fin n} {request reply : ControlMessage} {H : List (Event n)}
    {key : List UInt8} (h : Accepted programs key (.answered c request reply :: H))
    (hs : reply.operation ≠ .serverKvSetSuccessful) (hr : reply.operation ≠ .serverKvSetRendezvous) :
    Accepted programs key H := by
  obtain ⟨ho | ho, -⟩ | h := h
  · exact absurd ho hs
  · exact absurd ho hr
  · exact h

theorem Kept.entry (h : Kept programs P) (hno : P.work.offer = none) {key : List UInt8}
    (ha : Accepted programs key P.history) : P.table key ≠ none := by
  obtain ht | ⟨sl, ho⟩ := h key ha
  · exact ht
  · rw [hno] at ho
    cases ho

theorem Kept.step (h : Kept programs P) (hcur : Current programs P)
    (hs : Step programs False P P') : Kept programs P' := by
  cases hs with
  | ask | transmit | transmit_last | close | take_value | take_set | take_get | write | read | fin
  | ret | leave => exact h.frame (fun _ ha => ha) (fun _ ht => ht) (.inr rfl)
  | lose hlossy => exact hlossy.elim
  | @refuse c e _ _ hw hs hq hx | @not_found c e _ hw hs hq hx | @value c e _ _ _ _ hw hs hq hx
  | @grant_get c e _ _ _ hw hs hq hx =>
    have ho := e.carries.1
    rw [hx] at ho
    refine h.frame (fun key ha => accepted_answered ha ?_ ?_) (fun _ ht => ht) (.inl (by rw [hw]; rfl)) <;>
      rw [ho] <;> simp [Reply.operation]
  | @store c e k v a b x hw hs hq hx =>
    intro key ha
    have hset := setBy_current hcur hs rfl key
    rw [hq] at hset
    by_cases hk : key = k.chars
    · exact .inl (by simp [hk])
    · obtain ⟨-, hn⟩ | ha := ha
      · exact absurd (hset.trans (if_neg (fun hkk => hk hkk.symm))) hn
      · exact .inl (update_ne_none key (h.entry (by rw [hw]; rfl) ha))
  | @grant_set c e k v mr a x y hw hs hq hx =>
    intro key ha
    have hset := setBy_current hcur hs rfl key
    rw [hq] at hset
    by_cases hk : key = k.chars
    · refine .inr ⟨lock mr, ?_⟩
      rw [offer_region mr (by rw [hx]; rfl), hq, hk]
      rfl
    · obtain ⟨-, hn⟩ | ha := ha
      · exact absurd (hset.trans (if_neg (fun hkk => hk hkk.symm))) hn
      · exact .inl (h.entry (by rw [hw]; rfl) ha)
  | release hw => exact h.frame (fun _ ha => ha) (fun _ ht => ht) (.inl (by rw [hw]; rfl))
  | @finish c e r mr hw hs hq =>
    have hset := setBy_current hcur hs rfl
    rw [hq] at hset
    intro key ha
    by_cases hk : key = r.key.chars
    · exact .inl (by simp [hk])
    · have ha' : Accepted programs key P.history := by
        obtain ⟨-, hn⟩ | ha := ha
        · refine absurd ((hset key).trans ?_) hn
          cases r with
          | kvSet k v => exact if_neg (fun hkk => hk hkk.symm)
          | kvGet k => rfl
        · exact ha
      exact .inl (update_ne_none key (h.entry (by rw [hw]; rfl) ha'))
  | count hw => exact h.frame (fun _ ha => ha) (fun _ ht => ht) (.inl (by rw [hw]; rfl))
  | @reply c e hw =>
    intro key ha
    refine .inl ?_
    cases hx : e.reply.region with
    | none =>
      simp only [Exchange.offer, hx, Option.map_none, record]
      exact h.entry (by rw [hw, offer_none hx]) ha
    | some mr =>
      simp only [Exchange.offer, hx, Option.map_some, record]
      obtain ht | ⟨sl, ho⟩ := h key ha
      · exact update_ne_none key ht
      · rw [hw, offer_region mr hx] at ho
        cases ho
        simp
  | lose_reply hlossy => exact hlossy.elim

end NetworkOptimization.Records
