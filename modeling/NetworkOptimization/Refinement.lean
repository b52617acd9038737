import NetworkOptimization.Seats
import NetworkOptimization.Steps

namespace NetworkOptimization.Refinement

open Words Memory ControlMessages DynamicArray Verbs SequentialCode Calls Server Handlers Tables
open Client (ClientMemory)
open Network Steps Protocol Histories Exclusion Records Seats
open Function (update)

variable {n : Nat} {programs : Fin n → List Request} {lossy : Prop} {S S' : World n} {P P' : State n}
  {c : Fin n}

/-- The server works on the content of the client's receive buffer. -/
inductive InHand (S : World n) (c : Fin n) : Prop
  | reading (ht : S.thread = some (c, .waiting .readMessage (dispatch c)))
  | releasing {k} (ht : S.thread = some (c, .waiting .ibvDeregMr k))

def Waits (x : Session) (l : Letter) : Prop := x = .pending l ∨ x = .leaving l

/-- Where the message of a session is, on the server's side of the connection. -/
def Delivered (S : World n) (c : Fin n) : Session → Prop
  | .pending l | .leaving l => Inbox (S.port c) (some l.message) ∨ InHand S c
  | .idle | .going _ | .served _ | .replied _ | .holding _ _ _ | .finished _ _ | .stranded _
  | .gone => Inbox (S.port c) none

def closed : Request → Reply
  | .kvSet _ _ => .setSuccessful
  | .kvGet _ => .getSuccessful

/-- The program points of the server at each of its works, for the session `x` of the
client it visits. While an answer is under way the entry that it makes is in the
table of the protocol already. -/
inductive Serving (m : ServerMemory n) (es : List KeyValueAddressPair) (c : Fin n)
    (stop : Stop (ServerMemory n) Verb Verb.Answer LoopExit) (p : Port) (x : Session) :
    Work n → (List UInt8 → Option Slot) → Prop
  | polling (ht : stop = polling c) (ho : Outbox p [] [] ∅) :
      Serving m es c stop p x .free (slots m.heap es)
  | reading {l} (ht : stop = .waiting .readMessage (dispatch c)) (ho : Outbox p [] [] ∅)
      (hx : Waits x l) (hi : Inbox p none) (hm : p.receive = l.message) :
      Serving m es c stop p x .free (slots m.heap es)
  | posting {e rec} (ht : stop = posting rec next) (ho : Outbox p [] [] ∅)
      (hm : m.send c = e.message) (hr : Ready m.heap m.regions es rec e.offer) :
      Serving m es c stop p x (.answering c e) (slots m.heap es)
  | posted {e rec} (ht : stop = .waiting .pollNSendWc (fun r => afterConfirm rec.code r >>= next))
      (ho : Outbox p [.send] [] ∅) (hm : m.send c = e.message)
      (hr : Ready m.heap m.regions es rec e.offer) :
      Serving m es c stop p x (.answering c e) (slots m.heap es)
  | recording {rec pending}
      (ht : stop = .waiting .pollNSendWc (fun r => afterConfirm rec.code r >>= next))
      (ho : Outbox p [] [⟨.success, .send⟩] ∅) (hr : Ready m.heap m.regions es rec pending)
      (hold : ∀ key sl, pending = some (key, sl) → sl.mrRdma.isSome ∧
        ∀ sl', slots m.heap es key = some sl' → sl'.mrRdma = none) :
      Serving m es c stop p x .free (record (slots m.heap es) pending)
  | failing {rec : Recording}
      (ht : stop = .waiting .pollNSendWc (fun r => afterConfirm rec.code r >>= next))
      (ho : Outbox p [] [⟨.failure, .send⟩] ∅) : Serving m es c stop p x .free (slots m.heap es)
  | releasing {l r mr idx e} (ht : stop = releasing c (closed r).operation idx mr next)
      (ho : Outbox p [] [] ∅) (hx : x = .pending l) (hq : l.query = .fin r mr) (hi : Inbox p none)
      (hm : p.receive = l.message) (he : es[idx]? = some e)
      (hk : cstr m.heap e.keyAddress = some r.key.chars) (hslot : slot e = lock mr) :
      Serving m es c stop p x (.releasing c mr) (slots m.heap es)
  | between (ht : stop = .done .continue) (ho : Outbox p [] [] ∅) :
      Serving m es c stop p x .free (slots m.heap es)
  | returned (ht : stop = .done .return) (ho : Outbox p [] [] ∅) :
      Serving m es c stop p x .returned (slots m.heap es)

/-- The interleaved system is in a state of the protocol. -/
structure Refines (programs : Fin n → List Request) (S : World n) (P : State n) : Prop where
  seat : ∀ c, Seat programs c (S.client c) (P.session c)
  index : ∀ c, (S.client c).index = P.index c
  buffer : ∀ c, content (S.client c).mem = P.buffer c
  history : S.history = P.history
  cells : S.mem.heap.blocks = P.cells
  count : S.mem.numShutDownServerRequest = P.count
  delivered : ∀ c, Delivered S c (P.session c)
  quiet : ∀ c, (∀ stop, S.thread ≠ some (c, stop)) → Outbox (S.port c) [] [] ∅
  serving : ∃ es, Valid S.mem es ∧
    ((S.thread = none ∧ P.work = .free ∧ P.table = slots S.mem.heap es) ∨
      ∃ c stop, S.thread = some (c, stop) ∧
        Serving S.mem es c stop (S.port c) (P.session c) P.work P.table)

/-- The system goes on as the protocol can, or stays where it is for the protocol. -/
def Simulates (programs : Fin n → List Request) (lossy : Prop) (S : World n) (P : State n) : Prop :=
  ∃ P', Refines programs S P' ∧ (P' = P ∨ Protocol.Step programs lossy P P')

/-- A session without a message at the server has no part in what the server does. -/
theorem Serving.away {m : ServerMemory n} {es : List KeyValueAddressPair}
    {stop : Stop (ServerMemory n) Verb Verb.Answer LoopExit} {p p' : Port} {x : Session} {w : Work n}
    {t : List UInt8 → Option Slot} (h : Serving m es c stop p x w t) (hx : ∀ l, ¬ Waits x l)
    (ho : ∀ wrs wcs moved, Outbox p wrs wcs moved → Outbox p' wrs wcs moved) (y : Session) :
    Serving m es c stop p' y w t := by
  cases h with
  | polling ht h => exact .polling ht (ho _ _ _ h)
  | reading _ _ hw => exact absurd hw (hx _)
  | posting ht h hm hr => exact .posting ht (ho _ _ _ h) hm hr
  | posted ht h hm hr => exact .posted ht (ho _ _ _ h) hm hr
  | recording ht h hr hold => exact .recording ht (ho _ _ _ h) hr hold
  | failing ht h => exact .failing ht (ho _ _ _ h)
  | releasing _ _ hw => exact absurd (.inl hw) (hx _)
  | between ht h => exact .between ht (ho _ _ _ h)
  | returned ht h => exact .returned ht (ho _ _ _ h)

theorem delivered_none {x : Session} (h : Delivered S c x) (hx : ∀ l, ¬ Waits x l) :
    Inbox (S.port c) none := by
  cases x with
  | pending l => exact absurd (.inl rfl) (hx l)
  | leaving l => exact absurd (.inr rfl) (hx l)
  | idle | going l | served e | replied e | holding r mr moved
    | finished call success | stranded l | gone =>
    exact h

theorem delivered_of_none {x : Session} (h : Inbox (S.port c) none) (hx : ∀ l, ¬ Waits x l) :
    Delivered S c x := by
  cases x with
  | pending l => exact absurd (.inl rfl) (hx l)
  | leaving l => exact absurd (.inr rfl) (hx l)
  | idle | going l | served e | replied e | holding r mr moved
    | finished call success | stranded l | gone =>
    exact h

theorem inHand_congr (ht : S'.thread = S.thread) (h : InHand S c) : InHand S' c := by
  cases h with
  | reading h => exact .reading (ht.trans h)
  | releasing h => exact .releasing (ht.trans h)

theorem delivered_congr {x : Session} (ht : S'.thread = S.thread) (hp : S'.port c = S.port c)
    (h : Delivered S c x) : Delivered S' c x := by
  cases x with
  | pending l | leaving l =>
    obtain h | h := h
    · exact .inl (by rw [hp]; exact h)
    · exact .inr (inHand_congr ht h)
  | idle | going l | served e | replied e | holding r mr moved
    | finished call success | stranded l | gone =>
    rw [Delivered] at h ⊢
    rw [hp]
    exact h

theorem Refines.client (h : Refines programs S P) {s : ClientState} {x : Session}
    (events : List (Event n)) (P' : State n) (hseat : Seat programs c s x)
    (hwait : x = P.session c ∨ ((∀ l, ¬ Waits (P.session c) l) ∧ ∀ l, ¬ Waits x l))
    (hsession : P'.session = update P.session c x) (hindex : P'.index = update P.index c s.index)
    (hbuffer : P'.buffer = update P.buffer c (content s.mem))
    (hhistory : P'.history = events ++ P.history) (hwork : P'.work = P.work)
    (htable : P'.table = P.table) (hcells : P'.cells = P.cells) (hcount : P'.count = P.count) :
    Refines programs ((S.setClient c s).log events) P' := by
  refine ⟨fun d => ?_, fun d => ?_, fun d => ?_, ?_, h.cells.trans hcells.symm,
    h.count.trans hcount.symm, fun d => ?_, h.quiet, ?_⟩
  · rw [hsession]
    by_cases hd : d = c
    · subst hd
      simpa [World.log, World.setClient] using hseat
    · simpa [World.log, World.setClient, hd] using h.seat d
  · rw [hindex]
    by_cases hd : d = c
    · subst hd
      simp [World.log, World.setClient]
    · simpa [World.log, World.setClient, hd] using h.index d
  · rw [hbuffer]
    by_cases hd : d = c
    · subst hd
      simp [World.log, World.setClient]
    · simpa [World.log, World.setClient, hd] using h.buffer d
  · rw [hhistory, ← h.history]
    rfl
  · rw [hsession]
    by_cases hd : d = c
    · subst hd
      rw [Function.update_self]
      obtain rfl | ⟨hold, hnew⟩ := hwait
      · exact delivered_congr (S := S) rfl rfl (h.delivered d)
      · exact delivered_of_none (S := (S.setClient d s).log events)
          (delivered_none (S := S) (h.delivered d) hold) hnew
    · rw [Function.update_of_ne hd]
      exact delivered_congr (S := S) rfl rfl (h.delivered d)
  · obtain ⟨es, hv, hserving⟩ := h.serving
    refine ⟨es, hv, ?_⟩
    rw [hwork, htable]
    obtain hnone | ⟨d, stop, ht, hserving⟩ := hserving
    · exact .inl hnone
    · refine .inr ⟨d, stop, ht, ?_⟩
      rw [hsession]
      by_cases hd : d = c
      · subst hd
        rw [Function.update_self]
        obtain rfl | ⟨hold, -⟩ := hwait
        · exact hserving
        · exact hserving.away hold (fun _ _ _ ho => ho) x
      · rw [Function.update_of_ne hd]
        exact hserving

theorem Refines.within (h : Refines programs S P) {s : ClientState}
    (hseat : Seat programs c s (P.session c)) (hindex : s.index = (S.client c).index)
    (hbuffer : content s.mem = content (S.client c).mem) : Refines programs (S.setClient c s) P := by
  have hi : P.index = update P.index c s.index := by
    rw [hindex, h.index, Function.update_eq_self]
  have hb : P.buffer = update P.buffer c (content s.mem) := by
    rw [hbuffer, h.buffer, Function.update_eq_self]
  exact h.client [] P hseat (.inl rfl) (Function.update_eq_self _ _).symm hi hb rfl rfl rfl rfl rfl

theorem Seat.at_none {s : ClientState} {x : Session} (h : Seat programs c s x) (ht : s.thread = none) :
    (x = .idle ∧ Outbox s.port [] [] ∅ ∧ Inbox s.port none) ∨ callAt programs c s.index = none := by
  cases h with
  | idle _ ho hi => exact .inl ⟨rfl, ho, hi⟩
  | left _ _ _ _ hlast => exact .inr hlast
  | pending _ hs | served hs | stranded _ hs | replied hs => cases hs <;> simp_all
  | posting | posted | reading | aiming | moving | moved | finished | refusing | failed | parting |
      parted =>
    simp_all

theorem not_waits_ofCall {l : Letter} {y : Session} (h : y = .going l ∨ y = .idle) (k : Letter) :
    ¬ Waits y k := by
  obtain rfl | rfl := h <;> rintro (h | h) <;> cases h

theorem simulate_call (h : Refines programs S P) (hs : stepCall programs S c = some S') :
    Simulates programs lossy S' P := by
  obtain ⟨call, m, stop, ht, hcall, hm, rfl⟩ := stepCall_eq_some hs
  obtain ⟨hx, ho, hi⟩ | hnone := Seat.at_none (h.seat c) ht
  · obtain ⟨l, hq, hc, hsend, rest, hrest, rfl⟩ := settle_call hm
    rw [h.index] at hcall
    have hevents : asks c (S.client c).index m (.waiting (.ibvPostSend .send) (afterPost rest)) =
        [.asked c (P.index c) l.message] := by
      rw [asks, h.index, hsend]
      rfl
    have hi' : P.index = update P.index c (S.client c).index := by
      rw [h.index, Function.update_eq_self]
    have hb' : P.buffer = update P.buffer c (content m) := by
      rw [hc, h.buffer, Function.update_eq_self]
    rw [hevents]
    refine ⟨_, ?_, .inr (.ask hx hcall hq)⟩
    refine h.client _ _ (.posting hrest rfl ho hi hsend ?_)
      (.inr ⟨fun k => ?_, not_waits_ofCall (.inl rfl)⟩) rfl hi' hb' rfl rfl rfl rfl rfl
    · intro hq'
      rw [hq'] at hq
      rw [h.index, hcall]
      cases call <;> cases hq
      rfl
    · rw [hx]
      exact not_waits_ofCall (l := l) (.inr rfl) k
  · rw [hnone] at hcall
    cases hcall

theorem Seat.at_done {s : ClientState} {x : Session} (h : Seat programs c s x) {r : Int}
    (ht : s.thread = some (.done r)) :
    Outbox s.port [] [] ∅ ∧ Inbox s.port none ∧
      ((∃ call success, x = .finished call success ∧ (r = 0 ↔ success = true)) ∨
        ((x = .gone ∨ ∃ l, x = .leaving l ∧ l.query = .shutDown) ∧
          callAt programs c s.index = some .shutDownServer)) := by
  cases h with
  | @finished call success r' ht' hr ho hi =>
    rw [ht'] at ht
    cases ht
    exact ⟨ho, hi, .inl ⟨call, success, rfl, hr⟩⟩
  | parted hx _ ho hi hlast =>
    exact ⟨ho, hi, .inr ⟨hx, hlast⟩⟩
  | pending _ hs | served hs | stranded _ hs | replied hs => cases hs <;> simp_all
  | idle | left | posting | posted | reading | aiming | moving | moved | refusing | failed | parting =>
    simp_all

theorem simulate_ret (h : Refines programs S P) (hs : stepRet S c = some S') :
    Simulates programs lossy S' P := by
  obtain ⟨r, ht, rfl⟩ := stepRet_eq_some hs
  have hb : P.buffer = update P.buffer c (content (S.client c).mem) := by
    rw [h.buffer, Function.update_eq_self]
  have hevents : [Event.returned c (S.client c).index r (result (S.client c).mem)] =
      [.returned c (P.index c) r ((P.buffer c).bind cstring)] := by
    rw [result_eq, h.buffer, h.index]
  have hi' : update P.index c (P.index c + 1) = update P.index c ((S.client c).index + 1) := by
    rw [h.index]
  rw [hevents]
  obtain ⟨ho, hi, ⟨call, success, hx, hr⟩ | ⟨hx, hlast⟩⟩ := Seat.at_done (h.seat c) ht
  · refine ⟨_, ?_, .inr (.ret hx hr)⟩
    refine h.client _ _ (.idle rfl ho hi) (.inr ⟨fun k => ?_, fun k => ?_⟩) rfl hi' hb rfl rfl
      rfl rfl rfl
    · rw [hx]
      rintro (h | h) <;> cases h
    · rintro (h | h) <;> cases h
  · have hgone : P.session c = .gone ∨ ∃ l, P.session c = .leaving l :=
      hx.imp_right fun ⟨l, hl, _⟩ => ⟨l, hl⟩
    refine ⟨_, ?_, .inr (@Step.leave n programs lossy P c r hgone (h.index c ▸ hlast))⟩
    exact h.client _ _ (.left hx rfl ho hi (callAt_last hlast)) (.inl rfl)
      (Function.update_eq_self _ _).symm hi' hb rfl rfl rfl rfl rfl

end NetworkOptimization.Refinement
