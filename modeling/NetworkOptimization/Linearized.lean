import NetworkOptimization.Linearization
import NetworkOptimization.Store

namespace NetworkOptimization.Linearized

open Words Memory ControlMessages DynamicArray Handlers Tables Runs Linearization
open Network Protocol Histories Exclusion Records Values Refinement Correspondence Store
open Function (update)

variable {n : Nat} {programs : Fin n → List Request} {P P' : State n} {c : Fin n}

def requestAt (programs : Fin n → List Request) (i : Fin n × Nat) : Option Request :=
  (programs i.1)[i.2]?

theorem callAt_eq {j : Nat} {call : Client.Call} (h : callAt programs c j = some call) :
    (∃ r, requestAt programs (c, j) = some r ∧ call = r.call) ∨
      (requestAt programs (c, j) = none ∧ call = .shutDownServer) := by
  by_cases hj : j < (programs c).length
  · rw [callAt, List.getElem?_append_left (by rwa [List.length_map]), List.getElem?_map] at h
    obtain ⟨r, hr, rfl⟩ := Option.map_eq_some_iff.mp h
    exact .inl ⟨r, hr, rfl⟩
  · have hle : (programs c).length ≤ j := Nat.le_of_not_lt hj
    rw [callAt, List.getElem?_append_right (by rwa [List.length_map])] at h
    exact .inr ⟨List.getElem?_eq_none_iff.mpr hle, List.mem_singleton.mp (List.mem_of_getElem? h)⟩

theorem call_injective {r r' : Request} (h : r.call = r'.call) : r = r' := by
  cases r <;> cases r' <;> cases h <;> rfl

theorem requestAt_of_call {j : Nat} {r : Request} (h : callAt programs c j = some r.call) :
    requestAt programs (c, j) = some r := by
  obtain ⟨r', hr', heq⟩ | ⟨-, heq⟩ := callAt_eq h
  · rw [hr', call_injective heq]
  · cases r <;> cases heq

inductive Outcome where
  | stored
  | value (v : Option (List UInt8))
  | failed
  deriving DecidableEq

/-- What the store is for: a set gives its key a value and a get tells the value of its
key. A call that fails changes nothing. -/
inductive Does : (List UInt8 → Option CString) → Option Request → Outcome →
    (List UInt8 → Option CString) → Prop
  | set {s key value} :
      Does s (some (.kvSet key value)) .stored (update s key.chars (some value))
  | get {s key v} (h : s key.chars = some v) : Does s (some (.kvGet key)) (.value (some v.chars)) s
  | fail {s r} : Does s (some r) .failed s

def store : Object (Option Request) Outcome (List UInt8 → Option CString) := ⟨fun _ => none, Does⟩

def told : Request → Int → Option (List UInt8) → Outcome
  | .kvSet _ _, result, _ => if result = 0 then .stored else .failed
  | .kvGet _, result, value => if result = 0 then .value value else .failed

def Opens (request : ControlMessage) : Prop :=
  request.operation = .clientKvSetEager ∨ request.operation = .clientKvSetRendezvous ∨
    request.operation = .clientKvGet

instance (request : ControlMessage) : Decidable (Opens request) := by
  unfold Opens
  infer_instance

section Programs

variable (programs : Fin n → List Request)

def occurrence : Event n → Option (Occurrence (Fin n × Nat) Outcome)
  | .asked c j request => if Opens request then some (.invoked (c, j)) else none
  | .returned c j result value =>
    (requestAt programs (c, j)).map (fun r => .returned (c, j) (told r result value))
  | .answered _ _ _ | .took _ _ _ => none

def calls (H : List (Event n)) : List (Occurrence (Fin n × Nat) Outcome) :=
  H.filterMap (occurrence programs)

def latest (c : Fin n) (H : List (Event n)) : Option (List UInt8) :=
  (((author c H).bind (fun j => requestAt programs (c, j))).bind
    (fun r => committed programs r.key.chars H)).map CString.chars

/-- How an answer of the server decides a call; a grant for a set leaves it open. -/
def decides (request reply : ControlMessage) (value : Option (List UInt8)) : Option Outcome :=
  if request.operation = .clientKvGet then
    if reply.operation = .serverKvGetEager ∨ reply.operation = .serverKvGetRendezvous then
      some (.value value)
    else some .failed
  else if reply.operation = .serverKvSetSuccessful then some .stored
  else if reply.operation = .serverInProgress then some .failed
  else none

/-- The calls of a history with the moments at which the server decides them. -/
def marks : List (Event n) → List (Mark (Fin n × Nat) Outcome)
  | [] => []
  | .answered c request reply :: H =>
    ((author c H).bind (fun j =>
      (decides request reply (latest programs c H)).map (Mark.effect (c, j)))).toList ++ marks H
  | .asked c j request :: H => ((occurrence programs (.asked c j request)).map .seen).toList ++ marks H
  | .took c j reply :: H => ((occurrence programs (.took c j reply)).map .seen).toList ++ marks H
  | .returned c j result value :: H =>
    ((occurrence programs (.returned c j result value)).map .seen).toList ++ marks H

end Programs

theorem visible_append (M M' : List (Mark (Fin n × Nat) Outcome)) :
    visible (M ++ M') = visible M ++ visible M' := List.filterMap_append ..

theorem visible_seen_toList (o : Option (Occurrence (Fin n × Nat) Outcome)) :
    visible ((o.map .seen).toList) = o.toList := by
  cases o <;> rfl

theorem visible_marks (H : List (Event n)) : visible (marks programs H) = calls programs H := by
  induction H with
  | nil => rfl
  | cons e H ih =>
    have hcalls : calls programs (e :: H) = (occurrence programs e).toList ++ calls programs H := by
      rw [calls, List.filterMap_cons]
      cases occurrence programs e <;> rfl
    cases e with
    | answered d request reply =>
      rw [marks, visible_append, ih, hcalls]
      cases author d H with
      | none => rfl
      | some j => cases decides request reply (latest programs d H) <;> rfl
    | asked d j request | took d j reply | returned d j result value =>
      rw [marks, visible_append, visible_seen_toList, ih, hcalls]

def Open (M : List (Mark (Fin n × Nat) Outcome)) (i : Fin n × Nat) : Prop :=
  .seen (.invoked i) ∈ M ∧ ∀ r, .effect i r ∉ M

def Read (M : List (Mark (Fin n × Nat) Outcome)) (i : Fin n × Nat) : Prop :=
  ∃ v, .effect i (.value v) ∈ M

/-- What is decided of a client's current call, by its session. -/
def Standing (M : List (Mark (Fin n × Nat) Outcome)) (i : Fin n × Nat) : Session → Prop
  | .going l | .pending l =>
    match l.query with
    | .request _ | .fin (.kvSet _ _) _ => Open M i
    | .fin (.kvGet _) _ => Read M i
    | .shutDown => True
  | .served e | .replied e =>
    match e.reply with
    | .setRendezvous _ => Open M i
    | .setSuccessful => .effect i .stored ∈ M
    | .inProgress | .keyNotFound => .effect i .failed ∈ M
    | .value _ | .getRendezvous _ | .getSuccessful => Read M i
  | .holding (.kvSet _ _) _ _ => Open M i
  | .holding (.kvGet _) _ _ => Read M i
  | .finished .shutDownServer _ => True
  | .finished (.kvSet _ _) true => .effect i .stored ∈ M
  | .finished (.kvGet _) true => Read M i
  | .finished _ false => .effect i .failed ∈ M
  | .idle | .stranded _ | .leaving _ | .gone => True

section Frame

variable {M M' : List (Mark (Fin n × Nat) Outcome)} {i : Fin n × Nat}

structure Same (M M' : List (Mark (Fin n × Nat) Outcome)) (i : Fin n × Nat) : Prop where
  effect : ∀ r, .effect i r ∈ M' ↔ .effect i r ∈ M
  invoked : .seen (.invoked i) ∈ M' ↔ .seen (.invoked i) ∈ M

theorem Same.standing (h : Same M M' i) {x : Session} (hx : Standing M i x) : Standing M' i x := by
  have hopen : Open M i → Open M' i := fun ho =>
    ⟨h.invoked.mpr ho.1, fun r hr => ho.2 r ((h.effect r).mp hr)⟩
  have hread : Read M i → Read M' i := fun ⟨v, hv⟩ => ⟨v, (h.effect _).mpr hv⟩
  cases x with
  | going l | pending l =>
    simp only [Standing] at hx ⊢
    cases hq : l.query with
    | request r => rw [hq] at hx; exact hopen hx
    | shutDown => trivial
    | fin r mr =>
      rw [hq] at hx
      cases r with
      | kvSet key value => exact hopen hx
      | kvGet key => exact hread hx
  | served e | replied e =>
    simp only [Standing] at hx ⊢
    cases hr : e.reply with
    | setRendezvous mr => rw [hr] at hx; exact hopen hx
    | setSuccessful | inProgress | keyNotFound => rw [hr] at hx; exact (h.effect _).mpr hx
    | value v | getRendezvous mr | getSuccessful => rw [hr] at hx; exact hread hx
  | holding r mr moved =>
    cases r with
    | kvSet key value => exact hopen hx
    | kvGet key => exact hread hx
  | finished call success =>
    cases call with
    | shutDownServer => trivial
    | kvSet key value => cases success <;> exact (h.effect _).mpr hx
    | kvGet key =>
      cases success with
      | false => exact (h.effect _).mpr hx
      | true => exact hread hx
  | idle | stranded l | leaving l | gone => trivial

end Frame

def subject : Mark (Fin n × Nat) Outcome → Fin n × Nat
  | .seen (.invoked i) | .seen (.returned i _) | .effect i _ => i

theorem same_of_other {M : List (Mark (Fin n × Nat) Outcome)} {m : Mark (Fin n × Nat) Outcome}
    {i : Fin n × Nat} (h : subject m ≠ i) : Same M (m :: M) i := by
  refine ⟨fun r => ?_, ?_⟩ <;> rw [List.mem_cons, or_iff_right] <;> rintro rfl <;> exact h rfl

/-- The marks of a run of the protocol, and how they fit to its sessions. -/
structure Serial (programs : Fin n → List Request) (P : State n) : Prop where
  marked : Marked store (requestAt programs) (marks programs P.history)
    (fun key => committed programs key P.history)
  standing : ∀ c, Standing (marks programs P.history) (c, P.index c) (P.session c)
  invoked : ∀ c j, .seen (.invoked (c, j)) ∈ marks programs P.history →
    j ≤ P.index c ∧ (P.session c = .idle → j < P.index c)
  returned : ∀ c j r, .seen (.returned (c, j) r) ∈ marks programs P.history → j < P.index c

theorem Serial.silent (h : Serial programs P) {s : Session}
    (hsession : P'.session = update P.session c s) (hindex : P'.index = P.index)
    (hmarks : marks programs P'.history = marks programs P.history)
    (hcommitted : ∀ key, committed programs key P'.history = committed programs key P.history)
    (hbusy : s ≠ .idle) (hc : Standing (marks programs P.history) (c, P.index c) s) :
    Serial programs P' := by
  refine ⟨?_, fun d => ?_, fun d j hm => ?_, fun d j r hm => ?_⟩
  · rw [hmarks, funext hcommitted]
    exact h.marked
  · rw [hmarks, hindex, hsession]
    by_cases hd : d = c
    · subst hd
      rwa [Function.update_self]
    · rw [Function.update_of_ne hd]
      exact h.standing d
  · rw [hmarks] at hm
    rw [hindex, hsession]
    by_cases hd : d = c
    · subst hd
      rw [Function.update_self]
      exact ⟨(h.invoked d j hm).1, fun hs => absurd hs hbusy⟩
    · rw [Function.update_of_ne hd]
      exact h.invoked d j hm
  · rw [hmarks] at hm
    rw [hindex]
    exact h.returned d j r hm

theorem Serial.mark (h : Serial programs P) {s : Session} {m : Mark (Fin n × Nat) Outcome}
    (hm : subject m = (c, P.index c)) (hsession : P'.session = update P.session c s)
    (hindex : P.index c ≤ P'.index c) (hother : ∀ d ≠ c, P'.index d = P.index d)
    (hmarks : marks programs P'.history = m :: marks programs P.history)
    (hmarked : Marked store (requestAt programs) (m :: marks programs P.history)
      (fun key => committed programs key P'.history))
    (hc : Standing (m :: marks programs P.history) (c, P'.index c) s)
    (hbusy : s = .idle → P.index c < P'.index c)
    (hreturned : ∀ i r, m = .seen (.returned i r) → P.index c < P'.index c) :
    Serial programs P' := by
  refine ⟨by rwa [hmarks], fun d => ?_, fun d j hj => ?_, fun d j r hj => ?_⟩
  · rw [hmarks, hsession]
    by_cases hd : d = c
    · subst hd
      rwa [Function.update_self]
    · rw [Function.update_of_ne hd, hother d hd]
      refine (same_of_other fun heq => hd ?_).standing (h.standing d)
      rw [hm] at heq
      exact (congrArg Prod.fst heq).symm
  · rw [hmarks] at hj
    rw [hsession]
    obtain rfl | hj := List.mem_cons.mp hj
    · cases hm
      rw [Function.update_self]
      exact ⟨hindex, hbusy⟩
    · obtain ⟨hle, hlt⟩ := h.invoked d j hj
      by_cases hd : d = c
      · subst hd
        rw [Function.update_self]
        exact ⟨hle.trans hindex, fun hs => hle.trans_lt (hbusy hs)⟩
      · rw [Function.update_of_ne hd, hother d hd]
        exact ⟨hle, hlt⟩
  · rw [hmarks] at hj
    obtain rfl | hj := List.mem_cons.mp hj
    · cases hm
      exact hreturned _ _ rfl
    · have hlt := h.returned d j r hj
      by_cases hd : d = c
      · subst hd
        exact hlt.trans_le hindex
      · rwa [hother d hd]

theorem opens_iff (l : Letter) : Opens l.message ↔ ∃ r, l.query = .request r := by
  have hasks := letter_asks l
  generalize l.query = q at hasks
  unfold Opens
  generalize l.message.operation = operation at hasks
  cases hasks <;> simp

theorem marks_asked {l : Letter} (hq : ∀ r, l.query ≠ .request r) (j : Nat) (H : List (Event n)) :
    marks programs (.asked c j l.message :: H) = marks programs H := by
  have ho : ¬ Opens l.message := fun ho => by
    obtain ⟨r, hr⟩ := (opens_iff l).mp ho
    exact hq r hr
  simp [marks, occurrence, ho]

theorem Serial.ask (h : Serial programs P) {call : Client.Call} {l : Letter}
    (hs : P.session c = .idle) (hq : l.query = .ofCall call) :
    Serial programs { P with
      session := update P.session c (.going l)
      history := .asked c (P.index c) l.message :: P.history } := by
  have hrequest : (∃ r, l.query = .request r) → Serial programs { P with
      session := update P.session c (.going l)
      history := .asked c (P.index c) l.message :: P.history } := by
    intro hr
    have hmarks : marks programs (.asked c (P.index c) l.message :: P.history) =
        .seen (.invoked (c, P.index c)) :: marks programs P.history := by
      simp [marks, occurrence, (opens_iff l).mpr hr]
    have hnew : .seen (.invoked (c, P.index c)) ∉ marks programs P.history := fun hm =>
      Nat.lt_irrefl _ ((h.invoked c _ hm).2 hs)
    refine h.mark rfl rfl (Nat.le_refl _) (fun _ _ => rfl) hmarks (h.marked.invoked hnew) ?_
      (fun hi => by cases hi) (fun i r hm => by cases hm)
    obtain ⟨r, hr⟩ := hr
    simp only [Standing, hr]
    refine ⟨List.mem_cons_self, fun o ho => ?_⟩
    obtain hm | hm := List.mem_cons.mp ho
    · cases hm
    · exact hnew (h.marked.invoked_of_effect hm)
  cases call with
  | kvSet key value => exact hrequest ⟨_, hq⟩
  | kvGet key => exact hrequest ⟨_, hq⟩
  | shutDownServer =>
    exact h.silent rfl rfl (marks_asked (by simp [hq, Query.ofCall]) _ _) (fun _ => rfl) (by simp)
      (by simp [Standing, hq, Query.ofCall])

section Answers

variable {e : Exchange} {w : Work n} {t : List UInt8 → Option Slot}
  {cells : UInt64 → Option (List UInt8)}

/-- The answer to a pending message decides the client's call. -/
structure Decision (programs : Fin n → List Request) (P : State n) (c : Fin n) (e : Exchange)
    (r : Request) (o : Outcome) : Prop where
  pending : P.session c = .pending e.letter
  call : e.letter.query.call = r.call
  decides : decides e.letter.message e.message ((committed programs r.key.chars P.history).map
    CString.chars) = some o
  does : Does (fun key => committed programs key P.history) (some r) o (fun key =>
    committed programs key (.answered c e.letter.message e.message :: P.history))

theorem Decision.request {r : Request} {o : Outcome} (hd : Decision programs P c e r o)
    (hcur : Current programs P) : requestAt programs (c, P.index c) = some r := by
  obtain ⟨hcall, -⟩ := hcur c r.call (by rw [hd.pending, ← hd.call]; rfl)
  exact requestAt_of_call hcall

theorem Decision.marks {r : Request} {o : Outcome} (hd : Decision programs P c e r o)
    (hcur : Current programs P) :
    marks programs (.answered c e.letter.message e.message :: P.history) =
      .effect (c, P.index c) o :: marks programs P.history := by
  obtain ⟨-, hauthor⟩ := hcur c r.call (by rw [hd.pending, ← hd.call]; rfl)
  simp only [Linearized.marks, latest, hauthor, Option.bind_some, hd.request hcur, hd.decides,
    Option.map_some, Option.toList_some, List.singleton_append]

theorem Serial.decided (h : Serial programs P) (hcur : Current programs P) {r : Request} {o : Outcome}
    (hd : Decision programs P c e r o) (hopen : Open (marks programs P.history) (c, P.index c))
    (hc : ∀ M, .effect (c, P.index c) o ∈ M → Standing M (c, P.index c) (.served e)) :
    Serial programs { P with
      session := update P.session c (.served e)
      work := w
      table := t
      cells := cells
      history := .answered c e.letter.message e.message :: P.history } := by
  refine h.mark rfl rfl (Nat.le_refl _) (fun _ _ => rfl) (hd.marks hcur)
    (h.marked.effect hopen.1 hopen.2 ?_) (hc _ List.mem_cons_self) (fun hi => by cases hi)
    (fun i r hm => by cases hm)
  rw [hd.request hcur]
  exact hd.does

theorem marks_undecided {request reply : ControlMessage} (ho : ∀ value, decides request reply value = none)
    (H : List (Event n)) : marks programs (.answered c request reply :: H) = marks programs H := by
  simp only [marks, ho, Option.map_none]
  cases author c H <;> rfl

theorem not_successful (hx : e.reply ≠ .setSuccessful) :
    e.message.operation ≠ .serverKvSetSuccessful := by
  rw [e.carries.1]
  cases hr : e.reply <;> first | exact absurd hr hx | simp [Reply.operation]

theorem Serial.undecided (h : Serial programs P)
    (ho : ∀ value, decides e.letter.message e.message value = none) (hx : e.reply ≠ .setSuccessful)
    (hc : Standing (marks programs P.history) (c, P.index c) (.served e)) :
    Serial programs { P with
      session := update P.session c (.served e)
      work := w
      table := t
      cells := cells
      history := .answered c e.letter.message e.message :: P.history } :=
  h.silent rfl rfl (marks_undecided ho _) (fun _ => committed_answered (not_successful hx)) (by simp) hc

theorem decides_get {l : Letter} {key : CString} (hq : l.query = .request (.kvGet key))
    (reply : ControlMessage) (value : Option (List UInt8)) :
    decides l.message reply value =
      if reply.operation = .serverKvGetEager ∨ reply.operation = .serverKvGetRendezvous then
        some (.value value)
      else some .failed := by
  have ho := l.carries.1
  rw [hq] at ho
  exact if_pos ho

theorem decides_other {l : Letter} (hq : ∀ key, l.query ≠ .request (.kvGet key))
    (reply : ControlMessage) (value : Option (List UInt8)) :
    decides l.message reply value =
      if reply.operation = .serverKvSetSuccessful then some .stored
      else if reply.operation = .serverInProgress then some .failed
      else none := by
  have hasks := letter_asks l
  refine if_neg fun ho => ?_
  rw [ho] at hasks
  cases hl : l.query <;> rw [hl] at hasks <;> cases hasks
  exact hq _ hl

theorem undecided_grant {key v : CString} {mr : Mr} (hq : e.letter.query = .request (.kvSet key v))
    (hx : e.reply = .setRendezvous mr) (value : Option (List UInt8)) :
    decides e.letter.message e.message value = none := by
  rw [decides_other (by simp [hq]), e.carries.1, hx]
  rfl

theorem undecided_closed {key : CString} {mr : Mr} (hq : e.letter.query = .fin (.kvGet key) mr)
    (hx : e.reply = .getSuccessful) (value : Option (List UInt8)) :
    decides e.letter.message e.message value = none := by
  rw [decides_other (by simp [hq]), e.carries.1, hx]
  rfl

theorem open_of_pending (h : Serial programs P) (hs : P.session c = .pending e.letter) {r : Request}
    (hq : e.letter.query = .request r) : Open (marks programs P.history) (c, P.index c) := by
  have hc := h.standing c
  rw [hs] at hc
  simpa only [Standing, hq] using hc

theorem decision_failed (hs : P.session c = .pending e.letter) {r : Request}
    (hq : e.letter.query = .request r)
    (hx : e.reply = .inProgress ∨ (e.reply = .keyNotFound ∧ ∃ key, r = .kvGet key)) :
    Decision programs P c e r .failed := by
  have hop := e.carries.1
  refine ⟨hs, by rw [hq]; rfl, ?_, ?_⟩
  · cases r with
    | kvGet key =>
      rw [decides_get hq, hop]
      obtain hx | ⟨hx, -⟩ := hx <;> simp [hx, Reply.operation]
    | kvSet key value =>
      rw [decides_other (by simp [hq]), hop]
      obtain hx | ⟨-, k, hk⟩ := hx
      · simp [hx, Reply.operation]
      · cases hk
  · have hno : e.message.operation ≠ .serverKvSetSuccessful := by
      rw [hop]
      obtain hx | ⟨hx, -⟩ := hx <;> simp [hx, Reply.operation]
    simp only [committed_answered hno]
    exact .fail

theorem standing_failed {M : List (Mark (Fin n × Nat) Outcome)} {i : Fin n × Nat}
    (hx : e.reply = .inProgress ∨ e.reply = .keyNotFound) (hm : .effect i .failed ∈ M) :
    Standing M i (.served e) := by
  obtain hx | hx := hx <;> simpa only [Standing, hx] using hm

theorem committed_update {H : List (Event n)} {key v : CString} {request reply : ControlMessage}
    (hop : reply.operation = .serverKvSetSuccessful)
    (hset : ∀ k, setBy programs c k H = sets k (.kvSet key v)) :
    (fun k => committed programs k (.answered c request reply :: H)) =
      update (fun k => committed programs k H) key.chars (some v) := by
  funext k
  by_cases hk : k = key.chars
  · subst hk
    rw [Function.update_self]
    exact committed_self hop ((hset _).trans (if_pos rfl))
  · rw [Function.update_of_ne hk]
    exact committed_other ((hset k).trans (if_neg fun heq => hk heq.symm))

theorem decision_stored (hcur : Current programs P) (hs : P.session c = .pending e.letter)
    {key v : CString} (hcall : e.letter.query.call = .kvSet key v)
    (hq : ∀ k, e.letter.query ≠ .request (.kvGet k)) (hx : e.reply = .setSuccessful) :
    Decision programs P c e (.kvSet key v) .stored := by
  have hop : e.message.operation = .serverKvSetSuccessful := by
    rw [e.carries.1, hx]
    rfl
  refine ⟨hs, hcall, ?_, ?_⟩
  · rw [decides_other hq, if_pos hop]
  · have hopen : (Session.pending e.letter).call = some (.kvSet key v) := congrArg some hcall
    rw [committed_update hop (setBy_current hcur hs hopen)]
    exact .set

theorem decision_read (hs : P.session c = .pending e.letter) {key : CString}
    (hq : e.letter.query = .request (.kvGet key))
    (hx : (∃ v, e.reply = .value v) ∨ ∃ mr, e.reply = .getRendezvous mr) {v : CString}
    (hv : committed programs key.chars P.history = some v) :
    Decision programs P c e (.kvGet key) (.value (some v.chars)) := by
  have hop := e.carries.1
  refine ⟨hs, by rw [hq]; rfl, ?_, ?_⟩
  · rw [decides_get hq, hop, if_pos]
    · exact congrArg (fun o => some (Outcome.value (o.map CString.chars))) hv
    · obtain ⟨w, hx⟩ | ⟨mr, hx⟩ := hx <;> simp [hx, Reply.operation]
  · have hno : e.message.operation ≠ .serverKvSetSuccessful := by
      rw [hop]
      obtain ⟨w, hx⟩ | ⟨mr, hx⟩ := hx <;> simp [hx, Reply.operation]
    simp only [committed_answered hno]
    exact .get hv

theorem standing_read {M : List (Mark (Fin n × Nat) Outcome)} {i : Fin n × Nat}
    (hx : (∃ v, e.reply = .value v) ∨ ∃ mr, e.reply = .getRendezvous mr) {o : Option (List UInt8)}
    (hm : .effect i (.value o) ∈ M) : Standing M i (.served e) := by
  obtain ⟨w, hx⟩ | ⟨mr, hx⟩ := hx <;> simpa only [Standing, hx] using ⟨_, hm⟩

end Answers

theorem Serial.past (h : Serial programs P) {s : Session}
    (hsession : P'.session = update P.session c s)
    (hindex : P'.index = update P.index c (P.index c + 1))
    (hmarks : marks programs P'.history = marks programs P.history)
    (hcommitted : ∀ key, committed programs key P'.history = committed programs key P.history)
    (hc : ∀ M i, @Standing n M i s) : Serial programs P' := by
  refine ⟨?_, fun d => ?_, fun d j hm => ?_, fun d j r hm => ?_⟩
  · rw [hmarks, funext hcommitted]
    exact h.marked
  · rw [hsession]
    by_cases hd : d = c
    · subst hd
      rw [Function.update_self]
      exact hc _ _
    · rw [hmarks, hindex, Function.update_of_ne hd, Function.update_of_ne hd]
      exact h.standing d
  · rw [hmarks] at hm
    rw [hsession, hindex]
    by_cases hd : d = c
    · subst hd
      rw [Function.update_self, Function.update_self]
      have hlt : j < P.index d + 1 := Nat.lt_succ_of_le (h.invoked d j hm).1
      exact ⟨hlt.le, fun _ => hlt⟩
    · rw [Function.update_of_ne hd, Function.update_of_ne hd]
      exact h.invoked d j hm
  · rw [hmarks] at hm
    rw [hindex]
    by_cases hd : d = c
    · subst hd
      rw [Function.update_self]
      exact Nat.lt_succ_of_lt (h.returned d j r hm)
    · rw [Function.update_of_ne hd]
      exact h.returned d j r hm

theorem marks_later {m : Mark (Fin n × Nat) Outcome} {H : List (Event n)} (hm : m ∈ marks programs H)
    (later : List (Event n)) : m ∈ marks programs (later ++ H) := by
  induction later with
  | nil => exact hm
  | cons e later ih => cases e <;> exact List.mem_append_right _ ih

theorem promised_effect {H : List (Event n)} {j : Nat} {key v : CString}
    (h : Promised programs H c j key.chars v) (hr : requestAt programs (c, j) = some (.kvGet key)) :
    .effect (c, j) (.value (some v.chars)) ∈ marks programs H ∨
      .effect (c, j) .failed ∈ marks programs H := by
  obtain ⟨later, request, reply, earlier, rfl, hop, hauthor, hv⟩ := h
  have hlatest : latest programs c earlier = some v.chars := by
    simp only [latest, hauthor, Option.bind_some, hr, Request.key, hv, Option.map_some]
  have hmarks : marks programs (.answered c request reply :: earlier) =
      ((decides request reply (some v.chars)).map (Mark.effect (c, j))).toList ++
        marks programs earlier := by
    simp only [marks, hauthor, Option.bind_some, hlatest]
  by_cases hreply : reply.operation = .serverKvGetEager ∨ reply.operation = .serverKvGetRendezvous
  · refine .inl (marks_later ?_ later)
    rw [hmarks, decides, if_pos hop, if_pos hreply]
    exact List.mem_cons_self
  · refine .inr (marks_later ?_ later)
    rw [hmarks, decides, if_pos hop, if_neg hreply]
    exact List.mem_cons_self

theorem Serial.decided_return (h : Serial programs P) (hcur : Current programs P)
    (hval : Consistent programs P) {r : Request} {success : Bool} {result : Int}
    (hs : P.session c = .finished r.call success) (hresult : result = 0 ↔ success = true) :
    .effect (c, P.index c) (told r result ((P.buffer c).bind cstring)) ∈ marks programs P.history := by
  have hstanding := h.standing c
  rw [hs] at hstanding
  cases success with
  | false =>
    have hne : result ≠ 0 := fun h0 => by simpa using hresult.mp h0
    cases r <;> rw [told, if_neg hne] <;> exact hstanding
  | true =>
    cases r with
    | kvSet key value =>
      rw [told, if_pos (hresult.mpr rfl)]
      exact hstanding
    | kvGet key =>
      rw [told, if_pos (hresult.mpr rfl)]
      obtain ⟨w, hw⟩ := hstanding
      have hgot := hval.session c
      rw [hs] at hgot
      obtain ⟨v, hbuffer, hpromised⟩ := hgot
      obtain ⟨hcall, -⟩ := hcur c (Request.kvGet key).call (by rw [hs]; rfl)
      have hbytes := v.cstring_bytes []
      rw [List.append_nil] at hbytes
      rw [hbuffer, Option.bind_some, hbytes]
      obtain he | he := promised_effect hpromised (requestAt_of_call hcall)
      · exact he
      · cases h.marked.effect_unique hw he

theorem Serial.ret (h : Serial programs P) (hcur : Current programs P) (hval : Consistent programs P)
    {call : Client.Call} {success : Bool} {result : Int} (hs : P.session c = .finished call success)
    (hresult : result = 0 ↔ success = true) :
    Serial programs { P with
      session := update P.session c .idle
      index := update P.index c (P.index c + 1)
      history := .returned c (P.index c) result ((P.buffer c).bind cstring) :: P.history } := by
  obtain ⟨hcall, -⟩ := hcur c call (by rw [hs]; rfl)
  obtain ⟨r, hr, rfl⟩ | ⟨hr, rfl⟩ := callAt_eq hcall
  · have hmarks : marks programs (.returned c (P.index c) result ((P.buffer c).bind cstring) ::
      P.history) =
        .seen (.returned (c, P.index c) (told r result ((P.buffer c).bind cstring))) ::
          marks programs P.history := by
      simp [marks, occurrence, hr]
    have hlt : P.index c < update P.index c (P.index c + 1) c := by
      rw [Function.update_self]
      exact Nat.lt_succ_self _
    exact h.mark rfl rfl hlt.le (fun d hd => Function.update_of_ne hd _ _) hmarks
      (h.marked.returned (h.decided_return hcur hval hs hresult)
        fun o ho => Nat.lt_irrefl _ (h.returned c _ o ho)) trivial (fun _ => hlt) (fun _ _ _ => hlt)
  · exact h.past rfl rfl (by simp [marks, occurrence, hr]) (fun _ => rfl) (fun _ _ => trivial)

theorem standing_closed {M : List (Mark (Fin n × Nat) Outcome)} {i : Fin n × Nat} {e : Exchange}
    {success : Bool} (h : Standing M i (.replied e)) (hg : e.reply.region = none)
    (hv : ∀ v, e.reply ≠ .value v)
    (hsuccess : success = true ↔ e.reply = .setSuccessful ∨ e.reply = .getSuccessful) :
    Standing M i (.finished e.letter.query.call success) := by
  have hp := e.proper
  simp only [Standing] at h
  generalize e.letter.query = q at hp
  generalize e.reply = x at *
  cases hp with
  | @refused r =>
    obtain rfl : success = false := by simpa using hsuccess
    cases r <;> exact h
  | not_found =>
    obtain rfl : success = false := by simpa using hsuccess
    exact h
  | stored | closed_set | closed_get =>
    obtain rfl : success = true := by simpa using hsuccess
    exact h
  | granted_set | granted_get => cases hg
  | value => exact absurd rfl (hv _)

theorem Serial.step (h : Serial programs P) (hP : Exact programs P)
    (hs : Protocol.Step programs False P P') : Serial programs P' := by
  have hcur := hP.current
  cases hs with
  | ask hs hcall hq => exact h.ask hs hq
  | @transmit c l hs =>
    have hc := h.standing c
    rw [hs] at hc
    exact h.silent rfl rfl rfl (fun _ => rfl) (by simp) hc
  | transmit_last => exact h.silent rfl rfl rfl (fun _ => rfl) (by simp) trivial
  | lose hlossy => exact hlossy.elim
  | @close c e success b hs hg hv hsuccess hb =>
    have hc := h.standing c
    rw [hs] at hc
    exact h.silent rfl rfl rfl (fun _ => rfl) (by simp) (standing_closed hc hg hv hsuccess)
  | @take_value c e v hs hv =>
    have hc := h.standing c
    have hp := e.proper
    rw [hs] at hc
    simp only [Standing, hv] at hc
    refine h.silent rfl rfl rfl (fun _ => rfl) (by simp) ?_
    rw [hv] at hp
    generalize e.letter.query = q at hp
    cases hp
    exact hc
  | @take_set c e r mr hs hq hx =>
    have hc := h.standing c
    have hp := e.proper
    rw [hs] at hc
    simp only [Standing, hx] at hc
    refine h.silent rfl rfl rfl (fun _ => rfl) (by simp) ?_
    rw [hq, hx] at hp
    cases hp
    exact hc
  | @take_get c e r mr buf hs hq hx hbuf =>
    have hc := h.standing c
    have hp := e.proper
    rw [hs] at hc
    simp only [Standing, hx] at hc
    refine h.silent rfl rfl rfl (fun _ => rfl) (by simp) ?_
    rw [hq, hx] at hp
    cases hp
    exact hc
  | @write c _ _ _ _ _ _ _ hs | @read c _ _ _ _ _ _ _ hs =>
    have hc := h.standing c
    rw [hs] at hc
    exact h.silent rfl rfl rfl (fun _ => rfl) (by simp) hc
  | @reply c e hw =>
    have hc := h.standing c
    rw [hP.linked.answering c e hw] at hc
    exact h.silent rfl rfl rfl (fun _ => rfl) (by simp) hc
  | @fin c r mr moved l hs hall hq =>
    have hc := h.standing c
    rw [hs] at hc
    refine h.silent rfl rfl (marks_asked (by simp [hq]) _ _) (fun _ => rfl) (by simp) ?_
    simp only [Standing, hq]
    cases r <;> exact hc
  | ret hs hresult => exact h.ret hcur hP.values hs hresult
  | @leave c result hs hcall =>
    have hreq : requestAt programs (c, P.index c) = none := by
      obtain ⟨r, -, hr⟩ | ⟨hnone, -⟩ := callAt_eq hcall
      · cases r <;> cases hr
      · exact hnone
    refine h.past (s := P.session c) (Function.update_eq_self _ _).symm rfl
      (by simp [marks, occurrence, hreq]) (fun _ => rfl) (fun M i => ?_)
    obtain hs | ⟨l, hs⟩ := hs <;> rw [hs] <;> trivial
  | refuse hw hs hq hx =>
    exact h.decided hcur (decision_failed hs hq (.inl hx)) (open_of_pending h hs hq)
      fun M => standing_failed (.inl hx)
  | @store c e key v a b x hw hs hq hx =>
    exact h.decided hcur (decision_stored hcur hs (by rw [hq]; rfl) (by simp [hq]) hx)
      (open_of_pending h hs hq) fun M hm => by simpa only [Standing, hx] using hm
  | @grant_set c e key v mr a x y hw hs hq hx =>
    refine h.undecided (undecided_grant hq hx) (by simp [hx]) ?_
    simp only [Standing, hx]
    exact open_of_pending h hs hq
  | not_found hw hs hq hx =>
    exact h.decided hcur (decision_failed hs hq (.inr ⟨hx, _, rfl⟩)) (open_of_pending h hs hq)
      fun M => standing_failed (.inr hx)
  | value hw hs hq hx hsl hfree =>
    obtain ⟨v, -, -, -, hv⟩ := hP.values.entry _ _ hsl hfree
    exact h.decided hcur (decision_read hs hq (.inl ⟨_, hx⟩) hv) (open_of_pending h hs hq)
      fun M => standing_read (.inl ⟨_, hx⟩)
  | grant_get hw hs hq hx hsl hfree =>
    obtain ⟨v, -, -, -, hv⟩ := hP.values.entry _ _ hsl hfree
    exact h.decided hcur (decision_read hs hq (.inr ⟨_, hx⟩) hv) (open_of_pending h hs hq)
      fun M => standing_read (.inr ⟨_, hx⟩)
  | release => exact ⟨h.marked, h.standing, h.invoked, h.returned⟩
  | @finish c e r mr hw hs hq =>
    have hc := h.standing c
    have hp := e.proper
    rw [hs] at hc
    simp only [Standing, hq] at hc
    rw [hq] at hp
    generalize hx : e.reply = x at hp
    cases hp with
    | closed_set =>
      exact h.decided hcur (decision_stored hcur hs (by rw [hq]; rfl) (by simp [hq]) hx) hc
        fun M hm => by simpa only [Standing, hx] using hm
    | closed_get =>
      exact h.undecided (undecided_closed hq hx) (by simp [hx]) (by simpa only [Standing, hx] using hc)
  | @count c l hw hs => exact h.silent rfl rfl rfl (fun _ => rfl) (by simp) trivial
  | lose_reply hlossy => exact hlossy.elim

theorem serial_start (h : Protocol.Start P) : Serial programs P := by
  refine ⟨?_, fun c => ?_, fun c j hm => ?_, fun c j r hm => ?_⟩
  · rw [h.history]
    exact .nil
  · rw [h.session]
    trivial
  · rw [h.history] at hm
    cases hm
  · rw [h.history] at hm
    cases hm

/-- The store is linearizable: the calls of all clients are ordered as if each had happened
at once, at a moment between its invocation and its return. -/
theorem linearizable {S : World n} (hcov : Covered programs) (h : Reached programs S) :
    Linearizable store (requestAt programs) (calls programs S.history) := by
  obtain ⟨P, href, -, -, hserial⟩ := followed (fun _ _ _ _ _ hl => admits_of_succeeds hl)
    (I := fun P => Exact programs P ∧ Serial programs P)
    (fun P hP => ⟨exact_start hP, serial_start hP⟩)
    (fun P P' _ ⟨hP, hserial⟩ hs => ⟨hP.step hcov hs, hserial.step hP hs⟩) h
  have hlinear := hserial.marked.linearizes
  rw [visible_marks, ← href.history] at hlinear
  exact ⟨_, hlinear⟩

theorem linearizable_read :
    ∃ S, Reached storing S ∧ calls storing S.history = [.returned (0, 1) (.value (some [97])),
      .invoked (0, 1), .invoked (1, 0), .returned (0, 0) .stored, .invoked (0, 0)] ∧
        Linearizable store (requestAt storing) (calls storing S.history) := by
  have hrun : ((run (step storing) pair readBack).map (fun S => calls storing S.history)) =
      some [.returned (0, 1) (.value (some [97])), .invoked (0, 1), .invoked (1, 0),
        .returned (0, 0) .stored,
        .invoked (0, 0)] := by
    decide +kernel
  obtain ⟨S, hS, hcalls⟩ := Option.map_eq_some_iff.mp hrun
  have hreached : Reached storing S := Reach.run (.start pair_start) readBack_succeeds hS
  exact ⟨S, hreached, hcalls, linearizable covered_storing hreached⟩

end NetworkOptimization.Linearized
