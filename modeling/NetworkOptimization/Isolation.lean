import NetworkOptimization.Linearized
import NetworkOptimization.Locking

namespace NetworkOptimization.Isolation

open Words Memory ControlMessages DynamicArray Server Handlers Tables Runs Linearization
open Network Protocol Histories Exclusion Records Values Refinement Correspondence Store Locking
open Linearized
open Function (update)

variable {n : Nat} {programs : Fin n → List Request} {lossy : Prop} {P P' : State n} {c : Fin n}
  {key : List UInt8}

theorem grant_call (hcur : Current programs P) {key : List UInt8} {mr : Mr}
    (hg : (P.session c).grant = some (key, mr)) :
    ∃ r, callAt programs c (P.index c) = some (Request.call r) ∧ r.key.chars = key := by
  have hquery : ∀ q : Query, q ≠ .shutDown → ∃ r : Request, q.call = r.call ∧ r.key.chars = q.key := by
    intro q hq
    cases q with
    | request r | fin r mr => exact ⟨r, rfl, rfl⟩
    | shutDown => exact absurd rfl hq
  have hopen : ∃ r : Request, (P.session c).call = some r.call ∧ r.key.chars = key := by
    cases hs : P.session c with
    | going l | pending l =>
      rw [hs] at hg
      obtain ⟨mr', hregion, heq⟩ := Option.map_eq_some_iff.mp hg
      cases heq
      obtain ⟨r, hcall, hkey⟩ := hquery l.query fun hq => by
        rw [hq] at hregion
        cases hregion
      exact ⟨r, congrArg some hcall, hkey⟩
    | replied e =>
      rw [hs] at hg
      obtain ⟨mr', hregion, heq⟩ := Option.map_eq_some_iff.mp hg
      cases heq
      obtain ⟨r, hcall, hkey⟩ := hquery e.letter.query (ClientSteps.not_shutDown e)
      exact ⟨r, congrArg some hcall, hkey⟩
    | holding r mr' moved =>
      rw [hs] at hg
      cases hg
      exact ⟨r, rfl, rfl⟩
    | idle | served e | finished call success | stranded l | leaving l | gone =>
      rw [hs] at hg
      cases hg
  obtain ⟨r, hcall, hkey⟩ := hopen
  exact ⟨r, (hcur c r.call hcall).1, hkey⟩

/-- Whoever was told that a key is in progress shared it with a call of another client that
had been granted the key and had not returned. -/
def Justified (programs : Fin n → List Request) (H : List (Event n)) : Prop :=
  ∀ later c request reply earlier key, H = later ++ .answered c request reply :: earlier →
    reply.operation = .serverInProgress → stringAt request.buf 0 = some key →
      ∃ d j mr r, d ≠ c ∧ Granted earlier d j key mr ∧
        callAt programs d j = some (Request.call r) ∧ r.key.chars = key ∧
          ∀ result value, Event.returned d j result value ∉ earlier

theorem Justified.push {H : List (Event n)} (h : Justified programs H) (e : Event n)
    (he : ∀ c request reply key, e = .answered c request reply → reply.operation = .serverInProgress →
      stringAt request.buf 0 = some key → ∃ d j mr r, d ≠ c ∧ Granted H d j key mr ∧
        callAt programs d j = some (Request.call r) ∧ r.key.chars = key ∧
          ∀ result value, Event.returned d j result value ∉ H) : Justified programs (e :: H) := by
  intro later c request reply earlier key heq hop hkey
  cases later with
  | nil =>
    obtain ⟨rfl, rfl⟩ := List.cons.inj heq
    exact he c request reply key rfl hop hkey
  | cons e' later =>
    obtain ⟨-, heq⟩ := List.cons.inj heq
    exact h later c request reply earlier key heq hop hkey

theorem locked_elsewhere (hlocks : Locks P) {l : Letter} {r : Request}
    (hs : P.session c = .pending l) (hq : l.query = .request r) {key : List UInt8} {sl : Slot}
    (hsl : P.table key = some sl) (hm : sl.mrRdma.isSome) :
    ∃ d mr, d ≠ c ∧ (P.session d).grant = some (key, mr) := by
  obtain ⟨d, mr, hg⟩ := hlocks.owned key sl hsl hm
  refine ⟨d, mr, ?_, hg⟩
  rintro rfl
  rw [hs, Session.grant, hq] at hg
  cases hg

theorem Justified.step (h : Justified programs P.history) (ho : Orderly programs P) (hpast : Past P)
    (hs : Protocol.Step programs lossy P P') : Justified programs P'.history := by
  have hother : ∀ (c : Fin n) (e : Exchange), e.reply ≠ .inProgress →
      Justified programs (.answered c e.letter.message e.message :: P.history) := by
    intro c e hx
    refine h.push _ fun d request reply key heq hop => ?_
    cases heq
    rw [e.carries.1] at hop
    cases hr : e.reply with
    | inProgress => exact absurd hr hx
    | keyNotFound | setSuccessful | getSuccessful | value v | setRendezvous mr | getRendezvous mr =>
      rw [hr] at hop
      cases hop
  cases hs with
  | transmit | transmit_last | lose | write | read | release | count | reply | lose_reply => exact h
  | ask | close | take_value | take_set | take_get | fin | ret | leave =>
    exact h.push _ (fun c request reply key heq => by cases heq)
  | store _ _ _ hx | not_found _ _ _ hx | grant_set _ _ _ hx | value _ _ _ hx | grant_get _ _ _ hx =>
    exact hother _ _ (by simp [hx])
  | @finish c e r mr hw hs hq =>
    refine hother _ _ fun hx => ?_
    have hp := e.proper
    rw [hq, hx] at hp
    cases hp
  | @refuse c e r sl hw hs hq hx hsl hlocked =>
    refine h.push _ fun d request reply key heq _ hkey => ?_
    cases heq
    rw [Letter.key_eq e.letter (ClientSteps.not_shutDown e), hq] at hkey
    cases hkey
    obtain ⟨d, mr, hd, hg⟩ := locked_elsewhere ho.locks hs hq hsl hlocked
    obtain ⟨r', hcall, hkey⟩ := grant_call ho.current hg
    exact ⟨d, P.index d, mr, r', hd, granted_of_grant ho hg, hcall, hkey,
      fun result value hm => Nat.lt_irrefl _ (hpast d _ result value hm)⟩

theorem past_start (h : Protocol.Start P) : Past P := by
  intro c j result value hm
  rw [h.history] at hm
  cases hm

theorem justified_start (h : Protocol.Start P) : Justified programs P.history := by
  intro later c request reply earlier key heq
  rw [h.history] at heq
  simp at heq

/-- Nobody is refused without reason, whatever tolerable failures there were. -/
theorem refusals_justified {S : World n}
    (h : Reach Network.Start (Network.Step programs) Tolerable S) : Justified programs S.history := by
  obtain ⟨P, href, -, -, hjust⟩ := followed
    (I := fun P => Past P ∧ Justified programs P.history)
    (fun _ _ _ href ho hl => admits_of_tolerable href ho hl)
    (fun P hP => ⟨past_start hP, justified_start hP⟩)
    (fun P P' ho ⟨hpast, hjust⟩ hs => ⟨hpast.step hs, hjust.step ho hpast hs⟩) h
  rw [href.history]
  exact hjust

theorem refusals_justified_shared :
    ∃ S, Reach Network.Start (Network.Step sharing) Tolerable S ∧
      (lastAnswer 1 S.history).map (fun a => a.2.2.operation) = some .serverInProgress ∧
        Justified sharing S.history := by
  have hrun : (run (step sharing) pair (handing 0 ++ [.server 0, .send .server 0 .ok, .server 0, .next] ++
      handing 1)).map (fun S => (lastAnswer 1 S.history).map (fun a => a.2.2.operation)) =
        some (some .serverInProgress) := by
    decide +kernel
  obtain ⟨S, hS, hanswer⟩ := Option.map_eq_some_iff.mp hrun
  have hreached := @Reach.run _ _ _ Tolerable _ _ _ _ (.start pair_start) (by simp [handing, Tolerable]) hS
  exact ⟨S, hreached, hanswer, refusals_justified hreached⟩

theorem accepted_of_committed {key : List UInt8} {H : List (Event n)}
    (h : committed programs key H ≠ none) : Accepted programs key H := by
  induction H with
  | nil => exact absurd rfl h
  | cons e H ih =>
    cases e with
    | asked | took | returned => exact ih h
    | answered d request reply =>
      by_cases hop : reply.operation = .serverKvSetSuccessful
      · rw [committed, if_pos hop] at h
        cases hset : setBy programs d key H with
        | none =>
          rw [hset] at h
          exact .inr (ih h)
        | some v => exact .inl ⟨.inl hop, by rw [hset]; simp⟩
      · rw [committed, if_neg hop] at h
        exact .inr (ih h)

/-- What a step does to the calls: it decides none, or it decides the current call of one
client. -/
inductive Traced (programs : Fin n → List Request) (P P' : State n) : Prop
  | quiet (hm : ∀ i o, .effect i o ∈ marks programs P'.history ↔ .effect i o ∈ marks programs P.history)
      (hc : ∀ key, committed programs key P'.history = committed programs key P.history)
      (hi : ∀ d, P'.index d = P.index d ∨ (P'.index d = P.index d + 1 ∧ ∀ r,
        requestAt programs (d, P.index d) = some r →
          ∃ o, .effect (d, P.index d) o ∈ marks programs P.history))
  | decided {c e r o} (hd : Decision programs P c e r o)
      (hh : P'.history = .answered c e.letter.message e.message :: P.history)
      (hopen : ∀ o, .effect (c, P.index c) o ∉ marks programs P.history)
      (hfailed : o = .failed →
        (∃ key, r = .kvGet key ∧ committed programs key.chars P.history = none) ∨
          ∃ d mr, d ≠ c ∧ (P.session d).grant = some (r.key.chars, mr))
      (hi : P'.index = P.index)

theorem Traced.still (hm : marks programs P'.history = marks programs P.history)
    (hc : ∀ key, committed programs key P'.history = committed programs key P.history)
    (hi : P'.index = P.index) : Traced programs P P' :=
  .quiet (fun _ _ => by rw [hm]) hc (fun d => .inl (congrFun hi d))

theorem effect_seen {M : List (Mark (Fin n × Nat) Outcome)}
    (o : Option (Occurrence (Fin n × Nat) Outcome)) {i : Fin n × Nat} {r : Outcome} :
    .effect i r ∈ (o.map Mark.seen).toList ++ M ↔ .effect i r ∈ M := by
  cases o <;> simp

theorem traced (h : Serial programs P) (hP : Exact programs P)
    (hs : Protocol.Step programs False P P') : Traced programs P P' := by
  have hcur := hP.current
  have hnext : ∀ c, (∀ r, requestAt programs (c, P.index c) = some r →
      ∃ o, .effect (c, P.index c) o ∈ marks programs P.history) → ∀ d,
      update P.index c (P.index c + 1) d = P.index d ∨
        (update P.index c (P.index c + 1) d = P.index d + 1 ∧
        ∀ r, requestAt programs (d, P.index d) = some r →
          ∃ o, .effect (d, P.index d) o ∈ marks programs P.history) := by
    intro c hc d
    by_cases hd : d = c
    · subst hd
      exact .inr ⟨Function.update_self _ _ _, hc⟩
    · exact .inl (Function.update_of_ne hd _ _)
  cases hs with
  | transmit | transmit_last | write | read | release | count | reply =>
    exact .still rfl (fun _ => rfl) rfl
  | lose hlossy | lose_reply hlossy => exact hlossy.elim
  | ask | close | take_value | take_set | take_get | fin =>
    exact .quiet (fun i o => effect_seen _) (fun _ => rfl) (fun _ => .inl rfl)
  | @ret c call success result hs hresult =>
    refine .quiet (fun i o => effect_seen _) (fun _ => rfl) (hnext c fun r hr => ?_)
    obtain ⟨hcall, -⟩ := hcur c call (by rw [hs]; rfl)
    obtain ⟨r', -, rfl⟩ | ⟨hnone, -⟩ := callAt_eq hcall
    · exact ⟨_, h.decided_return hcur hP.values hs hresult⟩
    · rw [hnone] at hr
      cases hr
  | @leave c result hs hcall =>
    refine .quiet (fun i o => effect_seen _) (fun _ => rfl) (hnext c fun r hr => ?_)
    obtain ⟨r', -, hr'⟩ | ⟨hnone, -⟩ := callAt_eq hcall
    · cases r' <;> cases hr'
    · rw [hnone] at hr
      cases hr
  | refuse hw hs hq hx hsl hlocked =>
    exact .decided (decision_failed hs hq (.inl hx)) rfl (open_of_pending h hs hq).2
      (fun _ => .inr (locked_elsewhere hP.locks hs hq hsl hlocked)) rfl
  | store hw hs hq hx =>
    exact .decided (decision_stored hcur hs (by rw [hq]; rfl) (by simp [hq]) hx) rfl
      (open_of_pending h hs hq).2 (fun ho => by cases ho) rfl
  | grant_set hw hs hq hx =>
    exact .still (marks_undecided (undecided_grant hq hx) _)
      (fun _ => committed_answered (not_successful (by simp [hx]))) rfl
  | @not_found c e key hw hs hq hx hsl =>
    refine .decided (decision_failed hs hq (.inr ⟨hx, _, rfl⟩)) rfl (open_of_pending h hs hq).2
      (fun _ => .inl ⟨key, rfl, ?_⟩) rfl
    by_contra hne
    exact hP.kept.entry (by rw [hw]; rfl) (accepted_of_committed hne) hsl
  | value hw hs hq hx hsl hfree =>
    obtain ⟨v, -, -, -, hv⟩ := hP.values.entry _ _ hsl hfree
    exact .decided (decision_read hs hq (.inl ⟨_, hx⟩) hv) rfl (open_of_pending h hs hq).2
      (fun ho => by cases ho) rfl
  | grant_get hw hs hq hx hsl hfree =>
    obtain ⟨v, -, -, -, hv⟩ := hP.values.entry _ _ hsl hfree
    exact .decided (decision_read hs hq (.inr ⟨_, hx⟩) hv) rfl (open_of_pending h hs hq).2
      (fun ho => by cases ho) rfl
  | @finish c e r mr hw hs hq =>
    have hc := h.standing c
    have hp := e.proper
    rw [hs] at hc
    simp only [Standing, hq] at hc
    rw [hq] at hp
    generalize hx : e.reply = x at hp
    cases hp with
    | closed_set =>
      exact .decided (decision_stored hcur hs (by rw [hq]; rfl) (by simp [hq]) hx) rfl hc.2
        (fun ho => by cases ho) rfl
    | closed_get =>
      exact .still (marks_undecided (undecided_closed hq hx) _)
        (fun _ => committed_answered (not_successful (by simp [hx]))) rfl

def lastSet (key : List UInt8) (rs : List Request) : Option CString :=
  (rs.filterMap (fun r => sets key r.call)).getLast?

/-- The outcome of a call that comes after the calls `before`, for a map on its own. -/
def expected : Request → List Request → Outcome
  | .kvSet _ _, _ => .stored
  | .kvGet key, before =>
    match lastSet key.chars before with
    | some v => .value (some v.chars)
    | none => .failed

def Owned (programs : Fin n → List Request) (c : Fin n) (key : List UInt8) : Prop :=
  ∀ d ≠ c, ∀ r ∈ programs d, r.key.chars ≠ key

@[simp] theorem lastSet_nil (key : List UInt8) : lastSet key [] = none := rfl

theorem lastSet_append (key : List UInt8) (rs : List Request) (r : Request) :
    lastSet key (rs ++ [r]) = (sets key r.call).or (lastSet key rs) := by
  rw [lastSet, List.filterMap_append]
  cases h : sets key r.call <;> simp [h, lastSet]

theorem does_apply {s t : List UInt8 → Option CString} {r : Request} {o : Outcome}
    (h : Does s (some r) o t) (ho : o = .failed → ∃ key, r = .kvGet key) (key : List UInt8) :
    t key = (sets key r.call).or (s key) := by
  cases h with
  | @set k v =>
    by_cases hk : k.chars = key
    · subst hk
      simp [sets, Request.call]
    · rw [Function.update_of_ne (fun heq => hk heq.symm)]
      simp [sets, Request.call, hk]
  | get => rfl
  | fail =>
    obtain ⟨k, rfl⟩ := ho rfl
    rfl

theorem does_other {s t : List UInt8 → Option CString} {r : Request} {o : Outcome}
    (h : Does s (some r) o t) (hk : r.key.chars ≠ key) : t key = s key := by
  cases h with
  | set => exact Function.update_of_ne (fun heq => hk heq.symm) _ _
  | get | fail => rfl

theorem sets_other {r : Request} (hk : r.key.chars ≠ key) : sets key r.call = none := by
  cases r with
  | kvSet k v => exact if_neg hk
  | kvGet k => rfl

/-- The keys of a client behave as a map of its own. -/
structure Sequential (programs : Fin n → List Request) (P : State n) : Prop where
  effects : ∀ c j o r, .effect (c, j) o ∈ marks programs P.history →
    requestAt programs (c, j) = some r → Owned programs c r.key.chars →
      o = expected r ((programs c).take j)
  stored : ∀ c j key, Owned programs c key →
    (∀ i, (∃ o, .effect (c, i) o ∈ marks programs P.history) ↔ i < j) →
      committed programs key P.history = lastSet key ((programs c).take j)
  earlier : ∀ c i, i < P.index c → i < (programs c).length →
    ∃ o, .effect (c, i) o ∈ marks programs P.history

theorem Sequential.quiet (h : Sequential programs P)
    (hm : ∀ i o, .effect i o ∈ marks programs P'.history ↔ .effect i o ∈ marks programs P.history)
    (hc : ∀ key, committed programs key P'.history = committed programs key P.history)
    (hi : ∀ d, P'.index d = P.index d ∨ (P'.index d = P.index d + 1 ∧ ∀ r,
      requestAt programs (d, P.index d) = some r →
        ∃ o, .effect (d, P.index d) o ∈ marks programs P.history)) : Sequential programs P' := by
  refine ⟨fun c j o r he => h.effects c j o r ((hm _ _).mp he), fun c j key ho hj => ?_,
    fun c i hlt hlen => ?_⟩
  · rw [hc]
    refine h.stored c j key ho fun i => ?_
    rw [← hj i]
    exact exists_congr fun o => (hm _ _).symm
  · simp only [hm]
    obtain heq | ⟨heq, hmade⟩ := hi c
    · exact h.earlier c i (heq ▸ hlt) hlen
    · rw [heq] at hlt
      obtain hlt | rfl := Nat.lt_succ_iff_lt_or_eq.mp hlt
      · exact h.earlier c i hlt hlen
      · exact hmade _ (List.getElem?_eq_getElem hlen)

/-- Where the current call of a client is open, exactly the calls before it are decided. -/
theorem Sequential.decided_below (h : Sequential programs P) (hserial : Serial programs P)
    (hopen : ∀ o, .effect (c, P.index c) o ∉ marks programs P.history)
    (hlen : P.index c < (programs c).length) (i : Nat) :
    (∃ o, .effect (c, i) o ∈ marks programs P.history) ↔ i < P.index c := by
  constructor
  · rintro ⟨o, ho⟩
    obtain ⟨hle, -⟩ := hserial.invoked c i (hserial.marked.invoked_of_effect ho)
    refine lt_of_le_of_ne hle ?_
    rintro rfl
    exact hopen o ho
  · exact fun hlt => h.earlier c i hlt (hlt.trans hlen)

theorem Owned.no_grant (ho : Owned programs c key) (hcur : Current programs P) {d : Fin n} {mr : Mr}
    (hd : d ≠ c) : (P.session d).grant ≠ some (key, mr) := by
  intro hg
  obtain ⟨r, hcall, hkey⟩ := grant_call hcur hg
  exact ho d hd r (List.mem_of_getElem? (requestAt_of_call hcall)) hkey

theorem Sequential.decided (h : Sequential programs P) (hserial : Serial programs P)
    (hcur : Current programs P)
    {e : Exchange} {r : Request} {o : Outcome} (hd : Decision programs P c e r o)
    (hh : P'.history = .answered c e.letter.message e.message :: P.history)
    (hopen : ∀ o, .effect (c, P.index c) o ∉ marks programs P.history)
    (hfailed : o = .failed →
      (∃ key, r = .kvGet key ∧ committed programs key.chars P.history = none) ∨
        ∃ d mr, d ≠ c ∧ (P.session d).grant = some (r.key.chars, mr))
    (hi : P'.index = P.index) : Sequential programs P' := by
  have hr := hd.request hcur
  have hmarks := hd.marks hcur
  have hdoes := hd.does
  obtain ⟨hlen, hget⟩ := List.getElem?_eq_some_iff.mp hr
  have hbelow := h.decided_below hserial hopen hlen
  have hreads : ∀ {key}, Owned programs c key →
      committed programs key P.history = lastSet key ((programs c).take (P.index c)) :=
    fun ho => h.stored c _ _ ho hbelow
  rw [← hh] at hmarks hdoes
  have hmissed : Owned programs c r.key.chars → o = .failed →
      ∃ key, r = .kvGet key ∧ committed programs key.chars P.history = none := by
    intro ho hfail
    refine (hfailed hfail).resolve_right ?_
    rintro ⟨d, mr, hdc, hg⟩
    exact ho.no_grant hcur hdc hg
  refine ⟨fun d j o' r' he hr' ho => ?_, fun d j key ho hj => ?_, fun d i hlt hlen' => ?_⟩
  · rw [hmarks] at he
    obtain heq | he := List.mem_cons.mp he
    · cases heq
      rw [hr] at hr'
      cases hr'
      generalize hs : (fun key => committed programs key P.history) = s at hdoes
      generalize (fun key => committed programs key P'.history) = t at hdoes
      cases hdoes with
      | set => rfl
      | @get k v hv =>
        rw [← hs] at hv
        have hlast := (hreads ho).symm.trans hv
        rw [expected, show lastSet k.chars _ = some v from hlast]
      | fail =>
        obtain ⟨k, rfl, hnone⟩ := hmissed ho rfl
        have hlast := (hreads ho).symm.trans hnone
        rw [expected, show lastSet k.chars _ = none from hlast]
    · exact h.effects d j o' r' he hr' ho
  · simp only [hmarks, List.mem_cons] at hj
    by_cases hdc : d = c
    · subst hdc
      have hlast : P.index d < j := (hj _).mp ⟨o, .inl rfl⟩
      have hnext : ¬ P.index d + 1 < j := by
        intro hlt
        obtain ⟨o', heq | ho'⟩ := (hj _).mpr hlt
        · simp at heq
        · have hless := (hbelow _).mp ⟨o', ho'⟩
          omega
      obtain rfl : j = P.index d + 1 := by omega
      rw [List.take_add_one, show (programs d)[P.index d]? = some r from hr, Option.toList_some,
        lastSet_append, ← hreads ho]
      by_cases hk : r.key.chars = key
      · subst hk
        exact does_apply hdoes (fun hfail => (hmissed ho hfail).imp fun _ h => h.1) _
      · rw [sets_other hk]
        exact does_other hdoes hk
    · have hk : r.key.chars ≠ key := ho c (Ne.symm hdc) r (List.mem_of_getElem? hr)
      refine (does_other hdoes hk).trans (h.stored d j key ho fun i => ?_)
      rw [← hj i]
      refine exists_congr fun o' => (or_iff_right fun heq => hdc ?_).symm
      cases heq
      rfl
  · rw [hi] at hlt
    obtain ⟨o', ho'⟩ := h.earlier d i hlt hlen'
    exact ⟨o', by rw [hmarks]; exact List.mem_cons_of_mem _ ho'⟩

theorem Sequential.step (h : Sequential programs P) (hserial : Serial programs P) (hP : Exact programs P)
    (hs : Protocol.Step programs False P P') : Sequential programs P' := by
  cases traced hserial hP hs with
  | quiet hm hc hi => exact h.quiet hm hc hi
  | decided hd hh hopen hfailed hi => exact h.decided hserial hP.current hd hh hopen hfailed hi

theorem sequential_start (h : Protocol.Start P) : Sequential programs P := by
  refine ⟨fun c j o r he => ?_, fun c j key _ hj => ?_, fun c i hlt => ?_⟩
  · rw [h.history] at he
    cases he
  · rw [h.history] at hj ⊢
    obtain rfl : j = 0 := Nat.eq_zero_of_not_pos fun hpos => by
      obtain ⟨o, ho⟩ := (hj 0).mpr hpos
      cases ho
    rfl
  · rw [h.index] at hlt
    exact absurd hlt (Nat.not_lt_zero i)

/-- On keys that no other client uses the store is a map of the client's own: every set
succeeds, and every get returns what the client set last. -/
theorem own_keys {S : World n} (hcov : Covered programs) (h : Reached programs S) :
    ∀ c j result value r, Event.returned c j result value ∈ S.history →
      requestAt programs (c, j) = some r → Owned programs c r.key.chars →
        told r result value = expected r ((programs c).take j) := by
  obtain ⟨P, href, -, -, hserial, hsequential⟩ := followed (fun _ _ _ _ _ hl => admits_of_succeeds hl)
    (I := fun P => Exact programs P ∧ Serial programs P ∧ Sequential programs P)
    (fun P hP => ⟨exact_start hP, serial_start hP, sequential_start hP⟩)
    (fun P P' _ ⟨hP, hserial, hsequential⟩ hs =>
      ⟨hP.step hcov hs, hserial.step hP hs, hsequential.step hserial hP hs⟩) h
  intro c j result value r hm hr ho
  have hseen : .returned (c, j) (told r result value) ∈ calls programs P.history := by
    rw [href.history] at hm
    refine List.mem_filterMap.mpr ⟨_, hm, ?_⟩
    simp [occurrence, hr]
  rw [← visible_marks, mem_visible] at hseen
  exact hsequential.effects c j _ r (hserial.marked.effect_of_returned hseen) hr ho

theorem own_keys_read :
    ∃ S, Reached storing S ∧ Event.returned 0 1 0 (some [97]) ∈ S.history ∧
      told (.kvGet letter) 0 (some [97]) = expected (.kvGet letter) ((storing 0).take 1) := by
  have hrun : ((run (step storing) pair readBack).map (fun S => S.history.head?)) =
      some (some (.returned 0 1 0 (some [97]))) := by
    decide +kernel
  obtain ⟨S, hS, hhead⟩ := Option.map_eq_some_iff.mp hrun
  have hreached : Reached storing S := Reach.run (.start pair_start) readBack_succeeds hS
  have hm := List.mem_of_mem_head? hhead
  have howned : Owned storing 0 [97] := by
    refine Fin.forall_fin_two.mpr ⟨fun h => absurd rfl h, fun _ r hr => ?_⟩
    obtain rfl := List.mem_singleton.mp hr
    decide
  exact ⟨S, hreached, hm, own_keys covered_storing hreached 0 1 0 _ (.kvGet letter) hm rfl howned⟩

end NetworkOptimization.Isolation
