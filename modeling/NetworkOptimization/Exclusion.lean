import NetworkOptimization.Protocol
import NetworkOptimization.Runs

namespace NetworkOptimization.Exclusion

open Words ControlMessages DynamicArray Tables Network Protocol
open Function (update)

variable {n : Nat} {programs : Fin n → List Request} {lossy : Prop} {P P' : State n}

/-- The server's work and the session it works for agree. -/
structure Linked (P : State n) : Prop where
  answering : ∀ c e, P.work = .answering c e → P.session c = .served e
  served : ∀ c e, P.session c = .served e → P.work = .answering c e
  releasing : ∀ c mr, P.work = .releasing c mr → ∃ l r, P.session c = .pending l ∧ l.query = .fin r mr

/-- An entry is locked exactly while one client has a grant on its key. -/
structure Locks (P : State n) : Prop where
  held : ∀ c key mr, (P.session c).grant = some (key, mr) → P.table key = some (lock mr)
  owned : ∀ key sl, P.table key = some sl → sl.mrRdma.isSome →
    ∃ c mr, (P.session c).grant = some (key, mr)
  sole : ∀ c c' key mr mr', (P.session c).grant = some (key, mr) →
    (P.session c').grant = some (key, mr') → c = c'
  offer : ∀ key sl, P.work.offer = some (key, sl) → P.Free key

/-- Every entry has a block of its own, of the size it announces. -/
structure Placed (P : State n) : Prop where
  live : ∀ key sl, P.table key = some sl →
    ∃ block, P.cells sl.address = some block ∧ block.length = sl.size.toNat
  apart : ∀ key key' sl sl', P.table key = some sl → P.table key' = some sl' →
    sl.address = sl'.address → key = key'
  offer : ∀ key sl, P.work.offer = some (key, sl) →
    (∃ block, P.cells sl.address = some block ∧ block.length = sl.size.toNat) ∧
      ∀ key' sl', P.table key' = some sl' → sl'.address = sl.address → key' = key

theorem session_update {c : Fin n} {s : Session} {d : Fin n} {t : Session}
    (h : update P.session c s d = t) : (d = c ∧ s = t) ∨ (d ≠ c ∧ P.session d = t) := by
  by_cases hd : d = c
  · subst hd
    rw [Function.update_self] at h
    exact .inl ⟨rfl, h⟩
  · rw [Function.update_of_ne hd] at h
    exact .inr ⟨hd, h⟩

theorem Linked.move (h : Linked P) {c : Fin n} {s : Session} (hwork : P'.work = P.work)
    (hsession : P'.session = update P.session c s) (hold : ∀ l, P.session c ≠ .pending l)
    (hold' : ∀ e, P.session c ≠ .served e) (hnew : ∀ e, s ≠ .served e) : Linked P' := by
  refine ⟨fun d e hd => ?_, fun d e hd => ?_, fun d mr hd => ?_⟩
  · rw [hwork] at hd
    have hs := h.answering d e hd
    have hdc : d ≠ c := by
      rintro rfl
      exact hold' e hs
    rw [hsession, Function.update_of_ne hdc, hs]
  · rw [hsession] at hd
    rw [hwork]
    obtain ⟨-, hs⟩ | ⟨-, hs⟩ := session_update hd
    · exact absurd hs (hnew e)
    · exact h.served d e hs
  · rw [hwork] at hd
    obtain ⟨l, r, hs, hq⟩ := h.releasing d mr hd
    have hdc : d ≠ c := by
      rintro rfl
      exact hold l hs
    exact ⟨l, r, by rw [hsession, Function.update_of_ne hdc, hs], hq⟩

theorem Linked.serve (h : Linked P) {c : Fin n} {e : Exchange} (hbusy : ∀ d x, P.work ≠ .answering d x)
    (hwork : P'.work = .answering c e) (hsession : P'.session = update P.session c (.served e)) :
    Linked P' := by
  refine ⟨fun d x hd => ?_, fun d x hd => ?_, fun d mr hd => ?_⟩
  · rw [hwork] at hd
    cases hd
    rw [hsession, Function.update_self]
  · rw [hsession] at hd
    obtain ⟨rfl, hs⟩ | ⟨-, hs⟩ := session_update hd
    · cases hs
      exact hwork
    · exact absurd (h.served d x hs) (hbusy d x)
  · rw [hwork] at hd
    cases hd

theorem linked_finish {c : Fin n} {s : Session} {w : Work n} (hwork : P'.work = w)
    (hfree : w = .free ∨ w = .returned) (hsession : P'.session = update P.session c s)
    (hold : ∀ d e, P.session d = .served e → d = c) (hnew : ∀ e, s ≠ .served e) : Linked P' := by
  have hno : ∀ d e, P'.session d ≠ .served e := by
    intro d e hd
    rw [hsession] at hd
    obtain ⟨-, hs⟩ | ⟨hne, hs⟩ := session_update hd
    · exact hnew e hs
    · exact hne (hold d e hs)
  refine ⟨fun d x hd => ?_, fun d x hd => absurd hd (hno d x), fun d mr hd => ?_⟩ <;>
    rw [hwork] at hd <;> obtain rfl | rfl := hfree <;> cases hd

theorem Linked.step (h : Linked P) (hs : Step programs lossy P P') : Linked P' := by
  cases hs with
  | ask hs | transmit hs | transmit_last hs | lose _ hs | close hs | take_value hs | take_set hs
  | take_get hs | write hs | read hs | fin hs | ret hs =>
    exact h.move rfl rfl (by simp [hs]) (by simp [hs]) (by simp)
  | leave hs => exact ⟨h.answering, h.served, h.releasing⟩
  | refuse hw hs | store hw hs | grant_set hw hs | not_found hw hs | value hw hs | grant_get hw hs
  | finish hw hs => exact h.serve (by simp [hw]) rfl rfl
  | @release c l r mr hw hs hq =>
    refine ⟨fun d e hd => ?_, fun d e hd => ?_, fun d mr' hd => ?_⟩
    · cases hd
    · have hd' := h.served d e hd
      rw [hw] at hd'
      cases hd'
    · cases hd
      exact ⟨l, r, hs, hq⟩
  | @count c l hw hs =>
    refine linked_finish rfl ?_ rfl (fun d e hd => ?_) (by simp)
    · by_cases hc : P.count + 1 = n
      · exact .inr (if_pos hc)
      · exact .inl (if_neg hc)
    · have hd' := h.served d e hd
      rw [hw] at hd'
      cases hd'
  | @reply c e hw | @lose_reply c e _ hw =>
    refine linked_finish rfl (.inl rfl) rfl (fun d x hd => ?_) (by simp)
    have hd' := h.served d x hd
    rw [hw] at hd'
    cases hd'
    rfl

theorem grant_update {c : Fin n} {s : Session} (hs : s.grant = (P.session c).grant) (d : Fin n) :
    (update P.session c s d).grant = (P.session d).grant := by
  by_cases hd : d = c
  · subst hd
    rw [Function.update_self, hs]
  · rw [Function.update_of_ne hd]

theorem Locks.frame (h : Locks P) (htable : P'.table = P.table)
    (hgrant : ∀ c, (P'.session c).grant = (P.session c).grant)
    (hoffer : ∀ key sl, P'.work.offer = some (key, sl) → P.Free key) : Locks P' := by
  refine ⟨fun c key mr hc => ?_, fun key sl hsl hm => ?_, fun c c' key mr mr' hc hc' => ?_,
    fun key sl hw => ?_⟩
  · rw [hgrant] at hc
    rw [htable]
    exact h.held c key mr hc
  · rw [htable] at hsl
    obtain ⟨c, mr, hc⟩ := h.owned key sl hsl hm
    exact ⟨c, mr, (hgrant c).trans hc⟩
  · rw [hgrant] at hc hc'
    exact h.sole c c' key mr mr' hc hc'
  · rw [State.Free, htable]
    exact hoffer key sl hw

theorem Locks.no_grant (h : Locks P) {key : List UInt8} (hfree : P.Free key) (c : Fin n) (mr : Mr) :
    (P.session c).grant ≠ some (key, mr) := by
  intro hc
  have hm := hfree _ (h.held c key mr hc)
  cases hm

theorem Locks.put (h : Locks P) {key : List UInt8} {sl : Slot} (hfree : P.Free key)
    (hsl : sl.mrRdma = none) (htable : P'.table = update P.table key (some sl))
    (hgrant : ∀ c, (P'.session c).grant = (P.session c).grant) (hoffer : P'.work.offer = none) :
    Locks P' := by
  refine ⟨fun c key' mr hc => ?_, fun key' sl' hsl' hm => ?_, fun c c' key mr mr' hc hc' => ?_,
    fun key' sl' hw => ?_⟩
  · rw [hgrant] at hc
    have hne : key' ≠ key := by
      rintro rfl
      exact h.no_grant hfree c mr hc
    rw [htable, Function.update_of_ne hne]
    exact h.held c key' mr hc
  · rw [htable] at hsl'
    by_cases hk : key' = key
    · subst hk
      rw [Function.update_self] at hsl'
      cases hsl'
      rw [hsl] at hm
      cases hm
    · rw [Function.update_of_ne hk] at hsl'
      obtain ⟨c, mr, hc⟩ := h.owned key' sl' hsl' hm
      exact ⟨c, mr, (hgrant c).trans hc⟩
  · rw [hgrant] at hc hc'
    exact h.sole c c' key mr mr' hc hc'
  · rw [hoffer] at hw
    cases hw

theorem Locks.grant (h : Locks P) {c : Fin n} {e : Exchange} (hwork : P.work = .answering c e)
    {mr : Mr} (hx : e.reply.region = some mr) (hno : (P.session c).grant = none) :
    Locks { P with
      session := update P.session c (.replied e)
      work := .free
      table := update P.table e.letter.query.key (some (lock mr)) } := by
  have hfree : P.Free e.letter.query.key :=
    h.offer _ (lock mr) (by rw [hwork]; simp [Work.offer, Exchange.offer, hx])
  have hgrant : ∀ d key mr', (update P.session c (.replied e) d).grant = some (key, mr') →
      (d = c ∧ key = e.letter.query.key ∧ mr' = mr) ∨
        (d ≠ c ∧ key ≠ e.letter.query.key ∧ (P.session d).grant = some (key, mr')) := by
    intro d key mr' hd
    by_cases hdc : d = c
    · subst hdc
      rw [Function.update_self] at hd
      simp only [Session.grant, hx, Option.map_some, Option.some.injEq, Prod.mk.injEq] at hd
      exact .inl ⟨rfl, hd.1.symm, hd.2.symm⟩
    · rw [Function.update_of_ne hdc] at hd
      refine .inr ⟨hdc, ?_, hd⟩
      rintro rfl
      exact h.no_grant hfree d mr' hd
  refine ⟨fun d key mr' hd => ?_, fun key sl hsl hm => ?_, fun d d' key m m' hd hd' => ?_,
    fun key sl hw => (by cases hw)⟩
  · obtain ⟨-, rfl, rfl⟩ | ⟨-, hne, hd'⟩ := hgrant d key mr' hd
    · exact Function.update_self _ _ _
    · exact (Function.update_of_ne hne _ _).trans (h.held d key mr' hd')
  · by_cases hk : key = e.letter.query.key
    · exact ⟨c, mr, by simp [Session.grant, hx, hk]⟩
    · change update P.table _ _ key = some sl at hsl
      rw [Function.update_of_ne hk] at hsl
      obtain ⟨d, mr', hd⟩ := h.owned key sl hsl hm
      have hdc : d ≠ c := by
        rintro rfl
        rw [hno] at hd
        cases hd
      exact ⟨d, mr', by simpa only [Function.update_of_ne hdc] using hd⟩
  · obtain ⟨rfl, hk, -⟩ | ⟨-, hne, hd⟩ := hgrant d key m hd <;>
      obtain ⟨rfl, hk', -⟩ | ⟨-, hne', hd'⟩ := hgrant d' key m' hd'
    · rfl
    · exact absurd hk hne'
    · exact absurd hk' hne
    · exact h.sole d d' key m m' hd hd'

theorem Locks.release (h : Locks P) {c : Fin n} {key : List UInt8} {mr : Mr} {s : Session} {sl : Slot}
    (hc : (P.session c).grant = some (key, mr)) (hs : s.grant = none) (hsl : sl.mrRdma = none)
    (htable : P'.table = update P.table key (some sl))
    (hsession : P'.session = update P.session c s) (hoffer : P'.work.offer = none) : Locks P' := by
  have hgrant : ∀ d key' mr', (P'.session d).grant = some (key', mr') →
      d ≠ c ∧ key' ≠ key ∧ (P.session d).grant = some (key', mr') := by
    intro d key' mr' hd
    rw [hsession] at hd
    by_cases hdc : d = c
    · subst hdc
      rw [Function.update_self, hs] at hd
      cases hd
    · rw [Function.update_of_ne hdc] at hd
      refine ⟨hdc, ?_, hd⟩
      rintro rfl
      exact hdc (h.sole d c key' mr' mr hd hc)
  refine ⟨fun d key' mr' hd => ?_, fun key' sl' hsl' hm => ?_, fun d d' key' m m' hd hd' => ?_,
    fun key' sl' hw => ?_⟩
  · obtain ⟨-, hne, hd'⟩ := hgrant d key' mr' hd
    rw [htable, Function.update_of_ne hne]
    exact h.held d key' mr' hd'
  · rw [htable] at hsl'
    by_cases hk : key' = key
    · subst hk
      rw [Function.update_self] at hsl'
      cases hsl'
      rw [hsl] at hm
      cases hm
    · rw [Function.update_of_ne hk] at hsl'
      obtain ⟨d, mr', hd⟩ := h.owned key' sl' hsl' hm
      have hdc : d ≠ c := by
        rintro rfl
        rw [hc] at hd
        cases hd
        exact hk rfl
      exact ⟨d, mr', by rw [hsession, Function.update_of_ne hdc]; exact hd⟩
  · exact h.sole d d' key' m m' (hgrant d key' m hd).2.2 (hgrant d' key' m' hd').2.2
  · rw [hoffer] at hw
    cases hw

theorem offer_request {c : Fin n} {e : Exchange} {key : List UInt8} {sl : Slot}
    (h : (Work.answering c e).offer = some (key, sl)) : key = e.letter.query.key := by
  simp only [Work.offer, Exchange.offer, Option.map_eq_some_iff, Prod.mk.injEq] at h
  obtain ⟨mr, -, hk, -⟩ := h
  exact hk.symm

theorem offer_locked {e : Exchange} {key : List UInt8} {sl : Slot} (h : e.offer = some (key, sl)) :
    sl.mrRdma.isSome := by
  obtain ⟨mr, -, heq⟩ := Option.map_eq_some_iff.mp h
  cases heq
  rfl

theorem Locks.step (h : Locks P) (hl : Linked P) (hs : Step programs lossy P P') : Locks P' := by
  cases hs with
  | @ask _ call _ hs _ hq =>
    refine h.frame rfl (grant_update ?_) h.offer
    simp only [Session.grant, hs, hq]
    cases call <;> rfl
  | transmit hs => exact h.frame rfl (grant_update (by simp [Session.grant, hs])) h.offer
  | transmit_last hs hq =>
    exact h.frame rfl (grant_update (by simp [Session.grant, hs, hq, Query.region])) h.offer
  | lose _ hs hq => exact h.frame rfl (grant_update (by simp [Session.grant, hs, hq])) h.offer
  | close hs hg => exact h.frame rfl (grant_update (by simp [Session.grant, hs, hg])) h.offer
  | take_value hs hv =>
    exact h.frame rfl (grant_update (by simp [Session.grant, hs, hv, Reply.region])) h.offer
  | take_set hs hq hx =>
    exact h.frame rfl (grant_update (by simp [Session.grant, hs, hq, hx, Reply.region, Query.key])) h.offer
  | take_get hs hq hx =>
    exact h.frame rfl (grant_update (by simp [Session.grant, hs, hq, hx, Reply.region, Query.key])) h.offer
  | write hs | read hs => exact h.frame rfl (grant_update (by simp [Session.grant, hs])) h.offer
  | fin hs _ hq =>
    exact h.frame rfl (grant_update (by simp [Session.grant, hs, hq, Query.region, Query.key])) h.offer
  | ret hs => exact h.frame rfl (grant_update (by simp [Session.grant, hs])) h.offer
  | leave hs => exact ⟨h.held, h.owned, h.sole, h.offer⟩
  | refuse _ hs hq hx =>
    refine h.frame rfl (grant_update (by simp [Session.grant, hs, hq, Query.region])) ?_
    simp [Work.offer, Exchange.offer, hx, Reply.region]
  | not_found _ hs hq hx =>
    refine h.frame rfl (grant_update (by simp [Session.grant, hs, hq, Query.region])) ?_
    simp [Work.offer, Exchange.offer, hx, Reply.region]
  | value _ hs hq hx =>
    refine h.frame rfl (grant_update (by simp [Session.grant, hs, hq, Query.region])) ?_
    simp [Work.offer, Exchange.offer, hx, Reply.region]
  | grant_set _ hs hq hx hfree =>
    refine h.frame rfl (grant_update (by simp [Session.grant, hs, hq, Query.region])) ?_
    intro k sl hw
    rw [offer_request hw, hq]
    exact hfree
  | grant_get _ hs hq hx hsl hfree =>
    refine h.frame rfl (grant_update (by simp [Session.grant, hs, hq, Query.region])) ?_
    intro k sl hw
    rw [offer_request hw, hq]
    intro sl' hsl'
    have heq := hsl.symm.trans hsl'
    cases heq
    exact hfree
  | store _ hs hq hx hfree =>
    exact h.put hfree rfl rfl (grant_update (by simp [Session.grant, hs, hq, Query.region]))
      (by simp [Work.offer, Exchange.offer, hx, Reply.region])
  | release hw => exact ⟨h.held, h.owned, h.sole, fun key sl ho => (by cases ho)⟩
  | @finish c e r mr hw hs hq =>
    have hgrant : (P.session c).grant = some (r.key.chars, mr) := by
      simp [Session.grant, hs, hq, Query.region, Query.key]
    apply h.release hgrant rfl rfl rfl rfl
    have hp := e.proper
    rw [hq] at hp
    cases hx : e.reply <;> rw [hx] at hp <;> cases hp <;>
      simp [Work.offer, Exchange.offer, hx, Reply.region]
  | count _ hs =>
    refine h.frame rfl (grant_update (by simp [Session.grant, hs])) ?_
    intro key sl ho
    by_cases hc : P.count + 1 = n <;> simp [hc, Work.offer] at ho
  | @reply c e hw =>
    have hs := hl.answering c e hw
    cases hx : e.reply.region with
    | none =>
      refine h.frame (by simp [Exchange.offer, hx, record]) (grant_update ?_)
        (fun key sl ho => by cases ho)
      simp [Session.grant, hs, hx]
    | some mr =>
      have hg := h.grant hw hx (by rw [hs]; rfl)
      simpa [Exchange.offer, hx, record] using hg
  | lose_reply _ hw =>
    exact h.frame rfl (grant_update (by simp [Session.grant, hl.answering _ _ hw]))
      (fun key sl ho => by cases ho)

theorem Placed.frame (h : Placed P) (htable : P'.table = P.table)
    (hkeeps : ∀ a block, P.cells a = some block →
      ∃ block', P'.cells a = some block' ∧ block'.length = block.length)
    (hoffer : P'.work.offer = none ∨ P'.work.offer = P.work.offer) : Placed P' := by
  have hlive : ∀ sl : Slot, (∃ block, P.cells sl.address = some block ∧ block.length = sl.size.toNat) →
      ∃ block, P'.cells sl.address = some block ∧ block.length = sl.size.toNat := by
    rintro sl ⟨block, hb, hl⟩
    obtain ⟨block', hb', hl'⟩ := hkeeps _ _ hb
    exact ⟨block', hb', hl'.trans hl⟩
  refine ⟨fun key sl hsl => ?_, fun key key' sl sl' hsl hsl' => ?_, fun key sl hw => ?_⟩
  · rw [htable] at hsl
    exact hlive sl (h.live key sl hsl)
  · rw [htable] at hsl hsl'
    exact h.apart key key' sl sl' hsl hsl'
  · obtain ho | ho := hoffer <;> rw [ho] at hw
    · cases hw
    · obtain ⟨hl, ha⟩ := h.offer key sl hw
      rw [htable]
      exact ⟨hlive sl hl, ha⟩

theorem Placed.put (h : Placed P) (key : List UInt8) (sl : Slot)
    (hlive : ∃ block, P.cells sl.address = some block ∧ block.length = sl.size.toNat)
    (hother : ∀ key' sl', P.table key' = some sl' → sl'.address = sl.address → key' = key)
    (htable : P'.table = update P.table key (some sl)) (hcells : P'.cells = P.cells)
    (hoffer : P'.work.offer = none) : Placed P' := by
  have hor : ∀ key' sl', P'.table key' = some sl' →
      (key' = key ∧ sl' = sl) ∨ (key' ≠ key ∧ P.table key' = some sl') := by
    intro key' sl' hsl'
    rw [htable] at hsl'
    by_cases hk : key' = key
    · subst hk
      rw [Function.update_self] at hsl'
      exact .inl ⟨rfl, (Option.some.inj hsl').symm⟩
    · rw [Function.update_of_ne hk] at hsl'
      exact .inr ⟨hk, hsl'⟩
  refine ⟨fun key' sl' hsl' => ?_, fun k k' x x' hx hx' heq => ?_, fun k x hw => ?_⟩
  · rw [hcells]
    obtain ⟨-, rfl⟩ | ⟨-, hsl⟩ := hor key' sl' hsl'
    · exact hlive
    · exact h.live key' sl' hsl
  · obtain ⟨rfl, rfl⟩ | ⟨-, hx⟩ := hor k x hx <;> obtain ⟨rfl, rfl⟩ | ⟨-, hx'⟩ := hor k' x' hx'
    · rfl
    · exact (hother k' x' hx' heq.symm).symm
    · exact hother k x hx heq
    · exact h.apart k k' x x' hx hx' heq
  · rw [hoffer] at hw
    cases hw

theorem keeps_add {cells : UInt64 → Option (List UInt8)} {a b : UInt64} {x y : List UInt8}
    (ha : cells a = none) (hb : cells b = none) (d : UInt64) (block : List UInt8)
    (hd : cells d = some block) : update (update cells a (some x)) b (some y) d = some block := by
  have hda : d ≠ a := by
    rintro rfl
    rw [ha] at hd
    cases hd
  have hdb : d ≠ b := by
    rintro rfl
    rw [hb] at hd
    cases hd
  rw [Function.update_of_ne hdb, Function.update_of_ne hda, hd]

theorem Placed.not_used (h : Placed P) {b : UInt64} (hb : P.cells b = none) {key : List UInt8} {sl : Slot}
    (hsl : P.table key = some sl) : sl.address ≠ b := by
  rintro rfl
  obtain ⟨block, hblock, -⟩ := h.live key sl hsl
  rw [hb] at hblock
  cases hblock

theorem Placed.add (h : Placed P) {a b : UInt64} {x y : List UInt8} (ha : P.cells a = none)
    (hb : P.cells b = none) (hoffer : P.work.offer = none) :
    Placed { P with cells := update (update P.cells a (some x)) b (some y) } :=
  h.frame rfl (fun d block hd => ⟨block, keeps_add ha hb d block hd, rfl⟩) (.inl hoffer)

theorem offer_none {c : Fin n} {e : Exchange} (h : e.reply.region = none) :
    (Work.answering c e).offer = none := by
  simp [Work.offer, Exchange.offer, h]

theorem offer_region {c : Fin n} {e : Exchange} (mr : Mr) (h : e.reply.region = some mr) :
    (Work.answering c e).offer = some (e.letter.query.key, lock mr) := by
  simp [Work.offer, Exchange.offer, h]

theorem Placed.step (h : Placed P) (hlocks : Locks P) (hs : Step programs lossy P P') : Placed P' := by
  have hsame : ∀ a block, P.cells a = some block →
      ∃ block', P.cells a = some block' ∧ block'.length = block.length :=
    fun a block hb => ⟨block, hb, rfl⟩
  cases hs with
  | ask | transmit | transmit_last | lose | close | take_value | take_set | take_get | read | fin
  | ret | leave => exact ⟨h.live, h.apart, h.offer⟩
  | @write c key v mr moved i byte block hs hbyte hblock =>
    refine h.frame rfl (fun a x hx => ?_) (.inr rfl)
    by_cases ha : a = mr.addr
    · subst ha
      rw [hblock] at hx
      cases hx
      exact ⟨_, Function.update_self _ _ _, List.length_set⟩
    · exact ⟨x, by simp [ha, hx], rfl⟩
  | refuse _ _ _ hx | not_found _ _ _ hx | value _ _ _ hx =>
    exact h.frame rfl hsame (.inl (offer_none (by rw [hx]; rfl)))
  | @store c e key v a b x hw hs hq hx hfree ha hb hab =>
    have hp := h.add (x := x) (y := v.bytes) ha hb (by rw [hw]; rfl)
    refine hp.put key.chars ⟨b, v.size, none⟩ ⟨v.bytes, Function.update_self _ _ _, ?_⟩
      (fun key' sl' hsl' heq => ?_) rfl rfl (offer_none (by rw [hx]; rfl))
    · simp
    · exact absurd heq (h.not_used hb hsl')
  | @grant_set c e key v mr a x y hw hs hq hx hfree ha hb hab hy =>
    have hp := h.add (x := x) (y := y) ha hb (by rw [hw]; rfl)
    refine ⟨hp.live, hp.apart, fun key' sl' ho => ?_⟩
    rw [offer_region mr (by rw [hx]; rfl)] at ho
    cases ho
    refine ⟨⟨y, Function.update_self _ _ _, hy⟩, fun key' sl' hsl' heq => ?_⟩
    exact absurd heq (h.not_used hb hsl')
  | @grant_get c e key mr sl hw hs hq hx hsl hfree haddr hlength =>
    refine ⟨h.live, h.apart, fun key' sl' ho => ?_⟩
    rw [offer_region mr (by rw [hx]; rfl), hq] at ho
    cases ho
    refine ⟨?_, fun key' sl' hsl' heq => ?_⟩
    · obtain ⟨block, hb, hl⟩ := h.live _ sl hsl
      rw [← haddr] at hb
      rw [← hlength] at hl
      exact ⟨block, hb, hl⟩
    · exact h.apart _ _ sl' sl hsl' hsl (heq.trans haddr)
  | release => exact ⟨h.live, h.apart, fun key sl ho => (by cases ho)⟩
  | @finish c e r mr hw hs hq =>
    have hgrant : (P.session c).grant = some (r.key.chars, mr) := by
      simp [Session.grant, hs, hq, Query.region, Query.key]
    have hheld := hlocks.held c _ _ hgrant
    obtain ⟨block, hb, hl⟩ := h.live _ (lock mr) hheld
    refine h.put r.key.chars ⟨mr.addr, mr.length, none⟩ ⟨block, hb, hl⟩
      (fun key' sl' hsl' heq => ?_) rfl rfl (offer_none ?_)
    · exact h.apart _ _ sl' (lock mr) hsl' hheld heq
    · have hp := e.proper
      rw [hq] at hp
      cases hx : e.reply <;> rw [hx] at hp <;> cases hp <;> rfl
  | count hw =>
    refine h.frame rfl hsame (.inl ?_)
    by_cases hc : P.count + 1 = n <;> simp [hc, Work.offer]
  | @reply c e hw =>
    cases hx : e.reply.region with
    | none => exact h.frame (by simp [Exchange.offer, hx, record]) hsame (.inl rfl)
    | some mr =>
      have ho := offer_region mr hx (c := c)
      rw [← hw] at ho
      obtain ⟨hlive, hother⟩ := h.offer _ _ ho
      exact h.put _ _ hlive hother (by simp [Exchange.offer, hx, record]) rfl rfl
  | lose_reply => exact h.frame rfl hsame (.inl rfl)

end NetworkOptimization.Exclusion
