import NetworkOptimization.Records

namespace NetworkOptimization.Values

open Words ControlMessages DynamicArray Handlers Tables Network Protocol Histories Exclusion Records
open Function (update)

variable {n : Nat} {programs : Fin n → List Request} {P P' : State n}

def Short (v : CString) : Prop := v.strlen + 1 < 2 ^ 32

/-- Every value that a program sends by RDMA fits one request. -/
def Covered (programs : Fin n → List Request) : Prop :=
  ∀ c key v, Request.kvSet key v ∈ programs c → ¬ Client.Eager key v → Short v

/-- The block holds the value that was committed last for the key. -/
def Stored (programs : Fin n → List Request) (P : State n) (key : List UInt8) (a size : UInt64)
    (v : CString) : Prop :=
  P.cells a = some v.bytes ∧ size = v.size ∧ Short v ∧ committed programs key P.history = some v

def Reading (programs : Fin n → List Request) (P : State n) (c : Fin n) (key : List UInt8) (mr : Mr)
    (v : CString) : Prop :=
  Stored programs P key mr.addr mr.length v ∧ Promised programs P.history c (P.index c) key v

def Got (programs : Fin n → List Request) (P : State n) (c : Fin n) (key : List UInt8) : Prop :=
  ∃ v, P.buffer c = some v.bytes ∧ Promised programs P.history c (P.index c) key v

def Agrees (bytes : List UInt8) (v : CString) (moved : Finset Nat) : Prop :=
  bytes.length = v.bytes.length ∧ ∀ i ∈ moved, bytes[i]? = v.bytes[i]?

/-- What an answer says of the values, from its handling on. -/
def Says (programs : Fin n → List Request) (P : State n) (c : Fin n) (e : Exchange) : Prop :=
  match e.letter.query, e.reply with
  | .request (.kvGet key), .value v => Promised programs P.history c (P.index c) key.chars v
  | .request (.kvGet key), .getRendezvous mr => ∃ v, Reading programs P c key.chars mr v
  | .fin (.kvGet key) _, _ => Got programs P c key.chars
  | _, _ => True

/-- How far the value of a call has come, by the session. -/
def Carried (programs : Fin n → List Request) (P : State n) (c : Fin n) : Session → Prop
  | .served e | .replied e => Says programs P c e
  | .holding (.kvSet _ v) mr moved =>
    mr.length = v.size ∧ Short v ∧ ∀ block, P.cells mr.addr = some block → Agrees block v moved
  | .holding (.kvGet key) mr moved =>
    ∃ v, Reading programs P c key.chars mr v ∧ ∃ buf, P.buffer c = some buf ∧ Agrees buf v moved
  | .going l | .pending l =>
    match l.query with
    | .fin (.kvSet _ v) mr => mr.length = v.size ∧ Short v ∧ P.cells mr.addr = some v.bytes
    | .fin (.kvGet key) mr => (∃ v, Reading programs P c key.chars mr v) ∧ Got programs P c key.chars
    | .request _ | .shutDown => True
  | .finished (.kvGet key) true => Got programs P c key.chars
  | .finished _ _ | .idle | .stranded _ | .leaving _ | .gone => True

structure Consistent (programs : Fin n → List Request) (P : State n) : Prop where
  entry : ∀ key sl, P.table key = some sl → sl.mrRdma = none →
    ∃ v, Stored programs P key sl.address sl.size v
  session : ∀ c, Carried programs P c (P.session c)

/-- The key and the region that a session or its answer opens to the client. -/
def access : Session → Option (List UInt8 × Mr)
  | .served e => e.reply.region.map (fun mr => (e.letter.query.key, mr))
  | s => s.grant

theorem access_cases (hl : Linked P) {c : Fin n} {key : List UInt8} {mr : Mr}
    (h : access (P.session c) = some (key, mr)) :
    (P.session c).grant = some (key, mr) ∨ P.work.offer = some (key, lock mr) := by
  cases hs : P.session c with
  | served e =>
    rw [hs] at h
    obtain ⟨mr', hx, heq⟩ := Option.map_eq_some_iff.mp h
    cases heq
    rw [hl.served c e hs]
    exact .inr (offer_region mr hx)
  | idle | going l | pending l | replied e | holding r m moved | finished call success | stranded l
  | leaving l | gone =>
    rw [hs] at h
    exact .inl h

theorem access_live (hlocks : Locks P) (hl : Linked P) (hp : Placed P) {c : Fin n}
    {key : List UInt8} {mr : Mr} (h : access (P.session c) = some (key, mr)) :
    ∃ block, P.cells mr.addr = some block ∧ block.length = mr.length.toNat := by
  obtain hg | ho := access_cases hl h
  · exact hp.live key (lock mr) (hlocks.held c key mr hg)
  · exact (hp.offer key (lock mr) ho).1

/-- What is open to another client is another key and another block. -/
theorem access_apart (hlocks : Locks P) (hl : Linked P) (hp : Placed P) {c d : Fin n} (hdc : d ≠ c)
    {key key' : List UInt8} {mr mr' : Mr} (hc : (P.session c).grant = some (key, mr))
    (hd : access (P.session d) = some (key', mr')) : key' ≠ key ∧ mr'.addr ≠ mr.addr := by
  have hheld := hlocks.held c key mr hc
  have hkey : key' ≠ key := by
    obtain hg | ho := access_cases hl hd
    · rintro rfl
      exact hdc (hlocks.sole d c key' mr' mr hg hc)
    · rintro rfl
      exact hlocks.no_grant (hlocks.offer _ _ ho) c mr hc
  refine ⟨hkey, fun haddr => hkey ?_⟩
  obtain hg | ho := access_cases hl hd
  · exact hp.apart key' key (lock mr') (lock mr) (hlocks.held d key' mr' hg) hheld haddr
  · exact ((hp.offer key' (lock mr') ho).2 key (lock mr) hheld haddr.symm).symm

theorem Carried.frame {c : Fin n} {s : Session} (h : Carried programs P c s)
    (hbuffer : P'.buffer c = P.buffer c) (hindex : P'.index c = P.index c)
    (hpromise : ∀ key v, Promised programs P.history c (P.index c) key v →
      Promised programs P'.history c (P.index c) key v)
    (haccess : ∀ key mr, access s = some (key, mr) → P'.cells mr.addr = P.cells mr.addr ∧
      committed programs key P'.history = committed programs key P.history) :
    Carried programs P' c s := by
  have hgot : ∀ key, Got programs P c key → Got programs P' c key := by
    rintro key ⟨v, hb, hv⟩
    exact ⟨v, hbuffer.trans hb, hindex ▸ hpromise key v hv⟩
  have hreading : ∀ key mr v, access s = some (key, mr) → Reading programs P c key mr v →
      Reading programs P' c key mr v := by
    rintro key mr v ha ⟨⟨hb, hsize, hshort, hv⟩, hprom⟩
    obtain ⟨hcells, hcommitted⟩ := haccess key mr ha
    exact ⟨⟨hcells.trans hb, hsize, hshort, hcommitted.trans hv⟩, hindex ▸ hpromise key v hprom⟩
  have hsays : ∀ e : Exchange, access s = e.reply.region.map (fun mr => (e.letter.query.key, mr)) →
      Says programs P c e → Says programs P' c e := by
    intro e ha hsays
    unfold Says at hsays ⊢
    split
    · rename_i key v hq hx
      rw [hq, hx] at hsays
      exact hindex ▸ hpromise _ _ hsays
    · rename_i key mr hq hx
      rw [hq, hx] at hsays
      obtain ⟨v, hv⟩ := hsays
      exact ⟨v, hreading _ _ v (by rw [ha, hq, hx]; rfl) hv⟩
    · rename_i key mr hq
      rw [hq] at hsays
      exact hgot _ hsays
    · trivial
  cases s with
  | served e | replied e => exact hsays e rfl h
  | holding r mr moved =>
    obtain ⟨hcells, -⟩ := haccess _ mr rfl
    cases r with
    | kvSet key v => exact ⟨h.1, h.2.1, fun block hb => h.2.2 block (hcells ▸ hb)⟩
    | kvGet key =>
      obtain ⟨v, hv, buf, hb, hagrees⟩ := h
      exact ⟨v, hreading _ mr v rfl hv, buf, hbuffer.trans hb, hagrees⟩
  | going l | pending l =>
    cases hq : l.query with
    | fin r mr =>
      have hfin : l.query.region.map (fun mr => (l.query.key, mr)) = some (r.key.chars, mr) := by
        rw [hq]
        rfl
      have ha := haccess r.key.chars mr hfin
      cases r with
      | kvSet key v =>
        simp only [Carried, hq] at h ⊢
        exact ⟨h.1, h.2.1, ha.1.trans h.2.2⟩
      | kvGet key =>
        simp only [Carried, hq] at h ⊢
        obtain ⟨⟨v, hv⟩, hg⟩ := h
        exact ⟨⟨v, hreading _ mr v hfin hv⟩, hgot _ hg⟩
    | request r => simp only [Carried, hq]
    | shutDown => simp only [Carried, hq]
  | finished call success =>
    cases call with
    | kvGet key =>
      cases success with
      | true => exact hgot _ h
      | false => trivial
    | kvSet key v => trivial
    | shutDownServer => trivial
  | idle | stranded l | leaving l | gone => trivial

theorem Consistent.move (h : Consistent programs P) {c : Fin n} {s : Session}
    (hsession : P'.session = update P.session c s) (hbuffer : ∀ d ≠ c, P'.buffer d = P.buffer d)
    (hindex : ∀ d ≠ c, P'.index d = P.index d)
    (hpromise : ∀ d j key v, Promised programs P.history d j key v →
      Promised programs P'.history d j key v)
    (haccess : ∀ d ≠ c, ∀ key mr, access (P.session d) = some (key, mr) →
      P'.cells mr.addr = P.cells mr.addr ∧
        committed programs key P'.history = committed programs key P.history)
    (hentry : ∀ key sl, P'.table key = some sl → sl.mrRdma = none →
      ∃ v, Stored programs P' key sl.address sl.size v)
    (hc : Carried programs P' c s) : Consistent programs P' := by
  refine ⟨hentry, fun d => ?_⟩
  rw [hsession]
  by_cases hdc : d = c
  · subst hdc
    rw [Function.update_self]
    exact hc
  · rw [Function.update_of_ne hdc]
    exact (h.session d).frame (hbuffer d hdc) (hindex d hdc) (hpromise d _) (haccess d hdc)

theorem Consistent.talk (h : Consistent programs P) {c : Fin n} {s : Session}
    (hsession : P'.session = update P.session c s) (hbuffer : ∀ d ≠ c, P'.buffer d = P.buffer d)
    (hindex : ∀ d ≠ c, P'.index d = P.index d) (htable : P'.table = P.table)
    (hcells : P'.cells = P.cells)
    (hpromise : ∀ d j key v, Promised programs P.history d j key v →
      Promised programs P'.history d j key v)
    (hcommitted : ∀ key, committed programs key P'.history = committed programs key P.history)
    (hc : Carried programs P' c s) : Consistent programs P' := by
  refine h.move hsession hbuffer hindex hpromise (fun d _ key mr _ => ⟨by rw [hcells], hcommitted key⟩)
    (fun key sl hsl hm => ?_) hc
  rw [htable] at hsl
  obtain ⟨v, hb, hsize, hshort, hv⟩ := h.entry key sl hsl hm
  exact ⟨v, by rw [hcells]; exact hb, hsize, hshort, (hcommitted key).trans hv⟩

theorem Covered.short (hcov : Covered programs) {c : Fin n} {j : Nat} {key v : CString}
    (h : callAt programs c j = some (.kvSet key v)) (he : ¬ Client.Eager key v) : Short v := by
  obtain hm := List.mem_of_getElem? h
  obtain hm | hm := List.mem_append.mp hm
  · obtain ⟨r, hr, heq⟩ := List.mem_map.mp hm
    cases r with
    | kvSet k w =>
      cases heq
      exact hcov c key v hr he
    | kvGet k => cases heq
  · simp at hm

theorem short_of_eager {key v : CString} (h : Client.Eager key v) : Short v := by
  unfold Client.Eager controlMessageBufferSize at h
  unfold Short
  omega

theorem size_length {v : CString} {size : UInt64} (h : size = v.size) :
    size.toNat = v.bytes.length := by
  rw [h, CString.size_toNat, CString.bytes_length]

theorem size_toUInt32 {v : CString} {size : UInt64} (h : size = v.size) (hs : Short v) :
    size.toUInt32.toNat = v.bytes.length := by
  have hl := size_length h
  rw [CString.bytes_length] at hl ⊢
  rw [UInt64.toNat_toUInt32, hl]
  exact Nat.mod_eq_of_lt hs

theorem Agrees.full {bytes : List UInt8} {v : CString} {moved : Finset Nat} (h : Agrees bytes v moved)
    (hall : ∀ i < v.bytes.length, i ∈ moved) : bytes = v.bytes := by
  apply List.ext_getElem?
  intro i
  by_cases hi : i < v.bytes.length
  · exact h.2 i (hall i hi)
  · rw [List.getElem?_eq_none (by have := h.1; omega), List.getElem?_eq_none (by omega)]

theorem Agrees.set {bytes : List UInt8} {v : CString} {moved : Finset Nat} (h : Agrees bytes v moved)
    {i : Nat} {byte : UInt8} (hbyte : v.bytes[i]? = some byte) :
    Agrees (bytes.set i byte) v (insert i moved) := by
  refine ⟨by rw [List.length_set]; exact h.1, fun j hj => ?_⟩
  have hi : i < bytes.length := by
    rw [h.1]
    exact (List.getElem?_eq_some_iff.mp hbyte).1
  by_cases hij : i = j
  · subst hij
    rw [List.getElem?_set_self hi, hbyte]
  · rw [List.getElem?_set_ne hij]
    obtain rfl | hj := Finset.mem_insert.mp hj
    · exact absurd rfl hij
    · exact h.2 j hj

theorem bytes_inj {v w : CString} {rest : List UInt8} (h : v.bytes = w.bytes ++ rest) : v = w := by
  have hv := CString.cstring_bytes v []
  have hw := CString.cstring_bytes w rest
  rw [List.append_nil, h, hw] at hv
  exact CString.ext (Option.some.inj hv).symm

section Committed

variable {c : Fin n} {request reply : ControlMessage} {H : List (Event n)} {key : List UInt8}

theorem committed_answered (h : reply.operation ≠ .serverKvSetSuccessful) :
    committed programs key (.answered c request reply :: H) = committed programs key H :=
  if_neg h

theorem committed_self {v : CString} (h : reply.operation = .serverKvSetSuccessful)
    (hs : setBy programs c key H = some v) :
    committed programs key (.answered c request reply :: H) = some v := by
  simp [committed, h, hs]

theorem committed_other (hs : setBy programs c key H = none) :
    committed programs key (.answered c request reply :: H) = committed programs key H := by
  simp [committed, hs]

end Committed

theorem Consistent.serve (h : Consistent programs P) {c : Fin n} {e : Exchange}
    (hx : e.reply ≠ .setSuccessful)
    (hc : Says programs { P with
      session := update P.session c (.served e)
      work := .answering c e
      history := .answered c e.letter.message e.message :: P.history } c e) :
    Consistent programs { P with
      session := update P.session c (.served e)
      work := .answering c e
      history := .answered c e.letter.message e.message :: P.history } := by
  have ho : e.message.operation ≠ .serverKvSetSuccessful := by
    rw [e.carries.1]
    cases hr : e.reply <;> first | exact absurd hr hx | simp [Reply.operation]
  exact h.talk rfl (fun _ _ => rfl) (fun _ _ => rfl) rfl rfl (fun _ _ _ _ hp => hp.later _)
    (fun _ => committed_answered ho) hc

theorem promised_now (hcur : Current programs P) {c : Fin n} {l : Letter}
    (hs : P.session c = .pending l) {key v : CString} (hq : l.query = .request (.kvGet key))
    (hv : committed programs key.chars P.history = some v) (reply : ControlMessage) :
    Promised programs (.answered c l.message reply :: P.history) c (P.index c) key.chars v := by
  obtain ⟨-, ha⟩ := hcur c l.query.call (by rw [hs]; rfl)
  have ho := l.carries.1
  rw [hq] at ho
  exact ⟨[], l.message, reply, P.history, rfl, ho, ha, hv⟩

theorem Consistent.close (h : Consistent programs P) {c : Fin n} {e : Exchange} {success : Bool}
    {b : Option (List UInt8)} (hs : P.session c = .replied e)
    (hsuccess : success = true ↔ e.reply = .setSuccessful ∨ e.reply = .getSuccessful)
    (hb : success = true → b = P.buffer c) :
    Consistent programs { P with
      session := update P.session c (.finished e.letter.query.call success)
      buffer := update P.buffer c b
      history := .took c (P.index c) e.message :: P.history } := by
  refine h.talk rfl (fun d hd => Function.update_of_ne hd _ _) (fun _ _ => rfl) rfl rfl
    (fun _ _ _ _ hp => hp.later _) (fun _ => rfl) ?_
  have hc := h.session c
  rw [hs] at hc
  cases success with
  | false => cases e.letter.query.call <;> trivial
  | true =>
    have hp := e.proper
    cases hq : e.letter.query with
    | shutDown => trivial
    | request r =>
      cases r with
      | kvSet key v => trivial
      | kvGet key =>
        rw [hq] at hp
        obtain hx | hx := hsuccess.mp rfl <;> rw [hx] at hp <;> cases hp
    | fin r mr =>
      cases r with
      | kvSet key v => trivial
      | kvGet key =>
        simp only [Carried, Says, hq] at hc
        obtain ⟨v, hbuffer, hv⟩ := hc
        refine ⟨v, ?_, hv.later _⟩
        simp only [Function.update_self]
        rw [hb rfl, hbuffer]

theorem Consistent.fin (h : Consistent programs P) (hlocks : Locks P) (hp : Placed P) {c : Fin n}
    {r : Request} {mr : Mr} {moved : Finset Nat} {l : Letter}
    (hs : P.session c = .holding r mr moved) (hall : ∀ i < mr.length.toUInt32.toNat, i ∈ moved)
    (hq : l.query = .fin r mr) :
    Consistent programs { P with
      session := update P.session c (.going l)
      history := .asked c (P.index c) l.message :: P.history } := by
  refine h.talk rfl (fun _ _ => rfl) (fun _ _ => rfl) rfl rfl (fun _ _ _ _ hp => hp.later _)
    (fun _ => rfl) ?_
  have hc := h.session c
  rw [hs] at hc
  simp only [Carried, hq]
  cases r with
  | kvSet key v =>
    obtain ⟨hsize, hshort, hagrees⟩ := hc
    obtain ⟨block, hb, -⟩ := hp.live key.chars (lock mr) (hlocks.held c _ mr (by rw [hs]; rfl))
    rw [size_toUInt32 hsize hshort] at hall
    refine ⟨hsize, hshort, ?_⟩
    rw [← (hagrees block hb).full hall]
    exact hb
  | kvGet key =>
    obtain ⟨v, ⟨⟨hb, hsize, hshort, hv⟩, hprom⟩, buf, hbuf, hagrees⟩ := hc
    rw [size_toUInt32 hsize hshort] at hall
    refine ⟨⟨v, ⟨hb, hsize, hshort, hv⟩, hprom.later _⟩, v, ?_, hprom.later _⟩
    rw [← hagrees.full hall]
    exact hbuf

theorem Consistent.write (h : Consistent programs P) (hlocks : Locks P) (hl : Linked P)
    (hp : Placed P) {c : Fin n} {key v : CString} {mr : Mr} {moved : Finset Nat} {i : Nat}
    {byte : UInt8} {block : List UInt8} (hs : P.session c = .holding (.kvSet key v) mr moved)
    (hbyte : v.bytes[i]? = some byte) (hblock : P.cells mr.addr = some block) :
    Consistent programs { P with
      session := update P.session c (.holding (.kvSet key v) mr (insert i moved))
      cells := update P.cells mr.addr (some (block.set i byte)) } := by
  have hgrant : (P.session c).grant = some (key.chars, mr) := by
    rw [hs]
    rfl
  have hheld := hlocks.held c _ mr hgrant
  refine h.move rfl (fun _ _ => rfl) (fun _ _ => rfl) (fun _ _ _ _ hp => hp)
    (fun d hd key' mr' ha => ⟨?_, rfl⟩) (fun key' sl hsl hm => ?_) ?_
  · exact Function.update_of_ne (access_apart hlocks hl hp hd hgrant ha).2 _ _
  · obtain ⟨w, hb, hrest⟩ := h.entry key' sl hsl hm
    have hne : sl.address ≠ mr.addr := by
      intro haddr
      obtain rfl := hp.apart key' key.chars sl (lock mr) hsl hheld haddr
      rw [hheld] at hsl
      cases hsl
      cases hm
    exact ⟨w, (Function.update_of_ne hne _ _).trans hb, hrest⟩
  · have hc := h.session c
    rw [hs] at hc
    obtain ⟨hsize, hshort, hagrees⟩ := hc
    refine ⟨hsize, hshort, fun block' hb' => ?_⟩
    simp only [Function.update_self] at hb'
    cases hb'
    exact (hagrees block hblock).set hbyte

theorem Consistent.read (h : Consistent programs P) {c : Fin n} {key : CString} {mr : Mr}
    {moved : Finset Nat} {i : Nat} {byte : UInt8} {block buf : List UInt8}
    (hs : P.session c = .holding (.kvGet key) mr moved) (hblock : P.cells mr.addr = some block)
    (hbyte : block[i]? = some byte) (hbuf : P.buffer c = some buf) :
    Consistent programs { P with
      session := update P.session c (.holding (.kvGet key) mr (insert i moved))
      buffer := update P.buffer c (some (buf.set i byte)) } := by
  refine h.talk rfl (fun d hd => Function.update_of_ne hd _ _) (fun _ _ => rfl) rfl rfl
    (fun _ _ _ _ hp => hp) (fun _ => rfl) ?_
  have hc := h.session c
  rw [hs] at hc
  obtain ⟨v, hv, buf', hbuf', hagrees⟩ := hc
  have hb := hv.1.1
  rw [hblock] at hb
  cases hb
  rw [hbuf] at hbuf'
  cases hbuf'
  exact ⟨v, hv, buf.set i byte, Function.update_self _ _ _, hagrees.set hbyte⟩

theorem access_other_key (hlocks : Locks P) (hl : Linked P) (hbusy : ∀ d e, P.work ≠ .answering d e)
    {c : Fin n} {key key' : List UInt8} {mr : Mr}
    (hkey : P.Free key ∨ ∃ mr', (P.session c).grant = some (key, mr')) {d : Fin n} (hd : d ≠ c)
    (ha : access (P.session d) = some (key', mr)) : key' ≠ key := by
  rintro rfl
  obtain hg | ho := access_cases hl ha
  · obtain hfree | ⟨mr', hc⟩ := hkey
    · exact hlocks.no_grant hfree d mr hg
    · exact hd (hlocks.sole d c key' mr mr' hg hc)
  · cases hw : P.work with
    | answering d' e => exact hbusy d' e hw
    | free => rw [hw] at ho; cases ho
    | releasing d' m => rw [hw] at ho; cases ho
    | returned => rw [hw] at ho; cases ho

theorem Consistent.store (h : Consistent programs P) (hcur : Current programs P) (hlocks : Locks P)
    (hl : Linked P) (hp : Placed P) {c : Fin n} {e : Exchange} {key v : CString} {a b : UInt64}
    {x : List UInt8} (hw : P.work = .free) (hs : P.session c = .pending e.letter)
    (hq : e.letter.query = .request (.kvSet key v)) (hx : e.reply = .setSuccessful)
    (hfree : P.Free key.chars) (ha : P.cells a = none) (hb : P.cells b = none) :
    Consistent programs { P with
      session := update P.session c (.served e)
      work := .answering c e
      table := update P.table key.chars (some ⟨b, v.size, none⟩)
      cells := update (update P.cells a (some x)) b (some v.bytes)
      history := .answered c e.letter.message e.message :: P.history } := by
  have hset : ∀ key', setBy programs c key' P.history = sets key' (.kvSet key v) := by
    intro key'
    have hset := setBy_current hcur hs rfl key'
    rwa [hq] at hset
  have hother : ∀ key', key' ≠ key.chars →
      committed programs key' (.answered c e.letter.message e.message :: P.history) =
        committed programs key' P.history :=
    fun key' hne => committed_other ((hset key').trans (if_neg fun hkk => hne hkk.symm))
  have hself : committed programs key.chars (.answered c e.letter.message e.message :: P.history) =
      some v :=
    committed_self (by rw [e.carries.1, hx]; rfl) ((hset _).trans (if_pos rfl))
  have hkeep : ∀ d (block : List UInt8), P.cells d = some block →
      update (update P.cells a (some x)) b (some v.bytes) d = P.cells d :=
    fun d block hd => (keeps_add ha hb d block hd).trans hd.symm
  have heager : Client.Eager key v := by
    have hproper := e.proper
    rw [hq, hx] at hproper
    cases hproper
    assumption
  refine h.move rfl (fun _ _ => rfl) (fun _ _ => rfl) (fun _ _ _ _ hp => hp.later _)
    (fun d hd key' mr' hacc => ?_) (fun key' sl hsl hm => ?_) ?_
  · obtain ⟨block, hblock, -⟩ := access_live hlocks hl hp hacc
    exact ⟨hkeep _ block hblock, hother key'
      (access_other_key hlocks hl (by simp [hw]) (.inl hfree) hd hacc)⟩
  · by_cases hk : key' = key.chars
    · subst hk
      simp only [Function.update_self] at hsl
      cases hsl
      exact ⟨v, Function.update_self _ _ _, rfl, short_of_eager heager, hself⟩
    · simp only [Function.update_of_ne hk] at hsl
      obtain ⟨w, hblock, hsize, hshort, hv⟩ := h.entry key' sl hsl hm
      exact ⟨w, (hkeep _ _ hblock).trans hblock, hsize, hshort, (hother key' hk).trans hv⟩
  · simp only [Carried, Says, hq]

theorem Consistent.grant_set (h : Consistent programs P) (hlocks : Locks P) (hl : Linked P)
    (hp : Placed P) {c : Fin n} {e : Exchange} {key v : CString} {mr : Mr} {a : UInt64}
    {x y : List UInt8} (hq : e.letter.query = .request (.kvSet key v)) (hx : e.reply = .setRendezvous mr)
    (ha : P.cells a = none) (hb : P.cells mr.addr = none) :
    Consistent programs { P with
      session := update P.session c (.served e)
      work := .answering c e
      cells := update (update P.cells a (some x)) mr.addr (some y)
      history := .answered c e.letter.message e.message :: P.history } := by
  have hsame : ∀ key', committed programs key' (.answered c e.letter.message e.message :: P.history) =
      committed programs key' P.history :=
    fun _ => committed_answered (by rw [e.carries.1, hx]; simp [Reply.operation])
  have hkeep : ∀ d (block : List UInt8), P.cells d = some block →
      update (update P.cells a (some x)) mr.addr (some y) d = P.cells d :=
    fun d block hd => (keeps_add ha hb d block hd).trans hd.symm
  refine h.move rfl (fun _ _ => rfl) (fun _ _ => rfl) (fun _ _ _ _ hp => hp.later _)
    (fun d _ key' mr' hacc => ?_) (fun key' sl hsl hm => ?_) ?_
  · obtain ⟨block, hblock, -⟩ := access_live hlocks hl hp hacc
    exact ⟨hkeep _ block hblock, hsame key'⟩
  · obtain ⟨w, hblock, hsize, hshort, hv⟩ := h.entry key' sl hsl hm
    exact ⟨w, (hkeep _ _ hblock).trans hblock, hsize, hshort, (hsame key').trans hv⟩
  · simp only [Carried, Says, hq]

theorem Consistent.finish (h : Consistent programs P) (hcur : Current programs P)
    (hlocks : Locks P) (hl : Linked P) {c : Fin n} {e : Exchange} {r : Request} {mr : Mr}
    (hw : P.work = .releasing c mr) (hs : P.session c = .pending e.letter)
    (hq : e.letter.query = .fin r mr) :
    Consistent programs { P with
      session := update P.session c (.served e)
      work := .answering c e
      table := update P.table r.key.chars (some ⟨mr.addr, mr.length, none⟩)
      history := .answered c e.letter.message e.message :: P.history } := by
  have hset : ∀ key', setBy programs c key' P.history = sets key' r.call := by
    intro key'
    have hset := setBy_current hcur hs rfl key'
    rwa [hq] at hset
  have hother : ∀ key', key' ≠ r.key.chars →
      committed programs key' (.answered c e.letter.message e.message :: P.history) =
        committed programs key' P.history := by
    intro key' hne
    refine committed_other ((hset key').trans ?_)
    cases r with
    | kvSet key v => exact if_neg fun hkk => hne hkk.symm
    | kvGet key => rfl
  have hgrant : (P.session c).grant = some (r.key.chars, mr) := by
    simp [Session.grant, hs, hq, Query.region, Query.key]
  have hc := h.session c
  rw [hs] at hc
  simp only [Carried, hq] at hc
  refine h.move rfl (fun _ _ => rfl) (fun _ _ => rfl) (fun _ _ _ _ hp => hp.later _)
    (fun d hd key' mr' hacc => ⟨rfl, hother key'
      (access_other_key hlocks hl (by simp [hw]) (.inr ⟨mr, hgrant⟩) hd hacc)⟩)
    (fun key' sl hsl hm => ?_) ?_
  · by_cases hk : key' = r.key.chars
    · subst hk
      simp only [Function.update_self] at hsl
      cases hsl
      have hproper := e.proper
      rw [hq] at hproper
      cases r with
      | kvSet key v =>
        obtain ⟨hsize, hshort, hblock⟩ := hc
        have hx : e.message.operation = .serverKvSetSuccessful := by
          rw [e.carries.1]
          cases hr : e.reply <;> rw [hr] at hproper <;> cases hproper
          rfl
        exact ⟨v, hblock, hsize, hshort, committed_self hx ((hset _).trans (if_pos rfl))⟩
      | kvGet key =>
        obtain ⟨⟨v, ⟨hblock, hsize, hshort, hv⟩, -⟩, -⟩ := hc
        exact ⟨v, hblock, hsize, hshort, (committed_other (hset _)).trans hv⟩
    · simp only [Function.update_of_ne hk] at hsl
      obtain ⟨w, hblock, hsize, hshort, hv⟩ := h.entry key' sl hsl hm
      exact ⟨w, hblock, hsize, hshort, (hother key' hk).trans hv⟩
  · cases r with
    | kvSet key v => simp only [Carried, Says, hq]
    | kvGet key =>
      obtain ⟨-, v, hb, hv⟩ := hc
      simp only [Carried, Says, hq]
      exact ⟨v, hb, hv.later _⟩

theorem Consistent.take (h : Consistent programs P) {c : Fin n} {s : Session}
    {buffer : Fin n → Option (List UInt8)} {reply : ControlMessage}
    (hbuffer : ∀ d ≠ c, buffer d = P.buffer d)
    (hc : Carried programs { P with
      buffer := buffer
      history := .took c (P.index c) reply :: P.history } c s) :
    Consistent programs { P with
      session := update P.session c s
      buffer := buffer
      history := .took c (P.index c) reply :: P.history } :=
  h.talk rfl hbuffer (fun _ _ => rfl) rfl rfl (fun _ _ _ _ hp => hp.later _) (fun _ => rfl) hc

theorem Consistent.step (h : Consistent programs P) (hcov : Covered programs)
    (hcur : Current programs P) (hlocks : Locks P) (hl : Linked P) (hp : Placed P)
    (hs : Step programs False P P') : Consistent programs P' := by
  cases hs with
  | @ask c call l hs hcall hq =>
    refine h.talk rfl (fun _ _ => rfl) (fun _ _ => rfl) rfl rfl (fun _ _ _ _ hp => hp.later _)
      (fun _ => rfl) ?_
    cases call <;> simp only [Carried, hq, Query.ofCall]
  | @transmit c l hs =>
    have hc := h.session c
    rw [hs] at hc
    exact h.talk rfl (fun _ _ => rfl) (fun _ _ => rfl) rfl rfl (fun _ _ _ _ hp => hp) (fun _ => rfl) hc
  | transmit_last =>
    exact h.talk rfl (fun _ _ => rfl) (fun _ _ => rfl) rfl rfl (fun _ _ _ _ hp => hp)
      (fun _ => rfl) trivial
  | lose hlossy => exact hlossy.elim
  | close hs hg hv hsuccess hb => exact h.close hs hsuccess hb
  | @take_value c e v hs hv =>
    apply h.take (fun d hd => Function.update_of_ne hd _ _)
    have hc := h.session c
    have hproper := e.proper
    rw [hs] at hc
    rw [hv] at hproper
    cases hq : e.letter.query with
    | shutDown => trivial
    | fin r mr => rw [hq] at hproper; cases hproper
    | request r =>
      cases r with
      | kvSet key w => trivial
      | kvGet key =>
        simp only [Carried, Says, hq, hv] at hc
        exact ⟨v, Function.update_self _ _ _, hc.later _⟩
  | @take_set c e r mr hs hq hx =>
    apply h.take (fun _ _ => rfl)
    have hproper := e.proper
    rw [hq, hx] at hproper
    cases hproper with
    | @granted_set key v _ he hlength haccess =>
      obtain ⟨hcall, -⟩ := hcur c (.kvSet key v) (by rw [hs, Session.call, hq]; rfl)
      obtain ⟨block, hb, hbl⟩ := hp.live key.chars (lock mr)
        (hlocks.held c _ mr (by rw [hs, Session.grant, hq, hx]; rfl))
      refine ⟨hlength, hcov.short hcall he, fun block' hb' => ⟨?_, by simp⟩⟩
      have heq := hb.symm.trans hb'
      cases heq
      rw [hbl]
      exact size_length hlength
  | @take_get c e r mr buf hs hq hx hbuf =>
    apply h.take (fun d hd => Function.update_of_ne hd _ _)
    have hproper := e.proper
    have hc := h.session c
    rw [hq, hx] at hproper
    rw [hs] at hc
    cases hproper with
    | @granted_get key _ haccess =>
      simp only [Carried, Says, hq, hx] at hc
      obtain ⟨v, hv, hprom⟩ := hc
      refine ⟨v, ⟨hv, hprom.later _⟩, buf, Function.update_self _ _ _, ?_, by simp⟩
      rw [hbuf]
      exact size_length hv.2.1
  | write hs hbyte hblock => exact h.write hlocks hl hp hs hbyte hblock
  | read hs hblock hbyte hbuf => exact h.read hs hblock hbyte hbuf
  | fin hs hall hq => exact h.fin hlocks hp hs hall hq
  | ret hs =>
    exact h.talk rfl (fun _ _ => rfl) (fun d hd => Function.update_of_ne hd _ _) rfl rfl
      (fun _ _ _ _ hp => hp.later _) (fun _ => rfl) trivial
  | @leave c result hs hcall =>
    have hsession : P.session = update P.session c (P.session c) := (Function.update_eq_self _ _).symm
    refine h.talk hsession (fun _ _ => rfl) (fun d hd => Function.update_of_ne hd _ _) rfl rfl
      (fun _ _ _ _ hp => hp.later _) (fun _ => rfl) ?_
    obtain hs | ⟨l, hs⟩ := hs <;> rw [hs] <;> trivial
  | refuse _ _ hq hx =>
    apply h.serve (by rw [hx]; simp)
    simp only [Says, hq, hx]
  | store hw hs hq hx hfree ha hb => exact h.store hcur hlocks hl hp hw hs hq hx hfree ha hb
  | grant_set _ _ hq hx _ ha hb => exact h.grant_set hlocks hl hp hq hx ha hb
  | not_found _ _ hq hx =>
    apply h.serve (by rw [hx]; simp)
    simp only [Says, hq, hx]
  | @value c e key v sl rest _ hs hq hx hsl hfree hblock =>
    apply h.serve (by rw [hx]; simp)
    obtain ⟨w, hb, -, -, hw⟩ := h.entry _ sl hsl hfree
    rw [hblock] at hb
    obtain rfl : w = v := bytes_inj (Option.some.inj hb).symm
    simp only [Says, hq, hx]
    exact promised_now hcur hs hq hw _
  | @grant_get c e key mr sl _ hs hq hx hsl hfree haddr hlength =>
    apply h.serve (by rw [hx]; simp)
    obtain ⟨v, hb, hsize, hshort, hv⟩ := h.entry _ sl hsl hfree
    simp only [Says, hq, hx]
    refine ⟨v, ⟨haddr ▸ hb, hlength.trans hsize, hshort, ?_⟩, promised_now hcur hs hq hv _⟩
    exact (committed_answered (by rw [e.carries.1, hx]; simp [Reply.operation])).trans hv
  | release => exact ⟨h.entry, h.session⟩
  | finish hw hs hq => exact h.finish hcur hlocks hl hw hs hq
  | count =>
    exact h.talk rfl (fun _ _ => rfl) (fun _ _ => rfl) rfl rfl (fun _ _ _ _ hp => hp)
      (fun _ => rfl) trivial
  | @reply c e hw =>
    have hc := h.session c
    rw [hl.answering c e hw] at hc
    refine h.move rfl (fun _ _ => rfl) (fun _ _ => rfl) (fun _ _ _ _ hp => hp)
      (fun _ _ _ _ _ => ⟨rfl, rfl⟩) (fun key sl hsl hm => ?_) hc
    cases hx : e.reply.region with
    | none =>
      simp only [Exchange.offer, hx, Option.map_none, record] at hsl
      exact h.entry key sl hsl hm
    | some mr =>
      simp only [Exchange.offer, hx, Option.map_some, record] at hsl
      by_cases hk : key = e.letter.query.key
      · subst hk
        rw [Function.update_self] at hsl
        cases hsl
        cases hm
      · rw [Function.update_of_ne hk] at hsl
        exact h.entry key sl hsl hm
  | lose_reply hlossy => exact hlossy.elim

end NetworkOptimization.Values
