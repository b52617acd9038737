import NetworkOptimization.Transfers

namespace NetworkOptimization.ServerSteps

open Words Memory ControlMessages DynamicArray Verbs SequentialCode Calls Server Handlers Tables
open Client (ClientMemory ClientCode Call)
open Network Protocol Histories Exclusion Records Seats Refinement ClientSteps Transfers
open Function (update)

variable {n : Nat} {programs : Fin n → List Request} {lossy : Prop} {S S' : World n} {P P' : State n}
  {c : Fin n} {d : Int}

section Letters

variable {l : Letter}

theorem letter_eager (ho : l.message.operation = .clientKvSetEager) :
    ∃ key value, l.query = .request (.kvSet key value) ∧ Client.Eager key value ∧
      stringAt l.message.buf 0 = some key.chars ∧
      word64At l.message.buf (key.chars.length + 1) = some value.size ∧
      stringAt l.message.buf (key.chars.length + 1 + 8) = some value.chars := by
  have hasks := letter_asks l
  obtain ⟨-, stale, hb⟩ := l.carries
  generalize l.query = q at hasks hb
  rw [ho] at hasks
  cases hasks with
  | @eager key value he =>
    have hargs : (Query.request (.kvSet key value)).arguments =
        [.string key, .word64 value.size, .string value] := if_pos he
    rw [hargs] at hb
    have h := offsets_readAt [.string key, .word64 value.size, .string value] [] stale
    rw [List.nil_append, ← hb] at h
    cases h with
    | cons h₁ h =>
      cases h with
      | cons h₂ h =>
        cases h with
        | cons h₃ h =>
          simp only [List.length_nil, Nat.zero_add, Argument.bytes, CString.bytes_length,
            u64Bytes_length] at h₁ h₂ h₃
          exact ⟨key, value, rfl, he, h₁, h₂, h₃⟩

theorem letter_rendezvous (ho : l.message.operation = .clientKvSetRendezvous) :
    ∃ key value, l.query = .request (.kvSet key value) ∧ ¬ Client.Eager key value ∧
      stringAt l.message.buf 0 = some key.chars ∧
      word64At l.message.buf (key.chars.length + 1) = some value.size := by
  have hasks := letter_asks l
  obtain ⟨-, stale, hb⟩ := l.carries
  generalize l.query = q at hasks hb
  rw [ho] at hasks
  cases hasks with
  | @rendezvous key value he =>
    have hargs : (Query.request (.kvSet key value)).arguments =
        [.string key, .word64 value.size] := if_neg he
    rw [hargs] at hb
    have h := offsets_readAt [.string key, .word64 value.size] [] stale
    rw [List.nil_append, ← hb] at h
    cases h with
    | cons h₁ h =>
      cases h with
      | cons h₂ h =>
        simp only [List.length_nil, Nat.zero_add, Argument.bytes, CString.bytes_length] at h₁ h₂
        exact ⟨key, value, rfl, he, h₁, h₂⟩

theorem letter_get (ho : l.message.operation = .clientKvGet) :
    ∃ key, l.query = .request (.kvGet key) := by
  have hasks := letter_asks l
  generalize l.query = q at hasks
  rw [ho] at hasks
  cases hasks with
  | @get key => exact ⟨key, rfl⟩

theorem letter_fin {successful : Operation}
    (ho : (l.message.operation = .clientKvSetRendezvousFin ∧ successful = .serverKvSetSuccessful) ∨
      (l.message.operation = .clientKvGetRendezvousFin ∧ successful = .serverKvGetSuccessful)) :
    ∃ r mr, l.query = .fin r mr ∧ successful = (closed r).operation := by
  have hasks := letter_asks l
  generalize l.query = q at hasks
  obtain ⟨ho, rfl⟩ | ⟨ho, rfl⟩ := ho <;> rw [ho] at hasks
  · cases hasks with
    | fin_set => exact ⟨_, _, rfl, rfl⟩
  · cases hasks with
    | fin_get => exact ⟨_, _, rfl, rfl⟩

theorem letter_request
    (ho : l.message.operation = .clientKvSetEager ∨ l.message.operation = .clientKvSetRendezvous ∨
      l.message.operation = .clientKvGet) : ∃ r, l.query = .request r := by
  obtain ho | ho | ho := ho
  · obtain ⟨key, value, hq, -⟩ := letter_eager ho
    exact ⟨_, hq⟩
  · obtain ⟨key, value, hq, -⟩ := letter_rendezvous ho
    exact ⟨_, hq⟩
  · obtain ⟨key, hq⟩ := letter_get ho
    exact ⟨_, hq⟩

theorem letter_get_key (ho : l.message.operation = .clientKvGet) {key : List UInt8}
    (hkey : stringAt l.message.buf 0 = some key) :
    ∃ q : CString, l.query = .request (.kvGet q) ∧ q.chars = key := by
  obtain ⟨q, hq⟩ := letter_get ho
  rw [Letter.key_eq l (by simp [hq]), hq] at hkey
  exact ⟨q, hq, Option.some.inj hkey⟩

theorem letter_request_key
    (ho : l.message.operation = .clientKvSetEager ∨ l.message.operation = .clientKvSetRendezvous ∨
      l.message.operation = .clientKvGet) {key : List UInt8}
    (hkey : stringAt l.message.buf 0 = some key) :
    ∃ r : Request, l.query = .request r ∧ r.key.chars = key := by
  obtain ⟨r, hq⟩ := letter_request ho
  rw [Letter.key_eq l (by simp [hq]), hq] at hkey
  exact ⟨r, hq, Option.some.inj hkey⟩

end Letters

theorem carries_value {block : List UInt8} {my r : ControlMessage}
    (hl : block.length < controlMessageBufferSize)
    (h : setControlMessage .serverKvGetEager [block] my = some r) :
    ∃ (v : CString) (rest : List UInt8), block = v.bytes ++ rest ∧
      Carries r .serverKvGetEager [.string v] := by
  have hsome : (cstring block).isSome := by
    by_contra hnone
    have hbuf : setBuffer .serverKvGetEager [block] my.buf = none := by
      simp [setBuffer, messagesSizes, strlen, Option.not_isSome_iff_eq_none.mp hnone]
    rw [setControlMessage] at h
    simp [hbuf] at h
  obtain ⟨chars, hchars⟩ := Option.isSome_iff_exists.mp hsome
  obtain ⟨hnul, rest, hblock⟩ := cstring_some hchars
  have hshort : chars.length + 1 < 2 ^ 63 := by
    rw [hblock, controlMessageBufferSize] at hl
    simp only [List.length_append, List.length_cons] at hl
    omega
  have hbytes : block = (CString.mk chars hnul hshort).bytes ++ rest := by
    simp [hblock, CString.bytes]
  refine ⟨⟨chars, hnul, hshort⟩, rest, hbytes,
    carries_of_set rfl (List.Forall₂.cons ?_ List.Forall₂.nil) h⟩
  rw [hbytes]
  exact List.prefix_append _ rest

theorem value_fits {m : ServerMemory n} {es : List KeyValueAddressPair} (hv : Valid m es) {idx : Nat}
    {e : KeyValueAddressPair} (he : es[idx]? = some e)
    (hsmall : e.valueSize.toNat < controlMessageBufferSize) {block : List UInt8}
    (hblock : m.heap.blocks e.valueAddress = some block) : block.length < controlMessageBufferSize := by
  obtain ⟨block', hb', hl⟩ := hv.sound.live e (List.mem_of_getElem? he)
  rw [hblock] at hb'
  obtain rfl := Option.some.inj hb'
  exact hl.trans_lt hsmall

def resume (S : World n) (c : Fin n) (m : ServerMemory n)
    (stop : Stop (ServerMemory n) Verb Verb.Answer LoopExit) (p : Port) : World n :=
  { S with mem := m, thread := some (c, stop) }.setPort c p

theorem stepServer_eq_some (hs : stepServer S d = some S') :
    ∃ c verb k a p m stop, S.thread = some (c, .waiting verb k) ∧
      (S.port c).answer d verb = some (a, p) ∧ settle (k a) S.mem = some (m, stop) ∧
      S' = (resume S c m stop p).log (if sends stop then [.answered c p.receive (m.send c)] else []) := by
  rw [stepServer] at hs
  cases ht : S.thread with
  | none => simp [ht] at hs
  | some t =>
    obtain ⟨c, stop⟩ := t
    cases stop with
    | done r => simp [ht] at hs
    | waiting verb k =>
      simp only [ht] at hs
      obtain ⟨⟨a, p⟩, ha, hs⟩ := Option.bind_eq_some_iff.mp hs
      obtain ⟨⟨m, stop⟩, hm, hs⟩ := Option.bind_eq_some_iff.mp hs
      exact ⟨c, verb, k, a, p, m, stop, rfl, ha, hm, (Option.some.inj hs).symm⟩

theorem serving_at (h : Refines programs S P) {stop : Stop (ServerMemory n) Verb Verb.Answer LoopExit}
    (ht : S.thread = some (c, stop)) :
    ∃ es, Valid S.mem es ∧ Serving S.mem es c stop (S.port c) (P.session c) P.work P.table := by
  obtain ⟨es, hv, ⟨hnone, -⟩ | ⟨d, stop', ht', hserving⟩⟩ := h.serving
  · rw [hnone] at ht
    cases ht
  · rw [ht'] at ht
    cases ht
    exact ⟨es, hv, hserving⟩

theorem delivered_port {x : Session} (h : Delivered S c x) (hhand : InHand S c → InHand S' c)
    (hp : ∀ y, Inbox (S.port c) y → Inbox (S'.port c) y) : Delivered S' c x := by
  cases x with
  | pending l | leaving l => exact h.imp (hp _) hhand
  | idle | going l | served e | replied e | holding r mr moved
    | finished call success | stranded l | gone =>
    exact hp _ h

theorem resumed (h : Refines programs S P) {stop stop' : Stop (ServerMemory n) Verb Verb.Answer LoopExit}
    (ht : S.thread = some (c, stop)) {m : ServerMemory n} {p : Port} {x : Session}
    (events : List (Event n)) (P' : State n) (hseat : Seat programs c (S.client c) x)
    (hdelivered : Delivered (resume S c m stop' p) c x) (hserving : ∃ es, Valid m es ∧
      Serving m es c stop' p x P'.work P'.table)
    (hsession : P'.session = update P.session c x) (hindex : P'.index = P.index)
    (hbuffer : P'.buffer = P.buffer) (hhistory : P'.history = events ++ P.history)
    (hcells : m.heap.blocks = P'.cells) (hcount : m.numShutDownServerRequest = P'.count) :
    Refines programs ((resume S c m stop' p).log events) P' := by
  refine ⟨fun d => ?_, fun d => ?_, fun d => ?_, ?_, hcells, hcount, fun d => ?_, fun d hd => ?_, ?_⟩
  · rw [hsession]
    by_cases hdc : d = c
    · subst hdc
      rw [Function.update_self]
      exact hseat
    · rw [Function.update_of_ne hdc]
      exact h.seat d
  · rw [hindex]
    exact h.index d
  · rw [hbuffer]
    exact h.buffer d
  · rw [hhistory, ← h.history]
    rfl
  · rw [hsession]
    by_cases hdc : d = c
    · subst hdc
      rw [Function.update_self]
      exact delivered_congr (S := resume S d m stop' p) rfl rfl hdelivered
    · rw [Function.update_of_ne hdc]
      have hport : ((resume S c m stop' p).log events).port d = S.port d := by
        simp [resume, World.log, World.setPort, hdc]
      have hhand : ¬ InHand S d := by
        rintro (hd | hd) <;> rw [ht] at hd <;> cases hd <;> exact hdc rfl
      refine delivered_port (h.delivered d) (fun hd => absurd hd hhand) fun y hy => ?_
      rw [hport]
      exact hy
  · have hdc : d ≠ c := by
      rintro rfl
      exact hd stop' rfl
    have hport : ((resume S c m stop' p).log events).port d = S.port d := by
      simp [resume, World.log, World.setPort, hdc]
    rw [hport]
    refine h.quiet d fun stop'' hstop => ?_
    rw [ht] at hstop
    cases hstop
    exact hdc rfl
  · obtain ⟨es, hv, hserving⟩ := hserving
    refine ⟨es, hv, .inr ⟨c, stop', rfl, ?_⟩⟩
    rw [hsession, Function.update_self]
    have hport : ((resume S c m stop' p).log events).port c = p := by
      simp [resume, World.log, World.setPort]
    rw [hport]
    exact hserving

@[simp] theorem resume_port (S : World n) (c : Fin n) (m : ServerMemory n)
    (stop : Stop (ServerMemory n) Verb Verb.Answer LoopExit) (p : Port) :
    (resume S c m stop p).port c = p := by
  simp [resume, World.setPort]

theorem simulate_unseen (h : Refines programs S P)
    {stop stop' : Stop (ServerMemory n) Verb Verb.Answer LoopExit} (ht : S.thread = some (c, stop))
    {m : ServerMemory n} {p : Port} (hsends : sends stop' = false)
    (hdelivered : Delivered (resume S c m stop' p) c (P.session c))
    (hserving : ∃ es, Valid m es ∧ Serving m es c stop' p (P.session c) P.work P.table)
    (hheap : m.heap = S.mem.heap)
    (hcount : m.numShutDownServerRequest = S.mem.numShutDownServerRequest) :
    Simulates programs lossy ((resume S c m stop' p).log
      (if sends stop' then [.answered c p.receive (m.send c)] else [])) P := by
  rw [hsends]
  refine ⟨P, resumed h ht [] P (h.seat c) hdelivered hserving ?_ rfl rfl rfl ?_ ?_, .inl rfl⟩
  · exact (Function.update_eq_self c P.session).symm
  · rw [hheap]
    exact h.cells
  · rw [hcount]
    exact h.count

theorem simulate_silent (h : Refines programs S P)
    {stop stop' : Stop (ServerMemory n) Verb Verb.Answer LoopExit} (ht : S.thread = some (c, stop))
    {m : ServerMemory n} {p : Port} (hsends : sends stop' = false) (hhand : ¬ InHand S c)
    (hsame : SameIn (S.port c) p)
    (hserving : ∃ es, Valid m es ∧ Serving m es c stop' p (P.session c) P.work P.table)
    (hheap : m.heap = S.mem.heap)
    (hcount : m.numShutDownServerRequest = S.mem.numShutDownServerRequest) :
    Simulates programs lossy ((resume S c m stop' p).log
      (if sends stop' then [.answered c p.receive (m.send c)] else [])) P := by
  refine simulate_unseen h ht hsends ?_ hserving hheap hcount
  refine delivered_port (h.delivered c) (fun hd => absurd hd hhand) fun y hy => ?_
  rw [resume_port]
  exact hsame.inbox hy

theorem at_pending {s : ClientState} {l : Letter} (h : Seat programs c s (.pending l)) :
    l.query ≠ .shutDown ∧ Sent s l.query ∧ Inbox s.port none := by
  cases h with
  | pending hq hs hi => exact ⟨hq, hs, hi⟩
  | parting hx | parted hx | left hx => obtain hx | ⟨l, hx, -⟩ := hx <;> cases hx

theorem simulate_answer (h : Refines programs S P)
    {stop : Stop (ServerMemory n) Verb Verb.Answer LoopExit} (ht : S.thread = some (c, stop))
    {e : Exchange} (hx : P.session c = .pending e.letter) {P' : State n}
    (hstep : Protocol.Step programs lossy P P') {rec : Recording} {m : ServerMemory n}
    {es : List KeyValueAddressPair} (ho : Outbox (S.port c) [] [] ∅) (hi : Inbox (S.port c) none)
    (hmsg : (S.port c).receive = e.letter.message) (hv : Valid m es)
    (hready : Ready m.heap m.regions es rec e.offer) (hsend : m.send c = e.message)
    (hsession : P'.session = update P.session c (.served e)) (hindex : P'.index = P.index)
    (hbuffer : P'.buffer = P.buffer) (hwork : P'.work = .answering c e)
    (htable : P'.table = slots m.heap es) (hcells : P'.cells = m.heap.blocks)
    (hcount : P'.count = m.numShutDownServerRequest)
    (hhistory : P'.history = .answered c e.letter.message e.message :: P.history) :
    Simulates programs lossy ((resume S c m (posting rec next) (S.port c)).log
      (if sends (posting rec next : Stop (ServerMemory n) Verb Verb.Answer LoopExit) then
        [.answered c (S.port c).receive (m.send c)] else [])) P := by
  obtain ⟨hq, hsent, hin⟩ := at_pending (hx ▸ h.seat c)
  have hevents : (if sends (posting rec next : Stop (ServerMemory n) Verb Verb.Answer LoopExit) then
      [Event.answered c (S.port c).receive (m.send c)] else []) =
        [.answered c e.letter.message e.message] := by
    rw [hmsg, hsend]
    rfl
  rw [hevents]
  refine ⟨P', resumed h ht _ P' (.served hsent hin) ?_ ⟨es, hv, ?_⟩ hsession hindex hbuffer hhistory
    hcells.symm hcount.symm, .inr hstep⟩
  · rw [Delivered, resume_port]
    exact hi
  · rw [hwork, htable]
    exact .posting rfl ho hsend hready

section Answers

variable {stop : Stop (ServerMemory n) Verb Verb.Answer LoopExit} {l : Letter}
  {es : List KeyValueAddressPair} {m : ServerMemory n} {rec : Recording}

theorem free_of_entries (htable : P.table = slots S.mem.heap es) {key : List UInt8}
    (hfree : ∀ idx e, find S.mem.heap es key = some idx → es[idx]? = some e → e.mrRdma = none) :
    P.Free key := by
  intro sl hsl
  rw [htable] at hsl
  obtain ⟨idx, e, hf, he, rfl, -⟩ := find_of_slots hsl
  exact hfree idx e hf he

theorem simulate_served (h : Refines programs S P) (ht : S.thread = some (c, stop))
    (hx : P.session c = .pending l) (hw : P.work = .free) (hv : Valid S.mem es)
    (htable : P.table = slots S.mem.heap es) (ho : Outbox (S.port c) [] [] ∅)
    (hi : Inbox (S.port c) none) (hmsg : (S.port c).receive = l.message)
    (hs : Served c l.message S.mem es m rec) :
    Simulates programs lossy ((resume S c m (posting rec next) (S.port c)).log
      (if sends (posting rec next : Stop (ServerMemory n) Verb Verb.Answer LoopExit) then
        [.answered c (S.port c).receive (m.send c)] else [])) P := by
  cases hs with
  | @refused key idx e r hop hkey hf he hbusy hr =>
    obtain ⟨q, hq, rfl⟩ := letter_request_key hop hkey
    have hsl : P.table q.key.chars = some (slot e) := by
      rw [htable]
      exact slots_of_find hf he
    have hp : Proper l.query .inProgress := by
      rw [hq]
      exact .refused
    refine @simulate_answer n programs lossy S P c h stop ht ⟨l, .inProgress, r, hr, hp⟩ hx _
      (.refuse hw hx hq rfl hsl hbusy) _ _ _ ho hi hmsg (hv.setSend c r) .nothing ?_ rfl rfl rfl rfl
      htable h.cells.symm h.count.symm rfl
    simp [ServerMemory.setSend]
  | @stored key size value a b h₁ h₂ h₃ database r hop hkey hsize hvalue hfree ha hb hins hr =>
    obtain ⟨key', value', hq, heager, hk', hs', hv'⟩ := letter_eager hop
    rw [hk'] at hkey
    obtain rfl := Option.some.inj hkey
    rw [hs'] at hsize
    obtain rfl := Option.some.inj hsize
    rw [hv'] at hvalue
    obtain rfl := Option.some.inj hvalue
    obtain ⟨es', rest, hvalid, hadds, hlen, -, hslots⟩ := hv.stored key'.nulFree ha hb hins
    obtain rfl : rest = [] := by
      rw [CString.size_toNat, CString.strlen] at hlen
      exact List.length_eq_zero_iff.mp (by omega)
    have hp : Proper l.query .setSuccessful := by
      rw [hq]
      exact .stored heager
    have hna : P.cells a = none := h.cells ▸ hadds.newKey
    have hnb : P.cells b = none := h.cells ▸ hadds.newValue
    refine @simulate_answer n programs lossy S P c h stop ht ⟨l, .setSuccessful, r, hr, hp⟩ hx _
      (.store (x := key'.chars ++ [0]) hw hx hq rfl (free_of_entries htable hfree) hna hnb hadds.ne)
      _ _ es' ho hi hmsg (hvalid.setSend c r) .nothing ?_ rfl rfl rfl rfl ?_ ?_ h.count.symm rfl
    · simp [ServerMemory.setSend]
    · exact (congrArg (fun t => update t key'.chars (some ⟨b, value'.size, none⟩)) htable).trans
        hslots.symm
    · rw [← h.cells]
      exact hadds.blocks.symm
  | @granted_set key size a b h₁ h₂ mr s₂ r hop hkey hsize hfree ha hb hreg hr =>
    obtain ⟨key', value', hq, heager, hk', hs'⟩ := letter_rendezvous hop
    rw [hk'] at hkey
    obtain rfl := Option.some.inj hkey
    rw [hs'] at hsize
    obtain rfl := Option.some.inj hsize
    obtain ⟨rfl, rfl, hlength, haccess, hvalid, hready, y, hy, hadds⟩ :=
      hv.granted_set key'.nulFree ha hb hreg
    have hp : Proper l.query (.setRendezvous mr) := by
      rw [hq]
      exact .granted_set heager hlength haccess
    have hna : P.cells a = none := h.cells ▸ hadds.newKey
    have hnb : P.cells mr.addr = none := h.cells ▸ hadds.newValue
    refine @simulate_answer n programs lossy S P c h stop ht ⟨l, .setRendezvous mr, r, hr, hp⟩ hx _
      (.grant_set (x := key'.chars ++ [0]) hw hx hq rfl (free_of_entries htable hfree) hna hnb hadds.ne
        (hlength ▸ hy)) _ _ es ho hi
      hmsg (hvalid.setSend c r) ?_ ?_ rfl rfl rfl rfl ?_ ?_ h.count.symm rfl
    · have hoffer : (Exchange.mk l (.setRendezvous mr) r hr hp).offer =
          some (key'.chars, ⟨mr.addr, value'.size, some ⟨mr, mr.addr, value'.size⟩⟩) := by
        rw [← hlength, Exchange.offer, hq]
        rfl
      rw [hoffer]
      exact hready
    · simp [ServerMemory.setSend]
    · exact htable.trans (hadds.slots_eq hv.sound).symm
    · rw [← h.cells]
      exact hadds.blocks.symm
  | @not_found key r hop hkey hf hr =>
    obtain ⟨q, hq, rfl⟩ := letter_get_key hop hkey
    have hsl : P.table q.chars = none := by
      rw [htable]
      exact slots_of_none hf
    have hp : Proper l.query .keyNotFound := by
      rw [hq]
      exact .not_found
    refine @simulate_answer n programs lossy S P c h stop ht ⟨l, .keyNotFound, r, hr, hp⟩ hx _
      (.not_found hw hx hq rfl hsl) _ _ es ho hi hmsg (hv.setSend c r) .nothing ?_ rfl rfl rfl rfl
      htable h.cells.symm h.count.symm rfl
    simp [ServerMemory.setSend]
  | @value key idx e block r hop hkey hf he hfree hsmall hblock hr =>
    obtain ⟨q, hq, rfl⟩ := letter_get_key hop hkey
    obtain ⟨v, rest, rfl, hcarries⟩ := carries_value (value_fits hv he hsmall hblock) hr
    have hsl : P.table q.chars = some (slot e) := by
      rw [htable]
      exact slots_of_find hf he
    have hp : Proper l.query (.value v) := by
      rw [hq]
      exact .value
    refine @simulate_answer n programs lossy S P c h stop ht ⟨l, .value v, r, hcarries, hp⟩ hx _
      (.value hw hx hq rfl hsl hfree (h.cells ▸ hblock)) _ _ es ho hi hmsg (hv.setSend c r) .nothing ?_
      rfl rfl rfl rfl htable h.cells.symm h.count.symm rfl
    simp [ServerMemory.setSend]
  | @granted_get key idx e mr s₂ r hop hkey hf he hfree hlarge hreg hr =>
    obtain ⟨q, hq, rfl⟩ := letter_get_key hop hkey
    obtain ⟨e', he', hk⟩ := find_some hf
    rw [he] at he'
    obtain rfl := Option.some.inj he'
    obtain ⟨rfl, haddr, hlength, haccess, hvalid, hready⟩ := hv.granted_get he hk hreg
    have hsl : P.table q.chars = some (slot e) := by
      rw [htable]
      exact slots_of_find hf he
    have hp : Proper l.query (.getRendezvous mr) := by
      rw [hq]
      exact .granted_get haccess
    rw [← hlength] at hr
    refine @simulate_answer n programs lossy S P c h stop ht ⟨l, .getRendezvous mr, r, hr, hp⟩ hx _
      (.grant_get hw hx hq rfl hsl hfree haddr hlength) _ _ es ho hi hmsg (hvalid.setSend c r) ?_ ?_
      rfl rfl
      rfl rfl htable h.cells.symm h.count.symm rfl
    · have hoffer : (Exchange.mk l (.getRendezvous mr) r hr hp).offer =
          some (q.chars, ⟨e.valueAddress, e.valueSize, some ⟨mr, e.valueAddress, e.valueSize⟩⟩) := by
        rw [← hlength, ← haddr, Exchange.offer, hq]
        rfl
      rw [hoffer]
      exact hready
    · simp [ServerMemory.setSend]

theorem at_leaving {s : ClientState} (h : Seat programs c s (.leaving l)) :
    l.query = .shutDown ∧ Seat programs c s .gone := by
  cases h with
  | parting hx ht ho hi hlast =>
    obtain hx | ⟨l', hx, hq⟩ := hx <;> cases hx
    exact ⟨hq, .parting (.inl rfl) ht ho hi hlast⟩
  | parted hx ht ho hi hlast =>
    obtain hx | ⟨l', hx, hq⟩ := hx <;> cases hx
    exact ⟨hq, .parted (.inl rfl) ht ho hi hlast⟩
  | left hx ht ho hi hlast =>
    obtain hx | ⟨l', hx, hq⟩ := hx <;> cases hx
    exact ⟨hq, .left (.inl rfl) ht ho hi hlast⟩

theorem waits_cases (h : Refines programs S P) (hx : Waits (P.session c) l) :
    (P.session c = .pending l ∧ l.query ≠ .shutDown) ∨
      (P.session c = .leaving l ∧ l.query = .shutDown) := by
  obtain hx | hx := hx
  · exact .inl ⟨hx, (at_pending (hx ▸ h.seat c)).1⟩
  · exact .inr ⟨hx, (at_leaving (hx ▸ h.seat c)).1⟩

theorem query_of_message (l : Letter)
    (ho : l.message.operation ≠ .shutDownServer) : l.query ≠ .shutDown := fun hq =>
  ho ((Letter.shutDown_iff l).mpr hq)

theorem fin_entry (h : Refines programs S P) (hlocks : Locks P) (hx : P.session c = .pending l)
    {r : Request} {mr : Mr} (hq : l.query = .fin r mr) (htable : P.table = slots S.mem.heap es)
    {key : List UInt8} {idx : Nat} {e : KeyValueAddressPair}
    (hkey : stringAt l.message.buf 0 = some key) (hf : find S.mem.heap es key = some idx)
    (he : es[idx]? = some e) :
    key = r.key.chars ∧ slot e = lock mr ∧ cstr S.mem.heap e.keyAddress = some r.key.chars := by
  rw [Letter.key_eq l (at_pending (hx ▸ h.seat c)).1, hq] at hkey
  obtain rfl := Option.some.inj hkey
  have hheld : P.table r.key.chars = some (lock mr) := by
    apply hlocks.held c r.key.chars mr
    rw [hx, Session.grant, hq]
    rfl
  have hslot := slots_of_find hf he
  rw [← htable] at hslot
  obtain ⟨e', he', hk⟩ := find_some hf
  rw [he] at he'
  obtain rfl := Option.some.inj he'
  exact ⟨rfl, Option.some.inj (hslot.symm.trans hheld), hk⟩

theorem simulate_count (h : Refines programs S P) (ht : S.thread = some (c, stop))
    (hx : P.session c = .leaving l) (hw : P.work = .free) (hv : Valid S.mem es)
    (htable : P.table = slots S.mem.heap es) (ho : Outbox (S.port c) [] [] ∅)
    (hi : Inbox (S.port c) none) {exit : LoopExit}
    (hexit : exit = if P.count + 1 = n then .return else .continue) :
    Simulates programs lossy ((resume S c S.mem.countShutDown (.done exit) (S.port c)).log
      (if sends (.done exit : Stop (ServerMemory n) Verb Verb.Answer LoopExit) then
        [.answered c (S.port c).receive (S.mem.countShutDown.send c)] else [])) P := by
  refine ⟨_, ?_, .inr (.count hw hx)⟩
  refine resumed h ht [] _ (at_leaving (hx ▸ h.seat c)).2 ?_ ⟨es, hv.countShutDown, ?_⟩ rfl rfl rfl rfl
    h.cells (congrArg (· + 1) h.count)
  · rw [Delivered, resume_port]
    exact hi
  · by_cases hc : P.count + 1 = n
    · rw [if_pos hc] at hexit ⊢
      rw [hexit, htable]
      exact .returned rfl ho
    · rw [if_neg hc] at hexit ⊢
      rw [hexit, htable]
      exact .between rfl ho

theorem simulate_dispatch (h : Refines programs S P) (hlocks : Locks P) (ht : S.thread = some (c, stop))
    (hx : Waits (P.session c) l) (hw : P.work = .free) (hv : Valid S.mem es)
    (htable : P.table = slots S.mem.heap es) (ho : Outbox (S.port c) [] [] ∅)
    (hi : Inbox (S.port c) none) (hmsg : (S.port c).receive = l.message)
    {stop' : Stop (ServerMemory n) Verb Verb.Answer LoopExit}
    (hs : Dispatched c l.message S.mem es m stop') :
    Simulates programs lossy ((resume S c m stop' (S.port c)).log
      (if sends stop' then [.answered c (S.port c).receive (m.send c)] else [])) P := by
  have hpending : l.message.operation ≠ .shutDownServer → P.session c = .pending l := by
    intro hne
    obtain ⟨hx, -⟩ | ⟨-, hq⟩ := waits_cases h hx
    · exact hx
    · exact absurd hq (query_of_message l hne)
  have hleaving : l.message.operation = .shutDownServer → P.session c = .leaving l := by
    intro heq
    obtain ⟨-, hq⟩ | ⟨hx, -⟩ := waits_cases h hx
    · exact absurd ((Letter.shutDown_iff l).mp heq) hq
    · exact hx
  cases hs with
  | @served s' rec hserved =>
    have hne : l.message.operation ≠ .shutDownServer := by
      intro heq
      cases hserved with
      | refused hop => obtain hop | hop | hop := hop <;> rw [hop] at heq <;> cases heq
      | stored hop | granted_set hop | not_found hop | value hop | granted_get hop =>
        rw [hop] at heq
        cases heq
    exact simulate_served h ht (hpending hne) hw hv htable ho hi hmsg hserved
  | @unlocked key idx e successful r hop hkey hf he hfree hr =>
    obtain ⟨q, mr, hq, -⟩ := letter_fin hop
    have hxp : P.session c = .pending l := by
      refine hpending fun heq => ?_
      rw [(Letter.shutDown_iff l).mp heq] at hq
      cases hq
    obtain ⟨-, hslot, -⟩ := fin_entry h hlocks hxp hq htable hkey hf he
    have hlock : e.mrRdma = some ⟨mr, mr.addr, mr.length⟩ := congrArg Slot.mrRdma hslot
    rw [hfree] at hlock
    cases hlock
  | @release key idx e info successful hop hkey hf he hlock =>
    obtain ⟨q, mr, hq, rfl⟩ := letter_fin hop
    have hxp : P.session c = .pending l := by
      refine hpending fun heq => ?_
      rw [(Letter.shutDown_iff l).mp heq] at hq
      cases hq
    obtain ⟨rfl, hslot, hk⟩ := fin_entry h hlocks hxp hq htable hkey hf he
    have hinfo : some info = some ⟨mr, mr.addr, mr.length⟩ :=
      hlock.symm.trans (congrArg Slot.mrRdma hslot)
    cases hinfo
    refine ⟨_, ?_, .inr (.release hw hxp hq)⟩
    refine resumed h ht [] _ (h.seat c) ?_ ⟨es, hv, ?_⟩ (Function.update_eq_self c P.session).symm
      rfl rfl rfl h.cells h.count
    · rw [hxp]
      exact .inr (.releasing rfl)
    · rw [htable]
      exact .releasing rfl ho hxp hq hi hmsg he hk hslot
  | shut_down hop hcount =>
    apply simulate_count h ht (hleaving hop) hw hv htable ho hi
    rw [← h.count, if_neg hcount]
  | last_shut_down hop hcount =>
    apply simulate_count h ht (hleaving hop) hw hv htable ho hi
    rw [← h.count, if_pos hcount]
  | ignored hop =>
    obtain ⟨h₁, h₂, h₃, h₄, h₅, h₆⟩ := hop
    exfalso
    have hasks := letter_asks l
    generalize l.query = q at hasks
    generalize l.message.operation = operation at *
    cases hasks with
    | eager => exact h₂ rfl
    | rendezvous => exact h₃ rfl
    | get => exact h₄ rfl
    | fin_set => exact h₅ rfl
    | fin_get => exact h₆ rfl
    | shutDown => exact h₁ rfl

theorem simulate_released (h : Refines programs S P) (ht : S.thread = some (c, stop)) {r : Request}
    {mr : Mr}
    (hx : P.session c = .pending l) (hw : P.work = .releasing c mr) (hv : Valid S.mem es)
    (htable : P.table = slots S.mem.heap es) (ho : Outbox (S.port c) [] [] ∅)
    (hi : Inbox (S.port c) none) (hmsg : (S.port c).receive = l.message) (hq : l.query = .fin r mr)
    {idx : Nat} {e : KeyValueAddressPair} (he : es[idx]? = some e)
    (hk : cstr S.mem.heap e.keyAddress = some r.key.chars) (hslot : slot e = lock mr)
    {stop' : Stop (ServerMemory n) Verb Verb.Answer LoopExit}
    (hm : settle (afterDereg c (closed r).operation idx mr next 0) S.mem = some (m, stop')) :
    Simulates programs lossy ((resume S c m stop' (S.port c)).log
      (if sends stop' then [.answered c (S.port c).receive (m.send c)] else [])) P := by
  have hfields : (closed r).operation.fields = [] := by
    cases r <;> rfl
  have hargs : (closed r).arguments = [] := by
    cases r <;> rfl
  obtain ⟨msg, hr, rfl, rfl⟩ := afterDereg_zero hfields hv.wellFormed he hm
  have hinfo : e.mrRdma = some ⟨mr, mr.addr, mr.length⟩ := congrArg Slot.mrRdma hslot
  obtain ⟨hvalid, hslots⟩ := hv.release he hk hinfo
  have haddr : e.valueAddress = mr.addr := congrArg Slot.address hslot
  have hsize : e.valueSize = mr.length := congrArg Slot.size hslot
  have hp : Proper l.query (closed r) := by
    rw [hq]
    cases r with
    | kvSet key value => exact .closed_set
    | kvGet key => exact .closed_get
  have hoffer : (Exchange.mk l (closed r) msg (hargs ▸ hr) hp).offer = none := by
    cases r <;> rfl
  refine @simulate_answer n programs lossy S P c h stop ht ⟨l, closed r, msg, hargs ▸ hr, hp⟩ hx _
    (.finish hw hx hq) .nothing _
      (es.set idx { e with mrRdma := none }) ho hi hmsg (hvalid.setSend c msg) ?_
    ?_ rfl rfl rfl rfl ?_ h.cells.symm h.count.symm rfl
  · rw [hoffer]
    exact .nothing
  · simp [ServerMemory.setSend]
  · change update P.table r.key.chars (some ⟨mr.addr, mr.length, none⟩) = _
    rw [← haddr, ← hsize, htable]
    exact hslots.symm

end Answers

theorem not_inHand {verb : Verb} {k : verb.Answer → ServerCode n LoopExit}
    (ht : S.thread = some (c, .waiting verb k)) (hread : verb ≠ .readMessage)
    (hdereg : verb ≠ .ibvDeregMr) :
    ¬ InHand S c := by
  rintro (hd | hd) <;> rw [ht] at hd <;> cases hd
  · exact hread rfl
  · exact hdereg rfl

theorem delivered_inbox {x : Session} (h : Delivered S c x) (hhand : ¬ InHand S c) :
    ∃ y, Inbox (S.port c) y ∧ ∀ msg, y = some msg → ∃ l, Waits x l ∧ msg = l.message := by
  cases x with
  | pending l => exact ⟨_, h.resolve_right hhand,
      fun msg hmsg => ⟨l, .inl rfl, (Option.some.inj hmsg).symm⟩⟩
  | leaving l => exact ⟨_, h.resolve_right hhand,
      fun msg hmsg => ⟨l, .inr rfl, (Option.some.inj hmsg).symm⟩⟩
  | idle | going l | served e | replied e | holding r mr moved
    | finished call success | stranded l | gone =>
    exact ⟨none, h, fun msg hmsg => by cases hmsg⟩

theorem simulate_poll (h : Refines programs S P) (ht : S.thread = some (c, polling c))
    {es : List KeyValueAddressPair} (hv : Valid S.mem es) (hw : P.work = .free)
    (htable : P.table = slots S.mem.heap es) (ho : Outbox (S.port c) [] [] ∅) {a : Int} {p : Port}
    (ha : (S.port c).answer d (.pollNextReceiveWc false) = some (a, p)) {m : ServerMemory n}
    {stop : Stop (ServerMemory n) Verb Verb.Answer LoopExit}
    (hm : settle (afterTake c a) S.mem = some (m, stop)) :
    Simulates programs lossy ((resume S c m stop p).log
      (if sends stop then [.answered c p.receive (m.send c)] else [])) P := by
  have hhand : ¬ InHand S c := not_inHand ht (by simp) (by simp)
  obtain ⟨y, hi, hy⟩ := delivered_inbox (h.delivered c) hhand
  obtain ⟨hout, hreceive, ⟨rfl, hmsg, hin⟩ | ⟨-, hne, hsame⟩⟩ := answer_receive hi ha
  · obtain ⟨l, hwait, hl⟩ := hy _ hmsg
    cases hm
    refine simulate_unseen h ht rfl ?_ ⟨es, hv, ?_⟩ rfl rfl
    · obtain hx | hx := hwait
      · rw [hx]
        exact .inr (.reading rfl)
      · rw [hx]
        exact .inr (.reading rfl)
    · rw [hw, htable]
      exact .reading rfl (hout _ _ _ ho) hwait hin (hreceive.trans hl)
  · rw [afterTake, if_neg hne] at hm
    cases hm
    refine simulate_silent h ht rfl hhand hsame ⟨es, hv, ?_⟩ rfl rfl
    rw [hw, htable]
    exact .between rfl (hout _ _ _ ho)

/-- What the server does between two calls of a verb is unseen or a step of the protocol. -/
theorem simulate_server (h : Refines programs S P) (hlocks : Locks P) (hs : stepServer S 0 = some S') :
    Simulates programs lossy S' P := by
  obtain ⟨c, verb, k, a, p, m, stop, ht, ha, hm, rfl⟩ := stepServer_eq_some hs
  obtain ⟨es, hv, hserving⟩ := serving_at h ht
  generalize hstop : (Stop.waiting verb k : Stop (ServerMemory n) Verb Verb.Answer LoopExit) = stop₀
    at hserving ht
  generalize hx : P.session c = x at hserving
  generalize hw : P.work = w at hserving
  generalize htable : P.table = t at hserving
  cases hserving with
  | polling ht' ho =>
    rw [ht'] at ht hstop
    cases hstop
    exact simulate_poll h ht hv hw htable ho ha hm
  | reading ht' ho hwait hi hmsg =>
    rw [ht'] at ht hstop
    cases hstop
    cases ha
    subst hx
    rw [hmsg] at hm
    exact simulate_dispatch h hlocks ht hwait hw hv htable ho hi hmsg (dispatch_eq_some hv.wellFormed hm)
  | @posting e rec ht' ho hmsg hready =>
    rw [ht'] at ht hstop
    cases hstop
    obtain ⟨hout, hsame⟩ := answer_post ho ha
    rw [settle_afterPost] at hm
    cases hm
    refine simulate_silent h ht rfl (not_inHand ht (by simp) (by simp)) hsame ⟨es, hv, ?_⟩ rfl rfl
    rw [hx, hw, htable]
    exact .posted rfl hout hmsg hready
  | posted ht' ho =>
    rw [ht'] at ht hstop
    cases hstop
    exact absurd ha (answer_poll_none ho)
  | @recording rec pending ht' ho hready =>
    rw [ht'] at ht hstop
    cases hstop
    obtain ⟨rfl, hout, hsame⟩ := answer_poll ho ha
    obtain ⟨database, hsettle, -, hvalid, hslots⟩ := hready.settle hv (next (n := n))
    have hcode : settle (afterConfirm rec.code (sendResult ⟨.success, .send⟩) >>= next) S.mem =
        settle (rec.code >>= next) S.mem := rfl
    rw [hcode] at hm
    cases hsettle _ hm
    refine simulate_silent h ht rfl (not_inHand ht (by simp) (by simp)) hsame ⟨_, hvalid, ?_⟩ rfl rfl
    rw [hx, hw, htable, ← hslots]
    exact .between rfl hout
  | @failing rec ht' ho =>
    rw [ht'] at ht hstop
    cases hstop
    obtain ⟨rfl, hout, hsame⟩ := answer_poll ho ha
    rw [settle_afterConfirm_failed rec.code (by decide)] at hm
    cases hm
    refine simulate_silent h ht rfl (not_inHand ht (by simp) (by simp)) hsame ⟨es, hv, ?_⟩ rfl rfl
    rw [hx, hw, htable]
    exact .between rfl hout
  | releasing ht' ho hpending hq hi hmsg he hk hslot =>
    rw [ht'] at ht hstop
    cases hstop
    cases ha
    exact simulate_released h ht (hx.trans hpending) hw hv htable ho hi hmsg hq he hk hslot hm
  | between ht' | returned ht' =>
    rw [ht'] at hstop
    cases hstop

end NetworkOptimization.ServerSteps
