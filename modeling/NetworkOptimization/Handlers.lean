import NetworkOptimization.Server

namespace NetworkOptimization.Handlers

open Words Memory ControlMessages DynamicArray Verbs SequentialCode Calls Server

variable {n : Nat} {α : Type}

structure WellFormed (s : ServerMemory n) (es : List KeyValueAddressPair) : Prop where
  holds : Holds s.database es
  keys : ∀ e ∈ es, (cstr s.heap e.keyAddress).isSome
  kvMalloc : s.kvMalloc = 0

def find (h : Heap) (es : List KeyValueAddressPair) (key : List UInt8) : Option Nat :=
  es.findIdx? (fun e => cstr h e.keyAddress == some key)

/-- What a handler still does to the table once its reply is confirmed. -/
inductive Recording where
  | nothing
  | insert (entry : KeyValueAddressPair)
  | mark (idx : Nat) (info : MrInfo)

def Recording.code : Recording → ServerCode n Int
  | .nothing => return 0
  | .insert entry => do
    insertEntry entry
    return 0
  | .mark idx info => do
    setMrRdma idx (some info)
    return 0

def posting (rec : Recording) (g : Int → ServerCode n α) : Stop (ServerMemory n) Verb Verb.Answer α :=
  .waiting (.ibvPostSend .send) (fun r => afterPost rec.code r >>= g)

def regionArguments (mr : Mr) : List Argument :=
  [.word64 (bswap64 mr.addr), .word32 (htonl mr.rkey)]

/-- What a handler has done to the memory when it posts its reply, for each of the
ways a request for a key can end. -/
inductive Served (i : Fin n) (msg : ControlMessage) (s : ServerMemory n)
    (es : List KeyValueAddressPair) : ServerMemory n → Recording → Prop
  | refused {key idx e r}
      (hop : msg.operation = .clientKvSetEager ∨ msg.operation = .clientKvSetRendezvous ∨
        msg.operation = .clientKvGet)
      (hkey : stringAt msg.buf 0 = some key) (hf : find s.heap es key = some idx)
      (he : es[idx]? = some e) (hbusy : e.mrRdma.isSome) (hr : Carries r .serverInProgress []) :
      Served i msg s es (s.setSend i r) .nothing
  | stored {key size value a b h₁ h₂ h₃ database r}
      (hop : msg.operation = .clientKvSetEager) (hkey : stringAt msg.buf 0 = some key)
      (hsize : word64At msg.buf (key.length + 1) = some size)
      (hvalue : stringAt msg.buf (key.length + 1 + 8) = some value)
      (hfree : ∀ idx e, find s.heap es key = some idx → es[idx]? = some e → e.mrRdma = none)
      (ha : strdup s.heap (key.length + 1) key = some (a, h₁))
      (hb : strdup h₁ size.toNat value = some (b, h₂))
      (hi : insertToArray s.kvMalloc h₂ s.database ⟨a, b, size, none⟩ = some (h₃, database))
      (hr : Carries r .serverKvSetSuccessful []) :
      Served i msg s es (((s.setHeap h₃).setDatabase database).setSend i r) .nothing
  | granted_set {key size a b h₁ h₂ mr s₂ r}
      (hop : msg.operation = .clientKvSetRendezvous) (hkey : stringAt msg.buf 0 = some key)
      (hsize : word64At msg.buf (key.length + 1) = some size)
      (hfree : ∀ idx e, find s.heap es key = some idx → es[idx]? = some e → e.mrRdma = none)
      (ha : strdup s.heap (key.length + 1) key = some (a, h₁))
      (hb : malloc h₁ size.toNat = some (b, h₂))
      (hreg : ibvRegMr b size .remoteWrite (s.setHeap h₂) = some (mr, s₂))
      (hr : Carries r .serverKvSetRendezvous (regionArguments mr)) :
      Served i msg s es (s₂.setSend i r) (.insert ⟨a, b, size, some ⟨mr, b, size⟩⟩)
  | not_found {key r} (hop : msg.operation = .clientKvGet) (hkey : stringAt msg.buf 0 = some key)
      (hf : find s.heap es key = none) (hr : Carries r .serverKvGetKeyNotFound []) :
      Served i msg s es (s.setSend i r) .nothing
  | value {key idx e block r} (hop : msg.operation = .clientKvGet)
      (hkey : stringAt msg.buf 0 = some key) (hf : find s.heap es key = some idx)
      (he : es[idx]? = some e) (hfree : e.mrRdma = none)
      (hsmall : e.valueSize.toNat < controlMessageBufferSize)
      (hb : s.heap.blocks e.valueAddress = some block)
      (hr : setControlMessage .serverKvGetEager [block] (s.send i) = some r) :
      Served i msg s es (s.setSend i r) .nothing
  | granted_get {key idx e mr s₂ r} (hop : msg.operation = .clientKvGet)
      (hkey : stringAt msg.buf 0 = some key) (hf : find s.heap es key = some idx)
      (he : es[idx]? = some e) (hfree : e.mrRdma = none)
      (hlarge : controlMessageBufferSize ≤ e.valueSize.toNat)
      (hreg : ibvRegMr e.valueAddress e.valueSize .remoteRead s = some (mr, s₂))
      (hr : Carries r .serverKvGetRendezvous (.word64 e.valueSize :: regionArguments mr)) :
      Served i msg s es (s₂.setSend i r) (.mark idx ⟨mr, e.valueAddress, e.valueSize⟩)

theorem settle_setMessage {i : Fin n} {operation : Operation} {messages : List (List UInt8)}
    (f : Unit → ServerCode n α) (s : ServerMemory n) :
    settle (setMessage i operation messages >>= f) s =
      (setControlMessage operation messages (s.send i)).bind (fun m => settle (f ()) (s.setSend i m)) := by
  rw [setMessage, settle_locally_bind, Option.bind_map]
  rfl

theorem settle_reply {i : Fin n} {operation : Operation} {messages : List (List UInt8)}
    (rec : Recording) (g : Int → ServerCode n α) (s : ServerMemory n) :
    settle (reply i operation messages rec.code >>= g) s =
      (setControlMessage operation messages (s.send i)).map
        (fun m => (s.setSend i m, posting rec g)) := by
  rw [reply, bind_bind, settle_setMessage, Option.map_eq_bind]
  rfl

theorem settle_onHeap {f : Heap → Option (α × Heap)} {β : Type} (g : α → ServerCode n β)
    (s : ServerMemory n) :
    settle (onHeap f >>= g) s =
      (f s.heap).bind (fun p => settle (g p.1) (s.setHeap p.2)) := by
  rw [onHeap, settle_locally_bind, Option.bind_map]
  rfl

theorem settle_mallocMrInfo (g : Unit → ServerCode n α) (s : ServerMemory n) :
    settle (mallocMrInfo >>= g) s = if s.records s.regCount then settle (g ()) s else none := by
  rw [mallocMrInfo, settle_locally_bind]
  split_ifs <;> rfl

theorem settle_insertEntry (entry : KeyValueAddressPair) (g : Unit → ServerCode n α)
    (s : ServerMemory n) :
    settle (insertEntry entry >>= g) s =
      (insertToArray s.kvMalloc s.heap s.database entry).bind (fun p =>
        if s.database.totalLength < p.2.totalLength ∧ s.reallocs s.database.totalLength = false then none
        else settle (g ()) ((s.setHeap p.1).setDatabase p.2)) := by
  rw [insertEntry, settle_locally_bind, Option.bind_assoc]
  congr 1
  funext p
  split_ifs <;> rfl

theorem settle_lookup {s : ServerMemory n} {es : List KeyValueAddressPair} (hw : WellFormed s es)
    (key : List UInt8) (f : Option Nat → ServerCode n α) :
    settle (lookup key >>= f) s = settle (f (find s.heap es key)) s := by
  have hg := getKeyValueAddressPair_eq hw.holds hw.keys key
  rw [lookup, bind_bind, settle_gets_bind, hg]
  rfl

theorem settle_pairAt {s : ServerMemory n} {es : List KeyValueAddressPair} (hw : WellFormed s es)
    {idx : Nat} {e : KeyValueAddressPair} (he : es[idx]? = some e)
    (f : KeyValueAddressPair → ServerCode n α) :
    settle (pairAt idx >>= f) s = settle (f e) s := by
  rw [pairAt, bind_bind, settle_gets_bind, hw.holds.get he]
  rfl

theorem find_some {h : Heap} {es : List KeyValueAddressPair} {key : List UInt8} {idx : Nat}
    (hf : find h es key = some idx) :
    ∃ e, es[idx]? = some e ∧ cstr h e.keyAddress = some key := by
  obtain ⟨hi, hk, -⟩ := List.findIdx?_eq_some_iff_getElem.mp hf
  exact ⟨es[idx], List.getElem?_eq_getElem hi, by simpa using hk⟩

theorem decode_eager {buf : List UInt8} {ptrs : List Nat}
    (h : decodeControlMessageBuffer .clientKvSetEager buf = some ptrs) :
    ∃ key, stringAt buf 0 = some key ∧ ptrs = [0, key.length + 1, key.length + 1 + 8] := by
  obtain ⟨key, rest, hk, rfl, h₁⟩ := decodeLoop_string h
  obtain ⟨rest, rfl, h₂⟩ := decodeLoop_fixed h₁
  obtain ⟨value, rest, -, rfl, h₃⟩ := decodeLoop_string h₂
  obtain rfl := Option.some.inj h₃
  exact ⟨key, hk, by simp⟩

theorem decode_rendezvous {buf : List UInt8} {ptrs : List Nat}
    (h : decodeControlMessageBuffer .clientKvSetRendezvous buf = some ptrs) :
    ∃ key, stringAt buf 0 = some key ∧ ptrs = [0, key.length + 1] := by
  obtain ⟨key, rest, hk, rfl, h₁⟩ := decodeLoop_string h
  obtain ⟨rest, rfl, h₂⟩ := decodeLoop_fixed h₁
  obtain rfl := Option.some.inj h₂
  exact ⟨key, hk, by simp⟩

theorem settle_inProgress {s : ServerMemory n} {es : List KeyValueAddressPair}
    (hw : WellFormed s es) (key : List UInt8) (f : Bool → ServerCode n α) :
    (∃ idx e, find s.heap es key = some idx ∧ es[idx]? = some e ∧ e.mrRdma.isSome ∧
        settle (inProgress (find s.heap es key) >>= f) s = settle (f true) s) ∨
      ((∀ idx e, find s.heap es key = some idx → es[idx]? = some e → e.mrRdma = none) ∧
        settle (inProgress (find s.heap es key) >>= f) s = settle (f false) s) := by
  cases hf : find s.heap es key with
  | none => exact .inr ⟨fun idx e h => (by cases h), rfl⟩
  | some idx =>
    obtain ⟨e, he, -⟩ := find_some hf
    have hs : settle (inProgress (some idx) >>= f) s = settle (f e.mrRdma.isSome) s := by
      rw [inProgress, bind_bind, settle_pairAt hw he]
      rfl
    cases hb : e.mrRdma.isSome with
    | true => exact .inl ⟨idx, e, rfl, he, hb, by rw [hs, hb]⟩
    | false =>
      refine .inr ⟨fun idx' e' h h' => ?_, by rw [hs, hb]⟩
      cases h
      rw [he] at h'
      cases h'
      simpa using hb

/-- The common end of the handlers: the reply lies in the send buffer, the code rests
before its post. -/
theorem reply_eq_some (rec : Recording) {i : Fin n} {operation : Operation}
    {messages : List (List UInt8)} {g : Int → ServerCode n α} {s s' : ServerMemory n}
    {stop : Stop (ServerMemory n) Verb Verb.Answer α}
    (h : settle (reply i operation messages rec.code >>= g) s = some (s', stop)) :
    ∃ r, setControlMessage operation messages (s.send i) = some r ∧ s' = s.setSend i r ∧
      stop = posting rec g := by
  rw [settle_reply] at h
  obtain ⟨r, hr, hp⟩ := Option.map_eq_some_iff.mp h
  cases hp
  exact ⟨r, hr, rfl, rfl⟩

theorem carries_empty {operation : Operation} (hf : operation.fields = []) {my r : ControlMessage}
    (h : setControlMessage operation [] my = some r) : Carries r operation [] := by
  have hk : ([] : List Argument).map Argument.kind = operation.fields := hf.symm
  obtain ⟨m, hm, hc⟩ := setControlMessage_carries hk List.Forall₂.nil my (by simp)
  rw [hm] at h
  exact Option.some.inj h ▸ hc

theorem handleEagerKvSet_served {i : Fin n} {msg : ControlMessage} {s s' : ServerMemory n}
    {es : List KeyValueAddressPair} {g : Int → ServerCode n α}
    {stop : Stop (ServerMemory n) Verb Verb.Answer α} (hw : WellFormed s es)
    (hop : msg.operation = .clientKvSetEager)
    (h : settle (handleEagerKvSet i msg >>= g) s = some (s', stop)) :
    ∃ rec, Served i msg s es s' rec ∧ stop = posting rec g := by
  rw [handleEagerKvSet, bind_bind, settle_require_bind] at h
  obtain ⟨ptrs, hd, h⟩ := Option.bind_eq_some_iff.mp h
  obtain ⟨key, hk, rfl⟩ := decode_eager hd
  simp only [List.getElem?_cons_zero, List.getElem?_cons_succ, Option.bind_some, hk, bind_bind,
    settle_require_some, settle_lookup hw] at h
  obtain ⟨idx, e, hf, he, hb, hs⟩ | ⟨hfree, hs⟩ := settle_inProgress hw key _
  · rw [hs, if_pos rfl] at h
    obtain ⟨r, hr, rfl, rfl⟩ := reply_eq_some .nothing h
    exact ⟨_, .refused (.inl hop) hk hf he hb (carries_empty rfl hr), rfl⟩
  · rw [hs, if_neg (by simp)] at h
    rw [bind_bind, settle_onHeap] at h
    obtain ⟨⟨a, h₁⟩, ha, h⟩ := Option.bind_eq_some_iff.mp h
    rw [bind_bind, settle_require_bind] at h
    obtain ⟨size, hsize, h⟩ := Option.bind_eq_some_iff.mp h
    rw [bind_bind, settle_require_bind] at h
    obtain ⟨value, hvalue, h⟩ := Option.bind_eq_some_iff.mp h
    rw [bind_bind, settle_onHeap] at h
    obtain ⟨⟨b, h₂⟩, hb, h⟩ := Option.bind_eq_some_iff.mp h
    rw [bind_bind, settle_insertEntry] at h
    obtain ⟨⟨h₃, database⟩, hi, h⟩ := Option.bind_eq_some_iff.mp h
    obtain ⟨-, h⟩ := Option.ite_none_left_eq_some.mp h
    obtain ⟨r, hr, rfl, rfl⟩ := reply_eq_some .nothing h
    exact ⟨_, .stored hop hk hsize hvalue hfree ha hb hi (carries_empty rfl hr), rfl⟩

theorem carries_region {mr : Mr} {my r : ControlMessage}
    (h : setControlMessage .serverKvSetRendezvous (regionMessages mr) my = some r) :
    Carries r .serverKvSetRendezvous (regionArguments mr) := by
  have hk : (regionArguments mr).map Argument.kind = Operation.fields .serverKvSetRendezvous := rfl
  have hp : Points (regionArguments mr) (regionMessages mr) :=
    List.Forall₂.cons (List.prefix_refl _) (List.Forall₂.cons (List.prefix_refl _) List.Forall₂.nil)
  obtain ⟨m, hm, hc⟩ := setControlMessage_carries hk hp my
    (by simp [regionArguments, Argument.bytes, controlMessageBufferSize])
  rw [hm] at h
  exact Option.some.inj h ▸ hc

theorem carries_sized_region {size : UInt64} {mr : Mr} {my r : ControlMessage}
    (h : setControlMessage .serverKvGetRendezvous (u64Bytes size :: regionMessages mr) my = some r) :
    Carries r .serverKvGetRendezvous (.word64 size :: regionArguments mr) := by
  have hk : (.word64 size :: regionArguments mr).map Argument.kind =
      Operation.fields .serverKvGetRendezvous := rfl
  have hp : Points (.word64 size :: regionArguments mr) (u64Bytes size :: regionMessages mr) :=
    List.Forall₂.cons (List.prefix_refl _) (List.Forall₂.cons (List.prefix_refl _)
      (List.Forall₂.cons (List.prefix_refl _) List.Forall₂.nil))
  obtain ⟨m, hm, hc⟩ := setControlMessage_carries hk hp my
    (by simp [regionArguments, Argument.bytes, controlMessageBufferSize])
  rw [hm] at h
  exact Option.some.inj h ▸ hc

theorem handleRendezvousKvSetKey_served {i : Fin n} {msg : ControlMessage} {s s' : ServerMemory n}
    {es : List KeyValueAddressPair} {g : Int → ServerCode n α}
    {stop : Stop (ServerMemory n) Verb Verb.Answer α} (hw : WellFormed s es)
    (hop : msg.operation = .clientKvSetRendezvous)
    (h : settle (handleRendezvousKvSetKey i msg >>= g) s = some (s', stop)) :
    ∃ rec, Served i msg s es s' rec ∧ stop = posting rec g := by
  rw [handleRendezvousKvSetKey, bind_bind, settle_require_bind] at h
  obtain ⟨ptrs, hd, h⟩ := Option.bind_eq_some_iff.mp h
  obtain ⟨key, hk, rfl⟩ := decode_rendezvous hd
  simp only [List.getElem?_cons_zero, List.getElem?_cons_succ, Option.bind_some, hk, bind_bind,
    settle_require_some, settle_lookup hw] at h
  obtain ⟨idx, e, hf, he, hb, hs⟩ | ⟨hfree, hs⟩ := settle_inProgress hw key _
  · rw [hs, if_pos rfl] at h
    obtain ⟨r, hr, rfl, rfl⟩ := reply_eq_some .nothing h
    exact ⟨_, .refused (.inr (.inl hop)) hk hf he hb (carries_empty rfl hr), rfl⟩
  · rw [hs, if_neg (by simp)] at h
    rw [bind_bind, settle_onHeap] at h
    obtain ⟨⟨a, h₁⟩, ha, h⟩ := Option.bind_eq_some_iff.mp h
    rw [bind_bind, settle_require_bind] at h
    obtain ⟨size, hsize, h⟩ := Option.bind_eq_some_iff.mp h
    rw [bind_bind, settle_onHeap] at h
    obtain ⟨⟨b, h₂⟩, hb, h⟩ := Option.bind_eq_some_iff.mp h
    rw [bind_bind, settle_mallocMrInfo] at h
    obtain ⟨-, h⟩ := Option.ite_none_right_eq_some.mp h
    rw [bind_bind, settle_locally_bind] at h
    obtain ⟨⟨mr, s₂⟩, hreg, h⟩ := Option.bind_eq_some_iff.mp h
    obtain ⟨r, hr, rfl, rfl⟩ := reply_eq_some
      (.insert ⟨a, b, size, some ⟨mr, b, size⟩⟩) h
    exact ⟨_, .granted_set hop hk hsize hfree ha hb hreg (carries_region hr), rfl⟩

theorem handleClientKvGet_served {i : Fin n} {msg : ControlMessage} {s s' : ServerMemory n}
    {es : List KeyValueAddressPair} {g : Int → ServerCode n α}
    {stop : Stop (ServerMemory n) Verb Verb.Answer α} (hw : WellFormed s es)
    (hop : msg.operation = .clientKvGet)
    (h : settle (handleClientKvGet i msg >>= g) s = some (s', stop)) :
    ∃ rec, Served i msg s es s' rec ∧ stop = posting rec g := by
  have hd : decodeControlMessageBuffer .clientKvGet msg.buf = some [0] := rfl
  rw [handleClientKvGet, hd, bind_bind, settle_require_some, bind_bind, settle_require_bind] at h
  obtain ⟨key, hk, h⟩ := Option.bind_eq_some_iff.mp h
  rw [bind_bind, settle_lookup hw] at h
  cases hf : find s.heap es key with
  | none =>
    rw [hf] at h
    obtain ⟨r, hr, rfl, rfl⟩ := reply_eq_some .nothing h
    exact ⟨_, .not_found hop hk hf (carries_empty rfl hr), rfl⟩
  | some idx =>
    obtain ⟨e, he, -⟩ := find_some hf
    rw [hf] at h
    simp only [bind_bind, settle_pairAt hw he] at h
    by_cases hb : e.mrRdma.isSome
    · rw [if_pos hb] at h
      obtain ⟨r, hr, rfl, rfl⟩ := reply_eq_some .nothing h
      exact ⟨_, .refused (.inr (.inr hop)) hk hf he hb (carries_empty rfl hr), rfl⟩
    · have hfree : e.mrRdma = none := by simpa using hb
      rw [if_neg hb] at h
      by_cases hl : e.valueSize.toNat < controlMessageBufferSize
      · rw [if_pos hl, bind_bind, settle_gets_bind, bind_bind, settle_require_bind] at h
        obtain ⟨block, hblock, h⟩ := Option.bind_eq_some_iff.mp h
        obtain ⟨r, hr, rfl, rfl⟩ := reply_eq_some .nothing h
        exact ⟨_, .value hop hk hf he hfree hl hblock hr, rfl⟩
      · rw [if_neg hl, bind_bind, settle_mallocMrInfo] at h
        obtain ⟨-, h⟩ := Option.ite_none_right_eq_some.mp h
        rw [bind_bind, settle_locally_bind] at h
        obtain ⟨⟨mr, s₂⟩, hreg, h⟩ := Option.bind_eq_some_iff.mp h
        obtain ⟨r, hr, rfl, rfl⟩ := reply_eq_some
          (.mark idx ⟨mr, e.valueAddress, e.valueSize⟩) h
        exact ⟨_, .granted_get hop hk hf he hfree (Nat.le_of_not_lt hl) hreg
          (carries_sized_region hr), rfl⟩

/-- What is left of `deregister_rdma_mr` when `ibv_dereg_mr` answers. -/
def released (idx : Nat) (mr : Mr) (failed : Int) : ServerCode n Int := do
  let failed ← (if failed = 0 then do
      modify (fun s => s.eraseRegion mr)
      return 0
    else return failed : ServerCode n Int)
  if failed ≠ 0 then return 1
  else
    setMrRdma idx none
    return 0

def afterDereg (i : Fin n) (successful : Operation) (idx : Nat) (mr : Mr)
    (g : Int → ServerCode n α) (failed : Int) : ServerCode n α := do
  let _ ← released idx mr failed
  reply i successful [] (return 0) >>= g

def releasing (i : Fin n) (successful : Operation) (idx : Nat) (mr : Mr)
    (g : Int → ServerCode n α) : Stop (ServerMemory n) Verb Verb.Answer α :=
  .waiting .ibvDeregMr (afterDereg i successful idx mr g)

theorem handleRendezvousFin_served {fin successful : Operation} (hfin : decodeSizes fin = [0])
    (hfields : successful.fields = []) {i : Fin n} {msg : ControlMessage} {s s' : ServerMemory n}
    {es : List KeyValueAddressPair} {g : Int → ServerCode n α}
    {stop : Stop (ServerMemory n) Verb Verb.Answer α} (hw : WellFormed s es)
    (h : settle (handleRendezvousFin fin successful i msg >>= g) s = some (s', stop)) :
    ∃ key idx e, stringAt msg.buf 0 = some key ∧ find s.heap es key = some idx ∧
      es[idx]? = some e ∧
      ((e.mrRdma = none ∧ ∃ r, Carries r successful [] ∧ s' = s.setSend i r ∧
          stop = posting .nothing g) ∨
        ∃ info, e.mrRdma = some info ∧ s' = s ∧ stop = releasing i successful idx info.mr g) := by
  have hd : decodeControlMessageBuffer fin msg.buf = some [0] := by
    simp [decodeControlMessageBuffer, hfin]
  rw [handleRendezvousFin, hd, bind_bind, settle_require_some, bind_bind, settle_require_bind] at h
  obtain ⟨key, hk, h⟩ := Option.bind_eq_some_iff.mp h
  rw [bind_bind, deregisterRdmaMr, bind_bind, settle_lookup hw, bind_bind, settle_require_bind] at h
  obtain ⟨idx, hf, h⟩ := Option.bind_eq_some_iff.mp h
  obtain ⟨e, he, -⟩ := find_some hf
  rw [bind_bind, settle_pairAt hw he] at h
  refine ⟨key, idx, e, hk, hf, he, ?_⟩
  cases hm : e.mrRdma with
  | none =>
    rw [hm] at h
    obtain ⟨r, hr, rfl, rfl⟩ := reply_eq_some .nothing h
    exact .inl ⟨rfl, r, carries_empty hfields hr, rfl, rfl⟩
  | some info =>
    rw [hm] at h
    cases h
    exact .inr ⟨info, rfl, rfl, rfl⟩

theorem settle_setMrRdma {s : ServerMemory n} {es : List KeyValueAddressPair}
    (hw : WellFormed s es) {idx : Nat} {e : KeyValueAddressPair} (he : es[idx]? = some e)
    (info : Option MrInfo) (f : Unit → ServerCode n α) :
    settle (setMrRdma idx info >>= f) s =
      settle (f ()) (s.setDatabase (s.database.set idx { e with mrRdma := info })) := by
  rw [setMrRdma, bind_bind, settle_pairAt hw he]
  rfl

theorem WellFormed.eraseRegion {s : ServerMemory n} {es : List KeyValueAddressPair}
    (hw : WellFormed s es) (mr : Mr) : WellFormed (s.eraseRegion mr) es :=
  ⟨hw.holds, hw.keys, hw.kvMalloc⟩

theorem afterDereg_zero {i : Fin n} {successful : Operation} (hfields : successful.fields = [])
    {idx : Nat} {mr : Mr} {s s' : ServerMemory n} {es : List KeyValueAddressPair}
    {g : Int → ServerCode n α} {stop : Stop (ServerMemory n) Verb Verb.Answer α}
    (hw : WellFormed s es) {e : KeyValueAddressPair} (he : es[idx]? = some e)
    (h : settle (afterDereg i successful idx mr g 0) s = some (s', stop)) :
    ∃ r, Carries r successful [] ∧ stop = posting .nothing g ∧
      s' = ((s.eraseRegion mr).setDatabase
        (s.database.set idx { e with mrRdma := none })).setSend i r := by
  simp only [afterDereg, released, ↓reduceIte, bind_bind, settle_modify_bind, return_bind, ne_eq,
    not_true_eq_false, settle_setMrRdma (hw.eraseRegion mr) he] at h
  obtain ⟨r, hr, rfl, rfl⟩ := reply_eq_some .nothing h
  exact ⟨r, carries_empty hfields hr, rfl, rfl⟩

/-- A handler's result is dropped; the loop goes on with the next client. -/
def next (_ : Int) : ServerCode n LoopExit := return .continue

/-- All that the dispatch of one message can do before it rests. -/
inductive Dispatched (i : Fin n) (msg : ControlMessage) (s : ServerMemory n)
    (es : List KeyValueAddressPair) :
    ServerMemory n → Stop (ServerMemory n) Verb Verb.Answer LoopExit → Prop
  | served {s' rec} (h : Served i msg s es s' rec) : Dispatched i msg s es s' (posting rec next)
  | unlocked {key idx e successful r}
      (hop : (msg.operation = .clientKvSetRendezvousFin ∧ successful = .serverKvSetSuccessful) ∨
        (msg.operation = .clientKvGetRendezvousFin ∧ successful = .serverKvGetSuccessful))
      (hkey : stringAt msg.buf 0 = some key) (hf : find s.heap es key = some idx)
      (he : es[idx]? = some e) (hfree : e.mrRdma = none) (hr : Carries r successful []) :
      Dispatched i msg s es (s.setSend i r) (posting .nothing next)
  | release {key idx e info successful}
      (hop : (msg.operation = .clientKvSetRendezvousFin ∧ successful = .serverKvSetSuccessful) ∨
        (msg.operation = .clientKvGetRendezvousFin ∧ successful = .serverKvGetSuccessful))
      (hkey : stringAt msg.buf 0 = some key) (hf : find s.heap es key = some idx)
      (he : es[idx]? = some e) (hlock : e.mrRdma = some info) :
      Dispatched i msg s es s (releasing i successful idx info.mr next)
  | shut_down (hop : msg.operation = .shutDownServer)
      (hcount : s.numShutDownServerRequest + 1 ≠ n) :
      Dispatched i msg s es s.countShutDown (.done .continue)
  | last_shut_down (hop : msg.operation = .shutDownServer)
      (hcount : s.numShutDownServerRequest + 1 = n) :
      Dispatched i msg s es s.countShutDown (.done .return)
  | ignored
      (hop : msg.operation ≠ .shutDownServer ∧ msg.operation ≠ .clientKvSetEager ∧
        msg.operation ≠ .clientKvSetRendezvous ∧ msg.operation ≠ .clientKvGet ∧
        msg.operation ≠ .clientKvSetRendezvousFin ∧ msg.operation ≠ .clientKvGetRendezvousFin) :
      Dispatched i msg s es s (.done .continue)

theorem dispatch_eq_some {i : Fin n} {msg : ControlMessage} {s s' : ServerMemory n}
    {es : List KeyValueAddressPair} {stop : Stop (ServerMemory n) Verb Verb.Answer LoopExit}
    (hw : WellFormed s es) (h : settle (dispatch i msg) s = some (s', stop)) :
    Dispatched i msg s es s' stop := by
  cases hop : msg.operation with
  | shutDownServer =>
    simp only [dispatch, hop, settle_modify_bind, settle_gets_bind] at h
    by_cases hc : s.countShutDown.numShutDownServerRequest = n
    · have hf : freeArray s.countShutDown.kvMalloc s.countShutDown.heap s.countShutDown.database =
          some s.heap := by
        simp [freeArray, ServerMemory.countShutDown, hw.kvMalloc]
      rw [if_pos hc, settle_locally_bind, hf] at h
      cases h
      exact .last_shut_down hop hc
    · rw [if_neg hc] at h
      cases h
      exact .shut_down hop hc
  | clientKvSetEager =>
    rw [dispatch, hop] at h
    obtain ⟨rec, hs, rfl⟩ := handleEagerKvSet_served (g := next) hw hop h
    exact .served hs
  | clientKvSetRendezvous =>
    rw [dispatch, hop] at h
    obtain ⟨rec, hs, rfl⟩ := handleRendezvousKvSetKey_served (g := next) hw hop h
    exact .served hs
  | clientKvGet =>
    rw [dispatch, hop] at h
    obtain ⟨rec, hs, rfl⟩ := handleClientKvGet_served (g := next) hw hop h
    exact .served hs
  | clientKvSetRendezvousFin =>
    rw [dispatch, hop] at h
    obtain ⟨key, idx, e, hk, hf, he, ⟨hm, r, hr, rfl, rfl⟩ | ⟨info, hm, rfl, rfl⟩⟩ :=
      handleRendezvousFin_served (g := next) rfl rfl hw h
    · exact .unlocked (.inl ⟨hop, rfl⟩) hk hf he hm hr
    · exact .release (.inl ⟨hop, rfl⟩) hk hf he hm
  | clientKvGetRendezvousFin =>
    rw [dispatch, hop] at h
    obtain ⟨key, idx, e, hk, hf, he, ⟨hm, r, hr, rfl, rfl⟩ | ⟨info, hm, rfl, rfl⟩⟩ :=
      handleRendezvousFin_served (g := next) rfl rfl hw h
    · exact .unlocked (.inr ⟨hop, rfl⟩) hk hf he hm hr
    · exact .release (.inr ⟨hop, rfl⟩) hk hf he hm
  | serverKvSetRendezvous | serverKvGetEager | serverKvGetRendezvous | serverKvGetKeyNotFound
  | serverInProgress | serverKvSetSuccessful | serverKvGetSuccessful =>
    rw [dispatch, hop] at h
    cases h
    exact .ignored (by simp [hop])

/-- What is left of a pass when the poll answers. -/
def afterTake (i : Fin n) (r : Int) : ServerCode n LoopExit :=
  if r = 0 then .call .readMessage (dispatch i) else return .continue

theorem runServerPass_eq (i : Fin n) :
    (runServerPass i : ServerCode n LoopExit) = .call (.pollNextReceiveWc false) (afterTake i) := by
  refine congrArg (Routine.call (Verb.pollNextReceiveWc false)) (funext fun (r : Int) => ?_)
  change ((if r ≠ 0 then return 1 else return 0 : ServerCode n Int) >>= fun polled =>
    if polled = 1 then return .continue else readMessage >>= dispatch i : ServerCode n LoopExit) = _
  by_cases hr : r = 0
  · rw [afterTake, if_pos hr, if_neg (not_not.mpr hr)]
    rfl
  · rw [afterTake, if_neg hr, if_pos hr]
    rfl

end NetworkOptimization.Handlers
