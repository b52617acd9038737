import NetworkOptimization.Returns

namespace NetworkOptimization.Lengths

open Words ControlMessages Verbs SequentialCode Calls Client Returns

variable {α β : Type}

/-- The RDMA request of a verb, where `ibv_post_send` accepts it. -/
def transferOf : (v : Verb) → v.Answer → List RdmaRequest
  | .ibvPostSend (.rdma req), r => if r = (0 : Int) then [req] else []
  | .ibvPostSend .send, _ | .pollNSendWc, _ | .pollNextReceiveWc _, _ | .readMessage, _
  | .ibvDeregMr, _ => []

def transfers : ClientCode α → ClientMemory → Outcomes → List RdmaRequest
  | .ret _, _, _ => []
  | .load k, m, o => transfers (k m) m o
  | .store m k, _, o => transfers k m o
  | .fault, _, _ => []
  | .call v k, m, o =>
    transferOf v (o.answer v).1 ++ transfers (k (o.answer v).1) (o.effect m v) (o.answer v).2

variable {m : ClientMemory} {o : Outcomes} {k : Nat} {Size : UInt64 → Prop}

/-- A request for a region of the announced size, whose length is cut to 32 bits. -/
structure Cut (req : RdmaRequest) (size : UInt64) : Prop where
  region : req.lkey.size = size
  length : req.length = size.toUInt32

/-- The code moves nothing and does not return 0, or its `k`-th post is a transfer of a size that
was announced, and it posts no other. -/
def Comes (k : Nat) (Size : UInt64 → Prop) (code : ClientCode Int) (m : ClientMemory)
    (o : Outcomes) : Prop :=
  (transfers code m o = [] ∧ ∀ m', play code m o ≠ some (m', 0)) ∨
    ∃ size req, Size size ∧ Cut req size ∧ transfers code m o = if o.posted k = 0 then [req] else []

theorem transfers_confirm (rest : ClientCode Int) : transfers (confirm rest) m o =
    if o.sent 0 ≠ 0 then [] else transfers rest m { o with sent := fun k => o.sent (k + 1) } := by
  change transfers (if o.sent 0 ≠ 0 then return 1 else rest) m _ = _
  split_ifs <;> rfl

theorem transfers_sendThen (rest : ClientCode Int) : transfers (sendThen rest) m o =
    if o.sent 0 ≠ 0 then [] else transfers rest m o.afterSend := by
  have hpost : transfers (sendThen rest) m o =
      transfers (confirm rest) m { o with posted := fun k => o.posted (k + 1) } := by
    change transfers
      (SequentialCode.bind (if o.posted 0 ≠ 0 then return 1 else return 0) fun _ => confirm rest) m _ = _
    split_ifs <;> rfl
  rw [hpost, transfers_confirm]
  rfl

theorem transfers_receiveThen (rest : ControlMessage → ClientCode Int) : transfers (receiveThen rest) m o =
    if o.received 0 ≠ 0 then [] else transfers (rest (o.reply 0)) m o.afterReceive := by
  change transfers (SequentialCode.bind (if o.received 0 ≠ 0 then return 1 else return 0) _) m _ = _
  split_ifs <;> rfl

theorem transfers_dereg (mr : LocalMr) (f : Int → ClientCode β) :
    transfers (Client.ibvDeregMr mr >>= f) m o =
    if o.dereg 0 = 0 then transfers (f 0) (m.eraseRegion mr) o.afterDereg
    else transfers (f (o.dereg 0)) m o.afterDereg := by
  change transfers (SequentialCode.bind (if o.dereg 0 = 0 then do
      modify (fun m => m.eraseRegion mr); return 0 else return o.dereg 0) f) m _ = _
  split_ifs <;> rfl

theorem transfers_locally (g : ClientMemory → Option (α × ClientMemory)) (f : α → ClientCode β) :
    transfers (locally g >>= f) m o = ((g m).map (fun p => transfers (f p.1) p.2 o)).getD [] := by
  change transfers (SequentialCode.bind (locally g) f) m o = _
  cases hg : g m <;> simp [locally, SequentialCode.bind, transfers, hg]

section Silent

variable {f : α → ClientCode β}

theorem silent_locally {g : ClientMemory → Option (α × ClientMemory)}
    (hf : ∀ a m o, transfers (f a) m o = []) (m : ClientMemory) (o : Outcomes) :
    transfers (locally g >>= f) m o = [] := by
  rw [transfers_locally]
  cases g m with
  | none => rfl
  | some p => exact hf ..

theorem silent_require {x : Option α} (hf : ∀ a m o, transfers (f a) m o = []) (m : ClientMemory)
    (o : Outcomes) : transfers (require x >>= f) m o = [] := by
  cases x with
  | none => rfl
  | some a => exact hf ..

theorem silent_modify {g : ClientMemory → ClientMemory} {f : Unit → ClientCode β}
    (hf : ∀ m o, transfers (f ()) m o = []) (m : ClientMemory) (o : Outcomes) :
    transfers (modify g >>= f) m o = [] := hf (g m) o

theorem silent_dereg {mr : LocalMr} {f : Int → ClientCode β} (hf : ∀ r m o, transfers (f r) m o = [])
    (m : ClientMemory) (o : Outcomes) : transfers (Client.ibvDeregMr mr >>= f) m o = [] := by
  rw [transfers_dereg, hf, hf, ite_self]

theorem silent_sendThen {rest : ClientCode Int} (hrest : ∀ m o, transfers rest m o = []) (m : ClientMemory)
    (o : Outcomes) : transfers (sendThen rest) m o = [] := by
  rw [transfers_sendThen, hrest, ite_self]

theorem silent_receiveThen {rest : ControlMessage → ClientCode Int}
    (hrest : ∀ msg m o, transfers (rest msg) m o = []) (m : ClientMemory) (o : Outcomes) :
    transfers (receiveThen rest) m o = [] := by
  rw [transfers_receiveThen, hrest, ite_self]

theorem silent_ite {c : Prop} [Decidable c] {x y : ClientCode Int} (hx : ∀ m o, transfers x m o = [])
    (hy : ∀ m o, transfers y m o = []) (m : ClientMemory) (o : Outcomes) :
    transfers (if c then x else y) m o = [] := by
  split_ifs
  · exact hx m o
  · exact hy m o

theorem silent_return (r : Int) (m : ClientMemory) (o : Outcomes) : transfers (return r) m o = [] := rfl

end Silent

theorem silent_setResult (msg : ControlMessage) : ∀ m o, transfers (setResult msg) m o = [] :=
  silent_ite (silent_return 0) (silent_return 1)

theorem silent_getResult (msg : ControlMessage) : ∀ m o, transfers (getResult msg) m o = [] :=
  silent_ite (silent_return 0) (silent_return 1)

theorem silent_closeSet (mr : LocalMr) : ∀ m o, transfers (closeSet mr) m o = [] :=
  silent_dereg fun _ => silent_ite (silent_return 1) <| silent_modify <|
    silent_receiveThen silent_setResult

theorem silent_closeGet (m : ClientMemory) (o : Outcomes) : transfers closeGet m o = [] := by
  change transfers (require m.ctx.mrRdma >>= _) m o = []
  exact silent_require (fun mr => silent_dereg fun _ => silent_ite (silent_return 1) <| silent_modify <|
    silent_receiveThen silent_getResult) m o

theorem silent_finSet (key : CString) (mr : LocalMr) : ∀ m o, transfers (finSet key mr) m o = [] :=
  silent_locally fun _ => silent_sendThen (silent_closeSet mr)

theorem silent_finGet (key : CString) : ∀ m o, transfers (finGet key) m o = [] :=
  silent_locally fun _ => silent_sendThen silent_closeGet

section Paths

theorem Comes.require {x : Option α} {f : α → ClientCode Int}
    (h : ∀ a, x = some a → Comes k Size (f a) m o) :
    Comes k Size (require x >>= f) m o := by
  cases x with
  | none => exact .inl ⟨rfl, nofun⟩
  | some a => exact h a rfl

theorem Comes.locally {g : ClientMemory → Option (α × ClientMemory)} {f : α → ClientCode Int}
    (h : ∀ a m', g m = some (a, m') → Comes k Size (f a) m' o) : Comes k Size (locally g >>= f) m o := by
  rw [Comes, transfers_locally, play_locally_bind]
  cases hg : g m with
  | none => exact .inl ⟨rfl, nofun⟩
  | some p => exact h p.1 p.2 hg

theorem Comes.sendThen {rest : ClientCode Int} (h : Comes k Size rest m o.afterSend) :
    Comes (k + 1) Size (sendThen rest) m o := by
  rw [Comes, transfers_sendThen, play_sendThen]
  by_cases hs : o.sent 0 = 0
  · rw [if_neg (not_not.mpr hs), if_neg (not_not.mpr hs)]
    exact h
  · rw [if_pos hs, if_pos hs]
    exact .inl ⟨rfl, by simp⟩

theorem Comes.receiveThen {rest : ControlMessage → ClientCode Int}
    (h : Comes k Size (rest (o.reply 0)) m o.afterReceive) : Comes k Size (receiveThen rest) m o := by
  rw [Comes, transfers_receiveThen, play_receiveThen]
  by_cases hr : o.received 0 = 0
  · rw [if_neg (not_not.mpr hr), if_neg (not_not.mpr hr)]
    exact h
  · rw [if_pos hr, if_pos hr]
    exact .inl ⟨rfl, by simp⟩

theorem Comes.rdmaThen {opcode : RdmaOpcode} {rest : ClientCode Int} {mr : LocalMr} {start : Buffer}
    {va : UInt64}
    {rkey : UInt32} (hrest : ∀ m o, transfers rest m o = []) (hsize : Size mr.size) :
    Comes 0 Size (rdmaThen opcode rest) (m.setContext ⟨some mr, some start, mr.size, va, rkey⟩) o := by
  have hconfirm : ∀ m o, transfers (confirm rest) m o = [] := by
    intro m o
    rw [transfers_confirm, hrest, ite_self]
  refine .inr ⟨mr.size, rdmaRequest ⟨some mr, some start, mr.size, va, rkey⟩ mr start opcode, hsize,
    ⟨rfl, rfl⟩, ?_⟩
  change _ ++ transfers (confirm rest) _ _ = _
  rw [hconfirm, List.append_nil]
  rfl

theorem comes_refusedSet (mr : LocalMr) : Comes k Size (refusedSet mr) m o := by
  refine .inl ⟨silent_dereg (fun _ => silent_ite (silent_return 3) (silent_return 2)) m o, fun m' h => ?_⟩
  rw [refusedSet, play_dereg_bind] at h
  by_cases hd : o.dereg 0 = 0
  · rw [if_pos hd, if_neg (not_not.mpr rfl)] at h
    cases h
  · rw [if_neg hd, if_pos hd] at h
    cases h

theorem comes_grantedSet {key : CString} {mr : LocalMr} {msg : ControlMessage} (hsize : Size mr.size) :
    Comes 0 Size (grantedSet key mr msg) m o := by
  rw [grantedSet_code]
  exact .require fun va _ => .require fun rkey _ => .rdmaThen (silent_finSet key mr) hsize

theorem comes_grantedGet {key : CString} {msg : ControlMessage} (hsize : ∀ p ptrs size,
    decodeControlMessageBuffer .serverKvGetRendezvous msg.buf = some (p :: ptrs) →
      word64At msg.buf p = some size → Size size) : Comes 0 Size (grantedGet key msg) m o := by
  refine .require fun ptrs hptrs => .require fun size hread => .require fun va _ => .require fun rkey _ =>
    .locally fun var m' _ => .rdmaThen (silent_finGet key) ?_
  cases ptrs with
  | nil => cases hread
  | cons p ptrs => exact hsize p ptrs size hptrs hread

end Paths

/-- The size that the control message of a transfer announces: the client's request for a set,
the server's answer for a get. -/
def Announced (m : ClientMemory) (o : Outcomes) (size : UInt64) : Call → Prop
  | .kvSet key value => size = value.size ∧
      ∃ m' stop, settle (kvSet key value) m = some (m', stop) ∧ Conveys m'.send key value
  | .kvGet _ => (o.reply 0).operation = .serverKvGetRendezvous ∧
      ∃ p ptrs, decodeControlMessageBuffer .serverKvGetRendezvous (o.reply 0).buf = some (p :: ptrs) ∧
        word64At (o.reply 0).buf p = some size
  | .shutDownServer => False

def Rendezvous (o : Outcomes) : Call → Prop
  | .kvSet key value => ¬ Eager key value
  | .kvGet _ => (o.reply 0).operation = .serverKvGetRendezvous
  | .shutDownServer => False

/-- A call on the rendezvous way comes to the transfer of the announced size. -/
theorem rendezvous_comes {call : Call} (hr : Rendezvous o call) :
    Comes 1 (fun size => Announced m o size call) call.code m o := by
  cases call with
  | kvSet key value =>
    have he : ¬ key.strlen + value.strlen + 2 ≤ controlMessageBufferSize := hr
    rw [Call.code, kvSet, if_neg he]
    refine .locally fun u m' hset => .sendThen (.locally fun mr m'' hreg => .receiveThen ?_)
    obtain ⟨msg, hmsg, -⟩ := Option.map_eq_some_iff.mp hset
    obtain ⟨rfl, -⟩ := Prod.mk.inj (Option.some.inj hreg)
    have hf : (Call.kvSet key value).Fits := by
      by_contra hf
      have hnone := setControlMessage_none (Call.kvSet key value).kinds (points_bytes _) m.send
        (Nat.lt_of_not_le hf)
      simp only [Call.operation, Call.arguments, show ¬ Eager key value from hr, ↓reduceIte] at hnone
      cases hnone.symm.trans hmsg
    obtain ⟨msg', hc, hs⟩ := Call.settle_fits hf m
    rw [rendezvousReply]
    split_ifs
    · exact comes_refusedSet _
    · exact comes_grantedSet ⟨rfl, m.setSend msg', _, hs, conveys_of_carries hc⟩
  | kvGet key =>
    have hop : (o.reply 0).operation = .serverKvGetRendezvous := hr
    refine .locally fun u m' _ => .sendThen (.receiveThen ?_)
    change Comes 0 _ (getReply key (o.reply 0)) _ _
    rw [getReply, hop]
    exact comes_grantedGet fun p ptrs size hptrs hread => ⟨hop, p, ptrs, hptrs, hread⟩
  | shutDownServer => exact hr.elim

theorem rendezvous_of_transfer {call : Call} {req : RdmaRequest} (h : req ∈ transfers call.code m o) :
    Rendezvous o call := by
  by_contra hr
  have hnone : transfers call.code m o = [] := by
    cases call with
    | kvSet key value =>
      have he : key.strlen + value.strlen + 2 ≤ controlMessageBufferSize := not_not.mp hr
      rw [Call.code, kvSet, if_pos he]
      exact silent_locally (fun _ => silent_sendThen <| silent_receiveThen fun msg =>
        silent_ite (silent_return 2) (silent_setResult msg)) m o
    | kvGet key =>
      change transfers (setMessage _ _ >>= _) m o = []
      rw [setMessage, transfers_locally]
      cases setControlMessage Operation.clientKvGet [key.bytes] m.send with
      | none => rfl
      | some msg =>
        change transfers (sendThen (receiveThen (getReply key))) _ _ = []
        rw [transfers_sendThen, transfers_receiveThen]
        split_ifs
        · rfl
        · rfl
        change transfers (getReply key (o.reply 0)) _ _ = []
        cases hop : (o.reply 0).operation with
        | serverKvGetRendezvous => exact absurd hop hr
        | serverKvGetEager =>
          rw [getReply, hop]
          exact silent_require (fun _ => silent_require fun _ => silent_locally fun _ => silent_modify <|
            silent_return 0) _ _
        | shutDownServer | clientKvSetEager | clientKvSetRendezvous | serverKvSetRendezvous | clientKvGet
        | serverKvGetKeyNotFound | serverInProgress | clientKvGetRendezvousFin | clientKvSetRendezvousFin
        | serverKvSetSuccessful | serverKvGetSuccessful =>
          rw [getReply, hop]
          rfl
    | shutDownServer => exact silent_locally (fun _ => silent_sendThen (silent_return 0)) m o
  rw [hnone] at h
  exact List.not_mem_nil h

/-- What transfers leave in a destination: each writes its bytes from the beginning on. -/
def landed (reqs : List RdmaRequest) (source dest : List UInt8) : List UInt8 :=
  reqs.foldl (fun dest req => source.take req.length.toNat ++ dest.drop req.length.toNat) dest

/-- Whatever a destination of the size held, behind the transfers it holds the source. -/
def Written (reqs : List RdmaRequest) (size : UInt64) : Prop :=
  ∀ source dest : List UInt8, source.length = size.toNat → dest.length = size.toNat →
    landed reqs source dest = source

theorem Cut.length_iff {req : RdmaRequest} {size : UInt64} (h : Cut req size) :
    req.length.toNat = size.toNat ↔ size.toNat < 2 ^ 32 := by
  rw [h.length, UInt64.toNat_toUInt32, Nat.mod_eq_iff_lt (by decide)]

theorem Cut.written_iff {req : RdmaRequest} {size : UInt64} (h : Cut req size) :
    Written [req] size ↔ size.toNat < 2 ^ 32 := by
  rw [← h.length_iff]
  have hle : req.length.toNat ≤ size.toNat := by
    rw [h.length, UInt64.toNat_toUInt32]
    exact Nat.mod_le _ _
  constructor
  · intro hw
    by_contra hne
    have hlt : req.length.toNat < size.toNat := by omega
    have hland := hw (List.replicate size.toNat 1) (List.replicate size.toNat 0) (by simp) (by simp)
    have hlast : (landed [req] (List.replicate size.toNat 1)
        (List.replicate size.toNat 0))[req.length.toNat]? = some 0 := by
      simp [landed, hlt, Nat.min_eq_left hle]
    rw [hland] at hlast
    simp [hlt] at hlast
  · intro hlen source dest hs hd
    simp only [landed, List.foldl_cons, List.foldl_nil]
    rw [List.take_of_length_le (by omega), List.drop_eq_nil_of_le (by omega), List.append_nil]

theorem written_none {size : UInt64} (h0 : size ≠ 0) : ¬ Written [] size := by
  intro hw
  have hpos : 0 < size.toNat := Nat.pos_of_ne_zero fun h => h0 (UInt64.toNat_inj.mp h)
  have hland := hw (List.replicate size.toNat 1) (List.replicate size.toNat 0) (by simp) (by simp)
  have hhead := congrArg List.head? hland
  simp [landed, List.head?_replicate, Nat.ne_of_gt hpos] at hhead

/-- The length of each transfer is the announced and registered size exactly where that is below
2^32. A call on the rendezvous way that returns 0 posted its transfer, and has written its whole
destination exactly where the post was accepted and the size is below 2^32. -/
theorem transfer_whole_iff (call : Call) (m : ClientMemory) (o : Outcomes) :
    (∀ req ∈ transfers call.code m o, ∃ size, Announced m o size call ∧
        (req.length.toNat = size.toNat ∧ req.length.toNat = req.lkey.size.toNat ↔ size.toNat < 2 ^ 32)) ∧
      ∀ m', Rendezvous o call → play call.code m o = some (m', 0) → ∃ size, Announced m o size call ∧
        (o.posted 1 = 0 → ∃ req, transfers call.code m o = [req] ∧ req.lkey.size = size) ∧
        (size ≠ 0 →
          (Written (transfers call.code m o) size ↔ o.posted 1 = 0 ∧ size.toNat < 2 ^ 32)) := by
  constructor
  · intro req hreq
    obtain ⟨hnone, -⟩ | ⟨size, req', hsize, hcut, hposts⟩ := rendezvous_comes (rendezvous_of_transfer hreq)
    · rw [hnone] at hreq
      exact absurd hreq List.not_mem_nil
    · rw [hposts] at hreq
      obtain rfl : req = req' := by
        split_ifs at hreq
        · exact List.mem_singleton.mp hreq
        · exact absurd hreq List.not_mem_nil
      refine ⟨size, hsize, ?_⟩
      rw [hcut.region, and_self]
      exact hcut.length_iff
  · intro m' hr hplay
    obtain ⟨-, hno⟩ | ⟨size, req, hsize, hcut, hposts⟩ := rendezvous_comes hr
    · exact absurd hplay (hno m')
    · rw [hposts]
      refine ⟨size, hsize, fun hpost => ⟨req, if_pos hpost, hcut.region⟩, fun h0 => ?_⟩
      split_ifs with hpost
      · rw [hcut.written_iff, and_iff_right hpost]
      · exact iff_of_false (written_none h0) fun h => hpost h.1

def setOf (len : Nat) (hl : len + 1 < 2 ^ 63) : Call :=
  .kvSet (CString.repeated 97 (by decide) 1 (by decide)) (CString.repeated 98 (by decide) len hl)

theorem setOf_size {len : Nat} (hl : len + 1 < 2 ^ 63) {size : UInt64}
    (h : Announced bare granting size (setOf len hl)) : size.toNat = len + 1 := by
  rw [h.1, CString.size_toNat, CString.strlen_repeated]

theorem setOf_returns {len : Nat} (hl : len + 1 < 2 ^ 63) (hlong : 4096 ≤ len) :
    Rendezvous granting (setOf len hl) ∧ ∃ m', play (setOf len hl).code bare granting = some (m', 0) := by
  obtain ⟨he, hf⟩ := long_rendezvous len hl hlong
  exact ⟨he, granting_returns he hf bare⟩

theorem transfer_whole_short :
    ∃ m' size, play (setOf 5000 (by decide)).code bare granting = some (m', 0) ∧
      size.toNat = 5001 ∧ Written (transfers (setOf 5000 (by decide)).code bare granting) size := by
  obtain ⟨hr, m', h⟩ := @setOf_returns 5000 (by decide) (by decide)
  obtain ⟨size, hannounced, -, hiff⟩ := (transfer_whole_iff _ bare granting).2 m' hr h
  have hsize := setOf_size _ hannounced
  have h0 : size ≠ 0 := by
    rintro rfl
    cases hsize
  exact ⟨m', size, h, hsize, (hiff h0).mpr ⟨rfl, by omega⟩⟩

/-- A value of four gigabytes, NUL included: the set returns 0, and its request moved no byte. -/
theorem transfer_cut :
    ∃ m' size, play (setOf (2 ^ 32 - 1) (by decide)).code bare granting = some (m', 0) ∧
      Announced bare granting size (setOf (2 ^ 32 - 1) (by decide)) ∧
      ¬ Written (transfers (setOf (2 ^ 32 - 1) (by decide)).code bare granting) size := by
  obtain ⟨hr, m', h⟩ := @setOf_returns (2 ^ 32 - 1) (by decide) (by decide)
  obtain ⟨-, hno⟩ | ⟨size, req, hsize, hcut, hposts⟩ := rendezvous_comes (m := bare) hr
  · exact absurd h (hno m')
  · refine ⟨m', size, h, hsize, ?_⟩
    rw [hposts, if_pos (show granting.posted 1 = 0 from rfl), hcut.written_iff, setOf_size _ hsize]
    omega

end NetworkOptimization.Lengths
