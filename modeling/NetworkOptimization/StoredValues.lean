import NetworkOptimization.Store

namespace NetworkOptimization.StoredValues

open Words Memory ControlMessages DynamicArray Verbs SequentialCode Calls Server Handlers Tables
open Runs
open Network Protocol Histories Exclusion Records Values Seats Refinement Transfers ServerSteps
open Correspondence Store

variable {n : Nat} {α : Type} {programs : Fin n → List Request} {S S' : World n} {P P' : State n}
  {c : Fin n} {key : List UInt8}

theorem encode_string (v : CString) : encode [.string v] = v.bytes := List.append_nil _

theorem handleClientKvGet_eager {i : Fin n} {msg : ControlMessage} {s : ServerMemory n}
    {es : List KeyValueAddressPair} (g : Int → ServerCode n α) (hw : WellFormed s es) {idx : Nat}
    {e : KeyValueAddressPair} {v : CString} (hk : stringAt msg.buf 0 = some key)
    (hf : find s.heap es key = some idx) (he : es[idx]? = some e) (hfree : e.mrRdma = none)
    (hsmall : e.valueSize.toNat < controlMessageBufferSize)
    (hblock : s.heap.blocks e.valueAddress = some v.bytes)
    (hfit : v.bytes.length ≤ controlMessageBufferSize) :
    ∃ r, settle (handleClientKvGet i msg >>= g) s = some (s.setSend i r, posting .nothing g) ∧
      Carries r .serverKvGetEager [.string v] := by
  have hd : decodeControlMessageBuffer .clientKvGet msg.buf = some [0] := rfl
  have hkind : [Argument.string v].map Argument.kind = Operation.fields .serverKvGetEager := rfl
  have hpoints : Points [.string v] [v.bytes] := List.Forall₂.cons (List.prefix_refl _) List.Forall₂.nil
  obtain ⟨r, hr, hcarries⟩ := setControlMessage_carries hkind hpoints (s.send i)
    ((encode_string v).symm ▸ hfit)
  refine ⟨r, ?_, hcarries⟩
  rw [handleClientKvGet, hd, bind_bind, settle_require_some, bind_bind]
  change settle (require (stringAt msg.buf 0) >>= _) s = _
  rw [hk, settle_require_some, bind_bind, settle_lookup hw, hf]
  simp only [bind_bind, settle_pairAt hw he]
  rw [hfree, if_neg (by simp), if_pos hsmall, bind_bind, settle_gets_bind, hblock, bind_bind,
    settle_require_some]
  exact (settle_reply .nothing g s).trans (by rw [hr]; rfl)

/-- An unlocked entry holds one string, which fills the block, and its size. -/
def Whole (m : ServerMemory n) (sl : Slot) (v : CString) : Prop :=
  sl.mrRdma = none ∧ m.heap.blocks sl.address = some v.bytes ∧ sl.size.toNat = v.strlen + 1

theorem whole_of_intact (h : Intact programs S) {sl : Slot} (hsl : entry S.mem key = some sl)
    (hu : sl.mrRdma = none) : ∃ v, Whole S.mem sl v := by
  obtain ⟨v, hblock, hsize, -⟩ := h key sl hsl hu
  exact ⟨v, hu, hblock, by rw [hsize, CString.size_toNat]⟩

theorem whole_found (h : Intact programs S) {es : List KeyValueAddressPair} (hv : Valid S.mem es)
    {idx : Nat} {e : KeyValueAddressPair} (hf : find S.mem.heap es key = some idx)
    (he : es[idx]? = some e) (hfree : e.mrRdma = none) :
    entry S.mem key = some (slot e) ∧ ∃ v, Whole S.mem (slot e) v := by
  have hentry : entry S.mem key = some (slot e) := by
    rw [entry_eq hv]
    exact slots_of_find hf he
  exact ⟨hentry, whole_of_intact h hentry hfree⟩

theorem Whole.bytes_length {m : ServerMemory n} {sl : Slot} {v : CString} (h : Whole m sl v) :
    v.bytes.length = sl.size.toNat := by
  rw [CString.bytes_length, h.2.2]

theorem eager_whole (h : Refines programs S P) (hin : Intact programs S) (hs : stepServer S 0 = some S')
    {request reply : ControlMessage} (hh : S'.history = .answered c request reply :: S.history)
    (hop : reply.operation = .serverKvGetEager) :
    ∃ key sl v, stringAt request.buf 0 = some key ∧ entry S.mem key = some sl ∧ Whole S.mem sl v ∧
      sl.size.toNat < controlMessageBufferSize ∧ Carries reply .serverKvGetEager [.string v] ∧
        (encode [.string v]).length ≤ controlMessageBufferSize := by
  obtain ⟨es, hv, ⟨rec, hserved, -, rfl⟩ | hsuccess | hsuccess⟩ := answered_step h hs hh
  · generalize S'.mem = m at hserved hop ⊢
    cases hserved with
    | @value key idx e block r _ hkey hf he hfree hsmall hblock hr =>
      obtain ⟨hentry, v, hwhole⟩ := whole_found hin hv hf he hfree
      obtain ⟨v', rest, hbytes, hcarries⟩ := carries_value (value_fits hv he hsmall hblock) hr
      obtain rfl : v = v' := by
        have hsame : v.bytes = block := Option.some.inj (hwhole.2.1.symm.trans hblock)
        exact bytes_inj (hsame.trans hbytes)
      rw [send_setSend]
      refine ⟨key, slot e, v, hkey, hentry, hwhole, hsmall, hcarries, ?_⟩
      rw [encode_string, hwhole.bytes_length]
      exact hsmall.le
    | refused _ _ _ _ _ hr | stored _ _ _ _ _ _ _ _ hr | granted_set _ _ _ _ _ _ _ hr
    | not_found _ _ _ hr | granted_get _ _ _ _ _ _ _ hr =>
      rw [send_setSend, hr.1] at hop
      cases hop
  · rw [hsuccess] at hop
    cases hop
  · rw [hsuccess] at hop
    cases hop

theorem rendezvous_whole (h : Refines programs S P) (hin : Intact programs S)
    (hs : stepServer S 0 = some S') {request reply : ControlMessage}
    (hh : S'.history = .answered c request reply :: S.history)
    (hop : reply.operation = .serverKvGetRendezvous) :
    ∃ key sl v mr, stringAt request.buf 0 = some key ∧ entry S.mem key = some sl ∧ Whole S.mem sl v ∧
      controlMessageBufferSize ≤ sl.size.toNat ∧ mr ∈ S'.mem.regions ∧ mr.addr = sl.address ∧
        mr.length = sl.size ∧
          Carries reply .serverKvGetRendezvous (.word64 mr.length :: regionArguments mr) := by
  obtain ⟨es, hv, ⟨rec, hserved, -, rfl⟩ | hsuccess | hsuccess⟩ := answered_step h hs hh
  · generalize S'.mem = m at hserved hop ⊢
    cases hserved with
    | @granted_get key idx e mr s₂ r _ hkey hf he hfree hlarge hreg hr =>
      obtain ⟨hentry, v, hwhole⟩ := whole_found hin hv hf he hfree
      obtain ⟨haddr, hlength, -, -, rfl⟩ := ibvRegMr_eq_some hreg
      rw [send_setSend]
      refine ⟨key, slot e, v, mr, hkey, hentry, hwhole, hlarge, Finset.mem_insert_self mr _, haddr,
        hlength, ?_⟩
      rw [hlength]
      exact hr
    | refused _ _ _ _ _ hr | stored _ _ _ _ _ _ _ _ hr | granted_set _ _ _ _ _ _ _ hr
    | not_found _ _ _ hr =>
      rw [send_setSend, hr.1] at hop
      cases hop
    | value _ _ _ he _ hsmall hblock hr =>
      obtain ⟨v, rest, -, hcarries⟩ := carries_value (value_fits hv he hsmall hblock) hr
      rw [send_setSend, hcarries.1] at hop
      cases hop
  · rw [hsuccess] at hop
    cases hop
  · rw [hsuccess] at hop
    cases hop

theorem eager_answered (h : Refines programs S P) (hin : Intact programs S)
    (ht : S.thread = some (c, .waiting .readMessage (dispatch c)))
    (hop : (S.port c).receive.operation = .clientKvGet)
    (hkey : stringAt (S.port c).receive.buf 0 = some key) {sl : Slot}
    (hsl : entry S.mem key = some sl) (hu : sl.mrRdma = none)
    (hsmall : sl.size.toNat < controlMessageBufferSize) :
    ∃ S' reply, stepServer S 0 = some S' ∧
      S'.history = .answered c (S.port c).receive reply :: S.history ∧
        reply.operation = .serverKvGetEager := by
  obtain ⟨es, hv⟩ := valid_at h
  obtain ⟨v, hwhole⟩ := whole_of_intact hin hsl hu
  rw [entry_eq hv] at hsl
  obtain ⟨idx, e, hf, he, rfl, -⟩ := find_of_slots hsl
  have hfit : v.bytes.length ≤ controlMessageBufferSize := by
    rw [hwhole.bytes_length]
    exact hsmall.le
  obtain ⟨r, hr, hcarries⟩ :=
    handleClientKvGet_eager next hv.wellFormed hkey hf he hu hsmall hwhole.2.1 hfit
  have hdispatch : settle (dispatch c (S.port c).receive) S.mem =
      some (S.mem.setSend c r, posting .nothing next) := by
    rw [dispatch, hop]
    exact hr
  refine ⟨(({ S with mem := S.mem.setSend c r, thread := some (c, posting .nothing next) }).setPort c
    (S.port c)).log [.answered c (S.port c).receive ((S.mem.setSend c r).send c)], r, ?_, ?_, hcarries.1⟩
  · simp only [stepServer, ht, Port.answer, Option.bind_eq_bind, Option.bind_some, hdispatch]
    rfl
  · rw [send_setSend]
    rfl

/-- A `kv_get` that is about to return 0 has filled its buffer with the value. -/
theorem got_whole (h : Refines programs S P) (hP : Exact programs P) {key : CString}
    (ht : (S.client c).thread = some (.done 0))
    (hcall : callAt programs c (S.client c).index = some (.kvGet key)) :
    ∃ v : CString, content (S.client c).mem = some v.bytes ∧
      Promised programs S.history c (S.client c).index key.chars v := by
  obtain ⟨-, -, ⟨call, success, hx, hr⟩ | ⟨-, hlast⟩⟩ := Seat.at_done (h.seat c) ht
  · obtain rfl : success = true := hr.mp rfl
    obtain ⟨hcall', -⟩ := hP.current c call (by rw [hx]; rfl)
    rw [← h.index, hcall] at hcall'
    cases hcall'
    have hgot := hP.values.session c
    rw [hx] at hgot
    obtain ⟨v, hbuffer, hpromised⟩ := hgot
    refine ⟨v, (h.buffer c).trans hbuffer, ?_⟩
    rw [h.history, h.index]
    exact hpromised
  · rw [hlast] at hcall
    cases hcall

theorem read_whole (h : Refines programs S P) (hP : Exact programs P) {wr : RdmaRequest}
    {wrs : List WorkRequest} (hq : (S.client c).port.sendQueue = .rdma wr :: wrs)
    (hop : wr.opcode = .read) :
    ∃ (v : CString) (buf : List UInt8), S.mem.heap.blocks wr.remoteAddr = some v.bytes ∧
      localBytes (S.client c).mem wr.addr = some buf ∧ content (S.client c).mem = some buf ∧
        buf.length = v.strlen + 1 ∧ wr.length.toNat = v.strlen + 1 := by
  obtain ⟨r, mr, rest, moved, hx, htransfer, -⟩ := at_rdma (h.seat c) hq
  have hcarried := hP.values.session c
  rw [hx] at hcarried
  cases htransfer with
  | write => cases hop
  | @read key _ lmr a hvar =>
    obtain ⟨v, ⟨⟨hblock, hsize, hshort, -⟩, -⟩, buf, hbuffer, hlength, -⟩ := hcarried
    have hcontent : content (S.client c).mem = some buf := (h.buffer c).trans hbuffer
    refine ⟨v, buf, h.cells ▸ hblock, ?_, hcontent, ?_,
      (size_toUInt32 hsize hshort).trans v.bytes_length⟩
    · rw [content, hvar] at hcontent
      exact hcontent
    · rw [hlength, CString.bytes_length]

/-- All values are whole: where they are stored, in the answers of the server's next step,
in the reads of the clients, and in the buffers of the calls that return next. -/
structure Wellformed (programs : Fin n → List Request) (S : World n) : Prop where
  stored : ∀ key sl, entry S.mem key = some sl → sl.mrRdma = none → ∃ v, Whole S.mem sl v
  eager : ∀ S' c request reply, stepServer S 0 = some S' →
    S'.history = .answered c request reply :: S.history → reply.operation = .serverKvGetEager →
      ∃ key sl v, stringAt request.buf 0 = some key ∧ entry S.mem key = some sl ∧ Whole S.mem sl v ∧
        sl.size.toNat < controlMessageBufferSize ∧ Carries reply .serverKvGetEager [.string v] ∧
          (encode [.string v]).length ≤ controlMessageBufferSize
  rendezvous : ∀ S' c request reply, stepServer S 0 = some S' →
    S'.history = .answered c request reply :: S.history → reply.operation = .serverKvGetRendezvous →
      ∃ key sl v mr, stringAt request.buf 0 = some key ∧ entry S.mem key = some sl ∧
        Whole S.mem sl v ∧ controlMessageBufferSize ≤ sl.size.toNat ∧ mr ∈ S'.mem.regions ∧
          mr.addr = sl.address ∧ mr.length = sl.size ∧
            Carries reply .serverKvGetRendezvous (.word64 mr.length :: regionArguments mr)
  handled : ∀ c key sl, S.thread = some (c, .waiting .readMessage (dispatch c)) →
    (S.port c).receive.operation = .clientKvGet → stringAt (S.port c).receive.buf 0 = some key →
      entry S.mem key = some sl → sl.mrRdma = none → sl.size.toNat < controlMessageBufferSize →
        ∃ S' reply, stepServer S 0 = some S' ∧
          S'.history = .answered c (S.port c).receive reply :: S.history ∧
            reply.operation = .serverKvGetEager
  reads : ∀ c wr wrs, (S.client c).port.sendQueue = .rdma wr :: wrs → wr.opcode = .read →
    ∃ (v : CString) (buf : List UInt8), S.mem.heap.blocks wr.remoteAddr = some v.bytes ∧
      localBytes (S.client c).mem wr.addr = some buf ∧ content (S.client c).mem = some buf ∧
        buf.length = v.strlen + 1 ∧ wr.length.toNat = v.strlen + 1
  got : ∀ c key, (S.client c).thread = some (.done 0) →
    callAt programs c (S.client c).index = some (.kvGet key) →
      ∃ v : CString, content (S.client c).mem = some v.bytes ∧
        Promised programs S.history c (S.client c).index key.chars v

theorem stored_values_wellformed (hcov : Covered programs) (h : Reached programs S) :
    Wellformed programs S := by
  obtain ⟨P, href, hP, hin⟩ := followed_exact hcov h
  exact {
    stored := fun key sl hsl hu => whole_of_intact hin hsl hu
    eager := fun S' c request reply hs hh hop => eager_whole href hin hs hh hop
    rendezvous := fun S' c request reply hs hh hop => rendezvous_whole href hin hs hh hop
    handled := fun c key sl ht hop hkey hsl hu hsmall =>
      eager_answered href hin ht hop hkey hsl hu hsmall
    reads := fun c wr wrs hq hop => read_whole href hP hq hop
    got := fun c key ht hcall => got_whole href hP ht hcall }

theorem stored_values_wellformed_read :
    ∃ S, Reached storing S ∧ (∃ sl, entry S.mem [97] = some sl ∧ sl.mrRdma = none) ∧
      (S.client 0).thread.isSome ∧ Wellformed storing S := by
  have hrun : ((run (step storing) pair (readBack.take 36)).map (fun S =>
      ((entry S.mem [97]).map (fun sl => sl.mrRdma), (S.client 0).thread.isSome))) =
        some (some none, true) := by
    decide +kernel
  obtain ⟨S, hS, hfields⟩ := Option.map_eq_some_iff.mp hrun
  obtain ⟨hentry, hthread⟩ := Prod.mk.inj hfields
  obtain ⟨sl, hsl, hu⟩ := Option.map_eq_some_iff.mp hentry
  have hreached : Reached storing S :=
    Reach.run (.start pair_start) (fun l hl => readBack_succeeds l (List.mem_of_mem_take hl)) hS
  exact ⟨S, hreached, ⟨sl, hsl, hu⟩, hthread, stored_values_wellformed covered_storing hreached⟩

end NetworkOptimization.StoredValues
