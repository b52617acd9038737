import NetworkOptimization.Locking

namespace NetworkOptimization.Targets

open Words DynamicArray Verbs SequentialCode Calls Runs
open Network Protocol Handlers Tables Exclusion Records Seats Refinement Transfers Correspondence
open Function (update)

variable {n : Nat} {programs : Fin n → List Request} {lossy : Prop} {S : World n} {P P' : State n}
    {c : Fin n}

section Sizes

/-- The region is open for what the call does, and as long as the value is at the client. -/
def Fits (P : State n) (c : Fin n) (mr : Mr) : Request → Prop
  | .kvSet _ v => mr.access = .remoteWrite ∧ mr.length = v.size
  | .kvGet _ => mr.access = .remoteRead ∧ ∃ buf, P.buffer c = some buf ∧ buf.length = mr.length.toNat

def Fitting (P : State n) : Prop := ∀ c r mr moved, P.session c = .holding r mr moved → Fits P c mr r

theorem Fits.congr {mr : Mr} {r : Request} (hb : P'.buffer c = P.buffer c) (h : Fits P c mr r) :
    Fits P' c mr r := by
  cases r with
  | kvSet key v => exact h
  | kvGet key =>
    rw [Fits, hb]
    exact h

theorem Fitting.move (h : Fitting P) {x : Session} (hs : P'.session = update P.session c x)
    (hb : ∀ d, d ≠ c → P'.buffer d = P.buffer d)
    (hx : ∀ r mr moved, x = .holding r mr moved → Fits P' c mr r) :
    Fitting P' := by
  intro d r mr moved hd
  rw [hs] at hd
  by_cases hdc : d = c
  · subst hdc
    rw [Function.update_self] at hd
    exact hx r mr moved hd
  · rw [Function.update_of_ne hdc] at hd
    exact (h d r mr moved hd).congr (hb d hdc)

theorem Fitting.step (h : Fitting P) (hs : Protocol.Step programs lossy P P') : Fitting P' := by
  cases hs with
  | ask | transmit | transmit_last | lose | fin | ret | refuse | store | grant_set | not_found |
      value | grant_get
  | finish | count | reply | lose_reply =>
    exact h.move rfl (fun _ _ => rfl) fun _ _ _ hx => by cases hx
  | leave | release => exact fun d r mr moved hd => (h d r mr moved hd).congr rfl
  | close | take_value =>
    exact h.move rfl (fun d hd => Function.update_of_ne hd _ _) fun _ _ _ hx => by cases hx
  | @take_set c e r mr hs hq hx =>
    refine h.move rfl (fun _ _ => rfl) fun r' mr' moved hhold => ?_
    cases hhold
    have hproper := e.proper
    rw [hq, hx] at hproper
    cases hproper with
    | granted_set _ hlength haccess => exact ⟨haccess, hlength⟩
  | @take_get c e r mr buf hs hq hx hbuf =>
    refine h.move rfl (fun d hd => Function.update_of_ne hd _ _) fun r' mr' moved hhold => ?_
    cases hhold
    have hproper := e.proper
    rw [hq, hx] at hproper
    cases hproper with
    | granted_get haccess => exact ⟨haccess, buf, Function.update_self .., hbuf⟩
  | write hs =>
    refine h.move rfl (fun _ _ => rfl) fun r' mr' moved hhold => ?_
    cases hhold
    exact h _ _ _ _ hs
  | @read c key mr moved i byte block buf hs hblock hbyte hbuf =>
    refine h.move rfl (fun d hd => Function.update_of_ne hd _ _) fun r' mr' moved hhold => ?_
    cases hhold
    obtain ⟨haccess, buf', hbuf', hlen⟩ := h _ _ _ _ hs
    rw [hbuf] at hbuf'
    cases hbuf'
    exact ⟨haccess, buf.set i byte, Function.update_self .., List.length_set.trans hlen⟩

theorem fitting_start (h : Protocol.Start P) : Fitting P := by
  intro c r mr moved hc
  rw [h.session] at hc
  cases hc

end Sizes

/-- The request stays within a region that the server has open for it, of the length of its block,
and within the bytes of the client. -/
structure Inside (S : World n) (c : Fin n) (wr : RdmaRequest) : Prop where
  there : ∃ mr ∈ S.mem.regions, mr.rkey = wr.rkey ∧ mr.access = Network.access wr.opcode ∧
    mr.addr = wr.remoteAddr ∧ wr.length.toNat ≤ mr.length.toNat ∧
    ∃ block, S.mem.heap.blocks mr.addr = some block ∧ block.length = mr.length.toNat
  here : ∃ bytes, localBytes (S.client c).mem wr.addr = some bytes ∧ wr.length.toNat ≤ bytes.length

theorem cut_le (x : UInt64) : x.toUInt32.toNat ≤ x.toNat := by
  rw [UInt64.toNat_toUInt32]
  exact Nat.mod_le _ _

theorem inside_of_holding (h : Refines programs S P) (ho : Orderly programs P) (hf : Fitting P)
    {r : Request} {mr : Mr}
    {moved : Finset Nat} (hx : P.session c = .holding r mr moved) {wr : RdmaRequest}
    {rest : Client.ClientCode Int}
    (ht : Transfer (S.client c).mem r mr wr rest) : Inside S c wr := by
  have hgrant : (P.session c).grant = some (r.key.chars, mr) := by
    rw [hx]
    rfl
  have hregion := granted_region h (ho.locks.held c r.key.chars mr hgrant)
  have hlive : ∃ block, S.mem.heap.blocks mr.addr = some block ∧ block.length = mr.length.toNat := by
    rw [h.cells]
    exact ho.placed.live r.key.chars (lock mr) (ho.locks.held c r.key.chars mr hgrant)
  have hfits := hf c r mr moved hx
  cases ht with
  | @write key value mr lmr hstart =>
    obtain ⟨haccess, hlength⟩ := hfits
    refine ⟨⟨mr, hregion, rfl, haccess, rfl, cut_le _, hlive⟩, value.bytes, rfl, ?_⟩
    rw [← Values.size_length hlength]
    exact cut_le _
  | @read key mr lmr a hvar =>
    obtain ⟨haccess, buf, hbuf, hlen⟩ := hfits
    refine ⟨⟨mr, hregion, rfl, haccess, rfl, cut_le _, hlive⟩, buf, ?_, ?_⟩
    · rw [← h.buffer c, content, hvar] at hbuf
      exact hbuf
    · rw [hlen]
      exact cut_le _

def transferring : List WorkRequest → Bool
  | [] => false
  | .send :: _ => false
  | .rdma _ :: _ => true

theorem rdma_of_transferring {wrs : List WorkRequest} (h : transferring wrs = true) :
    ∃ wr, .rdma wr ∈ wrs := by
  cases wrs with
  | nil => cases h
  | cons w rest =>
    cases w with
    | send => cases h
    | rdma wr => exact ⟨wr, List.mem_cons_self ..⟩

/-- A client has at most one request in its send queue. -/
theorem sendQueue_length {s : ClientState} {x : Session} (h : Seat programs c s x) :
    s.port.sendQueue.length ≤ 1 := by
  cases h with
  | moving _ _ ho =>
    rw [ho.sendQueue]
    exact Nat.le_refl 1
  | pending _ hs | served hs | stranded _ hs | replied hs =>
    rw [sent_sendQueue hs]
    exact Nat.zero_le 1
  | idle _ ho | posting _ _ ho | posted _ _ ho | reading _ _ ho | aiming _ _ ho | moved _ _ ho
  | finished _ _ ho | refusing _ _ ho | failed _ ho | parting _ _ ho | parted _ _ ho | left _ _ ho =>
    rw [ho.sendQueue]
    simp

theorem sendQueue_of_mem {s : ClientState} {x : Session} (h : Seat programs c s x) {w : WorkRequest}
    (hw : w ∈ s.port.sendQueue) : s.port.sendQueue = [w] := by
  have hlength := sendQueue_length h
  generalize s.port.sendQueue = wrs at hw hlength
  cases wrs with
  | nil => cases hw
  | cons w' wrs =>
    obtain rfl : wrs = [] := List.length_eq_zero_iff.mp (Nat.le_zero.mp (Nat.le_of_succ_le_succ hlength))
    rw [List.mem_singleton.mp hw]

/-- Every RDMA request that a client has posted stays within memory that the server has registered for
it and not freed, and within the client's own; and no two of them aim at one block. -/
theorem transfers_inside (h : Reached programs S) {wr : RdmaRequest}
    (hq : .rdma wr ∈ (S.client c).port.sendQueue) :
    Inside S c wr ∧ ∀ d wr', d ≠ c → .rdma wr' ∈ (S.client d).port.sendQueue →
      wr'.remoteAddr ≠ wr.remoteAddr := by
  have hstep : ∀ P P', Orderly programs P → Fitting P → Protocol.Step programs False P P' → Fitting P' :=
    fun P P' _ hf hs => hf.step hs
  obtain ⟨P, href, ho, hf⟩ :=
    followed (fun _ _ _ _ _ hl => admits_of_succeeds hl) (fun P => fitting_start) hstep h
  have hremote : ∀ {r : Request} {mr : Mr} {wr : RdmaRequest} {m rest}, Transfer m r mr wr rest →
      wr.remoteAddr = mr.addr := by
    intro r mr wr m rest ht
    cases ht <;> rfl
  have hhead := sendQueue_of_mem (href.seat c) hq
  obtain ⟨r, mr, rest, moved, hx, ht, -⟩ := at_rdma (href.seat c) hhead
  refine ⟨inside_of_holding href ho hf hx ht, fun d wr' hd hq' => ?_⟩
  have hhead' := sendQueue_of_mem (href.seat d) hq'
  obtain ⟨r', mr', rest', moved', hx', ht', -⟩ := at_rdma (href.seat d) hhead'
  have hgrant : (P.session c).grant = some (r.key.chars, mr) := by
    rw [hx]
    rfl
  have haccess : Values.access (P.session d) = some (r'.key.chars, mr') := by
    rw [hx']
    rfl
  rw [hremote ht, hremote ht']
  exact (Values.access_apart ho.locks ho.linked ho.placed hd hgrant haccess).2

def filling : Fin 2 → List Request
  | 0 => [.kvSet letter long]
  | 1 => [.kvSet other long]

theorem transfers_inside_long : ∃ (S : World 2) (wr wr' : RdmaRequest), Reached filling S ∧
    .rdma wr ∈ (S.client 0).port.sendQueue ∧ .rdma wr' ∈ (S.client 1).port.sendQueue ∧ Inside S 0 wr ∧
      wr'.remoteAddr ≠ wr.remoteAddr := by
  have hrun : (run (step filling) pair (asking 0 ++ [.client 0 0] ++ (asking 1 ++ [.client 1 0]))).map
      (fun S => (transferring (S.client 0).port.sendQueue, transferring (S.client 1).port.sendQueue)) =
        some (true, true) := by
    decide +kernel
  obtain ⟨S, hS, hqueues⟩ := Option.map_eq_some_iff.mp hrun
  obtain ⟨hqueue, hqueue'⟩ := Prod.mk.inj hqueues
  have hreached : Reached filling S :=
    Reach.run (.start pair_start) (by simp [asking, handing, Succeeds]) hS
  obtain ⟨wr, hmem⟩ := rdma_of_transferring hqueue
  obtain ⟨wr', hmem'⟩ := rdma_of_transferring hqueue'
  obtain ⟨hinside, hapart⟩ := transfers_inside hreached hmem
  exact ⟨S, wr, wr', hreached, hmem, hmem', hinside, hapart 1 wr' (by decide) hmem'⟩

end NetworkOptimization.Targets
