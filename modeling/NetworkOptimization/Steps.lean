import NetworkOptimization.Network

namespace NetworkOptimization.Steps

open Memory DynamicArray Verbs SequentialCode Calls Server ServerLoop Network

variable {n : Nat} {programs : Fin n → List Request} {S S' : World n} {c : Fin n}

theorem stepCall_eq_some (hs : stepCall programs S c = some S') :
    ∃ call m stop, (S.client c).thread = none ∧ callAt programs c (S.client c).index = some call ∧
      settle call.code (S.client c).mem = some (m, stop) ∧
      S' = (S.setClient c { S.client c with mem := m, thread := some stop }).log
        (asks c (S.client c).index m stop) := by
  rw [stepCall] at hs
  cases ht : (S.client c).thread with
  | some stop => simp [ht] at hs
  | none =>
    simp only [ht] at hs
    obtain ⟨call, hcall, hs⟩ := Option.bind_eq_some_iff.mp hs
    obtain ⟨⟨m, stop⟩, hm, hs⟩ := Option.bind_eq_some_iff.mp hs
    exact ⟨call, m, stop, rfl, hcall, hm, (Option.some.inj hs).symm⟩

theorem stepRet_eq_some (hs : stepRet S c = some S') :
    ∃ r, (S.client c).thread = some (.done r) ∧
      S' = (S.setClient c { S.client c with thread := none, index := (S.client c).index + 1 }).log
        [.returned c (S.client c).index r (result (S.client c).mem)] := by
  rw [stepRet] at hs
  cases ht : (S.client c).thread with
  | none => simp [ht] at hs
  | some stop =>
    cases stop with
    | waiting verb k => simp [ht] at hs
    | done r =>
      simp only [ht] at hs
      exact ⟨r, rfl, (Option.some.inj hs).symm⟩

theorem stepNext_eq_some (hs : stepNext S = some S') :
    ∃ c, S.thread = some (c, .done .continue) ∧
      S' = { S with thread := some (Loop.following c, polling (Loop.following c)) } := by
  rw [stepNext] at hs
  cases ht : S.thread with
  | none => simp [ht] at hs
  | some t =>
    obtain ⟨c, stop⟩ := t
    cases stop with
    | waiting verb k => simp [ht] at hs
    | done exit =>
      cases exit with
      | «return» => simp [ht] at hs
      | «continue» =>
        simp only [ht, Handlers.runServerPass_eq] at hs
        obtain ⟨⟨m, stop⟩, hm, rfl⟩ := Option.map_eq_some_iff.mp hs
        cases hm
        exact ⟨c, rfl, rfl⟩

theorem stepSend_client_eq_some {fate : Fate} (hs : stepSend S .client c fate = some S') :
    ∃ wrs, (S.client c).port.sendQueue = .send :: wrs ∧
      S' = if fate.Arrives then
          (S.setClient c { S.client c with
            port := (S.client c).port.conclude ⟨fate.status, .send⟩ }).setPort c
              ((S.port c).arrive (S.client c).mem.send)
        else S.setClient c { S.client c with
          port := (S.client c).port.conclude ⟨fate.status, .send⟩ } := by
  rw [stepSend] at hs
  generalize hq : (S.client c).port.sendQueue = q at hs
  cases q with
  | nil => cases hs
  | cons wr wrs =>
    cases wr with
    | rdma r => cases hs
    | send => exact ⟨wrs, rfl, (Option.some.inj hs).symm⟩

theorem stepSend_server_eq_some {fate : Fate} (hs : stepSend S .server c fate = some S') :
    ∃ wrs, (S.port c).sendQueue = .send :: wrs ∧
      S' = if fate.Arrives then
          (S.setPort c ((S.port c).conclude ⟨fate.status, .send⟩)).setClient c { S.client c with
            port := (S.client c).port.arrive (S.mem.send c) }
        else S.setPort c ((S.port c).conclude ⟨fate.status, .send⟩) := by
  rw [stepSend] at hs
  generalize hq : (S.port c).sendQueue = q at hs
  cases q with
  | nil => cases hs
  | cons wr wrs =>
    cases wr with
    | rdma r => cases hs
    | send => exact ⟨wrs, rfl, (Option.some.inj hs).symm⟩

theorem stepCopy_eq_some {mr : Mr} {i : Nat} (hs : stepCopy S c mr i = some S') :
    ∃ r wrs there here byte, (S.client c).port.sendQueue = .rdma r :: wrs ∧ Permits S c r mr i ∧
      S.mem.heap.blocks mr.addr = some there ∧ localBytes (S.client c).mem r.addr = some here ∧
      ((r.opcode = .write ∧ here[i]? = some byte ∧
          S' = { S with mem := S.mem.setHeap (write S.mem.heap mr.addr
            (there.set (r.remoteAddr.toNat - mr.addr.toNat + i) byte)) }.setClient c
              (move (S.client c) i)) ∨
        (r.opcode = .read ∧ there[r.remoteAddr.toNat - mr.addr.toNat + i]? = some byte ∧
          ∃ m, setLocal (S.client c).mem (here.set i byte) r.addr = some m ∧
            S' = S.setClient c (move { S.client c with mem := m } i))) := by
  rw [stepCopy] at hs
  generalize hq : (S.client c).port.sendQueue = q at hs
  cases q with
  | nil => cases hs
  | cons wr wrs =>
    cases wr with
    | send => cases hs
    | rdma r =>
      by_cases hpermits : Permits S c r mr i
      · simp only [hpermits, ↓reduceIte] at hs
        obtain ⟨there, hthere, hs⟩ := Option.bind_eq_some_iff.mp hs
        obtain ⟨here, hhere, hs⟩ := Option.bind_eq_some_iff.mp hs
        cases hop : r.opcode with
        | write =>
          rw [hop] at hs
          obtain ⟨byte, hbyte, hs⟩ := Option.bind_eq_some_iff.mp hs
          exact ⟨r, wrs, there, here, byte, rfl, hpermits, hthere, hhere,
            .inl ⟨hop, hbyte, (Option.some.inj hs).symm⟩⟩
        | read =>
          rw [hop] at hs
          obtain ⟨byte, hbyte, hs⟩ := Option.bind_eq_some_iff.mp hs
          obtain ⟨m, hm, hs⟩ := Option.bind_eq_some_iff.mp hs
          exact ⟨r, wrs, there, here, byte, rfl, hpermits, hthere, hhere,
            .inr ⟨hop, hbyte, m, hm, (Option.some.inj hs).symm⟩⟩
      · simp only [hpermits, ↓reduceIte] at hs
        cases hs

theorem stepComplete_eq_some {ok : Bool} (hs : stepComplete S c ok = some S') :
    ∃ r wrs, (S.client c).port.sendQueue = .rdma r :: wrs ∧
      (ok = true → ∀ i < r.length.toNat, i ∈ (S.client c).port.moved) ∧
      S' = S.setClient c { S.client c with
        port := (S.client c).port.conclude ⟨if ok then .success else .failure, r.opcode.wc⟩ } := by
  rw [stepComplete] at hs
  generalize hq : (S.client c).port.sendQueue = q at hs
  cases q with
  | nil => cases hs
  | cons wr wrs =>
    cases wr with
    | send => cases hs
    | rdma r =>
      by_cases hall : ok = true → ∀ i < r.length.toNat, i ∈ (S.client c).port.moved
      · dsimp only at hs
        rw [if_pos hall] at hs
        exact ⟨r, wrs, rfl, hall, (Option.some.inj hs).symm⟩
      · dsimp only at hs
        rw [if_neg hall] at hs
        cases hs

end NetworkOptimization.Steps
