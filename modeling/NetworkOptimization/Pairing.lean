import NetworkOptimization.Opened
import NetworkOptimization.Runs

namespace NetworkOptimization.Pairing

open SequentialCode Postconditions Verbs Devices Closing Opening Opened Runs Dependencies
open Exchange (gidLength)
open Exchange.LowLatency (PingpongDest msgSize)
open Function (update)

variable {ι : Type} [DecidableEq ι]

abbrev Descriptor (ι : Type) := Option ι

/-- What lies between the clients and the server. A client that is connected stands in the backlog
until it is accepted. -/
structure Wires (ι : Type) where
  listening : Bool
  connected : ι → Bool
  backlog : List ι
  toServer : ι → List UInt8
  toClient : ι → List UInt8
  clientShut : ι → Bool
  serverShut : ι → Bool

/-- How a call goes: it fails, or it succeeds, with `k` bytes where it reads or writes. -/
inductive Outcome where
  | fails
  | ok (k : Nat)

/-- What a call of client `i` does; `none` is a call that blocks, or goes differently. -/
def clientCall (i : ι) (w : Wires ι) :
    (v : SocketCall (Descriptor ι)) → Outcome → Option (v.Answer × Wires ι)
  | .socket, .fails => some (none, w)
  | .socket, .ok _ => some (some (some i), w)
  | .connect _, .fails => some (false, w)
  | .connect fd, .ok _ =>
    if fd = some i ∧ w.listening = true ∧ w.connected i = false then
      some (true, { w with connected := update w.connected i true, backlog := w.backlog ++ [i] })
    else none
  | .write _ _, .fails => some (none, w)
  | .write fd msg, .ok k =>
    if fd = some i ∧ w.connected i = true ∧ k ≤ msg.length then
      some (some k, { w with toServer := update w.toServer i (w.toServer i ++ msg.take k) })
    else none
  | .read _ _, .fails => some (none, w)
  | .read fd size, .ok k =>
    if fd = some i ∧ k ≤ size ∧ k ≤ (w.toClient i).length ∧
        (0 < k ∨ w.toClient i = [] ∧ w.serverShut i = true) then
      some (some ((w.toClient i).take k),
        { w with toClient := update w.toClient i ((w.toClient i).drop k) })
    else none
  | .close _, _ => some ((), { w with clientShut := update w.clientShut i true })
  | .bind _, _ | .listen _ _, _ | .accept _, _ => none

def serverCall (w : Wires ι) : (v : SocketCall (Descriptor ι)) → Outcome → Option (v.Answer × Wires ι)
  | .socket, .fails => some (none, w)
  | .socket, .ok _ => some (some none, w)
  | .bind _, .fails => some (false, w)
  | .bind _, .ok _ => some (true, w)
  | .listen _ _, .fails => some ((), w)
  | .listen _ _, .ok _ => some ((), { w with listening := true })
  | .accept _, .fails => some (none, w)
  | .accept _, .ok _ =>
    match w.backlog with
    | [] => none
    | i :: backlog => some (some (some i), { w with backlog := backlog })
  | .write _ _, .fails => some (none, w)
  | .write fd msg, .ok k =>
    match fd with
    | none => none
    | some i =>
      if k ≤ msg.length then
        some (some k, { w with toClient := update w.toClient i (w.toClient i ++ msg.take k) })
      else none
  | .read _ _, .fails => some (none, w)
  | .read fd size, .ok k =>
    match fd with
    | none => none
    | some i =>
      if k ≤ size ∧ k ≤ (w.toServer i).length ∧ (0 < k ∨ w.toServer i = [] ∧ w.clientShut i = true) then
        some (some ((w.toServer i).take k),
          { w with toServer := update w.toServer i ((w.toServer i).drop k) })
      else none
  | .close none, _ => some ((), { w with listening := false, backlog := [] })
  | .close (some i), _ => some ((), { w with serverShut := update w.serverShut i true })
  | .connect _, _ => none

/-- A process in `kv_open`, which it called in the state `start`. -/
structure Party (ι : Type) where
  start : Process
  memory : Process
  log : Log (Descriptor ι)
  stop : Stop Process (SocketCall (Descriptor ι)) SocketCall.Answer (Option KVHandle)

structure World (ι : Type) where
  wires : Wires ι
  server : Party ι
  client : ι → Party ι

def Party.answer (p : Party ι) (call : (v : SocketCall (Descriptor ι)) → Option (v.Answer × Wires ι)) :
    Option (Party ι × Wires ι) :=
  match p.stop with
  | .done _ => none
  | .waiting v k =>
    (call v).bind (fun a => (settle (k a.1) p.memory).map (fun q =>
      (⟨p.start, q.1, p.log ++ [⟨v, a.1⟩], q.2⟩, a.2)))

def Party.handle (p : Party ι) : Option KVHandle :=
  match p.stop with
  | .done o => o
  | .waiting _ _ => none

omit [DecidableEq ι] in
theorem Party.handle_eq_some {p : Party ι} {handle : KVHandle} (h : p.handle = some handle) :
    p.stop = .done (some handle) := by
  unfold Party.handle at h
  split at h
  · rename_i o ho
    rw [ho, h]
  · cases h

inductive Label (ι : Type) where
  | client (i : ι) (o : Outcome)
  | server (o : Outcome)

def move (S : World ι) : Label ι → Option (World ι)
  | .client i o => ((S.client i).answer (fun v => clientCall i S.wires v o)).map (fun q =>
      { S with wires := q.2, client := update S.client i q.1 })
  | .server o => (S.server.answer (fun v => serverCall S.wires v o)).map (fun q =>
      { S with wires := q.2, server := q.1 })

def Party.Opens (servername : Bool) (n : Nat) (p : Party ι) : Prop :=
  p.log = [] ∧ settle (kvOpen servername n) p.start = some (p.memory, p.stop)

/-- A server for `n` clients and any number of clients. -/
structure Start (n : Nat) (S : World ι) : Prop where
  wires : S.wires = ⟨false, fun _ => false, [], fun _ => [], fun _ => [], fun _ => false, fun _ => false⟩
  server : S.server.Opens false n
  client : ∀ i, (S.client i).Opens true n

abbrev Reached (n : Nat) : World ι → Prop :=
  Reach (Start n) (fun S l S' => move S l = some S') (fun _ _ => True)

/-- What a call of client `i` changes between the processes. -/
structure ClientCalled (i : ι) (w : Wires ι) (e : Event (Descriptor ι)) (w' : Wires ι) : Prop where
  kept : ∀ h, Kept (some i) h e.1 e.2
  entered : entered e = []
  toServer : w'.toServer = update w.toServer i (w.toServer i ++ written (some i) e)
  here : w.toClient i = obtained (some i) e ++ w'.toClient i
  elsewhere : ∀ j, j ≠ i → w'.toClient j = w.toClient j
  backlog : w'.connected = w.connected ∧ w'.backlog = w.backlog ∨
    w.connected i = false ∧ w'.connected = update w.connected i true ∧ w'.backlog = w.backlog ++ [i]

theorem clientCall_called {i : ι} {w w' : Wires ι} {v : SocketCall (Descriptor ι)} {o : Outcome}
    {r : v.Answer}
    (hc : clientCall i w v o = some (r, w')) : ClientCalled i w ⟨v, r⟩ w' := by
  have hsilent : update w.toServer i (w.toServer i ++ []) = w.toServer := by simp
  cases v with
  | socket =>
    cases o with
    | fails =>
      cases hc
      exact ⟨fun _ _ hfd => (by cases hfd), rfl, hsilent.symm, rfl, fun _ _ => rfl, .inl ⟨rfl, rfl⟩⟩
    | ok k =>
      cases hc
      exact ⟨fun _ _ hfd => (Option.some.inj hfd).symm, rfl, hsilent.symm, rfl, fun _ _ => rfl,
        .inl ⟨rfl, rfl⟩⟩
  | connect fd =>
    cases o with
    | fails =>
      cases hc
      exact ⟨fun _ => trivial, rfl, hsilent.symm, rfl, fun _ _ => rfl, .inl ⟨rfl, rfl⟩⟩
    | ok k =>
      obtain ⟨⟨-, -, hno⟩, hc⟩ := Option.ite_none_right_eq_some.mp hc
      cases hc
      exact ⟨fun _ => trivial, rfl, hsilent.symm, rfl, fun _ _ => rfl, .inr ⟨hno, rfl, rfl⟩⟩
  | write fd msg =>
    cases o with
    | fails =>
      cases hc
      exact ⟨fun _ => trivial, rfl, hsilent.symm, rfl, fun _ _ => rfl, .inl ⟨rfl, rfl⟩⟩
    | ok k =>
      obtain ⟨⟨rfl, -, -⟩, hc⟩ := Option.ite_none_right_eq_some.mp hc
      cases hc
      refine ⟨fun _ => trivial, rfl, ?_, rfl, fun _ _ => rfl, .inl ⟨rfl, rfl⟩⟩
      simp [written]
  | read fd size =>
    cases o with
    | fails =>
      cases hc
      exact ⟨fun _ => trivial, rfl, hsilent.symm, rfl, fun _ _ => rfl, .inl ⟨rfl, rfl⟩⟩
    | ok k =>
      obtain ⟨⟨rfl, -⟩, hc⟩ := Option.ite_none_right_eq_some.mp hc
      cases hc
      refine ⟨fun _ => trivial, rfl, hsilent.symm, ?_, fun j hj => ?_, .inl ⟨rfl, rfl⟩⟩
      · simp [obtained]
      · exact Function.update_of_ne hj _ _
  | close fd =>
    cases hc
    exact ⟨fun _ => trivial, rfl, hsilent.symm, rfl, fun _ _ => rfl, .inl ⟨rfl, rfl⟩⟩
  | bind fd => cases hc
  | listen fd n => cases hc
  | accept fd => cases hc

structure ServerCalled (w : Wires ι) (e : Event (Descriptor ι)) (w' : Wires ι) : Prop where
  kept : ∀ h, (∀ fd ∈ entered e, fd ∉ accepted h) → Kept none h e.1 e.2
  toClient : ∀ j, w'.toClient j = w.toClient j ++ written (some j) e
  toServer : ∀ j, w.toServer j = obtained (some j) e ++ w'.toServer j
  connected : w'.connected = w.connected
  backlog : entered e = [] ∧ (w'.backlog = w.backlog ∨ e.1 = .close none ∧ w'.backlog = []) ∨
    ∃ i, entered e = [some i] ∧ w.backlog = i :: w'.backlog

theorem serverCall_called {w w' : Wires ι} {v : SocketCall (Descriptor ι)} {o : Outcome} {r : v.Answer}
    (hc : serverCall w v o = some (r, w')) : ServerCalled w ⟨v, r⟩ w' := by
  cases v with
  | socket =>
    cases o with
    | fails =>
      cases hc
      exact ⟨fun _ _ _ hfd => (by cases hfd), fun _ => (List.append_nil _).symm, fun _ => rfl, rfl,
        .inl ⟨rfl, .inl rfl⟩⟩
    | ok k =>
      cases hc
      exact ⟨fun _ _ _ hfd => (Option.some.inj hfd).symm, fun _ => (List.append_nil _).symm,
        fun _ => rfl, rfl,
        .inl ⟨rfl, .inl rfl⟩⟩
  | bind fd =>
    cases o <;> cases hc <;>
      exact ⟨fun _ _ => trivial, fun _ => (List.append_nil _).symm, fun _ => rfl, rfl,
        .inl ⟨rfl, .inl rfl⟩⟩
  | listen fd n =>
    cases o <;> cases hc <;>
      exact ⟨fun _ _ => trivial, fun _ => (List.append_nil _).symm, fun _ => rfl, rfl,
        .inl ⟨rfl, .inl rfl⟩⟩
  | accept fd =>
    cases o with
    | fails =>
      cases hc
      exact ⟨fun _ _ _ hfd => (by cases hfd), fun _ => (List.append_nil _).symm, fun _ => rfl, rfl,
        .inl ⟨rfl, .inl rfl⟩⟩
    | ok k =>
      cases hb : w.backlog with
      | nil => simp [serverCall, hb] at hc
      | cons i backlog =>
        simp only [serverCall, hb, Option.some.injEq, Prod.mk.injEq] at hc
        obtain ⟨rfl, rfl⟩ := hc
        refine ⟨fun h hn fd hfd => ?_, fun _ => (List.append_nil _).symm, fun _ => rfl, rfl,
          .inr ⟨i, rfl, hb⟩⟩
        cases hfd
        exact hn _ (List.mem_singleton.mpr rfl)
  | write fd msg =>
    cases o with
    | fails =>
      cases hc
      exact ⟨fun _ _ => trivial, fun _ => (List.append_nil _).symm, fun _ => rfl, rfl,
        .inl ⟨rfl, .inl rfl⟩⟩
    | ok k =>
      cases fd with
      | none => cases hc
      | some i =>
        obtain ⟨-, hc⟩ := Option.ite_none_right_eq_some.mp hc
        cases hc
        refine ⟨fun _ _ => trivial, fun j => ?_, fun _ => rfl, rfl, .inl ⟨rfl, .inl rfl⟩⟩
        by_cases hj : j = i
        · subst hj
          simp [written]
        · simp [written, hj, Ne.symm hj]
  | read fd size =>
    cases o with
    | fails =>
      cases hc
      exact ⟨fun _ _ => trivial, fun _ => (List.append_nil _).symm, fun _ => rfl, rfl,
        .inl ⟨rfl, .inl rfl⟩⟩
    | ok k =>
      cases fd with
      | none => cases hc
      | some i =>
        obtain ⟨-, hc⟩ := Option.ite_none_right_eq_some.mp hc
        cases hc
        refine ⟨fun _ _ => trivial, fun _ => (List.append_nil _).symm, fun j => ?_, rfl,
          .inl ⟨rfl, .inl rfl⟩⟩
        by_cases hj : j = i
        · subst hj
          simp [obtained]
        · simp [obtained, hj, Ne.symm hj]
  | close fd =>
    cases fd with
    | none =>
      cases hc
      exact ⟨fun _ _ => trivial, fun _ => (List.append_nil _).symm, fun _ => rfl, rfl,
        .inl ⟨rfl, .inr ⟨rfl, rfl⟩⟩⟩
    | some i =>
      cases hc
      exact ⟨fun _ _ => trivial, fun _ => (List.append_nil _).symm, fun _ => rfl, rfl,
        .inl ⟨rfl, .inl rfl⟩⟩
  | connect fd => cases hc

omit [DecidableEq ι] in
theorem Party.answer_eq_some {p p' : Party ι} {w' : Wires ι}
    {call : (v : SocketCall (Descriptor ι)) → Option (v.Answer × Wires ι)}
    (ha : p.answer call = some (p', w')) : ∃ v k r, p.stop = .waiting v k ∧ call v = some (r, w') ∧
      settle (k r) p.memory = some (p'.memory, p'.stop) ∧ p'.log = p.log ++ [⟨v, r⟩] ∧
        p'.start = p.start := by
  unfold Party.answer at ha
  cases hs : p.stop with
  | done a =>
    rw [hs] at ha
    cases ha
  | waiting v k =>
    rw [hs] at ha
    obtain ⟨⟨r, w⟩, hc, ha⟩ := Option.bind_eq_some_iff.mp ha
    obtain ⟨⟨s, stop⟩, hk, ha⟩ := Option.map_eq_some_iff.mp ha
    cases ha
    exact ⟨v, k, r, rfl, hc, hk, rfl, rfl⟩

def ServerMid (s : Process) (h : Log (Descriptor ι)) (_ : SocketCall (Descriptor ι)) : Prop :=
  ∃ l, Seats s h l

def ServerEnd (s₀ : Process) (o : Option KVHandle) (s : Process) (h : Log (Descriptor ι)) : Prop :=
  (∃ l, Seats s h l) ∧ ∀ handle ∈ o, Made s₀ s handle.objects ∧ ∃ l, Seats s h l ∧
    l.map Prod.snd = handle.remotes

def ClientEnd (s₀ : Process) (i : ι) (o : Option KVHandle) (s : Process) (h : Log (Descriptor ι)) : Prop :=
  (o = none → h = [] ∨ ∃ my dest, Told (some i) my h ∧ Heard (some i) dest h) ∧
  ∀ handle ∈ o, Made s₀ s handle.objects ∧
    ∃ r, handle.remotes = [r] ∧ Connected s r ∧ Told (some i) r.my h ∧ Heard (some i) r.dest h

/-- Each process keeps to its part, and the bytes of a connection come out as they went in. -/
structure Wired (S : World ι) : Prop where
  server : Rests (Kept none) ServerMid True S.server.memory S.server.log
    (ServerEnd S.server.start) S.server.stop
  client : ∀ i, Rests (Kept (some i)) (fun _ _ _ => True) True (S.client i).memory (S.client i).log
    (ClientEnd (S.client i).start i) (S.client i).stop
  toServer : ∀ i, sent (some i) (S.client i).log = taken (some i) S.server.log ++ S.wires.toServer i
  toClient : ∀ i, sent (some i) S.server.log = taken (some i) (S.client i).log ++ S.wires.toClient i
  backlog : S.wires.backlog.Nodup
  pending : ∀ i ∈ S.wires.backlog, S.wires.connected i = true
  entered : ∀ fd ∈ accepted S.server.log, ∃ i, fd = some i ∧ i ∉ S.wires.backlog ∧
    S.wires.connected i = true

variable {n : Nat} {S S' : World ι}

theorem idle_nil : Idle ([] : Log (Descriptor ι)) := ⟨fun _ => rfl, fun _ => rfl⟩

theorem wired_start (h : Start n S) : Wired S := by
  obtain ⟨hw, ⟨hlog, hs⟩, hc⟩ := h
  refine ⟨?_, fun i => ?_, fun i => ?_, fun i => ?_, ?_, ?_, ?_⟩
  · rw [hlog]
    refine Meets.settle ((kvOpen_server (fun s h _ l hl => ⟨l, hl⟩) idle_nil rfl).mono fun o s' h'
      ho => ?_) hs
    exact ⟨ho.1, fun handle hh => ⟨(ho.2 handle hh).1, (ho.2 handle hh).2.2⟩⟩
  · obtain ⟨hlogi, hsi⟩ := hc i
    rw [hlogi]
    exact Meets.settle (kvOpen_client (fun _ _ _ => trivial) idle_nil rfl) hsi
  · rw [hw, hlog, (hc i).1]
    rfl
  · rw [hw, hlog, (hc i).1]
    rfl
  · rw [hw]
    exact List.nodup_nil
  · rw [hw]
    simp
  · rw [hlog]
    simp [accepted]

omit [DecidableEq ι] in
theorem rests_answer {rely : Log (Descriptor ι) → (v : SocketCall (Descriptor ι)) → v.Answer → Prop}
    {mid : Process → Log (Descriptor ι) → SocketCall (Descriptor ι) → Prop}
    {post : Option KVHandle → Process → Log (Descriptor ι) → Prop} {p p' : Party ι}
    {v : SocketCall (Descriptor ι)} {k} {r : v.Answer}
    (hr : Rests rely mid True p.memory p.log post p.stop)
    (hs : p.stop = .waiting v k) (hk : settle (k r) p.memory = some (p'.memory, p'.stop))
    (hl : p'.log = p.log ++ [⟨v, r⟩]) (hrely : rely p.log v r) :
    Rests rely mid True p'.memory p'.log post p'.stop := by
  rw [hs] at hr
  rw [hl]
  exact (hr.2 r hrely).settle hk

theorem wired_client {i : ι} {o : Outcome} (h : Wired S) (hm : move S (.client i o) = some S') :
    Wired S' := by
  obtain ⟨⟨p', w'⟩, ha, hm⟩ := Option.map_eq_some_iff.mp hm
  cases hm
  obtain ⟨v, k, r, hs, hc, hk, hl, hstart⟩ := Party.answer_eq_some ha
  have hw := clientCall_called hc
  refine ⟨h.server, fun j => ?_, fun j => ?_, fun j => ?_, ?_, fun j hj => ?_, fun fd hfd => ?_⟩
  · by_cases hj : j = i
    · subst hj
      simp only [Function.update_self]
      rw [hstart]
      exact rests_answer (h.client j) hs hk hl (hw.kept _)
    · simp only [Function.update_of_ne hj]
      exact h.client j
  · by_cases hj : j = i
    · subst hj
      simp only [hw.toServer, Function.update_self]
      rw [hl, sent_snoc, h.toServer, List.append_assoc]
    · simp only [hw.toServer, Function.update_of_ne hj]
      exact h.toServer j
  · by_cases hj : j = i
    · subst hj
      simp only [Function.update_self]
      rw [hl, taken_snoc, List.append_assoc, ← hw.here]
      exact h.toClient j
    · simp only [Function.update_of_ne hj]
      rw [hw.elsewhere j hj]
      exact h.toClient j
  · obtain ⟨-, hb⟩ | ⟨hno, -, hb⟩ := hw.backlog
    · simp only [hb]
      exact h.backlog
    · simp only [hb]
      refine List.nodup_append.mpr ⟨h.backlog, List.nodup_singleton i, fun a hmem b hb => ?_⟩
      obtain rfl := List.mem_singleton.mp hb
      rintro rfl
      rw [h.pending a hmem] at hno
      cases hno
  · obtain ⟨hcon, hb⟩ | ⟨hno, hcon, hb⟩ := hw.backlog
    · simp only [hb] at hj
      simp only [hcon]
      exact h.pending j hj
    · simp only [hb] at hj
      simp only [hcon]
      by_cases hji : j = i
      · rw [hji, Function.update_self]
      · rw [Function.update_of_ne hji]
        exact h.pending j ((List.mem_append.mp hj).resolve_right (by simpa using hji))
  · obtain ⟨j, rfl, hnot, hcon⟩ := h.entered fd hfd
    refine ⟨j, rfl, ?_⟩
    obtain ⟨hcon', hb⟩ | ⟨hno, hcon', hb⟩ := hw.backlog
    · simp only [hb, hcon']
      exact ⟨hnot, hcon⟩
    · have hji : j ≠ i := by
        rintro rfl
        rw [hcon] at hno
        cases hno
      simp only [hb, hcon']
      rw [Function.update_of_ne hji]
      refine ⟨fun hm => ?_, hcon⟩
      exact (List.mem_append.mp hm).elim hnot (by simpa using hji)

theorem wired_server {o : Outcome} (h : Wired S) (hm : move S (.server o) = some S') : Wired S' := by
  obtain ⟨⟨p', w'⟩, ha, hm⟩ := Option.map_eq_some_iff.mp hm
  cases hm
  obtain ⟨v, k, r, hs, hc, hk, hl, hstart⟩ := Party.answer_eq_some ha
  have hw := serverCall_called hc
  have haccepted : accepted p'.log = accepted S.server.log ++ entered ⟨v, r⟩ := by
    rw [hl, accepted_snoc]
  refine ⟨?_, h.client, fun j => ?_, fun j => ?_, ?_, fun j hj => ?_, fun fd hfd => ?_⟩
  · change Rests _ _ _ p'.memory p'.log (ServerEnd p'.start) p'.stop
    rw [hstart]
    refine rests_answer h.server hs hk hl (hw.kept _ fun fd hfd hold => ?_)
    obtain ⟨he, -⟩ | ⟨i, he, hb⟩ := hw.backlog
    · rw [he] at hfd
      cases hfd
    · obtain ⟨j, rfl, hnot, -⟩ := h.entered fd hold
      rw [he, List.mem_singleton] at hfd
      cases hfd
      exact hnot (hb ▸ List.mem_cons_self)
  · change sent (some j) (S.client j).log = taken (some j) p'.log ++ w'.toServer j
    rw [hl, taken_snoc, List.append_assoc, ← hw.toServer]
    exact h.toServer j
  · change sent (some j) p'.log = taken (some j) (S.client j).log ++ w'.toClient j
    rw [hl, sent_snoc, hw.toClient, h.toClient, List.append_assoc]
  · change w'.backlog.Nodup
    obtain ⟨-, hb | ⟨-, hb⟩⟩ | ⟨i, -, hb⟩ := hw.backlog
    · rw [hb]
      exact h.backlog
    · rw [hb]
      exact List.nodup_nil
    · have hn := h.backlog
      rw [hb] at hn
      exact (List.nodup_cons.mp hn).2
  · change w'.connected j = true
    rw [hw.connected]
    refine h.pending j ?_
    obtain ⟨-, hb | ⟨-, hb⟩⟩ | ⟨i, -, hb⟩ := hw.backlog
    · exact hb ▸ hj
    · simp [hb] at hj
    · rw [hb]
      exact List.mem_cons_of_mem i hj
  · change ∃ i, fd = some i ∧ i ∉ w'.backlog ∧ w'.connected i = true
    rw [hw.connected]
    rw [haccepted] at hfd
    obtain hfd | hfd := List.mem_append.mp hfd
    · obtain ⟨j, rfl, hnot, hcon⟩ := h.entered fd hfd
      refine ⟨j, rfl, fun hmem => hnot ?_, hcon⟩
      obtain ⟨-, hb | ⟨-, hb⟩⟩ | ⟨i, -, hb⟩ := hw.backlog
      · exact hb ▸ hmem
      · simp [hb] at hmem
      · rw [hb]
        exact List.mem_cons_of_mem i hmem
    · obtain ⟨he, -⟩ | ⟨i, he, hb⟩ := hw.backlog
      · rw [he] at hfd
        cases hfd
      · rw [he, List.mem_singleton] at hfd
        have hn := h.backlog
        rw [hb] at hn
        exact ⟨i, hfd, (List.nodup_cons.mp hn).1, h.pending i (hb ▸ List.mem_cons_self)⟩

theorem wired (h : Reached n S) : Wired S := by
  refine Reach.invariant (P := Wired) (fun S (hS : Start n S) => wired_start hS)
    (fun S l S' hS _ hm => ?_) h
  cases l with
  | client i o => exact wired_client hS hm
  | server o => exact wired_server hS hm

/-- What was read is what was sent, where both are parts of one text `x`. -/
theorem heard_says {fd : Descriptor ι} {my dest : PingpongDest} {h : Log (Descriptor ι)}
    {text x : List UInt8}
    (hh : Heard fd dest h) (hs : Says my text) (hp : taken fd h <+: x) (hx : text <+: x ∨ x <+: text) :
    dest = my := by
  obtain ⟨msg, hmsg, hpre, rem, wgid, hl, hscan⟩ := hh
  have hlen : msg.length = text.length := hmsg.trans hs.1.symm
  have heq : msg = text := by
    obtain hx | hx := hx
    · exact (List.prefix_of_prefix_length_le (hpre.trans hp) hx hlen.le).eq_of_length hlen
    · exact ((hpre.trans hp).trans hx).eq_of_length hlen
  rw [heq, hs.2 rem wgid hl] at hscan
  exact (Option.some.inj hscan).symm

/-- The queue pair `q` sends to the queue pair `q'` of the other process, and expects from there the
packets that `q'` sends. -/
structure Aimed (s : Process) (q : Nat) (s' : Process) (q' : Nat) : Prop where
  state : (s.queuePairs q).state = .rts
  lid : (s.queuePairs q).ah.dlid = s'.host.lid.toUInt32
  qpn : (s.queuePairs q).destQpNum = s'.host.qpNum q'
  psn : (s.queuePairs q).rqPsn = (s'.queuePairs q').sqPsn
  mtu : (s.queuePairs q).pathMtu = (s'.queuePairs q').pathMtu
  access : (s.queuePairs q).remoteRead = true ∧ (s.queuePairs q).remoteWrite = true

theorem aimed {s s' : Process} {r r' : Remote} (hr : Connected s r) (hr' : Connected s' r')
    (hd : r.dest = r'.my) :
    Aimed s r.ctx.qp s' r'.ctx.qp := by
  have hmy := hr'.my
  constructor
  · rw [hr.queuePair]
    rfl
  · rw [hr.queuePair, hd]
    exact hmy.lid
  · rw [hr.queuePair, hd]
    exact hmy.qpn
  · rw [hr.queuePair, hr'.queuePair, hd]
    rfl
  · rw [hr.queuePair, hr'.queuePair]
    rfl
  · rw [hr.queuePair]
    exact ⟨rfl, rfl⟩

theorem Wired.seat (h : Wired S) {l : List (Descriptor ι × Remote)}
    (hl : Seats S.server.memory S.server.log l)
    {i : ι} {my dest : PingpongDest} (ht : Told (some i) my (S.client i).log)
    (hh : Heard (some i) dest (S.client i).log) :
    ∃ p ∈ l, p.1 = some i ∧ p.2.dest = my ∧ dest = p.2.my := by
  have hsome : some i ∈ l.map Prod.fst := by
    by_contra hno
    have hs := hl.silent (some i) hno
    rw [h.toClient, List.append_eq_nil_iff] at hs
    obtain ⟨msg, hmsg, hp, -⟩ := hh
    rw [hs.1, List.prefix_nil] at hp
    rw [hp] at hmsg
    exact absurd hmsg (by decide)
  obtain ⟨p, hp, hpi⟩ := List.mem_map.mp hsome
  refine ⟨p, hp, hpi, ?_, ?_⟩
  · obtain ⟨text, hs, hsent⟩ := ht
    have hheard := hl.heard p hp
    rw [hpi] at hheard
    exact heard_says hheard hs (h.toServer i ▸ List.prefix_append _ _) (.inl hsent)
  · obtain ⟨text, hs, hsent⟩ := hl.said p hp
    rw [hpi] at hsent
    exact heard_says hh hs (h.toClient i ▸ List.prefix_append _ _) (.inr hsent)

theorem Wired.seats (h : Wired S) : ∃ l, Seats S.server.memory S.server.log l ∧
    ∀ served, S.server.stop = .done (some served) → l.map Prod.snd = served.remotes := by
  have hr := h.server
  cases hs : S.server.stop with
  | done o =>
    rw [hs] at hr
    cases o with
    | none =>
      obtain ⟨l, hl⟩ := hr.1
      exact ⟨l, hl, fun served he => by cases he⟩
    | some served =>
      obtain ⟨-, l, hl, hrs⟩ := hr.2 served rfl
      refine ⟨l, hl, fun served' he => ?_⟩
      cases he
      exact hrs
  | waiting v k =>
    rw [hs] at hr
    obtain ⟨l, hl⟩ := hr.1
    exact ⟨l, hl, fun served he => by cases he⟩

theorem Wired.peer (h : Wired S) {l : List (Descriptor ι × Remote)}
    (hl : Seats S.server.memory S.server.log l)
    (i : ι) : ∃ q, ∀ handle, (S.client i).stop = .done (some handle) → ∃ r, handle.remotes = [r] ∧
      Connected (S.client i).memory r ∧ ∃ p ∈ l, p.1 = some i ∧ p.2.ctx.qp = q ∧ p.2.dest = r.my ∧
      r.dest = p.2.my := by
  by_cases hd : ∃ handle, (S.client i).stop = .done (some handle)
  · obtain ⟨handle, hs⟩ := hd
    have hr := h.client i
    rw [hs] at hr
    obtain ⟨-, r, hrs, hc, htold, hheard⟩ := hr.2 handle rfl
    obtain ⟨p, hp, hpi, hpd, hrd⟩ := h.seat hl htold hheard
    refine ⟨p.2.ctx.qp, fun handle' hs' => ?_⟩
    rw [hs] at hs'
    cases hs'
    exact ⟨r, hrs, hc, p, hp, hpi, rfl, hpd, hrd⟩
  · exact ⟨0, fun handle hs => absurd ⟨handle, hs⟩ hd⟩

def oneHost (lid : UInt16) : Host where
  devices := true
  lid := lid
  infiniband := true
  qpNum := fun id => UInt32.ofNat (id % 4096)
  qpNum_lt := fun id => by
    rw [UInt32.toNat_ofNat']
    omega
  rand := fun k => UInt32.ofNat (k + 7)
  addresses := 1
  msg := List.replicate msgSize 0
  msg_length := List.length_replicate
  wgid := List.replicate gidLength 0
  wgid_length := List.length_replicate
  dest := ⟨0, 0, 0, zeroGid⟩
  answers := fun _ => true

def idle (lid : UInt16) : Process := ⟨oneHost lid, Registry.empty, fun _ => .created, 0, 0⟩

def party (servername : Bool) (s : Process) : Party Unit :=
  match settle (kvOpen servername 1) s with
  | some q => ⟨s, q.1, [], q.2⟩
  | none => ⟨s, s, [], .done none⟩

def pair : World Unit :=
  ⟨⟨false, fun _ => false, [], fun _ => [], fun _ => [], fun _ => false, fun _ => false⟩,
    party false (idle 3),
    fun _ => party true (idle 4)⟩

def setup : List (Label Unit) :=
  [.server (.ok 0), .server (.ok 0), .server (.ok 0), .client () (.ok 0), .client () (.ok 0),
    .client () (.ok 52), .server (.ok 0), .server (.ok 0), .server (.ok 52), .server (.ok 52),
    .client () (.ok 52), .client () (.ok 5), .client () (.ok 0), .server (.ok 5), .server (.ok 0)]

theorem pair_start : Start 1 pair := by
  have hopens : ∀ servername lid, (settle (kvOpen servername 1 : Net (Descriptor Unit) _)
    (idle lid)).isSome = true →
      (party servername (idle lid)).Opens servername 1 := by
    intro servername lid hsome
    obtain ⟨q, hq⟩ := Option.isSome_iff_exists.mp hsome
    unfold party
    rw [hq]
    exact ⟨rfl, hq⟩
  exact ⟨rfl, hopens false 3 (by decide +kernel), fun _ => hopens true 4 (by decide +kernel)⟩

/-- A client whose `kv_open` returned `0` has a queue pair of the server that is connected with its
own and with no other client's. -/
theorem connected_both_ways (h : Reached n S) : ∃ peer : ι → Nat,
    (∀ i handle, (S.client i).stop = .done (some handle) → ∃ r, handle.remotes = [r] ∧
      Aimed (S.client i).memory r.ctx.qp S.server.memory (peer i) ∧
      Aimed S.server.memory (peer i) (S.client i).memory r.ctx.qp ∧
      ((S.client i).memory.queuePairs r.ctx.qp).receives = rxDepth.toNat ∧
      (S.server.memory.queuePairs (peer i)).receives = rxDepth.toNat ∧
      ∀ served, S.server.stop = .done (some served) → ∃ r' ∈ served.remotes, r'.ctx.qp = peer i ∧
        r'.ctx.queue = ⟨rxDepth, rxDepth⟩) ∧
    ∀ i j, (∃ handle, (S.client i).stop = .done (some handle)) →
      (∃ handle, (S.client j).stop = .done (some handle)) → peer i = peer j → i = j := by
  have hw := wired h
  obtain ⟨l, hl, hserved⟩ := hw.seats
  choose peer hpeer using hw.peer hl
  refine ⟨peer, fun i handle hs => ?_, fun i j ⟨hi, hsi⟩ ⟨hj, hsj⟩ he => ?_⟩
  · obtain ⟨r, hrs, hc, p, hp, hpi, hq, hpd, hrd⟩ := hpeer i handle hs
    have hp' := hl.connected p hp
    refine ⟨r, hrs, hq ▸ aimed hc hp' hrd, hq ▸ aimed hp' hc hpd, ?_, ?_, fun served hd => ?_⟩
    · rw [hc.queuePair]
      rfl
    · rw [← hq, hp'.queuePair]
      rfl
    · exact ⟨p.2, hserved served hd ▸ List.mem_map_of_mem hp, hq, hp'.queue⟩
  · obtain ⟨-, -, -, p, hp, hpi, hq, -⟩ := hpeer i hi hsi
    obtain ⟨-, -, -, p', hp', hpj, hq', -⟩ := hpeer j hj hsj
    have hsame : p = p' := List.inj_on_of_nodup_map hl.qps hp hp' (hq.trans (he.trans hq'.symm))
    rw [hsame, hpj] at hpi
    exact (Option.some.inj hpi).symm

theorem connected_both_ways_pair : ∃ (S : World Unit) (handle : KVHandle) (r : Remote) (q : Nat),
    Reached 1 S ∧ (S.client ()).stop = .done (some handle) ∧ handle.remotes = [r] ∧
      S.server.handle.isSome = true ∧ Aimed (S.client ()).memory r.ctx.qp S.server.memory q ∧
        Aimed S.server.memory q (S.client ()).memory r.ctx.qp := by
  have hrun : (run move pair setup).map (fun S => S.server.handle.isSome && (S.client ()).handle.isSome) =
      some true := by
    decide +kernel
  obtain ⟨S, hS, hdone⟩ := Option.map_eq_some_iff.mp hrun
  obtain ⟨hserver, hclient⟩ := Bool.and_eq_true_iff.mp hdone
  obtain ⟨handle, hhandle⟩ := Option.isSome_iff_exists.mp hclient
  have hreached : Reached 1 S := Reach.run (.start pair_start) (fun _ _ _ => trivial) hS
  obtain ⟨peer, hpeer, -⟩ := connected_both_ways hreached
  have hstop := Party.handle_eq_some hhandle
  obtain ⟨r, hr, hto, hfrom, -⟩ := hpeer () handle hstop
  exact ⟨S, handle, r, peer (), hreached, hstop, hr, hserver, hto, hfrom⟩

/-- A client that came as far as a socket call only returns, be it `0` or `1`, behind a whole exchange
with a queue pair of the server that is connected with it: where the exchange fails, `kv_open` uses the
destination that it did not get. -/
theorem client_returns (h : Reached n S) {i : ι} {o : Option KVHandle} (hd : (S.client i).stop = .done o)
    (hl : (S.client i).log ≠ []) : ∃ r' : Remote, Connected S.server.memory r' ∧
      Told (some i) r'.dest (S.client i).log ∧ Heard (some i) r'.my (S.client i).log := by
  have hw := wired h
  obtain ⟨l, hseats, -⟩ := hw.seats
  have hexchange : ∃ my dest, Told (some i) my (S.client i).log ∧
    Heard (some i) dest (S.client i).log := by
    have hr := hw.client i
    rw [hd] at hr
    cases o with
    | none => exact (hr.1 rfl).resolve_left hl
    | some handle =>
      obtain ⟨-, r, -, -, htold, hheard⟩ := hr.2 handle rfl
      exact ⟨r.my, r.dest, htold, hheard⟩
  obtain ⟨my, dest, htold, hheard⟩ := hexchange
  obtain ⟨p, hp, -, rfl, rfl⟩ := hw.seat hseats htold hheard
  exact ⟨p.2, hseats.connected p hp, htold, hheard⟩

theorem client_returns_pair : ∃ (S : World Unit) (handle : KVHandle) (r' : Remote), Reached 1 S ∧
    (S.client ()).stop = .done (some handle) ∧ Connected S.server.memory r' := by
  have hrun : (run move pair setup).map
    (fun S => (S.client ()).handle.isSome && !(S.client ()).log.isEmpty) =
      some true := by
    decide +kernel
  obtain ⟨S, hS, hdone⟩ := Option.map_eq_some_iff.mp hrun
  obtain ⟨hclient, hlog⟩ := Bool.and_eq_true_iff.mp hdone
  obtain ⟨handle, hhandle⟩ := Option.isSome_iff_exists.mp hclient
  have hreached : Reached 1 S := Reach.run (.start pair_start) (fun _ _ _ => trivial) hS
  have hstop := Party.handle_eq_some hhandle
  obtain ⟨r', hr', -⟩ := client_returns hreached hstop (by simpa using hlog)
  exact ⟨S, handle, r', hreached, hstop, hr'⟩

end NetworkOptimization.Pairing
