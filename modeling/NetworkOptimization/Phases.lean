import NetworkOptimization.Benchmark

namespace NetworkOptimization.Phases

open Runs Benchmark
open Waits (wcBatch)

/-- A rest of the client's program: `posted` requests with `sent` control messages among them
and `ended` rounds are behind it, and `taken` completions. No wait asks for more than the
requests and a response for each message, and a round ends when all these are taken. -/
def Rounds (posted sent ended taken : Int) : List Action → Prop
  | [] => True
  | .write :: rest => Rounds (posted + 1) sent ended taken rest
  | .send :: rest => Rounds (posted + 1) (sent + 1) ended taken rest
  | .wait iters :: rest => 0 ≤ iters ∧ taken + iters ≤ posted + sent ∧
      Rounds posted sent ended (taken + iters) rest
  | .finish :: rest => taken = posted + sent ∧ ended + 1 = sent ∧ Rounds posted sent (ended + 1) taken rest

/-- A rest of the server's program: a response is posted once a completion more is taken than
two for each response before it, and no wait asks for more than that. -/
def Answers (sent taken : Int) : List Action → Prop
  | [] => True
  | .send :: rest => taken = 2 * sent + 1 ∧ Answers (sent + 1) taken rest
  | .wait iters :: rest => 0 ≤ iters ∧ taken + iters ≤ 2 * sent + 1 ∧ Answers sent (taken + iters) rest
  | .write :: _ | .finish :: _ => False

section Programs

variable {posted sent ended taken txDepth iters : Int} {rest : List Action}

theorem rounds_clientLatency (hr : ∀ posted sent, Rounds posted sent sent (posted + sent) rest) (n : Nat) :
    ∀ posted sent, Rounds posted sent sent (posted + sent) (clientLatency n ++ rest) := by
  induction n with
  | zero => exact hr
  | succ n ih =>
    intro posted sent
    have hnext := ih (posted + 1) (sent + 1)
    rw [show posted + 1 + (sent + 1) = posted + sent + 2 by omega] at hnext
    exact ⟨by omega, by omega, by omega, rfl, hnext⟩

/-- The completions that were waited for are behind the writes, so a wait in the loop finds as
many writes as it asks for. -/
theorem rounds_clientExperiment (ht : 1 ≤ txDepth)
    (hr : ∀ posted sent, Rounds posted sent sent (posted + sent) rest) {n : Nat} :
    ∀ {i numComplete posted sent : Int}, 0 ≤ i → i + n = iters → Behind txDepth i numComplete →
      Rounds (posted + i) sent sent (posted + sent + numComplete)
        (clientExperiment txDepth iters n i numComplete ++ rest) := by
  induction n with
  | zero =>
    intro i numComplete posted sent hi hn hb
    have hnext := hr (posted + i + 1) (sent + 1)
    rw [show posted + i + 1 + (sent + 1) = posted + sent + numComplete +
      (iters - numComplete + 2) by omega]
      at hnext
    have hle := hb.le
    exact ⟨by omega, by omega, by omega, rfl, hnext⟩
  | succ n ih =>
    intro i numComplete posted sent hi hn hb
    rw [clientExperiment]
    by_cases hw : i ≠ 0 ∧ i % txDepth = 0
    · have hfull := (hb.waits_iff ht).mp hw
      have hnext := @ih (i + 1) (numComplete + txDepth) posted sent (by omega) (by omega)
        (hb.wait ht hfull hi)
      rw [← Int.add_assoc, ← Int.add_assoc] at hnext
      rw [if_pos hw]
      exact ⟨by omega, by omega, hnext⟩
    · have hfree : i ≠ numComplete + txDepth := fun hfull => hw ((hb.waits_iff ht).mpr hfull)
      have hnext := @ih (i + 1) numComplete posted sent (by omega) (by omega) (hb.go hfree hi)
      rw [← Int.add_assoc] at hnext
      rw [if_neg hw]
      exact hnext

theorem rounds_experiments (hi : 0 ≤ iters) (ht : 1 ≤ txDepth)
    (hr : ∀ posted sent, Rounds posted sent sent (posted + sent) rest) (experiments : Nat) :
    ∀ posted sent, Rounds posted sent sent (posted + sent)
      ((List.replicate experiments (clientExperiment txDepth iters iters.toNat 0 0)).flatten ++ rest) := by
  induction experiments with
  | zero => exact hr
  | succ n ih =>
    intro posted sent
    have hfirst := @rounds_clientExperiment txDepth iters _ ht ih iters.toNat 0 0 posted sent (by omega)
      (by omega) (behind_zero ht)
    rw [Int.add_zero, Int.add_zero] at hfirst
    rw [List.replicate_succ, List.flatten_cons, List.append_assoc]
    exact hfirst

theorem rounds_clientMain (hi : 0 ≤ iters) (ht : 1 ≤ txDepth) (experiments : Nat) :
    Rounds 0 0 0 0 (clientMain txDepth iters experiments) := by
  have hlast := @rounds_clientLatency [] (fun _ _ => trivial) iters.toNat
  rw [List.append_nil] at hlast
  exact rounds_clientLatency (rounds_experiments hi ht hlast experiments) _ 0 0

theorem answers_serverLatency (hr : ∀ sent, Answers sent (2 * sent) rest) {n : Nat} :
    ∀ {i sent : Int}, 0 ≤ i → i + n = iters → (i = 0 ∨ 0 < n) →
      Answers sent (2 * sent + if i = 0 then 0 else 1) (serverLatency iters n i ++ rest) := by
  induction n with
  | zero =>
    intro i sent _ _ h0
    rw [if_pos (h0.resolve_right (by omega)), Int.add_zero]
    exact hr sent
  | succ n ih =>
    intro i sent hi hn h0
    have hbody : Answers sent (2 * sent + 1)
        (.send :: .wait (if i = iters - 1 then 1 else 2) :: (serverLatency iters n (i + 1) ++ rest)) := by
      refine ⟨rfl, ?_⟩
      by_cases hlast : i = iters - 1
      · obtain rfl : n = 0 := by omega
        have hnext := hr (sent + 1)
        rw [show 2 * (sent + 1) = 2 * sent + 1 + 1 by omega] at hnext
        rw [if_pos hlast]
        exact ⟨by omega, by omega, hnext⟩
      · have hnext := @ih (i + 1) (sent + 1) (by omega) (by omega) (.inr (by omega))
        rw [if_neg (by omega), show 2 * (sent + 1) + 1 = 2 * sent + 1 + 2 by omega] at hnext
        rw [if_neg hlast]
        exact ⟨by omega, by omega, hnext⟩
    rw [serverLatency, List.append_assoc]
    by_cases h : i = 0
    · rw [if_pos h, if_pos h, Int.add_zero]
      exact ⟨by omega, by omega, hbody⟩
    · rw [if_neg h, if_neg h]
      exact hbody

theorem answers_experiments (hr : ∀ sent, Answers sent (2 * sent) rest) (experiments : Nat) :
    ∀ sent, Answers sent (2 * sent) ((List.replicate experiments serverExperiment).flatten ++ rest) := by
  induction experiments with
  | zero => exact hr
  | succ n ih =>
    intro sent
    have hnext := ih (sent + 1)
    rw [show 2 * (sent + 1) = 2 * sent + 1 + 1 by omega] at hnext
    exact ⟨by omega, by omega, rfl, by omega, by omega, hnext⟩

theorem answers_serverMain (hi : 0 ≤ iters) (experiments : Nat) :
    Answers 0 0 (serverMain iters experiments) := by
  have hlast : ∀ sent, Answers sent (2 * sent) (serverLatency iters iters.toNat 0) := by
    intro sent
    have h := @answers_serverLatency iters [] (fun _ => trivial) iters.toNat 0 sent (by omega) (by omega)
      (.inl rfl)
    rw [List.append_nil, if_pos rfl, Int.add_zero] at h
    exact h
  have hall := @answers_serverLatency numOfWarmup _ (answers_experiments hlast experiments)
    numOfWarmup.toNat 0 0 (by omega) (by decide) (.inl rfl)
  exact hall

end Programs

/-- The completions that a side took in its finished waits are `taken`; the counters of
`pp_wait_completions` and its queue hold the others. -/
structure Counted (side : Side) (taken : Int) : Prop where
  total : taken + side.rcnt + side.scnt + side.cq.length = side.completed + side.arrived
  completed : side.completed ≤ side.posted
  waiting : ∀ iters rest, side.todo = .wait iters :: rest → (side.rcnt + side.scnt : Int) ≤ iters
  idle : (∀ iters rest, side.todo ≠ .wait iters :: rest) → side.rcnt = 0 ∧ side.scnt = 0

def Fresh (todo : List Action) : Prop := ∀ iters rest, todo = .wait iters :: rest → 0 ≤ iters

theorem Rounds.fresh {posted sent ended taken : Int} {todo : List Action}
    (h : Rounds posted sent ended taken todo) : Fresh todo := by
  rintro iters rest rfl
  exact h.1

theorem Answers.fresh {sent taken : Int} {todo : List Action} (h : Answers sent taken todo) :
    Fresh todo := by
  rintro iters rest rfl
  exact h.1

theorem Rounds.fresh_tail {posted sent ended taken : Int} {todo : List Action}
    (h : Rounds posted sent ended taken todo) : Fresh todo.tail := by
  cases todo with
  | nil => exact fun _ _ h => absurd h (by simp)
  | cons a rest =>
    cases a with
    | write => exact Rounds.fresh h
    | send => exact Rounds.fresh h
    | wait iters => exact Rounds.fresh h.2.2
    | finish => exact Rounds.fresh h.2.2

theorem Answers.fresh_tail {sent taken : Int} {todo : List Action} (h : Answers sent taken todo) :
    Fresh todo.tail := by
  cases todo with
  | nil => exact fun _ _ h => absurd h (by simp)
  | cons a rest =>
    cases a with
    | write => exact h.elim
    | send => exact Answers.fresh h.2
    | wait iters => exact Answers.fresh h.2.2
    | finish => exact h.elim

theorem count_add_count (cq : List WrId) : cq.count .recv + cq.count .send = cq.length := by
  induction cq with
  | nil => rfl
  | cons w cq ih =>
    cases w with
    | send =>
      rw [List.count_cons_self, List.count_cons_of_ne (by decide), List.length_cons]
      omega
    | recv =>
      rw [List.count_cons_self, List.count_cons_of_ne (by decide), List.length_cons]
      omega

variable {side side' : Side} {taken : Int}

theorem polled {ne : Nat} (h : side.poll ne = some side') :
    ∃ iters rest scnt rcnt cq, side.todo = .wait iters :: rest ∧
      side' = { side with scnt := scnt, rcnt := rcnt, cq := cq } ∧
      rcnt + scnt + cq.length = side.rcnt + side.scnt + side.cq.length ∧ (rcnt + scnt : Int) ≤ iters := by
  rw [Side.poll] at h
  split at h
  · rename_i iters rest htodo
    split_ifs at h with hc
    obtain ⟨hlt, hpos, hnum, hlen⟩ := hc
    have hcount := count_add_count (side.cq.take ne)
    rw [List.length_take, Nat.min_eq_left hlen] at hcount
    have hle : (ne : Int) ≤ iters - side.rcnt - side.scnt := by
      rw [Side.numPoll] at hnum
      split_ifs at hnum with hb
      · exact hnum
      · omega
    refine ⟨iters, rest, _, _, _, htodo, (Option.some.inj h).symm, ?_, ?_⟩
    · rw [List.length_drop]
      omega
    · push_cast
      omega
  · cases h

theorem Counted.poll {ne : Nat} (hc : Counted side taken) (h : side.poll ne = some side') :
    Counted side' taken := by
  obtain ⟨iters, rest, scnt, rcnt, cq, htodo, rfl, hsum, hle⟩ := polled h
  have htotal := hc.total
  refine ⟨?_, hc.completed, ?_, ?_⟩
  · change taken + rcnt + scnt + cq.length = side.completed + side.arrived
    omega
  · intro iters' rest' htodo'
    have heq : Action.wait iters :: rest = .wait iters' :: rest' := htodo.symm.trans htodo'
    cases heq
    exact hle
  · intro hno
    exact absurd htodo (hno iters rest)

theorem Counted.complete (hc : Counted side taken) (h : side.complete = some side') :
    Counted side' taken := by
  rw [Side.complete] at h
  split_ifs at h with hlt
  cases h
  have htotal := hc.total
  refine ⟨?_, hlt, hc.waiting, hc.idle⟩
  simp only [List.length_append, List.length_singleton]
  push_cast
  omega

theorem Counted.arrive {peerSent : Nat} (hc : Counted side taken) (h : side.arrive peerSent = some side') :
    Counted side' taken ∧ side'.arrived ≤ peerSent := by
  rw [Side.arrive] at h
  split_ifs at h with hlt
  cases h
  have htotal := hc.total
  refine ⟨⟨?_, hc.completed, hc.waiting, hc.idle⟩, hlt⟩
  simp only [List.length_append, List.length_singleton]
  push_cast
  omega

theorem Counted.begin {taken' : Int} (hf : Fresh side.todo) (hr : side.rcnt = 0) (hs : side.scnt = 0)
    (ht : taken' + side.cq.length = side.completed + side.arrived) (hc : side.completed ≤ side.posted) :
    Counted side taken' := by
  refine ⟨by omega, hc, fun iters rest h => ?_, fun _ => ⟨hr, hs⟩⟩
  have hpos := hf iters rest h
  omega

theorem acted (hc : Counted side taken) (hf : Fresh side.todo.tail) (h : side.act = some side') :
    (∃ rest, side.todo = .write :: rest ∧ side' = { side with todo := rest, posted := side.posted + 1 } ∧
        Counted side' taken) ∨
      (∃ rest, side.todo = .send :: rest ∧
        side' = { side with todo := rest, posted := side.posted + 1, sent := side.sent + 1 } ∧
        Counted side' taken) ∨
      (∃ rest, side.todo = .finish :: rest ∧ side' = { side with todo := rest, ended := side.ended + 1 } ∧
        Counted side' taken) ∨
      (∃ iters rest, side.todo = .wait iters :: rest ∧
        side' = { side with todo := rest, scnt := 0, rcnt := 0 } ∧ Counted side' (taken + iters)) := by
  have htotal := hc.total
  have hcomp := hc.completed
  rw [Side.act] at h
  cases htodo : side.todo with
  | nil =>
    rw [htodo] at h
    cases h
  | cons a rest =>
    rw [htodo] at h hf
    have hidle : (∀ iters, a ≠ .wait iters) → side.rcnt = 0 ∧ side.scnt = 0 := by
      intro hne
      refine hc.idle (fun iters rest' heq => hne iters ?_)
      rw [htodo] at heq
      exact (List.cons.inj heq).1
    cases a with
    | write =>
      obtain ⟨hr, hs⟩ := hidle (fun _ => by simp)
      cases h
      exact .inl ⟨rest, rfl, rfl, .begin hf hr hs (by simp only; omega) (by simp only; omega)⟩
    | send =>
      obtain ⟨hr, hs⟩ := hidle (fun _ => by simp)
      cases h
      exact .inr (.inl ⟨rest, rfl, rfl, .begin hf hr hs (by simp only; omega) (by simp only; omega)⟩)
    | finish =>
      obtain ⟨hr, hs⟩ := hidle (fun _ => by simp)
      cases h
      exact .inr (.inr (.inl ⟨rest, rfl, rfl, .begin hf hr hs (by simp only; omega) hcomp⟩))
    | wait iters =>
      simp only at h
      have hle := hc.waiting iters rest htodo
      split_ifs at h with hlt
      cases h
      exact .inr (.inr (.inr ⟨iters, rest, rfl, rfl, .begin hf rfl rfl (by simp only; omega) hcomp⟩))

/-- The two programs where they are, with what each side took in its finished waits. -/
structure Inv (s : State) (c v : Int) : Prop where
  client : Counted s.client c
  server : Counted s.server v
  rounds : Rounds s.client.posted s.client.sent s.client.ended c s.client.todo
  answers : Answers s.server.sent v s.server.todo
  responses : s.server.posted = s.server.sent
  toServer : s.server.arrived ≤ s.client.sent
  toClient : s.client.arrived ≤ s.server.sent
  answered : s.server.sent ≤ s.server.arrived

variable {s t : State} {c v : Int}

/-- The server took two completions for each response and one more, so a message more than it
has responses has arrived. -/
theorem Inv.ready (h : Inv s c v) {rest : List Action} (ht : s.server.todo = .send :: rest) :
    s.server.sent + 1 ≤ s.server.arrived := by
  have ha := h.answers
  rw [ht] at ha
  obtain ⟨hr, hs⟩ := h.server.idle (fun iters rest' heq => by rw [ht] at heq; cases heq)
  have htotal := h.server.total
  have hcomp := h.server.completed
  have hresp := h.responses
  have htaken : v = 2 * s.server.sent + 1 := ha.1
  omega

/-- The client took a completion for each request and a response for each message, and no
more responses can have been sent. -/
theorem Inv.ended (h : Inv s c v) {rest : List Action} (ht : s.client.todo = .finish :: rest) :
    s.client.completed = s.client.posted ∧ s.client.ended + 1 ≤ s.client.arrived ∧ s.client.cq = [] := by
  have hr := h.rounds
  rw [ht] at hr
  obtain ⟨htaken, hended, -⟩ := hr
  obtain ⟨hrc, hsc⟩ := h.client.idle (fun iters rest' heq => by rw [ht] at heq; cases heq)
  have htotal := h.client.total
  have hcomp := h.client.completed
  have htoS := h.toServer
  have htoC := h.toClient
  have hans := h.answered
  refine ⟨by omega, by omega, List.length_eq_zero_iff.mp (by omega)⟩

/-- A blocked client lacks a response that the server has the message for, and a blocked
server has as many messages as responses. -/
theorem Inv.not_blocked (h : Inv s c v) : ¬ (s.client.Blocked ∧ s.server.Blocked ∧ Quiet s) := by
  rintro ⟨⟨n, rest, ht, hlt, hq⟩, ⟨n', rest', ht', hlt', hq'⟩, hcc, hsc, hca, hsa⟩
  have hr := h.rounds
  have ha := h.answers
  rw [ht] at hr
  rw [ht'] at ha
  have htotal := h.client.total
  have htotal' := h.server.total
  rw [hq, List.length_nil] at htotal
  rw [hq', List.length_nil] at htotal'
  have hmost := hr.2.1
  have hmost' := ha.2.1
  have hresp := h.responses
  omega

theorem Inv.inStep (h : Inv s c v) : InStep s :=
  ⟨fun _ ht => h.ready ht, fun _ ht => h.ended ht, h.not_blocked⟩

theorem Inv.clientAct {client : Side} (h : Inv s c v) (hm : s.client.act = some client) :
    ∃ c', Inv { s with client := client } c' v := by
  have hr := h.rounds
  obtain ⟨rest, ht, rfl, hc⟩ | ⟨rest, ht, rfl, hc⟩ | ⟨rest, ht, rfl, hc⟩ | ⟨iters, rest, ht, rfl, hc⟩ :=
    acted h.client hr.fresh_tail hm
  · rw [ht] at hr
    refine ⟨c, hc, h.server, ?_, h.answers, h.responses, h.toServer, h.toClient, h.answered⟩
    exact_mod_cast hr
  · rw [ht] at hr
    refine ⟨c, hc, h.server, ?_, h.answers, h.responses, Nat.le_succ_of_le h.toServer, h.toClient,
      h.answered⟩
    exact_mod_cast hr
  · rw [ht] at hr
    refine ⟨c, hc, h.server, ?_, h.answers, h.responses, h.toServer, h.toClient, h.answered⟩
    exact_mod_cast hr.2.2
  · rw [ht] at hr
    exact ⟨c + iters, hc, h.server, hr.2.2, h.answers, h.responses, h.toServer, h.toClient, h.answered⟩

theorem Inv.serverAct {server : Side} (h : Inv s c v) (hm : s.server.act = some server) :
    ∃ v', Inv { s with server := server } c v' := by
  have ha := h.answers
  obtain ⟨rest, ht, rfl, hc⟩ | ⟨rest, ht, rfl, hc⟩ | ⟨rest, ht, rfl, hc⟩ | ⟨iters, rest, ht, rfl, hc⟩ :=
    acted h.server ha.fresh_tail hm
  · rw [ht] at ha
    exact ha.elim
  · have hready := h.ready ht
    rw [ht] at ha
    refine ⟨v, h.client, hc, h.rounds, ?_, congrArg (· + 1) h.responses, h.toServer,
      Nat.le_succ_of_le h.toClient, hready⟩
    exact_mod_cast ha.2
  · rw [ht] at ha
    exact ha.elim
  · rw [ht] at ha
    exact ⟨v + iters, h.client, hc, h.rounds, ha.2.2, h.responses, h.toServer, h.toClient, h.answered⟩

theorem polled_rest {ne : Nat} (h : side.poll ne = some side') :
    ∃ scnt rcnt cq, side' = { side with scnt := scnt, rcnt := rcnt, cq := cq } := by
  obtain ⟨-, -, scnt, rcnt, cq, -, rfl, -, -⟩ := polled h
  exact ⟨scnt, rcnt, cq, rfl⟩

theorem completed_rest (h : side.complete = some side') :
    side' = { side with completed := side.completed + 1, cq := side.cq ++ [.send] } := by
  rw [Side.complete] at h
  split_ifs at h
  exact (Option.some.inj h).symm

theorem arrived_rest {peerSent : Nat} (h : side.arrive peerSent = some side') :
    side' = { side with arrived := side.arrived + 1, cq := side.cq ++ [.recv] } := by
  rw [Side.arrive] at h
  split_ifs at h
  exact (Option.some.inj h).symm

theorem Inv.clientStep {client : Side} {l : Label} (h : Inv s c v)
    (hm : s.client.move s.server.sent l = some client) : ∃ c', Inv { s with client := client } c' v := by
  cases l with
  | act => exact h.clientAct hm
  | poll ne =>
    have hc := h.client.poll hm
    obtain ⟨scnt, rcnt, cq, rfl⟩ := polled_rest hm
    exact ⟨c, hc, h.server, h.rounds, h.answers, h.responses, h.toServer, h.toClient, h.answered⟩
  | complete =>
    have hc := h.client.complete hm
    obtain rfl := completed_rest hm
    exact ⟨c, hc, h.server, h.rounds, h.answers, h.responses, h.toServer, h.toClient, h.answered⟩
  | arrive =>
    obtain ⟨hc, hle⟩ := h.client.arrive hm
    obtain rfl := arrived_rest hm
    exact ⟨c, hc, h.server, h.rounds, h.answers, h.responses, h.toServer, hle, h.answered⟩

theorem Inv.serverStep {server : Side} {l : Label} (h : Inv s c v)
    (hm : s.server.move s.client.sent l = some server) : ∃ v', Inv { s with server := server } c v' := by
  cases l with
  | act => exact h.serverAct hm
  | poll ne =>
    have hc := h.server.poll hm
    obtain ⟨scnt, rcnt, cq, rfl⟩ := polled_rest hm
    exact ⟨v, h.client, hc, h.rounds, h.answers, h.responses, h.toServer, h.toClient, h.answered⟩
  | complete =>
    have hc := h.server.complete hm
    obtain rfl := completed_rest hm
    exact ⟨v, h.client, hc, h.rounds, h.answers, h.responses, h.toServer, h.toClient, h.answered⟩
  | arrive =>
    obtain ⟨hc, hle⟩ := h.server.arrive hm
    obtain rfl := arrived_rest hm
    exact ⟨v, h.client, hc, h.rounds, h.answers, h.responses, hle, h.toClient,
      Nat.le_succ_of_le h.answered⟩

theorem Inv.step {l : Step} (h : Inv s c v) (hm : move s l = some t) : ∃ c' v', Inv t c' v' := by
  cases l with
  | client l =>
    obtain ⟨client, hc, rfl⟩ := Option.map_eq_some_iff.mp hm
    obtain ⟨c', hi⟩ := h.clientStep hc
    exact ⟨c', v, hi⟩
  | server l =>
    obtain ⟨server, hs, rfl⟩ := Option.map_eq_some_iff.mp hm
    obtain ⟨v', hi⟩ := h.serverStep hs
    exact ⟨c, v', hi⟩

theorem inv_start {txDepth iters : Int} (hi : 0 ≤ iters) (ht : 1 ≤ txDepth) (experiments : Nat) :
    Inv (start txDepth iters experiments) 0 0 where
  client := .begin (rounds_clientMain hi ht experiments).fresh rfl rfl rfl (Nat.le_refl 0)
  server := .begin (answers_serverMain hi experiments).fresh rfl rfl rfl (Nat.le_refl 0)
  rounds := rounds_clientMain hi ht experiments
  answers := answers_serverMain hi experiments
  responses := rfl
  toServer := Nat.le_refl 0
  toClient := Nat.le_refl 0
  answered := Nat.le_refl 0

theorem reached_inv {txDepth iters : Int} {experiments : Nat} (hi : 0 ≤ iters) (ht : 1 ≤ txDepth)
    (hs : Reached txDepth iters experiments s) : ∃ c v, Inv s c v := by
  refine hs.invariant (P := fun s => ∃ c v, Inv s c v) ?_ ?_
  · rintro s rfl
    exact ⟨0, 0, inv_start hi ht experiments⟩
  · rintro s l t ⟨c, v, h⟩ - hm
    exact h.step hm

theorem todo_move {peerSent : Nat} {l : Label} (h : side.move peerSent l = some side') :
    side'.todo = side.todo ∨ side'.todo = side.todo.tail := by
  cases l with
  | act =>
    change side.act = some side' at h
    rw [Side.act] at h
    cases htodo : side.todo with
    | nil =>
      rw [htodo] at h
      cases h
    | cons a rest =>
      rw [htodo] at h
      cases a with
      | write | send | finish =>
        cases h
        exact .inr rfl
      | wait iters =>
        simp only at h
        split_ifs at h
        cases h
        exact .inr rfl
  | poll ne =>
    obtain ⟨scnt, rcnt, cq, rfl⟩ := polled_rest h
    exact .inl rfl
  | complete =>
    obtain rfl := completed_rest h
    exact .inl rfl
  | arrive =>
    obtain rfl := arrived_rest h
    exact .inl rfl

def WaitsInt (todo : List Action) : Prop := ∀ n, .wait n ∈ todo → IsInt n

theorem WaitsInt.append {todo todo' : List Action} (h : WaitsInt todo) (h' : WaitsInt todo') :
    WaitsInt (todo ++ todo') :=
  fun n hn => (List.mem_append.mp hn).elim (h n) (h' n)

theorem WaitsInt.tail {todo : List Action} (h : WaitsInt todo) : WaitsInt todo.tail :=
  fun n hn => h n (List.mem_of_mem_tail hn)

theorem WaitsInt.defined (h : WaitsInt side.todo) : side.Defined :=
  fun n rest htodo => h n (by rw [htodo]; exact List.mem_cons_self ..)

theorem WaitsInt.move {peerSent : Nat} {l : Label} (h : WaitsInt side.todo)
    (hm : side.move peerSent l = some side') : WaitsInt side'.todo := by
  obtain htodo | htodo := todo_move hm
  · rwa [htodo]
  · rw [htodo]
    exact h.tail

theorem waits_clientLatency (n : Nat) : WaitsInt (clientLatency n) := by
  induction n with
  | zero => exact fun n hn => absurd hn (by simp [clientLatency])
  | succ n ih =>
    intro k hk
    simp only [clientLatency, List.mem_cons, reduceCtorEq, Action.wait.injEq, false_or] at hk
    obtain rfl | hk := hk
    · exact ⟨by decide, by decide⟩
    · exact ih k hk

theorem waits_serverLatency {iters : Int} {n : Nat} : ∀ {i : Int}, WaitsInt (serverLatency iters n i) := by
  induction n with
  | zero => exact fun n hn => absurd hn (by simp [serverLatency])
  | succ n ih =>
    intro i k hk
    simp only [serverLatency, List.mem_append, List.mem_ite_nil_right, List.mem_cons, reduceCtorEq,
      Action.wait.injEq, List.not_mem_nil, or_false, false_or] at hk
    obtain ⟨-, rfl⟩ | rfl | hk := hk
    · exact ⟨by decide, by decide⟩
    · split_ifs <;> exact ⟨by decide, by decide⟩
    · exact ih k hk

theorem waits_clientExperiment {txDepth iters : Int} (ht : 1 ≤ txDepth) (hd : IsInt txDepth)
    (hl : IsInt (left txDepth iters + 2)) {n : Nat} : ∀ {i numComplete : Int}, 0 ≤ i → i + n = iters →
      Behind txDepth i numComplete → WaitsInt (clientExperiment txDepth iters n i numComplete) := by
  induction n with
  | zero =>
    intro i numComplete hi hn hb k hk
    obtain rfl : i = iters := by omega
    simp only [clientExperiment, List.mem_cons, reduceCtorEq, Action.wait.injEq, List.not_mem_nil,
      or_false, false_or] at hk
    rw [hk, hb.left_eq]
    exact hl
  | succ n ih =>
    intro i numComplete hi hn hb k hk
    rw [clientExperiment] at hk
    by_cases hw : i ≠ 0 ∧ i % txDepth = 0
    · have hfull := (hb.waits_iff ht).mp hw
      have hrest := @ih (i + 1) (numComplete + txDepth) (by omega) (by omega) (hb.wait ht hfull hi)
      rw [if_pos hw] at hk
      simp only [List.mem_cons, Action.wait.injEq, reduceCtorEq, false_or] at hk
      obtain rfl | hk := hk
      · exact hd
      · exact hrest k hk
    · have hfree : i ≠ numComplete + txDepth := fun hfull => hw ((hb.waits_iff ht).mpr hfull)
      have hrest := @ih (i + 1) numComplete (by omega) (by omega) (hb.go hfree hi)
      rw [if_neg hw] at hk
      exact hrest k (by simpa using hk)

theorem waits_serverExperiment : WaitsInt serverExperiment := by
  intro n hn
  obtain rfl : n = 1 := by simpa [serverExperiment] using hn
  decide

theorem waits_replicate {todo : List Action} (h : WaitsInt todo) (k : Nat) :
    WaitsInt (List.replicate k todo).flatten := by
  intro n hn
  obtain ⟨l, hl, hmem⟩ := List.mem_flatten.mp hn
  rw [List.eq_of_mem_replicate hl] at hmem
  exact h n hmem

theorem reached_waits {txDepth iters : Int} {experiments : Nat} (hi : 0 ≤ iters) (ht : 1 ≤ txDepth)
    (hd : IsInt txDepth) (hl : experiments = 0 ∨ IsInt (left txDepth iters + 2))
    (hs : Reached txDepth iters experiments s) : WaitsInt s.client.todo ∧ WaitsInt s.server.todo := by
  refine hs.invariant (P := fun s => WaitsInt s.client.todo ∧ WaitsInt s.server.todo) ?_ ?_
  · rintro s rfl
    have hexperiments : WaitsInt (List.replicate experiments
        (clientExperiment txDepth iters iters.toNat 0 0)).flatten := by
      obtain rfl | hl := hl
      · exact fun n hn => absurd hn (by simp)
      · exact waits_replicate (waits_clientExperiment ht hd hl (Int.le_refl 0) (by omega)
          (behind_zero ht)) _
    exact ⟨(waits_clientLatency _).append (hexperiments.append (waits_clientLatency _)),
      waits_serverLatency.append
        ((waits_replicate waits_serverExperiment _).append waits_serverLatency)⟩
  · rintro s l t ⟨hc, hv⟩ - hm
    cases l with
    | client l =>
      obtain ⟨client, hclient, rfl⟩ := Option.map_eq_some_iff.mp hm
      exact ⟨hc.move hclient, hv⟩
    | server l =>
      obtain ⟨server, hserver, rfl⟩ := Option.map_eq_some_iff.mp hm
      exact ⟨hc, hv.move hserver⟩

def warmupRound : List Step :=
  [.client .act, .client .complete, .server .arrive, .server (.poll 1), .server .act, .server .act,
    .server .complete, .client .arrive, .client (.poll 2), .client .act, .client .act, .server (.poll 1)]

section Warmup

variable {txDepth iters : Int} {experiments n k : Nat} {crest srest : List Action}

/-- The sides behind `k` rounds of a latency test with `n` left. The server has taken the
completion of its last response and waits for the next message, if there is one. -/
def rounded (crest srest : List Action) (n k : Nat) : State :=
  ⟨⟨clientLatency n ++ crest, 0, 0, [], k, k, k, k, k⟩,
    ⟨.wait (if n = 0 then 1 else 2) :: (serverLatency (n + k) n k ++ srest), 1, 0, [], k, k, k, k, 0⟩⟩

theorem serverLatency_cons (hk : k ≠ 0) : serverLatency (n + 1 + k) (n + 1) k =
    .send :: .wait (if n = 0 then 1 else 2) :: serverLatency (n + (k + 1)) n (k + 1) := by
  have hzero : (k : Int) ≠ 0 := by omega
  have hlast : (k : Int) = n + 1 + k - 1 ↔ n = 0 := by omega
  rw [serverLatency, if_neg hzero, show (n : Int) + (k + 1) = n + 1 + k by omega]
  simp only [hlast, List.nil_append]

theorem run_warmupRound (hk : k ≠ 0) :
    run move (rounded crest srest (n + 1) k) warmupRound = some (rounded crest srest n (k + 1)) := by
  have hserver : serverLatency ((n + 1 : Nat) + k) (n + 1) k = _ := serverLatency_cons hk
  rw [rounded, hserver, if_neg (Nat.succ_ne_zero n)]
  -- the last response of the server waits only for its own completion
  cases n <;> simp [warmupRound, run, move, Side.move, Side.act, Side.poll, Side.complete, Side.arrive,
    clientLatency, Side.numPoll, wcBatch, rounded]

theorem reached_rounds (hk : k ≠ 0) (h : Reached txDepth iters experiments (rounded crest srest n k)) :
    Reached txDepth iters experiments (rounded crest srest 0 (k + n)) := by
  induction n generalizing k with
  | zero => exact h
  | succ n ih =>
    have hnext := ih (Nat.succ_ne_zero k) (Reach.run h (fun _ _ _ => trivial) (run_warmupRound hk))
    rwa [Nat.succ_add_eq_add_succ] at hnext

theorem reached_warmup (txDepth iters : Int) (experiments : Nat) :
    Reached txDepth iters experiments
      (rounded ((List.replicate experiments (clientExperiment txDepth iters iters.toNat 0 0)).flatten ++
          clientLatency iters.toNat)
        ((List.replicate experiments serverExperiment).flatten ++ serverLatency iters iters.toNat 0)
        0 500) := by
  have hclient : clientLatency numOfWarmup.toNat = .send :: .wait 2 :: .finish :: clientLatency 499 := rfl
  have hserver : serverLatency numOfWarmup numOfWarmup.toNat 0 =
      .wait 1 :: .send :: .wait 2 :: serverLatency ((499 : Nat) + (1 : Nat)) 499 (1 : Nat) := rfl
  refine reached_rounds (n := 499) Nat.one_ne_zero
    (Reach.run (.start rfl) (fun _ _ _ => trivial) (?_ : run move _ warmupRound = _))
  rw [start, clientMain, serverMain, hclient, hserver]
  simp [warmupRound, run, move, Side.move, Side.act, Side.poll, Side.complete, Side.arrive, Side.numPoll,
    wcBatch, rounded, Side.start]

theorem reached_experiment (hs : experiments ≠ 0) : ∃ client server crest,
    client.ended = 500 ∧ client.arrived = 500 ∧ Reached txDepth iters experiments
      (ahead client server (clientExperiment txDepth iters iters.toNat 0 0 ++ crest) 0 500 500) := by
  obtain ⟨m, rfl⟩ := Nat.exists_eq_succ_of_ne_zero hs
  have hwarm := reached_warmup txDepth iters (m + 1)
  rw [List.replicate_succ, List.flatten_cons, List.append_assoc] at hwarm
  exact ⟨(rounded [] [] 0 500).client, _, _, rfl, rfl, hwarm⟩

theorem ends_early (hs : experiments ≠ 0) (hi : iters < 0) :
    ¬ ∀ s, Reached txDepth iters experiments s → InStep s := by
  intro hall
  obtain ⟨client, server, crest, hended, harrived, hreached⟩ := @reached_experiment txDepth iters _ hs
  rw [show iters.toNat = 0 by omega] at hreached
  have hclosed : ∀ {s l t}, Reached txDepth iters experiments s → move s l = some t →
      Reached txDepth iters experiments t := fun hs hm => hs.next trivial hm
  have hsent : Reached txDepth iters experiments (ahead { client with sent := client.sent + 1 } server
      (.wait (iters - 0 + 2) :: .finish :: crest) 0 501 500) :=
    hreached.next trivial (show move _ (.client .act) = some _ from rfl)
  have hend : ∃ c, Reached txDepth iters experiments
      (ahead { client with sent := client.sent + 1 } server (.finish :: crest) 0 501 c) := by
    by_cases h : iters = -1
    · exact ⟨_, alone_wait hclosed (k := 1) (by omega) (by omega) hsent⟩
    · exact ⟨_, alone_past hclosed hsent (by omega)⟩
  obtain ⟨c, hend⟩ := hend
  have hbad : client.ended + 1 ≤ client.arrived := ((hall _ hend).2.1 crest rfl).2.1
  omega

theorem waits_left {d : Nat} (ht : 1 ≤ (d : Int)) (hs : experiments ≠ 0) (hi : 0 ≤ iters) :
    ∃ s rest, Reached d iters experiments s ∧ s.client.todo = .wait (left d iters + 2) :: rest := by
  obtain ⟨client, server, crest, -, -, hreached⟩ := @reached_experiment d iters _ hs
  obtain ⟨last, hb, hlast⟩ :=
    alone_loop (P := Reached d iters experiments) (fun hs hm => hs.next trivial hm)
    ht (Nat.le_refl 500) (show ((0 : Nat) : Int) + iters.toNat = iters by omega) (behind_zero ht) hreached
  rw [hb.left_eq] at hlast
  exact ⟨_, .finish :: crest, hlast.next trivial (show move _ (.client .act) = some _ from rfl), rfl⟩

end Warmup

/-- The two sides of a benchmark stay in step, and no sum of it overflows, unless an experiment is
run with a negative `iters`, or its last wait is for more completions than an `int` counts. -/
theorem benchmark_in_step_iff (txDepth iters : Int) (experiments : Nat) (ht : 1 ≤ txDepth)
    (hd : IsInt txDepth) :
    (∀ s, Reached txDepth iters experiments s → InStep s ∧ s.client.Defined ∧ s.server.Defined) ↔
      experiments = 0 ∨ 0 ≤ iters ∧ left txDepth iters + 2 < 2 ^ 31 := by
  constructor
  · intro hall
    by_contra hc
    obtain ⟨hs, hc⟩ := not_or.mp hc
    by_cases hi : 0 ≤ iters
    · obtain ⟨d, rfl⟩ := Int.eq_ofNat_of_zero_le (show 0 ≤ txDepth by omega)
      obtain ⟨s, rest, hreached, htodo⟩ := waits_left ht hs hi
      exact hc ⟨hi, ((hall s hreached).2.1 _ rest htodo).2⟩
    · exact ends_early hs (by omega) fun s hreached => (hall s hreached).1
  · intro hc s hs
    have hstart : ∃ iters', 0 ≤ iters' ∧ (experiments = 0 ∨ left txDepth iters' + 2 < 2 ^ 31) ∧
        Reached txDepth iters' experiments s := by
      by_cases hi : 0 ≤ iters
      · exact ⟨iters, hi, hc.imp_right And.right, hs⟩
      -- without an experiment a negative `iters` is as good as none
      · obtain rfl := hc.resolve_right fun h => hi h.1
        have hsame : start txDepth iters 0 = start txDepth 0 0 := by
          simp [start, clientMain, serverMain, serverLatency, show iters.toNat = 0 by omega]
        rw [Reached, hsame] at hs
        exact ⟨0, Int.le_refl 0, .inl rfl, hs⟩
    obtain ⟨iters', hi, hc, hs⟩ := hstart
    have hleft : experiments = 0 ∨ IsInt (left txDepth iters' + 2) := hc.imp_right (isInt_left ht)
    obtain ⟨c, v, hinv⟩ := reached_inv hi ht hs
    obtain ⟨hclient, hserver⟩ := reached_waits hi ht hd hleft hs
    exact ⟨hinv.inStep, hclient.defined, hserver.defined⟩

/-- The program's own numbers: the sides are in step behind the first round of the warm-up. -/
theorem benchmark_in_step_once :
    ∃ s, Reached 4800 5000 21 s ∧ s.client.ended = 1 ∧ InStep s := by
  have hrun : (run move (start 4800 5000 21) warmupRound).map (fun s => s.client.ended) = some 1 := by
    decide +kernel
  obtain ⟨s, hs, hended⟩ := Option.map_eq_some_iff.mp hrun
  have hreached : Reached 4800 5000 21 s := Reach.run (.start rfl) (fun _ _ _ => trivial) hs
  exact ⟨s, hreached, hended, ((benchmark_in_step_iff 4800 5000 21 (by decide)
    ⟨by decide, by decide⟩).mpr (.inr (by decide)) s hreached).1⟩

/-- With `-n -1` the client ends its first experiment on the completion of its own message. -/
theorem negative_iters : ¬ ∀ s, Reached 4800 (-1) 21 s → InStep s :=
  ends_early (by decide) (by decide)

end NetworkOptimization.Phases
