import Mathlib.Data.List.Basic
import NetworkOptimization.Runs

namespace NetworkOptimization.Baseline

open Runs

def bufferSize : Nat := 2 * 1048576

/-- `END_MESSAGE`. -/
def endMessage : UInt8 := 122

/-- The two bytes of `RECEIVE_MESSAGE` that the server sends. -/
def receiveMessage : List UInt8 := [82, 0]

/-- What the client sends before it waits for one reply: messages of `A` and `END_MESSAGE`. -/
structure Experiment where
  messageSize : Nat
  numMessages : Nat
  deriving DecidableEq

namespace Experiment

def message (e : Experiment) : List UInt8 := List.replicate e.messageSize 65

def bytes (e : Experiment) : List UInt8 :=
  List.replicate (e.numMessages * e.messageSize) 65 ++ [endMessage]

end Experiment

/-- The message size is doubled after each experiment. -/
def measureThroughput (numMessages : Nat) : (numExperiments messageSize : Nat) → List Experiment
  | 0, _ => []
  | n + 1, messageSize => ⟨messageSize, numMessages⟩ :: measureThroughput numMessages n (messageSize * 2)

def measureLatency (numMessages : Nat) : List Experiment := List.replicate numMessages ⟨1, 0⟩

/-- Where the client is in its round: it has messages left to send, it is in `recv`, or it
has closed the socket. -/
inductive Phase where
  | sending (left : Nat)
  | receiving
  | closed
  deriving DecidableEq

/-- The two programs and the two byte streams between them. `received` is all that the
server got so far. -/
structure State where
  round : Nat
  phase : Phase
  toServer : List UInt8
  toClient : List UInt8
  received : List UInt8
  replies : Nat
  running : Bool
  deriving DecidableEq

inductive Action where
  | sendMessage
  | sendEnd
  | clientRecv (bytesRead : Nat)
  | serverRecv (bytesRead : Nat)
  | serverExit
  deriving DecidableEq

def enter (experiments : List Experiment) (round : Nat) : Phase :=
  match experiments[round]? with
  | some e => .sending e.numMessages
  | none => .closed

def start (experiments : List Experiment) : State :=
  ⟨0, enter experiments 0, [], [], [], 0, true⟩

/-- `recv` takes a part of what has arrived. -/
def Cut (bytesRead : Nat) (stream : List UInt8) : Prop :=
  0 < bytesRead ∧ bytesRead ≤ bufferSize ∧ bytesRead ≤ stream.length

instance (bytesRead : Nat) (stream : List UInt8) : Decidable (Cut bytesRead stream) :=
  inferInstanceAs (Decidable (_ ∧ _))

def move (experiments : List Experiment) (s : State) : Action → Option State
  | .sendMessage => match s.phase, experiments[s.round]? with
    | .sending (left + 1), some e =>
      some { s with phase := .sending left, toServer := s.toServer ++ e.message }
    | _, _ => none
  | .sendEnd => match s.phase with
    | .sending 0 => some { s with phase := .receiving, toServer := s.toServer ++ [endMessage] }
    | _ => none
  | .clientRecv n =>
    if s.phase = .receiving ∧ Cut n s.toClient then
      some { s with
        round := s.round + 1
        phase := enter experiments (s.round + 1)
        toClient := s.toClient.drop n }
    else none
  | .serverRecv n =>
    if s.running ∧ Cut n s.toServer then
      let buffer := s.toServer.take n
      if buffer.getLast? = some endMessage then
        some { s with
          toServer := s.toServer.drop n
          received := s.received ++ buffer
          toClient := s.toClient ++ receiveMessage
          replies := s.replies + 1 }
      else some { s with toServer := s.toServer.drop n, received := s.received ++ buffer }
    else none
  | .serverExit =>
    if s.running ∧ s.phase = .closed ∧ s.toServer = [] then some { s with running := false } else none

def whole (experiments : List Experiment) (k : Nat) : List UInt8 :=
  ((experiments.take k).map Experiment.bytes).flatten

/-- The lock-step of one step: the server replies exactly when it has all bytes of the next
experiment and no more, and the client goes on only after the reply of its round. -/
def Lockstep (experiments : List Experiment) (s : State) (a : Action) (t : State) : Prop :=
  match a with
  | .serverRecv _ => t.replies = s.replies + 1 ↔ t.received = whole experiments (s.replies + 1)
  | .clientRecv _ => s.round < s.replies
  | .sendMessage | .sendEnd | .serverExit => t.replies = s.replies

def Uncut : Action → Prop
  | .clientRecv n => receiveMessage.length ∣ n
  | .sendMessage | .sendEnd | .serverRecv _ | .serverExit => True

/-- The server has `a` letters of the client's round, and every reply before it was read. -/
structure Ahead (experiments : List Experiment) (s : State) (e : Experiment) (a : Nat) : Prop where
  round : experiments[s.round]? = some e
  replies : s.replies = s.round
  toClient : s.toClient = []
  received : s.received = whole experiments s.round ++ List.replicate a 65

/-- What holds in every state, by what the server still has to do. -/
inductive Inv (experiments : List Experiment) (s : State) : Prop
  | sending {e : Experiment} {a b left : Nat} (h : Ahead experiments s e a)
      (hp : s.phase = .sending left) (hs : s.toServer = List.replicate b 65)
      (hc : a + b + left * e.messageSize = e.numMessages * e.messageSize)
  | receiving {e : Experiment} {a b : Nat} (h : Ahead experiments s e a)
      (hp : s.phase = .receiving) (hs : s.toServer = List.replicate b 65 ++ [endMessage])
      (hc : a + b = e.numMessages * e.messageSize)
  | replied (hp : s.phase = .receiving) (hr : s.round < experiments.length)
      (hs : s.toServer = []) (hc : s.toClient = receiveMessage) (hn : s.replies = s.round + 1)
      (hg : s.received = whole experiments (s.round + 1))
  | closed (hp : s.phase = .closed) (hs : s.toServer = []) (hc : s.toClient = [])

variable {experiments : List Experiment} {s t : State} {e : Experiment} {a b n : Nat}

theorem whole_succ {k : Nat} (h : experiments[k]? = some e) :
    whole experiments (k + 1) = whole experiments k ++ e.bytes := by
  rw [whole, List.take_add_one, h, Option.toList_some, List.map_append, List.flatten_append, whole,
    List.map_singleton, List.flatten_singleton]

theorem Ahead.incomplete (h : Ahead experiments s e a) (ha : a ≤ e.numMessages * e.messageSize) :
    s.received ≠ whole experiments (s.round + 1) := by
  intro heq
  rw [h.received, whole_succ h.round] at heq
  have hl := congrArg List.length (List.append_cancel_left heq)
  rw [Experiment.bytes, List.length_append, List.length_replicate, List.length_replicate,
    List.length_singleton] at hl
  omega

theorem inv_enter (hp : s.phase = enter experiments s.round) (hs : s.toServer = [])
    (hc : s.toClient = []) (hn : s.replies = s.round) (hg : s.received = whole experiments s.round) :
    Inv experiments s := by
  cases he : experiments[s.round]? with
  | none =>
    rw [enter, he] at hp
    exact .closed hp hs hc
  | some e =>
    rw [enter, he] at hp
    have hahead : Ahead experiments s e 0 := ⟨he, hn, hc, by rw [hg, List.replicate_zero, List.append_nil]⟩
    exact .sending (b := 0) hahead hp hs (by omega)

theorem inv_start : Inv experiments (start experiments) := inv_enter rfl rfl rfl rfl rfl

theorem message_sent (h : move experiments s .sendMessage = some t) :
    ∃ left e, s.phase = .sending (left + 1) ∧ experiments[s.round]? = some e ∧
      t = { s with phase := .sending left, toServer := s.toServer ++ e.message } := by
  simp only [move] at h
  split at h
  · rename_i left e hp he
    exact ⟨left, e, hp, he, (Option.some.inj h).symm⟩
  · cases h

theorem end_sent (h : move experiments s .sendEnd = some t) : s.phase = .sending 0 ∧
    t = { s with phase := .receiving, toServer := s.toServer ++ [endMessage] } := by
  simp only [move] at h
  split at h
  · rename_i hp
    exact ⟨hp, (Option.some.inj h).symm⟩
  · cases h

theorem client_received (h : move experiments s (.clientRecv n) = some t) :
    s.phase = .receiving ∧ Cut n s.toClient ∧
      t = { s with
        round := s.round + 1
        phase := enter experiments (s.round + 1)
        toClient := s.toClient.drop n } := by
  simp only [move] at h
  split_ifs at h with hc
  exact ⟨hc.1, hc.2, (Option.some.inj h).symm⟩

def State.advance (s : State) (n : Nat) : State :=
  { s with toServer := s.toServer.drop n, received := s.received ++ s.toServer.take n }

def State.reply (s : State) : State :=
  { s with toClient := s.toClient ++ receiveMessage, replies := s.replies + 1 }

theorem server_received (h : move experiments s (.serverRecv n) = some t) :
    s.running ∧ Cut n s.toServer ∧
      t = if (s.toServer.take n).getLast? = some endMessage then (s.advance n).reply else s.advance n := by
  simp only [move] at h
  split_ifs at h with hc hl
  · refine ⟨hc.1, hc.2, ?_⟩
    rw [if_pos hl]
    exact (Option.some.inj h).symm
  · refine ⟨hc.1, hc.2, ?_⟩
    rw [if_neg hl]
    exact (Option.some.inj h).symm

theorem server_exited (h : move experiments s .serverExit = some t) :
    s.phase = .closed ∧ t = { s with running := false } := by
  simp only [move] at h
  split_ifs at h with hc
  exact ⟨hc.2.1, (Option.some.inj h).symm⟩

theorem letters_received {rest : List UInt8} (hs : s.toServer = List.replicate b 65 ++ rest) (hn : n ≤ b)
    (h : move experiments s (.serverRecv n) = some t) :
    t = s.advance n ∧ s.toServer.take n = List.replicate n 65 ∧
      s.toServer.drop n = List.replicate (b - n) 65 ++ rest := by
  obtain ⟨-, -, ht⟩ := server_received h
  have htake : s.toServer.take n = List.replicate n 65 := by
    rw [hs, List.take_append_of_le_length (by rw [List.length_replicate]; exact hn), List.take_replicate,
      Nat.min_eq_left hn]
  have hdrop : s.toServer.drop n = List.replicate (b - n) 65 ++ rest := by
    rw [hs, List.drop_append_of_le_length (by rw [List.length_replicate]; exact hn), List.drop_replicate]
  have hlast : (s.toServer.take n).getLast? ≠ some endMessage := by
    rw [htake]
    intro hl
    have hz := List.eq_of_mem_replicate (List.mem_of_getLast? hl)
    exact absurd hz (by decide)
  rw [if_neg hlast] at ht
  exact ⟨ht, htake, hdrop⟩

theorem end_received (hs : s.toServer = List.replicate b 65 ++ [endMessage]) (hn : b < n)
    (h : move experiments s (.serverRecv n) = some t) :
    t = (s.advance n).reply ∧ s.toServer.take n = s.toServer ∧ s.toServer.drop n = [] := by
  obtain ⟨-, -, ht⟩ := server_received h
  have hlen : s.toServer.length ≤ n := by
    rw [hs, List.length_append, List.length_replicate, List.length_singleton]
    omega
  have htake := List.take_of_length_le hlen
  have hlast : (s.toServer.take n).getLast? = some endMessage := by
    rw [htake, hs, List.getLast?_concat]
  rw [if_pos hlast] at ht
  exact ⟨ht, htake, List.drop_of_length_le hlen⟩

theorem Ahead.advance (h : Ahead experiments s e a) (hb : s.toServer.take n = List.replicate n 65) :
    Ahead experiments (s.advance n) e (a + n) where
  round := h.round
  replies := h.replies
  toClient := h.toClient
  received := by
    change s.received ++ s.toServer.take n = _
    rw [h.received, hb, List.append_assoc, ← List.replicate_add]
    rfl

/-- A chunk of letters leaves the experiment unfinished, and the server does not reply. -/
theorem Ahead.lockstep (h : Ahead experiments s e a) {rest : List UInt8}
    (hs : s.toServer = List.replicate b 65 ++ rest) (hc : a + b ≤ e.numMessages * e.messageSize)
    (hn : n ≤ b) (hm : move experiments s (.serverRecv n) = some t) :
    Lockstep experiments s (.serverRecv n) t := by
  obtain ⟨rfl, htake, -⟩ := letters_received hs hn hm
  have hnext := h.advance htake
  refine iff_of_false (fun hr => Nat.succ_ne_self _ hr.symm) (fun hw => ?_)
  rw [h.replies] at hw
  exact hnext.incomplete (by omega) hw

theorem Inv.serverRecv (hi : Inv experiments s) (h : move experiments s (.serverRecv n) = some t) :
    Inv experiments t ∧ Lockstep experiments s (.serverRecv n) t := by
  obtain ⟨-, hcut, -⟩ := server_received h
  have hpos : s.toServer ≠ [] := by
    intro hnil
    have hl := hcut.2.2
    rw [hnil, List.length_nil] at hl
    exact absurd hcut.1 (by omega)
  cases hi with
  | @sending e a b left ha hp hs hc =>
    have hn : n ≤ b := by simpa [hs] using hcut.2.2
    have hs' : s.toServer = List.replicate b 65 ++ [] := hs.trans (List.append_nil _).symm
    refine ⟨?_, ha.lockstep hs' (by omega) hn h⟩
    obtain ⟨rfl, htake, hdrop⟩ := letters_received hs' hn h
    exact .sending (ha.advance htake) hp (hdrop.trans (List.append_nil _)) (by omega)
  | @receiving e a b ha hp hs hc =>
    by_cases hn : n ≤ b
    · refine ⟨?_, ha.lockstep hs (by omega) hn h⟩
      obtain ⟨rfl, htake, hdrop⟩ := letters_received hs hn h
      exact .receiving (ha.advance htake) hp hdrop (by omega)
    · obtain ⟨rfl, htake, hdrop⟩ := end_received hs (by omega) h
      have hgot : ((s.advance n).reply).received = whole experiments (s.round + 1) := by
        change s.received ++ s.toServer.take n = _
        rw [htake, ha.received, hs, whole_succ ha.round, Experiment.bytes, ← hc, List.replicate_add]
        simp only [List.append_assoc]
      constructor
      · refine .replied hp (List.getElem?_eq_some_iff.mp ha.round).1 hdrop ?_ ?_ hgot
        · change s.toClient ++ receiveMessage = _
          rw [ha.toClient, List.nil_append]
        · exact congrArg (· + 1) ha.replies
      · exact iff_of_true rfl (by rw [hgot, ha.replies])
  | replied hp hr hs hc hn hg => exact absurd hs hpos
  | closed hp hs hc => exact absurd hs hpos

theorem Inv.clientRecv (hi : Inv experiments s) (h : move experiments s (.clientRecv n) = some t) :
    s.round < s.replies ∧ (receiveMessage.length ∣ n → Inv experiments t) := by
  obtain ⟨hp', hcut, rfl⟩ := client_received h
  have hpos : s.toClient ≠ [] := by
    intro hnil
    have hl := hcut.2.2
    rw [hnil, List.length_nil] at hl
    exact absurd hcut.1 (by omega)
  cases hi with
  | sending ha hp hs hc => exact absurd ha.toClient hpos
  | receiving ha hp hs hc => exact absurd ha.toClient hpos
  | replied hp hr hs hc hn hg =>
    refine ⟨by omega, fun hdvd => inv_enter rfl hs ?_ hn hg⟩
    have hle := Nat.le_of_dvd hcut.1 hdvd
    exact List.drop_of_length_le (by rw [hc]; exact hle)
  | closed hp hs hc => exact absurd hc hpos

theorem Inv.sendMessage (hi : Inv experiments s) (h : move experiments s .sendMessage = some t) :
    Inv experiments t := by
  obtain ⟨left, e', hp', he, rfl⟩ := message_sent h
  cases hi with
  | @sending e a b left' ha hp hs hc =>
    obtain rfl : e = e' := Option.some.inj (ha.round.symm.trans he)
    obtain rfl : left' = left + 1 := Phase.sending.inj (hp.symm.trans hp')
    refine .sending (b := b + e.messageSize) ⟨ha.round, ha.replies, ha.toClient, ha.received⟩ rfl ?_ ?_
    · change s.toServer ++ e.message = _
      rw [hs, Experiment.message, List.replicate_add]
    · rw [Nat.succ_mul] at hc
      omega
  | receiving ha hp hs hc => cases hp.symm.trans hp'
  | replied hp hr hs hc hn hg => cases hp.symm.trans hp'
  | closed hp hs hc => cases hp.symm.trans hp'

theorem Inv.sendEnd (hi : Inv experiments s) (h : move experiments s .sendEnd = some t) :
    Inv experiments t := by
  obtain ⟨hp', rfl⟩ := end_sent h
  cases hi with
  | @sending e a b left ha hp hs hc =>
    obtain rfl := Phase.sending.inj (hp.symm.trans hp')
    refine .receiving (b := b) ⟨ha.round, ha.replies, ha.toClient, ha.received⟩ rfl ?_ (by omega)
    rw [hs]
  | receiving ha hp hs hc => cases hp.symm.trans hp'
  | replied hp hr hs hc hn hg => cases hp.symm.trans hp'
  | closed hp hs hc => cases hp.symm.trans hp'

theorem Inv.serverExit (hi : Inv experiments s) (h : move experiments s .serverExit = some t) :
    Inv experiments t := by
  obtain ⟨hp', rfl⟩ := server_exited h
  cases hi with
  | sending ha hp hs hc => cases hp.symm.trans hp'
  | receiving ha hp hs hc => cases hp.symm.trans hp'
  | replied hp hr hs hc hn hg => cases hp.symm.trans hp'
  | closed hp hs hc => exact .closed hp hs hc

/-- One step keeps the invariant unless the client reads a part of a reply. -/
theorem Inv.step {action : Action} (hi : Inv experiments s) (hu : Uncut action)
    (h : move experiments s action = some t) : Inv experiments t := by
  cases action with
  | sendMessage => exact hi.sendMessage h
  | sendEnd => exact hi.sendEnd h
  | clientRecv n => exact (hi.clientRecv h).2 hu
  | serverRecv n => exact (hi.serverRecv h).1
  | serverExit => exact hi.serverExit h

theorem Inv.lockstep {action : Action} (hi : Inv experiments s)
    (h : move experiments s action = some t) : Lockstep experiments s action t := by
  cases action with
  | sendMessage =>
    obtain ⟨left, e, -, -, rfl⟩ := message_sent h
    rfl
  | sendEnd =>
    obtain ⟨-, rfl⟩ := end_sent h
    rfl
  | clientRecv n => exact (hi.clientRecv h).1
  | serverRecv n => exact (hi.serverRecv h).2
  | serverExit =>
    obtain ⟨-, rfl⟩ := server_exited h
    rfl

/-- The states that the two programs reach, while every step is one of `allowed`. -/
def Reached (experiments : List Experiment) (allowed : Action → Prop) : State → Prop :=
  Reach (fun s => s = start experiments) (fun s a t => move experiments s a = some t)
    (fun _ a => allowed a)

/-- As long as no reply was cut, the two programs stay in lock-step. -/
theorem lockstep_of_uncut (experiments : List Experiment) (s t : State) (action : Action)
    (hr : Reached experiments Uncut s) (h : move experiments s action = some t) :
    Lockstep experiments s action t := by
  have hi : Inv experiments s := hr.invariant (fun _ hs => hs ▸ inv_start)
    (fun _ _ _ hi hu hm => hi.step hu hm)
  exact hi.lockstep h

/-- Three messages and `END_MESSAGE` arrive in two chunks, and the reply in one. -/
theorem lockstep_of_uncut_once :
    ∃ s t, move (measureThroughput 3 2 1) s (.clientRecv 2) = some t ∧
      Lockstep (measureThroughput 3 2 1) s (.clientRecv 2) t := by
  have hrun : run (move (measureThroughput 3 2 1)) (start (measureThroughput 3 2 1))
      [.sendMessage, .sendMessage, .serverRecv 2, .sendMessage, .sendEnd, .serverRecv 2] =
        some ⟨0, .receiving, [], [82, 0], [65, 65, 65, 122], 1, true⟩ := by decide
  have hmove : move (measureThroughput 3 2 1) ⟨0, .receiving, [], [82, 0], [65, 65, 65, 122], 1, true⟩
      (.clientRecv 2) = some ⟨1, .sending 3, [], [], [65, 65, 65, 122], 1, true⟩ := by decide
  have hreached : Reached (measureThroughput 3 2 1) Uncut
      ⟨0, .receiving, [], [82, 0], [65, 65, 65, 122], 1, true⟩ :=
    Reach.run (.start rfl) (by simp [Uncut]) hrun
  exact ⟨_, _, hmove, lockstep_of_uncut _ _ _ _ hreached hmove⟩

/-- The first reply comes in two chunks. The second `recv` of the client returns the NUL of
the first reply, before the server has read anything of the second round. -/
theorem reply_cut :
    ¬ ∀ s t action, Reached (measureLatency 2) (fun _ => True) s →
      move (measureLatency 2) s action = some t → Lockstep (measureLatency 2) s action t := by
  intro hall
  have hrun : run (move (measureLatency 2)) (start (measureLatency 2))
      [.sendEnd, .serverRecv 1, .clientRecv 1, .sendEnd] =
        some ⟨1, .receiving, [122], [0], [122], 1, true⟩ := by decide
  have hmove : move (measureLatency 2) ⟨1, .receiving, [122], [0], [122], 1, true⟩ (.clientRecv 1) =
      some ⟨2, .closed, [122], [], [122], 1, true⟩ := by decide
  have hreached : Reached (measureLatency 2) (fun _ => True) _ :=
    Reach.run (.start rfl) (fun _ _ _ => trivial) hrun
  have hlock : 1 < 1 := hall _ _ _ hreached hmove
  exact absurd hlock (Nat.lt_irrefl 1)

end NetworkOptimization.Baseline
