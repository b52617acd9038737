import NetworkOptimization.Client
import NetworkOptimization.Runs
import NetworkOptimization.Server

namespace NetworkOptimization.Posts

open Words Memory ControlMessages DynamicArray Verbs SequentialCode Calls Runs Client Server

variable {σ κ ι α β : Type} {n : Nat}

/-- Every poll of the send queue comes right behind a post; `posted` says that the code
stands between the two. -/
def Paired : Code σ α → Bool → Prop
  | .ret _, posted | .fault, posted => posted = false
  | .load k, posted => ∀ s, Paired (k s) posted
  | .store _ k, posted => Paired k posted
  | .call (.ibvPostSend _) k, posted => posted = false ∧ ∀ r, Paired (k r) true
  | .call .pollNSendWc k, posted => posted = true ∧ ∀ r, Paired (k r) false
  | .call (.pollNextReceiveWc _) k, posted => posted = false ∧ ∀ r, Paired (k r) false
  | .call .readMessage k, posted => posted = false ∧ ∀ msg, Paired (k msg) false
  | .call .ibvDeregMr k, posted => posted = false ∧ ∀ r, Paired (k r) false

theorem Paired.bind {posted : Bool} {m : Code σ α} {f : α → Code σ β} (hm : Paired m posted)
    (hf : ∀ a, Paired (f a) false) : Paired (m >>= f) posted := by
  induction m generalizing posted with
  | ret a =>
    cases hm
    exact hf a
  | load k ih => exact fun s => ih s (hm s)
  | store s k ih => exact ih hm
  | fault => exact hm
  | call v k ih =>
    cases v with
    | ibvPostSend wr => exact ⟨hm.1, fun r => ih r (hm.2 r)⟩
    | pollNSendWc => exact ⟨hm.1, fun r => ih r (hm.2 r)⟩
    | pollNextReceiveWc blocking => exact ⟨hm.1, fun r => ih r (hm.2 r)⟩
    | readMessage => exact ⟨hm.1, fun msg => ih msg (hm.2 msg)⟩
    | ibvDeregMr => exact ⟨hm.1, fun r => ih r (hm.2 r)⟩

section Codes

theorem paired_return (a : α) : Paired (return a : Code σ α) false := rfl

theorem paired_gets (g : σ → α) : Paired (gets g : Code σ α) false := fun _ => rfl

theorem paired_modify (g : σ → σ) : Paired (modify g : Code σ Unit) false := fun _ => rfl

theorem paired_require (o : Option α) : Paired (require o : Code σ α) false := by
  cases o <;> rfl

theorem paired_locally (g : σ → Option (α × σ)) : Paired (locally g : Code σ α) false := by
  intro s
  cases hg : g s <;> simp only [hg] <;> rfl

theorem paired_ite {c : Prop} [Decidable c] {m m' : Code σ α} {posted : Bool} (hm : Paired m posted)
    (hm' : Paired m' posted) : Paired (if c then m else m') posted := by
  split_ifs
  · exact hm
  · exact hm'

theorem paired_confirm {rest : Code σ Int} (hr : Paired rest false) : Paired (confirm rest) true :=
  ⟨rfl, fun _ => paired_ite (paired_return 1) hr⟩

theorem paired_sendThen {rest : Code σ Int} (hr : Paired rest false) : Paired (sendThen rest) false := by
  refine ⟨rfl, fun r => ?_⟩
  by_cases h : r = 0
  · subst h
    exact paired_confirm hr
  · have hpost : (if r ≠ 0 then return 1 else return 0 : Code σ Int) = return 1 := if_pos h
    change Paired ((if r ≠ 0 then return 1 else return 0 : Code σ Int) >>= fun _ => confirm rest) true
    rw [hpost]
    exact paired_confirm hr

theorem paired_receiveThen {rest : ControlMessage → Code σ Int} (hr : ∀ msg, Paired (rest msg) false) :
    Paired (receiveThen rest) false := by
  have hread : Paired (readMessage >>= rest : Code σ Int) false := ⟨rfl, hr⟩
  have hget : Paired (getRemoteControlMessage true : Code σ Int) false :=
    ⟨rfl, fun _ => paired_ite (paired_return 1) (paired_return 0)⟩
  exact hget.bind (fun _ => paired_ite (paired_return 1) hread)

end Codes

section ClientCodes

theorem paired_clientMessage (operation : Operation) (messages : List (List UInt8)) :
    Paired (Client.setMessage operation messages) false := paired_locally _

theorem paired_clientDereg (mr : LocalMr) : Paired (Client.ibvDeregMr mr) false :=
  ⟨rfl, fun _ => paired_ite ((paired_modify _).bind fun _ => paired_return 0) (paired_return _)⟩

theorem paired_rdmaThen {opcode : RdmaOpcode} {rest : ClientCode Int} (hr : Paired rest false) :
    Paired (rdmaThen opcode rest) false := by
  rw [rdmaThen_code]
  refine (paired_gets _).bind fun ctx => (paired_require _).bind fun mrRdma =>
    (paired_require _).bind fun start => ?_
  exact ⟨rfl, fun _ => paired_confirm hr⟩

theorem paired_setResult (msg : ControlMessage) : Paired (setResult msg) false :=
  paired_ite (paired_return 0) (paired_return 1)

theorem paired_getResult (msg : ControlMessage) : Paired (getResult msg) false :=
  paired_ite (paired_return 0) (paired_return 1)

theorem paired_finSet (key : CString) (mr : LocalMr) : Paired (finSet key mr) false := by
  have hclose : Paired (closeSet mr) false := (paired_clientDereg mr).bind fun _ =>
    paired_ite (paired_return 1) ((paired_modify _).bind fun _ => paired_receiveThen paired_setResult)
  exact (paired_clientMessage _ _).bind fun _ => paired_sendThen hclose

theorem paired_rendezvousReply (key : CString) (mr : LocalMr) (msg : ControlMessage) :
    Paired (rendezvousReply key mr msg) false := by
  have hrefused : Paired (refusedSet mr) false := (paired_clientDereg mr).bind fun _ =>
    paired_ite (paired_return 3) (paired_return 2)
  have hgranted : Paired (grantedSet key mr msg) false :=
    (paired_require _).bind fun _ => (paired_require _).bind fun _ => (paired_require _).bind fun _ =>
      (paired_modify _).bind fun _ => paired_rdmaThen (paired_finSet key mr)
  exact paired_ite hrefused hgranted

theorem paired_kvSet (key value : CString) : Paired (kvSet key value) false := by
  apply paired_ite
  · have hreply : ∀ msg, Paired (eagerReply msg) false := fun msg =>
      paired_ite (paired_return 2) (paired_setResult msg)
    exact (paired_clientMessage _ _).bind fun _ => paired_sendThen (paired_receiveThen hreply)
  · refine (paired_clientMessage _ _).bind fun _ => paired_sendThen ?_
    exact (paired_locally _).bind fun mr => paired_receiveThen (paired_rendezvousReply key mr)

theorem paired_finGet (key : CString) : Paired (finGet key) false := by
  have hclose : Paired closeGet false := (paired_gets _).bind fun _ => (paired_require _).bind fun mr =>
    (paired_clientDereg mr).bind fun _ => paired_ite (paired_return 1)
      ((paired_modify _).bind fun _ => paired_receiveThen paired_getResult)
  exact (paired_clientMessage _ _).bind fun _ => paired_sendThen hclose

theorem paired_getReply (key : CString) (msg : ControlMessage) : Paired (getReply key msg) false := by
  have hno : Paired noValue false := (paired_modify _).bind fun _ => paired_return 1
  cases hop : msg.operation with
  | serverKvGetEager =>
    rw [getReply, hop]
    exact (paired_require _).bind fun _ => (paired_require _).bind fun _ =>
      (paired_locally _).bind fun _ =>
      (paired_modify _).bind fun _ => paired_return 0
  | serverKvGetRendezvous =>
    rw [getReply, hop]
    exact (paired_require _).bind fun _ => (paired_require _).bind fun _ =>
      (paired_require _).bind fun _ =>
      (paired_require _).bind fun _ => (paired_locally _).bind fun _ => (paired_modify _).bind fun _ =>
        (paired_locally _).bind fun _ => (paired_modify _).bind fun _ =>
          paired_rdmaThen (paired_finGet key)
  | shutDownServer | clientKvSetEager | clientKvSetRendezvous | serverKvSetRendezvous | clientKvGet
  | serverKvGetKeyNotFound | serverInProgress | clientKvGetRendezvousFin
  | clientKvSetRendezvousFin | serverKvSetSuccessful | serverKvGetSuccessful =>
    rw [getReply, hop]
    exact hno

theorem paired_call (call : Call) : Paired call.code false := by
  cases call with
  | kvSet key value => exact paired_kvSet key value
  | kvGet key =>
    exact (paired_clientMessage _ _).bind fun _ =>
      paired_sendThen (paired_receiveThen (paired_getReply key))
  | shutDownServer => exact (paired_clientMessage _ _).bind fun _ => paired_sendThen (paired_return 0)

end ClientCodes

inductive Handler where
  | eagerKvSet
  | rendezvousKvSetKey
  | clientKvGet
  | clientKvSetRendezvousFin
  | clientKvGetRendezvousFin
  deriving DecidableEq

def Handler.code : Handler → Fin n → ControlMessage → ServerCode n Int
  | .eagerKvSet => handleEagerKvSet
  | .rendezvousKvSetKey => handleRendezvousKvSetKey
  | .clientKvGet => handleClientKvGet
  | .clientKvSetRendezvousFin => handleClientKvSetRendezvousFin
  | .clientKvGetRendezvousFin => handleClientKvGetRendezvousFin

section ServerCodes

theorem paired_reply (i : Fin n) (operation : Operation) (messages : List (List UInt8))
    {rest : ServerCode n Int} (hr : Paired rest false) : Paired (reply i operation messages rest) false :=
  Paired.bind (paired_locally _) fun _ => paired_sendThen hr

theorem paired_lookup (key : List UInt8) : Paired (lookup key : ServerCode n (Option Nat)) false :=
  (paired_gets _).bind fun _ => paired_require _

theorem paired_pairAt (idx : Nat) : Paired (pairAt idx : ServerCode n KeyValueAddressPair) false :=
  (paired_gets _).bind fun _ => paired_require _

theorem paired_setMrRdma (idx : Nat) (info : Option MrInfo) :
    Paired (setMrRdma idx info : ServerCode n Unit) false :=
  (paired_pairAt idx).bind fun _ => paired_modify _

theorem paired_inProgress (found : Option Nat) : Paired (inProgress found : ServerCode n Bool) false := by
  cases found with
  | none => rfl
  | some idx => exact (paired_pairAt idx).bind fun _ => paired_return _

theorem paired_handleEagerKvSet (i : Fin n) (msg : ControlMessage) :
    Paired (handleEagerKvSet i msg) false :=
  (paired_require _).bind fun _ => (paired_require _).bind fun _ => (paired_lookup _).bind fun found =>
    (paired_inProgress found).bind fun _ => paired_ite (paired_reply i _ _ (paired_return 0))
      ((paired_locally _).bind fun _ => (paired_require _).bind fun _ => (paired_require _).bind fun _ =>
        (paired_locally _).bind fun _ => (paired_locally _).bind fun _ =>
          paired_reply i _ _ (paired_return 0))

theorem paired_handleRendezvousKvSetKey (i : Fin n) (msg : ControlMessage) :
    Paired (handleRendezvousKvSetKey i msg) false :=
  (paired_require _).bind fun _ => (paired_require _).bind fun _ => (paired_lookup _).bind fun found =>
    (paired_inProgress found).bind fun _ => paired_ite (paired_reply i _ _ (paired_return 0))
      ((paired_locally _).bind fun _ => (paired_require _).bind fun _ => (paired_locally _).bind fun _ =>
        (paired_locally _).bind fun _ => (paired_locally _).bind fun _ =>
          paired_reply i _ _ ((paired_locally _).bind fun _ => paired_return 0))

theorem paired_handleClientKvGet (i : Fin n) (msg : ControlMessage) :
    Paired (handleClientKvGet i msg) false := by
  refine (paired_require _).bind fun _ => (paired_require _).bind fun _ =>
    (paired_lookup _).bind fun found => ?_
  cases found with
  | none => exact paired_reply i _ _ (paired_return 0)
  | some idx =>
    refine (paired_pairAt idx).bind fun _ => paired_ite (paired_reply i _ _ (paired_return 0))
      (paired_ite ?_ ?_)
    · exact (paired_gets _).bind fun _ => (paired_require _).bind fun _ =>
        paired_reply i _ _ (paired_return 0)
    · exact (paired_locally _).bind fun _ => (paired_locally _).bind fun _ =>
        paired_reply i _ _ ((paired_setMrRdma idx _).bind fun _ => paired_return 0)

theorem paired_deregisterRdmaMr (key : List UInt8) :
    Paired (deregisterRdmaMr key : ServerCode n Int) false := by
  refine (paired_lookup key).bind fun _ => (paired_require _).bind fun idx =>
    (paired_pairAt idx).bind fun pair => ?_
  cases pair.mrRdma with
  | none => rfl
  | some mrRdma =>
    have hdereg : Paired (Server.ibvDeregMr mrRdma.mr : ServerCode n Int) false :=
      ⟨rfl, fun _ => paired_ite ((paired_modify _).bind fun _ => paired_return 0) (paired_return _)⟩
    exact hdereg.bind fun _ => paired_ite (paired_return 1) ((paired_setMrRdma idx none).bind fun _ =>
      paired_return 0)

theorem paired_handleRendezvousFin (fin successful : Operation) (i : Fin n) (msg : ControlMessage) :
    Paired (handleRendezvousFin fin successful i msg) false :=
  (paired_require _).bind fun _ => (paired_require _).bind fun key =>
    (paired_deregisterRdmaMr key).bind fun _ => paired_reply i _ _ (paired_return 0)

theorem paired_handler (handler : Handler) (i : Fin n) (msg : ControlMessage) :
    Paired (handler.code i msg) false := by
  cases handler with
  | eagerKvSet => exact paired_handleEagerKvSet i msg
  | rendezvousKvSetKey => exact paired_handleRendezvousKvSetKey i msg
  | clientKvGet => exact paired_handleClientKvGet i msg
  | clientKvSetRendezvousFin => exact paired_handleRendezvousFin _ _ i msg
  | clientKvGetRendezvousFin => exact paired_handleRendezvousFin _ _ i msg

end ServerCodes

/-- A program that makes one call after the other. `pending` counts, for each connection,
the accepted requests whose completion has not been taken. -/
structure Machine (σ κ : Type) where
  memory : σ
  pending : κ → Nat
  job : Option (κ × Stop σ Verb Verb.Answer Int)

/-- What happens next: a call begins, the environment answers the verb that the code waits
for, or it writes to the memory. A poll of the send queue takes a completion or fails. -/
inductive Input (σ ι : Type) where
  | start (call : ι)
  | post (result : Int)
  | completion (wc : Wc)
  | pollError
  | receive (result : Int)
  | message (msg : ControlMessage)
  | dereg (result : Int)
  | remote (memory : σ)

def resume (pending : κ → Nat) (c : κ) (code : Code σ Int) (memory : σ) : Option (Machine σ κ) :=
  (settle code memory).map (fun p => ⟨p.1, pending, some (c, p.2)⟩)

def idle (memory : σ) : Machine σ κ := ⟨memory, fun _ => 0, none⟩

/-- `poll_n_send_wc` was entered, and only with a request whose completion it can take. -/
def Machine.Waits (s : Machine σ κ) : Prop :=
  ∀ c k, s.job = some (c, .waiting .pollNSendWc k) → 0 < s.pending c

/-- The call does not poll the send queue, and if it has ended it has failed. -/
def Machine.Reports (s : Machine σ κ) : Prop :=
  ∀ c stop, s.job = some (c, stop) → stop ≠ .done 0 ∧ ∀ k, stop ≠ .waiting .pollNSendWc k

def Rests : Stop σ Verb Verb.Answer α → Bool → Prop
  | .done _, posted => posted = false
  | .waiting v k, posted => Paired (.call v k) posted

theorem rests_of_settle {posted : Bool} {m : Code σ α} {s s' : σ} {stop : Stop σ Verb Verb.Answer α}
    (hm : Paired m posted) (h : settle m s = some (s', stop)) : Rests stop posted := by
  induction m generalizing s with
  | ret a =>
    cases h
    exact hm
  | load k ih => exact ih s (hm s) h
  | store s k ih => exact ih hm h
  | fault => cases h
  | call v k ih =>
    cases h
    exact hm

theorem settle_posted {m : Code σ α} (hm : Paired m true) (s : σ) :
    ∃ s' k, settle m s = some (s', .waiting .pollNSendWc k) := by
  induction m generalizing s with
  | ret a => cases hm
  | load k ih => exact ih s (hm s) s
  | store s' k ih => exact ih hm s'
  | fault => cases hm
  | call v k ih =>
    cases v with
    | pollNSendWc => exact ⟨s, k, rfl⟩
    | ibvPostSend wr | pollNextReceiveWc blocking | readMessage | ibvDeregMr => cases hm.1

variable {s t : Machine σ κ} {c : κ}

def Kept (s : Machine σ κ) : Prop :=
  ∀ c stop, s.job = some (c, stop) → Rests stop false ∨ (Rests stop true ∧ 0 < s.pending c)

theorem Kept.waits (h : Kept s) : s.Waits := by
  intro c k hj
  cases h c _ hj with
  | inl hr => cases hr.1
  | inr hr => exact hr.2

theorem kept_resume {pending : κ → Nat} {posted : Bool} {code : Code σ Int} {memory : σ}
    (hc : Paired code posted) (hp : posted = true → 0 < pending c)
    (h : resume pending c code memory = some t) : Kept t := by
  obtain ⟨⟨memory', stop⟩, hs, rfl⟩ := Option.map_eq_some_iff.mp h
  intro c' stop' hj
  cases hj
  have hr := rests_of_settle hc hs
  cases posted with
  | false => exact .inl hr
  | true => exact .inr ⟨hr, hp rfl⟩

theorem kept_idle (memory : σ) : Kept (idle memory : Machine σ κ) := fun _ _ hj => by cases hj

variable [DecidableEq κ]

def answer (s : Machine σ κ) (c : κ) : (v : Verb) → (v.Answer → Code σ Int) → Input σ ι →
    Option (Machine σ κ)
  | .ibvPostSend _, k, .post r =>
    resume (if r = 0 then Function.update s.pending c (s.pending c + 1) else s.pending) c (k r) s.memory
  | .pollNSendWc, k, .completion wc =>
    if 0 < s.pending c then
      resume (Function.update s.pending c (s.pending c - 1)) c (k (sendResult wc)) s.memory
    else none
  | .pollNSendWc, k, .pollError => resume s.pending c (k 1) s.memory
  | .pollNextReceiveWc _, k, .receive r => resume s.pending c (k r) s.memory
  | .readMessage, k, .message msg => resume s.pending c (k msg) s.memory
  | .ibvDeregMr, k, .dereg r => resume s.pending c (k r) s.memory
  | _, _, _ => none

def move (calls : ι → κ × Code σ Int) (s : Machine σ κ) (i : Input σ ι) : Option (Machine σ κ) :=
  match i, s.job with
  | .remote memory, _ => some { s with memory := memory }
  | .start call, none => resume s.pending (calls call).1 (calls call).2 s.memory
  | .start call, some (_, .done _) => resume s.pending (calls call).1 (calls call).2 s.memory
  | i, some (c, .waiting v k) => answer s c v k i
  | _, _ => none

def clientCalls (call : Call) : Unit × ClientCode Int := ((), call.code)

def serverCalls (p : Handler × Fin n × ControlMessage) : Fin n × ServerCode n Int :=
  (p.2.1, p.1.code p.2.1 p.2.2)

def Rejected (calls : ι → κ × Code σ Int) (s : Machine σ κ) (i : Input σ ι) : Prop :=
  (∃ r, i = .post r ∧ r ≠ 0) ∧ (move calls s i).isSome

/-- What a step has to keep: whoever polls the send queue has something to wait for, and behind a
rejected post the call is on its way to report an error. -/
def Sound (calls : ι → κ × Code σ Int) (s : Machine σ κ) (i : Input σ ι) : Prop :=
  ∀ t, move calls s i = some t → t.Waits ∧ (Rejected calls s i → t.Reports)

variable {calls : ι → κ × Code σ Int} {i : Input σ ι}

theorem move_cases (h : move calls s i = some t) :
    (∃ memory, i = .remote memory ∧ t = { s with memory := memory }) ∨
      (∃ call, i = .start call ∧ resume s.pending (calls call).1 (calls call).2 s.memory = some t) ∨
      (∃ c v k, s.job = some (c, .waiting v k) ∧ answer s c v k i = some t) := by
  rw [move.eq_def] at h
  split at h
  · exact .inl ⟨_, rfl, (Option.some.inj h).symm⟩
  · exact .inr (.inl ⟨_, rfl, h⟩)
  · exact .inr (.inl ⟨_, rfl, h⟩)
  · rename_i hj
    exact .inr (.inr ⟨_, _, _, hj, h⟩)
  · cases h

theorem answer_post {wr : WorkRequest} {k : Int → Code σ Int}
    (h : answer s c (.ibvPostSend wr) k i = some t) : ∃ r, i = .post r ∧
      resume (if r = 0 then Function.update s.pending c (s.pending c + 1) else s.pending) c (k r)
      s.memory =
        some t := by
  cases i with
  | post r => exact ⟨r, rfl, h⟩
  | start | completion | pollError | receive | message | dereg | remote => cases h

theorem rests_other {v : Verb} {k : v.Answer → Code σ Int} {P : Prop}
    (h : Rests (.waiting v k) false ∨ (Rests (.waiting v k) true ∧ P)) (hpost : ∀ wr, v ≠ .ibvPostSend wr)
    (hpoll : v ≠ .pollNSendWc) : ∀ r, Paired (k r) false := by
  cases v with
  | ibvPostSend wr => exact absurd rfl (hpost wr)
  | pollNSendWc => exact absurd rfl hpoll
  | pollNextReceiveWc | readMessage | ibvDeregMr =>
    cases h with
    | inl hp => exact hp.2
    | inr hp => cases hp.1.1

theorem Kept.step (hcalls : ∀ call, Paired (calls call).2 false) (hk : Kept s)
    (hn : ¬ Rejected calls s i) (h : move calls s i = some t) : Kept t := by
  have hsome : (move calls s i).isSome := by rw [h]; rfl
  obtain ⟨memory, -, rfl⟩ | ⟨call, -, hr⟩ | ⟨c, v, k, hj, ha⟩ := move_cases h
  · exact hk
  · exact kept_resume (hcalls call) (fun hp => by cases hp) hr
  · have hrests := hk c _ hj
    cases v with
    | ibvPostSend wr =>
      obtain ⟨r, rfl, hr⟩ := answer_post ha
      have hzero : r = 0 := by
        by_contra hne
        exact hn ⟨⟨r, rfl, hne⟩, hsome⟩
      rw [if_pos hzero] at hr
      have hpaired : Paired (k r) true := by
        cases hrests with
        | inl hp => exact hp.2 r
        | inr hp => cases hp.1.1
      refine kept_resume hpaired (fun _ => ?_) hr
      rw [Function.update_self]
      exact Nat.succ_pos _
    | pollNSendWc =>
      have hpaired : ∀ r, Paired (k r) false := by
        cases hrests with
        | inl hp => cases hp.1
        | inr hp => exact hp.1.2
      cases i with
      | completion wc =>
        rw [answer] at ha
        split_ifs at ha
        exact kept_resume (hpaired _) (fun hp => by cases hp) ha
      | pollError => exact kept_resume (hpaired 1) (fun hp => by cases hp) ha
      | start | post | receive | message | dereg | remote => cases ha
    | pollNextReceiveWc blocking =>
      have hpaired := rests_other hrests (by simp) (by simp)
      cases i with
      | receive r => exact kept_resume (hpaired r) (fun hp => by cases hp) ha
      | start | post | completion | pollError | message | dereg | remote => cases ha
    | readMessage =>
      have hpaired := rests_other hrests (by simp) (by simp)
      cases i with
      | message msg => exact kept_resume (hpaired msg) (fun hp => by cases hp) ha
      | start | post | completion | pollError | receive | dereg | remote => cases ha
    | ibvDeregMr =>
      have hpaired := rests_other hrests (by simp) (by simp)
      cases i with
      | dereg r => exact kept_resume (hpaired r) (fun hp => by cases hp) ha
      | start | post | completion | pollError | receive | message | remote => cases ha

/-- The code goes on to the poll also when its post was rejected. -/
theorem rejected_polls (hk : Kept s) {r : Int} (h : move calls s (.post r) = some t) :
    ∃ c k, t.job = some (c, .waiting .pollNSendWc k) := by
  obtain ⟨memory, hi, -⟩ | ⟨call, hi, -⟩ | ⟨c, v, k, hj, ha⟩ := move_cases h
  · cases hi
  · cases hi
  · cases v with
    | ibvPostSend wr =>
      obtain ⟨r', hi, hr⟩ := answer_post ha
      cases hi
      have hpaired : Paired (k r) true := by
        cases hk c _ hj with
        | inl hp => exact hp.2 r
        | inr hp => cases hp.1.1
      obtain ⟨memory', k', hs⟩ := settle_posted hpaired s.memory
      rw [resume, hs] at hr
      cases hr
      exact ⟨c, k', rfl⟩
    | pollNSendWc | pollNextReceiveWc blocking | readMessage | ibvDeregMr => cases ha

theorem sound_iff (hcalls : ∀ call, Paired (calls call).2 false) (hk : Kept s) :
    Sound calls s i ↔ ¬ Rejected calls s i := by
  constructor
  · intro hsound hr
    obtain ⟨t, ht⟩ := Option.isSome_iff_exists.mp hr.2
    have hreports := (hsound t ht).2 hr
    obtain ⟨⟨r, rfl, -⟩, -⟩ := hr
    obtain ⟨c, k, hj⟩ := rejected_polls hk ht
    exact (hreports c _ hj).2 k rfl
  · intro hn t ht
    exact ⟨(hk.step hcalls hn ht).waits, fun hr => absurd hr hn⟩

/-- A run is sound exactly as long as no post is rejected. -/
theorem run_sound_iff (hcalls : ∀ call, Paired (calls call).2 false) (memory : σ)
    (inputs : List (Input σ ι)) :
    Along (move calls) (Sound calls) (idle memory) inputs ↔
      Along (move calls) (fun s i => ¬ Rejected calls s i) (idle memory) inputs :=
  along_iff Kept (fun _ => True) (fun _ _ hk _ => sound_iff hcalls hk)
    (fun _ _ _ hk _ hs hm => hk.step hcalls ((sound_iff hcalls hk).mp hs) hm) inputs (idle memory)
    (fun _ _ => trivial) (kept_idle memory)

/-- In every run of the client's calls, and in every run of the server's handlers, the send
queue is polled for something and errors are reported exactly as long as no
`ibv_post_send` is rejected. -/
theorem polls_posted_iff (m : ClientMemory) (s : ServerMemory n)
    (inputs : List (Input ClientMemory Call))
    (inputs' : List (Input (ServerMemory n) (Handler × Fin n × ControlMessage))) :
    (Along (move clientCalls) (Sound clientCalls) (idle m) inputs ↔
        Along (move clientCalls) (fun s i => ¬ Rejected clientCalls s i) (idle m) inputs) ∧
      (Along (move serverCalls) (Sound serverCalls) (idle s) inputs' ↔
        Along (move serverCalls) (fun s i => ¬ Rejected serverCalls s i) (idle s) inputs') :=
  ⟨run_sound_iff paired_call m inputs,
    run_sound_iff (fun p => paired_handler p.1 p.2.1 p.2.2) s inputs'⟩

/-- `shut_down_server` polls the send queue although nothing was posted. -/
theorem poll_without_request :
    ¬ ∀ inputs, Along (move clientCalls) (Sound clientCalls) (idle bare) inputs := by
  intro hall
  obtain ⟨msg, -, hs⟩ := @Call.settle_fits .shutDownServer (Nat.zero_le _) bare
  have hstart : move clientCalls (idle bare) (.start .shutDownServer) = some ⟨bare.setSend msg, fun _ => 0,
      some ((), .waiting (.ibvPostSend .send) (afterPost Call.shutDownServer.rest))⟩ := by
    change resume _ _ Call.shutDownServer.code bare = _
    rw [resume, hs]
    rfl
  have hpost : move clientCalls ⟨bare.setSend msg, fun _ => 0,
      some ((), .waiting (.ibvPostSend .send) (afterPost Call.shutDownServer.rest))⟩ (.post 1) =
        some ⟨bare.setSend msg, fun _ => 0,
          some ((), .waiting .pollNSendWc (afterConfirm Call.shutDownServer.rest))⟩ := rfl
  have hwaits := (((hall [.start .shutDownServer, .post 1]).2 _ hstart).1 _ hpost).1 () _ rfl
  exact absurd hwaits (Nat.lt_irrefl 0)

end NetworkOptimization.Posts
