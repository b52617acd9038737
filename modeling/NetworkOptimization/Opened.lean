import NetworkOptimization.Closing
import NetworkOptimization.Opening

namespace NetworkOptimization.Opened

open SequentialCode Postconditions Verbs Devices Closing Opening Dependencies Dependencies.Registry
open Exchange (gidLength)
open Exchange.LowLatency (PingpongDest msgSize)

variable {D : Type}

abbrev Event (D : Type) := Sigma (@SocketCall.Answer D)

abbrev Log (D : Type) := List (Event D)

def entered : Event D → List D
  | ⟨.accept _, some fd⟩ => [fd]
  | _ => []

def accepted (h : Log D) : List D := h.flatMap entered

theorem accepted_append (h h' : Log D) : accepted (h ++ h') = accepted h ++ accepted h' :=
  List.flatMap_append

theorem accepted_snoc (h : Log D) (e : Event D) : accepted (h ++ [e]) = accepted h ++ entered e := by
  rw [accepted_append]
  exact congrArg (accepted h ++ ·) (List.append_nil _)

/-- The sockets of a process are one descriptor `me`, and each connection has its own. -/
def Kept (me : D) (h : Log D) : (v : SocketCall D) → v.Answer → Prop
  | .socket, r => ∀ fd ∈ r, fd = me
  | .accept _, r => ∀ fd ∈ r, fd ∉ accepted h
  | _, _ => True

variable [DecidableEq D]

def written (fd : D) : Event D → List UInt8
  | ⟨.write fd' msg, some k⟩ => if fd' = fd then msg.take k else []
  | _ => []

def obtained (fd : D) : Event D → List UInt8
  | ⟨.read fd' _, some msg⟩ => if fd' = fd then msg else []
  | _ => []

def sent (fd : D) (h : Log D) : List UInt8 := h.flatMap (written fd)

def taken (fd : D) (h : Log D) : List UInt8 := h.flatMap (obtained fd)

theorem sent_append (fd : D) (h h' : Log D) : sent fd (h ++ h') = sent fd h ++ sent fd h' :=
  List.flatMap_append

theorem taken_append (fd : D) (h h' : Log D) : taken fd (h ++ h') = taken fd h ++ taken fd h' :=
  List.flatMap_append

theorem sent_snoc (fd : D) (h : Log D) (e : Event D) : sent fd (h ++ [e]) = sent fd h ++ written fd e := by
  rw [sent_append]
  exact congrArg (sent fd h ++ ·) (List.append_nil _)

theorem taken_snoc (fd : D) (h : Log D) (e : Event D) :
    taken fd (h ++ [e]) = taken fd h ++ obtained fd e := by
  rw [taken_append]
  exact congrArg (taken fd h ++ ·) (List.append_nil _)

def Says (my : PingpongDest) (text : List UInt8) : Prop :=
  text.length = msgSize ∧ ∀ (rem : PingpongDest) wgid, wgid.length = gidLength →
    rem.scan text wgid = some my

def Heard (fd : D) (dest : PingpongDest) (h : Log D) : Prop :=
  ∃ msg, msg.length = msgSize ∧ msg <+: taken fd h ∧
    ∃ (rem : PingpongDest) (wgid : List UInt8), wgid.length = gidLength ∧ rem.scan msg wgid = some dest

theorem Heard.append {fd : D} {dest : PingpongDest} {h : Log D} (hd : Heard fd dest h) (h' : Log D) :
    Heard fd dest (h ++ h') := by
  obtain ⟨msg, hl, hp, hs⟩ := hd
  refine ⟨msg, hl, ?_, hs⟩
  rw [taken_append]
  exact hp.trans (List.prefix_append _ _)

structure Own (s : Process) (ctx : Context) (my : PingpongDest) : Prop where
  lid : my.lid = s.host.lid.toUInt32
  qpn : my.qpn = s.host.qpNum ctx.qp
  psn : my.psn.toNat < 2 ^ 24
  gid : my.gid = zeroGid

/-- A queue pair that waits for its peer, with its receive requests. -/
def filled : QueuePair := { toInit ibPort .created with receives := rxDepth.toNat }

structure Connected (s : Process) (remote : Remote) : Prop where
  queuePair : s.queuePairs remote.ctx.qp =
    toRts remote.my.psn (toRtr ibPort mtu sl remote.dest gidx filled)
  my : Own s remote.ctx remote.my
  queue : remote.ctx.queue = ⟨rxDepth, rxDepth⟩
  lt : remote.ctx.qp < s.registry.count

section Local

omit [DecidableEq D]

variable {rely : Log D → (v : SocketCall D) → v.Answer → Prop}
    {mid : Process → Log D → SocketCall D → Prop}
  {s₀ s : Process} {gs : List (Nat × Object Kind)} {h : Log D}

theorem print_says {ctx : Context} {my : PingpongDest} {msg text : List UInt8} (hmy : Own s ctx my)
    (hl : msg.length = msgSize) (ht : my.print msg s.host.wgid = some text) : Says my text := by
  obtain ⟨lid, qpn, psn, gid⟩ := my
  have hlid : lid.toNat < 2 ^ 16 := by
    have hmylid : lid = s.host.lid.toUInt32 := hmy.lid
    rw [hmylid, UInt16.toNat_toUInt32]
    exact s.host.lid.toNat_lt
  have hqpn : qpn.toNat < 2 ^ 24 := by
    have hmyqpn : qpn = s.host.qpNum ctx.qp := hmy.qpn
    rw [hmyqpn]
    exact s.host.qpNum_lt _
  obtain ⟨t, -, hlen, hprint, hscan⟩ :=
    Exchange.LowLatency.roundTrip gid hlid hqpn hmy.psn msg s.host.wgid hl s.host.wgid_length
  rw [hprint] at ht
  cases ht
  refine ⟨?_, hscan⟩
  rw [List.length_append]
  exact hlen

theorem message_meets {ctx : Context} {my : PingpongDest} {msg : List UInt8}
    {post : List UInt8 → Process → Log D → Prop} (hmy : Own s ctx my) (hl : msg.length = msgSize)
    (hp : ∀ text, Says my text → post text s h) : Meets rely mid True (message my msg) s h post := by
  have hprint : ∀ t, my.print msg s.host.wgid = some t → Says my t := fun t => print_says hmy hl
  unfold message
  generalize my.print msg = print at hprint ⊢
  exact Meets.bind (Meets.gets (Meets.require (fun t ht => hp t (hprint t ht)) fun _ => trivial))

theorem parse_meets {msg : List UInt8} {post : Option (Nat × PingpongDest) → Process → Log D → Prop}
    (hm : Made s₀ s gs) (hnone : ∀ s', Made s₀ s' gs → s'.queuePairs = s.queuePairs → post none s' h)
    (hsome : ∀ block dest s', Made s₀ s' ((block, ⟨.block, []⟩) :: gs) → s'.queuePairs = s.queuePairs →
      (∃ (rem : PingpongDest) (wgid : List UInt8), wgid.length = gidLength ∧
        rem.scan msg wgid = some dest) →
      post (some (block, dest)) s' h) :
    Meets rely mid True (parse msg) s h post := by
  unfold parse
  refine Meets.bind (hm.acquire_same (by simp) hnone fun block s' hm' hq => ?_)
  refine Meets.bind (Meets.gets (Meets.bind (Meets.require (fun dest hd => ?_) fun _ => trivial)))
  exact hsome block dest s' hm' hq ⟨_, _, s'.host.wgid_length, hd⟩

/-- A context before the exchange, with its full receive queue. -/
structure Prepared (s s' : Process) (ctx : Context) (my : PingpongDest) : Prop where
  made : Made s s' ctx.objects
  queuePair : s'.queuePairs ctx.qp = filled
  queue : ctx.queue = ⟨rxDepth, rxDepth⟩
  my : Own s' ctx my

theorem and_mask_lt (x : UInt32) : (x &&& 0xffffff).toNat < 2 ^ 24 := by
  rw [UInt32.toNat_and]
  exact Nat.lt_of_le_of_lt Nat.and_le_right (by decide)

theorem fillReceives_meets {ctx : Context} {post : Option Context → Process → Log D → Prop}
    (hm : Made s₀ s gs) (hid : ctx.qp ∈ gs.map Prod.fst)
    (hp : ∀ o s', Made s₀ s' gs →
      (∀ ctx' ∈ o, ctx' = { ctx with queue := ⟨ctx.queue.rxDepth, ctx.queue.rxDepth⟩ } ∧
        s'.queuePairs ctx.qp = { s.queuePairs ctx.qp with
          receives := (s.queuePairs ctx.qp).receives + (ctx.queue.rxDepth - ctx.queue.routs).toNat }) →
      post o s' h) :
    Meets rely mid True (fillReceives ctx) s h post := by
  refine Meets.locally (fun o s' hs => ?_) fun _ => trivial
  have hr : (ppPostRecv (fun i => s.host.answers (s.calls + i)) ctx.queue).2.rxDepth =
    ctx.queue.rxDepth := by
    unfold ppPostRecv
    split <;> rfl
  have hfull := @postRecvs_of_ppPostRecv (fun i => s.host.answers (s.calls + i)) ctx.queue
  dsimp only at hs
  generalize ppPostRecv (fun i => s.host.answers (s.calls + i)) ctx.queue = p at hs hr hfull
  cases hs
  have hm' : Made s₀ { s with calls := s.calls + ctx.queue.rxDepth.toNat } gs :=
    ⟨hm.host, hm.since, hm.queuePairs⟩
  refine hp _ _ (hm'.setQueuePair hid _) fun ctx' hctx => ?_
  obtain ⟨hc, hctx⟩ := Option.ite_none_right_eq_some.mp hctx
  cases hctx
  refine ⟨by rw [hr], ?_⟩
  simp only [Process.setQueuePair, Function.update_self, hfull hc]

theorem prepareCtx_meets {post : Option (Context × PingpongDest) → Process → Log D → Prop}
    (hp : ∀ o s', (∃ gs, Made s s' gs) → (∀ p ∈ o, Prepared s s' p.1 p.2) → post o s' h) :
    Meets rely mid True prepareCtx s h post := by
  have hfail : ∀ {s'} {gs}, Made s s' gs → post none s' h := fun hm => hp none _ ⟨_, hm⟩ (by simp)
  unfold prepareCtx
  refine Meets.bind ((ppInitCtx_meets rxDepth ibPort false).mono fun o s₁ h₁ ho => ?_)
  obtain ⟨rfl, ⟨gs, hm⟩, ho⟩ := ho
  cases o with
  | none => exact hfail hm
  | some ctx =>
    obtain ⟨hm, hq, hr⟩ := ho ctx rfl
    have hqp : ctx.qp ∈ ctx.objects.map Prod.fst := by simp [Context.objects]
    refine Meets.bind (fillReceives_meets hm hqp fun o s₂ hm₂ ho => ?_)
    cases o with
    | none => exact hfail hm₂
    | some ctx' =>
      obtain ⟨hctx, hheld⟩ := ho ctx' rfl
      refine Meets.bind (attempt_meets fun b => ?_)
      cases b with
      | false => exact hfail hm₂.next
      | true =>
        refine Meets.bind (Meets.gets ?_)
        by_cases hl : s₂.next.host.infiniband = true ∧ s₂.next.host.lid = 0
        · change Meets rely mid True (if _ then _ else _) _ _ _
          rw [if_pos hl]
          exact hfail hm₂.next
        · change Meets rely mid True (if _ then _ else _) _ _ _
          rw [if_neg hl]
          refine Meets.bind (Meets.locally (fun psn s₃ hs => ?_) fun _ => trivial)
          cases hs
          have hm₃ : Made s { s₂.next with draws := s₂.next.draws + 1 } ctx'.objects := by
            subst hctx
            exact ⟨hm₂.host, hm₂.since, hm₂.queuePairs⟩
          refine hp _ _ ⟨_, hm₃⟩ fun p hp' => ?_
          cases hp'
          refine ⟨hm₃, ?_, ?_, rfl, rfl, and_mask_lt _, rfl⟩
          · rw [hctx]
            change s₂.queuePairs ctx.qp = _
            rw [hheld, hq, hr]
            rfl
          · rw [hctx, hr]
            rfl

theorem ppConnectCtx_meets {ctx : Context} {my : PingpongDest} {dest : PingpongDest}
    {post : Int → Process → Log D → Prop} (hm : Made s₀ s gs) (hid : ctx.qp ∈ gs.map Prod.fst)
    (hq : s.queuePairs ctx.qp = filled)
    (hfail : ∀ s', Made s₀ s' gs → post 1 s' h)
    (hdone : ∀ s', Made s₀ s' gs →
      s'.queuePairs ctx.qp = toRts my.psn (toRtr ibPort mtu sl dest gidx filled) →
      post 0 s' h) :
    Meets rely mid True (ppConnectCtx ctx ibPort my.psn mtu sl dest gidx) s h post := by
  unfold ppConnectCtx
  refine Meets.bind (ibvModifyQp_meets (hfail _ hm.next) fun _ => ?_)
  have hm₁ := hm.next.setQueuePair hid (toRtr ibPort mtu sl dest gidx (s.queuePairs ctx.qp))
  refine Meets.bind (ibvModifyQp_meets (hfail _ hm₁.next) fun _ => ?_)
  refine hdone _ (hm₁.next.setQueuePair hid _) ?_
  simp only [Process.setQueuePair, Process.next, Function.update_self]
  rw [hq]

end Local

structure Idle (h : Log D) : Prop where
  sent : ∀ fd, sent fd h = []
  taken : ∀ fd, taken fd h = []

theorem Idle.snoc {h : Log D} (hi : Idle h) {e : Event D} (hw : ∀ fd, written fd e = [])
    (ho : ∀ fd, obtained fd e = []) : Idle (h ++ [e]) := by
  constructor
  · intro fd
    rw [sent_append, hi.sent fd]
    simpa [Opened.sent] using hw fd
  · intro fd
    rw [taken_append, hi.taken fd]
    simpa [Opened.taken] using ho fd

section Sockets

variable {me : D} {mid : Process → Log D → SocketCall D → Prop} {s s₀ : Process} {h : Log D}
  {gs : List (Nat × Object Kind)}

theorem firstSocket_meets {use : D → Net D Bool} {post : Option D → Process → Log D → Prop}
    (huse : ∀ {h} {post : Bool → Process → Log D → Prop} fd, Idle h → accepted h = [] →
      (∀ b h', Idle h' → accepted h' = [] → post b s h') → Meets (Kept me) mid True (use fd) s h post)
    (hmid : ∀ h v, Idle h → mid s h v) (n : Nat) (hi : Idle h) (ha : accepted h = [])
    (hp : ∀ o h', Idle h' → accepted h' = [] → (∀ fd ∈ o, fd = me) → post o s h') :
    Meets (Kept me) mid True (firstSocket use n) s h post := by
  induction n generalizing h with
  | zero => exact hp none h hi ha (by simp)
  | succ n ih =>
    refine Meets.bind (Meets.request (hmid h _ hi) fun r hr => ?_)
    have hi₁ : Idle (h ++ [⟨.socket, r⟩]) := hi.snoc (fun _ => rfl) fun _ => rfl
    have ha₁ : accepted (h ++ [⟨.socket, r⟩]) = [] := by
      rw [accepted_append, ha]
      rfl
    cases r with
    | none => exact ih hi₁ ha₁
    | some fd =>
      refine Meets.bind (huse fd hi₁ ha₁ fun b h₂ hi₂ ha₂ => ?_)
      cases b with
      | true => exact hp _ _ hi₂ ha₂ fun fd' hfd => Option.some.inj hfd ▸ hr fd rfl
      | false =>
        refine Meets.bind (Meets.request (hmid h₂ _ hi₂) fun r _ => ?_)
        refine ih (hi₂.snoc (fun _ => rfl) fun _ => rfl) ?_
        rw [accepted_append, ha₂]
        rfl

theorem resolve_meets {use : D → Net D Bool} {post : Option D → Process → Log D → Prop}
    (huse : ∀ {s' h} {post : Bool → Process → Log D → Prop} fd, (∃ gs, Made s s' gs) → Idle h →
      accepted h = [] → (∀ b h', Idle h' → accepted h' = [] → post b s' h') →
      Meets (Kept me) mid True (use fd) s' h post)
    (hmid : ∀ s' h v, (∃ gs, Made s s' gs) → Idle h → mid s' h v) (hi : Idle h) (ha : accepted h = [])
    (hp : ∀ o s' h', Made s s' [] → Idle h' → accepted h' = [] → (∀ fd ∈ o, fd = me) → post o s' h') :
    Meets (Kept me) mid True (resolve use) s h post := by
  unfold resolve
  refine Meets.bind ((Made.refl s).acquire (by simp) (fun s' hm => hp none s' h hm hi ha (by simp))
    fun service s₁ h₁ => ?_)
  refine Meets.bind (h₁.acquire (by simp) (fun s' hm => ?_) fun res s₂ h₂ => ?_)
  · exact Meets.bind (free_meets hm (by simp) fun s' hm' _ => hp none s' h hm' hi ha (by simp))
  · refine Meets.bind (Meets.gets (Meets.bind ?_))
    refine firstSocket_meets (fun fd => huse fd ⟨_, h₂⟩) (fun h v => hmid s₂ h v ⟨_, h₂⟩) _ hi ha
      fun sockfd h' hi' ha' hme => ?_
    refine Meets.bind (free_meets h₂ (by simp) fun s₃ h₃ _ => ?_)
    exact Meets.bind (free_meets h₃ (by simp) fun s₄ h₄ _ => hp sockfd s₄ h' h₄ hi' ha' hme)

theorem acceptAll_meets {sockfd : D} {post : Option (List D) → Process → Log D → Prop}
    (hmid : ∀ h v, Idle h → mid s h v) (n : Nat) {fds : List D} (hi : Idle h) (ha : accepted h = fds)
    (hn : fds.Nodup)
    (hp : ∀ o h', Idle h' → (∀ fds' ∈ o, fds'.Nodup ∧ fds'.length = fds.length + n) → post o s h') :
    Meets (Kept me) mid True (acceptAll sockfd n fds) s h post := by
  induction n generalizing h fds with
  | zero =>
    refine hp _ h hi fun fds' hf => ?_
    cases hf
    exact ⟨hn, rfl⟩
  | succ n ih =>
    refine Meets.bind (Meets.request (hmid h _ hi) fun r hr => ?_)
    have hi₁ : Idle (h ++ [⟨.accept sockfd, r⟩]) := hi.snoc (fun _ => rfl) fun _ => rfl
    cases r with
    | none => exact hp none _ hi₁ (by simp)
    | some connfd =>
      have hnew : connfd ∉ fds := ha ▸ hr connfd rfl
      refine ih hi₁ ?_ ?_ fun o h' hi' ho => hp o h' hi' fun fds' hf => ?_
      · rw [accepted_append, ha]
        rfl
      · refine List.nodup_append.mpr ⟨hn, List.nodup_singleton _, fun i hi j hj => ?_⟩
        rintro rfl
        exact hnew (List.mem_singleton.mp hj ▸ hi)
      · obtain ⟨hd, hl⟩ := ho fds' hf
        refine ⟨hd, ?_⟩
        rw [hl, List.length_append]
        simp only [List.length_cons, List.length_nil]
        omega

theorem listenToWebsocket_meets {post : Option (List D) → Process → Log D → Prop} (n : Nat)
    (hmid : ∀ s' h v, (∃ gs, Made s s' gs) → Idle h → mid s' h v) (hi : Idle h) (ha : accepted h = [])
    (hp : ∀ o s' h', Made s s' [] → Idle h' → (∀ fds ∈ o, fds.Nodup ∧ fds.length = n) → post o s' h') :
    Meets (Kept me) mid True (listenToWebsocket n) s h post := by
  unfold listenToWebsocket
  refine Meets.bind (resolve_meets (fun fd hm hi ha hp => ?_) hmid hi ha fun o s₁ h₁ hm hi₁ ha₁ _ => ?_)
  · refine Meets.request (hmid _ _ _ hm hi) fun r _ => hp r _ (hi.snoc (fun _ => rfl) fun _ => rfl) ?_
    rw [accepted_append, ha]
    rfl
  · cases o with
    | none => exact hp none s₁ h₁ hm hi₁ (by simp)
    | some sockfd =>
      have hmid₁ : ∀ h v, Idle h → mid s₁ h v := fun h v => hmid s₁ h v ⟨_, hm⟩
      refine Meets.bind (Meets.request (hmid₁ _ _ hi₁) fun r _ => ?_)
      refine Meets.bind (acceptAll_meets hmid₁ n (hi₁.snoc (fun _ => rfl) fun _ => rfl) ?_ List.nodup_nil
        fun o h₂ hi₂ ho => ?_)
      · rw [accepted_append, ha₁]
        rfl
      · cases o with
        | none => exact hp none s₁ h₂ hm hi₂ (by simp)
        | some fds =>
          refine Meets.bind (Meets.request (hmid₁ _ _ hi₂) fun r _ => ?_)
          refine hp _ s₁ _ hm (hi₂.snoc (fun _ => rfl) fun _ => rfl) fun fds' hf => ?_
          cases hf
          simpa using ho fds rfl

end Sockets

def Told (fd : D) (my : PingpongDest) (h : Log D) : Prop := ∃ text, Says my text ∧ text <+: sent fd h

theorem Told.append {fd : D} {my : PingpongDest} {h : Log D} (ht : Told fd my h) (h' : Log D) :
    Told fd my (h ++ h') := by
  obtain ⟨text, hs, hp⟩ := ht
  refine ⟨text, hs, ?_⟩
  rw [sent_append]
  exact hp.trans (List.prefix_append _ _)

section Client

variable {me : D} {mid : Process → Log D → SocketCall D → Prop} {s : Process} {h : Log D}

theorem clientExchange_meets {ctx : Context} {my : PingpongDest}
    {post : Option (Nat × PingpongDest) → Process → Log D → Prop} (hmid : ∀ s h v, mid s h v)
    (hmy : Own s ctx my) (hi : Idle h)
    (hp : ∀ o s' h', (∃ gs, Made s s' gs) → (∀ p ∈ o, Made s s' [(p.1, ⟨.block, []⟩)] ∧
      s'.queuePairs = s.queuePairs ∧ Told me my h' ∧ Heard me p.2 h') → post o s' h') :
    Meets (Kept me) mid True (clientExchange me my) s h post := by
  have hfail : ∀ {h}, post none s h := hp none s _ ⟨_, Made.refl s⟩ (by simp)
  unfold clientExchange
  refine Meets.bind (Meets.gets (Meets.bind (message_meets hmy s.host.msg_length fun text ht => ?_)))
  refine Meets.bind (Meets.request (hmid _ _ _) fun r _ => ?_)
  by_cases hr : r = some msgSize
  · rw [if_neg (not_not.mpr hr)]
    subst hr
    refine Meets.bind (Meets.request (hmid _ _ _) fun r _ => ?_)
    cases r with
    | none => exact hfail
    | some msg =>
      by_cases hl : msg.length = msgSize
      · change Meets _ _ _ (if _ then _ else _) _ _ _
        rw [if_neg (not_not.mpr hl)]
        refine Meets.bind (Meets.request (hmid _ _ _) fun r _ => ?_)
        have htold : Told me my (h ++ [⟨.write me text, some msgSize⟩]) := by
          refine ⟨text, ht, ?_⟩
          rw [sent_append, hi.sent]
          simp [sent, written, List.take_of_length_le ht.1.le]
        refine parse_meets (Made.refl s) (fun s' hm _ => hp none s' _ ⟨_, hm⟩ (by simp))
          fun block dest s' hm hq hs => hp _ _ _ ⟨_, hm⟩ fun p hp' => ?_
        cases hp'
        refine ⟨hm, hq, (htold.append _).append _, Heard.append ⟨msg, hl, ?_, hs⟩ _⟩
        rw [taken_append, taken_append, hi.taken]
        simp [taken, obtained]
      · change Meets _ _ _ (if _ then _ else _) _ _ _
        rw [if_pos hl]
        exact hfail
  · rw [if_pos hr]
    exact hfail

theorem ppClientExchDest_meets {ctx : Context} {my : PingpongDest}
    {post : Option (Nat × PingpongDest) → Process → Log D → Prop} (hmid : ∀ s h v, mid s h v)
    (hmy : Own s ctx my) (hlt : ctx.qp < s.registry.count) (hi : Idle h) (ha : accepted h = [])
    (hp : ∀ o s' h', (∃ gs, Made s s' gs) → (∀ p ∈ o, Made s s' [(p.1, ⟨.block, []⟩)] ∧
      s'.queuePairs ctx.qp = s.queuePairs ctx.qp ∧ Told me my h' ∧ Heard me p.2 h') → post o s' h') :
    Meets (Kept me) mid True (ppClientExchDest my) s h post := by
  have huse : ∀ {s' h} {post : Bool → Process → Log D → Prop} fd, (∃ gs, Made s s' gs) → Idle h →
      accepted h = [] → (∀ b h', Idle h' → accepted h' = [] → post b s' h') →
      Meets (Kept me) mid True (system (.connect fd)) s' h post := by
    intro s' h post fd _ hi ha hp
    refine Meets.request (hmid _ _ _) fun r _ => hp r _ (hi.snoc (fun _ => rfl) fun _ => rfl) ?_
    rw [accepted_append, ha]
    rfl
  unfold ppClientExchDest
  refine Meets.bind (resolve_meets huse (fun _ _ _ _ _ => hmid _ _ _) hi ha fun o s₁ h₁ hm hi₁ _ hme => ?_)
  cases o with
  | none => exact hp none s₁ h₁ ⟨_, hm⟩ (by simp)
  | some sockfd =>
    obtain rfl := hme sockfd rfl
    have hq₁ : s₁.queuePairs ctx.qp = s.queuePairs ctx.qp := hm.queuePairs _ hlt
    have hmy₁ : Own s₁ ctx my := ⟨hm.host ▸ hmy.lid, hm.host ▸ hmy.qpn, hmy.psn, hmy.gid⟩
    refine Meets.bind (clientExchange_meets hmid hmy₁ hi₁ fun o s₂ h₂ hm₂ ho => ?_)
    refine Meets.bind (Meets.request (hmid _ _ _) fun r _ => ?_)
    obtain ⟨gs, hgs⟩ := hm₂
    refine hp o s₂ _ ⟨_, hm.trans hgs⟩ fun p hp' => ?_
    obtain ⟨hblock, hq, htold, hheard⟩ := ho p hp'
    exact ⟨hm.trans hblock, hq ▸ hq₁, htold.append _, hheard.append _⟩

end Client

/-- The connections of a server in `kv_open`, each with its remote host. -/
structure Seats (s : Process) (h : Log D) (l : List (D × Remote)) : Prop where
  fds : (l.map Prod.fst).Nodup
  qps : (l.map (fun p => p.2.ctx.qp)).Nodup
  connected : ∀ p ∈ l, Connected s p.2
  heard : ∀ p ∈ l, Heard p.1 p.2.dest h
  said : ∀ p ∈ l, ∃ text, Says p.2.my text ∧ sent p.1 h <+: text
  silent : ∀ fd, fd ∉ l.map Prod.fst → sent fd h = []

theorem Seats.same {s s' : Process} {h : Log D} {l : List (D × Remote)} (hs : Seats s h l)
    (hhost : s'.host = s.host) (hq : ∀ p ∈ l, s'.queuePairs p.2.ctx.qp = s.queuePairs p.2.ctx.qp)
    (hc : s.registry.count ≤ s'.registry.count) : Seats s' h l where
  fds := hs.fds
  qps := hs.qps
  connected := fun p hp => by
    obtain ⟨hqp, hmy, hr, hlt⟩ := hs.connected p hp
    refine ⟨(hq p hp).trans hqp, ?_, hr, Nat.lt_of_lt_of_le hlt hc⟩
    exact ⟨hhost ▸ hmy.lid, hhost ▸ hmy.qpn, hmy.psn, hmy.gid⟩
  heard := hs.heard
  said := hs.said
  silent := hs.silent

theorem Seats.frame {s s' : Process} {h : Log D} {l : List (D × Remote)} {gs : List (Nat × Object Kind)}
    (hs : Seats s h l) (hm : Made s s' gs) : Seats s' h l :=
  hs.same hm.host (fun p hp => hm.queuePairs _ (hs.connected p hp).lt) hm.since.count

theorem Seats.quiet {s : Process} {h : Log D} {l : List (D × Remote)} (hs : Seats s h l) {e : Event D}
    (hw : ∀ fd, written fd e = []) : Seats s (h ++ [e]) l := by
  have hsent : ∀ fd, sent fd (h ++ [e]) = sent fd h := by
    intro fd
    rw [sent_append]
    simp [sent, hw fd]
  refine ⟨hs.fds, hs.qps, hs.connected, fun p hp => (hs.heard p hp).append _, fun p hp => ?_,
    fun fd hfd => ?_⟩
  · rw [hsent]
    exact hs.said p hp
  · rw [hsent]
    exact hs.silent fd hfd

theorem Seats.join {s : Process} {h : Log D} {l : List (D × Remote)} (hs : Seats s h l) {fd : D}
    {remote : Remote} (hfd : fd ∉ l.map Prod.fst) (hqp : ∀ p ∈ l, p.2.ctx.qp ≠ remote.ctx.qp)
    (hc : Connected s remote) (hh : Heard fd remote.dest h) {text : List UInt8} (ht : Says remote.my text)
    (r : Option Nat) : Seats s (h ++ [⟨.write fd text, r⟩]) (l ++ [(fd, remote)]) := by
  have hsent : ∀ fd', fd' ≠ fd → sent fd' (h ++ [⟨.write fd text, r⟩]) = sent fd' h := by
    intro fd' hne
    rw [sent_append]
    cases r with
    | none => simp [sent, written]
    | some k => simp [sent, written, Ne.symm hne]
  refine ⟨?_, ?_, ?_, ?_, ?_, ?_⟩
  · rw [List.map_append]
    refine List.nodup_append.mpr ⟨hs.fds, List.nodup_singleton _, fun i hi j hj => ?_⟩
    obtain rfl := List.mem_singleton.mp hj
    rintro rfl
    exact hfd hi
  · rw [List.map_append]
    refine List.nodup_append.mpr ⟨hs.qps, List.nodup_singleton _, fun i hi j hj => ?_⟩
    obtain rfl := List.mem_singleton.mp hj
    obtain ⟨p, hp, rfl⟩ := List.mem_map.mp hi
    exact hqp p hp
  · intro p hp
    obtain hp | hp := List.mem_append.mp hp
    · exact hs.connected p hp
    · obtain rfl := List.mem_singleton.mp hp
      exact hc
  · intro p hp
    obtain hp | hp := List.mem_append.mp hp
    · exact (hs.heard p hp).append _
    · obtain rfl := List.mem_singleton.mp hp
      exact hh.append _
  · intro p hp
    obtain hp | hp := List.mem_append.mp hp
    · rw [hsent p.1 fun he => hfd (he ▸ List.mem_map_of_mem hp)]
      exact hs.said p hp
    · obtain rfl := List.mem_singleton.mp hp
      refine ⟨text, ht, ?_⟩
      rw [sent_append, hs.silent fd hfd]
      cases r with
      | none => simp [sent, written]
      | some k => simpa [sent, written] using List.take_prefix k text
  · intro fd' hfd'
    rw [List.map_append, List.mem_append] at hfd'
    rw [hsent fd' fun he => hfd' (.inr (by simp [he]))]
    exact hs.silent fd' fun hm => hfd' (.inl hm)

section Server

variable {me : D} {mid : Process → Log D → SocketCall D → Prop} {s s₀ : Process} {h : Log D}
  {l : List (D × Remote)}

/-- The exchange with a client, from `s₀` before its context on. -/
structure Exchanged (s₀ : Process) (l : List (D × Remote)) (ctx : Context) (my : PingpongDest) (fd : D)
    (h : Log D) (o : Option (Nat × PingpongDest)) (s' : Process) (h' : Log D) : Prop where
  seats : ∃ l', Seats s' h' l'
  made : ∀ p ∈ o, Made s₀ s' ((p.1, ⟨.block, []⟩) :: ctx.objects)
  seated : ∀ p ∈ o, Seats s' h' (l ++ [(fd, ⟨ctx, my, p.1, p.2⟩)])
  taken : ∀ fd', fd' ≠ fd → taken fd' h' = taken fd' h

theorem taken_same {fd : D} {h : Log D} {e : Event D} (he : obtained fd e = []) :
    taken fd (h ++ [e]) = taken fd h := by
  rw [taken_snoc, he]
  exact List.append_nil _

theorem obtained_read {fd fd' : D} (hne : fd' ≠ fd) (size : Nat) (r : Option (List UInt8)) :
    obtained fd' ⟨.read fd size, r⟩ = [] := by
  cases r with
  | none => rfl
  | some msg => exact if_neg (Ne.symm hne)

theorem serverExchange_meets {ctx : Context} {my : PingpongDest} {fd : D}
    {post : Option (Nat × PingpongDest) → Process → Log D → Prop}
    (hmid : ∀ s h v l, Seats s h l → mid s h v) (hprep : Prepared s₀ s ctx my) (hs : Seats s₀ h l)
    (hfd : fd ∉ l.map Prod.fst) (ht : taken fd h = [])
    (hp : ∀ o s' h', Exchanged s₀ l ctx my fd h o s' h' → post o s' h') :
    Meets (Kept me) mid True (serverExchange ctx fd my) s h post := by
  unfold serverExchange
  refine Meets.bind (Meets.request (hmid _ _ _ l (hs.frame hprep.made)) fun r _ => ?_)
  have hs₁ : Seats s₀ (h ++ [⟨.read fd msgSize, r⟩]) l := hs.quiet fun _ => rfl
  have ht₁ : ∀ fd', fd' ≠ fd → taken fd' (h ++ [⟨.read fd msgSize, r⟩]) = taken fd' h :=
    fun fd' hne => taken_same (obtained_read hne _ _)
  have hfail : ∀ {s' gs}, Made s₀ s' gs → post none s' (h ++ [⟨.read fd msgSize, r⟩]) :=
    fun hm => hp none _ _ ⟨⟨l, hs₁.frame hm⟩, by simp, by simp, ht₁⟩
  cases r with
  | none => exact hfail hprep.made
  | some msg =>
    by_cases hl : msg.length = msgSize
    · change Meets _ _ _ (if _ then _ else _) _ _ _
      rw [if_neg (not_not.mpr hl)]
      have hheard : ∀ {dest}, (∃ (rem : PingpongDest) (wgid : List UInt8), wgid.length = gidLength ∧
          rem.scan msg wgid = some dest) → Heard fd dest (h ++ [⟨.read fd msgSize, some msg⟩]) := by
        intro dest hd
        refine ⟨msg, hl, ?_, hd⟩
        rw [taken_append, ht]
        simp [taken, obtained]
      refine Meets.bind (parse_meets hprep.made (fun s₂ hm₂ _ => hfail hm₂)
        fun block dest s₂ hm₂ hq₂ hd => ?_)
      have hblock : ∀ g ∈ (block, ⟨.block, []⟩) :: ctx.objects, block ∉ g.2.uses := by
        intro g hg hu
        obtain rfl | hg := List.mem_cons.mp hg
        · cases hu
        · exact (List.nodup_cons.mp hm₂.since.nodup).1 (objects_uses g hg _ hu)
      have hqp : ctx.qp ∈ ((block, (⟨.block, []⟩ : Object Kind)) :: ctx.objects).map Prod.fst := by
        simp [Context.objects]
      refine Meets.bind (ppConnectCtx_meets hm₂ hqp (hq₂ ▸ hprep.queuePair) (fun s₃ hm₃ => ?_)
        fun s₃ hm₃ hq₃ => ?_)
      · exact Meets.bind (free_meets hm₃ hblock fun s₄ hm₄ _ => hfail hm₄)
      · have hmy : Own s₃ ctx my := by
          have hhost : s₃.host = s.host := hm₃.host.trans hprep.made.host.symm
          exact ⟨hhost ▸ hprep.my.lid, hhost ▸ hprep.my.qpn, hprep.my.psn, hprep.my.gid⟩
        have hlt : ctx.qp < s₃.registry.count := by
          obtain ⟨g, hg, hgq⟩ := List.mem_map.mp hqp
          exact hgq ▸ live_lt (hm₃.since.live hg)
        have hnew : ∀ p ∈ l, p.2.ctx.qp ≠ ctx.qp := by
          intro p hp' he
          obtain ⟨g, hg, hgq⟩ := List.mem_map.mp hqp
          have hlater := hm₃.since.later g hg
          have hold := (hs.connected p hp').lt
          omega
        refine Meets.bind (message_meets hmy hl fun text htext => ?_)
        refine Meets.bind (Meets.request (hmid _ _ _ l (hs₁.frame hm₃)) fun r _ => ?_)
        have hc : Connected s₃ ⟨ctx, my, block, dest⟩ := ⟨hq₃, hmy, hprep.queue, hlt⟩
        have hseats := (hs₁.frame hm₃).join hfd hnew hc (hheard hd) htext r
        have ht₂ : ∀ fd', fd' ≠ fd →
          taken fd' (h ++ [⟨.read fd msgSize, some msg⟩] ++ [⟨.write fd text, r⟩]) =
            taken fd' h := fun fd' hne => (taken_same rfl).trans (ht₁ fd' hne)
        by_cases hr : r = some msgSize
        · rw [if_neg (not_not.mpr hr)]
          refine Meets.bind (Meets.request (hmid _ _ _ _ hseats) fun r _ => ?_)
          refine hp _ _ _ ⟨⟨_, hseats.quiet fun _ => rfl⟩, ?_, ?_, fun fd' hne => ?_⟩
          · intro p hp'
            cases hp'
            exact hm₃
          · intro p hp'
            cases hp'
            exact hseats.quiet fun _ => rfl
          · exact (taken_same (obtained_read hne _ _)).trans (ht₂ fd' hne)
        · rw [if_pos hr]
          refine Meets.bind (free_same hm₃ hblock fun s₄ hm₄ _ hq hc => ?_)
          have hhost : s₄.host = s₃.host := hm₄.host.trans hm₃.host.symm
          exact hp none _ _ ⟨⟨_, hseats.same hhost (fun p _ => by rw [hq]) hc.ge⟩, by simp, by simp, ht₂⟩
    · change Meets _ _ _ (if _ then _ else _) _ _ _
      rw [if_pos hl]
      exact hfail hprep.made

theorem ppServerExchDest_meets {ctx : Context} {my : PingpongDest} {fd : D}
    {post : Option (Nat × PingpongDest) → Process → Log D → Prop}
    (hmid : ∀ s h v l, Seats s h l → mid s h v) (hprep : Prepared s₀ s ctx my) (hs : Seats s₀ h l)
    (hfd : fd ∉ l.map Prod.fst) (ht : taken fd h = [])
    (hp : ∀ o s' h', Exchanged s₀ l ctx my fd h o s' h' → post o s' h') :
    Meets (Kept me) mid True (ppServerExchDest ctx fd my) s h post := by
  unfold ppServerExchDest
  refine Meets.bind (serverExchange_meets hmid hprep hs hfd ht fun o s₁ h₁ he => ?_)
  obtain ⟨⟨l', hl'⟩, hmade, hseated, htaken⟩ := he
  refine Meets.bind (Meets.request (hmid _ _ _ l' hl') fun r _ => ?_)
  refine hp o s₁ _ ⟨⟨l', hl'.quiet fun _ => rfl⟩, hmade,
    fun p hp' => (hseated p hp').quiet fun _ => rfl, ?_⟩
  intro fd' hne
  exact (taken_same rfl).trans (htaken fd' hne)

theorem remoteObjects_snoc (remotes : List Remote) (r : Remote) (base : List (Nat × Object Kind)) :
    (((r.block, ⟨.block, []⟩) :: r.ctx.objects) ++ (remoteObjects remotes ++ base)).Perm
      (remoteObjects (remotes ++ [r]) ++ base) := by
  have hsnoc : remoteObjects (remotes ++ [r]) ++ base =
      (remotes.flatMap (fun r => r.ctx.objects) ++ (r.ctx.objects ++
        remotes.map (fun r => (r.block, ⟨.block, []⟩)))) ++ (r.block, ⟨.block, []⟩) :: base := by
    simp [remoteObjects]
  rw [hsnoc]
  refine List.Perm.trans (.cons _ ?_) List.perm_middle.symm
  simpa [remoteObjects] using List.perm_append_comm_assoc _ _ _

theorem openRemotes_meets {fds : List D} {remotes : List Remote} {a b : Option Nat}
    {base : List (Nat × Object Kind)} {post : Option (List Remote) → Process → Log D → Prop}
    (hmid : ∀ s h v l, Seats s h l → mid s h v) (hm : Made s₀ s (remoteObjects remotes ++ base))
    (hs : Seats s h l) (hl : l.map Prod.snd = remotes) (hn : (l.map Prod.fst ++ fds).Nodup)
    (ht : ∀ fd ∈ fds, taken fd h = [])
    (hp : ∀ o s' h', (∃ l', Seats s' h' l') → (∀ rs ∈ o, Made s₀ s' (remoteObjects rs ++ base) ∧
      rs.length = remotes.length + fds.length ∧ ∃ l', Seats s' h' l' ∧ l'.map Prod.snd = rs) →
      post o s' h') :
    Meets (Kept me) mid True (openRemotes a b (fds.map some) remotes) s h post := by
  induction fds generalizing s h l remotes with
  | nil =>
    refine hp _ s h ⟨l, hs⟩ fun rs hrs => ?_
    cases hrs
    exact ⟨hm, rfl, l, hs, hl⟩
  | cons fd fds ih =>
    have hfd : fd ∉ l.map Prod.fst := fun hmem =>
      (List.nodup_append.mp hn).2.2 fd hmem fd List.mem_cons_self rfl
    have hnext : (l.map Prod.fst ++ [fd] ++ fds).Nodup := by
      rw [List.append_assoc]
      exact hn
    refine Meets.bind (Meets.require (fun _ _ => ?_) fun _ => trivial)
    refine Meets.bind (prepareCtx_meets fun o s₁ hm₁ hprep => ?_)
    obtain ⟨gs, hgs⟩ := hm₁
    cases o with
    | none => exact hp none s₁ h ⟨l, hs.frame hgs⟩ (by simp)
    | some p =>
      obtain ⟨ctx, my⟩ := p
      refine Meets.bind (ppServerExchDest_meets hmid (hprep _ rfl) hs hfd (ht fd List.mem_cons_self)
        fun o s₂ h₂ he => ?_)
      refine Meets.bind (Meets.require (fun _ _ => ?_) fun _ => trivial)
      cases o with
      | none => exact hp none s₂ h₂ he.seats (by simp)
      | some q =>
        refine ih ((hm.trans (he.made q rfl)).perm (remoteObjects_snoc remotes ⟨ctx, my, q.1, q.2⟩ base))
          (he.seated q rfl) ?_ ?_ (fun fd' hfd' => ?_) fun o s' h' hseats ho =>
          hp o s' h' hseats fun rs hrs => ?_
        · rw [List.map_append, hl]
          rfl
        · rw [List.map_append]
          exact hnext
        · have hne : fd' ≠ fd := by
            rintro rfl
            exact (List.nodup_append.mp hnext).2.2 fd' (by simp) fd' hfd' rfl
          rw [he.taken fd' hne]
          exact ht fd' (List.mem_cons_of_mem _ hfd')
        · obtain ⟨hmade, hlen, hl'⟩ := ho rs hrs
          refine ⟨hmade, ?_, hl'⟩
          rw [hlen, List.length_append, List.length_cons]
          simp only [List.length_cons, List.length_nil]
          omega

end Server

section Open

variable {me : D} {mid : Process → Log D → SocketCall D → Prop} {s : Process} {h : Log D}

omit [DecidableEq D] in
theorem kvOpen_meets {rely : Log D → (v : SocketCall D) → v.Answer → Prop} {servername : Bool}
    {n : Nat} {post : Option KVHandle → Process → Log D → Prop}
    (hfail : ∀ s', (∃ gs, Made s s' gs) → post none s' h)
    (hk : ∀ block devList a b s₁, Made s s₁ (baseObjects block devList a b) →
      Meets rely mid True (openHandle servername n block devList a b) s₁ h post) :
    Meets rely mid True (kvOpen servername n) s h post := by
  have harray : ∀ {s₁ : Process} {gs} {post : Option Nat → Process → Log D → Prop}, Made s s₁ gs →
      (∀ o s', Made s s' (o.toList.map (fun id => (id, ⟨.block, []⟩)) ++ gs) → post o s' h) →
      Meets rely mid True (acquire .block []) s₁ h post :=
    fun hm hp => hm.acquire (by simp) (fun s' hm' => hp none s' hm') fun id s' hm' => hp (some id) s' hm'
  unfold kvOpen
  refine Meets.bind ((Made.refl s).acquire (by simp) (fun _ _ => ?_) fun block s₁ h₁ => ?_)
  · exact Meets.bind (Meets.require (fun _ ho => by cases ho) fun _ => trivial)
  refine Meets.bind (Meets.require (fun block' hb => ?_) fun _ => trivial)
  cases hb
  refine Meets.bind (h₁.acquire (by simp) (fun s' hm => hfail s' ⟨_, hm⟩) fun devList s₂ h₂ => ?_)
  refine Meets.bind (Meets.gets ?_)
  by_cases hd : (!s₂.host.devices) = true
  · rw [if_pos hd]
    exact hfail s₂ ⟨_, h₂⟩
  · rw [if_neg hd]
    refine Meets.bind (harray h₂ fun a s₃ h₃ => ?_)
    refine Meets.bind (harray h₃ fun b s₄ h₄ => ?_)
    exact hk block devList a b s₄ (h₄.perm (List.perm_append_comm_assoc _ _ _))

theorem kvOpen_server {n : Nat} (hmid : ∀ s h v l, Seats s h l → mid s h v) (hi : Idle h)
    (ha : accepted h = []) :
    Meets (Kept me) mid True (kvOpen false n) s h (fun o s' h' => (∃ l, Seats s' h' l) ∧
      ∀ handle ∈ o, Made s s' handle.objects ∧ handle.remotes.length = n ∧
        ∃ l, Seats s' h' l ∧ l.map Prod.snd = handle.remotes) := by
  have hstart : ∀ {s h}, Idle h → Seats s h ([] : List (D × Remote)) := fun hi =>
    ⟨List.nodup_nil, List.nodup_nil, by simp, by simp, by simp, fun fd _ => hi.sent fd⟩
  refine kvOpen_meets (fun s' _ => ⟨⟨[], hstart hi⟩, by simp⟩) fun block devList a b s₁ h₁ => ?_
  unfold openHandle
  refine Meets.bind (Meets.bind (listenToWebsocket_meets n
    (fun s' h v _ hi => hmid s' h v [] (hstart hi)) hi ha fun o s₂ h₂ hm hi₂ ho => ?_))
  cases o with
  | none => exact ⟨⟨[], hstart hi₂⟩, by simp⟩
  | some fds =>
    obtain ⟨hn, hlen⟩ := ho fds rfl
    refine Meets.bind (openRemotes_meets hmid (h₁.trans hm) (hstart hi₂) rfl hn (fun fd _ => hi₂.taken fd)
      fun o s₃ h₃ hseats ho => ?_)
    cases o with
    | none => exact ⟨hseats, by simp⟩
    | some rs =>
      obtain ⟨hmade, hrs, hl⟩ := ho rs rfl
      refine ⟨hseats, fun handle hh => ?_⟩
      cases hh
      exact ⟨hmade, hrs.trans (by simpa using hlen), hl⟩

/-- Where the client fails, it made no call or is through with the exchange. -/
theorem kvOpen_client {n : Nat} (hmid : ∀ s h v, mid s h v) (hi : Idle h) (ha : accepted h = []) :
    Meets (Kept me) mid True (kvOpen true n) s h (fun o s' h' =>
      (o = none → h' = h ∨ ∃ my dest, Told me my h' ∧ Heard me dest h') ∧
      ∀ handle ∈ o, Made s s' handle.objects ∧
        ∃ r, handle.remotes = [r] ∧ Connected s' r ∧ Told me r.my h' ∧ Heard me r.dest h') := by
  refine kvOpen_meets (fun s' _ => ⟨fun _ => .inl rfl, by simp⟩) fun block devList a b s₁ h₁ => ?_
  have hhosts : (remoteHosts true n : Net D _) = pure (some [none]) := rfl
  unfold openHandle
  rw [hhosts]
  refine Meets.bind (Meets.bind ?_)
  refine Meets.bind (Meets.require (fun _ _ => ?_) fun _ => trivial)
  refine Meets.bind (prepareCtx_meets fun o s₂ _ hprep => ?_)
  cases o with
  | none => exact ⟨fun _ => .inl rfl, fun handle hh => by cases hh⟩
  | some p =>
    obtain ⟨ctx, my⟩ := p
    obtain ⟨hm, hq, hr, hmy⟩ := hprep _ rfl
    have hqp : ∀ gs : List (Nat × Object Kind), ctx.qp ∈ (gs ++ ctx.objects).map Prod.fst := by
      simp [Context.objects]
    have hlt : ctx.qp < s₂.registry.count := by
      obtain ⟨g, hg, hgq⟩ := List.mem_map.mp (hqp [])
      exact hgq ▸ live_lt (hm.since.live hg)
    refine Meets.bind (ppClientExchDest_meets hmid hmy hlt hi ha fun o s₃ h₃ _ ho => ?_)
    refine Meets.bind (Meets.require (fun _ _ => ?_) fun _ => trivial)
    refine Meets.bind (Meets.bind (Meets.require (fun q hq' => ?_) fun _ => trivial))
    obtain ⟨hblock, hsame, htold, hheard⟩ := ho q hq'
    refine Meets.bind (ppConnectCtx_meets (hm.trans hblock) (hqp _) (hsame.trans hq) (fun s₄ _ => ?_)
      fun s₄ hm₄ hq₄ => ?_)
    · exact ⟨fun _ => .inr ⟨_, _, htold, hheard⟩, fun handle hh => by cases hh⟩
    · refine ⟨fun ho => (by cases ho), fun handle hh => ?_⟩
      cases hh
      refine ⟨(h₁.trans hm₄).perm ?_, _, rfl, ⟨hq₄, ?_, hr, ?_⟩, htold, hheard⟩
      · exact remoteObjects_snoc [] ⟨ctx, my, q.1, q.2⟩ _
      · have hhost : s₄.host = s₂.host := hm₄.host.trans hm.host.symm
        exact ⟨hhost ▸ hmy.lid, hhost ▸ hmy.qpn, hmy.psn, hmy.gid⟩
      · obtain ⟨g, hg, hgq⟩ := List.mem_map.mp (hqp [(q.1, ⟨.block, []⟩)])
        exact hgq ▸ live_lt (hm₄.since.live hg)

end Open

end NetworkOptimization.Opened
