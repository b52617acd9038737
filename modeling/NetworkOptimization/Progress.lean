import Mathlib.Data.Fintype.Card
import NetworkOptimization.Pairing

namespace NetworkOptimization.Progress

open SequentialCode Postconditions Verbs Devices Closing Opening Opened Pairing Runs
open Exchange.LowLatency (PingpongDest msgSize)
open Function (update)

variable {D : Type}

def joined (h : Log D) : Bool :=
  h.any (fun e => match e with
    | ⟨.connect _, true⟩ => true
    | _ => false)

theorem joined_append (h h' : Log D) : joined (h ++ h') = (joined h || joined h') := List.any_append

variable [DecidableEq D]

/-- What an event makes of the server's listening to the socket `me`. -/
def opens (me : D) (listens : Bool) : Event D → Bool
  | ⟨.listen _ _, _⟩ => true
  | ⟨.close fd, _⟩ => if fd = me then false else listens
  | _ => listens

def opened (me : D) (h : Log D) : Bool := h.foldl (opens me) false

theorem opened_snoc (me : D) (h : Log D) (e : Event D) :
    opened me (h ++ [e]) = opens me (opened me h) e := by
  rw [opened, List.foldl_append]
  rfl

def Smooth (me : D) (h : Log D) (v : SocketCall D) (r : v.Answer) : Prop :=
  Kept me h v r ∧ match v, r with
    | .socket, r => r.isSome
    | .connect _, r => r = true
    | .bind _, r => r = true
    | .listen _ _, _ => True
    | .accept _, r => r.isSome
    | .write _ msg, r => r = some msg.length
    | .read _ _, r => ∃ msg, r = some msg ∧ msg ≠ []
    | .close _, _ => True

def ClientAt (me : D) (h : Log D) : SocketCall D → Prop
  | .socket => joined h = false
  | .connect fd => fd = me ∧ joined h = false
  | .write fd _ => fd = me ∧ joined h = true
  | .read fd size => fd = me ∧ 0 < size ∧ joined h = true ∧ sent me h ≠ [] ∧ taken me h = []
  | .close _ => True
  | .bind _ | .listen _ _ | .accept _ => False

def ServerAt (me : D) (n : Nat) (h : Log D) : SocketCall D → Prop
  | .socket | .bind _ | .listen _ _ => True
  | .accept _ => opened me h = true ∧ (accepted h).length < n
  | .close fd => fd = me → (accepted h).length = n
  | .write fd _ => fd ∈ accepted h ∧ (accepted h).length = n
  | .read fd size => 0 < size ∧ fd ∈ accepted h ∧ (accepted h).length = n ∧
      ((sent fd h = [] ∧ taken fd h = []) ∨ ((taken fd h).length = msgSize ∧ sent fd h ≠ []))
  | .connect _ => False

section Quiet

omit [DecidableEq D]

variable {rely : Log D → (v : SocketCall D) → v.Answer → Prop}
    {mid : Process → Log D → SocketCall D → Prop}
  {s : Process} {h : Log D}

theorem modify_quiet {id : Nat} {since : QpState} {f : QueuePair → QueuePair}
    {post : Int → Process → Log D → Prop} (hp : ∀ c s', post c s' h) :
    Meets rely mid True (ibvModifyQp id since f) s h post :=
  Meets.locally (fun c s' _ => hp c s') fun _ => trivial

theorem connect_quiet {ctx : Context} {port : Nat} {psn : UInt32} {mtu : Int} {sl : Nat}
    {dest : PingpongDest}
    {gidx : Int} {post : Int → Process → Log D → Prop} (hp : ∀ c s', post c s' h) :
    Meets rely mid True (ppConnectCtx ctx port psn mtu sl dest gidx) s h post := by
  unfold ppConnectCtx
  refine Meets.bind (modify_quiet fun c s₁ => ?_)
  by_cases hc : c ≠ 0
  · rw [if_pos hc]
    exact hp 1 s₁
  · rw [if_neg hc]
    refine Meets.bind (modify_quiet fun c s₂ => ?_)
    by_cases hc : c ≠ 0
    · rw [if_pos hc]
      exact hp 1 s₂
    · rw [if_neg hc]
      exact hp 0 s₂

theorem free_quiet {id : Nat} {post : Unit → Process → Log D → Prop} (hp : ∀ s', post () s' h) :
    Meets rely mid True (free id) s h post :=
  Meets.locally (fun _ s' _ => hp s') fun _ => trivial

theorem print_length {my : PingpongDest} {msg wgid text : List UInt8}
    (hp : my.print msg wgid = some text) :
    text.length = msg.length := by
  unfold PingpongDest.print Exchange.printDest at hp
  obtain ⟨wgid', -, hp⟩ := Option.bind_eq_some_iff.mp hp
  obtain ⟨word, -, hp⟩ := Option.bind_eq_some_iff.mp hp
  obtain ⟨t, -, hp⟩ := Option.bind_eq_some_iff.mp hp
  exact ControlMessages.memcpy_length hp

theorem message_quiet {my : PingpongDest} {msg : List UInt8} {post : List UInt8 → Process → Log D → Prop}
    (hp : ∀ text, text.length = msg.length → post text s h) :
    Meets rely mid True (message my msg) s h post := by
  have hprint : ∀ t, my.print msg s.host.wgid = some t → t.length = msg.length := fun t => print_length
  unfold message
  generalize my.print msg = print at hprint ⊢
  exact Meets.bind (Meets.gets (Meets.require (fun t ht => hp t (hprint t ht)) fun _ => trivial))

end Quiet

section Client

variable {me : D} {s : Process} {h : Log D}

theorem resolve_client {post : Option D → Process → Log D → Prop} (hi : Idle h) (hj : joined h = false)
    (hp : ∀ s' h', Made s s' [] → Idle h' → joined h' = true → post (some me) s' h')
    (hfail : ∀ s' h', post none s' h') :
    Meets (Smooth me) (fun _ => ClientAt me) True (resolve (fun fd => system (.connect fd))) s h post := by
  unfold resolve
  refine Meets.bind ((Made.refl s).acquire (by simp) (fun s' _ => hfail s' h) fun service s₁ h₁ => ?_)
  refine Meets.bind (h₁.acquire (by simp) (fun s' hm => ?_) fun res s₂ h₂ => ?_)
  · exact Meets.bind (free_meets hm (by simp) fun s' _ _ => hfail s' h)
  · refine Meets.bind (Meets.gets (Meets.bind ?_))
    cases s₂.host.addresses with
    | zero =>
      refine Meets.bind (free_meets h₂ (by simp) fun s₃ h₃ _ => ?_)
      exact Meets.bind (free_meets h₃ (by simp) fun s₄ _ _ => hfail s₄ h)
    | succ k =>
      refine Meets.bind (Meets.request hj fun r hr => ?_)
      obtain ⟨hme, hr⟩ := hr
      obtain ⟨fd, rfl⟩ := Option.isSome_iff_exists.mp hr
      obtain rfl := hme fd rfl
      have hj₁ : joined (h ++ [⟨.socket, some fd⟩]) = false := by
        rw [joined_append, hj]
        rfl
      refine Meets.bind (Meets.request ⟨rfl, hj₁⟩ fun r hr => ?_)
      obtain rfl : r = true := hr.2
      have hi₂ : Idle (h ++ [⟨.socket, some fd⟩] ++ [⟨.connect fd, true⟩]) :=
        (hi.snoc (fun _ => rfl) fun _ => rfl).snoc (fun _ => rfl) fun _ => rfl
      refine Meets.bind (free_meets h₂ (by simp) fun s₃ h₃ _ => ?_)
      refine Meets.bind (free_meets h₃ (by simp) fun s₄ h₄ _ => hp s₄ _ h₄ hi₂ ?_)
      rw [joined_append, Bool.or_eq_true]
      exact .inr rfl

theorem msgSize_pos : 0 < msgSize := by decide

omit [DecidableEq D] in
theorem joined_later {h : Log D} (hj : joined h = true) (e : Event D) : joined (h ++ [e]) = true := by
  rw [joined_append, hj]
  rfl

theorem exchange_client {ctx : Context} {my : PingpongDest}
    {post : Option (Nat × PingpongDest) → Process → Log D → Prop}
    (hmy : Own s ctx my) (hi : Idle h) (hj : joined h = false)
    (hp : ∀ o s' h', joined h' = true → msgSize < (sent me h').length → post (some o) s' h')
    (hfail : ∀ s' h', post none s' h') :
    Meets (Smooth me) (fun _ => ClientAt me) True (ppClientExchDest my) s h post := by
  unfold ppClientExchDest
  refine Meets.bind (resolve_client hi hj (fun s₁ h₁ hm hi₁ hj₁ => ?_) hfail)
  have hmy₁ : Own s₁ ctx my := ⟨hm.host ▸ hmy.lid, hm.host ▸ hmy.qpn, hmy.psn, hmy.gid⟩
  have hend : ∀ (o : Option (Nat × PingpongDest)) s' h',
      (o.isSome = true → joined h' = true ∧ msgSize < (sent me h').length) →
        Meets (Smooth me) (fun _ => ClientAt me) True (do system (.close me); return o : Net D _) s'
        h' post := by
    intro o s' h' ho
    refine Meets.bind (Meets.request trivial fun r _ => ?_)
    cases o with
    | none => exact hfail s' _
    | some p =>
      obtain ⟨hjo, hlt⟩ := ho rfl
      refine hp p s' _ (joined_later hjo _) ?_
      rw [sent_snoc]
      simpa [written] using hlt
  have hnone : ∀ s' h', Meets (Smooth me)
    (fun _ => ClientAt me) True (do system (.close me); return none : Net D _)
      s' h' post := fun s' h' => hend none s' h' (by simp)
  refine Meets.bind ?_
  unfold clientExchange
  refine Meets.bind (Meets.gets (Meets.bind (message_meets hmy₁ s₁.host.msg_length fun text ht => ?_)))
  refine Meets.bind (Meets.request ⟨rfl, hj₁⟩ fun r hr => ?_)
  obtain rfl : r = some text.length := hr.2
  rw [ht.1, if_neg (not_not.mpr rfl)]
  have hj₂ := joined_later hj₁ ⟨.write me text, some msgSize⟩
  have hsent : sent me (h₁ ++ [⟨.write me text, some msgSize⟩]) = text := by
    rw [sent_snoc, hi₁.sent]
    simp [written, List.take_of_length_le ht.1.le]
  have htext : text ≠ [] := fun h => by
    have := ht.1
    rw [h] at this
    exact absurd this msgSize_pos.ne
  refine Meets.bind (Meets.request ⟨rfl, msgSize_pos, hj₂, ?_, ?_⟩ fun r hr => ?_)
  · rwa [hsent]
  · rw [taken_snoc, hi₁.taken]
    rfl
  obtain ⟨-, msg, rfl, -⟩ := hr
  by_cases hl : msg.length = msgSize
  · change Meets _ _ _ (if _ then _ else _) _ _ _
    rw [if_neg (not_not.mpr hl)]
    have hj₃ := joined_later hj₂ ⟨.read me msgSize, some msg⟩
    refine Meets.bind (Meets.request ⟨rfl, hj₃⟩ fun r hr => ?_)
    obtain rfl : r = some done.length := hr.2
    refine parse_meets (Made.refl s₁) (fun s' _ _ => hnone s' _) fun block dest s' _ _ _ => ?_
    refine hend _ s' _ fun _ => ⟨joined_later hj₃ _, ?_⟩
    rw [sent_snoc, sent_snoc, hsent]
    simp [written, ht.1, done]
  · change Meets _ _ _ (if _ then _ else _) _ _ _
    rw [if_pos hl]
    exact hnone s₁ _

theorem kvOpen_client {n : Nat} (hi : Idle h) (hj : joined h = false) :
    Meets (Smooth me) (fun _ => ClientAt me) True (kvOpen true n) s h (fun o _ h' =>
      o.isSome = true → joined h' = true ∧ msgSize < (sent me h').length) := by
  refine kvOpen_meets (fun s' _ => by simp) fun block devList a b s₁ h₁ => ?_
  have hhosts : (remoteHosts true n : Net D _) = pure (some [none]) := rfl
  unfold openHandle
  rw [hhosts]
  refine Meets.bind (Meets.bind ?_)
  refine Meets.bind (Meets.require (fun _ _ => ?_) fun _ => trivial)
  refine Meets.bind (prepareCtx_meets fun o s₂ _ hprep => ?_)
  cases o with
  | none => exact fun ho => by cases ho
  | some p =>
    obtain ⟨ctx, my⟩ := p
    refine Meets.bind (exchange_client (hprep _ rfl).my hi hj (fun q s₃ h₃ hj₃ hlt => ?_) fun s₃ h₃ => ?_)
    · refine Meets.bind (Meets.require (fun _ _ => ?_) fun _ => trivial)
      refine Meets.bind (Meets.bind (Meets.bind (connect_quiet fun c s₄ => ?_)))
      by_cases hc : c ≠ 0
      · rw [if_pos hc]
        exact fun ho => by cases ho
      · rw [if_neg hc]
        exact fun _ => ⟨hj₃, hlt⟩
    · refine Meets.bind (Meets.require (fun _ _ => ?_) fun _ => trivial)
      exact Meets.bind (Meets.bind (Meets.require (fun _ ho => by cases ho) fun _ => trivial))

end Client

section Server

variable {me : D} {n : Nat} {s : Process} {h : Log D}

theorem resolve_server {post : Option D → Process → Log D → Prop} (hi : Idle h) (ha : accepted h = [])
    (hp : ∀ s' h', Idle h' → accepted h' = [] → post (some me) s' h') (hfail : ∀ s' h', post none s' h') :
    Meets (Smooth me) (fun _ => ServerAt me n) True (resolve (fun fd => system (.bind fd))) s h post := by
  unfold resolve
  refine Meets.bind ((Made.refl s).acquire (by simp) (fun s' _ => hfail s' h) fun service s₁ h₁ => ?_)
  refine Meets.bind (h₁.acquire (by simp) (fun s' hm => ?_) fun res s₂ h₂ => ?_)
  · exact Meets.bind (free_meets hm (by simp) fun s' _ _ => hfail s' h)
  · refine Meets.bind (Meets.gets (Meets.bind ?_))
    cases s₂.host.addresses with
    | zero => exact Meets.bind (free_quiet fun s₃ => Meets.bind (free_quiet fun s₄ => hfail s₄ h))
    | succ k =>
      refine Meets.bind (Meets.request trivial fun r hr => ?_)
      obtain ⟨hme, hr⟩ := hr
      obtain ⟨fd, rfl⟩ := Option.isSome_iff_exists.mp hr
      obtain rfl := hme fd rfl
      refine Meets.bind (Meets.request trivial fun r hr => ?_)
      obtain rfl : r = true := hr.2
      refine Meets.bind (free_quiet fun s₃ => Meets.bind (free_quiet fun s₄ => hp s₄ _ ?_ ?_))
      · exact (hi.snoc (fun _ => rfl) fun _ => rfl).snoc (fun _ => rfl) fun _ => rfl
      · rw [accepted_append, accepted_append, ha]
        rfl

theorem acceptAll_server {post : Option (List D) → Process → Log D → Prop} (k : Nat) {fds : List D}
    (hi : Idle h)
    (ha : accepted h = fds) (hn : fds.Nodup) (ho : opened me h = true) (hk : fds.length + k = n)
    (hp : ∀ fds' h', Idle h' → accepted h' = fds' → fds'.Nodup → fds'.length = n → post (some fds') s h') :
    Meets (Smooth me) (fun _ => ServerAt me n) True (acceptAll me k fds) s h post := by
  induction k generalizing h fds with
  | zero => exact hp fds h hi ha hn hk
  | succ k ih =>
    refine Meets.bind (Meets.request ⟨ho, by rw [ha]; omega⟩ fun r hr => ?_)
    obtain ⟨hkept, hr⟩ := hr
    obtain ⟨connfd, rfl⟩ := Option.isSome_iff_exists.mp hr
    have hnew : connfd ∉ fds := ha ▸ hkept connfd rfl
    refine ih (hi.snoc (fun _ => rfl) fun _ => rfl) ?_ ?_ ?_ ?_
    · rw [accepted_append, ha]
      rfl
    · refine List.nodup_append.mpr ⟨hn, List.nodup_singleton _, fun i hi j hj => ?_⟩
      rintro rfl
      exact hnew (List.mem_singleton.mp hj ▸ hi)
    · rw [opened_snoc]
      exact ho
    · rw [List.length_append, List.length_singleton]
      omega

theorem listen_server {post : Option (List D) → Process → Log D → Prop} (hi : Idle h)
    (ha : accepted h = [])
    (hp : ∀ fds s' h', Idle h' → accepted h' = fds → fds.Nodup → fds.length = n → post (some fds) s' h')
    (hfail : ∀ s' h', post none s' h') :
    Meets (Smooth me) (fun _ => ServerAt me n) True (listenToWebsocket n) s h post := by
  unfold listenToWebsocket
  refine Meets.bind (resolve_server hi ha (fun s₁ h₁ hi₁ ha₁ => ?_) hfail)
  refine Meets.bind (Meets.request trivial fun r _ => ?_)
  refine Meets.bind (acceptAll_server n (hi₁.snoc (fun _ => rfl) fun _ => rfl) ?_ List.nodup_nil ?_
    (Nat.zero_add n)
    fun fds h₂ hi₂ ha₂ hn₂ hlen => ?_)
  · rw [accepted_append, ha₁]
    rfl
  · rw [opened_snoc]
    rfl
  · refine Meets.bind (Meets.request (fun _ => ha₂ ▸ hlen) fun r _ => ?_)
    refine hp fds s₁ _ (hi₂.snoc (fun _ => rfl) fun _ => rfl) ?_ hn₂ hlen
    rw [accepted_append, ha₂]
    exact List.append_nil fds

structure Beside (fd : D) (h h' : Log D) : Prop where
  accepted : accepted h' = accepted h
  sent : ∀ fd', fd' ≠ fd → sent fd' h' = sent fd' h
  taken : ∀ fd', fd' ≠ fd → taken fd' h' = taken fd' h

theorem Beside.refl (fd : D) (h : Log D) : Beside fd h h := ⟨rfl, fun _ _ => rfl, fun _ _ => rfl⟩

theorem Beside.snoc {fd : D} {h h' : Log D} (hb : Beside fd h h') {e : Event D} (he : entered e = [])
    (hw : ∀ fd', fd' ≠ fd → written fd' e = []) (ho : ∀ fd', fd' ≠ fd → obtained fd' e = []) :
    Beside fd h (h' ++ [e]) := by
  refine ⟨?_, fun fd' hne => ?_, fun fd' hne => ?_⟩
  · rw [accepted_snoc, he, List.append_nil, hb.accepted]
  · rw [sent_snoc, hw fd' hne, List.append_nil, hb.sent fd' hne]
  · rw [taken_snoc, ho fd' hne, List.append_nil, hb.taken fd' hne]

theorem exchange_server {ctx : Context} {my : PingpongDest} {fd : D}
    {post : Option (Nat × PingpongDest) → Process → Log D → Prop} (hfd : fd ∈ accepted h)
    (hn : (accepted h).length = n) (hs : sent fd h = []) (ht : taken fd h = [])
    (hp : ∀ o s' h', Beside fd h h' → sent fd h' ≠ [] → post (some o) s' h')
    (hfail : ∀ s' h', post none s' h') :
    Meets (Smooth me) (fun _ => ServerAt me n) True (ppServerExchDest ctx fd my) s h post := by
  unfold ppServerExchDest
  have hend : ∀ (o : Option (Nat × PingpongDest)) s' h', Beside fd h h' →
    (o.isSome = true → sent fd h' ≠ []) →
      Meets (Smooth me) (fun _ => ServerAt me n) True (do system (.close fd); return o : Net D _) s'
      h' post := by
    intro o s' h' hb ho
    refine Meets.bind (Meets.request (fun _ => hb.accepted ▸ hn) fun r _ => ?_)
    cases o with
    | none => exact hfail s' _
    | some p =>
      refine hp p s' _ (hb.snoc rfl (fun _ _ => rfl) fun _ _ => rfl) ?_
      rw [sent_snoc]
      simpa [written] using ho rfl
  refine Meets.bind ?_
  unfold serverExchange
  refine Meets.bind (Meets.request ⟨msgSize_pos, hfd, hn, .inl ⟨hs, ht⟩⟩ fun r hr => ?_)
  obtain ⟨-, msg, rfl, -⟩ := hr
  have hb₁ : Beside fd h (h ++ [⟨.read fd msgSize, some msg⟩]) :=
    (Beside.refl fd h).snoc rfl (fun _ _ => rfl) fun fd' hne => obtained_read hne _ _
  by_cases hl : msg.length = msgSize
  · change Meets _ _ _ (if _ then _ else _) _ _ _
    rw [if_neg (not_not.mpr hl)]
    refine Meets.bind (parse_meets (Made.refl s) (fun s' _ _ => hend none s' _ hb₁ (by simp))
      fun block dest s₁ _ _ _ => ?_)
    refine Meets.bind (connect_quiet fun c s₂ => ?_)
    by_cases hc : c ≠ 0
    · rw [if_pos hc]
      exact Meets.bind (free_quiet fun s₃ => hend none s₃ _ hb₁ (by simp))
    · rw [if_neg hc]
      refine Meets.bind (message_quiet fun text htext => ?_)
      have hlen : text.length = msgSize := htext.trans hl
      refine Meets.bind (Meets.request ⟨hb₁.accepted ▸ hfd, hb₁.accepted ▸ hn⟩ fun r hr => ?_)
      obtain rfl : r = some text.length := hr.2
      rw [hlen, if_neg (not_not.mpr rfl)]
      have hb₂ := hb₁.snoc (e := ⟨.write fd text, some msgSize⟩) rfl (fun fd' hne => if_neg (Ne.symm hne))
        fun _ _ => rfl
      have hsent : sent fd (h ++ [⟨.read fd msgSize, some msg⟩] ++ [⟨.write fd text, some msgSize⟩])
        ≠ [] := by
        rw [sent_snoc, sent_snoc, hs]
        have hne : text ≠ [] := fun h => by
          rw [h] at hlen
          exact absurd hlen msgSize_pos.ne
        simpa [written, ← hlen] using hne
      have htaken : (taken fd (h ++ [⟨.read fd msgSize, some msg⟩] ++
        [⟨.write fd text, some msgSize⟩])).length =
          msgSize := by
        rw [taken_snoc, taken_snoc, ht]
        simpa [obtained] using hl
      refine Meets.bind (Meets.request ⟨msgSize_pos, hb₂.accepted ▸ hfd, hb₂.accepted ▸ hn,
        .inr ⟨htaken, hsent⟩⟩ fun r _ => ?_)
      refine hend _ s₂ _ (hb₂.snoc rfl (fun _ _ => rfl) fun fd' hne => obtained_read hne _ _) fun _ => ?_
      rw [sent_snoc]
      simpa [written] using hsent
  · change Meets _ _ _ (if _ then _ else _) _ _ _
    rw [if_pos hl]
    exact hend none s _ hb₁ (by simp)

theorem openRemotes_server {fds : List D} {remotes : List Remote} {a b : Option Nat}
    {post : Option (List Remote) → Process → Log D → Prop} (hsub : ∀ fd ∈ fds, fd ∈ accepted h)
    (hnd : fds.Nodup)
    (hn : (accepted h).length = n) (hnew : ∀ fd ∈ fds, sent fd h = [] ∧ taken fd h = [])
    (hold : ∀ fd ∈ accepted h, fd ∉ fds → sent fd h ≠ [])
    (hp : ∀ rs s' h', (accepted h').length = n → (∀ fd ∈ accepted h', sent fd h' ≠ []) →
      post (some rs) s' h')
    (hfail : ∀ s' h', post none s' h') :
    Meets (Smooth me) (fun _ => ServerAt me n) True (openRemotes a b (fds.map some) remotes) s h post := by
  induction fds generalizing s h remotes with
  | nil => exact hp remotes s h hn fun fd hfd => hold fd hfd List.not_mem_nil
  | cons fd fds ih =>
    obtain ⟨hs, ht⟩ := hnew fd List.mem_cons_self
    refine Meets.bind (Meets.require (fun _ _ => ?_) fun _ => trivial)
    refine Meets.bind (prepareCtx_meets fun o s₁ _ _ => ?_)
    cases o with
    | none => exact hfail s₁ h
    | some p =>
      refine Meets.bind (exchange_server (hsub fd List.mem_cons_self) hn hs ht (fun q s₂ h₂ hb hsent => ?_)
        fun s₂ h₂ => ?_)
      · refine Meets.bind (Meets.require (fun _ _ => ?_) fun _ => trivial)
        have hother : ∀ fd' ∈ fds, fd' ≠ fd := by
          rintro fd' hfd' rfl
          exact (List.nodup_cons.mp hnd).1 hfd'
        refine ih (fun fd' hfd' => ?_) (List.nodup_cons.mp hnd).2 (hb.accepted ▸ hn) (fun fd' hfd' => ?_)
          fun fd' hfd' hno => ?_
        · rw [hb.accepted]
          exact hsub fd' (List.mem_cons_of_mem fd hfd')
        · rw [hb.sent fd' (hother fd' hfd'), hb.taken fd' (hother fd' hfd')]
          exact hnew fd' (List.mem_cons_of_mem fd hfd')
        · by_cases he : fd' = fd
          · rwa [he]
          · rw [hb.sent fd' he]
            rw [hb.accepted] at hfd'
            exact hold fd' hfd' fun hm => (List.mem_cons.mp hm).elim he hno
      · exact Meets.bind (Meets.require (fun _ _ => hfail s₂ h₂) fun _ => trivial)

theorem kvOpen_server (hi : Idle h) (ha : accepted h = []) :
    Meets (Smooth me) (fun _ => ServerAt me n) True (kvOpen false n) s h (fun o _ h' =>
      o.isSome = true → (accepted h').length = n ∧ ∀ fd ∈ accepted h', sent fd h' ≠ []) := by
  refine kvOpen_meets (fun s' _ => by simp) fun block devList a b s₁ _ => ?_
  unfold openHandle
  refine Meets.bind (Meets.bind (listen_server hi ha (fun fds s₂ h₂ hi₂ ha₂ hn hlen => ?_)
    fun s₂ h₂ => ?_))
  · refine Meets.bind (openRemotes_server (fun fd hfd => ha₂ ▸ hfd) hn (ha₂ ▸ hlen)
      (fun fd _ => ⟨hi₂.sent fd, hi₂.taken fd⟩) (fun fd hfd hno => absurd (ha₂ ▸ hfd) hno)
      (fun rs s₃ h₃ hlen₃ hsent => ?_) fun s₃ h₃ => ?_)
    · exact fun _ => ⟨hlen₃, hsent⟩
    · exact fun ho => by cases ho
  · exact fun ho => by cases ho

end Server

variable {ι : Type} [DecidableEq ι]

def Party.asks (p : Party ι) : Bool :=
  match p.stop with
  | .done _ => false
  | .waiting _ _ => true

omit [DecidableEq ι] in
theorem Party.stop_ne_done {p : Party ι} (h : Party.asks p = true) (o : Option KVHandle) :
    p.stop ≠ .done o := by
  intro hs
  rw [asks, hs] at h
  cases h

def whole : SocketCall D → Nat → Prop
  | .write _ msg, m => m = msg.length
  | .read _ _, m => 0 < m
  | .socket, _ | .connect _, _ | .bind _, _ | .listen _ _, _ | .accept _, _ | .close _, _ => True

def Party.Uncut (p : Party ι) (o : Outcome) : Prop :=
  ∀ v k, p.stop = .waiting v k → ∃ m, o = .ok m ∧ whole v m

def Party.uncut (p : Party ι) (o : Outcome) : Bool :=
  match p.stop, o with
  | .done _, _ => true
  | .waiting _ _, .fails => false
  | .waiting (.write _ msg) _, .ok m => m = msg.length
  | .waiting (.read _ _) _, .ok m => 0 < m
  | .waiting _ _, .ok _ => true

omit [DecidableEq ι] in
theorem Party.uncut_sound {p : Party ι} {o : Outcome} (h : Party.uncut p o = true) : Party.Uncut p o := by
  intro v k hs
  cases o with
  | fails => simp [uncut, hs] at h
  | ok m =>
    refine ⟨m, rfl, ?_⟩
    cases v with
    | write fd msg => simpa [uncut, hs, whole] using h
    | read fd size => simpa [uncut, hs, whole] using h
    | socket | connect fd | bind fd | listen fd n | accept fd | close fd => trivial

/-- The steps in which no socket call fails. -/
def Uncut (S : World ι) : Label ι → Prop
  | .client i o => Party.Uncut (S.client i) o
  | .server o => Party.Uncut S.server o

def uncut (S : World ι) : Label ι → Bool
  | .client i o => Party.uncut (S.client i) o
  | .server o => Party.uncut S.server o

omit [DecidableEq ι] in
theorem uncut_sound {S : World ι} {l : Label ι} (h : uncut S l = true) : Uncut S l := by
  cases l with
  | client i o => exact Party.uncut_sound h
  | server o => exact Party.uncut_sound h

theorem clientCall_smooth {i : ι} {w w' : Wires ι} {v : SocketCall (Descriptor ι)} {m : Nat} {r : v.Answer}
    (hc : clientCall i w v (.ok m) = some (r, w')) (hm : whole v m) (h : Log (Descriptor ι)) :
    Smooth (some i) h v r ∧ w'.listening = w.listening ∧
      w'.connected = update w.connected i (w.connected i || joined [⟨v, r⟩]) := by
  have hkept := (clientCall_called hc).kept h
  have hsame : ∀ e : Event (Descriptor ι), joined [e] = false →
      w.connected = update w.connected i (w.connected i || joined [e]) := by
    intro e he
    rw [he, Bool.or_false, Function.update_eq_self]
  cases v with
  | socket =>
    cases hc
    exact ⟨⟨hkept, rfl⟩, rfl, hsame _ rfl⟩
  | connect fd =>
    obtain ⟨⟨-, -, hno⟩, hc⟩ := Option.ite_none_right_eq_some.mp hc
    cases hc
    refine ⟨⟨hkept, rfl⟩, rfl, ?_⟩
    rw [hno]
    rfl
  | write fd msg =>
    obtain ⟨⟨-, -, -⟩, hc⟩ := Option.ite_none_right_eq_some.mp hc
    cases hc
    exact ⟨⟨hkept, congrArg some hm⟩, rfl, hsame _ rfl⟩
  | read fd size =>
    obtain ⟨⟨-, -, hlen, -⟩, hc⟩ := Option.ite_none_right_eq_some.mp hc
    cases hc
    refine ⟨⟨hkept, _, rfl, fun he => ?_⟩, rfl, hsame _ rfl⟩
    have hl := congrArg List.length he
    rw [List.length_take, List.length_nil] at hl
    have hpos : 0 < m := hm
    omega
  | close fd =>
    cases hc
    exact ⟨⟨hkept, trivial⟩, rfl, hsame _ rfl⟩
  | bind fd => cases hc
  | listen fd n => cases hc
  | accept fd => cases hc

theorem serverCall_smooth {w w' : Wires ι} {v : SocketCall (Descriptor ι)} {m : Nat} {r : v.Answer}
    (hc : serverCall w v (.ok m) = some (r, w')) (hm : whole v m) {h : Log (Descriptor ι)}
    (hk : Kept none h v r) :
    Smooth none h v r ∧ w'.listening = opens none w.listening ⟨v, r⟩ := by
  cases v with
  | socket =>
    cases hc
    exact ⟨⟨hk, rfl⟩, rfl⟩
  | bind fd =>
    cases hc
    exact ⟨⟨hk, rfl⟩, rfl⟩
  | listen fd n =>
    cases hc
    exact ⟨⟨hk, trivial⟩, rfl⟩
  | accept fd =>
    cases hb : w.backlog with
    | nil => simp [serverCall, hb] at hc
    | cons i backlog =>
      simp only [serverCall, hb, Option.some.injEq, Prod.mk.injEq] at hc
      obtain ⟨rfl, rfl⟩ := hc
      exact ⟨⟨hk, rfl⟩, rfl⟩
  | write fd msg =>
    cases fd with
    | none => cases hc
    | some i =>
      obtain ⟨-, hc⟩ := Option.ite_none_right_eq_some.mp hc
      cases hc
      exact ⟨⟨hk, congrArg some hm⟩, rfl⟩
  | read fd size =>
    cases fd with
    | none => cases hc
    | some i =>
      obtain ⟨⟨-, hlen, -⟩, hc⟩ := Option.ite_none_right_eq_some.mp hc
      cases hc
      refine ⟨⟨hk, _, rfl, fun he => ?_⟩, rfl⟩
      have hl := congrArg List.length he
      rw [List.length_take, List.length_nil] at hl
      have hpos : 0 < m := hm
      omega
  | close fd =>
    cases fd with
    | none =>
      cases hc
      exact ⟨⟨hk, trivial⟩, rfl⟩
    | some i =>
      cases hc
      exact ⟨⟨hk, trivial⟩, rfl⟩
  | connect fd => cases hc

/-- Where the processes are, and that the wires know it. -/
structure Going (n : Nat) (S : World ι) : Prop where
  wired : Wired S
  server : Rests (Smooth none) (fun _ => ServerAt none n) True S.server.memory S.server.log
    (fun o _ h => o.isSome = true → (accepted h).length = n ∧ ∀ fd ∈ accepted h,
      sent fd h ≠ []) S.server.stop
  client : ∀ i, Rests (Smooth (some i))
    (fun _ => ClientAt (some i)) True (S.client i).memory (S.client i).log
    (fun o _ h => o.isSome = true → joined h = true ∧ msgSize < (sent (some i) h).length) (S.client i).stop
  joined : ∀ i, joined (S.client i).log = S.wires.connected i
  nodup : (accepted S.server.log).Nodup
  entered : (accepted S.server.log).length = n ∨
    ∀ i, S.wires.connected i = true → i ∈ S.wires.backlog ∨ some i ∈ accepted S.server.log
  listening : S.wires.listening = opened none S.server.log

variable {n : Nat} {S S' : World ι}

theorem going_start (h : Start n S) : Going n S := by
  have hw := wired_start h
  obtain ⟨hwires, ⟨hlog, hs⟩, hc⟩ := h
  refine ⟨hw, ?_, fun i => ?_, fun i => ?_, ?_, .inr fun i hi => ?_, ?_⟩
  · rw [hlog]
    exact (kvOpen_server idle_nil rfl).settle hs
  · rw [(hc i).1]
    exact (kvOpen_client idle_nil rfl).settle (hc i).2
  · rw [(hc i).1, hwires]
    rfl
  · rw [hlog]
    exact List.nodup_nil
  · rw [hwires] at hi
    cases hi
  · rw [hlog, hwires]
    rfl

theorem going_client {i : ι} {o : Outcome} (h : Going n S) (hu : Party.Uncut (S.client i) o)
    (hm : move S (.client i o) = some S') : Going n S' := by
  have hwired := wired_client h.wired hm
  obtain ⟨⟨p', w'⟩, ha, hm⟩ := Option.map_eq_some_iff.mp hm
  cases hm
  obtain ⟨v, k, r, hs, hc, hk, hl, -⟩ := Party.answer_eq_some ha
  obtain ⟨m, rfl, hw⟩ := hu v k hs
  have hcalled := clientCall_called hc
  obtain ⟨hsmooth, hlistening, hconnected⟩ := clientCall_smooth hc hw (S.client i).log
  refine ⟨hwired, h.server, fun j => ?_, fun j => ?_, h.nodup, ?_, hlistening.trans h.listening⟩
  · by_cases hj : j = i
    · subst hj
      simp only [Function.update_self]
      exact rests_answer (h.client j) hs hk hl hsmooth
    · simp only [Function.update_of_ne hj]
      exact h.client j
  · by_cases hj : j = i
    · subst hj
      simp only [hconnected, Function.update_self]
      rw [hl, joined_append, h.joined]
    · simp only [hconnected, Function.update_of_ne hj]
      exact h.joined j
  · refine h.entered.imp_right fun hall j hj => ?_
    change j ∈ w'.backlog ∨ some j ∈ accepted S.server.log
    obtain ⟨hcon, hb⟩ | ⟨hno, hcon, hb⟩ := hcalled.backlog
    · rw [hb]
      exact hall j (hcon ▸ hj)
    · rw [hb]
      by_cases hji : j = i
      · exact .inl (List.mem_append_right _ (List.mem_singleton.mpr hji))
      · have hj' : w'.connected j = true := hj
        rw [hcon, Function.update_of_ne hji] at hj'
        exact (hall j hj').imp_left (List.mem_append_left _)

theorem going_server {o : Outcome} (h : Going n S) (hu : Party.Uncut S.server o)
    (hm : move S (.server o) = some S') : Going n S' := by
  have hwired := wired_server h.wired hm
  obtain ⟨⟨p', w'⟩, ha, hm⟩ := Option.map_eq_some_iff.mp hm
  cases hm
  obtain ⟨v, k, r, hs, hc, hk, hl, -⟩ := Party.answer_eq_some ha
  obtain ⟨m, rfl, hw⟩ := hu v k hs
  have hcalled := serverCall_called hc
  have hnew : ∀ fd ∈ entered ⟨v, r⟩, fd ∉ accepted S.server.log := by
    intro fd hfd hold
    obtain ⟨he, -⟩ | ⟨i, he, hb⟩ := hcalled.backlog
    · rw [he] at hfd
      cases hfd
    · obtain ⟨j, rfl, hnot, -⟩ := h.wired.entered fd hold
      rw [he, List.mem_singleton] at hfd
      cases hfd
      exact hnot (hb ▸ List.mem_cons_self)
  obtain ⟨hsmooth, hlistening⟩ := serverCall_smooth hc hw (hcalled.kept _ hnew)
  have haccepted : accepted p'.log = accepted S.server.log ++ entered ⟨v, r⟩ := by
    rw [hl, accepted_snoc]
  have hat : ServerAt none n S.server.log v := by
    have hr := h.server
    rw [hs] at hr
    exact hr.1
  refine ⟨hwired, rests_answer h.server hs hk hl hsmooth, h.client, fun j => ?_, ?_, ?_, ?_⟩
  · change joined (S.client j).log = w'.connected j
    rw [hcalled.connected]
    exact h.joined j
  · change (accepted p'.log).Nodup
    rw [haccepted]
    obtain ⟨he, -⟩ | ⟨i, he, -⟩ := hcalled.backlog
    · rw [he, List.append_nil]
      exact h.nodup
    · rw [he] at hnew ⊢
      refine List.nodup_append.mpr ⟨h.nodup, List.nodup_singleton _, fun a ha b hb => ?_⟩
      rintro rfl
      exact hnew a hb ha
  · change (accepted p'.log).length = n ∨ ∀ i, w'.connected i = true → i ∈ w'.backlog ∨
      some i ∈ accepted p'.log
    rw [haccepted, hcalled.connected]
    obtain ⟨he, hb | ⟨hv, -⟩⟩ | ⟨i, he, hb⟩ := hcalled.backlog
    · rw [he, List.append_nil, hb]
      exact h.entered
    · obtain rfl : v = .close none := hv
      rw [he, List.append_nil]
      exact .inl (hat rfl)
    · obtain hfull | hall := h.entered
      · have hlt : (accepted S.server.log).length < n := by
          cases v with
          | accept fd => exact hat.2
          | socket | connect fd | bind fd | listen fd k | write fd msg | read fd size | close fd =>
              cases he
        omega
      · refine .inr fun j hj => ?_
        rw [he, List.mem_append, List.mem_singleton, Option.some.injEq]
        obtain hm | hm := hall j hj
        · rw [hb] at hm
          exact (List.mem_cons.mp hm).elim (fun hji => .inr (.inr hji)) .inl
        · exact .inr (.inl hm)
  · change w'.listening = opened none p'.log
    rw [hl, opened_snoc, ← h.listening, hlistening]

theorem going (h : Reach (Start n) (fun S l S' => move S l = some S') Uncut S) : Going n S := by
  refine Reach.invariant (P := Going n) (fun S (hS : Start n S) => going_start hS)
    (fun S l S' hS hu hm => ?_) h
  cases l with
  | client i o => exact going_client hS hu hm
  | server o => exact going_server hS hu hm

/-- Some process is at a socket call that does not block. What it does behind the call may be undefined. -/
def Answerable (S : World ι) : Prop :=
  (∃ v k m, S.server.stop = .waiting v k ∧ whole v m ∧ (serverCall S.wires v (.ok m)).isSome = true) ∨
    ∃ i v k m, (S.client i).stop = .waiting v k ∧ whole v m ∧
    (clientCall i S.wires v (.ok m)).isSome = true

inductive Stuck (S : World ι) (i : ι) : Prop
  | finished (hj : joined (S.client i).log = true) (hs : msgSize < (sent (some i) (S.client i).log).length)
      (hd : ∃ handle, (S.client i).stop = .done (some handle))
  | outside (hj : joined (S.client i).log = false) (hl : S.wires.listening = false)
  | asking (hj : joined (S.client i).log = true) (hs : sent (some i) (S.client i).log ≠ [])
      (ht : sent (some i) S.server.log = [])

theorem Going.stuck (h : Going n S) (hc : ∀ i, (S.client i).stop ≠ .done none)
    (hno : ¬ Answerable S) (i : ι) :
    Stuck S i := by
  have hr := h.client i
  have hwait : ∀ v k m, (S.client i).stop = .waiting v k → whole v m →
    clientCall i S.wires v (.ok m) = none := by
    intro v k m hs hm
    by_contra hsome
    exact hno (.inr ⟨i, v, k, m, hs, hm, Option.isSome_iff_ne_none.mpr hsome⟩)
  cases hs : (S.client i).stop with
  | done o =>
    rw [hs] at hr
    cases o with
    | none => exact absurd hs (hc i)
    | some handle =>
      obtain ⟨hj, hlt⟩ := hr rfl
      exact .finished hj hlt ⟨handle, hs⟩
  | waiting v k =>
    rw [hs] at hr
    have hat := hr.1
    cases v with
    | socket => cases hwait _ k 0 hs trivial
    | connect fd =>
      obtain ⟨rfl, hj⟩ := hat
      refine .outside hj (Bool.eq_false_iff.mpr fun hl => ?_)
      have hblocked := hwait _ k 0 hs trivial
      rw [clientCall, if_pos ⟨rfl, hl, (h.joined i).symm.trans hj⟩] at hblocked
      cases hblocked
    | write fd msg =>
      obtain ⟨rfl, hj⟩ := hat
      have hblocked := hwait _ k msg.length hs rfl
      rw [clientCall, if_pos ⟨rfl, (h.joined i).symm.trans hj, Nat.le_refl _⟩] at hblocked
      cases hblocked
    | read fd size =>
      obtain ⟨rfl, hsize, hj, hsent, htaken⟩ := hat
      refine .asking hj hsent ?_
      rw [h.wired.toClient i, htaken, List.nil_append]
      by_contra hne
      have hblocked := hwait _ k 1 hs Nat.one_pos
      rw [clientCall, if_pos ⟨rfl, hsize, List.length_pos_iff.mpr hne, .inl Nat.one_pos⟩] at hblocked
      cases hblocked
    | close fd => cases hwait _ k 0 hs trivial
    | bind fd => exact hat.elim
    | listen fd n => exact hat.elim
    | accept fd => exact hat.elim

theorem Going.all_accepted [Fintype ι] (h : Going n S) (hn : Fintype.card ι = n)
    (hlen : (accepted S.server.log).length = n) (i : ι) : some i ∈ accepted S.server.log := by
  let clients := (accepted S.server.log).toFinset
  have hsub : clients ⊆ Finset.univ.image some := by
    intro fd hfd
    obtain ⟨j, rfl, -⟩ := h.wired.entered fd (List.mem_toFinset.mp hfd)
    exact Finset.mem_image_of_mem some (Finset.mem_univ j)
  have hcard : (Finset.univ.image (some : ι → Option ι)).card ≤ clients.card := by
    rw [List.toFinset_card_of_nodup h.nodup, hlen, ← hn]
    exact Finset.card_image_le
  have hmem : some i ∈ clients := by
    rw [Finset.eq_of_subset_of_card_le hsub hcard]
    exact Finset.mem_image_of_mem some (Finset.mem_univ i)
  exact List.mem_toFinset.mp hmem

theorem Going.accepted_joined (h : Going n S) {i : ι} (hi : some i ∈ accepted S.server.log) :
    Progress.joined (S.client i).log = true := by
  obtain ⟨j, hj, -, hcon⟩ := h.wired.entered (some i) hi
  cases hj
  rw [h.joined]
  exact hcon

/-- While connections are missing and the backlog is empty, some client is still outside. -/
theorem Going.someone_outside [Fintype ι] (h : Going n S) (hn : Fintype.card ι = n)
    (hlt : (accepted S.server.log).length < n) (hb : S.wires.backlog = []) :
    ∃ i, Progress.joined (S.client i).log = false := by
  by_contra hno
  rw [not_exists] at hno
  have hall : ∀ i, some i ∈ accepted S.server.log := by
    intro i
    have hcon : S.wires.connected i = true :=
      (h.joined i).symm.trans (Bool.eq_true_of_not_eq_false (hno i))
    have hi := h.entered.resolve_left hlt.ne i hcon
    rw [hb] at hi
    exact hi.resolve_left List.not_mem_nil
  have hsub : Finset.univ.image (some : ι → Option ι) ⊆ (accepted S.server.log).toFinset := by
    intro fd hfd
    obtain ⟨i, -, rfl⟩ := Finset.mem_image.mp hfd
    exact List.mem_toFinset.mpr (hall i)
  have hcard := Finset.card_le_card hsub
  rw [List.toFinset_card_of_nodup h.nodup, Finset.card_image_of_injective _ (Option.some_injective ι),
    Finset.card_univ, hn] at hcard
  omega

theorem Going.reading (h : Going n S) {i : ι} (hk : Stuck S i) (hi : some i ∈ accepted S.server.log)
    (he : S.wires.toServer i = [])
    (hat : (sent (some i) S.server.log = [] ∧ taken (some i) S.server.log = []) ∨
      ((taken (some i) S.server.log).length = msgSize ∧ sent (some i) S.server.log ≠ [])) : False := by
  have hbytes := h.wired.toServer i
  rw [he, List.append_nil] at hbytes
  cases hk with
  | finished hj hs hd =>
    obtain ⟨-, ht⟩ | ⟨hl, -⟩ := hat
    · rw [hbytes, ht] at hs
      exact absurd hs (Nat.not_lt_zero _)
    · rw [hbytes, hl] at hs
      exact absurd hs (Nat.lt_irrefl _)
  | outside hj hl =>
    rw [h.accepted_joined hi] at hj
    cases hj
  | asking hj hs ht =>
    obtain ⟨-, hnone⟩ | ⟨-, hsome⟩ := hat
    · exact hs (hbytes.trans hnone)
    · exact hsome ht

theorem Going.server_over [Fintype ι] (h : Going n S) (hn : Fintype.card ι = n)
    (hs : S.server.stop ≠ .done none)
    (hno : ¬ Answerable S) (hk : ∀ i, Stuck S i) : ∃ handle, S.server.stop = .done (some handle) := by
  have hr := h.server
  have hwait : ∀ v k m, S.server.stop = .waiting v k → whole v m →
    serverCall S.wires v (.ok m) = none := by
    intro v k m hs hm
    by_contra hsome
    exact hno (.inl ⟨v, k, m, hs, hm, Option.isSome_iff_ne_none.mpr hsome⟩)
  cases hstop : S.server.stop with
  | done o =>
    cases o with
    | none => exact absurd hstop hs
    | some handle => exact ⟨handle, rfl⟩
  | waiting v k =>
    exfalso
    rw [hstop] at hr
    have hat := hr.1
    cases v with
    | socket => cases hwait _ k 0 hstop trivial
    | bind fd => cases hwait _ k 0 hstop trivial
    | listen fd m => cases hwait _ k 0 hstop trivial
    | close fd => cases fd <;> cases hwait _ k 0 hstop trivial
    | connect fd => exact hat
    | accept fd =>
      obtain ⟨hopen, hlt⟩ := hat
      have hblocked := hwait _ k 0 hstop trivial
      cases hb : S.wires.backlog with
      | cons i backlog => simp [serverCall, hb] at hblocked
      | nil =>
        -- somebody is missing, whom only a closed socket keeps outside
        obtain ⟨i, hi⟩ := h.someone_outside hn hlt hb
        cases hk i with
        | finished hj _ _ => rw [hi] at hj; cases hj
        | outside _ hl => rw [h.listening, hopen] at hl; cases hl
        | asking hj _ _ => rw [hi] at hj; cases hj
    | write fd msg =>
      obtain ⟨i, rfl, -⟩ := h.wired.entered fd hat.1
      have hblocked := hwait _ k msg.length hstop rfl
      rw [serverCall] at hblocked
      simp at hblocked
    | read fd size =>
      obtain ⟨hsize, hfd, -, hat⟩ := hat
      obtain ⟨i, rfl, -⟩ := h.wired.entered fd hfd
      refine h.reading (hk i) hfd ?_ hat
      by_contra hne
      have hblocked := hwait _ k 1 hstop Nat.one_pos
      simp only [serverCall] at hblocked
      rw [if_pos ⟨hsize, List.length_pos_iff.mpr hne, .inl Nat.one_pos⟩] at hblocked
      cases hblocked

/-- A server and as many clients as it was told of never all wait for each other: while nobody was
refused, either all have opened or some socket call goes on. -/
theorem never_all_wait [Fintype ι] (hn : Fintype.card ι = n)
    (h : Reach (Start n) (fun S l S' => move S l = some S') Uncut S) (hs : S.server.stop ≠ .done none)
    (hc : ∀ i, (S.client i).stop ≠ .done none) :
    ((∃ handle, S.server.stop = .done (some handle)) ∧ ∀ i, ∃ handle,
      (S.client i).stop = .done (some handle)) ∨
      Answerable S := by
  by_cases hno : Answerable S
  · exact .inr hno
  · have hg := going h
    have hk := hg.stuck hc hno
    obtain ⟨served, hserved⟩ := hg.server_over hn hs hno hk
    refine .inl ⟨⟨served, hserved⟩, fun i => ?_⟩
    have hr := hg.server
    rw [hserved] at hr
    obtain ⟨hlen, hsent⟩ := hr rfl
    have hi := hg.all_accepted hn hlen i
    cases hk i with
    | finished _ _ hd => exact hd
    | outside hj _ => rw [hg.accepted_joined hi] at hj; cases hj
    | asking _ _ ht => exact absurd ht (hsent (some i) hi)

theorem never_all_wait_pair : ∃ S : World Unit,
    Reach (Start 1) (fun S l S' => move S l = some S') Uncut S ∧ (S.client ()).log ≠ [] ∧
    Answerable S := by
  have hrun : (run (fun S l => if uncut S l then move S l else none) pair (setup.take 9)).map (fun S =>
      (S.client ()).log.length = 3 && Party.asks S.server && Party.asks (S.client ())) = some true := by
    decide +kernel
  obtain ⟨S, hS, hasks⟩ := Option.map_eq_some_iff.mp hrun
  simp only [Bool.and_eq_true, decide_eq_true_eq] at hasks
  obtain ⟨⟨hlog, hserver⟩, hclient⟩ := hasks
  have hreached : Reach (Start 1) (fun S l S' => move S l = some S') Uncut S :=
    Reach.run_checked (fun _ _ => uncut_sound) (.start pair_start) hS
  refine ⟨S, hreached, fun hnil => ?_, ?_⟩
  · rw [hnil] at hlog
    cases hlog
  · obtain ⟨⟨served, hserved⟩, -⟩ | h :=
      never_all_wait Fintype.card_unit hreached (Party.stop_ne_done hserver none)
      fun _ => Party.stop_ne_done hclient none
    · exact absurd hserved (Party.stop_ne_done hserver (some served))
    · exact h

end NetworkOptimization.Progress
