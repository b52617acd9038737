import NetworkOptimization.Devices
import NetworkOptimization.Postconditions

namespace NetworkOptimization.Closing

open SequentialCode Postconditions Devices Dependencies Dependencies.Registry
open Function (update)

variable {V : Type} {R : V → Type} {rely : List (Sigma R) → (v : V) → R v → Prop}
  {mid : Process → List (Sigma R) → V → Prop} {fault : Prop} {h : List (Sigma R)}
  {s₀ s s' : Process} {gs rest : List (Nat × Object Kind)} {α : Type}

/-- Since `s₀` a process has made the objects `gs`, and left alone what it had. -/
structure Made (s₀ s : Process) (gs : List (Nat × Object Kind)) : Prop where
  host : s.host = s₀.host
  since : Since s₀.registry s.registry gs
  queuePairs : ∀ i < s₀.registry.count, s.queuePairs i = s₀.queuePairs i

theorem Made.refl (s : Process) : Made s s [] := ⟨rfl, Since.refl _, fun _ _ => rfl⟩

theorem Made.perm (hm : Made s₀ s gs) {gs' : List (Nat × Object Kind)} (hp : gs.Perm gs') :
    Made s₀ s gs' :=
  ⟨hm.host, hm.since.perm hp, hm.queuePairs⟩

theorem Made.trans {t : Process} {gs' : List (Nat × Object Kind)} (hm : Made s₀ s gs)
    (hm' : Made s t gs') :
    Made s₀ t (gs' ++ gs) := by
  refine ⟨hm'.host.trans hm.host, hm.since.trans hm'.since, fun i hi => ?_⟩
  rw [hm'.queuePairs i (Nat.lt_of_lt_of_le hi hm.since.count), hm.queuePairs i hi]

theorem Made.next (hm : Made s₀ s gs) : Made s₀ s.next gs := ⟨hm.host, hm.since, hm.queuePairs⟩

theorem Made.setQueuePair (hm : Made s₀ s gs) {id : Nat} (hid : id ∈ gs.map Prod.fst) (q : QueuePair) :
    Made s₀ (s.setQueuePair id q) gs := by
  refine ⟨hm.host, hm.since, fun i hi => ?_⟩
  obtain ⟨g, hg, rfl⟩ := List.mem_map.mp hid
  have hlater := hm.since.later g hg
  change update s.queuePairs g.1 q i = s₀.queuePairs i
  rw [Function.update_of_ne (by omega)]
  exact hm.queuePairs i hi

theorem Made.acquire_same {kind : Kind} {uses : List Nat}
    {post : Option Nat → Process → List (Sigma R) → Prop}
    (hm : Made s₀ s gs) (hu : ∀ u ∈ uses, u ∈ gs.map Prod.fst)
    (hnone : ∀ s', Made s₀ s' gs → s'.queuePairs = s.queuePairs → post none s' h)
    (hsome : ∀ id s', Made s₀ s' ((id, ⟨kind, uses⟩) :: gs) → s'.queuePairs = s.queuePairs →
      post (some id) s' h) :
    Meets rely mid fault (acquire kind uses) s h post := by
  have hlive : ∀ u ∈ uses, (s.registry.live u).isSome := by
    intro u hmem
    obtain ⟨g, hg, rfl⟩ := List.mem_map.mp (hu u hmem)
    rw [hm.since.live hg]
    rfl
  obtain ⟨id, r', hc⟩ := create_isSome kind hlive
  refine Meets.locally (fun o s' hs => ?_) fun hs => ?_
  · by_cases hw : s.willing = true
    · rw [if_pos hw, hc] at hs
      cases hs
      exact hsome id _ ⟨hm.host, hm.since.create hc, hm.queuePairs⟩ rfl
    · rw [if_neg hw] at hs
      cases hs
      exact hnone _ hm.next rfl
  · by_cases hw : s.willing = true
    · rw [if_pos hw, hc] at hs
      cases hs
    · rw [if_neg hw] at hs
      cases hs

theorem Made.acquire {kind : Kind} {uses : List Nat} {post : Option Nat → Process → List (Sigma R) → Prop}
    (hm : Made s₀ s gs) (hu : ∀ u ∈ uses, u ∈ gs.map Prod.fst)
    (hnone : ∀ s', Made s₀ s' gs → post none s' h)
    (hsome : ∀ id s', Made s₀ s' ((id, ⟨kind, uses⟩) :: gs) → post (some id) s' h) :
    Meets rely mid fault (acquire kind uses) s h post :=
  hm.acquire_same hu (fun s' hm' _ => hnone s' hm') fun id s' hm' _ => hsome id s' hm'

theorem attempt_meets {post : Bool → Process → List (Sigma R) → Prop} (hp : ∀ b, post b s.next h) :
    Meets rely mid fault attempt s h post := by
  refine Meets.locally (fun b s' hs => ?_) fun hs => by cases hs
  cases hs
  exact hp _

theorem ibvModifyQp_meets {id : Nat} {since : QpState} {f : QueuePair → QueuePair}
    {post : Int → Process → List (Sigma R) → Prop} (hfail : post 1 s.next h)
    (hdone : (s.queuePairs id).state = since → post 0 (s.next.setQueuePair id (f (s.queuePairs id))) h) :
    Meets rely mid fault (ibvModifyQp id since f) s h post := by
  refine Meets.locally (fun b s' hs => ?_) fun hs => ?_
  · by_cases hw : s.willing = true ∧ (s.queuePairs id).state = since
    · rw [if_pos hw] at hs
      cases hs
      exact hdone hw.2
    · rw [if_neg hw] at hs
      cases hs
      exact hfail
  · by_cases hw : s.willing = true ∧ (s.queuePairs id).state = since
    · rw [if_pos hw] at hs
      cases hs
    · rw [if_neg hw] at hs
      cases hs

structure Fresh (rxDepth : Int) (port : Nat) (s s' : Process) (ctx : Context) : Prop where
  made : Made s s' ctx.objects
  queuePair : s'.queuePairs ctx.qp = toInit port .created
  queue : ctx.queue = noReceives rxDepth

theorem createChannel_meets {post : Option (Option Nat) → Process → List (Sigma R) → Prop}
    (useEvent : Bool)
    {context : Nat} (hm : Made s₀ s gs) (hc : context ∈ gs.map Prod.fst)
    (hnone : ∀ s', Made s₀ s' gs → post none s' h)
    (hsome : ∀ channel s',
      Made s₀ s' ((Option.toList channel).map (fun c => (c, ⟨.compChannel, [context]⟩)) ++ gs) →
      post (some channel) s' h) :
    Meets rely mid fault (createChannel useEvent context) s h post := by
  unfold createChannel
  cases useEvent with
  | false => exact hsome none s hm
  | true =>
    refine Meets.bind (hm.acquire (by simpa using hc) hnone fun c s' hm' => ?_)
    exact hsome (some c) s' hm'

/-- Wherever `pp_init_ctx` stops, nothing is lost of what was there before. -/
theorem ppInitCtx_meets (rxDepth : Int) (port : Nat) (useEvent : Bool) :
    Meets rely mid fault (ppInitCtx rxDepth port useEvent) s h (fun o s' h' =>
      h' = h ∧ (∃ gs, Made s s' gs) ∧ ∀ ctx ∈ o, Fresh rxDepth port s s' ctx) := by
  have hfail : ∀ {s'} {gs}, Made s s' gs →
      h = h ∧ (∃ gs, Made s s' gs) ∧ ∀ ctx ∈ (none : Option Context), Fresh rxDepth port s s' ctx :=
    fun hm => ⟨rfl, ⟨_, hm⟩, by simp⟩
  unfold ppInitCtx
  refine Meets.bind ((Made.refl s).acquire (by simp) (fun _ => hfail) fun block s₁ h₁ => ?_)
  refine Meets.bind (h₁.acquire (by simp) (fun _ => hfail) fun context s₂ h₂ => ?_)
  refine Meets.bind (createChannel_meets useEvent h₂ (by simp) (fun _ => hfail) fun channel s₃ h₃ => ?_)
  refine Meets.bind (h₃.acquire (by simp) (fun _ => hfail) fun pd s₄ h₄ => ?_)
  refine Meets.bind (h₄.acquire (by simp) (fun _ => hfail) fun buffer s₅ h₅ => ?_)
  refine Meets.bind (h₅.acquire (by simp) (fun _ => hfail) fun mrControlSend s₆ h₆ => ?_)
  refine Meets.bind (h₆.acquire (by simp) (fun _ => hfail) fun mrControlReceive s₇ h₇ => ?_)
  refine Meets.bind (h₇.acquire (by cases channel <;> simp) (fun _ => hfail) fun sendCq s₈ h₈ => ?_)
  refine Meets.bind (h₈.acquire (by cases channel <;> simp) (fun _ => hfail) fun receiveCq s₉ h₉ => ?_)
  refine Meets.bind (h₉.acquire (by simp) (fun _ => hfail) fun qp s₁₀ h₁₀ => ?_)
  refine Meets.bind (Meets.modify ?_)
  have h₁₁ := h₁₀.setQueuePair List.mem_cons_self .created
  refine Meets.bind (ibvModifyQp_meets (hfail h₁₁.next) fun _ => ?_)
  have h₁₂ := h₁₁.next.setQueuePair List.mem_cons_self
    (toInit port ((s₁₀.setQueuePair qp .created).queuePairs qp))
  refine Meets.bind (attempt_meets fun b => ?_)
  cases b with
  | false => exact hfail h₁₂.next
  | true =>
    refine ⟨rfl, ⟨_, h₁₂.next⟩, fun ctx hctx => ?_⟩
    cases hctx
    refine ⟨h₁₂.next.perm ?_, ?_, rfl⟩
    · exact .cons _ ((List.Perm.swap _ _ _).trans (.cons _ (.cons _ (List.Perm.swap _ _ _))))
    · change update (update s₁₀.queuePairs qp .created) qp
        (toInit port (update s₁₀.queuePairs qp .created qp)) qp =
        toInit port .created
      rw [Function.update_self, Function.update_self]

/-- From here on every library call does its work. -/
def Willing (s : Process) : Prop := ∀ k, s.calls ≤ k → s.host.answers k = true

theorem Willing.next (hw : Willing s) : Willing s.next := fun k hk => hw k (Nat.le_of_succ_le hk)

theorem release_meets {id : Nat} {x : Object Kind} {post : Int → Process → List (Sigma R) → Prop}
    (hm : Made s₀ s ((id, x) :: gs)) (hu : ∀ g ∈ (id, x) :: gs, id ∉ g.2.uses)
    (hbusy : ∀ s', Made s₀ s' ((id, x) :: gs) → ¬ Willing s → post 1 s' h)
    (hdone : ∀ s', Made s₀ s' gs → (Willing s → Willing s') → post 0 s' h) :
    Meets rely mid fault (release id) s h post := by
  obtain ⟨r', hr, hs'⟩ := hm.since.destroy hu
  have hlive : (s.registry.live id).isSome := by
    rw [hm.since.live List.mem_cons_self]
    rfl
  refine Meets.locally (fun c s' hs => ?_) fun hs => ?_
  · rw [if_pos hlive, hr] at hs
    by_cases hw : s.willing = true
    · simp only [hw, if_true, Option.some.injEq] at hs
      cases hs
      exact hdone _ ⟨hm.host, hs', hm.queuePairs⟩ Willing.next
    · simp only [hw, Option.some.injEq] at hs
      cases hs
      exact hbusy _ hm.next fun hall => hw (hall _ (Nat.le_refl _))
  · rw [if_pos hlive, hr] at hs
    cases hs

theorem release_used {id : Nat} {x : Object Kind} {post : Int → Process → List (Sigma R) → Prop}
    (hm : Made s₀ s ((id, x) :: gs)) {g : Nat × Object Kind} (hg : g ∈ gs) (hu : id ∈ g.2.uses)
    (hbusy : ∀ s', Made s₀ s' ((id, x) :: gs) → (Willing s → Willing s') → post 1 s' h) :
    Meets rely mid fault (release id) s h post := by
  have hr := hm.since.destroy_eq_none (List.mem_cons_of_mem _ hg) hu
  have hlive : (s.registry.live id).isSome := by
    rw [hm.since.live List.mem_cons_self]
    rfl
  refine Meets.locally (fun c s' hs => ?_) fun hs => ?_
  · rw [if_pos hlive, hr] at hs
    cases hs
    exact hbusy _ hm.next Willing.next
  · rw [if_pos hlive, hr] at hs
    cases hs

theorem free_same {id : Nat} {x : Object Kind} {post : Unit → Process → List (Sigma R) → Prop}
    (hm : Made s₀ s ((id, x) :: gs)) (hu : ∀ g ∈ (id, x) :: gs, id ∉ g.2.uses)
    (hdone : ∀ s', Made s₀ s' gs → (Willing s → Willing s') → s'.queuePairs = s.queuePairs →
      s'.registry.count = s.registry.count → post () s' h) :
    Meets rely mid fault (free id) s h post := by
  obtain ⟨r', hr, hs'⟩ := hm.since.destroy hu
  refine Meets.locally (fun c s' hs => ?_) fun hs => ?_
  · rw [hr] at hs
    cases hs
    exact hdone _ ⟨hm.host, hs', hm.queuePairs⟩ (fun hw => hw) rfl (destroy_eq_some hr).2.2.1
  · rw [hr] at hs
    cases hs

theorem free_meets {id : Nat} {x : Object Kind} {post : Unit → Process → List (Sigma R) → Prop}
    (hm : Made s₀ s ((id, x) :: gs)) (hu : ∀ g ∈ (id, x) :: gs, id ∉ g.2.uses)
    (hdone : ∀ s', Made s₀ s' gs → (Willing s → Willing s') → post () s' h) :
    Meets rely mid fault (free id) s h post :=
  free_same hm hu fun s' hm' hw _ _ => hdone s' hm' hw

/-- What is left of the objects `gs` that were to be closed: some of the last ones. Where every
library call does its work it is `kept`. -/
def Closed (s₀ : Process) (rest gs kept : List (Nat × Object Kind)) (s : Process) (c : Int)
    (s' : Process) :
    Prop :=
  ∃ left, left <:+ gs ∧ Made s₀ s' (left ++ rest) ∧ (c = 0 ↔ left = []) ∧
    (Willing s → Willing s' ∧ left = kept)

variable {kept : List (Nat × Object Kind)}

theorem Closed.head {g : Nat × Object Kind} {s₁ : Process} {c : Int} (hw : Willing s → Willing s₁)
    (hc : Closed s₀ rest gs kept s₁ c s') : Closed s₀ rest (g :: gs) kept s c s' := by
  obtain ⟨left, hl, hm, h0, hk⟩ := hc
  exact ⟨left, hl.trans (List.suffix_cons g gs), hm, h0, fun hs => hk (hw hs)⟩

theorem Closed.all (hm : Made s₀ s rest) : Closed s₀ rest [] [] s 0 s :=
  ⟨[], List.suffix_refl _, hm, by simp, fun hw => ⟨hw, rfl⟩⟩

/-- No object uses an earlier one, or itself. -/
structure Ordered (gs : List (Nat × Object Kind)) : Prop where
  pairwise : gs.Pairwise (fun g g' => g.1 ∉ g'.2.uses)
  self : ∀ g ∈ gs, g.1 ∉ g.2.uses

theorem Ordered.tail {g : Nat × Object Kind} (ho : Ordered (g :: gs)) : Ordered gs :=
  ⟨ho.pairwise.tail, fun g hg => ho.self g (List.mem_cons_of_mem _ hg)⟩

theorem Ordered.head {id : Nat} {x : Object Kind} (ho : Ordered ((id, x) :: gs))
    (hr : ∀ g ∈ rest, id ∉ g.2.uses) : ∀ g ∈ ((id, x) :: gs) ++ rest, id ∉ g.2.uses := by
  intro g hg
  obtain hg | hg := List.mem_append.mp hg
  · obtain rfl | hg := List.mem_cons.mp hg
    · exact ho.self _ List.mem_cons_self
    · exact (List.pairwise_cons.mp ho.pairwise).1 g hg
  · exact hr g hg

theorem release_then {id : Nat} {x : Object Kind} {k : Code V R Int}
    (hm : Made s₀ s (((id, x) :: gs) ++ rest)) (ho : Ordered ((id, x) :: gs))
    (hr : ∀ g ∈ rest, id ∉ g.2.uses)
    (hk : ∀ s', Made s₀ s' (gs ++ rest) →
      Meets rely mid fault k s' h (fun c s'' h' => h' = h ∧ Closed s₀ rest gs kept s' c s'')) :
    Meets rely mid fault (do if (← release id) ≠ 0 then return 1 else k) s h
      (fun c s' h' => h' = h ∧ Closed s₀ rest ((id, x) :: gs) kept s c s') := by
  refine Meets.bind (release_meets hm (ho.head hr) (fun s' hm' hw => ?_) fun s' hm' hw => ?_)
  · exact ⟨rfl, _, List.suffix_refl _, hm', by simp, fun h => absurd h hw⟩
  · exact (hk s' hm').mono fun c s'' h' hc => ⟨hc.1, hc.2.head hw⟩

theorem free_then {id : Nat} {x : Object Kind} {k : Code V R Int}
    (hm : Made s₀ s (((id, x) :: gs) ++ rest)) (ho : Ordered ((id, x) :: gs))
    (hr : ∀ g ∈ rest, id ∉ g.2.uses)
    (hk : ∀ s', Made s₀ s' (gs ++ rest) →
      Meets rely mid fault k s' h (fun c s'' h' => h' = h ∧ Closed s₀ rest gs kept s' c s'')) :
    Meets rely mid fault (do free id; k) s h
      (fun c s' h' => h' = h ∧ Closed s₀ rest ((id, x) :: gs) kept s c s') :=
  Meets.bind (free_meets hm (ho.head hr) fun s' hm' hw =>
    (hk s' hm').mono fun _ _ _ hc => ⟨hc.1, hc.2.head hw⟩)

theorem objects_ordered {ctx : Context} (hnd : ctx.handles.Nodup) : Ordered ctx.objects := by
  obtain ⟨block, context, channel, pd, buffer, mrControlSend, mrControlReceive, sendCq, receiveCq,
    qp, queue⟩ :=
    ctx
  constructor
  · cases channel <;> simp_all [Context.objects, Context.base, Context.handles]
  · cases channel <;> simp_all [Context.objects, Context.base, Context.handles]

theorem objects_uses {ctx : Context} : ∀ g ∈ ctx.objects, ∀ u ∈ g.2.uses, u ∈ ctx.handles := by
  obtain ⟨block, context, channel, pd, buffer, mrControlSend, mrControlReceive, sendCq, receiveCq,
    qp, queue⟩ :=
    ctx
  cases channel <;> simp [Context.objects, Context.base, Context.handles]

def own (ctx : Context) : List Nat :=
  [ctx.qp, ctx.sendCq, ctx.receiveCq, ctx.mrControlSend, ctx.mrControlReceive, ctx.buffer, ctx.context,
    ctx.block] ++ ctx.channel.toList

def Apart (ctx : Context) (rest : List (Nat × Object Kind)) : Prop :=
  ∀ u ∈ own ctx, ∀ g ∈ rest, u ∉ g.2.uses

/-- Registered memory keeps the protection domain of a context. -/
def Held (ctx : Context) (rest : List (Nat × Object Kind)) : Prop := ∃ g ∈ rest, ctx.pd ∈ g.2.uses

instance (ctx : Context) (rest : List (Nat × Object Kind)) : Decidable (Held ctx rest) := by
  unfold Held
  infer_instance

def leaves (ctx : Context) (rest : List (Nat × Object Kind)) : List (Nat × Object Kind) :=
  if Held ctx rest then ctx.base else []

theorem ppCloseCtx_meets {ctx : Context} (hm : Made s₀ s (ctx.objects ++ rest)) (ha : Apart ctx rest) :
    Meets rely mid fault (ppCloseCtx ctx) s h (fun c s' h' => h' = h ∧
      Closed s₀ rest ctx.objects (leaves ctx rest) s c s') := by
  have ho : Ordered ctx.objects := by
    have hall := hm.since.nodup
    rw [List.map_append] at hall
    exact objects_ordered (List.nodup_append.mp hall).1
  unfold ppCloseCtx
  refine release_then hm ho (ha _ (by simp [own])) fun s₁ h₁ => ?_
  refine release_then h₁ ho.tail (ha _ (by simp [own])) fun s₂ h₂ => ?_
  refine release_then h₂ ho.tail.tail (ha _ (by simp [own])) fun s₃ h₃ => ?_
  refine release_then h₃ ho.tail.tail.tail (ha _ (by simp [own])) fun s₄ h₄ => ?_
  refine release_then h₄ ho.tail.tail.tail.tail (ha _ (by simp [own])) fun s₅ h₅ => ?_
  refine free_then h₅ ho.tail.tail.tail.tail.tail (ha _ (by simp [own])) fun s₆ h₆ => ?_
  have hb : Ordered ctx.base := ho.tail.tail.tail.tail.tail.tail
  by_cases hh : Held ctx rest
  · obtain ⟨g, hg, hu⟩ := hh
    refine Meets.bind (release_used h₆ (List.mem_append_right _ hg) hu fun s₇ h₇ hw => ?_)
    refine ⟨rfl, _, List.suffix_refl _, h₇, by simp [Context.base], fun hs => ⟨hw hs, ?_⟩⟩
    rw [leaves, if_pos ⟨g, hg, hu⟩]
  · rw [leaves, if_neg hh]
    refine release_then h₆ hb (fun g hg hu => hh ⟨g, hg, hu⟩) fun s₇ h₇ => ?_
    have ht := hb.tail
    have hchannel : ∀ c ∈ ctx.channel, ∀ g ∈ rest, c ∉ g.2.uses := by
      rintro c hc
      exact ha c (List.mem_append_right _ (by simpa using hc))
    have hcontext : ∀ g ∈ rest, ctx.context ∉ g.2.uses := ha _ (by simp [own])
    have hblock : ∀ g ∈ rest, ctx.block ∉ g.2.uses := ha _ (by simp [own])
    cases hc : ctx.channel with
    | none =>
      rw [hc] at h₇ ht
      refine release_then h₇ ht hcontext fun s₈ h₈ => ?_
      exact free_then h₈ ht.tail hblock fun s₉ h₉ => ⟨rfl, Closed.all h₉⟩
    | some c =>
      rw [hc] at h₇ ht
      refine release_then h₇ ht (hchannel c hc) fun s₈ h₈ => ?_
      refine release_then h₈ ht.tail hcontext fun s₉ h₉ => ?_
      exact free_then h₉ ht.tail.tail hblock fun s₁₀ h₁₀ => ⟨rfl, Closed.all h₁₀⟩

end NetworkOptimization.Closing
