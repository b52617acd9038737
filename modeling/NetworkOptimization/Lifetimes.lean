import NetworkOptimization.Pairing

namespace NetworkOptimization.Lifetimes

open SequentialCode Postconditions Devices Closing Opening Pairing Runs Dependencies

section Close

variable {V : Type} {R : V → Type} {rely : List (Sigma R) → (v : V) → R v → Prop}
  {mid : Process → List (Sigma R) → V → Prop} {fault : Prop} {h : List (Sigma R)} {s₀ s : Process}
  {rest regs : List (Nat × Object Kind)}

theorem freeAll_meets {xs : List (Nat × Object Kind)} {post : Unit → Process → List (Sigma R) → Prop}
    (hm : Made s₀ s (xs ++ rest)) (hu : ∀ x ∈ xs, ∀ g ∈ xs ++ rest, x.1 ∉ g.2.uses)
    (hp : ∀ s', Made s₀ s' rest → (Willing s → Willing s') → post () s' h) :
    Meets rely mid fault (freeAll (xs.map Prod.fst)) s h post := by
  induction xs generalizing s with
  | nil => exact hp s hm fun hw => hw
  | cons x xs ih =>
    refine Meets.bind (free_meets hm (hu x List.mem_cons_self) fun s₁ h₁ hw => ?_)
    refine ih h₁ (fun y hy g hg => hu y (List.mem_cons_of_mem x hy) g (List.mem_cons_of_mem x hg))
      fun s' hm' hw' => ?_
    exact hp s' hm' fun h => hw' (hw h)

theorem apart_append {ctx : Context} {gs : List (Nat × Object Kind)} (ha : Apart ctx rest)
    (hd : ∀ u ∈ ctx.handles, ∀ g ∈ gs, u ∉ g.2.uses) :
    Apart ctx (gs ++ rest) ∧ (Held ctx (gs ++ rest) ↔ Held ctx rest) := by
  have hown : ∀ u ∈ own ctx, u ∈ ctx.handles := by
    intro u hu
    cases hc : ctx.channel <;>
      simp [own, Context.handles, Context.objects, Context.base, hc] at hu ⊢ <;> tauto
  have hpd : ctx.pd ∈ ctx.handles := by simp [Context.handles, Context.objects, Context.base]
  refine ⟨fun u hu g hg => ?_, ?_, ?_⟩
  · exact (List.mem_append.mp hg).elim (hd u (hown u hu) g) (ha u hu g)
  · rintro ⟨g, hg, hgu⟩
    exact ⟨g, (List.mem_append.mp hg).resolve_left fun hm => hd _ hpd g hm hgu, hgu⟩
  · rintro ⟨g, hg, hgu⟩
    exact ⟨g, List.mem_append_right _ hg, hgu⟩

theorem closeContexts_meets (regs : List (Nat × Object Kind)) {ctxs : List Context}
    {post : Unit → Process → List (Sigma R) → Prop}
    (hm : Made s₀ s (ctxs.flatMap Context.objects ++ rest)) (ha : ∀ ctx ∈ ctxs, Apart ctx rest)
    (hh : ∀ ctx ∈ ctxs, (Held ctx rest ↔ Held ctx regs))
    (hp : ∀ left s', (∀ g ∈ left, g ∈ ctxs.flatMap Context.objects) → Made s₀ s' (left ++ rest) →
      (Willing s → Willing s' ∧ left = ctxs.flatMap (fun ctx => leaves ctx regs)) → post () s' h) :
    Meets rely mid fault (closeContexts ctxs) s h post := by
  induction ctxs generalizing s rest with
  | nil => exact hp [] s (by simp) hm fun hw => ⟨hw, rfl⟩
  | cons ctx ctxs ih =>
    have hnd : (ctx.handles ++ (ctxs.flatMap Context.objects).map Prod.fst).Nodup := by
      have hall := hm.since.nodup
      rw [List.flatMap_cons, List.map_append, List.map_append] at hall
      exact (List.nodup_append.mp hall).1
    have hdisjoint : ∀ u ∈ ctx.handles, ∀ ctx' ∈ ctxs, u ∉ ctx'.handles := by
      intro u hu ctx' hctx' hu'
      obtain ⟨g, hg, rfl⟩ := List.mem_map.mp hu'
      exact (List.nodup_append.mp hnd).2.2 _ hu _
        (List.mem_map_of_mem (List.mem_flatMap.mpr ⟨ctx', hctx', hg⟩)) rfl
    have hothers : ∀ u ∈ ctx.handles, ∀ g ∈ ctxs.flatMap Context.objects, u ∉ g.2.uses := by
      intro u hu g hg huse
      obtain ⟨ctx', hctx', hg⟩ := List.mem_flatMap.mp hg
      exact hdisjoint u hu ctx' hctx' (objects_uses g hg u huse)
    obtain ⟨hapart, hheld⟩ := apart_append (ha ctx List.mem_cons_self) hothers
    have hmade : Made s₀ s (ctx.objects ++ (ctxs.flatMap Context.objects ++ rest)) := by
      rw [← List.append_assoc]
      exact hm
    refine Meets.bind ((ppCloseCtx_meets hmade hapart).mono fun c s₁ h₁ hc => ?_)
    obtain ⟨rfl, left, hleft, hm₁, -, hw₁⟩ := hc
    have hmem : ∀ g ∈ left, g ∈ ctx.objects := fun g hg => hleft.subset hg
    have hsplit : ∀ ctx' ∈ ctxs, ∀ u ∈ ctx'.handles, ∀ g ∈ left, u ∉ g.2.uses :=
      fun ctx' hctx' u hu g hg huse =>
      hdisjoint u (objects_uses g (hmem g hg) u huse) ctx' hctx' hu
    have hnext : Made s₀ s₁ (ctxs.flatMap Context.objects ++ (left ++ rest)) :=
      hm₁.perm (List.perm_append_comm_assoc _ _ _)
    refine ih hnext (fun ctx' hctx' => ?_) (fun ctx' hctx' => ?_) fun left' s' hmem' hm' hw' => ?_
    · exact (apart_append (ha ctx' (List.mem_cons_of_mem ctx hctx')) (hsplit ctx' hctx')).1
    · exact (apart_append (ha ctx' (List.mem_cons_of_mem ctx hctx')) (hsplit ctx' hctx')).2.trans
        (hh ctx' (List.mem_cons_of_mem ctx hctx'))
    · refine hp (left ++ left') s' (fun g hg => ?_) ?_ fun hw => ?_
      · rw [List.flatMap_cons, List.mem_append]
        exact (List.mem_append.mp hg).imp (hmem g) (hmem' g)
      · rw [List.append_assoc]
        exact hm'.perm (List.perm_append_comm_assoc _ _ _)
      · obtain ⟨hws, rfl⟩ := hw₁ hw
        obtain ⟨hws', rfl⟩ := hw' hws
        refine ⟨hws', ?_⟩
        rw [List.flatMap_cons]
        congr 1
        unfold leaves
        rw [if_congr (hheld.trans (hh ctx List.mem_cons_self)) rfl rfl]

def plain (handle : KVHandle) : List (Nat × Object Kind) :=
  handle.remotes.map (fun r => (r.block, ⟨.block, []⟩)) ++
    baseObjects handle.block handle.devList handle.arrayCtxPtr handle.arrayRemoteDest

/-- Of the objects of a handle `regs` uses the protection domains only. -/
def Outside (handle : KVHandle) (regs : List (Nat × Object Kind)) : Prop :=
  (∀ r ∈ handle.remotes, Apart r.ctx regs) ∧ ∀ x ∈ plain handle, ∀ g ∈ regs, x.1 ∉ g.2.uses

def remains (handle : KVHandle) (regs : List (Nat × Object Kind)) : List (Nat × Object Kind) :=
  handle.remotes.flatMap (fun r => leaves r.ctx regs)

theorem plain_uses (handle : KVHandle) : ∀ g ∈ plain handle, g.2.uses = [] := by
  intro g hg
  simp only [plain, baseObjects, List.mem_append, List.mem_map] at hg
  obtain ⟨r, -, rfl⟩ | ⟨id, -, rfl⟩ | ⟨id, -, rfl⟩ | hg := hg
  · rfl
  · rfl
  · rfl
  · simp only [List.mem_cons, List.not_mem_nil, or_false] at hg
    obtain rfl | rfl := hg <;> rfl

theorem kvClose_meets {handle : KVHandle} {post : Int → Process → List (Sigma R) → Prop}
    (hm : Made s₀ s (handle.objects ++ regs)) (ho : Outside handle regs)
    (hp : ∀ left s', (∀ g ∈ left, g ∈ handle.remotes.flatMap (fun r => r.ctx.objects)) →
      Made s₀ s' (left ++ (handle.block, ⟨.block, []⟩) :: regs) →
      (Willing s → left = remains handle regs) → post 0 s' h) :
    Meets rely mid fault (kvClose handle) s h post := by
  have hsplit : handle.objects ++ regs =
      (handle.remotes.map Remote.ctx).flatMap Context.objects ++ (plain handle ++ regs) := by
    simp [KVHandle.objects, remoteObjects, plain, List.flatMap_map]
  rw [hsplit] at hm
  have hdisjoint : ∀ x ∈ plain handle, ∀ ctx ∈ handle.remotes.map Remote.ctx, x.1 ∉ ctx.handles := by
    intro x hx ctx hctx hmem
    have hnd := hm.since.nodup
    rw [List.map_append] at hnd
    obtain ⟨g, hg, hgx⟩ := List.mem_map.mp hmem
    exact (List.nodup_append.mp hnd).2.2 x.1
      (hgx ▸ List.mem_map_of_mem (List.mem_flatMap.mpr ⟨ctx, hctx, hg⟩)) x.1
      (List.mem_map_of_mem (List.mem_append_left _ hx)) rfl
  have hapart : ∀ ctx ∈ handle.remotes.map Remote.ctx, Apart ctx (plain handle ++ regs) ∧
      (Held ctx (plain handle ++ regs) ↔ Held ctx regs) := by
    intro ctx hctx
    obtain ⟨r, hr, rfl⟩ := List.mem_map.mp hctx
    refine apart_append (ho.1 r hr) fun u _ g hg hu => ?_
    rw [plain_uses handle g hg] at hu
    cases hu
  unfold kvClose
  refine Meets.bind (closeContexts_meets regs hm (fun ctx hctx => (hapart ctx hctx).1)
    (fun ctx hctx => (hapart ctx hctx).2) fun left s₁ hleft h₁ hw₁ => ?_)
  have hunused : ∀ x ∈ plain handle, ∀ g ∈ left ++ (plain handle ++ regs), x.1 ∉ g.2.uses := by
    intro x hx g hg hu
    obtain hg | hg := List.mem_append.mp hg
    · obtain ⟨ctx, hctx, hg⟩ := List.mem_flatMap.mp (hleft g hg)
      exact hdisjoint x hx ctx hctx (objects_uses g hg _ hu)
    · obtain hg | hg := List.mem_append.mp hg
      · rw [plain_uses handle g hg] at hu
        cases hu
      · exact ho.2 x hx g hg hu
  let blocks : List (Nat × Object Kind) := handle.remotes.map (fun r => (r.block, ⟨.block, []⟩))
  let ctxPtrs : List (Nat × Object Kind) := handle.arrayCtxPtr.toList.map (fun id => (id, ⟨.block, []⟩))
  let dests : List (Nat × Object Kind) := handle.arrayRemoteDest.toList.map (fun id => (id, ⟨.block, []⟩))
  let others : List (Nat × Object Kind) := (handle.block, ⟨.block, []⟩) :: (left ++ regs)
  have hplain : plain handle = blocks ++ (ctxPtrs ++ (dests ++ [(handle.devList, ⟨.deviceList, []⟩),
      (handle.block, ⟨.block, []⟩)])) := rfl
  have hperm : (left ++ (plain handle ++ regs)).Perm
      (blocks ++ (ctxPtrs ++ (dests ++ (handle.devList, ⟨.deviceList, []⟩) :: others))) := by
    refine (List.perm_append_comm_assoc _ _ _).trans ?_
    rw [hplain]
    simp [others]
  have h₂ := h₁.perm hperm
  have hfree : ∀ x ∈ plain handle,
    ∀ g ∈ blocks ++ (ctxPtrs ++ (dests ++ (handle.devList, ⟨.deviceList, []⟩) :: others)),
      x.1 ∉ g.2.uses := fun x hx g hg => hunused x hx g (hperm.mem_iff.mpr hg)
  have hblocks : blocks.map Prod.fst = handle.remotes.map Remote.block := by simp [blocks]
  have hctxPtrs : ctxPtrs.map Prod.fst = handle.arrayCtxPtr.toList := by
    cases hc : handle.arrayCtxPtr <;> simp [ctxPtrs, hc]
  have hdests : dests.map Prod.fst = handle.arrayRemoteDest.toList := by
    cases hc : handle.arrayRemoteDest <;> simp [dests, hc]
  rw [← hblocks, ← hctxPtrs, ← hdests]
  refine Meets.bind (freeAll_meets h₂ (fun x hx => hfree x ?_) fun s₂ h₃ _ => ?_)
  · rw [hplain]
    exact List.mem_append_left _ hx
  refine Meets.bind (freeAll_meets h₃ (fun x hx g hg => hfree x ?_ g ?_) fun s₃ h₄ _ => ?_)
  · rw [hplain]
    exact List.mem_append_right _ (List.mem_append_left _ hx)
  · exact List.mem_append_right _ hg
  refine Meets.bind (freeAll_meets h₄ (fun x hx g hg => hfree x ?_ g ?_) fun s₄ h₅ _ => ?_)
  · rw [hplain]
    exact List.mem_append_right _ (List.mem_append_right _ (List.mem_append_left _ hx))
  · exact List.mem_append_right _ (List.mem_append_right _ hg)
  refine Meets.bind (free_meets h₅ (fun g hg => hfree (handle.devList, ⟨.deviceList, []⟩) ?_ g ?_)
    fun s₅ h₆ _ => ?_)
  · rw [hplain]
    simp
  · exact List.mem_append_right _ (List.mem_append_right _ (List.mem_append_right _ hg))
  refine hp left s₅ (fun g hg => ?_) (h₆.perm List.perm_middle.symm) fun hw => ?_
  · simpa [List.flatMap_map] using hleft g hg
  · rw [(hw₁ hw).2]
    simp [remains, List.flatMap_map]

end Close

variable {ι : Type} [DecidableEq ι] {n : Nat} {S : World ι}

instance (handle : KVHandle) (regs : List (Nat × Object Kind)) : Decidable (Outside handle regs) := by
  unfold Outside Apart
  infer_instance

def region (pd block : Nat) : List (Nat × Object Kind) :=
  [(block + 1, ⟨.mr, [pd, block]⟩), (block, ⟨.block, []⟩)]

theorem made_region {s : Process} {pd : Nat} (hpd : (s.registry.live pd).isSome) :
    ∃ s', Made s s' (region pd s.registry.count) := by
  obtain ⟨block, r₁, h₁⟩ := @Registry.create_isSome _ s.registry [] Kind.block (by simp)
  obtain ⟨rfl, hcount, hlive⟩ := Registry.create_eq_some h₁
  obtain ⟨x, hx⟩ := Option.isSome_iff_exists.mp hpd
  have hne : pd ≠ s.registry.count := (Registry.live_lt hx).ne
  have huses : ∀ u ∈ [pd, s.registry.count], (r₁.live u).isSome := by
    rw [hlive]
    simp [Function.update_of_ne hne, hpd]
  obtain ⟨mr, r₂, h₂⟩ := Registry.create_isSome Kind.mr huses
  obtain ⟨rfl, -, -⟩ := Registry.create_eq_some h₂
  have hsince := ((Registry.Since.refl s.registry).create h₁).create h₂
  rw [hcount] at hsince
  exact ⟨s.setRegistry r₂, rfl, hsince, fun _ _ => rfl⟩

/-- Whatever registered memory is left when a handle of `kv_open` is closed, `kv_close` returns `0`
and takes nothing but what `kv_open` made. The block of the handle stays, and of a context what
cannot go. -/
theorem close_gives_back (h : Reached n S) {p : Party ι} (hp : p = S.server ∨ ∃ i, p = S.client i)
    {handle : KVHandle} (hd : p.stop = .done (some handle)) {s : Process} {regs : List (Nat × Object Kind)}
    (hs : Made p.memory s regs) (ho : Outside handle regs) :
    ∃ s' left, settle (kvClose handle : Net (Descriptor ι) Int) s = some (s', .done 0) ∧
      Made p.start s' (left ++ (handle.block, ⟨.block, []⟩) :: regs) ∧
      (∀ g ∈ left, g ∈ handle.remotes.flatMap (fun r => r.ctx.objects)) ∧
      (Willing s → left = remains handle regs) := by
  have hw := wired h
  have hopen : Made p.start p.memory handle.objects := by
    obtain rfl | ⟨i, rfl⟩ := hp
    · have hr := hw.server
      rw [hd] at hr
      exact (hr.2 handle rfl).1
    · have hr := hw.client i
      rw [hd] at hr
      exact (hr.2 handle rfl).1
  have hm : Made p.start s (handle.objects ++ regs) := (hopen.trans hs).perm List.perm_append_comm
  have hmeets : Meets (fun _ _ _ => True)
    (fun _ _ _ => False) False (kvClose handle : Net (Descriptor ι) Int) s []
      (fun c s' _ => c = 0 ∧ ∃ left, Made p.start s' (left ++ (handle.block, ⟨.block, []⟩) :: regs) ∧
        (∀ g ∈ left, g ∈ handle.remotes.flatMap (fun r => r.ctx.objects)) ∧
        (Willing s → left = remains handle regs)) :=
    kvClose_meets hm ho fun left s' hleft hmade hall => ⟨rfl, left, hmade, hleft, hall⟩
  obtain ⟨s', c, h', hclose, rfl, left, hmade, hleft, hall⟩ := hmeets.ends
  exact ⟨s', left, hclose, hmade, hleft, hall⟩

theorem close_gives_back_pair : ∃ (S : World Unit) (handle : KVHandle) (s s' : Process) (pd block : Nat)
    (left : List (Nat × Object Kind)), Reached 1 S ∧ (S.client ()).stop = .done (some handle) ∧
      Made (S.client ()).memory s (region pd block) ∧
      settle (kvClose handle : Net (Descriptor Unit) Int) s = some (s', .done 0) ∧
        Made (S.client ()).start s' (left ++ (handle.block, ⟨.block, []⟩) :: region pd block) := by
  have hrun : (run move pair setup).map (fun S => ((S.client ()).handle.map (fun handle =>
      decide (Outside handle (region 6 (S.client ()).memory.registry.count))),
        ((S.client ()).memory.registry.live 6).isSome)) = some (some true, true) := by
    decide +kernel
  obtain ⟨S, hS, hfields⟩ := Option.map_eq_some_iff.mp hrun
  obtain ⟨hclient, hpd⟩ := Prod.mk.inj hfields
  obtain ⟨handle, hhandle, houtside⟩ := Option.map_eq_some_iff.mp hclient
  have hreached : Reached 1 S := Reach.run (.start pair_start) (fun _ _ _ => trivial) hS
  have hstop := Party.handle_eq_some hhandle
  obtain ⟨s, hs⟩ := made_region hpd
  obtain ⟨s', left, hclose, hmade, -⟩ :=
    close_gives_back hreached (.inr ⟨(), rfl⟩) hstop hs (of_decide_eq_true houtside)
  exact ⟨S, handle, s, s', 6, _, left, hreached, hstop, hs, hclose, hmade⟩

end NetworkOptimization.Lifetimes
