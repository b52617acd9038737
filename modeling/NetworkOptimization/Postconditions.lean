import NetworkOptimization.SequentialCode

namespace NetworkOptimization.Postconditions

open SequentialCode

variable {σ V : Type} {R : V → Type} {α β : Type}

/-- A routine from `s` on, behind the answered calls `h`. Whatever answers it gets within `rely`,
`mid` holds at every call and `post` at the end, and its behaviour is undefined only where `fault`
holds. -/
def Meets (rely : List (Sigma R) → (v : V) → R v → Prop) (mid : σ → List (Sigma R) → V → Prop)
    (fault : Prop) :
    Routine σ V R α → σ → List (Sigma R) → (α → σ → List (Sigma R) → Prop) → Prop
  | .ret a, s, h, post => post a s h
  | .load k, s, h, post => Meets rely mid fault (k s) s h post
  | .store s k, _, h, post => Meets rely mid fault k s h post
  | .fault, _, _, _ => fault
  | .call v k, s, h, post =>
    mid s h v ∧ ∀ r, rely h v r → Meets rely mid fault (k r) s (h ++ [⟨v, r⟩]) post

variable {rely : List (Sigma R) → (v : V) → R v → Prop} {mid : σ → List (Sigma R) → V → Prop}
  {fault : Prop} {m : Routine σ V R α} {s : σ} {h : List (Sigma R)}
  {post post' : α → σ → List (Sigma R) → Prop}

theorem Meets.mono (hm : Meets rely mid fault m s h post) (hp : ∀ a s' h', post a s' h' → post' a s' h') :
    Meets rely mid fault m s h post' := by
  induction m generalizing s h with
  | ret a => exact hp a s h hm
  | load k ih => exact ih s hm
  | store t k ih => exact ih hm
  | fault => exact hm
  | call v k ih => exact ⟨hm.1, fun r hr => ih r (hm.2 r hr)⟩

theorem Meets.bind {f : α → Routine σ V R β} {post : β → σ → List (Sigma R) → Prop}
    (hm : Meets rely mid fault m s h (fun a s' h' => Meets rely mid fault (f a) s' h' post)) :
    Meets rely mid fault (m >>= f) s h post := by
  induction m generalizing s h with
  | ret a => exact hm
  | load k ih => exact ih s hm
  | store t k ih => exact ih hm
  | fault => exact hm
  | call v k ih => exact ⟨hm.1, fun r hr => ih r (hm.2 r hr)⟩

theorem Meets.locally {f : σ → Option (α × σ)} (hs : ∀ a s', f s = some (a, s') → post a s' h)
    (hn : f s = none → fault) : Meets rely mid fault (locally f) s h post := by
  cases hf : f s with
  | none =>
    simp only [SequentialCode.locally, Meets, hf]
    exact hn hf
  | some p =>
    simp only [SequentialCode.locally, Meets, hf]
    exact hs p.1 p.2 hf

theorem Meets.require {o : Option α} (hs : ∀ a, o = some a → post a s h) (hn : o = none → fault) :
    Meets rely mid fault (require o) s h post := by
  cases o with
  | none => exact hn rfl
  | some a => exact hs a rfl

theorem Meets.gets {f : σ → α} (hp : post (f s) s h) : Meets rely mid fault (gets f) s h post := hp

theorem Meets.modify {f : σ → σ} {post : Unit → σ → List (Sigma R) → Prop} (hp : post () (f s) h) :
    Meets rely mid fault (modify f) s h post := hp

theorem Meets.request {v : V} {post : R v → σ → List (Sigma R) → Prop} (hv : mid s h v)
    (hr : ∀ r, rely h v r → post r s (h ++ [⟨v, r⟩])) : Meets rely mid fault (request v) s h post :=
  ⟨hv, hr⟩

theorem Meets.ends (hm : Meets rely (fun _ _ _ => False) False m s h post) :
    ∃ s' a h', settle m s = some (s', .done a) ∧ post a s' h' := by
  induction m generalizing s with
  | ret a => exact ⟨s, a, h, rfl, hm⟩
  | load k ih => exact ih s hm
  | store t k ih => exact ih hm
  | fault => exact hm.elim
  | call v k => exact hm.1.elim

/-- What `Meets` says of a routine that rests. -/
def Rests (rely : List (Sigma R) → (v : V) → R v → Prop) (mid : σ → List (Sigma R) → V → Prop)
    (fault : Prop) (s : σ) (h : List (Sigma R)) (post : α → σ → List (Sigma R) → Prop) :
    Stop σ V R α → Prop
  | .done a => post a s h
  | .waiting v k => mid s h v ∧ ∀ r, rely h v r → Meets rely mid fault (k r) s (h ++ [⟨v, r⟩]) post

theorem Meets.settle {s' : σ} {stop : Stop σ V R α} (hm : Meets rely mid fault m s h post)
    (hs : settle m s = some (s', stop)) : Rests rely mid fault s' h post stop := by
  induction m generalizing s with
  | ret a =>
    cases hs
    exact hm
  | load k ih => exact ih s hm hs
  | store t k ih => exact ih hm hs
  | fault => cases hs
  | call v k =>
    cases hs
    exact hm

end NetworkOptimization.Postconditions
