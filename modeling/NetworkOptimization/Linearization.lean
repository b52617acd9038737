import Mathlib.Data.List.Nodup

namespace NetworkOptimization.Linearization

variable {I O R σ : Type}

/-- A sequential object: what an operation may do in a state, and with which result. -/
structure Object (O R σ : Type) where
  init : σ
  Step : σ → O → R → σ → Prop

/-- What is seen of concurrent operations from outside. -/
inductive Occurrence (I R : Type) where
  | invoked (i : I)
  | returned (i : I) (r : R)
  deriving DecidableEq

/-- The occurrences of a run together with the moments at which operations take effect. -/
inductive Mark (I R : Type) where
  | seen (o : Occurrence I R)
  | effect (i : I) (r : R)

inductive Legal (X : Object O R σ) (op : I → O) : List (I × R) → σ → Prop
  | nil : Legal X op [] X.init
  | cons {L s t i r} (h : Legal X op L s) (hs : X.Step s (op i) r t) : Legal X op ((i, r) :: L) t

/-- `L` orders operations of the history `H` as if they had happened one after another:
all that returned are in it with their results, and who returned before another was
invoked comes before it. Both lists have the newest first. -/
structure Linearizes (X : Object O R σ) (op : I → O) (H : List (Occurrence I R))
    (L : List (I × R)) : Prop where
  legal : ∃ s, Legal X op L s
  once : (L.map Prod.fst).Nodup
  invoked : ∀ i r, (i, r) ∈ L → .invoked i ∈ H
  returned : ∀ i r, .returned i r ∈ H → (i, r) ∈ L
  ordered : ∀ i r j r', [.invoked j, .returned i r].Sublist H → (j, r') ∈ L →
    [(j, r'), (i, r)].Sublist L

def Linearizable (X : Object O R σ) (op : I → O) (H : List (Occurrence I R)) : Prop :=
  ∃ L, Linearizes X op H L

def visible (M : List (Mark I R)) : List (Occurrence I R) :=
  M.filterMap fun
    | .seen o => some o
    | .effect _ _ => none

def effects (M : List (Mark I R)) : List (I × R) :=
  M.filterMap fun
    | .seen _ => none
    | .effect i r => some (i, r)

@[simp] theorem visible_seen (o : Occurrence I R) (M : List (Mark I R)) :
    visible (.seen o :: M) = o :: visible M := rfl

@[simp] theorem visible_effect (i : I) (r : R) (M : List (Mark I R)) :
    visible (.effect i r :: M) = visible M := rfl

@[simp] theorem effects_seen (o : Occurrence I R) (M : List (Mark I R)) :
    effects (.seen o :: M) = effects M := rfl

@[simp] theorem effects_effect (i : I) (r : R) (M : List (Mark I R)) :
    effects (.effect i r :: M) = (i, r) :: effects M := rfl

@[simp] theorem mem_effects {i : I} {r : R} {M : List (Mark I R)} :
    (i, r) ∈ effects M ↔ .effect i r ∈ M := by
  induction M with
  | nil => simp [effects]
  | cons m M ih => cases m <;> simp [ih]

@[simp] theorem mem_visible {o : Occurrence I R} {M : List (Mark I R)} :
    o ∈ visible M ↔ .seen o ∈ M := by
  induction M with
  | nil => simp [visible]
  | cons m M ih => cases m <;> simp [ih]

/-- The marks of a run that leads the object to `s`: an operation is invoked once, it takes
effect at most once after that, and it returns once, with the result of its effect. -/
inductive Marked (X : Object O R σ) (op : I → O) : List (Mark I R) → σ → Prop
  | nil : Marked X op [] X.init
  | invoked {M s i} (h : Marked X op M s) (hi : .seen (.invoked i) ∉ M) :
      Marked X op (.seen (.invoked i) :: M) s
  | effect {M s t i r} (h : Marked X op M s) (hi : .seen (.invoked i) ∈ M)
      (hno : ∀ r, .effect i r ∉ M) (hs : X.Step s (op i) r t) : Marked X op (.effect i r :: M) t
  | returned {M s i r} (h : Marked X op M s) (he : .effect i r ∈ M)
      (hno : ∀ r, .seen (.returned i r) ∉ M) : Marked X op (.seen (.returned i r) :: M) s

variable {X : Object O R σ} {op : I → O} {M : List (Mark I R)} {s : σ} {i : I} {r : R}

theorem Marked.invoked_of_effect (h : Marked X op M s) (he : .effect i r ∈ M) :
    .seen (.invoked i) ∈ M := by
  induction h with
  | nil => cases he
  | invoked _ _ ih | returned _ _ _ ih =>
    exact List.mem_cons_of_mem _ (ih (by simpa using he))
  | @effect M s t j r' h hi hno hs ih =>
    obtain heq | he := List.mem_cons.mp he
    · cases heq
      exact List.mem_cons_of_mem _ hi
    · exact List.mem_cons_of_mem _ (ih he)

theorem Marked.effect_of_returned (h : Marked X op M s) (hr : .seen (.returned i r) ∈ M) :
    .effect i r ∈ M := by
  induction h with
  | nil => cases hr
  | invoked _ _ ih | effect _ _ _ _ ih =>
    exact List.mem_cons_of_mem _ (ih (by simpa using hr))
  | returned _ he _ ih =>
    obtain heq | hr := List.mem_cons.mp hr
    · cases heq
      exact List.mem_cons_of_mem _ he
    · exact List.mem_cons_of_mem _ (ih hr)

theorem Marked.effect_unique (h : Marked X op M s) {r' : R} (he : .effect i r ∈ M)
    (he' : .effect i r' ∈ M) : r = r' := by
  induction h with
  | nil => cases he
  | invoked _ _ ih | returned _ _ _ ih => exact ih (by simpa using he) (by simpa using he')
  | effect _ _ hno _ ih =>
    obtain heq | hm := List.mem_cons.mp he <;> obtain heq' | hm' := List.mem_cons.mp he'
    · cases heq
      cases heq'
      rfl
    · cases heq
      exact absurd hm' (hno r')
    · cases heq'
      exact absurd hm (hno r)
    · exact ih hm hm'

theorem Marked.legal (h : Marked X op M s) : Legal X op (effects M) s := by
  induction h with
  | nil => exact .nil
  | invoked _ _ ih | returned _ _ _ ih => exact ih
  | effect _ _ _ hs ih => exact ih.cons hs

theorem Marked.once (h : Marked X op M s) : ((effects M).map Prod.fst).Nodup := by
  induction h with
  | nil => exact List.nodup_nil
  | invoked _ _ ih | returned _ _ _ ih => exact ih
  | effect _ _ hno _ ih =>
    refine List.nodup_cons.mpr ⟨fun hm => ?_, ih⟩
    obtain ⟨⟨j, r'⟩, hm, heq⟩ := List.mem_map.mp hm
    cases heq
    exact hno r' (mem_effects.mp hm)

theorem Marked.ordered (h : Marked X op M s) {j : I} {r' : R}
    (hb : [.invoked j, .returned i r].Sublist (visible M)) (hj : (j, r') ∈ effects M) :
    [(j, r'), (i, r)].Sublist (effects M) := by
  induction h with
  | nil => cases hj
  | @invoked M s k h hi ih =>
    obtain hb | ⟨l, hl, hb⟩ := List.sublist_cons_iff.mp hb
    · exact ih hb hj
    · -- the operation has just been invoked, so it had no effect yet
      cases hl
      exact absurd (h.invoked_of_effect (mem_effects.mp hj)) hi
  | effect h hi hno hs ih =>
    obtain heq | hj := List.mem_cons.mp hj
    · cases heq
      have hr : .returned i r ∈ visible _ := hb.subset (by simp)
      have he := h.effect_of_returned (mem_visible.mp hr)
      exact (List.singleton_sublist.mpr (mem_effects.mpr he)).cons_cons _
    · exact (ih hb hj).cons _
  | returned h he hno ih =>
    obtain hb | ⟨l, hl, -⟩ := List.sublist_cons_iff.mp hb
    · exact ih hb hj
    · cases hl

theorem Marked.linearizes (h : Marked X op M s) : Linearizes X op (visible M) (effects M) where
  legal := ⟨s, h.legal⟩
  once := h.once
  invoked _ _ hm := mem_visible.mpr (h.invoked_of_effect (mem_effects.mp hm))
  returned _ _ hr := mem_effects.mpr (h.effect_of_returned (mem_visible.mp hr))
  ordered _ _ _ _ hb hj := h.ordered hb hj

end NetworkOptimization.Linearization
