import Mathlib.Data.Option.Basic
import Mathlib.Data.Set.Insert
import Mathlib.Logic.Function.Basic

namespace NetworkOptimization.Dependencies

open Function (update)

variable {K : Type}

structure Object (K : Type) where
  kind : K
  uses : List Nat

/-- Objects that use one another. A handle is given out once, and an object is there only
as long as all that it uses is there. -/
structure Registry (K : Type) where
  count : Nat
  live : Nat → Option (Object K)
  fresh : ∀ i, count ≤ i → live i = none
  closed : ∀ i x, live i = some x → ∀ u ∈ x.uses, (live u).isSome

namespace Registry

def empty : Registry K := ⟨0, fun _ => none, fun _ _ => rfl, fun _ _ h => by cases h⟩

def create (kind : K) (uses : List Nat) (r : Registry K) : Option (Nat × Registry K) :=
  if h : ∀ u ∈ uses, (r.live u).isSome then
    some (r.count, {
      count := r.count + 1
      live := update r.live r.count (some ⟨kind, uses⟩)
      fresh := fun i hi => by
        rw [Function.update_of_ne (by omega)]
        exact r.fresh i (by omega)
      closed := fun i x hx u hu => by
        have hlive : (r.live u).isSome := by
          by_cases hi : i = r.count
          · subst hi
            rw [Function.update_self] at hx
            cases hx
            exact h u hu
          · rw [Function.update_of_ne hi] at hx
            exact r.closed i x hx u hu
        by_cases hc : u = r.count
        · subst hc
          rw [Function.update_self]
          rfl
        · rwa [Function.update_of_ne hc] })
  else none

/-- Only the objects of `us` use the object. -/
def UsedBy (r : Registry K) (id : Nat) (us : Set Nat) : Prop :=
  ∀ i x, r.live i = some x → id ∈ x.uses → i ∈ us

def Unused (r : Registry K) (id : Nat) : Prop := ∀ i < r.count, ∀ x ∈ r.live i, id ∉ x.uses

instance (r : Registry K) (id : Nat) : Decidable (Unused r id) := by
  unfold Unused
  infer_instance

theorem unused_iff {r : Registry K} {id : Nat} : r.Unused id ↔ r.UsedBy id ∅ := by
  constructor
  · intro h i x hx hu
    refine h i ?_ x hx hu
    by_contra hi
    rw [r.fresh i (Nat.le_of_not_lt hi)] at hx
    cases hx
  · exact fun h i _ x hx hu => h i x hx hu

def destroy (id : Nat) (r : Registry K) : Option (Registry K) :=
  if h : (r.live id).isSome ∧ r.Unused id then
    some {
      count := r.count
      live := update r.live id none
      fresh := fun i hi => by
        by_cases hid : i = id
        · rw [hid, Function.update_self]
        · rw [Function.update_of_ne hid]
          exact r.fresh i hi
      closed := fun i x hx u hu => by
        by_cases hid : i = id
        · rw [hid, Function.update_self] at hx
          cases hx
        · rw [Function.update_of_ne hid] at hx
          have hne : u ≠ id := by
            rintro rfl
            exact unused_iff.mp h.2 i x hx hu
          rw [Function.update_of_ne hne]
          exact r.closed i x hx u hu }
  else none

variable {r r' : Registry K} {id : Nat} {kind : K} {uses : List Nat}

theorem create_eq_some (h : r.create kind uses = some (id, r')) :
    id = r.count ∧ r'.count = r.count + 1 ∧ r'.live = update r.live id (some ⟨kind, uses⟩) := by
  unfold create at h
  split at h
  · cases h
    exact ⟨rfl, rfl, rfl⟩
  · cases h

theorem create_isSome (kind : K) (h : ∀ u ∈ uses, (r.live u).isSome) :
    ∃ id r', r.create kind uses = some (id, r') := by
  rw [create, dif_pos h]
  exact ⟨_, _, rfl⟩

theorem destroy_eq_some (h : r.destroy id = some r') :
    r.UsedBy id ∅ ∧ (r.live id).isSome ∧ r'.count = r.count ∧ r'.live = update r.live id none := by
  unfold destroy at h
  split at h
  · rename_i hu
    cases h
    exact ⟨unused_iff.mp hu.2, hu.1, rfl, rfl⟩
  · cases h

theorem destroy_isSome (hid : (r.live id).isSome) (hu : r.UsedBy id ∅) : ∃ r', r.destroy id = some r' := by
  rw [destroy, dif_pos ⟨hid, unused_iff.mpr hu⟩]
  exact ⟨_, rfl⟩

theorem live_lt {x : Object K} (hx : r.live id = some x) : id < r.count := by
  by_contra hle
  rw [r.fresh id (Nat.le_of_not_lt hle)] at hx
  cases hx

/-- What is there now besides the objects of `r₀`, which are as they were. -/
structure Since (r₀ r : Registry K) (gs : List (Nat × Object K)) : Prop where
  count : r₀.count ≤ r.count
  old : ∀ i < r₀.count, r.live i = r₀.live i
  nodup : (gs.map Prod.fst).Nodup
  new : ∀ i x, r₀.count ≤ i → (r.live i = some x ↔ (i, x) ∈ gs)
  later : ∀ g ∈ gs, r₀.count ≤ g.1

variable {r₀ : Registry K} {gs gs' : List (Nat × Object K)} {x : Object K}

theorem Since.refl (r : Registry K) : Since r r [] := by
  refine ⟨Nat.le_refl _, fun i _ => rfl, List.nodup_nil, fun i x hi => ?_, fun g hg => ?_⟩
  · simp [r.fresh i hi]
  · cases hg

theorem Since.live (h : Since r₀ r gs) {g : Nat × Object K} (hg : g ∈ gs) : r.live g.1 = some g.2 :=
  (h.new _ _ (h.later g hg)).mpr hg

theorem Since.perm (h : Since r₀ r gs) (hp : gs.Perm gs') : Since r₀ r gs' where
  count := h.count
  old := h.old
  nodup := (hp.map _).nodup_iff.mp h.nodup
  new := fun i x hi => (h.new i x hi).trans hp.mem_iff
  later := fun g hg => h.later g (hp.mem_iff.mpr hg)

theorem Since.trans (h : Since r₀ r gs) (h' : Since r r' gs') : Since r₀ r' (gs' ++ gs) := by
  refine ⟨h.count.trans h'.count, fun i hi => ?_, ?_, fun i x hi => ?_, fun g hg => ?_⟩
  · rw [h'.old i (Nat.lt_of_lt_of_le hi h.count), h.old i hi]
  · rw [List.map_append]
    refine List.nodup_append.mpr ⟨h'.nodup, h.nodup, fun i hi j hj => ?_⟩
    obtain ⟨g', hg', rfl⟩ := List.mem_map.mp hi
    obtain ⟨g, hg, rfl⟩ := List.mem_map.mp hj
    have hlt := live_lt (h.live hg)
    have hle := h'.later g' hg'
    omega
  · rw [List.mem_append]
    by_cases hir : i < r.count
    · have hno : (i, x) ∉ gs' := fun hg => Nat.not_lt.mpr (h'.later _ hg) hir
      rw [h'.old i hir, h.new i x hi]
      exact ⟨.inr, fun hg => hg.resolve_left hno⟩
    · have hno : (i, x) ∉ gs := fun hg => hir (live_lt (h.live hg))
      rw [h'.new i x (Nat.le_of_not_lt hir)]
      exact ⟨.inl, fun hg => hg.resolve_right hno⟩
  · obtain hg | hg := List.mem_append.mp hg
    · exact h.count.trans (h'.later g hg)
    · exact h.later g hg

theorem Since.create (h : Since r₀ r gs) (hc : r.create kind uses = some (id, r')) :
    Since r₀ r' ((id, ⟨kind, uses⟩) :: gs) := by
  obtain ⟨rfl, hcount, hlive⟩ := create_eq_some hc
  refine ⟨?_, fun i hi => ?_, ?_, fun i x hi => ?_, fun g hg => ?_⟩
  · rw [hcount]
    exact Nat.le_succ_of_le h.count
  · rw [hlive, Function.update_of_ne (by have := h.count; omega)]
    exact h.old i hi
  · refine List.nodup_cons.mpr ⟨fun hm => ?_, h.nodup⟩
    obtain ⟨g, hg, hid⟩ := List.mem_map.mp hm
    exact (live_lt (h.live hg)).ne hid
  · rw [hlive]
    by_cases hic : i = r.count
    · subst hic
      have hno : (r.count, x) ∉ gs := fun hg => Nat.lt_irrefl _ (live_lt (h.live hg))
      simp [hno, eq_comm]
    · rw [Function.update_of_ne hic, h.new i x hi]
      simp [hic]
  · obtain rfl | hg := List.mem_cons.mp hg
    · exact h.count
    · exact h.later g hg

theorem Since.usedBy (h : Since r₀ r gs) (hid : r₀.count ≤ id) (hu : ∀ g ∈ gs, id ∉ g.2.uses) :
    r.UsedBy id ∅ := by
  intro i y hy hiy
  by_cases hi : r₀.count ≤ i
  · exact hu _ ((h.new i y hi).mp hy) hiy
  · rw [h.old i (Nat.lt_of_not_le hi)] at hy
    obtain ⟨z, hz⟩ := Option.isSome_iff_exists.mp (r₀.closed i y hy id hiy)
    exact absurd (live_lt hz) (Nat.not_lt.mpr hid)

theorem Since.destroy (h : Since r₀ r ((id, x) :: gs)) (hu : ∀ g ∈ (id, x) :: gs, id ∉ g.2.uses) :
    ∃ r', r.destroy id = some r' ∧ Since r₀ r' gs := by
  have hx := h.live List.mem_cons_self
  obtain ⟨r', hr'⟩ := destroy_isSome (by rw [hx]; rfl) (h.usedBy (h.later _ List.mem_cons_self) hu)
  obtain ⟨-, -, hcount, hlive⟩ := destroy_eq_some hr'
  have hnodup := List.nodup_cons.mp h.nodup
  refine ⟨r', hr', hcount ▸ h.count, fun i hi => ?_, hnodup.2, fun i y hi => ?_,
    fun g hg => h.later g (List.mem_cons_of_mem _ hg)⟩
  · have hid := h.later _ List.mem_cons_self
    rw [hlive, Function.update_of_ne (by omega)]
    exact h.old i hi
  · rw [hlive]
    by_cases hic : i = id
    · subst hic
      rw [Function.update_self]
      refine ⟨fun hn => ?_, fun hg => absurd (List.mem_map.mpr ⟨_, hg, rfl⟩) hnodup.1⟩
      cases hn
    · rw [Function.update_of_ne hic, h.new i y hi]
      simp [hic]

theorem Since.destroy_eq_none (h : Since r₀ r gs) {g : Nat × Object K} (hg : g ∈ gs) (hu : id ∈ g.2.uses) :
    r.destroy id = none := by
  refine dif_neg fun hd => ?_
  exact unused_iff.mp hd.2 g.1 g.2 (h.live hg) hu

end Registry

end NetworkOptimization.Dependencies
