import NetworkOptimization.StoredValues

namespace NetworkOptimization.Service

open Words Memory ControlMessages DynamicArray Verbs SequentialCode Calls Server Handlers Tables
open Runs
open Network Steps Protocol Exclusion Records Values Seats Refinement ServerSteps Correspondence Store
open StoredValues
open Function (update)

variable {n : Nat} {α : Type} {programs : Fin n → List Request} {S : World n} {P : State n} {c : Fin n}
  {es : List KeyValueAddressPair} {s : ServerMemory n} {l : Letter}

section Memory

/-- Every allocation of a handler succeeds: of two blocks more, of a record and of an array of twice
the size. The adapter has a key that no region has. -/
structure Supplied (s : ServerMemory n) : Prop where
  first : s.heap.place s.heap.count ≠ 0 ∧ s.heap.blocks (s.heap.place s.heap.count) = none
  second : s.heap.place (s.heap.count + 1) ≠ 0 ∧ s.heap.blocks (s.heap.place (s.heap.count + 1)) = none ∧
    s.heap.place (s.heap.count + 1) ≠ s.heap.place s.heap.count
  record : s.records s.regCount = true
  realloc : s.reallocs s.database.totalLength = true
  rkey : s.rkeys s.regCount ∉ s.regions.image Mr.rkey

instance (s : ServerMemory n) : Decidable (Supplied s) :=
  decidable_of_iff
    ((s.heap.place s.heap.count ≠ 0 ∧ s.heap.blocks (s.heap.place s.heap.count) = none) ∧
      (s.heap.place (s.heap.count + 1) ≠ 0 ∧ s.heap.blocks (s.heap.place (s.heap.count + 1)) = none ∧
        s.heap.place (s.heap.count + 1) ≠ s.heap.place s.heap.count) ∧
      s.records s.regCount = true ∧ s.reallocs s.database.totalLength = true ∧
      s.rkeys s.regCount ∉ s.regions.image Mr.rkey)
    ⟨fun h => ⟨h.1, h.2.1, h.2.2.1, h.2.2.2.1, h.2.2.2.2⟩,
      fun h => ⟨h.first, h.second, h.record, h.realloc, h.rkey⟩⟩

theorem malloc_new {h : Heap} (ha : h.place h.count ≠ 0) (hb : h.blocks (h.place h.count) = none)
    (size : Nat) :
    malloc h size = some (h.place h.count, { h with
      blocks := update h.blocks (h.place h.count) (some (fresh h size))
      count := h.count + 1 }) := by
  simp [malloc, ha, hb]

theorem strdup_new {h : Heap} (ha : h.place h.count ≠ 0) (hb : h.blocks (h.place h.count) = none)
    {size : Nat}
    {text : List UInt8} (hl : text.length + 1 ≤ size) :
    ∃ h', strdup h size text = some (h.place h.count, h') ∧ h'.place = h.place ∧ h'.count = h.count + 1 ∧
      ∀ a, a ≠ h.place h.count → h'.blocks a = h.blocks a := by
  refine ⟨write { h with
      blocks := update h.blocks (h.place h.count) (some (fresh h size))
      count := h.count + 1 } (h.place h.count) (text ++ 0 :: (fresh h size).drop (text.length + 1)),
    ?_, rfl, rfl, fun a hne => ?_⟩
  · have hfit : text.length + 1 ≤ (fresh h size).length := by
      rw [fresh_length]
      exact hl
    rw [strdup, malloc_new ha hb]
    simp only [Option.bind_eq_bind, Option.bind_some, strcpy, Function.update_self, if_pos hfit]
  · rw [write_other hne]
    exact Function.update_of_ne hne _ _

theorem Supplied.key (h : Supplied s) (key : List UInt8) :
    ∃ a h₁, strdup s.heap (key.length + 1) key = some (a, h₁) ∧
    h₁.place h₁.count ≠ 0 ∧ h₁.blocks (h₁.place h₁.count) = none := by
  obtain ⟨hne, hnew, hapart⟩ := h.second
  obtain ⟨h₁, hd, hplace, hcount, hold⟩ := strdup_new h.first.1 h.first.2 (Nat.le_refl (key.length + 1))
  refine ⟨_, h₁, hd, ?_, ?_⟩
  · rw [hplace, hcount]
    exact hne
  · rw [hplace, hcount, hold _ hapart]
    exact hnew

end Memory

section Handlers

variable (g : Int → ServerCode n α) {i : Fin n}

end Handlers

end NetworkOptimization.Service
