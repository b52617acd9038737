import Mathlib.Data.List.Induction
import Mathlib.Data.List.Nodup
import NetworkOptimization.DynamicArray

namespace NetworkOptimization.Arrays

open Words Memory DynamicArray

variable {h h' : Heap} {array array' : KeyValueAddressArray} {es : List KeyValueAddressPair}
  {e : KeyValueAddressPair} {key : List UInt8} {kvMalloc : Nat}

def lookup (h : Heap) (array : KeyValueAddressArray) (key : List UInt8) :
    Option (Option KeyValueAddressPair) :=
  (getKeyValueAddressPair h array key).map (fun found => found.bind (fun i => array.head[i]?.join))

/-- With `kv_malloc` the array owns the blocks of its entries: an insertion may free the
new key and an old value, so that neither is a block in which another key stands. -/
def Owned (h : Heap) (es : List KeyValueAddressPair) (e : KeyValueAddressPair) : Prop :=
  ∀ x ∈ es, (h.blocks x.valueAddress).isSome ∧ x.valueAddress ≠ e.keyAddress ∧
    ∀ y ∈ es, x.valueAddress ≠ y.keyAddress

/-- The insertions of a key and an entry into a new array, in order. In between the
callers use the heap as they like, but for the keys that are in the array. -/
inductive Inserted (kvMalloc : Nat) :
    Heap → KeyValueAddressArray → List (List UInt8 × KeyValueAddressPair) → Prop
  | start {h n} (hn : 0 < n) : Inserted kvMalloc h (initializeKeyValueAddressArray n) []
  | frame {h h' array log} (hrun : Inserted kvMalloc h array log)
      (hkeys : ∀ x ∈ array.entries, cstr h' x.keyAddress = cstr h x.keyAddress) :
      Inserted kvMalloc h' array log
  | insert {h h' array array' log key e} (hrun : Inserted kvMalloc h array log)
      (hkey : cstr h e.keyAddress = some key) (howned : kvMalloc = 1 → Owned h array.entries e)
      (hi : insertToArray kvMalloc h array e = some (h', array')) :
      Inserted kvMalloc h' array' (log ++ [(key, e)])

def stored (log : List (List UInt8 × KeyValueAddressPair)) (key : List UInt8) :
    Option KeyValueAddressPair := do
  let first ← log.find? (fun p => p.1 == key)
  let last ← log.reverse.find? (fun p => p.1 == key)
  some { last.2 with keyAddress := first.2.keyAddress }

theorem cstr_free {a b : UInt64} (hf : free h a = some h') (hb : b ≠ a) : cstr h' b = cstr h b := by
  by_cases hl : (h.blocks a).isSome
  · rw [free, if_pos hl] at hf
    cases hf
    exact cstr_congr (Function.update_of_ne hb _ _)
  · rw [free, if_neg hl] at hf
    cases hf

theorem live_of_cstr {a : UInt64} {s : List UInt8} (hs : cstr h a = some s) : (h.blocks a).isSome := by
  cases hb : h.blocks a with
  | none => simp [cstr, hb] at hs
  | some block => rfl

theorem free_pair {a b : UInt64} (ha : (h.blocks a).isSome) (hb : (h.blocks b).isSome) (hba : b ≠ a) :
    ∃ h₁ h₂, free h a = some h₁ ∧ free h₁ b = some h₂ ∧
      ∀ c, c ≠ a → c ≠ b → cstr h₂ c = cstr h c := by
  have h₁ : free h a = some { h with blocks := Function.update h.blocks a none } := if_pos ha
  have hb' : (Function.update h.blocks a none b).isSome := by rwa [Function.update_of_ne hba]
  have h₂ : free { h with blocks := Function.update h.blocks a none } b = some _ := if_pos hb'
  exact ⟨_, _, h₁, h₂, fun c hca hcb => (cstr_free h₂ hcb).trans (cstr_free h₁ hca)⟩

structure Distinct (h : Heap) (es : List KeyValueAddressPair) : Prop where
  keys : ∀ x ∈ es, (cstr h x.keyAddress).isSome
  nodup : (es.map (fun x => cstr h x.keyAddress)).Nodup

theorem Distinct.eq_of_key (hd : Distinct h es) {x y : KeyValueAddressPair} (hx : x ∈ es) (hy : y ∈ es)
    (hk : cstr h x.keyAddress = cstr h y.keyAddress) : x = y :=
  List.inj_on_of_nodup_map hd.nodup hx hy hk

theorem findIdx_find (p : KeyValueAddressPair → Bool) (es : List KeyValueAddressPair) :
    (es.findIdx? p).bind (fun i => es[i]?) = es.find? p := by
  induction es with
  | nil => rfl
  | cons x xs ih =>
    cases hp : p x with
    | true => simp [List.findIdx?_cons, hp]
    | false =>
      rw [List.findIdx?_cons, hp, List.find?_cons, hp, ← ih]
      cases xs.findIdx? p <;> simp

theorem lookup_eq (ha : Holds array es) (hk : ∀ x ∈ es, (cstr h x.keyAddress).isSome)
    (key : List UInt8) :
    lookup h array key = some (es.find? (fun x => cstr h x.keyAddress == some key)) := by
  rw [lookup, getKeyValueAddressPair_eq ha hk, Option.map_some, ← findIdx_find]
  cases hf : es.findIdx? (fun x => cstr h x.keyAddress == some key) with
  | none => rfl
  | some i =>
    have hi : i < es.length := (List.findIdx?_eq_some_iff_getElem.mp hf).1
    have hx : es[i]? = some es[i] := List.getElem?_eq_getElem hi
    simp [ha.get hx, hx]

theorem upsert_map (hd : Distinct h es) (hm : ∃ x ∈ es, cstr h x.keyAddress = some key) :
    upsert (fun x => cstr h x.keyAddress == some key) es e =
      es.map (fun x => if cstr h x.keyAddress = some key then { e with keyAddress := x.keyAddress }
        else x) := by
  induction es with
  | nil => simp at hm
  | cons x xs ih =>
    have hn := List.nodup_cons.mp hd.nodup
    have hd' : Distinct h xs := ⟨fun y hy => hd.keys y (List.mem_cons_of_mem x hy), hn.2⟩
    by_cases hx : cstr h x.keyAddress = some key
    · have hrest : ∀ y ∈ xs, cstr h y.keyAddress ≠ some key := by
        intro y hy hyk
        exact hn.1 (List.mem_map.mpr ⟨y, hy, hyk.trans hx.symm⟩)
      rw [upsert, if_pos (by simp [hx]), List.map_cons, if_pos hx,
        List.map_congr_left (fun y hy => if_neg (hrest y hy)), List.map_id']
    · obtain ⟨y, hy, hyk⟩ := hm
      have hy' : y ∈ xs := by
        obtain rfl | hy := List.mem_cons.mp hy
        · exact absurd hyk hx
        · exact hy
      rw [upsert, if_neg (by simp [hx]), ih hd' ⟨y, hy', hyk⟩, List.map_cons, if_neg hx]

theorem upsert_append (hm : ∀ x ∈ es, cstr h x.keyAddress ≠ some key) :
    upsert (fun x => cstr h x.keyAddress == some key) es e = es ++ [e] := by
  induction es with
  | nil => rfl
  | cons x xs ih =>
    rw [upsert, if_neg (by simp [hm x (by simp)]), ih (fun y hy => hm y (List.mem_cons_of_mem x hy)),
      List.cons_append]

theorem insertToArray_owned (hi : insertToArray 0 h array e = some (h, array')) {found : Option Nat}
    (hs : scan (fun a => strcmp h a e.keyAddress) array.head array.usedLength 0 = some found) :
    insertToArray 1 h array e = some (h, array') ∨
      ∃ i old, found = some i ∧ array.head[i]? = some (some old) ∧ old.keyAddress ≠ e.keyAddress ∧
        ∀ h₁ h₂, free h e.keyAddress = some h₁ → free h₁ old.valueAddress = some h₂ →
          insertToArray 1 h array e = some (h₂, array') := by
  cases found with
  | none =>
    rw [insertToArray, hs] at hi ⊢
    exact .inl hi
  | some i =>
    simp only [insertToArray, hs, Option.bind_eq_bind, Option.bind_some] at hi ⊢
    obtain ⟨slot, hslot, hi⟩ := Option.bind_eq_some_iff.mp hi
    obtain ⟨old, rfl, hi⟩ := Option.bind_eq_some_iff.mp hi
    simp only [hslot, Option.bind_some] at hi ⊢
    by_cases hne : old.keyAddress = e.keyAddress
    · simp only [hne, ne_eq, not_true_eq_false, ↓reduceIte] at hi ⊢
      exact .inl hi
    · simp only [hne, ne_eq, not_false_eq_true, ↓reduceIte, zero_ne_one, Option.some.injEq,
        Prod.mk.injEq, true_and] at hi ⊢
      refine .inr ⟨i, old, rfl, hslot, hne, fun h₁ h₂ hf₁ hf₂ => ?_⟩
      simp [hf₁, hf₂, hi]

theorem getElem_findIdx {p : KeyValueAddressPair → Bool} {i : Nat} (hf : es.findIdx? p = some i) :
    ∃ x, es[i]? = some x ∧ x ∈ es ∧ p x = true := by
  have hx := findIdx_find p es
  rw [hf, Option.bind_some] at hx
  obtain ⟨hi, hp, -⟩ := List.findIdx?_eq_some_iff_getElem.mp hf
  exact ⟨es[i], List.getElem?_eq_getElem hi, List.getElem_mem hi, hp⟩

theorem mem_upsert (hd : Distinct h es) {x : KeyValueAddressPair}
    (hx : x ∈ upsert (fun x => cstr h x.keyAddress == some key) es e) :
    (∃ y ∈ es, x.keyAddress = y.keyAddress) ∨
      (x = e ∧ ∀ y ∈ es, cstr h y.keyAddress ≠ some key) := by
  by_cases hm : ∃ y ∈ es, cstr h y.keyAddress = some key
  · rw [upsert_map hd hm] at hx
    obtain ⟨y, hy, rfl⟩ := List.mem_map.mp hx
    refine .inl ⟨y, hy, ?_⟩
    split_ifs <;> rfl
  · have hno : ∀ y ∈ es, cstr h y.keyAddress ≠ some key := fun y hy hyk => hm ⟨y, hy, hyk⟩
    rw [upsert_append hno] at hx
    obtain hx | hx := List.mem_append.mp hx
    · exact .inl ⟨x, hx, rfl⟩
    · exact .inr ⟨List.mem_singleton.mp hx, hno⟩

/-- An insertion goes through; it is `upsert` on the entries and no key changes, also
when it frees the blocks that are no longer needed. -/
theorem insertToArray_spec (ha : Holds array es) (hd : Distinct h es)
    (he : cstr h e.keyAddress = some key) (howned : kvMalloc = 1 → Owned h es e) :
    ∃ h' array', insertToArray kvMalloc h array e = some (h', array') ∧
      Holds array' (upsert (fun x => cstr h x.keyAddress == some key) es e) ∧
      ∀ x ∈ upsert (fun x => cstr h x.keyAddress == some key) es e,
        cstr h' x.keyAddress = cstr h x.keyAddress := by
  by_cases hm : kvMalloc = 1
  · subst hm
    obtain ⟨array', hi, hholds⟩ := insertToArray_eq zero_ne_one ha he hd.keys
    rcases insertToArray_owned hi (scan_strcmp ha he hd.keys) with
      hsame | ⟨i, old, hfound, hold, hne, hfree⟩
    · exact ⟨h, array', hsame, hholds, fun _ _ => rfl⟩
    · obtain ⟨x, hx, hmem, hkey⟩ := getElem_findIdx hfound
      have hxk : cstr h x.keyAddress = some key := by simpa using hkey
      rw [ha.get hx] at hold
      obtain rfl := Option.some.inj (Option.some.inj hold)
      obtain ⟨hlive, hvalue, hvalues⟩ := howned rfl x hmem
      obtain ⟨h₁, h₂, hf₁, hf₂, hkeep⟩ := free_pair (live_of_cstr he) hlive hvalue
      refine ⟨h₂, array', hfree h₁ h₂ hf₁ hf₂, hholds, fun y hy => ?_⟩
      obtain ⟨z, hz, hzy⟩ | ⟨-, hno⟩ := mem_upsert hd hy
      · rw [hzy]
        refine hkeep _ (fun heq => ?_) (fun heq => hvalues z hz heq.symm)
        -- the new key would be the one of `x`, which stands elsewhere
        have hzx := hd.eq_of_key hz hmem (by rw [heq, he, hxk])
        exact hne (hzx ▸ heq)
      · exact absurd hxk (hno x hmem)
  · obtain ⟨array', hi, hholds⟩ := insertToArray_eq hm ha he hd.keys
    exact ⟨h, array', hi, hholds, fun _ _ => rfl⟩

section Logs

variable {log : List (List UInt8 × KeyValueAddressPair)} {k : List UInt8}

def order (log : List (List UInt8 × KeyValueAddressPair)) : List (List UInt8) :=
  (log.map Prod.fst).eraseDups

theorem eraseDups_concat (ks : List (List UInt8)) (k : List UInt8) :
    (ks ++ [k]).eraseDups = if k ∈ ks then ks.eraseDups else ks.eraseDups ++ [k] := by
  rw [List.eraseDups_append]
  by_cases hk : k ∈ ks <;> simp [List.removeAll, hk, List.eraseDups_cons]

theorem mem_order : k ∈ order log ↔ ∃ p ∈ log, p.1 = k := by
  rw [order, List.mem_eraseDups, List.mem_map]

theorem order_nodup (log : List (List UInt8 × KeyValueAddressPair)) : (order log).Nodup := by
  induction log using List.reverseRecOn with
  | nil => exact List.nodup_nil
  | append_singleton log p ih =>
    rw [order, List.map_append, List.map_singleton, eraseDups_concat]
    by_cases hk : p.1 ∈ log.map Prod.fst
    · rw [if_pos hk]
      exact ih
    · rw [if_neg hk]
      refine List.nodup_append'.mpr ⟨ih, List.nodup_singleton _, ?_⟩
      rw [List.disjoint_singleton]
      exact fun hm => hk (List.mem_eraseDups.mp hm)

theorem find_none_iff : log.find? (fun p => p.1 == k) = none ↔ k ∉ order log := by
  rw [mem_order, List.find?_eq_none]
  constructor
  · rintro h ⟨p, hp, hk⟩
    exact h p hp (by simpa using hk)
  · intro h p hp hk
    exact h ⟨p, hp, by simpa using hk⟩

theorem stored_none (h : k ∉ order log) : stored log k = none := by
  rw [stored, find_none_iff.mpr h]
  rfl

theorem stored_concat_other (hk : k ≠ key) : stored (log ++ [(key, e)]) k = stored log k := by
  have hne : (key == k) = false := by simpa using hk.symm
  simp [stored, List.find?_append, hne]

theorem stored_concat_new (hk : key ∉ order log) : stored (log ++ [(key, e)]) key = some e := by
  simp [stored, List.find?_append, find_none_iff.mpr hk]

theorem stored_concat_again {x : KeyValueAddressPair} (hx : stored log key = some x) :
    stored (log ++ [(key, e)]) key = some { e with keyAddress := x.keyAddress } := by
  obtain ⟨first, hfirst, hx⟩ := Option.bind_eq_some_iff.mp hx
  obtain ⟨last, -, hx⟩ := Option.bind_eq_some_iff.mp hx
  cases hx
  simp [stored, List.find?_append, hfirst]

/-- Every entry stands under its key, in the order of the log, and is what the log left
for the key. -/
def Reflects (h : Heap) (es : List KeyValueAddressPair)
    (log : List (List UInt8 × KeyValueAddressPair)) : Prop :=
  es.map (fun x => (cstr h x.keyAddress, some x)) = (order log).map (fun k => (some k, stored log k))

theorem Reflects.keys_eq (hr : Reflects h es log) :
    es.map (fun x => cstr h x.keyAddress) = (order log).map some := by
  have hk := congrArg (List.map Prod.fst) hr
  simpa [List.map_map, Function.comp_def] using hk

theorem Reflects.distinct (hr : Reflects h es log) : Distinct h es := by
  refine ⟨fun x hx => ?_, ?_⟩
  · have hm : cstr h x.keyAddress ∈ (order log).map some := by
      rw [← hr.keys_eq]
      exact List.mem_map_of_mem hx
    obtain ⟨k, -, hk⟩ := List.mem_map.mp hm
    rw [← hk]
    rfl
  · rw [hr.keys_eq]
    exact (order_nodup log).map (Option.some_injective _)

theorem Reflects.of_order (hr : Reflects h es log) (hk : k ∈ order log) :
    ∃ x ∈ es, cstr h x.keyAddress = some k ∧ stored log k = some x := by
  have hm := List.mem_map_of_mem (f := fun k => (some k, stored log k)) hk
  rw [← hr] at hm
  obtain ⟨x, hx, heq⟩ := List.mem_map.mp hm
  exact ⟨x, hx, congrArg Prod.fst heq, (congrArg Prod.snd heq).symm⟩

theorem Reflects.mem_order (hr : Reflects h es log) (hx : ∃ x ∈ es, cstr h x.keyAddress = some k) :
    k ∈ order log := by
  obtain ⟨x, hx, hxk⟩ := hx
  have hm := List.mem_map_of_mem (f := fun x => cstr h x.keyAddress) hx
  rw [hr.keys_eq, hxk] at hm
  obtain ⟨k', hk', heq⟩ := List.mem_map.mp hm
  exact Option.some.inj heq ▸ hk'

theorem Reflects.find (hr : Reflects h es log) (k : List UInt8) :
    es.find? (fun x => cstr h x.keyAddress == some k) = stored log k := by
  by_cases hk : k ∈ order log
  · obtain ⟨x, hx, hxk, hs⟩ := hr.of_order hk
    rw [hs]
    cases hf : es.find? (fun x => cstr h x.keyAddress == some k) with
    | none =>
      have hno := List.find?_eq_none.mp hf x hx
      simp [hxk] at hno
    | some y =>
      have hy := List.find?_some hf
      rw [hr.distinct.eq_of_key (List.mem_of_find?_eq_some hf) hx (by rw [hxk]; simpa using hy)]
  · rw [stored_none hk, List.find?_eq_none]
    intro x hx hxk
    exact hk (hr.mem_order ⟨x, hx, by simpa using hxk⟩)

theorem Reflects.frame (hr : Reflects h es log)
    (hkeys : ∀ x ∈ es, cstr h' x.keyAddress = cstr h x.keyAddress) : Reflects h' es log := by
  rw [Reflects, ← hr]
  exact List.map_congr_left (fun x hx => by rw [hkeys x hx])

theorem Reflects.upsert (hr : Reflects h es log) (he : cstr h e.keyAddress = some key) :
    Reflects h (upsert (fun x => cstr h x.keyAddress == some key) es e) (log ++ [(key, e)]) := by
  have horder : order (log ++ [(key, e)]) =
      if key ∈ order log then order log else order log ++ [key] := by
    rw [order, List.map_append, List.map_singleton, eraseDups_concat]
    simp only [order, List.mem_eraseDups]
  by_cases hk : key ∈ order log
  · obtain ⟨x₀, hx₀, hxk₀, hs₀⟩ := hr.of_order hk
    rw [upsert_map hr.distinct ⟨x₀, hx₀, hxk₀⟩, Reflects, horder, if_pos hk, List.map_map]
    -- what the insertion does to an entry depends on its key alone
    let g : Option (List UInt8) × Option KeyValueAddressPair →
        Option (List UInt8) × Option KeyValueAddressPair :=
      fun p => (p.1, p.2.map (fun x =>
        if p.1 = some key then { e with keyAddress := x.keyAddress } else x))
    have hg := congrArg (List.map g) hr
    rw [List.map_map, List.map_map] at hg
    have hleft : es.map (g ∘ fun x => (cstr h x.keyAddress, some x)) =
        es.map ((fun x => (cstr h x.keyAddress, some x)) ∘ fun x =>
          if cstr h x.keyAddress = some key then { e with keyAddress := x.keyAddress } else x) := by
      refine List.map_congr_left (fun x _ => ?_)
      by_cases hx : cstr h x.keyAddress = some key <;> simp [g, hx]
    rw [← hleft, hg]
    refine List.map_congr_left (fun k hk' => ?_)
    by_cases hkk : k = key
    · subst hkk
      simp [g, stored_concat_again hs₀, hs₀]
    · simp [g, stored_concat_other hkk, hkk]
  · have hno : ∀ x ∈ es, cstr h x.keyAddress ≠ some key := fun x hx hxk => hk (hr.mem_order ⟨x, hx, hxk⟩)
    have hold : (order log).map (fun k => (some k, stored (log ++ [(key, e)]) k)) =
        (order log).map (fun k => (some k, stored log k)) := by
      refine List.map_congr_left (fun k hk' => ?_)
      rw [stored_concat_other (by rintro rfl; exact hk hk')]
    rw [upsert_append hno, Reflects, horder, if_neg hk, List.map_append, List.map_append, hold, ← hr]
    simp [he, stored_concat_new hk]

theorem Inserted.reflects (hrun : Inserted kvMalloc h array log) :
    Holds array array.entries ∧ Reflects h array.entries log := by
  induction hrun with
  | @start h n hn =>
    have ha := holds_initialize n hn
    rw [ha.entries]
    exact ⟨ha, rfl⟩
  | frame _ hkeys ih => exact ⟨ih.1, ih.2.frame hkeys⟩
  | insert _ hkey howned hi ih =>
    obtain ⟨ha, hr⟩ := ih
    obtain ⟨h₁, array₁, hi₁, ha₁, hkeys⟩ := insertToArray_spec ha hr.distinct hkey howned
    rw [hi₁] at hi
    cases hi
    rw [ha₁.entries]
    exact ⟨ha₁, (hr.upsert hkey).frame hkeys⟩

end Logs

/-- After any insertions the array is the finite map that they leave: bounds, distinct
keys in their order, and for each key the last entry in the first key's block. The
next insertion goes through inside the allocation and changes no other lookup. -/
theorem inserted_finite_map {log : List (List UInt8 × KeyValueAddressPair)}
    (hrun : Inserted kvMalloc h array log) :
    array.usedLength ≤ array.totalLength ∧ array.totalLength = array.head.length ∧
      (array.entries.map (fun x => cstr h x.keyAddress)).Nodup ∧
      array.entries.map (fun x => cstr h x.keyAddress) = (order log).map some ∧
      (∀ k, lookup h array k = some (stored log k) ∧
        (stored log k = none ↔ k ∉ log.map Prod.fst)) ∧
      ∀ key e, cstr h e.keyAddress = some key → (kvMalloc = 1 → Owned h array.entries e) →
        ∃ h' array', insertToArray kvMalloc h array e = some (h', array') ∧
          ∀ k ≠ key, lookup h' array' k = lookup h array k := by
  obtain ⟨ha, hr⟩ := hrun.reflects
  have hlookup : ∀ k, lookup h array k = some (stored log k) := by
    intro k
    rw [lookup_eq ha hr.distinct.keys, hr.find]
  refine ⟨?_, ?_, hr.distinct.nodup, hr.keys_eq, fun k => ⟨hlookup k, ?_, fun hk => ?_⟩,
    fun key e he howned => ?_⟩
  · obtain ⟨spare, hh, hu, ht, -⟩ := ha
    rw [ht, hu, hh]
    simp
  · exact ha.choose_spec.2.2.1
  · intro hs hk
    obtain ⟨x, -, -, hx⟩ := hr.of_order (List.mem_eraseDups.mpr hk)
    rw [hs] at hx
    cases hx
  · exact stored_none (fun hm => hk (List.mem_eraseDups.mp hm))
  · obtain ⟨h', array', hi, ha', hkeys⟩ := insertToArray_spec ha hr.distinct he howned
    have hr' := (hr.upsert he).frame hkeys
    refine ⟨h', array', hi, fun k hk => ?_⟩
    rw [lookup_eq ha' hr'.distinct.keys, hr'.find, hlookup, stored_concat_other hk]

def letters : Heap where
  blocks a := if a = 1 then some [97, 0] else if a = 2 then some [98, 0] else none
  count := 0
  place _ := 0
  junk _ _ := 0

/-- Two keys in an array that had one slot. -/
theorem inserted_finite_map_grown :
    ∃ array, Inserted 0 letters array [([97], ⟨1, 1, 2, none⟩), ([98], ⟨2, 2, 2, none⟩)] ∧
      array.usedLength ≤ array.totalLength := by
  have h₁ : Inserted 0 letters _ ([] ++ [([97], ⟨1, 1, 2, none⟩)]) :=
    .insert (.start one_pos) (show cstr letters 1 = some [97] by decide) (fun h => by cases h)
      (show insertToArray 0 letters (initializeKeyValueAddressArray 1) ⟨1, 1, 2, none⟩ =
        some (letters, ⟨[some ⟨1, 1, 2, none⟩], 1, 1⟩) from rfl)
  have h₂ : Inserted 0 letters _ (([] ++ [([97], ⟨1, 1, 2, none⟩)]) ++ [([98], ⟨2, 2, 2, none⟩)]) :=
    .insert h₁ (show cstr letters 2 = some [98] by decide) (fun h => by cases h)
      (show insertToArray 0 letters ⟨[some ⟨1, 1, 2, none⟩], 1, 1⟩ ⟨2, 2, 2, none⟩ =
        some (letters, ⟨[some ⟨1, 1, 2, none⟩, some ⟨2, 2, 2, none⟩], 2, 2⟩) from rfl)
  exact ⟨_, h₂, (inserted_finite_map h₂).1⟩

/-- The bound `used_length - 1` of the scan in `delete_from_array`, a `size_t`. -/
def deleteBound (usedLength : Nat) : Nat := (usedLength + (2 ^ 64 - 1)) % 2 ^ 64

def deleteFromArray (kvMalloc : Nat) (h : Heap) (array : KeyValueAddressArray) (key : List UInt8) :
    Option (Heap × KeyValueAddressArray) := do
  let found ← scan (fun a => (cstr h a).map (· == key)) array.head (deleteBound array.usedLength) 0
  match found with
  | none => some (h, array)
  | some i =>
    let h ← if kvMalloc = 1 then do
        let pair ← (← array.head[i]?)
        let h ← free h pair.keyAddress
        free h pair.valueAddress
      else some h
    -- the slot behind the used ones is copied into the hole
    let moved ← array.head[array.usedLength]?
    some (h, { array with head := array.head.set i moved, usedLength := array.usedLength - 1 })

def visited (equal : UInt64 → Option Bool) (head : List (Option KeyValueAddressPair)) :
    Nat → Nat → List Nat
  | 0, _ => []
  | n + 1, i => i :: match (head[i]?.join).bind (fun pair => equal pair.keyAddress) with
    | some false => visited equal head n (i + 1)
    | _ => []

def deleteReads (h : Heap) (array : KeyValueAddressArray) (key : List UInt8) : List Nat :=
  visited (fun a => (cstr h a).map (· == key)) array.head (deleteBound array.usedLength) 0 ++
    match scan (fun a => (cstr h a).map (· == key)) array.head (deleteBound array.usedLength) 0 with
    | some (some _) => [array.usedLength]
    | _ => []

structure Keyed (h : Heap) (array : KeyValueAddressArray) (es : List KeyValueAddressPair) : Prop where
  head : ∃ spare, array.head = es.map some ++ spare
  used : array.usedLength = es.length
  size : array.usedLength < 2 ^ 64
  distinct : Distinct h es

/-- The key and nothing else is gone, and only used slots were read. -/
def Deletes (kvMalloc : Nat) (h : Heap) (array : KeyValueAddressArray) (key : List UInt8) : Prop :=
  (∀ i ∈ deleteReads h array key, i < array.usedLength) ∧
    ∃ h' array' es', deleteFromArray kvMalloc h array key = some (h', array') ∧
      Keyed h' array' es' ∧ lookup h' array' key = some none ∧
      (∀ k ≠ key, lookup h' array' k = lookup h array k) ∧
      array'.usedLength = if lookup h array key = some none then array.usedLength
        else array.usedLength - 1

theorem Keyed.scan_eq (hk : Keyed h array es) (key : List UInt8) (m : Nat) (hm : m ≤ es.length) :
    scan (fun a => (cstr h a).map (· == key)) array.head m 0 =
      some ((es.take m).findIdx? (fun x => cstr h x.keyAddress == some key)) := by
  obtain ⟨spare, hh⟩ := hk.head
  have hs := DynamicArray.scan_eq (fun a => (cstr h a).map (· == key))
    (fun x => cstr h x.keyAddress == some key) [] (es.take m) ((es.drop m).map some ++ spare) (by
      intro x hx
      obtain ⟨s, hs⟩ := Option.isSome_iff_exists.mp (hk.distinct.keys x (List.mem_of_mem_take hx))
      simp [hs])
  have hhead : array.head = (es.take m).map some ++ ((es.drop m).map some ++ spare) := by
    rw [hh, ← List.append_assoc, ← List.map_append, List.take_append_drop]
  simpa [hhead, List.length_take, Nat.min_eq_left hm] using hs

theorem Keyed.lookup_eq (hk : Keyed h array es) (key : List UInt8) :
    lookup h array key = some (es.find? (fun x => cstr h x.keyAddress == some key)) := by
  obtain ⟨spare, hh⟩ := hk.head
  rw [lookup, getKeyValueAddressPair, hk.used, hk.scan_eq key es.length le_rfl, List.take_length,
    Option.map_some, ← findIdx_find]
  cases hf : es.findIdx? (fun x => cstr h x.keyAddress == some key) with
  | none => rfl
  | some i =>
    obtain ⟨x, hx, -, -⟩ := getElem_findIdx hf
    have hi := (List.getElem?_eq_some_iff.mp hx).1
    simp [hh, List.getElem?_append_left (show i < (es.map some).length by simpa using hi), hx]

theorem Keyed.lookup_none_iff (hk : Keyed h array es) (key : List UInt8) :
    lookup h array key = some none ↔ ∀ x ∈ es, cstr h x.keyAddress ≠ some key := by
  rw [hk.lookup_eq]
  simp

theorem deleteBound_pos {n : Nat} (hn : 0 < n) (hs : n < 2 ^ 64) : deleteBound n = n - 1 := by
  rw [deleteBound, show n + (2 ^ 64 - 1) = (n - 1) + 2 ^ 64 by omega, Nat.add_mod_right,
    Nat.mod_eq_of_lt (by omega)]

theorem visited_lt (equal : UInt64 → Option Bool) (head : List (Option KeyValueAddressPair))
    (n i : Nat) : ∀ j ∈ visited equal head n i, j < i + n := by
  induction n generalizing i with
  | zero => simp [visited]
  | succ n ih =>
    intro j hj
    rw [visited] at hj
    obtain rfl | hj := List.mem_cons.mp hj
    · omega
    · split at hj
      · have := ih (i + 1) j hj
        omega
      · cases hj

theorem Keyed.scan_delete (hk : Keyed h array es) (hn : 0 < array.usedLength) (key : List UInt8) :
    scan (fun a => (cstr h a).map (· == key)) array.head (deleteBound array.usedLength) 0 =
      some ((es.take (array.usedLength - 1)).findIdx? (fun x => cstr h x.keyAddress == some key)) := by
  have hu := hk.used
  rw [deleteBound_pos hn hk.size]
  exact hk.scan_eq key _ (by omega)

/-- In an empty array the bound wraps around and the scan reads. -/
theorem reads_empty (hn : array.usedLength = 0) : 0 ∈ deleteReads h array key := by
  obtain ⟨m, hm⟩ : ∃ m, deleteBound array.usedLength = m + 1 := by
    rw [hn]
    exact Nat.exists_eq_succ_of_ne_zero (by decide)
  rw [deleteReads, hm]
  exact List.mem_append_left _ List.mem_cons_self

theorem Keyed.delete_missed (hk : Keyed h array es) (hn : 0 < array.usedLength)
    (hf : (es.take (array.usedLength - 1)).findIdx? (fun x => cstr h x.keyAddress == some key) = none) :
    deleteFromArray kvMalloc h array key = some (h, array) ∧
      ∀ i ∈ deleteReads h array key, i < array.usedLength := by
  have hs := hk.scan_delete hn key
  rw [hf] at hs
  constructor
  · rw [deleteFromArray, hs]
    rfl
  · intro i hi
    rw [deleteReads, hs, List.append_nil] at hi
    have hlt := visited_lt _ _ _ _ i hi
    rw [deleteBound_pos hn hk.size] at hlt
    omega

/-- `delete_from_array` does what its name says exactly when the array is not empty and
has no entry of the key: the last entry is not looked at, any other is replaced by the
slot behind the used ones, and in an empty array the scan has no bound. -/
theorem deletes_iff (hk : Keyed h array es) (kvMalloc : Nat) (key : List UInt8) :
    Deletes kvMalloc h array key ↔ 0 < array.usedLength ∧ lookup h array key = some none := by
  constructor
  · rintro ⟨hreads, h', array', es', hdelete, -, hgone, -⟩
    have hn : 0 < array.usedLength := by
      by_contra hn
      have hz : array.usedLength = 0 := Nat.eq_zero_of_not_pos hn
      exact hn (hreads 0 (reads_empty hz))
    refine ⟨hn, ?_⟩
    have hs := hk.scan_delete hn key
    cases hf : (es.take (array.usedLength - 1)).findIdx? (fun x => cstr h x.keyAddress == some key) with
    | none =>
      have hsame : deleteFromArray kvMalloc h array key = some (h, array) := (hk.delete_missed hn hf).1
      rw [hdelete] at hsame
      cases hsame
      exact hgone
    | some i =>
      rw [hf] at hs
      have hread : array.usedLength ∈ deleteReads h array key := by
        rw [deleteReads, hs]
        exact List.mem_append_right _ (List.mem_singleton_self _)
      exact absurd (hreads _ hread) (lt_irrefl _)
  · rintro ⟨hn, habsent⟩
    have hno := (hk.lookup_none_iff key).mp habsent
    have hf : (es.take (array.usedLength - 1)).findIdx? (fun x => cstr h x.keyAddress == some key) =
        none := by
      rw [List.findIdx?_eq_none_iff]
      intro x hx
      simpa using hno x (List.mem_of_mem_take hx)
    obtain ⟨hdelete, hreads⟩ : deleteFromArray kvMalloc h array key = some (h, array) ∧ _ :=
      hk.delete_missed hn hf
    exact ⟨hreads, h, array, es, hdelete, hk, habsent, fun _ _ => rfl, (if_pos habsent).symm⟩

theorem keyed_single : Keyed letters ⟨[some ⟨1, 1, 2, none⟩, none], 1, 2⟩ [⟨1, 1, 2, none⟩] :=
  ⟨⟨[none], rfl⟩, rfl, by decide, by decide, List.nodup_singleton _⟩

theorem deletes_absent : Deletes 0 letters ⟨[some ⟨1, 1, 2, none⟩, none], 1, 2⟩ [98] :=
  (deletes_iff keyed_single 0 [98]).mpr ⟨by decide, by decide⟩

/-- The only key of an array is still there after its deletion. -/
theorem delete_keeps_last : ¬ Deletes 0 letters ⟨[some ⟨1, 1, 2, none⟩, none], 1, 2⟩ [97] := by
  rintro ⟨-, h', array', es', hdelete, -, hgone, -⟩
  have hsame : deleteFromArray 0 letters ⟨[some ⟨1, 1, 2, none⟩, none], 1, 2⟩ [97] =
      some (letters, ⟨[some ⟨1, 1, 2, none⟩, none], 1, 2⟩) := rfl
  rw [hsame] at hdelete
  cases hdelete
  revert hgone
  decide

end NetworkOptimization.Arrays
