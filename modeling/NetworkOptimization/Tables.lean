import Mathlib.Data.List.Nodup
import NetworkOptimization.Handlers

namespace NetworkOptimization.Tables

open Words Memory ControlMessages DynamicArray SequentialCode Server Handlers

variable {n : Nat} {h h' : Heap} {regions : Finset Mr} {es : List KeyValueAddressPair}

structure Slot where
  address : UInt64
  size : UInt64
  mrRdma : Option MrInfo
  deriving DecidableEq

def slot (e : KeyValueAddressPair) : Slot := ⟨e.valueAddress, e.valueSize, e.mrRdma⟩

def slots (h : Heap) (es : List KeyValueAddressPair) (key : List UInt8) : Option Slot :=
  ((find h es key).bind (fun i => es[i]?)).map slot

def refs (es : List KeyValueAddressPair) : List UInt64 :=
  es.map KeyValueAddressPair.keyAddress ++ es.map KeyValueAddressPair.valueAddress

/-- Keys are strings and occur once, no block is used twice, values have their
announced size, and registered regions cover whole blocks that hold no key. -/
structure Sound (h : Heap) (regions : Finset Mr) (es : List KeyValueAddressPair) : Prop where
  keys : ∀ e ∈ es, (cstr h e.keyAddress).isSome
  distinct : (es.map (fun e => cstr h e.keyAddress)).Nodup
  refs : (refs es).Nodup
  live : ∀ e ∈ es, ∃ block, h.blocks e.valueAddress = some block ∧
    block.length = e.valueSize.toNat
  shared : ∀ r ∈ regions, ∃ block, h.blocks r.addr = some block ∧ block.length = r.length.toNat
  apart : ∀ r ∈ regions, ∀ e ∈ es, r.addr ≠ e.keyAddress
  recorded : ∀ e ∈ es, ∀ info, e.mrRdma = some info →
    info.mr ∈ regions ∧ info.mr.addr = e.valueAddress ∧ info.mr.length = e.valueSize
  rkeys : ∀ r ∈ regions, ∀ r' ∈ regions, r.rkey = r'.rkey → r = r'

theorem find_eq (h : Heap) (es : List KeyValueAddressPair) (key : List UInt8) :
    find h es key = (es.map (fun e => cstr h e.keyAddress)).findIdx? (· == some key) := by
  rw [List.findIdx?_map]
  rfl

theorem find_congr (hk : ∀ e ∈ es, cstr h' e.keyAddress = cstr h e.keyAddress)
    (key : List UInt8) : find h' es key = find h es key := by
  rw [find_eq, find_eq, List.map_congr_left hk]

theorem slots_congr (hk : ∀ e ∈ es, cstr h' e.keyAddress = cstr h e.keyAddress) :
    slots h' es = slots h es := by
  funext key
  rw [slots, slots, find_congr hk]

theorem slots_of_find {key : List UInt8} {idx : Nat} {e : KeyValueAddressPair}
    (hf : find h es key = some idx) (he : es[idx]? = some e) : slots h es key = some (slot e) := by
  simp [slots, hf, he]

theorem slots_of_none {key : List UInt8} (hf : find h es key = none) : slots h es key = none := by
  simp [slots, hf]

theorem find_of_slots {key : List UInt8} {sl : Slot} (hs : slots h es key = some sl) :
    ∃ idx e, find h es key = some idx ∧ es[idx]? = some e ∧ slot e = sl ∧
      cstr h e.keyAddress = some key := by
  cases hf : find h es key with
  | none => simp [slots, hf] at hs
  | some idx =>
    obtain ⟨e, he, hk⟩ := find_some hf
    rw [slots_of_find hf he] at hs
    exact ⟨idx, e, rfl, he, Option.some.inj hs, hk⟩

theorem Sound.find_getElem (hs : Sound h regions es) {idx : Nat} {e : KeyValueAddressPair}
    (he : es[idx]? = some e) {key : List UInt8} (hk : cstr h e.keyAddress = some key) :
    find h es key = some idx := by
  obtain ⟨hi, rfl⟩ := List.getElem?_eq_some_iff.mp he
  refine List.findIdx?_eq_some_iff_getElem.mpr ⟨hi, by simp [hk], fun j hj => ?_⟩
  have hne := List.nodup_iff_injective_get.mp hs.distinct
  intro heq
  have hj' : j < es.length := hj.trans hi
  have heq' : cstr h es[j].keyAddress = some key := by simpa using heq
  have hji := @hne ⟨j, by simpa using hj'⟩ ⟨idx, by simpa using hi⟩ (by simp [heq', hk])
  simp only [Fin.mk.injEq] at hji
  omega

theorem Sound.slots_of_mem (hs : Sound h regions es) {e : KeyValueAddressPair} (he : e ∈ es)
    {key : List UInt8} (hk : cstr h e.keyAddress = some key) : slots h es key = some (slot e) := by
  obtain ⟨idx, hidx⟩ := List.mem_iff_getElem?.mp he
  exact slots_of_find (hs.find_getElem hidx hk) hidx

def Keeps (h h' : Heap) : Prop :=
  ∀ a block, h.blocks a = some block →
    ∃ block', h'.blocks a = some block' ∧ block'.length = block.length

theorem Sound.frame (hs : Sound h regions es) (hk : Keeps h h')
    (hc : ∀ e ∈ es, cstr h' e.keyAddress = cstr h e.keyAddress) : Sound h' regions es where
  keys e he := by rw [hc e he]; exact hs.keys e he
  distinct := by rw [List.map_congr_left hc]; exact hs.distinct
  refs := hs.refs
  live e he := by
    obtain ⟨block, hb, hl⟩ := hs.live e he
    obtain ⟨block', hb', hl'⟩ := hk _ _ hb
    exact ⟨block', hb', hl'.trans hl⟩
  shared r hr := by
    obtain ⟨block, hb, hl⟩ := hs.shared r hr
    obtain ⟨block', hb', hl'⟩ := hk _ _ hb
    exact ⟨block', hb', hl'.trans hl⟩
  apart := hs.apart
  recorded := hs.recorded
  rkeys := hs.rkeys

theorem mem_refs {a : UInt64} :
    a ∈ refs es ↔ (∃ e ∈ es, e.keyAddress = a) ∨ ∃ e ∈ es, e.valueAddress = a := by
  simp [refs]

theorem map_set_same {β : Type} (f : KeyValueAddressPair → β) {idx : Nat}
    {e : KeyValueAddressPair} (he : es[idx]? = some e) (e' : KeyValueAddressPair) (hf : f e' = f e) :
    (es.set idx e').map f = es.map f := by
  obtain ⟨hi, rfl⟩ := List.getElem?_eq_some_iff.mp he
  rw [List.map_set, hf, ← List.getElem_map f (h := by simpa using hi), List.set_getElem_self]

theorem refs_mark {idx : Nat} {e : KeyValueAddressPair} (he : es[idx]? = some e)
    (info : Option MrInfo) : refs (es.set idx { e with mrRdma := info }) = refs es := by
  have hk := map_set_same KeyValueAddressPair.keyAddress he { e with mrRdma := info } rfl
  have hv := map_set_same KeyValueAddressPair.valueAddress he { e with mrRdma := info } rfl
  rw [refs, hk, hv, refs]

theorem forall_mem_set {p : KeyValueAddressPair → Prop} (h : ∀ x ∈ es, p x) {e' : KeyValueAddressPair}
    (he' : p e') (idx : Nat) : ∀ x ∈ es.set idx e', p x := by
  intro x hx
  obtain hx | rfl := List.mem_or_eq_of_mem_set hx
  · exact h x hx
  · exact he'

theorem Sound.set (hs : Sound h regions es) {idx : Nat} {e e' : KeyValueAddressPair}
    (he : es[idx]? = some e) (hkey : e'.keyAddress = e.keyAddress)
    (haddr : e'.valueAddress = e.valueAddress ∨ e'.valueAddress ∉ Tables.refs es)
    (hlive : ∃ block, h.blocks e'.valueAddress = some block ∧ block.length = e'.valueSize.toNat)
    (hrec : ∀ info, e'.mrRdma = some info →
      info.mr ∈ regions ∧ info.mr.addr = e'.valueAddress ∧ info.mr.length = e'.valueSize) :
    Sound h regions (es.set idx e') := by
  have hmem : e ∈ es := List.mem_of_getElem? he
  refine ⟨?_, ?_, ?_, ?_, hs.shared, ?_, ?_, hs.rkeys⟩
  · refine forall_mem_set hs.keys ?_ idx
    rw [hkey]
    exact hs.keys _ hmem
  · rw [map_set_same (fun e => cstr h e.keyAddress) he e' (by simp only [hkey])]
    exact hs.distinct
  · rw [Tables.refs, map_set_same _ he e' hkey]
    obtain haddr | haddr := haddr
    · rw [map_set_same _ he e' haddr]
      exact hs.refs
    · obtain ⟨hk, hv, hd⟩ := List.nodup_append'.mp hs.refs
      have hnk : e'.valueAddress ∉ es.map KeyValueAddressPair.keyAddress :=
        fun hm => haddr (List.mem_append_left _ hm)
      have hnv : e'.valueAddress ∉ es.map KeyValueAddressPair.valueAddress :=
        fun hm => haddr (List.mem_append_right _ hm)
      rw [List.map_set]
      refine List.nodup_append'.mpr ⟨hk, hv.set hnv, fun a ha ha' => ?_⟩
      obtain hm | rfl := List.mem_or_eq_of_mem_set ha'
      · exact hd ha hm
      · exact hnk ha
  · exact forall_mem_set hs.live hlive idx
  · intro r hr
    refine forall_mem_set (hs.apart r hr) ?_ idx
    rw [hkey]
    exact hs.apart r hr _ hmem
  · exact forall_mem_set hs.recorded hrec idx

theorem slots_set (hs : Sound h regions es) {idx : Nat} {e : KeyValueAddressPair}
    (he : es[idx]? = some e) (e' : KeyValueAddressPair) (hkey : e'.keyAddress = e.keyAddress)
    {key : List UInt8} (hk : cstr h e.keyAddress = some key) :
    slots h (es.set idx e') = Function.update (slots h es) key (some (slot e')) := by
  obtain ⟨hi, rfl⟩ := List.getElem?_eq_some_iff.mp he
  have hfind : ∀ key', find h (es.set idx e') key' = find h es key' := by
    intro key'
    rw [find_eq, find_eq, map_set_same (fun e => cstr h e.keyAddress) he e' (by simp only [hkey])]
  funext key'
  by_cases hkk : key' = key
  · subst hkk
    rw [Function.update_self, slots, hfind, hs.find_getElem he hk]
    simp [hi]
  · rw [Function.update_of_ne hkk, slots, slots, hfind]
    cases hf : find h es key' with
    | none => rfl
    | some j =>
      have hj : idx ≠ j := by
        rintro rfl
        obtain ⟨x, hx, hxk⟩ := find_some hf
        rw [he] at hx
        cases hx
        rw [hk] at hxk
        exact hkk (Option.some.inj hxk).symm
      simp [hj]

theorem Sound.push (hs : Sound h regions es) {e : KeyValueAddressPair} {key : List UInt8}
    (hk : cstr h e.keyAddress = some key) (hf : find h es key = none)
    (hne : e.keyAddress ≠ e.valueAddress) (hkr : e.keyAddress ∉ Tables.refs es)
    (hvr : e.valueAddress ∉ Tables.refs es) (hapart : ∀ r ∈ regions, r.addr ≠ e.keyAddress)
    (hlive : ∃ block, h.blocks e.valueAddress = some block ∧ block.length = e.valueSize.toNat)
    (hrec : ∀ info, e.mrRdma = some info →
      info.mr ∈ regions ∧ info.mr.addr = e.valueAddress ∧ info.mr.length = e.valueSize) :
    Sound h regions (es ++ [e]) := by
  have hall : ∀ {p : KeyValueAddressPair → Prop}, (∀ x ∈ es, p x) → p e → ∀ x ∈ es ++ [e], p x :=
    fun hold hnew => List.forall_mem_append.mpr ⟨hold, List.forall_mem_singleton.mpr hnew⟩
  obtain ⟨hks, hvs, hd⟩ := List.nodup_append'.mp hs.refs
  refine ⟨?_, ?_, ?_, ?_, hs.shared, ?_, ?_, hs.rkeys⟩
  · exact hall hs.keys (by simp [hk])
  · have hn : some key ∉ es.map (fun e => cstr h e.keyAddress) := by
      intro hm
      obtain ⟨x, hx, hxk⟩ := List.mem_map.mp hm
      have := List.findIdx?_eq_none_iff.mp hf x hx
      simp [hxk] at this
    rw [List.map_append, List.map_singleton, hk]
    exact List.nodup_append'.mpr ⟨hs.distinct, List.nodup_singleton _, by simpa using hn⟩
  · have hk₁ : e.keyAddress ∉ es.map KeyValueAddressPair.keyAddress :=
      fun hm => hkr (List.mem_append_left _ hm)
    have hk₂ : e.keyAddress ∉ es.map KeyValueAddressPair.valueAddress :=
      fun hm => hkr (List.mem_append_right _ hm)
    have hv₁ : e.valueAddress ∉ es.map KeyValueAddressPair.keyAddress :=
      fun hm => hvr (List.mem_append_left _ hm)
    have hv₂ : e.valueAddress ∉ es.map KeyValueAddressPair.valueAddress :=
      fun hm => hvr (List.mem_append_right _ hm)
    rw [Tables.refs, List.map_append, List.map_append, List.map_singleton, List.map_singleton]
    refine List.nodup_append'.mpr
      ⟨List.nodup_append'.mpr ⟨hks, List.nodup_singleton _, by simpa using hk₁⟩,
        List.nodup_append'.mpr ⟨hvs, List.nodup_singleton _, by simpa using hv₂⟩, ?_⟩
    intro a ha ha'
    rw [List.mem_append, List.mem_singleton] at ha ha'
    obtain ha | ha := ha <;> obtain ha' | ha' := ha'
    · exact hd ha ha'
    · exact hv₁ (ha' ▸ ha)
    · exact hk₂ (ha ▸ ha')
    · exact hne (ha.symm.trans ha')
  · exact hall hs.live hlive
  · exact fun r hr => hall (hs.apart r hr) (hapart r hr)
  · exact hall hs.recorded hrec

theorem slots_push {e : KeyValueAddressPair} {key : List UInt8}
    (hk : cstr h e.keyAddress = some key) (hf : find h es key = none) :
    slots h (es ++ [e]) = Function.update (slots h es) key (some (slot e)) := by
  have hfind : ∀ key', find h (es ++ [e]) key' =
      (find h es key').or (if key = key' then some es.length else none) := by
    intro key'
    by_cases hkk : key = key'
    · simp [find, List.findIdx?_append, List.findIdx?_cons, hk, hkk]
    · simp [find, List.findIdx?_append, List.findIdx?_cons, hk, hkk]
  funext key'
  by_cases hkk : key' = key
  · subst hkk
    rw [Function.update_self, slots, hfind, hf]
    simp
  · rw [Function.update_of_ne hkk, slots, slots, hfind, if_neg (Ne.symm hkk), Option.or_none]
    cases hf' : find h es key' with
    | none => rfl
    | some j =>
      have hj : j < es.length := (List.findIdx?_eq_some_iff_getElem.mp hf').1
      simp [List.getElem?_append_left hj]

structure Fresh (h : Heap) (regions : Finset Mr) (es : List KeyValueAddressPair)
    (e : KeyValueAddressPair) (key : List UInt8) : Prop where
  key : cstr h e.keyAddress = some key
  ne : e.keyAddress ≠ e.valueAddress
  keyRef : e.keyAddress ∉ refs es
  valueRef : e.valueAddress ∉ refs es
  apart : ∀ r ∈ regions, r.addr ≠ e.keyAddress
  live : ∃ block, h.blocks e.valueAddress = some block ∧ block.length = e.valueSize.toNat
  recorded : ∀ info, e.mrRdma = some info →
    info.mr ∈ regions ∧ info.mr.addr = e.valueAddress ∧ info.mr.length = e.valueSize

theorem Sound.upsert (hs : Sound h regions es) {e : KeyValueAddressPair} {key : List UInt8}
    (hf : Fresh h regions es e key) :
    Sound h regions (upsert (fun x => cstr h x.keyAddress == some key) es e) ∧
      slots h (upsert (fun x => cstr h x.keyAddress == some key) es e) =
        Function.update (slots h es) key (some (slot e)) := by
  have hu := upsert_findIdx (fun x => cstr h x.keyAddress == some key) es e
  cases hfind : find h es key with
  | none =>
    rw [find] at hfind
    rw [hfind] at hu
    rw [hu]
    exact ⟨hs.push hf.key hfind hf.ne hf.keyRef hf.valueRef hf.apart hf.live hf.recorded,
      slots_push hf.key hfind⟩
  | some idx =>
    obtain ⟨x, hx, hxk⟩ := find_some hfind
    rw [find] at hfind
    simp only [hfind, hx, Option.map_some, Option.getD_some] at hu
    rw [hu]
    exact ⟨hs.set hx rfl (.inr hf.valueRef) hf.live hf.recorded,
      slots_set hs hx { e with keyAddress := x.keyAddress } rfl hxk⟩

/-- The server's memory is consistent and its database holds `es`. -/
structure Valid (s : ServerMemory n) (es : List KeyValueAddressPair) : Prop where
  holds : Holds s.database es
  kvMalloc : s.kvMalloc = 0
  sound : Sound s.heap s.regions es

variable {s : ServerMemory n}

theorem Valid.wellFormed (hv : Valid s es) : WellFormed s es :=
  ⟨hv.holds, hv.sound.keys, hv.kvMalloc⟩

theorem Valid.kvMalloc_ne (hv : Valid s es) : s.kvMalloc ≠ 1 := by
  rw [hv.kvMalloc]
  exact zero_ne_one

theorem Valid.setSend (hv : Valid s es) (i : Fin n) (m : ControlMessage) : Valid (s.setSend i m) es :=
  ⟨hv.holds, hv.kvMalloc, hv.sound⟩

theorem Valid.countShutDown (hv : Valid s es) : Valid s.countShutDown es :=
  ⟨hv.holds, hv.kvMalloc, hv.sound⟩

def record (t : List UInt8 → Option Slot) :
    Option (List UInt8 × Slot) → List UInt8 → Option Slot
  | none => t
  | some (key, sl) => Function.update t key (some sl)

/-- What a handler is about to record fits the table. -/
inductive Ready (h : Heap) (regions : Finset Mr) (es : List KeyValueAddressPair) :
    Recording → Option (List UInt8 × Slot) → Prop
  | nothing : Ready h regions es .nothing none
  | insert {e key} (hf : Fresh h regions es e key) :
      Ready h regions es (.insert e) (some (key, slot e))
  | mark {idx e key info} (he : es[idx]? = some e) (hk : cstr h e.keyAddress = some key)
      (hrec : info.mr ∈ regions ∧ info.mr.addr = e.valueAddress ∧ info.mr.length = e.valueSize)
      (haccess : info.mr.access = .remoteRead) :
      Ready h regions es (.mark idx info) (some (key, ⟨e.valueAddress, e.valueSize, some info⟩))

def apply (h : Heap) : Recording → List KeyValueAddressPair → List KeyValueAddressPair
  | .nothing, es => es
  | .insert e, es => upsert (fun x => cstr h x.keyAddress == cstr h e.keyAddress) es e
  | .mark idx info, es =>
    (es[idx]?.map (fun e => es.set idx { e with mrRdma := some info })).getD es

/-- The recording does what was announced, nothing else, and goes through where the database
can be doubled. -/
theorem Ready.settle {α : Type} (hv : Valid s es) {rec : Recording}
    {pending : Option (List UInt8 × Slot)} (hr : Ready s.heap s.regions es rec pending)
    (f : Int → ServerCode n α) :
    ∃ database,
      (∀ p, settle (rec.code >>= f) s = some p → settle (f 0) (s.setDatabase database) = some p) ∧
      (s.reallocs s.database.totalLength = true →
        settle (rec.code >>= f) s = settle (f 0) (s.setDatabase database)) ∧
      Valid (s.setDatabase database) (apply s.heap rec es) ∧
      slots s.heap (apply s.heap rec es) = record (slots s.heap es) pending := by
  cases hr with
  | nothing => exact ⟨s.database, fun _ h => h, fun _ => rfl, hv, rfl⟩
  | @insert e key hf =>
    obtain ⟨array, ha, hh⟩ := insertToArray_eq hv.kvMalloc_ne hv.holds hf.key hv.sound.keys
    obtain ⟨hsound, hslots⟩ := hv.sound.upsert hf
    rw [apply, hf.key]
    rw [Recording.code, bind_bind, settle_insertEntry, ha, Option.bind_some]
    refine ⟨array, fun p h => ?_, fun h => ?_, ⟨hh, hv.kvMalloc, hsound⟩, hslots⟩
    · exact (Option.ite_none_left_eq_some.mp h).2
    · exact if_neg (by simp [h])
  | @mark idx e key info he hk hrec haccess =>
    simp only [apply, he, Option.map_some, Option.getD_some]
    have hset : SequentialCode.settle ((Recording.mark idx info).code >>= f) s =
      SequentialCode.settle (f 0) (s.setDatabase (s.database.set idx { e with mrRdma := some info })) := by
      rw [Recording.code, bind_bind, settle_setMrRdma hv.wellFormed he]
      rfl
    refine ⟨_, fun p h => hset.symm.trans h, fun _ => hset, ⟨hv.holds.set ?_ _, hv.kvMalloc, ?_⟩, ?_⟩
    · exact (List.getElem?_eq_some_iff.mp he).1
    · refine hv.sound.set he rfl (.inl rfl) (hv.sound.live e (List.mem_of_getElem? he)) ?_
      intro info' hi
      cases hi
      exact hrec
    · exact slots_set hv.sound he { e with mrRdma := some info } rfl hk

structure Adds (h h' : Heap) (a : UInt64) (x : List UInt8) (b : UInt64) (y : List UInt8) : Prop where
  newKey : h.blocks a = none
  newValue : h.blocks b = none
  ne : a ≠ b
  blocks : h'.blocks = Function.update (Function.update h.blocks a (some x)) b (some y)

section Adds

variable {a b : UInt64} {x y : List UInt8}

theorem Adds.key (ha : Adds h h' a x b y) : h'.blocks a = some x := by
  rw [ha.blocks, Function.update_of_ne ha.ne, Function.update_self]

theorem Adds.value (ha : Adds h h' a x b y) : h'.blocks b = some y := by
  rw [ha.blocks, Function.update_self]

theorem Adds.old (ha : Adds h h' a x b y) {c : UInt64} (hc : h.blocks c ≠ none) :
    h'.blocks c = h.blocks c := by
  have hca : c ≠ a := fun hca => hc (hca ▸ ha.newKey)
  have hcb : c ≠ b := fun hcb => hc (hcb ▸ ha.newValue)
  rw [ha.blocks, Function.update_of_ne hcb, Function.update_of_ne hca]

theorem Adds.keeps (ha : Adds h h' a x b y) : Keeps h h' := by
  intro c block hc
  exact ⟨block, (ha.old (by simp [hc])).trans hc, rfl⟩

theorem cstr_ne_none {a : UInt64} (ha : (cstr h a).isSome) : h.blocks a ≠ none := by
  intro hn
  simp [cstr, hn] at ha

theorem Adds.cstr_old (ha : Adds h h' a x b y) {c : UInt64} (hc : (cstr h c).isSome) :
    cstr h' c = cstr h c :=
  cstr_congr (ha.old (cstr_ne_none hc))

theorem Sound.ref_live (hs : Sound h regions es) {c : UInt64} (hc : c ∈ Tables.refs es) :
    h.blocks c ≠ none := by
  obtain ⟨e, he, rfl⟩ | ⟨e, he, rfl⟩ := mem_refs.mp hc
  · exact cstr_ne_none (hs.keys e he)
  · obtain ⟨block, hb, -⟩ := hs.live e he
    simp [hb]

theorem Sound.adds (hs : Sound h regions es) (ha : Adds h h' a x b y) : Sound h' regions es :=
  hs.frame ha.keeps (fun e he => ha.cstr_old (hs.keys e he))

theorem Adds.slots_eq (ha : Adds h h' a x b y) (hs : Sound h regions es) :
    slots h' es = slots h es :=
  slots_congr (fun e he => ha.cstr_old (hs.keys e he))

theorem Adds.fresh {key : List UInt8} (ha : Adds h h' a (key ++ [0]) b y) (hk : 0 ∉ key)
    (hs : Sound h regions es) {size : UInt64} (hl : y.length = size.toNat) :
    Fresh h' regions es ⟨a, b, size, none⟩ key where
  key := by rw [cstr, ha.key]; exact cstring_append key [] hk
  ne := ha.ne
  keyRef hm := hs.ref_live hm ha.newKey
  valueRef hm := hs.ref_live hm ha.newValue
  apart r hr hm := by
    obtain ⟨block, hb, -⟩ := hs.shared r hr
    rw [hm] at hb
    exact absurd (hb.symm.trans ha.newKey) (by simp)
  live := ⟨y, ha.value, hl⟩
  recorded info hi := by cases hi

theorem adds_of_updates {h₁ h₂ : Heap} (hna : h.blocks a = none)
    (h1 : h₁.blocks = Function.update h.blocks a (some x)) (hnb : h₁.blocks b = none)
    (h2 : h₂.blocks = Function.update h₁.blocks b (some y)) : Adds h h₂ a x b y := by
  have hne : b ≠ a := by
    rintro rfl
    simp [h1] at hnb
  rw [h1, Function.update_of_ne hne] at hnb
  exact ⟨hna, hnb, hne.symm, by rw [h2, h1]⟩

theorem strdup_strdup {h₁ h₂ : Heap} {key value : List UInt8} {size : Nat}
    (hk : strdup h (key.length + 1) key = some (a, h₁))
    (hv : strdup h₁ size value = some (b, h₂)) :
    value.length + 1 ≤ size ∧ ∃ rest, rest.length = size - (value.length + 1) ∧
      Adds h h₂ a (key ++ [0]) b (value ++ 0 :: rest) := by
  obtain ⟨-, hna, -, rest, hr, h1⟩ := strdup_eq_some hk
  obtain ⟨-, hnb, hl, rest', hr', h2⟩ := strdup_eq_some hv
  obtain rfl : rest = [] := List.length_eq_zero_iff.mp (by omega)
  exact ⟨hl, rest', hr', adds_of_updates hna h1 hnb h2⟩

theorem strdup_malloc {h₁ h₂ : Heap} {key : List UInt8} {size : Nat}
    (hk : strdup h (key.length + 1) key = some (a, h₁)) (hv : malloc h₁ size = some (b, h₂)) :
    ∃ y, y.length = size ∧ Adds h h₂ a (key ++ [0]) b y := by
  obtain ⟨-, hna, -, rest, hr, h1⟩ := strdup_eq_some hk
  obtain ⟨-, hnb, h2⟩ := malloc_eq_some hv
  obtain rfl : rest = [] := List.length_eq_zero_iff.mp (by omega)
  exact ⟨_, fresh_length h₁ size, adds_of_updates hna h1 hnb h2⟩

end Adds

theorem ibvRegMr_eq_some {start size : UInt64} {access : Access} {mr : Mr} {s' : ServerMemory n}
    (h : ibvRegMr start size access s = some (mr, s')) :
    mr.addr = start ∧ mr.length = size ∧ mr.access = access ∧
      mr.rkey ∉ s.regions.image Mr.rkey ∧ s' = s.insertRegion mr := by
  by_cases hk : s.rkeys s.regCount ∈ s.regions.image Mr.rkey
  · simp [ibvRegMr, hk] at h
  · rw [ibvRegMr, if_neg hk] at h
    cases h
    exact ⟨rfl, rfl, rfl, hk, rfl⟩

theorem Sound.insertRegion (hs : Sound h regions es) {mr : Mr}
    (hb : ∃ block, h.blocks mr.addr = some block ∧ block.length = mr.length.toNat)
    (ha : ∀ e ∈ es, mr.addr ≠ e.keyAddress) (hk : mr.rkey ∉ regions.image Mr.rkey) :
    Sound h (insert mr regions) es where
  keys := hs.keys
  distinct := hs.distinct
  refs := hs.refs
  live := hs.live
  shared r hr := by
    obtain rfl | hr := Finset.mem_insert.mp hr
    · exact hb
    · exact hs.shared r hr
  apart r hr := by
    obtain rfl | hr := Finset.mem_insert.mp hr
    · exact ha
    · exact hs.apart r hr
  recorded e he info hi := by
    obtain ⟨hm, hr⟩ := hs.recorded e he info hi
    exact ⟨Finset.mem_insert_of_mem hm, hr⟩
  rkeys r hr r' hr' heq := by
    have hk' : ∀ x ∈ regions, x.rkey ≠ mr.rkey := by
      intro x hx hxk
      exact hk (Finset.mem_image.mpr ⟨x, hx, hxk⟩)
    obtain hm | hr := Finset.mem_insert.mp hr <;> obtain hm' | hr' := Finset.mem_insert.mp hr'
    · exact hm.trans hm'.symm
    · exact absurd (heq.symm.trans (congrArg Mr.rkey hm)) (hk' r' hr')
    · exact absurd (heq.trans (congrArg Mr.rkey hm')) (hk' r hr)
    · exact hs.rkeys r hr r' hr' heq

theorem Sound.value_not_key (hs : Sound h regions es) {e e' : KeyValueAddressPair} (he : e ∈ es)
    (he' : e' ∈ es) : e.valueAddress ≠ e'.keyAddress := by
  obtain ⟨-, -, hd⟩ := List.nodup_append'.mp hs.refs
  intro heq
  exact hd (List.mem_map_of_mem he') (heq ▸ List.mem_map_of_mem he)

theorem Sound.same_value (hs : Sound h regions es) {e e' : KeyValueAddressPair} (he : e ∈ es)
    (he' : e' ∈ es) (heq : e.valueAddress = e'.valueAddress) : e = e' := by
  obtain ⟨-, hv, -⟩ := List.nodup_append'.mp hs.refs
  exact List.inj_on_of_nodup_map hv he he' heq

theorem Fresh.lock {a b size : UInt64} {key : List UInt8}
    (hf : Fresh h regions es ⟨a, b, size, none⟩ key) {mr : Mr} (haddr : mr.addr = b)
    (hlength : mr.length = size) :
    Fresh h (insert mr regions) es ⟨a, b, size, some ⟨mr, b, size⟩⟩ key where
  key := hf.key
  ne := hf.ne
  keyRef := hf.keyRef
  valueRef := hf.valueRef
  apart r hr := by
    obtain rfl | hr := Finset.mem_insert.mp hr
    · exact fun hm => hf.ne (haddr ▸ hm).symm
    · exact hf.apart r hr
  live := hf.live
  recorded info hi := by
    cases hi
    exact ⟨Finset.mem_insert_self mr regions, haddr, hlength⟩

variable {i : Fin n} {msg r : ControlMessage}

theorem stringAt_nulFree {buf key : List UInt8} {off : Nat} (h : stringAt buf off = some key) :
    0 ∉ key :=
  (cstring_some h).1

theorem Valid.stored (hv : Valid s es) {key value : List UInt8} {size : UInt64} {a b : UInt64}
    {h₁ h₂ h₃ : Heap} {database : KeyValueAddressArray} (hkey : 0 ∉ key)
    (ha : strdup s.heap (key.length + 1) key = some (a, h₁))
    (hb : strdup h₁ size.toNat value = some (b, h₂))
    (hi : insertToArray s.kvMalloc h₂ s.database ⟨a, b, size, none⟩ = some (h₃, database)) :
    ∃ es' rest, Valid ((s.setHeap h₃).setDatabase database) es' ∧
      Adds s.heap h₃ a (key ++ [0]) b (value ++ 0 :: rest) ∧
      value.length + 1 + rest.length = size.toNat ∧
      es' = upsert (fun x => cstr h₃ x.keyAddress == some key) es ⟨a, b, size, none⟩ ∧
      slots h₃ es' = Function.update (slots s.heap es) key (some ⟨b, size, none⟩) := by
  obtain ⟨hl, rest, hr, hadd⟩ := strdup_strdup ha hb
  have hlen : (value ++ 0 :: rest).length = size.toNat := by
    simp only [List.length_append, List.length_cons]
    omega
  have hf := hadd.fresh hkey hv.sound hlen
  have hs := hv.sound.adds hadd
  obtain ⟨array, hi', hh⟩ := insertToArray_eq hv.kvMalloc_ne hv.holds hf.key hs.keys
  rw [hi'] at hi
  cases hi
  obtain ⟨hsound, hslots⟩ := hs.upsert hf
  refine ⟨_, rest, ⟨hh, hv.kvMalloc, hsound⟩, hadd, by omega, rfl, ?_⟩
  rw [hslots, hadd.slots_eq hv.sound]
  rfl

theorem Valid.granted_set (hv : Valid s es) {key : List UInt8} {size : UInt64} {a b : UInt64}
    {h₁ h₂ : Heap} {mr : Mr} {s₂ : ServerMemory n} (hkey : 0 ∉ key)
    (ha : strdup s.heap (key.length + 1) key = some (a, h₁))
    (hb : malloc h₁ size.toNat = some (b, h₂))
    (hreg : ibvRegMr b size .remoteWrite (s.setHeap h₂) = some (mr, s₂)) :
    s₂ = (s.setHeap h₂).insertRegion mr ∧ mr.addr = b ∧ mr.length = size ∧
      mr.access = .remoteWrite ∧ Valid s₂ es ∧
      Ready h₂ s₂.regions es (.insert ⟨a, b, size, some ⟨mr, b, size⟩⟩)
        (some (key, ⟨b, size, some ⟨mr, b, size⟩⟩)) ∧
      ∃ y, y.length = size.toNat ∧ Adds s.heap h₂ a (key ++ [0]) b y := by
  obtain ⟨y, hy, hadd⟩ := strdup_malloc ha hb
  obtain ⟨haddr, hlength, haccess, hk, rfl⟩ := ibvRegMr_eq_some hreg
  have hf := hadd.fresh hkey hv.sound hy
  have hs := hv.sound.adds hadd
  have hsound : Sound h₂ (insert mr s.regions) es := by
    refine hs.insertRegion ⟨y, ?_, ?_⟩ ?_ hk
    · rw [haddr]
      exact hadd.value
    · rw [hlength]
      exact hy
    · intro e he heq
      rw [haddr] at heq
      exact hf.valueRef (mem_refs.mpr (.inl ⟨e, he, heq.symm⟩))
  exact ⟨rfl, haddr, hlength, haccess, ⟨hv.holds, hv.kvMalloc, hsound⟩,
    .insert (hf.lock haddr hlength), y, hy, hadd⟩

theorem Valid.granted_get (hv : Valid s es) {key : List UInt8} {idx : Nat}
    {e : KeyValueAddressPair} {mr : Mr} {s₂ : ServerMemory n} (he : es[idx]? = some e)
    (hk : cstr s.heap e.keyAddress = some key)
    (hreg : ibvRegMr e.valueAddress e.valueSize .remoteRead s = some (mr, s₂)) :
    s₂ = s.insertRegion mr ∧ mr.addr = e.valueAddress ∧ mr.length = e.valueSize ∧
      mr.access = .remoteRead ∧ Valid s₂ es ∧
      Ready s.heap s₂.regions es (.mark idx ⟨mr, e.valueAddress, e.valueSize⟩)
        (some (key, ⟨e.valueAddress, e.valueSize, some ⟨mr, e.valueAddress, e.valueSize⟩⟩)) := by
  obtain ⟨haddr, hlength, haccess, hrkey, rfl⟩ := ibvRegMr_eq_some hreg
  have hmem : e ∈ es := List.mem_of_getElem? he
  refine ⟨rfl, haddr, hlength, haccess, ⟨hv.holds, hv.kvMalloc, ?_⟩,
    .mark he hk ⟨Finset.mem_insert_self mr s.regions, haddr, hlength⟩ haccess⟩
  refine hv.sound.insertRegion ?_ ?_ hrkey
  · rw [haddr, hlength]
    exact hv.sound.live e hmem
  · intro e' he'
    rw [haddr]
    exact hv.sound.value_not_key hmem he'

theorem Valid.release (hv : Valid s es) {key : List UInt8} {idx : Nat} {e : KeyValueAddressPair}
    {info : MrInfo} (he : es[idx]? = some e) (hk : cstr s.heap e.keyAddress = some key)
    (hm : e.mrRdma = some info) :
    Valid ((s.eraseRegion info.mr).setDatabase (s.database.set idx { e with mrRdma := none }))
        (es.set idx { e with mrRdma := none }) ∧
      slots s.heap (es.set idx { e with mrRdma := none }) =
        Function.update (slots s.heap es) key (some ⟨e.valueAddress, e.valueSize, none⟩) := by
  have hmem : e ∈ es := List.mem_of_getElem? he
  have hi := (List.getElem?_eq_some_iff.mp he).1
  have hs : Sound s.heap s.regions (es.set idx { e with mrRdma := none }) := by
    refine hv.sound.set he rfl (.inl rfl) (hv.sound.live e hmem) ?_
    intro info' hi'
    cases hi'
  refine ⟨⟨hv.holds.set hi _, hv.kvMalloc, hs.keys, hs.distinct, hs.refs, hs.live, ?_, ?_, ?_, ?_⟩,
    slots_set hv.sound he { e with mrRdma := none } rfl hk⟩
  · intro r hr
    exact hs.shared r (Finset.mem_of_mem_erase hr)
  · intro r hr
    exact hs.apart r (Finset.mem_of_mem_erase hr)
  · intro x hx info' hx'
    obtain ⟨hr, haddr, hlength⟩ := hs.recorded x hx info' hx'
    refine ⟨Finset.mem_erase.mpr ⟨fun heq => ?_, hr⟩, haddr, hlength⟩
    obtain ⟨-, hea, -⟩ := hv.sound.recorded e hmem info hm
    rw [heq, hea] at haddr
    have hx'' := hs.same_value hx (List.mem_of_getElem? (List.getElem?_set_self hi)) haddr.symm
    rw [hx''] at hx'
    cases hx'
  · intro r hr r' hr'
    exact hs.rkeys r (Finset.mem_of_mem_erase hr) r' (Finset.mem_of_mem_erase hr')

theorem write_keeps {a : UInt64} {block block' : List UInt8} (hb : h.blocks a = some block)
    (hl : block'.length = block.length) : Keeps h (write h a block') := by
  intro c x hc
  by_cases hca : c = a
  · subst hca
    rw [hb] at hc
    cases hc
    exact ⟨block', write_self h c block', hl⟩
  · exact ⟨x, by rw [write_other hca, hc], rfl⟩

theorem cstr_write_other {a b : UInt64} (hab : b ≠ a) (block : List UInt8) :
    cstr (write h a block) b = cstr h b :=
  cstr_congr (write_other hab h block)

section Write

variable {mr : Mr} {block block' : List UInt8}

theorem Valid.write (hv : Valid s es) (hr : mr ∈ s.regions)
    (hb : s.heap.blocks mr.addr = some block) (hl : block'.length = block.length) :
    Valid (s.setHeap (Memory.write s.heap mr.addr block')) es :=
  ⟨hv.holds, hv.kvMalloc, hv.sound.frame (write_keeps hb hl)
    (fun e he => cstr_write_other (hv.sound.apart mr hr e he).symm block')⟩

theorem Valid.slots_write (hv : Valid s es) (hr : mr ∈ s.regions) (block' : List UInt8) :
    slots (Memory.write s.heap mr.addr block') es = slots s.heap es :=
  slots_congr (fun e he => cstr_write_other (hv.sound.apart mr hr e he).symm block')

theorem Ready.write {rec : Recording} {pending : Option (List UInt8 × Slot)}
    (hready : Ready h regions es rec pending) (hs : Sound h regions es) (hr : mr ∈ regions)
    (hb : h.blocks mr.addr = some block) (hl : block'.length = block.length) :
    Ready (Memory.write h mr.addr block') regions es rec pending := by
  cases hready with
  | nothing => exact .nothing
  | @insert e key hf =>
    refine .insert ⟨?_, hf.ne, hf.keyRef, hf.valueRef, hf.apart, ?_, hf.recorded⟩
    · rw [cstr_write_other (hf.apart mr hr).symm]
      exact hf.key
    · obtain ⟨x, hx, hxl⟩ := hf.live
      obtain ⟨x', hx', hxl'⟩ := write_keeps hb hl _ _ hx
      exact ⟨x', hx', hxl'.trans hxl⟩
  | @mark idx e key info he hk hrec haccess =>
    refine .mark he ?_ hrec haccess
    rw [cstr_write_other (hs.apart mr hr e (List.mem_of_getElem? he)).symm]
    exact hk

end Write

end NetworkOptimization.Tables
