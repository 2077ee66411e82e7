import Vmm386.Vbios.Cells
import Vmm386.Vbios.KbdBuffer

/-!
# The keyboard buffer is a queue

`Holds s t h` says that the tail is at place `t` and the head at place `h`, and that the keys between
them are the ones that were stored and not returned.
-/

namespace Vmm386.Vbios.KbdBuffer

open TextPage (Mem word word_append word_congr)
open Handlers Kbd VkbdModule Runs

variable {m m' : Mem} {o p v : UShort} {t h : ℕ} {s : State} {r : Regs} {vk : Vkbd}

/-! ## Fields -/

theorem toNat_field (o : UShort) : (field o).toNat = 0x400 + o.toNat := by
  have ho : o.toNat < 2 ^ 16 := o.isLt
  have hext : (o.zeroExtend 32 : ULong).toNat = o.toNat := BitVec.toNat_setWidth_of_le (by decide)
  have hbase : BIOS_DATA.toNat = 0x400 := rfl
  rw [field, BitVec.toNat_add, hext, hbase]
  omega

@[simp] theorem getField_putField_self (m : Mem) (o v : UShort) :
    getField (putField m o v) o = v := by
  rw [getField, putField, getUserShort, Store.apply, TextCursor.word_putBytes, word_append]

theorem putField_of_ne {a : ℕ} (ha : a < 0x400 + o.toNat ∨ 0x400 + o.toNat + 2 ≤ a) :
    putField m o v a = m a := by
  rw [putField, Store.apply, toNat_field, putBytes, putBytes, putBytes,
    Function.update_of_ne (by omega), Function.update_of_ne (by omega)]

theorem getField_congr (hlow : m' (0x400 + o.toNat) = m (0x400 + o.toNat))
    (hhigh : m' (0x400 + o.toNat + 1) = m (0x400 + o.toNat + 1)) :
    getField m' o = getField m o := by
  rw [getField, getField, getUserShort, getUserShort, toNat_field]
  exact word_congr hlow hhigh

/-- Fields that do not overlap. -/
theorem getField_putField (h : p.toNat + 2 ≤ o.toNat ∨ o.toNat + 2 ≤ p.toNat) :
    getField (putField m o v) p = getField m p :=
  getField_congr (putField_of_ne (by omega)) (putField_of_ne (by omega))

/-- The last value counts. -/
theorem putField_putField (m : Mem) (o v w : UShort) :
    putField (putField m o v) o w = putField m o w := by
  funext b
  simp only [putField, Store.apply, putBytes, Function.update_apply]
  split_ifs <;> rfl

/-! ## Places -/

/-- The offset of a place of the buffer. -/
def place (k : ℕ) : UShort := BitVec.ofNat 16 (0x1e + 2 * k)

theorem toNat_place {k : ℕ} (hk : k ≤ 16) : (place k).toNat = 0x1e + 2 * k := by
  rw [place, BitVec.toNat_ofNat]
  omega

theorem place_inj {k l : ℕ} (hk : k ≤ 16) (hl : l ≤ 16) (h : place k = place l) : k = l := by
  have heq := congrArg BitVec.toNat h
  rw [toNat_place hk, toNat_place hl] at heq
  omega

theorem place_succ (k : ℕ) : place k + 2 = place (k + 1) := by
  have htwo : (2 : UShort) = BitVec.ofNat 16 2 := rfl
  rw [place, place, htwo, ← BitVec.ofNat_add, Nat.mul_succ, Nat.add_assoc]

/-- From one place to the next, with the wrap of the code. -/
theorem next_place {k : ℕ} (hk : k < 16) :
    (if place k + 2 = KBD_BUF + 32 then KBD_BUF else place k + 2) = place ((k + 1) % 16) := by
  have hend : (KBD_BUF + 32 : UShort) = place 16 := rfl
  have hstart : (KBD_BUF : UShort) = place 0 := rfl
  rw [place_succ, hend, hstart, Ring.succ_mod hk]
  by_cases hlast : k + 1 = 16
  · rw [if_pos hlast, if_pos (congrArg place hlast)]
  · rw [if_neg hlast, if_neg fun heq => hlast (place_inj (by omega) (by omega) heq)]

/-- The key at a place. -/
def slot (m : Mem) (k : ℕ) : UShort := getField m (place k)

/-- The fields that belong to the buffer. -/
structure Area (m : Mem) (t h : ℕ) : Prop where
  tail_lt : t < 16
  head_lt : h < 16
  head : getField m KBD_BUF_HEAD = place h
  tail : getField m KBD_BUF_TAIL = place t
  first : getField m KBD_BUF_START = KBD_BUF
  last : getField m KBD_BUF_END = KBD_BUF + 32

namespace Area

theorem newTail (a : Area m t h) : newTail m = place ((t + 1) % 16) := by
  rw [KbdBuffer.newTail, a.tail, a.first, a.last, next_place a.tail_lt]

/-- A word in the buffer, or in the tail or the head, changes no other field. -/
theorem put (a : Area m t h) {k : ℕ} (hk : k < 16) (v : UShort) :
    Area (putField m (place k) v) t h := by
  have hplace := toNat_place (Nat.le_of_lt hk)
  have hhead : KBD_BUF_HEAD.toNat = 0x1a := rfl
  have htail : KBD_BUF_TAIL.toNat = 0x1c := rfl
  have hfirst : KBD_BUF_START.toNat = 0x80 := rfl
  have hlast : KBD_BUF_END.toNat = 0x82 := rfl
  refine ⟨a.tail_lt, a.head_lt, ?_, ?_, ?_, ?_⟩
  · rw [getField_putField (by omega), a.head]
  · rw [getField_putField (by omega), a.tail]
  · rw [getField_putField (by omega), a.first]
  · rw [getField_putField (by omega), a.last]

theorem setTail (a : Area m t h) {t' : ℕ} (ht : t' < 16) :
    Area (putField m KBD_BUF_TAIL (place t')) t' h := by
  refine ⟨ht, a.head_lt, ?_, getField_putField_self _ _ _, ?_, ?_⟩
  · rw [getField_putField (by decide), a.head]
  · rw [getField_putField (by decide), a.first]
  · rw [getField_putField (by decide), a.last]

theorem setHead (a : Area m t h) {h' : ℕ} (hh : h' < 16) :
    Area (putField m KBD_BUF_HEAD (place h')) t h' := by
  refine ⟨a.tail_lt, hh, getField_putField_self _ _ _, ?_, ?_, ?_⟩
  · rw [getField_putField (by decide), a.tail]
  · rw [getField_putField (by decide), a.first]
  · rw [getField_putField (by decide), a.last]

theorem isEmpty_iff (a : Area m t h) :
    getField m KBD_BUF_HEAD = getField m KBD_BUF_TAIL ↔ t = h := by
  have ht := a.tail_lt
  have hh := a.head_lt
  rw [a.head, a.tail]
  refine ⟨fun heq => (place_inj (by omega) (by omega) heq).symm, fun heq => ?_⟩
  rw [heq]

theorem isFull_iff (a : Area m t h) :
    KbdBuffer.newTail m = getField m KBD_BUF_HEAD ↔ (t + 1) % 16 = h := by
  have hmod : (t + 1) % 16 < 16 := Nat.mod_lt _ (by decide)
  have hh := a.head_lt
  rw [a.newTail, a.head]
  refine ⟨fun heq => place_inj (by omega) (by omega) heq, fun heq => ?_⟩
  rw [heq]

/-- What is elsewhere does not matter. -/
theorem congr (a : Area m t h) (hmem : ∀ b, 0x41a ≤ b → b < 0x500 → m' b = m b) :
    Area m' t h := by
  have hfield : ∀ o : UShort, 0x1a ≤ o.toNat ∧ o.toNat < 0xff → getField m' o = getField m o :=
    fun o ho => getField_congr (hmem _ (by omega) (by omega)) (hmem _ (by omega) (by omega))
  refine ⟨a.tail_lt, a.head_lt, ?_, ?_, ?_, ?_⟩
  · exact (hfield _ (by decide)).trans a.head
  · exact (hfield _ (by decide)).trans a.tail
  · exact (hfield _ (by decide)).trans a.first
  · exact (hfield _ (by decide)).trans a.last

end Area

theorem slot_putField {k : ℕ} (hk : k < 16) (ho : o.toNat + 2 ≤ 0x1e) :
    slot (putField m o v) k = slot m k := by
  have hplace := toNat_place (Nat.le_of_lt hk)
  exact getField_putField (by omega)

theorem slot_put {k l : ℕ} (hk : k < 16) (hl : l < 16) :
    slot (putField m (place l) v) k = Function.update (slot m) l v k := by
  have hplace := toNat_place (Nat.le_of_lt hk)
  have hplace' := toNat_place (Nat.le_of_lt hl)
  by_cases heq : k = l
  · rw [heq, Function.update_self]
    exact getField_putField_self _ _ _
  · rw [Function.update_of_ne heq]
    exact getField_putField (by omega)

/-! ## The queue -/

/-- The keys that were stored and not returned. -/
def State.pending (s : State) : List UShort := s.stored.drop s.returned.length

structure Holds (s : State) (t h : ℕ) : Prop extends Area s.mem t h where
  fifo : s.stored = s.returned ++ Ring.contents 16 (slot s.mem) t h

theorem Holds.pending (a : Holds s t h) : s.pending = Ring.contents 16 (slot s.mem) t h := by
  rw [State.pending, a.fifo, List.drop_left]

theorem Holds.order (a : Holds s t h) : s.stored = s.returned ++ s.pending := by
  rw [a.pending]
  exact a.fifo

theorem Holds.pending_eq_nil (a : Holds s t h) : s.pending = [] ↔ t = h := by
  rw [a.pending]
  exact Ring.contents_eq_nil a.tail_lt a.head_lt

theorem Holds.pending_lt (a : Holds s t h) : s.pending.length < 16 := by
  rw [a.pending, Ring.length_contents]
  exact Ring.count_lt (by decide)

theorem Holds.isFull_iff (a : Holds s t h) : s.pending.length = 15 ↔ (t + 1) % 16 = h := by
  have hcount : s.pending.length = Ring.count 16 t h := by rw [a.pending, Ring.length_contents]
  rw [← Ring.count_eq_iff a.tail_lt a.head_lt, hcount]
  omega

/-- A key goes into a buffer with room for it. -/
theorem Holds.store (a : Holds s t h) (hroom : (t + 1) % 16 ≠ h) (v : UShort) :
    Holds (s.store v (newTail s.mem)) ((t + 1) % 16) h := by
  have hmod : (t + 1) % 16 < 16 := Nat.mod_lt _ (by decide)
  have hmem : (s.store v (newTail s.mem)).mem =
      putField (putField s.mem (place t) v) KBD_BUF_TAIL (place ((t + 1) % 16)) := by
    rw [State.store, a.tail, a.newTail]
  refine ⟨?_, ?_⟩
  · rw [hmem]
    exact (a.toArea.put a.tail_lt v).setTail hmod
  · have hslots : ∀ k < 16, slot (s.store v (newTail s.mem)).mem k =
        Function.update (slot s.mem) t v k := by
      intro k hk
      rw [hmem, slot_putField hk (by decide), slot_put hk a.tail_lt]
    rw [Ring.contents_congr (by decide) hslots, Ring.contents_push a.tail_lt a.head_lt hroom,
      ← List.append_assoc]
    exact congrArg (· ++ [v]) a.fifo

theorem Holds.pending_store (a : Holds s t h) (v newTail : UShort) :
    (s.store v newTail).pending = s.pending ++ [v] := by
  have hle : s.returned.length ≤ s.stored.length := by
    rw [a.order, List.length_append]
    omega
  exact List.drop_append_of_le_length hle

/-- Keys go in, one after the other. -/
def State.storeAll (s : State) (ks : List UShort) : State :=
  ks.foldl (fun s v => s.store v (newTail s.mem)) s

theorem Holds.storeAll {ks : List UShort} (a : Holds s t h)
    (hroom : s.pending.length + ks.length ≤ 15) :
    (∃ t', Holds (s.storeAll ks) t' h) ∧ (s.storeAll ks).stored = s.stored ++ ks ∧
      (s.storeAll ks).returned = s.returned := by
  induction ks generalizing s t with
  | nil => exact ⟨⟨t, a⟩, (List.append_nil _).symm, rfl⟩
  | cons k ks ih =>
    rw [List.length_cons] at hroom
    have hnot : (t + 1) % 16 ≠ h := fun heq => by
      have hfull := a.isFull_iff.mpr heq
      omega
    have hlen : (s.store k (newTail s.mem)).pending.length + ks.length ≤ 15 := by
      rw [a.pending_store, List.length_append, List.length_singleton]
      omega
    obtain ⟨hholds, hstored, hreturned⟩ := ih (a.store hnot k) hlen
    refine ⟨hholds, hstored.trans ?_, hreturned⟩
    exact List.append_assoc _ _ _

theorem Holds.congr (a : Holds s t h) (hmem : ∀ b, 0x41a ≤ b → b < 0x500 → m b = s.mem b) :
    Holds { s with mem := m } t h := by
  refine ⟨a.toArea.congr hmem, ?_⟩
  have hslots : ∀ k < 16, slot m k = slot s.mem k := by
    intro k hk
    have hplace := toNat_place (Nat.le_of_lt hk)
    exact getField_congr (hmem _ (by omega) (by omega)) (hmem _ (by omega) (by omega))
  rw [Ring.contents_congr (by decide) hslots]
  exact a.fifo

/-! ## The set-up -/

theorem putBytes_of_le {a b : ℕ} {vs : List UChar} (hb : a + vs.length ≤ b) :
    putBytes m a vs b = m b := by
  induction vs generalizing m a with
  | nil => rfl
  | cons v vs ih =>
    rw [List.length_cons] at hb
    rw [putBytes, ih (by omega), Function.update_of_ne (by omega)]

/-- The words of the buffer after the set-up, before the tables and the ports. -/
theorem fields_area (hw : Hardware) (tty : Tty) (m : Mem) :
    Area ((fields hw tty).foldl Store.apply ((Store.memset BIOS_DATA 0 0x100).apply m)) 0 0 := by
  rw [fields]
  refine ⟨by decide, by decide, ?_, ?_, ?_, ?_⟩ <;> cases tty.isMda <;>
    simp [getField, getUserShort, word, field, Store.apply, putBytes, place]

/-- A store of a byte or a word that is not below the BIOS data area. -/
def IsAbove : Store → Prop
  | .putUserByte _ a => BIOS_DATA.toNat ≤ a.toNat
  | .putUserShort _ a => BIOS_DATA.toNat ≤ a.toNat
  | _ => False

theorem foldl_of_lt {l : List Store} (hl : ∀ st ∈ l, IsAbove st) {b : ℕ}
    (hb : b < BIOS_DATA.toNat) : l.foldl Store.apply m b = m b := by
  induction l generalizing m with
  | nil => rfl
  | cons st l ih =>
    have hst : IsAbove st := hl st List.mem_cons_self
    have hkeep : st.apply m b = m b := by
      cases st with
      | putUserByte v a => exact putBytes_of_lt (Nat.lt_of_lt_of_le hb hst)
      | putUserShort v a => exact putBytes_of_lt (Nat.lt_of_lt_of_le hb hst)
      | putUserLong => exact hst.elim
      | memset => exact hst.elim
      | memsetw => exact hst.elim
      | memsetl => exact hst.elim
    rw [List.foldl_cons, ih fun st' hmem => hl st' (List.mem_cons_of_mem _ hmem), hkeep]

/-- The vectors are not in the BIOS data area. -/
theorem fields_of_lt (hw : Hardware) (tty : Tty) (m : Mem) {b : ℕ} (hb : b < BIOS_DATA.toNat) :
    (fields hw tty).foldl Store.apply ((Store.memset BIOS_DATA 0 0x100).apply m) b = m b := by
  have habove : ∀ st ∈ fields hw tty, IsAbove st := by
    rw [fields]
    cases tty.isMda <;> simp [IsAbove, field]
  rw [foldl_of_lt habove hb]
  exact if_neg fun h => Nat.not_lt.mpr h.1 hb

theorem tableAddr_congr (hmem : ∀ b, b < BIOS_DATA.toNat → m' b = m b) {vector : ULong}
    (hvector : vector = 0x41 ∨ vector = 0x46) : tableAddr m' vector = tableAddr m vector := by
  have hword : ∀ a : ULong, a.toNat + 1 < BIOS_DATA.toNat →
      getUserShort m' a = getUserShort m a :=
    fun a ha => word_congr (hmem _ (by omega)) (hmem _ ha)
  rw [tableAddr, tableAddr]
  cases hvector with
  | inl h => rw [h, hword _ (by decide), hword _ (by decide)]
  | inr h => rw [h, hword _ (by decide), hword _ (by decide)]

/-- A table is written, or two, above the BIOS data area. -/
theorem initHdinfo_of_lt {vector : ULong} {info : List UChar} (htable : 0x500 ≤ tableAddr m vector)
    {b : ℕ} (hb : b < 0x500) : initHdinfo m vector info b = m b :=
  putBytes_of_lt (Nat.lt_of_lt_of_le hb htable)

/-- **The set-up.** The buffer is empty. -/
theorem Start.holds (b : Start) : Holds b.state 0 0 := by
  let m := (fields b.hw b.tty).foldl Store.apply
    ((Store.memset BIOS_DATA 0 0x100).apply b.mem)
  have hlow : ∀ a, a < BIOS_DATA.toNat → m a = b.mem a := fun a ha => fields_of_lt _ _ _ ha
  have h41 : 0x500 ≤ tableAddr m 0x41 := by
    rw [tableAddr_congr hlow (.inl rfl)]
    exact b.htables.1
  have h46 : ∀ info, 0x500 ≤ tableAddr (initHdinfo m 0x41 info) 0x46 := by
    intro info
    have hfirst : ∀ a, a < BIOS_DATA.toNat → initHdinfo m 0x41 info a = b.mem a := fun a ha =>
      (initHdinfo_of_lt h41 (Nat.lt_trans ha (by decide))).trans (hlow a ha)
    rw [tableAddr_congr hfirst (.inr rfl)]
    exact b.htables.2
  refine ⟨(fields_area b.hw b.tty b.mem).congr fun a hlo hhi => ?_, ?_⟩
  · rw [Start.state, setupBiosData]
    have hports : 0x410 ≤ a := by omega
    refine (putBytes_of_le hports).trans ?_
    cases hdisks : b.hw.hdisks with
    | nil => rfl
    | cons hd0 rest =>
      cases rest with
      | nil => exact initHdinfo_of_lt h41 hhi
      | cons hd1 rest =>
        exact (initHdinfo_of_lt (h46 hd0) hhi).trans (initHdinfo_of_lt h41 hhi)
  · rw [(Ring.contents_eq_nil (by decide) (by decide)).mpr rfl]
    rfl

end Vmm386.Vbios.KbdBuffer
