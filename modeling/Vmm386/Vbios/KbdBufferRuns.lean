import Vmm386.Vbios.KbdBufferTheorems

/-!
# Runs of the keyboard buffer

What the interrupt and the calls of `INT 16h` do to the queue. A call that puts a key into a full
buffer compares the same two offsets for ever.
-/

namespace Vmm386.Vbios.KbdBuffer

open TextPage (Mem)
open Handlers Kbd VkbdModule Runs

variable {m : Mem} {t h n : ℕ} {s s' : State} {r : Regs} {vk : Vkbd} {k : UShort}
  {rest : List UShort}

/-! ## The interrupt -/

/-- The keys of a ring that go into the buffer. -/
def makeKeys (codes : List ULong) : List UShort := (codes.filter (decide <| IsMake ·)).map flip

/-- The oldest byte comes out of the ring. -/
theorem contents_vkbdOut (hin : 0 ≤ vk.inPos ∧ vk.inPos < 16)
    (hout : 0 ≤ vk.outPos ∧ vk.outPos < 16) (hne : ¬vk.IsEmpty) :
    vk.contents = vk.vkbdOut.1 :: vk.vkbdOut.2.contents ∧ vk.vkbdOut.2.inPos = vk.inPos ∧
      0 ≤ vk.vkbdOut.2.outPos ∧ vk.vkbdOut.2.outPos < 16 := by
  have hmod : (vk.outPos + 1).tmod 16 = (vk.outPos + 1) % 16 :=
    Int.tmod_eq_emod_of_nonneg (by omega)
  have hpop := @Vkbd.ring_pop vk.buf _ _ hin hout hne
  unfold Vkbd.vkbdOut
  dsimp only
  rw [hmod]
  split
  · exact ⟨hpop, rfl, Int.emod_nonneg _ (by decide), Int.emod_lt_of_pos _ (by decide)⟩
  · exact ⟨hpop, rfl, Int.emod_nonneg _ (by decide), Int.emod_lt_of_pos _ (by decide)⟩

/-- The keys go in until the ring is empty or the buffer is full. -/
theorem takeKeys_eq (hin : 0 ≤ vk.inPos ∧ vk.inPos < 16)
    (hout : 0 ≤ vk.outPos ∧ vk.outPos < 16) (a : Holds s t h) (hn : vk.contents.length < n) :
    ∃ vk', takeKeys n vk s =
      some (vk', s.storeAll ((makeKeys vk.contents).take (15 - s.pending.length))) := by
  induction n generalizing vk s t with
  | zero => exact absurd hn (Nat.not_lt_zero _)
  | succ n ih =>
    rw [takeKeys]
    by_cases hempty : vk.IsEmpty
    · have hnil : vk.contents = [] := (Vkbd.ring_eq_nil hin hout).mpr hempty
      rw [if_pos hempty, hnil, makeKeys, List.filter_nil, List.map_nil, List.take_nil]
      exact ⟨vk, rfl⟩
    · obtain ⟨hcontents, hin', hout'⟩ := contents_vkbdOut hin hout hempty
      rw [hcontents, List.length_cons] at hn
      rw [← hin'] at hin
      rw [if_neg hempty, hcontents, makeKeys, List.filter_cons]
      dsimp only
      by_cases hmake : IsMake vk.vkbdOut.1
      · rw [if_pos hmake, if_pos (decide_eq_true hmake), List.map_cons]
        by_cases hfull : newTail s.mem = getField s.mem KBD_BUF_HEAD
        · have hlen : s.pending.length = 15 := a.isFull_iff.mpr (a.toArea.isFull_iff.mp hfull)
          rw [if_pos hfull, hlen]
          exact ⟨vk.vkbdOut.2, rfl⟩
        · have hroom : (t + 1) % 16 ≠ h := fun heq => hfull (a.toArea.isFull_iff.mpr heq)
          have hlen : s.pending.length ≠ 15 := fun heq => hroom (a.isFull_iff.mp heq)
          have hlt := a.pending_lt
          have hleft : 15 - s.pending.length =
              15 - (s.store (flip vk.vkbdOut.1) (newTail s.mem)).pending.length + 1 := by
            rw [a.pending_store, List.length_append, List.length_singleton]
            omega
          rw [if_neg hfull, hleft, List.take_succ_cons]
          exact ih hin hout' (a.store hroom _) (by omega)
      · rw [if_neg hmake, if_neg fun heq => hmake (of_decide_eq_true heq)]
        exact ih hin hout' a (by omega)

/-- **The interrupt.** Keys that find the buffer full do not change it. -/
theorem after_interrupt (a : Holds s t h) (kbd : Keyboard) :
    ∃ s', s.after (.interrupt kbd) = some s' ∧ (∃ t', Holds s' t' h) ∧
      s'.returned = s.returned ∧
      s'.stored = s.stored ++ (makeKeys kbd.vk.contents).take (15 - s.pending.length) ∧
      (s.pending.length = 15 → ∀ b, 0x419 ≤ b → s'.mem b = s.mem b) := by
  have hlt := a.pending_lt
  have hcontents : kbd.vk.contents.length < 16 := by
    rw [Vkbd.contents, Vkbd.ringContents, Ring.length_contents]
    exact Ring.count_lt (by decide)
  obtain ⟨vk', hkeys⟩ := takeKeys_eq kbd.hin kbd.hout a hcontents
  let ks := (makeKeys kbd.vk.contents).take (15 - s.pending.length)
  have hroom : s.pending.length + ks.length ≤ 15 := by
    have htake := List.length_take_le (15 - s.pending.length) (makeKeys kbd.vk.contents)
    change s.pending.length + (List.take _ _).length ≤ 15
    omega
  obtain ⟨⟨t', hholds⟩, hstored, hreturned⟩ := a.storeAll hroom
  have hflags : ∀ (b₀ b₁ : UChar) (b : ℕ), 0x419 ≤ b →
      (Store.putUserByte b₁ (field KBD_FLAGS + 1)).apply
        ((Store.putUserByte b₀ (field KBD_FLAGS)).apply (s.storeAll ks).mem) b =
      (s.storeAll ks).mem b := by
    intro b₀ b₁ b hb
    have hfirst : b ≠ (field KBD_FLAGS).toNat := by
      have hnat : (field KBD_FLAGS).toNat = 0x417 := rfl
      omega
    have hsecond : b ≠ (field KBD_FLAGS + 1).toNat := by
      have hnat : (field KBD_FLAGS + 1).toNat = 0x418 := rfl
      omega
    exact (Function.update_of_ne hsecond _ _).trans (Function.update_of_ne hfirst _ _)
  rw [State.after, vkbdArplHandler, hkeys]
  refine ⟨_, rfl, ⟨t', hholds.congr fun b hb _ => hflags _ _ b (by omega)⟩, hreturned, hstored, ?_⟩
  intro hfull b hb
  have hnone : ks = [] := by
    change (makeKeys kbd.vk.contents).take _ = []
    rw [hfull, Nat.sub_self, List.take_zero]
  refine (hflags _ _ b hb).trans ?_
  rw [hnone]
  rfl

/-! ## Calls -/

theorem Cpu.finish_of_stops {c : Cpu} (hc : c.Stops) : c.finish n = some c := by
  cases n with
  | zero => exact if_pos hc
  | succ n => exact if_pos hc

theorem Cpu.finish_succ {c : Cpu} (hc : ¬c.Stops) : c.finish (n + 1) = c.step.finish n := if_neg hc

/-- Where a call stops it comes by single steps. -/
theorem Cpu.exists_iterate {c c' : Cpu} (hc : c.finish n = some c') :
    ∃ k, Cpu.step^[k] c = c' := by
  induction n generalizing c with
  | zero =>
    rw [finish, Option.ite_none_right_eq_some, Option.some_inj] at hc
    exact ⟨0, hc.2⟩
  | succ n ih =>
    by_cases hstops : c.Stops
    · rw [finish_of_stops hstops, Option.some_inj] at hc
      exact ⟨0, hc⟩
    · rw [finish_succ hstops] at hc
      obtain ⟨k, hk⟩ := ih hc
      exact ⟨k + 1, hk⟩

theorem Cpu.stops_of_finish {c c' : Cpu} (hc : c.finish n = some c') : c'.Stops := by
  induction n generalizing c with
  | zero =>
    rw [finish, Option.ite_none_right_eq_some, Option.some_inj] at hc
    exact hc.2 ▸ hc.1
  | succ n ih =>
    by_cases hstops : c.Stops
    · rw [finish_of_stops hstops, Option.some_inj] at hc
      exact hc ▸ hstops
    · rw [finish_succ hstops] at hc
      exact ih hc

/-- Behind the first jumps. -/
def State.entered (s : State) (r : Regs) (label : Label) (ah : UChar) : Cpu where
  label := label
  regs := { r with ax := ah ++ r.al, bx := 0x40, ds := 0x40 }
  zf := false
  pushed := [r.bx, r.ds]
  guest := s

theorem int16_eq (s : State) (r : Regs) :
    s.int16 r = (s.entered r (dispatch r.ah).1 (dispatch r.ah).2).finish 4 :=
  Cpu.finish_succ (by simp [Cpu.Stops, State.call])

/-- The way out. -/
theorem finish_ret {c : Cpu} {bx ds : UShort} (hlabel : c.label = .int16Ret)
    (hpushed : c.pushed = [bx, ds]) : c.finish (n + 1) =
      some { c with label := .iret, regs := { c.regs with bx := bx, ds := ds }, pushed := [] } := by
  have hstops : ¬c.Stops := by simp [Cpu.Stops, hlabel]
  have hstep : c.step =
      { c with label := .iret, regs := { c.regs with bx := bx, ds := ds }, pushed := [] } := by
    rw [Cpu.step, hlabel, hpushed]
  rw [Cpu.finish_succ hstops, hstep, Cpu.finish_of_stops (.inl rfl)]

/-- A read of an empty buffer waits. -/
theorem int16_read_empty {ah : UChar} (a : Holds s t h) (hah : dispatch r.ah = (.readKbd, ah))
    (hempty : s.pending = []) :
    ∃ c, s.int16 r = some c ∧ c.label = .halted ∧ c.guest = s := by
  have heq : getField s.mem KBD_BUF_HEAD = getField s.mem KBD_BUF_TAIL :=
    a.toArea.isEmpty_iff.mpr (a.pending_eq_nil.mp hempty)
  rw [int16_eq, hah, Cpu.finish_succ (by simp [Cpu.Stops, State.entered])]
  refine ⟨_, Cpu.finish_of_stops (.inr (.inr (if_pos heq))), if_pos heq, rfl⟩

/-- The head of the buffer after a key was taken. -/
theorem step_gotKey {c : Cpu} (a : Holds c.guest t h) (hlabel : c.label = .gotKey)
    (hbx : c.regs.bx = place h) (hk : c.guest.pending = k :: rest) :
    ∃ bx guest, c.step =
        { c with label := .int16Ret, regs := { c.regs with ax := k, bx := bx }, guest := guest } ∧
      guest.stored = c.guest.stored ∧ guest.returned = c.guest.returned ++ [k] ∧
      Holds guest t ((h + 1) % 16) := by
  have hne : t ≠ h := fun heq => by
    rw [a.pending_eq_nil.mpr heq] at hk
    cases hk
  have hpop := Ring.contents_pop (f := slot c.guest.mem) a.tail_lt a.head_lt hne
  rw [← a.pending, hk] at hpop
  obtain ⟨hkey, hrest⟩ := List.cons_eq_cons.mp hpop
  have hmod : (h + 1) % 16 < 16 := Nat.mod_lt _ (by decide)
  -- the two ways to set the head
  have hset : ∀ m : Mem, Area m t ((h + 1) % 16) → (∀ j < 16, slot m j = slot c.guest.mem j) →
      Holds ⟨m, c.guest.stored, c.guest.returned ++ [k]⟩ t ((h + 1) % 16) := by
    intro m harea hslots
    refine ⟨harea, ?_⟩
    rw [Ring.contents_congr (by decide) hslots, ← hrest, List.append_assoc, List.singleton_append,
      ← hk]
    exact a.order
  have hnext := next_place a.head_lt
  have hlast : ∀ bx, getField (putField c.guest.mem KBD_BUF_HEAD bx) KBD_BUF_END = KBD_BUF + 32 :=
    fun bx => (getField_putField (by decide)).trans a.last
  have hfirst : ∀ bx, getField (putField c.guest.mem KBD_BUF_HEAD bx) KBD_BUF_START = KBD_BUF :=
    fun bx => (getField_putField (by decide)).trans a.first
  have hax : c.data c.regs.bx = k := by
    rw [hbx, hkey]
    rfl
  rw [Cpu.step, hlabel]
  dsimp only
  rw [hax, hbx, hlast, hfirst]
  by_cases hwrap : place h + 2 = KBD_BUF + 32
  · rw [if_pos hwrap] at hnext ⊢
    refine ⟨_, _, rfl, rfl, rfl, hset _ ?_ ?_⟩
    · rw [putField_putField, hnext]
      exact a.toArea.setHead hmod
    · intro j hj
      rw [slot_putField hj (by decide), slot_putField hj (by decide)]
  · rw [if_neg hwrap] at hnext ⊢
    refine ⟨_, _, rfl, rfl, rfl, hset _ ?_ ?_⟩
    · rw [hnext]
      exact a.toArea.setHead hmod
    · intro j hj
      rw [slot_putField hj (by decide)]

/-- A read takes the oldest key. -/
theorem int16_read {ah : UChar} (a : Holds s t h) (hah : dispatch r.ah = (.readKbd, ah))
    (hk : s.pending = k :: rest) :
    ∃ c, s.int16 r = some c ∧ c.label = .iret ∧ c.regs.ax = k ∧ c.guest.stored = s.stored ∧
      c.guest.returned = s.returned ++ [k] ∧ Holds c.guest t ((h + 1) % 16) := by
  have hne : getField s.mem KBD_BUF_HEAD ≠ getField s.mem KBD_BUF_TAIL := fun heq => by
    rw [a.pending_eq_nil.mpr (a.toArea.isEmpty_iff.mp heq)] at hk
    cases hk
  have hlabel : (s.entered r .readKbd ah).step.label = .gotKey := if_neg hne
  obtain ⟨bx, guest, hstep, hstored, hreturned, hholds⟩ :=
    step_gotKey (c := (s.entered r .readKbd ah).step) a hlabel a.head hk
  rw [int16_eq, hah, Cpu.finish_succ (by simp [Cpu.Stops, State.entered]),
    Cpu.finish_succ (by simp [Cpu.Stops, hlabel]), hstep]
  exact ⟨_, finish_ret rfl rfl, rfl, rfl, hstored, hreturned, hholds⟩

/-- A status call leaves all as it is. -/
theorem int16_status {ah : UChar} (a : Holds s t h) (hah : dispatch r.ah = (.readStat, ah)) :
    ∃ c, s.int16 r = some c ∧ c.label = .retf ∧ c.guest = s ∧ (c.zf = true ↔ s.pending = []) := by
  rw [int16_eq, hah, Cpu.finish_succ (by simp [Cpu.Stops, State.entered])]
  refine ⟨_, Cpu.finish_of_stops (.inr (.inl rfl)), rfl, rfl, ?_⟩
  rw [a.pending_eq_nil, ← a.toArea.isEmpty_iff]
  exact decide_eq_true_iff

/-- The last call before the comparison. -/
def State.writing (s : State) (r : Regs) (ah : UChar) : Cpu := (s.entered r .writeKbd ah).step

theorem writing_step {ah : UChar} (hroom : newTail s.mem ≠ getField s.mem KBD_BUF_HEAD) :
    (s.writing r ah).step = { s.writing r ah with
      label := .wkEnd, guest := s.store (ah ++ r.al) (newTail s.mem) } :=
  if_neg hroom

/-- A key is written where there is room for it. -/
theorem int16_write {ah : UChar} (a : Holds s t h) (hah : dispatch r.ah = (.writeKbd, ah))
    (hroom : s.pending.length ≠ 15) :
    ∃ c, s.int16 r = some c ∧ c.label = .iret ∧
      c.guest = s.store (ah ++ r.al) (newTail s.mem) ∧ Holds c.guest ((t + 1) % 16) h := by
  have hnot : (t + 1) % 16 ≠ h := fun heq => hroom (a.isFull_iff.mpr heq)
  have hne : newTail s.mem ≠ getField s.mem KBD_BUF_HEAD := fun heq =>
    hnot (a.toArea.isFull_iff.mp heq)
  rw [int16_eq, hah, Cpu.finish_succ (by simp [Cpu.Stops, State.entered]),
    Cpu.finish_succ (by simp [Cpu.Stops, State.entered, Cpu.step]), ← State.writing,
    writing_step hne, Cpu.finish_succ (by simp [Cpu.Stops])]
  exact ⟨_, finish_ret rfl rfl, rfl, rfl, a.store hnot _⟩

/-- A step of a call that finds the buffer full is to compare again. -/
theorem writing_fixed {ah : UChar} (a : Holds s t h) (hfull : s.pending.length = 15) :
    (s.writing r ah).step = s.writing r ah := by
  have heq : newTail s.mem = getField s.mem KBD_BUF_HEAD :=
    a.toArea.isFull_iff.mpr (a.isFull_iff.mp hfull)
  exact if_pos heq

/-- Two steps lead to the comparison, and there is no way on from there. -/
theorem iterate_write_full {ah : UChar} (a : Holds s t h) (hah : dispatch r.ah = (.writeKbd, ah))
    (hfull : s.pending.length = 15) (n : ℕ) :
    Cpu.step^[n] (s.call r) ∈ [s.call r, s.entered r .writeKbd ah, s.writing r ah] := by
  have hfirst : (s.call r).step = s.entered r .writeKbd ah := by
    have hstep : (s.call r).step = s.entered r (dispatch r.ah).1 (dispatch r.ah).2 := rfl
    rw [hstep, hah]
  match n with
  | 0 => exact .head _
  | 1 =>
    change (s.call r).step ∈ _
    rw [hfirst]
    exact .tail _ (.head _)
  | n + 2 =>
    rw [Function.iterate_add_apply]
    change Cpu.step^[n] (s.call r).step.step ∈ _
    rw [hfirst]
    change Cpu.step^[n] (s.writing r ah) ∈ _
    rw [Function.iterate_fixed (writing_fixed a hfull)]
    exact .tail _ (.tail _ (.head _))

/-- **The loop.** A call that puts a key into a full buffer never comes to its end, and changes
nothing. -/
theorem write_full {ah : UChar} (a : Holds s t h) (hah : dispatch r.ah = (.writeKbd, ah))
    (hfull : s.pending.length = 15) (n : ℕ) :
    ¬(Cpu.step^[n] (s.call r)).Stops ∧ (Cpu.step^[n] (s.call r)).guest = s := by
  have hmem := iterate_write_full a hah hfull n
  simp only [List.mem_cons, List.not_mem_nil, or_false] at hmem
  rcases hmem with heq | heq | heq
  · rw [heq]
    exact ⟨by simp [Cpu.Stops, State.call], rfl⟩
  · rw [heq]
    exact ⟨by simp [Cpu.Stops, State.entered], rfl⟩
  · rw [heq]
    exact ⟨by simp [Cpu.Stops, State.writing, State.entered, Cpu.step], rfl⟩

theorem int16_write_full {ah : UChar} (a : Holds s t h) (hah : dispatch r.ah = (.writeKbd, ah))
    (hfull : s.pending.length = 15) : s.int16 r = none := by
  cases hc : s.int16 r with
  | none => rfl
  | some c =>
    obtain ⟨n, hn⟩ := Cpu.exists_iterate hc
    have hstops : c.Stops := Cpu.stops_of_finish hc
    exact absurd (hn ▸ hstops) (write_full a hah hfull n).1

/-- The other calls. -/
theorem int16_other {ah : UChar} {label : Label}
    (hah : dispatch r.ah = (label, ah)) (hlabel : label = .readShift ∨ label = .int16Ret) :
    ∃ c, s.int16 r = some c ∧ c.label = .iret ∧ c.guest = s := by
  rw [int16_eq, hah]
  cases hlabel with
  | inl h =>
    rw [h, Cpu.finish_succ (by simp [Cpu.Stops, State.entered])]
    exact ⟨_, finish_ret rfl rfl, rfl, rfl⟩
  | inr h =>
    rw [h]
    exact ⟨_, finish_ret rfl rfl, rfl, rfl⟩

/-! ## Runs -/

theorem dispatch_label (ah : UChar) : (dispatch ah).1 = .readKbd ∨ (dispatch ah).1 = .readStat ∨
    (dispatch ah).1 = .writeKbd ∨ (dispatch ah).1 = .readShift ∨ (dispatch ah).1 = .int16Ret := by
  unfold dispatch
  split_ifs <;> simp

/-- A call comes to its end and keeps the queue, or it finds a full buffer. -/
theorem int16_cases (a : Holds s t h) (r : Regs) :
    (∃ c t' h', s.int16 r = some c ∧ Holds c.guest t' h') ∨
      (∃ ah, dispatch r.ah = (.writeKbd, ah)) ∧ s.pending.length = 15 := by
  rcases hlabel : dispatch r.ah with ⟨label, ah⟩
  have hcases := dispatch_label r.ah
  rw [hlabel] at hcases
  rcases hcases with rfl | rfl | rfl | hother
  · left
    cases hpending : s.pending with
    | nil =>
      obtain ⟨c, hc, -, hguest⟩ := int16_read_empty a hlabel hpending
      exact ⟨c, t, h, hc, hguest ▸ a⟩
    | cons k rest =>
      obtain ⟨c, hc, -, -, -, -, hholds⟩ := int16_read a hlabel hpending
      exact ⟨c, t, _, hc, hholds⟩
  · obtain ⟨c, hc, -, hguest, -⟩ := int16_status a hlabel
    exact .inl ⟨c, t, h, hc, hguest ▸ a⟩
  · by_cases hfull : s.pending.length = 15
    · exact .inr ⟨⟨ah, rfl⟩, hfull⟩
    · obtain ⟨c, hc, -, -, hholds⟩ := int16_write a hlabel hfull
      exact .inl ⟨c, _, h, hc, hholds⟩
  · obtain ⟨c, hc, -, hguest⟩ := int16_other hlabel hother
    exact .inl ⟨c, t, h, hc, hguest ▸ a⟩

/-- Five steps are enough for every call that comes to its end. -/
theorem int16_eq_none (a : Holds s t h) (hnone : s.int16 r = none) (n : ℕ) :
    ¬(Cpu.step^[n] (s.call r)).Stops := by
  cases int16_cases a r with
  | inl hends =>
    obtain ⟨c, -, -, hc, -⟩ := hends
    rw [hc] at hnone
    cases hnone
  | inr hfull =>
    obtain ⟨⟨ah, hah⟩, hlen⟩ := hfull
    exact (write_full a hah hlen n).1

/-- A step keeps the queue. -/
theorem after_holds : Preserves State.after (fun _ _ => True) fun s => ∃ t h, Holds s t h := by
  intro s e s' ⟨t, h, a⟩ _ hs'
  cases e with
  | interrupt kbd =>
    obtain ⟨s₁, hs₁, ⟨t', hholds⟩, -⟩ := after_interrupt a kbd
    rw [hs₁, Option.some_inj] at hs'
    exact ⟨t', h, hs' ▸ hholds⟩
  | int16 r =>
    obtain ⟨c, hc, rfl⟩ := Option.map_eq_some_iff.mp hs'
    cases int16_cases a r with
    | inl hends =>
      obtain ⟨c', t', h', hc', hholds⟩ := hends
      rw [hc', Option.some_inj] at hc
      exact ⟨t', h', hc ▸ hholds⟩
    | inr hfull =>
      obtain ⟨⟨ah, hah⟩, hlen⟩ := hfull
      rw [int16_write_full a hah hlen] at hc
      cases hc

/-- The offset of a key. -/
def InBuffer (o : UShort) : Prop :=
  KBD_BUF.toNat ≤ o.toNat ∧ o.toNat < KBD_BUF.toNat + 32 ∧ o.toNat % 2 = 0

/-- A state and an event in it are as they should be: the keys come out as they went in, a read, a
status call and a write do what they are for, and a key that finds the buffer full leaves it as it
is. -/
structure Right (s : State) (e : Event) : Prop where
  head : InBuffer (getField s.mem KBD_BUF_HEAD)
  tail : InBuffer (getField s.mem KBD_BUF_TAIL)
  order : s.returned <+: s.stored
  key : ∀ kbd, e = .interrupt kbd → ∃ s', s.after e = some s' ∧ s'.returned = s.returned ∧
    s'.stored = s.stored ++ (makeKeys kbd.vk.contents).take (15 - s.pending.length) ∧
    (s.pending.length = 15 → ∀ b, 0x419 ≤ b → s'.mem b = s.mem b)
  readWaits : ∀ r, e = .int16 r → r.ah = 0 ∨ r.ah = 0x10 → s.pending = [] →
    ∃ c, s.int16 r = some c ∧ c.label = .halted ∧ c.guest = s
  read : ∀ r, e = .int16 r → r.ah = 0 ∨ r.ah = 0x10 → ∀ k rest, s.pending = k :: rest →
    ∃ c, s.int16 r = some c ∧ c.label = .iret ∧ c.regs.ax = k ∧ c.guest.stored = s.stored ∧
      c.guest.returned = s.returned ++ [k]
  status : ∀ r, e = .int16 r → r.ah = 1 ∨ r.ah = 0x11 →
    ∃ c, s.int16 r = some c ∧ c.label = .retf ∧ c.guest = s ∧ (c.zf = true ↔ s.pending = [])
  write : ∀ r, e = .int16 r → r.ah = 5 → ∃ n, (Cpu.step^[n] (s.call r)).label = .iret
  writes : ∀ r, e = .int16 r → r.ah = 5 → s.pending.length < 15 →
    ∃ c, s.int16 r = some c ∧ c.label = .iret ∧ c.guest.returned = s.returned ∧
      c.guest.stored = s.stored ++ [(0 : UChar) ++ r.al]
  writeFull : ∀ r, e = .int16 r → r.ah = 5 → s.pending.length = 15 →
    ∀ n, (Cpu.step^[n] (s.call r)).guest = s

/-- There is room for a key that is written. -/
def HasRoom (s : State) (e : Event) : Prop :=
  ∀ r, e = .int16 r → r.ah = 5 → s.pending.length < 15

theorem inBuffer_place {k : ℕ} (hk : k < 16) : InBuffer (place k) := by
  have hbase : KBD_BUF.toNat = 0x1e := rfl
  rw [InBuffer, toNat_place (Nat.le_of_lt hk), hbase]
  omega

theorem dispatch_read (hah : r.ah = 0 ∨ r.ah = 0x10) : dispatch r.ah = (.readKbd, 0) := by
  cases hah with
  | inl h => rw [h]; rfl
  | inr h => rw [h]; rfl

theorem dispatch_status (hah : r.ah = 1 ∨ r.ah = 0x11) : dispatch r.ah = (.readStat, 0) := by
  cases hah with
  | inl h => rw [h]; rfl
  | inr h => rw [h]; rfl

theorem dispatch_write (hah : r.ah = 5) : dispatch r.ah = (.writeKbd, 0) := by
  rw [hah]
  rfl

theorem right_iff (a : Holds s t h) (e : Event) : Right s e ↔ HasRoom s e := by
  have hlt := a.pending_lt
  refine ⟨fun hright r he hah => ?_, fun hroom => ?_⟩
  · by_contra hnot
    obtain ⟨n, hn⟩ := hright.write r he hah
    exact (write_full a (dispatch_write hah) (by omega) n).1 (.inl hn)
  · refine ⟨?_, ?_, ?_, ?_, ?_, ?_, ?_, ?_, ?_, ?_⟩
    · rw [a.head]
      exact inBuffer_place a.head_lt
    · rw [a.tail]
      exact inBuffer_place a.tail_lt
    · rw [a.order]
      exact List.prefix_append _ _
    · rintro kbd rfl
      obtain ⟨s', hs', -, hrest⟩ := after_interrupt a kbd
      exact ⟨s', hs', hrest⟩
    · exact fun r _ hah hempty => int16_read_empty a (dispatch_read hah) hempty
    · intro r _ hah k rest hk
      obtain ⟨c, hc, hlabel, hax, hstored, hreturned, -⟩ := int16_read a (dispatch_read hah) hk
      exact ⟨c, hc, hlabel, hax, hstored, hreturned⟩
    · exact fun r _ hah => int16_status a (dispatch_status hah)
    · intro r he hah
      have hne : s.pending.length ≠ 15 := Nat.ne_of_lt (hroom r he hah)
      obtain ⟨c, hc, hlabel, -⟩ := int16_write a (dispatch_write hah) hne
      obtain ⟨n, hn⟩ := Cpu.exists_iterate hc
      refine ⟨n, ?_⟩
      rw [hn, hlabel]
    · intro r _ hah hlen
      obtain ⟨c, hc, hlabel, hguest, -⟩ := int16_write a (dispatch_write hah) (Nat.ne_of_lt hlen)
      refine ⟨c, hc, hlabel, ?_, ?_⟩
      · rw [hguest]
        rfl
      · rw [hguest]
        rfl
    · exact fun r _ hah hfull n => (write_full a (dispatch_write hah) hfull n).2

/-- **Runs.** Along every run from the set-up on, the buffer is a queue of at most 15 keys and every
call comes to its end, if and only if no key is written into a full buffer. -/
theorem along_right_iff (b : Start) (es : List Event) :
    Along State.after Right b.state es ↔ Along State.after HasRoom b.state es :=
  after_holds.along_congr (fun _ e ⟨_, _, a⟩ => right_iff a e) ⟨0, 0, b.holds⟩

/-- A machine without hard disks. -/
def bare : Start where
  hw := ⟨640, [], 0, 0, 0, 0⟩
  tty := ⟨80, 25, 0xb8000, 4000, 8, 3, 0, 0, 0, 0x3d4, 0x3d5, false⟩
  mem := fun _ => 0x0f
  htables := by decide

/-- A virtual keyboard where a key was held down. -/
def held : Keyboard where
  vk := { initVkbd false (fun _ => 0x611e) 0 with inPos := 15 }
  hin := by decide
  hout := by decide

/-- After 15 keys from the keyboard, a key is written. -/
theorem not_along_right :
    ¬Along State.after Right bare.state [.interrupt held, .int16 ⟨0x0500, 0, 0, 0⟩] := by
  intro ⟨hfirst, hnext⟩
  obtain ⟨s', hs', ⟨t', hholds⟩, hreturned, hstored, -⟩ := after_interrupt bare.holds held
  have hfull : s'.pending.length = 15 := by
    rw [State.pending, hreturned, hstored]
    rfl
  obtain ⟨n, hn⟩ := (hnext s' hs').1.write _ rfl rfl
  exact (write_full hholds (dispatch_write rfl) hfull n).1 (.inl hn)

end Vmm386.Vbios.KbdBuffer
