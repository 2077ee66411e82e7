import Mathlib.Data.BitVec
import Mathlib.Data.List.GetD
import Vmm386.Modules.LoadFile

/-!
# Loading a module file safely
-/

namespace Vmm386.Modules.LoadFile

/-- What is to hold of `load_module`: it has stored only inside of the block, applied only
relocations that have been read, and on failure freed the block and left the module list. -/
structure Safe (chain : List ULong) (r : Option ULong × State) : Prop where
  stores : ∀ w ∈ r.2.stores, ∃ b ∈ r.2.block, b.Holds w
  entries : false ∉ r.2.entries
  failure : r.1 = none → r.2.modChain = chain ∧ ∀ b ∈ r.2.block, b.start ∈ r.2.freed

/-- The entries of the relocations in a file, from a position on. -/
def offsets (content : List UChar) (pos n : ℕ) : List ULong :=
  (List.range n).map fun j => long (fun i => content.getD i 0) (pos + 4 * j)

/-- The memory with a relocation applied. -/
def Memory.reloc (start : ULong) (m : Memory) (e : ULong) : Memory :=
  m.store (start + e) (longBytes (m.long (start + e) + start))

/-- The memory with the module in the block, its relocations applied. -/
def image (hdr : Header) (content text : List UChar) (start : ULong) (mem : Memory) : Memory :=
  (offsets content hdr.relOff.toNat hdr.numRelocs).foldl (Memory.reloc start)
    ((mem.store start text).clear (start + hdr.initSize) hdr.bssSize)

/-- The relocations are in the file, and the device does not fail before they have been read. -/
def Complete (x : Input) (content : List UChar) (left pos round : ℕ) : Prop :=
  pos + 4 * left ≤ content.length ∧
    ∀ k, RBUFSIZ * k < left → ∀ n ∈ x.relocFault (round + k),
      min RBUFSIZ (left - RBUFSIZ * k) * 4 ≤ n

/-- The fields of `struct module` that `load_module` stores: their offsets and sizes. -/
def moduleFields : List (ULong × ℕ) := [(12, 4), (16, 4), (36, 1), (10, 2), (0, 4)]

/-- The file is loaded without harm, the bytes `text` first. -/
structure Loads (x : Input) (hdr : Header) (content : List UChar) (block : Block) (mem : Memory)
    (text : List UChar) : Prop where
  size : hdr.initSize.toNat + hdr.bssSize.toNat < 2 ^ 32
  seek : canSeek content hdr.relOff x.relocSeekFails
  complete : Complete x content hdr.numRelocs hdr.relOff.toNat 0
  inside : ∀ e ∈ offsets content hdr.relOff.toNat hdr.numRelocs, e.toNat + 4 ≤ block.size.toNat
  kernel : block.Holds ((image hdr content text block.start mem).long (block.start + 4), 4)
  module : ∀ f ∈ moduleFields,
    block.Holds ((image hdr content text block.start mem).long block.start + f.1, f.2)

/-- When `load_module` is safe: it does not come to the module, or it loads it without harm. -/
def SafeInput (x : Input) (mem : Memory) : Prop :=
  ∀ content ∈ x.file, ∀ hdr ∈ readHeader x content, ∀ start ∈ x.malloc,
    canSeek content (BitVec.ofNat 32 HDR_SIZE) x.textSeekFails ∧
      ∃ text ∈ read content HDR_SIZE hdr.initSize.toNat x.textFault, 0 < text.length ∧
        Loads x hdr content ⟨start, hdr.modSize⟩ mem text

/-! ## Memory -/

theorem long_longBytes (v : ULong) : long (fun i => (longBytes v).getD i 0) 0 = v := by
  apply BitVec.eq_of_getLsbD_eq
  intro i hi
  unfold long longBytes
  simp only [BitVec.getLsbD_append, List.getD_cons_succ, List.getD_cons_zero,
    BitVec.getLsbD_extractLsb', Nat.zero_add]
  by_cases h8 : i < 8
  · simp [h8]
  · by_cases h16 : i < 16
    · have h : i - 8 < 8 := by omega
      have hadd : 8 + (i - 8) = i := by omega
      simp [h8, h, hadd]
    · by_cases h24 : i < 24
      · have h : ¬i - 8 < 8 := by omega
        have h' : i - 8 - 8 < 8 := by omega
        have hadd : 16 + (i - 8 - 8) = i := by omega
        simp [h8, h, h', hadd]
      · have h : ¬i - 8 < 8 := by omega
        have h' : ¬i - 8 - 8 < 8 := by omega
        have h'' : i - 8 - 8 - 8 < 8 := by omega
        have hadd : 24 + (i - 8 - 8 - 8) = i := by omega
        simp [h8, h, h', h'', hadd]

theorem long_congr {b b' : ℕ → UChar} (h : ∀ i < 4, b i = b' i) : long b 0 = long b' 0 := by
  unfold long
  rw [h _ (by decide), h _ (by decide), h _ (by decide), h _ (by decide)]

theorem Memory.long_store (m : Memory) (a v : ULong) : (m.store a (longBytes v)).long a = v := by
  have hbyte : ∀ i < 4, (m.store a (longBytes v)) (a + BitVec.ofNat 32 i) =
      (longBytes v).getD i 0 := by
    intro i hi
    have hlen : i < (longBytes v).length := hi
    rw [Memory.store, add_sub_cancel_left, BitVec.toNat_ofNat, Nat.mod_eq_of_lt (by omega),
      List.getD_eq_getElem _ _ hlen, List.getD_eq_getElem _ _ hlen]
  exact (long_congr hbyte).trans (long_longBytes v)

/-- A store leaves the fields alone that are not behind its address. -/
theorem Memory.store_field (m : Memory) (a c d : ULong) (bytes : List UChar)
    (h : bytes.length ≤ (c - d).toNat) : (m.store (a + d) bytes) (a + c) = m (a + c) := by
  have hsub : a + c - (a + d) = c - d := add_sub_add_left_eq_sub c d a
  rw [Memory.store, hsub, List.getD_eq_default _ _ h]

/-- A store leaves the fields alone that are not behind its address. -/
theorem Memory.long_store_field (m : Memory) (a c d : ULong) (bytes : List UChar)
    (h : ∀ i < 4, bytes.length ≤ (c + BitVec.ofNat 32 i - d).toNat) :
    (m.store (a + d) bytes).long (a + c) = m.long (a + c) := by
  refine long_congr fun i hi => ?_
  rw [add_assoc]
  exact m.store_field a _ d bytes (h i hi)

/-! ## Harm -/

/-- A store outside of the block, or a relocation that has not been read. -/
def State.Harmed (s : State) : Prop :=
  ∃ b ∈ s.block, (∃ w ∈ s.stores, ¬b.Holds w) ∨ false ∈ s.entries

/-- What a state keeps of an earlier one. -/
structure Extends (s s' : State) : Prop where
  block : s'.block = s.block
  stores : s.stores ⊆ s'.stores
  entries : s.entries ⊆ s'.entries

theorem Extends.refl (s : State) : Extends s s := ⟨rfl, List.Subset.refl _, List.Subset.refl _⟩

theorem Extends.trans {s s' s'' : State} (h : Extends s s') (h' : Extends s' s'') :
    Extends s s'' where
  block := h'.block.trans h.block
  stores := List.Subset.trans h.stores h'.stores
  entries := List.Subset.trans h.entries h'.entries

theorem Extends.harmed {s s' : State} (h : Extends s s') (hs : s.Harmed) : s'.Harmed := by
  obtain ⟨b, hb, hcases⟩ := hs
  refine ⟨b, h.block ▸ hb, ?_⟩
  rcases hcases with ⟨w, hw, hout⟩ | hentry
  · exact .inl ⟨w, h.stores hw, hout⟩
  · exact .inr (h.entries hentry)

/-- Harm stays. -/
theorem Extends.not_safe {s s' : State} {chain : List ULong} {r : Option ULong}
    (h : Extends s s') (hs : s.Harmed) : ¬Safe chain (r, s') := by
  intro hsafe
  obtain ⟨b, hb, hcases⟩ := h.harmed hs
  rcases hcases with ⟨w, hw, hout⟩ | hentry
  · obtain ⟨b', hb', hin⟩ := hsafe.stores w hw
    cases Option.mem_unique hb hb'
    exact hout hin
  · exact hsafe.entries hentry

/-- A block that has been lost. -/
theorem not_safe_of_leak {s : State} {chain : List ULong} {b : Block} (hb : b ∈ s.block)
    (hfreed : s.freed = []) : ¬Safe chain (none, s) := by
  intro hsafe
  have hmem := (hsafe.failure rfl).2 b hb
  dsimp only at hmem
  rw [hfreed] at hmem
  exact List.not_mem_nil hmem

/-! ## Relocations -/

section

variable {x : Input} {content : List UChar} {start : ULong} {s : State}

/-- Applying relocations one by one. -/
theorem foldl_applyReloc (es : List (ULong × Bool)) (s : State) :
    es.foldl (applyReloc start) s =
      { s with
        mem := (es.map Prod.fst).foldl (Memory.reloc start) s.mem
        stores := s.stores ++ es.map fun e => (start + e.1, 4)
        entries := s.entries ++ es.map Prod.snd } := by
  induction es generalizing s with
  | nil => simp
  | cons e es ih =>
    rw [List.foldl_cons, ih]
    unfold applyReloc State.store
    simp only [List.map_cons, List.foldl_cons, List.append_assoc, List.singleton_append]
    rfl

theorem extends_foldl (es : List (ULong × Bool)) (s : State) :
    Extends s (es.foldl (applyReloc start) s) := by
  rw [foldl_applyReloc]
  exact ⟨rfl, List.subset_append_left _ _, List.subset_append_left _ _⟩

theorem relocLoop_extends (x : Input) (content : List UChar) (start : ULong) (fuel : ℕ) :
    ∀ (left pos round : ℕ) (s : State),
    Extends s (relocLoop x content start fuel left pos round s).2 ∧
      (relocLoop x content start fuel left pos round s).2.freed = s.freed := by
  induction fuel with
  | zero => intro left pos round s; exact ⟨.refl s, rfl⟩
  | succ fuel ih =>
    intro left pos round s
    rw [relocLoop]
    split_ifs
    · exact ⟨.refl s, rfl⟩
    · dsimp only
      cases read content pos (min RBUFSIZ left * 4) (x.relocFault round) with
      | none => exact ⟨.refl s, rfl⟩
      | some bytes =>
        obtain ⟨hext, hfreed⟩ := ih (left - min RBUFSIZ left) (pos + bytes.length) (round + 1)
          ((rbufEntries (x.stack round) bytes (min RBUFSIZ left)).foldl (applyReloc start) s)
        refine ⟨(extends_foldl _ s).trans hext, hfreed.trans ?_⟩
        rw [foldl_applyReloc]

/-- A read that gives all that is asked for. -/
theorem read_full {pos len : ℕ} {fault : Fault} (hlen : pos + len ≤ content.length) (hpos : 0 < len)
    (hfault : ∀ n ∈ fault, len ≤ n) :
    read content pos len fault = some ((content.drop pos).take len) := by
  have hlength : ((content.drop pos).take len).length = len := by
    rw [List.length_take, List.length_drop]
    omega
  unfold read
  cases fault with
  | none => rfl
  | some n =>
    have hle := hfault n rfl
    cases n with
    | zero => omega
    | succ n => exact congrArg some (List.take_of_length_le (by omega))

/-- A read that does not give all that is asked for. -/
theorem read_short {pos len : ℕ} {fault : Fault}
    (h : ¬(pos + len ≤ content.length ∧ ∀ n ∈ fault, len ≤ n)) (hpos : 0 < len) {bytes : List UChar}
    (hread : read content pos len fault = some bytes) : bytes.length < len := by
  unfold read at hread
  cases fault with
  | none =>
    cases hread
    rw [List.length_take, List.length_drop]
    have hlen : ¬pos + len ≤ content.length := fun hc => h ⟨hc, fun n hn => absurd hn (by simp)⟩
    omega
  | some n =>
    cases n with
    | zero => exact absurd hread.symm (Option.some_ne_none _)
    | succ n =>
      cases hread
      rw [List.length_take, List.length_take, List.length_drop]
      by_cases hlen : pos + len ≤ content.length
      · have hn : ¬len ≤ n + 1 := fun hc => h ⟨hlen, fun m hm => by
          cases Option.some_inj.mp hm
          exact hc⟩
        omega
      · omega

/-- The entries of a full `rbuf`. -/
theorem rbufEntries_full {stack : ℕ → UChar} {pos n : ℕ} (h : pos + n * 4 ≤ content.length) :
    rbufEntries stack ((content.drop pos).take (n * 4)) n =
      (offsets content pos n).map fun e => (e, true) := by
  have hlength : ((content.drop pos).take (n * 4)).length = n * 4 := by
    rw [List.length_take, List.length_drop]
    omega
  have hbyte : ∀ i < n * 4, ∀ d, ((content.drop pos).take (n * 4)).getD i d =
      content.getD (pos + i) 0 := by
    intro i hi d
    have hi' : i < ((content.drop pos).take (n * 4)).length := by omega
    rw [List.getD_eq_getElem _ _ hi', List.getD_eq_getElem _ _ (by omega), List.getElem_take,
      List.getElem_drop]
  unfold rbufEntries offsets
  rw [List.map_map]
  refine List.map_congr_left fun j hj => ?_
  rw [List.mem_range] at hj
  refine Prod.ext ?_ (decide_eq_true (by omega))
  unfold long
  dsimp only [Function.comp_apply]
  rw [hbyte _ (by omega), hbyte _ (by omega), hbyte _ (by omega), hbyte _ (by omega)]
  rfl

theorem offsets_append (content : List UChar) (pos m n : ℕ) :
    offsets content pos (m + n) = offsets content pos m ++ offsets content (pos + m * 4) n := by
  unfold offsets
  rw [List.range_add, List.map_append, List.map_map]
  refine congrArg _ (List.map_congr_left fun j _ => ?_)
  rw [Function.comp_apply]
  congr 1
  ring

/-- What the first round reads, and what is left. -/
theorem complete_step {left pos round : ℕ} (h : 0 < left) :
    Complete x content left pos round ↔
      (pos + min RBUFSIZ left * 4 ≤ content.length ∧
        ∀ n ∈ x.relocFault round, min RBUFSIZ left * 4 ≤ n) ∧
      Complete x content (left - min RBUFSIZ left) (pos + min RBUFSIZ left * 4) (round + 1) := by
  unfold Complete
  have hbuf : RBUFSIZ = 64 := rfl
  constructor
  · intro hc
    obtain ⟨hlen, hfault⟩ := hc
    refine ⟨⟨by omega, ?_⟩, by omega, ?_⟩
    · intro n hn
      have hzero := hfault 0 (by omega) n hn
      omega
    · intro k hk n hn
      have hround : round + 1 + k = round + (k + 1) := by omega
      have hmul : RBUFSIZ * (k + 1) = RBUFSIZ * k + RBUFSIZ := Nat.mul_succ _ _
      rw [hround] at hn
      have hsucc := hfault (k + 1) (by omega) n hn
      omega
  · intro hc
    obtain ⟨⟨hfirst, hfault⟩, hlen, hrest⟩ := hc
    refine ⟨by omega, fun k hk n hn => ?_⟩
    cases k with
    | zero =>
      have hzero := hfault n hn
      omega
    | succ k =>
      have hround : round + (k + 1) = round + 1 + k := by omega
      have hmul : RBUFSIZ * (k + 1) = RBUFSIZ * k + RBUFSIZ := Nat.mul_succ _ _
      rw [hround] at hn
      have hsucc := hrest k (by omega) n hn
      omega

/-- **`fix_relocs`**, where all relocations can be read. -/
theorem relocLoop_complete (fuel : ℕ) : ∀ {left pos round : ℕ} (s : State), left ≤ fuel →
    Complete x content left pos round →
      relocLoop x content start fuel left pos round s =
        (true, ((offsets content pos left).map fun e => (e, true)).foldl (applyReloc start) s) := by
  induction fuel with
  | zero =>
    intro left pos round s hfuel _
    cases Nat.le_zero.mp hfuel
    rfl
  | succ fuel ih =>
    intro left pos round s hfuel h
    rw [relocLoop]
    by_cases hleft : left = 0
    · subst hleft
      rw [if_pos rfl]
      rfl
    · rw [if_neg hleft]
      dsimp only
      have hpos : 0 < left := Nat.pos_of_ne_zero hleft
      have hthis : 0 < min RBUFSIZ left * 4 := by
        have hbuf : RBUFSIZ = 64 := rfl
        omega
      obtain ⟨⟨hfirst, hfault⟩, hrest⟩ := (complete_step hpos).mp h
      have hlength : ((content.drop pos).take (min RBUFSIZ left * 4)).length =
          min RBUFSIZ left * 4 := by
        rw [List.length_take, List.length_drop]
        omega
      have hsplit := offsets_append content pos (min RBUFSIZ left)
        (left - min RBUFSIZ left)
      rw [Nat.add_sub_cancel' (min_le_right _ _)] at hsplit
      rw [read_full hfirst hthis hfault]
      dsimp only
      rw [hlength, rbufEntries_full hfirst, ih _ (by omega) hrest, hsplit, List.map_append,
        List.foldl_append]

/-- Where not all relocations can be read, one is applied all the same, or `fix_relocs` fails. -/
theorem relocLoop_incomplete (start : ULong) (fuel : ℕ) : ∀ {left pos round : ℕ} (s : State), left ≤ fuel →
    ¬Complete x content left pos round → pos ≤ content.length →
      (relocLoop x content start fuel left pos round s).1 = false ∨
        false ∈ (relocLoop x content start fuel left pos round s).2.entries := by
  induction fuel with
  | zero =>
    intro left pos round s hfuel h hpos
    cases Nat.le_zero.mp hfuel
    exact absurd ⟨hpos, fun k hk => absurd hk (Nat.not_lt_zero _)⟩ h
  | succ fuel ih =>
    intro left pos round s hfuel h hpos
    rw [relocLoop]
    by_cases hleft : left = 0
    · subst hleft
      exact absurd ⟨hpos, fun k hk => absurd hk (Nat.not_lt_zero _)⟩ h
    · rw [if_neg hleft]
      dsimp only
      have hthis : 0 < min RBUFSIZ left := by
        have hbuf : RBUFSIZ = 64 := rfl
        omega
      rw [complete_step (Nat.pos_of_ne_zero hleft)] at h
      by_cases hfull : pos + min RBUFSIZ left * 4 ≤ content.length ∧
          ∀ n ∈ x.relocFault round, min RBUFSIZ left * 4 ≤ n
      · have hlength : ((content.drop pos).take (min RBUFSIZ left * 4)).length =
            min RBUFSIZ left * 4 := by
          rw [List.length_take, List.length_drop]
          omega
        rw [read_full hfull.1 (by omega) hfull.2]
        dsimp only
        rw [hlength]
        exact ih _ (by omega) (fun hc => h ⟨hfull, hc⟩) hfull.1
      · cases hread : read content pos (min RBUFSIZ left * 4) (x.relocFault round) with
        | none => exact .inl rfl
        | some bytes =>
          -- the last entry has not been read completely
          have hshort := read_short hfull (by omega) hread
          have hlast : (long (fun i => bytes.getD i (x.stack round i))
              (4 * (min RBUFSIZ left - 1)), false) ∈
              rbufEntries (x.stack round) bytes (min RBUFSIZ left) := by
            refine List.mem_map.mpr ⟨min RBUFSIZ left - 1, List.mem_range.mpr (by omega), ?_⟩
            exact Prod.ext rfl (decide_eq_false (by omega))
          refine .inr ((relocLoop_extends x content start fuel _ _ _ _).1.entries ?_)
          rw [foldl_applyReloc]
          exact List.mem_append_right _ (List.mem_map.mpr ⟨_, hlast, rfl⟩)

end

/-! ## The module -/

section

variable {x : Input} {block : Block} {s : State} {mod : ULong}

theorem linkModule_stores (x : Input) (block : Block) (mod : ULong) (s : State) :
    (linkModule x block mod s).stores =
      s.stores ++ (s.mem.long (block.start + 4), 4) ::
        moduleFields.map fun f => (mod + f.1, f.2) := by
  unfold linkModule addModule State.store moduleFields
  simp only [List.append_assoc, List.map_cons, List.map_nil, List.singleton_append, add_zero]
  rfl

/-- The fields that `free_module` looks at. -/
theorem linkModule_fields (x : Input) (block : Block) (mod : ULong) (s : State) :
    (linkModule x block mod s).mem.long (mod + 12) = block.start ∧
      (linkModule x block mod s).mem (mod + 36) = 0 := by
  have hzero : ∀ (m : Memory) (bytes : List UChar), m.store mod bytes = m.store (mod + 0) bytes :=
    fun m bytes => by rw [add_zero]
  unfold linkModule addModule State.store
  dsimp only
  rw [hzero]
  constructor
  · have hnext : ∀ i < 4, 4 ≤ ((12 : ULong) + BitVec.ofNat 32 i - 0).toNat := by decide
    have hsize : ∀ i < 4, 4 ≤ ((12 : ULong) + BitVec.ofNat 32 i - 16).toNat := by decide
    rw [Memory.long_store_field _ mod 12 0 (longBytes _) hnext,
      Memory.long_store_field _ mod 12 10 _ (by decide),
      Memory.long_store_field _ mod 12 36 _ (by decide),
      Memory.long_store_field _ mod 12 16 (longBytes _) hsize, Memory.long_store]
  · have hnext : 4 ≤ ((36 : ULong) - 0).toNat := by decide
    rw [Memory.store_field _ mod 36 0 (longBytes _) hnext,
      Memory.store_field _ mod 36 10 _ (by decide), Memory.store, sub_self]
    rfl

/-- What the module that is linked in holds, or what becomes of it if its `init` fails: in any
case no other fields are stored. -/
theorem startModule_spec (x : Input) (block : Block) (s : State) :
    let r := startModule x block s
    let mod := s.mem.long block.start
    r.2.block = s.block ∧ r.2.entries = s.entries ∧
      s.stores ++ (s.mem.long (block.start + 4), 4) ::
          moduleFields.map (fun f => (mod + f.1, f.2)) ⊆ r.2.stores ∧
      r.2.stores ⊆
        s.stores ++ (s.mem.long (block.start + 4), 4) ::
          moduleFields.map (fun f => (mod + f.1, f.2)) ∧
      (r.1 = none → r.2.modChain = s.modChain ∧ block.start ∈ r.2.freed) := by
  dsimp only
  obtain ⟨hstart, hstatic⟩ := linkModule_fields x block (s.mem.long block.start) s
  have hstores := linkModule_stores x block (s.mem.long block.start) s
  have hfield : ∀ f ∈ moduleFields, (s.mem.long block.start + f.1, f.2) ∈
      (linkModule x block (s.mem.long block.start) s).stores := by
    intro f hf
    rw [hstores]
    exact List.mem_append_right _ (List.mem_cons_of_mem _ (List.mem_map.mpr ⟨f, hf, rfl⟩))
  rw [← hstores]
  unfold startModule
  dsimp only
  split_ifs with hinit
  · refine ⟨rfl, rfl, List.subset_append_left _ _, ?_, fun h => h.elim⟩
    exact List.append_subset.mpr
      ⟨List.Subset.refl _, List.cons_subset.mpr ⟨hfield (10, 2) (by decide), List.nil_subset _⟩⟩
  · rw [freeModule, removeModule, if_pos hstatic]
    refine ⟨rfl, rfl, ?_, ?_, fun _ => ⟨?_, ?_⟩⟩
    · exact List.Subset.trans (List.subset_append_left _ _) (List.subset_append_left _ _)
    · refine List.append_subset.mpr ⟨List.append_subset.mpr ⟨List.Subset.refl _, ?_⟩, ?_⟩
      · exact List.cons_subset.mpr ⟨hfield (12, 4) (by decide), List.nil_subset _⟩
      · exact List.cons_subset.mpr ⟨hfield (16, 4) (by decide), List.nil_subset _⟩
    · exact List.erase_cons_head ..
    · exact List.mem_append_right _ (List.mem_singleton.mpr hstart.symm)

/-- The structure of the module and the pointer to the kernel lie in the block, or
`load_module` does harm. -/
theorem startModule_safe_iff (hblock : s.block = some block)
    (hstores : ∀ w ∈ s.stores, block.Holds w) (hentries : false ∉ s.entries) :
    Safe s.modChain (startModule x block s) ↔
      block.Holds (s.mem.long (block.start + 4), 4) ∧
        ∀ f ∈ moduleFields, block.Holds (s.mem.long block.start + f.1, f.2) := by
  obtain ⟨hb, he, hsup, hsub, hfail⟩ := startModule_spec x block s
  have hb' := hb.trans hblock
  have hall : (∀ w ∈ (startModule x block s).2.stores, ∃ b ∈ (startModule x block s).2.block,
      b.Holds w) ↔ ∀ w ∈ (startModule x block s).2.stores, block.Holds w := by
    refine forall₂_congr fun w _ => ?_
    rw [hb']
    constructor
    · intro h
      obtain ⟨b, hmem, hw⟩ := h
      cases Option.some_inj.mp hmem
      exact hw
    · intro h
      exact ⟨block, rfl, h⟩
  constructor
  · intro hsafe
    have hmem := hall.mp hsafe.stores
    refine ⟨hmem _ (hsup ?_), fun f hf => hmem _ (hsup ?_)⟩
    · exact List.mem_append_right _ List.mem_cons_self
    · exact List.mem_append_right _ (List.mem_cons_of_mem _ (List.mem_map.mpr ⟨f, hf, rfl⟩))
  · intro h
    obtain ⟨hkernel, hmodule⟩ := h
    refine ⟨hall.mpr fun w hw => ?_, he ▸ hentries, fun hnone => ⟨(hfail hnone).1, ?_⟩⟩
    · rcases List.mem_append.mp (hsub hw) with hw | hw
      · exact hstores w hw
      · rcases List.mem_cons.mp hw with rfl | hw
        · exact hkernel
        · obtain ⟨f, hf, rfl⟩ := List.mem_map.mp hw
          exact hmodule f hf
    · intro b hmem
      rw [hb'] at hmem
      cases Option.some_inj.mp hmem
      exact (hfail hnone).2

theorem startModule_extends (x : Input) (block : Block) (s : State) :
    Extends s (startModule x block s).2 := by
  obtain ⟨hb, he, hsup, -⟩ := startModule_spec x block s
  refine ⟨hb, List.Subset.trans (List.subset_append_left _ _) hsup, ?_⟩
  rw [he]
  exact List.Subset.refl _

end

/-! ## The file -/

section

variable {x : Input} {hdr : Header} {content : List UChar} {block : Block} {s : State}

theorem finishLoad_not_safe {chain : List ULong} (h : s.Harmed) :
    ¬Safe chain (finishLoad x hdr content block s) := by
  unfold finishLoad fixRelocs
  split_ifs
  · obtain ⟨hext, -⟩ := relocLoop_extends x content block.start
      hdr.numRelocs hdr.numRelocs hdr.relOff.toNat 0 s
    generalize relocLoop x content block.start hdr.numRelocs hdr.numRelocs hdr.relOff.toNat 0 s =
      r at hext
    obtain ⟨ok, s'⟩ := r
    cases ok with
    | false => exact hext.not_safe h
    | true => exact (startModule_extends x block s').not_safe (hext.harmed h)
  · exact (Extends.refl s).not_safe h

/-- Relocations that have all been read. -/
theorem applied (es : List ULong) (start : ULong) (s : State) :
    let s' := (es.map fun e => (e, true)).foldl (applyReloc start) s
    s'.mem = es.foldl (Memory.reloc start) s.mem ∧ s'.modChain = s.modChain ∧
      s'.block = s.block ∧ s'.stores = s.stores ++ es.map (fun e => (start + e, 4)) ∧
      s'.entries = s.entries ++ es.map (fun _ => true) := by
  dsimp only
  rw [foldl_applyReloc, List.map_map, List.map_map, List.map_map]
  refine ⟨?_, rfl, rfl, rfl, rfl⟩
  exact congrArg (fun es => List.foldl (Memory.reloc start) s.mem es) (List.map_id es)

/-- What is left of the condition behind the first `memset`. -/
theorem finishLoad_safe_iff {chain : List ULong} (hchain' : s.modChain = chain)
    (hblock : s.block = some block) (hfreed : s.freed = [])
    (hstores : ∀ w ∈ s.stores, block.Holds w) (hentries : s.entries = []) :
    Safe chain (finishLoad x hdr content block s) ↔
      canSeek content hdr.relOff x.relocSeekFails ∧
        Complete x content hdr.numRelocs hdr.relOff.toNat 0 ∧
        (∀ e ∈ offsets content hdr.relOff.toNat hdr.numRelocs, e.toNat + 4 ≤ block.size.toNat) ∧
        let mem := (offsets content hdr.relOff.toNat hdr.numRelocs).foldl
          (Memory.reloc block.start) s.mem
        block.Holds (mem.long (block.start + 4), 4) ∧
          ∀ f ∈ moduleFields, block.Holds (mem.long block.start + f.1, f.2) := by
  subst hchain'
  unfold finishLoad fixRelocs
  by_cases hseek : canSeek content hdr.relOff x.relocSeekFails
  · rw [if_pos hseek, and_iff_right hseek]
    have hpos : hdr.relOff.toNat ≤ content.length := by
      have hle := of_decide_eq_true (Bool.and_eq_true_iff.mp hseek).2
      rw [BitVec.toInt_eq_toNat_cond] at hle
      have hlt := hdr.relOff.isLt
      split_ifs at hle <;> omega
    by_cases hcomplete : Complete x content hdr.numRelocs hdr.relOff.toNat 0
    · rw [and_iff_right hcomplete, relocLoop_complete _ s le_rfl hcomplete]
      dsimp only
      obtain ⟨hmem, hchain, hblock', hstores', hentries'⟩ :=
        applied (offsets content hdr.relOff.toNat hdr.numRelocs) block.start s
      generalize ((offsets content hdr.relOff.toNat hdr.numRelocs).map fun e => (e, true)).foldl
        (applyReloc block.start) s = s' at *
      rw [hblock] at hblock'
      rw [← hmem, ← hchain]
      by_cases hinside : ∀ e ∈ offsets content hdr.relOff.toNat hdr.numRelocs,
          e.toNat + 4 ≤ block.size.toNat
      · rw [and_iff_right hinside]
        refine startModule_safe_iff hblock' (fun w hw => ?_) fun hc => ?_
        · rw [hstores'] at hw
          rcases List.mem_append.mp hw with hw | hw
          · exact hstores w hw
          · obtain ⟨e, he, rfl⟩ := List.mem_map.mp hw
            refine .inr ?_
            dsimp only
            rw [add_sub_cancel_left]
            exact hinside e he
        · rw [hentries', hentries, List.nil_append] at hc
          obtain ⟨e, -, he⟩ := List.mem_map.mp hc
          exact absurd he (by decide)
      · -- a relocation outside of the block
        refine iff_of_false (Extends.not_safe (startModule_extends x block s') ?_)
          fun hc => hinside hc.1
        obtain ⟨e, he, hout⟩ : ∃ e ∈ offsets content hdr.relOff.toNat hdr.numRelocs,
            ¬e.toNat + 4 ≤ block.size.toNat := by
          by_contra hnone
          exact hinside fun e he => by_contra fun hc => hnone ⟨e, he, hc⟩
        refine ⟨block, hblock', .inl ⟨(block.start + e, 4), ?_, fun hc => ?_⟩⟩
        · rw [hstores']
          exact List.mem_append_right _ (List.mem_map.mpr ⟨e, he, rfl⟩)
        · rcases hc with hc | hc
          · exact absurd hc (Nat.succ_ne_zero 3)
          · dsimp only at hc
            rw [add_sub_cancel_left] at hc
            exact hout hc
    · refine iff_of_false ?_ fun hc => hcomplete hc.1
      have hbad := relocLoop_incomplete block.start hdr.numRelocs s le_rfl hcomplete hpos
      obtain ⟨hext, hfreed'⟩ := relocLoop_extends x content
        block.start hdr.numRelocs hdr.numRelocs hdr.relOff.toNat 0 s
      generalize relocLoop x content block.start hdr.numRelocs hdr.numRelocs hdr.relOff.toNat 0 s =
        r at hbad hext hfreed'
      obtain ⟨ok, s'⟩ := r
      have hblock' : s'.block = some block := hext.block.trans hblock
      cases ok with
      | false => exact not_safe_of_leak hblock' (hfreed'.trans hfreed)
      | true =>
        have hentry := hbad.resolve_left (Ne.symm Bool.false_ne_true)
        exact (startModule_extends x block s').not_safe ⟨block, hblock', .inr hentry⟩
  · rw [if_neg hseek]
    exact iff_of_false (not_safe_of_leak hblock hfreed) fun hc => hseek hc.1

/-- The bytes of the module that are read are not more than the block holds. -/
theorem read_length_le {pos len : ℕ} {fault : Fault} {bytes : List UChar}
    (h : read content pos len fault = some bytes) : bytes.length ≤ len := by
  unfold read at h
  cases fault with
  | none =>
    cases h
    exact List.length_take_le _ _
  | some n =>
    cases n with
    | zero => exact absurd h.symm (Option.some_ne_none _)
    | succ n =>
      cases h
      exact (List.length_take_le' _ _).trans (List.length_take_le _ _)

/-- `load_module`, once it has a block. -/
theorem loadBlock_safe_iff {start : ULong} {mem : Memory} {chain : List ULong} :
    Safe chain (loadBlock x hdr content ⟨start, hdr.modSize⟩ { mem := mem, modChain := chain }) ↔
      canSeek content (BitVec.ofNat 32 HDR_SIZE) x.textSeekFails ∧
        ∃ text ∈ read content HDR_SIZE hdr.initSize.toNat x.textFault, 0 < text.length ∧
          Loads x hdr content ⟨start, hdr.modSize⟩ mem text := by
  unfold loadBlock
  dsimp only
  by_cases hseek : canSeek content (BitVec.ofNat 32 HDR_SIZE) x.textSeekFails
  · rw [if_pos hseek, and_iff_right hseek]
    cases htext : read content HDR_SIZE hdr.initSize.toNat x.textFault with
    | none =>
      refine iff_of_false (not_safe_of_leak rfl rfl) fun hc => ?_
      obtain ⟨text, hmem, -⟩ := hc
      exact absurd hmem (by simp)
    | some text =>
      have hexists : (∃ text' ∈ some text, 0 < text'.length ∧
          Loads x hdr content ⟨start, hdr.modSize⟩ mem text') ↔
          0 < text.length ∧ Loads x hdr content ⟨start, hdr.modSize⟩ mem text := by simp
      have hlen := read_length_le htext
      rw [hexists]
      dsimp only
      by_cases hpos : 0 < text.length
      · rw [if_pos hpos, and_iff_right hpos]
        have hmod : hdr.modSize.toNat = (hdr.initSize.toNat + hdr.bssSize.toNat) % 2 ^ 32 :=
          BitVec.toNat_add _ _
        by_cases hsize : hdr.initSize.toNat + hdr.bssSize.toNat < 2 ^ 32
        · rw [Nat.mod_eq_of_lt hsize] at hmod
          refine Iff.trans (finishLoad_safe_iff rfl rfl rfl (fun w hw => ?_) rfl) ?_
          · rcases List.mem_append.mp hw with hw | hw
            · cases List.mem_singleton.mp hw
              refine .inr ?_
              dsimp only
              have hzero : (0 : ULong).toNat = 0 := rfl
              rw [sub_self, hzero]
              omega
            · cases List.mem_singleton.mp hw
              refine .inr ?_
              dsimp only
              rw [add_sub_cancel_left]
              omega
          · constructor
            · intro hc
              obtain ⟨hrel, hcomplete, hinside, hkernel, hmodule⟩ := hc
              exact ⟨hsize, hrel, hcomplete, hinside, hkernel, hmodule⟩
            · intro hc
              exact ⟨hc.seek, hc.complete, hc.inside, hc.kernel, hc.module⟩
        · -- the sum wraps, and `memset` reaches around the block
          refine iff_of_false (finishLoad_not_safe ?_) fun hc => hsize hc.size
          refine ⟨⟨start, hdr.modSize⟩, rfl,
            .inl ⟨(start + hdr.initSize, hdr.bssSize.toNat), ?_, fun hc => ?_⟩⟩
          · exact List.mem_append_right _ (List.mem_singleton_self _)
          · have hinit := hdr.initSize.isLt
            have hlt := hdr.modSize.isLt
            rcases hc with hc | hc
            · dsimp only at hc
              omega
            · dsimp only at hc
              rw [add_sub_cancel_left] at hc
              omega
      · rw [if_neg hpos]
        exact iff_of_false (not_safe_of_leak rfl rfl) fun hc => hpos hc.1
  · rw [if_neg hseek]
    exact iff_of_false (not_safe_of_leak rfl rfl) fun hc => hseek hc.1

/-- Nothing happens before there is a block. -/
theorem safe_start (mem : Memory) (chain : List ULong) :
    Safe chain (none, { mem := mem, modChain := chain }) where
  stores w hw := absurd hw List.not_mem_nil
  entries := List.not_mem_nil
  failure _ := ⟨rfl, fun b hb => absurd hb (by simp)⟩

end

/-- **Loading safely.** `load_module` stores only inside of the block that it has allocated,
applies only relocations that it has read, and on failure frees the block and leaves the module
list as it was, exactly if it does not come to the module or the module is loaded without harm. -/
theorem loadModule_safe_iff (x : Input) (mem : Memory) (chain : List ULong) :
    Safe chain (loadModule x { mem := mem, modChain := chain }) ↔ SafeInput x mem := by
  unfold loadModule SafeInput
  cases x.file with
  | none => exact iff_of_true (safe_start mem chain) fun content h => absurd h (by simp)
  | some content =>
    have hcontent : ∀ {P : List UChar → Prop}, (∀ c ∈ some content, P c) ↔ P content := by simp
    rw [hcontent]
    dsimp only
    cases readHeader x content with
    | none => exact iff_of_true (safe_start mem chain) fun hdr h => absurd h (by simp)
    | some hdr =>
      have hhdr : ∀ {P : Header → Prop}, (∀ h ∈ some hdr, P h) ↔ P hdr := by simp
      rw [hhdr]
      dsimp only
      cases x.malloc with
      | none => exact iff_of_true (safe_start mem chain) fun start h => absurd h (by simp)
      | some start =>
        have hstart : ∀ {P : ULong → Prop}, (∀ a ∈ some start, P a) ↔ P start := by simp
        rw [hstart]
        exact loadBlock_safe_iff

/-- A header with 4 bytes of code, and a file that ends behind it. -/
def truncated : List UChar := [0x41, 0xDF, 1, 0, 4, 0, 0, 0] ++ List.replicate 40 0

/-- The block for a module that is not in the file is never freed. -/
theorem loadModule_truncated :
    ¬Safe [] (loadModule { file := some truncated, malloc := some 0x1000, kernel := 0x2000 }
      { mem := fun _ => 0, modChain := [] }) := by
  have hresult : (loadModule { file := some truncated, malloc := some 0x1000, kernel := 0x2000 }
        { mem := fun _ => 0, modChain := [] }).1 = none ∧
      (loadModule { file := some truncated, malloc := some 0x1000, kernel := 0x2000 }
        { mem := fun _ => 0, modChain := [] }).2.block = some ⟨0x1000, 4⟩ ∧
      (loadModule { file := some truncated, malloc := some 0x1000, kernel := 0x2000 }
        { mem := fun _ => 0, modChain := [] }).2.freed = [] := by decide +kernel
  obtain ⟨hnone, hblock, hfreed⟩ := hresult
  intro h
  have hmem := (h.failure hnone).2 _ hblock
  rw [hfreed] at hmem
  exact List.not_mem_nil hmem

end Vmm386.Modules.LoadFile
